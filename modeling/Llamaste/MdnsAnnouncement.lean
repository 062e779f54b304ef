import Llamaste.MdnsNames

/-!
# An announcement is understood

The reader of a response goes through the records that the writer appended, and the data of
each is what the writer put in. The SRV record makes the one service of the result, and it
finds the TXT record of the same owner and the A record of its target.

## Main results

* `parseRecords_at`: the reader takes a written record by its type and goes on behind it.
* `parseServiceResponses_announcement`: a node's own announcement is read back.
-/

namespace Llamaste

open Wire

/-! ### One record -/

/-- The reader finds the header and the data of a written record. -/
theorem parseRecord_at {name : Text} (hname : IsDnsName name) {type cls : UInt16}
    {ttl : UInt32} {rdata : Bytes} (hrdata : rdata.length < 65536) {pkt : Bytes} {i : ℕ}
    (h : At (encodeRecord name type cls ttl rdata) i pkt) (serviceType : Text)
    (recs : Records) :
    ∃ start, start + rdata.length = i + (encodeRecord name type cls ttl rdata).length ∧
      At rdata start pkt ∧
      parseRecord pkt serviceType i recs =
        (parseRdata pkt serviceType name type (UInt16.ofNat rdata.length) start recs).map
          fun recs => some (start + rdata.length, recs) := by
  obtain ⟨hown, h⟩ := at_append.mp h
  obtain ⟨htype, h⟩ := at_append.mp h
  obtain ⟨hcls, h⟩ := at_append.mp h
  obtain ⟨httl, h⟩ := at_append.mp h
  obtain ⟨hlength, hdata⟩ := at_append.mp h
  have hofNat : (UInt16.ofNat rdata.length).toNat = rdata.length := by
    rw [UInt16.toNat_ofNat']
    exact Nat.mod_eq_of_lt hrdata
  simp only [length_put16, length_put32, Nat.add_assoc, Nat.reduceAdd] at hcls hlength hdata
  refine ⟨i + ((encodeDnsName name).length + 10), ?_, hdata, ?_⟩
  · simp only [encodeRecord, List.length_append, length_put16, length_put32]
    omega
  · have hfits := hdata.le
    simp only [Nat.add_assoc] at hfits
    simp only [parseRecord, decodeDnsName_at hname hown, htype.get16, Nat.add_assoc, hcls.get16,
      hlength.get16, hofNat, Option.bind_eq_bind, Option.bind_some, Option.pure_def]
    rw [if_neg (by omega), if_neg (by omega)]
    cases parseRdata pkt serviceType name type (UInt16.ofNat rdata.length)
      (i + ((encodeDnsName name).length + 10)) recs <;> rfl

/-- **The reader takes a written record by its type** and goes on behind it. -/
theorem parseRecords_at {name : Text} (hname : IsDnsName name) {type cls : UInt16}
    {ttl : UInt32} {rdata : Bytes} (hrdata : rdata.length < 65536) {pkt : Bytes} {i : ℕ}
    (h : At (encodeRecord name type cls ttl rdata) i pkt) {serviceType : Text} {recs : Records}
    {recs' : Records}
    (hread : ∀ start, At rdata start pkt →
      parseRdata pkt serviceType name type (UInt16.ofNat rdata.length) start recs = some recs')
    (n : ℕ) :
    parseRecords pkt serviceType (n + 1) i recs =
      parseRecords pkt serviceType n (i + (encodeRecord name type cls ttl rdata).length)
        recs' := by
  obtain ⟨start, hend, hdata, hrecord⟩ := parseRecord_at hname hrdata h serviceType recs
  have hlt : i < pkt.length := by
    have hle := h.le
    simp only [encodeRecord, List.length_append, length_put16] at hle
    omega
  rw [parseRecords, if_pos hlt, hrecord, hread start hdata, hend]
  rfl

/-! ### The data of each type -/

/-- A PTR record adds nothing. -/
theorem parseRdata_ptr (pkt : Bytes) (serviceType name : Text) (rdlength : UInt16) (start : ℕ)
    (recs : Records) :
    parseRdata pkt serviceType name dnsTypePtr rdlength start recs = some recs := by
  simp [parseRdata, dnsTypePtr, dnsTypeSrv, dnsTypeTxt, dnsTypeA]

/-- The host's name is left when the suffix is stripped. -/
theorem stripLocal_append {hostname : Text} (h : hostname ≠ []) :
    stripLocal (hostname ++ localSuffix) = hostname := by
  have hpos := List.length_pos_iff.mpr h
  rw [stripLocal, if_pos] <;> simp [hpos]

/-- An SRV record of the wanted service is kept with its port and target. -/
theorem parseRdata_srv {hostname : Text} (hhost : IsDnsName (hostname ++ localSuffix))
    (hne : hostname ≠ []) {port : UInt16} {pkt : Bytes} {start : ℕ}
    (h : At (srvRdata (hostname ++ localSuffix) port) start pkt)
    (hlen : (srvRdata (hostname ++ localSuffix) port).length < 65536) {serviceType name : Text}
    (hwanted : wanted serviceType name = true) (recs : Records) :
    parseRdata pkt serviceType name dnsTypeSrv
        (UInt16.ofNat (srvRdata (hostname ++ localSuffix) port).length) start recs =
      some { recs with srv := recs.srv ++ [(name, { target := hostname, port })] } := by
  have hsix : UInt16.ofNat (srvRdata (hostname ++ localSuffix) port).length ≥ 6 := by
    rw [ge_iff_le, UInt16.le_iff_toNat_le, UInt16.toNat_ofNat', Nat.mod_eq_of_lt hlen]
    have hnat : UInt16.toNat 6 = 6 := rfl
    simp only [hnat, srvRdata, List.length_append, length_put16]
    omega
  obtain ⟨hpriority, h⟩ := at_append.mp h
  obtain ⟨hweight, h⟩ := at_append.mp h
  obtain ⟨hport, htarget⟩ := at_append.mp h
  simp only [length_put16, Nat.add_assoc, Nat.reduceAdd] at hport htarget
  rw [parseRdata, if_pos ⟨rfl, hsix⟩, hport.get16, Option.bind_eq_bind, Option.bind_some,
    decodeDnsName_at hhost htarget, Option.bind_eq_bind, Option.bind_some]
  simp only [hwanted, if_true, stripLocal_append hne]

/-- The strings of a TXT record, as they come back. -/
def txtStrings (kvs : List Text) : List Text := (kvs.map (·.take 255)).filter (· ≠ [])

theorem txtStrings_cons (kv : Text) (kvs : List Text) :
    txtStrings (kv :: kvs) =
      (if 0 < (kv.take 255).length then [kv.take 255] else []) ++ txtStrings kvs := by
  cases kv <;> simp [txtStrings]

/-- A string is written behind the length it is cut to. -/
theorem encodeTxt_eq (kv : Text) :
    encodeTxt kv = UInt8.ofNat (kv.take 255).length :: toBytes (kv.take 255) := by
  rw [encodeTxt, List.length_take, Nat.min_comm, ← List.take_eq_take_min]

/-- The strings of a TXT record are read back, but for the empty ones. -/
theorem parseTxt_at {kvs : List Text} (hkvs : ∀ kv ∈ kvs, IsBytes kv) {pkt : Bytes} {pos : ℕ}
    (h : At (kvs.flatMap encodeTxt) pos pkt) (read : List Text) :
    parseTxt pkt pos (pos + (kvs.flatMap encodeTxt).length) read =
      some (read ++ txtStrings kvs) := by
  induction kvs generalizing pos read with
  | nil =>
      rw [parseTxt, if_neg (by simp)]
      simp [txtStrings]
  | cons kv kvs ih =>
      have hlength : (kv.take 255).length < 256 := by
        rw [List.length_take]
        omega
      have hbyte : (UInt8.ofNat (kv.take 255).length).toNat = (kv.take 255).length := by
        rw [UInt8.toNat_ofNat']
        exact Nat.mod_eq_of_lt hlength
      have hbytes : IsBytes (kv.take 255) := fun c hc =>
        hkvs kv List.mem_cons_self c (List.mem_of_mem_take hc)
      rw [List.flatMap_cons, encodeTxt_eq, List.cons_append] at h ⊢
      obtain ⟨hfirst, h⟩ := at_cons.mp h
      obtain ⟨hstring, hrest⟩ := at_append.mp h
      have hslice := hstring.slice
      rw [length_toBytes] at hslice hrest
      have hend : pos + (UInt8.ofNat (kv.take 255).length ::
            (toBytes (kv.take 255) ++ kvs.flatMap encodeTxt)).length =
          pos + 1 + (kv.take 255).length + (kvs.flatMap encodeTxt).length := by
        rw [List.length_cons, List.length_append, length_toBytes]
        omega
      rw [hend, parseTxt, if_pos (by omega), hfirst.getElem?, Option.bind_eq_bind,
        Option.bind_some, hbyte, if_neg (by omega), hslice, Option.bind_eq_bind,
        Option.bind_some, ofBytes_toBytes hbytes,
        ih (fun r hr => hkvs r (List.mem_cons_of_mem _ hr)) hrest, txtStrings_cons]
      simp only [gt_iff_lt, UInt8.lt_iff_toNat_lt, UInt8.toNat_zero, hbyte]
      split_ifs with hpos
      · rw [List.append_assoc]
      · rfl

/-- A TXT record is kept with its strings. -/
theorem parseRdata_txt {kvs : List Text} (hkvs : ∀ kv ∈ kvs, IsBytes kv) {pkt : Bytes}
    {start : ℕ} (h : At (txtRdata kvs) start pkt) (hlen : (txtRdata kvs).length < 65536)
    (serviceType name : Text) (recs : Records) :
    parseRdata pkt serviceType name dnsTypeTxt (UInt16.ofNat (txtRdata kvs).length) start recs =
      some { recs with txt := recs.txt ++ [(name, txtStrings kvs)] } := by
  have hofNat : (UInt16.ofNat (txtRdata kvs).length).toNat = (txtRdata kvs).length := by
    rw [UInt16.toNat_ofNat']
    exact Nat.mod_eq_of_lt hlen
  have hpos : UInt16.ofNat (txtRdata kvs).length > 0 := by
    rw [gt_iff_lt, UInt16.lt_iff_toNat_lt, hofNat]
    cases kvs <;> simp [txtRdata, encodeTxt]
  have hread : parseTxt pkt start (start + (txtRdata kvs).length) [] = some (txtStrings kvs) := by
    cases kvs with
    | nil =>
        -- the one string of an empty record is empty
        have hempty : ∀ kv ∈ [([] : Text)], IsBytes kv := by simp [IsBytes]
        exact parseTxt_at hempty h []
    | cons kv kvs => exact parseTxt_at hkvs h []
  rw [parseRdata, if_neg (by simp [dnsTypeTxt, dnsTypeSrv]), if_pos ⟨rfl, hpos⟩, hofNat, hread]
  rfl

/-- An A record is kept with its address. -/
theorem parseRdata_a {ip : Vector UInt8 4} {pkt : Bytes} {start : ℕ}
    (h : At (octets ip) start pkt) (serviceType name : Text) (recs : Records) :
    parseRdata pkt serviceType name dnsTypeA 4 start recs =
      some { recs with a := recs.a ++ [(name, addressText ip)] } := by
  obtain ⟨ha, h⟩ := at_cons.mp h
  obtain ⟨hb, h⟩ := at_cons.mp h
  obtain ⟨hc, hd⟩ := at_cons.mp h
  rw [parseRdata, if_neg (by simp [dnsTypeA, dnsTypeSrv]), if_neg (by simp [dnsTypeA, dnsTypeTxt]),
    if_pos ⟨rfl, rfl⟩]
  simp only [ha.getElem?, hb.getElem?, hc.getElem?, hd.getElem?, Option.bind_eq_bind,
    Option.bind_some]
  rfl

/-! ### The announcement -/

/-- A name that has the service in it is wanted. -/
theorem wanted_of_infix {serviceType name : Text} (h : serviceType <:+: name) :
    wanted serviceType name = true := by
  rw [wanted, Text.isSome_afterFirst_iff.mpr h, Bool.or_true]

theorem dnsNameEq_self (name : Text) : dnsNameEq name name = true := by
  simp [dnsNameEq]

theorem isDnsName_local : IsDnsName "local".toList := by
  decide

/-- The records of an announcement, as the reader keeps them. -/
def announcedRecords (hostname instanceName : Text) (port : UInt16) (ip : Vector UInt8 4)
    (txt : List Text) : Records where
  srv := [(instanceName, { target := hostname, port })]
  txt := [(instanceName, txtStrings txt)]
  a := [(hostname ++ localSuffix, addressText ip)]

/-- The reader goes through the four records of an announcement. -/
theorem parseRecords_announcement {serviceType hostname browseName instanceName : Text}
    {port : UInt16} {ip : Vector UInt8 4} {txt : List Text} (hbrowse : IsDnsName browseName)
    (hinstance : IsDnsName instanceName) (hhost : IsDnsName (hostname ++ localSuffix))
    (hne : hostname ≠ []) (hwanted : wanted serviceType instanceName = true)
    (htxt : ∀ kv ∈ txt, IsBytes kv) (hptr : (encodeDnsName instanceName).length < 65536)
    (hsrv : (srvRdata (hostname ++ localSuffix) port).length < 65536)
    (htxtRdata : (txtRdata txt).length < 65536) {pkt : Bytes} {i : ℕ}
    (h : At (appendPtr browseName instanceName ++
      (appendSrv instanceName (hostname ++ localSuffix) port ++ (appendTxt instanceName txt ++
      appendA (hostname ++ localSuffix) ip))) i pkt) :
    parseRecords pkt serviceType 4 i {} =
      some (announcedRecords hostname instanceName port ip txt) := by
  simp only [appendPtr, appendSrv, appendTxt, appendA] at h
  obtain ⟨hPtr, h⟩ := at_append.mp h
  obtain ⟨hSrv, h⟩ := at_append.mp h
  obtain ⟨hTxt, hA⟩ := at_append.mp h
  rw [parseRecords_at hbrowse hptr hPtr fun start _ => parseRdata_ptr _ _ _ _ start _,
    parseRecords_at hinstance hsrv hSrv fun start hdata =>
      parseRdata_srv hhost hne hdata hsrv hwanted _,
    parseRecords_at hinstance htxtRdata hTxt fun start hdata =>
      parseRdata_txt htxt hdata htxtRdata _ _ _,
    parseRecords_at hhost (by simp [octets]) hA fun start hdata => parseRdata_a hdata _ _ _]
  rfl

/-- The service that the records of an announcement make. -/
theorem mergeService_announced (hostname instanceName : Text) (port : UInt16)
    (ip : Vector UInt8 4) (txt : List Text) :
    mergeService (announcedRecords hostname instanceName port ip txt) instanceName
        { target := hostname, port } =
      { hostname, ip := addressText ip, port, txt := txtStrings txt } := by
  simp [mergeService, announcedRecords, dnsNameEq_self]

/-- **A node's own announcement is understood.** A response that announces a service is read
back as that one service. -/
theorem parseServiceResponses_announcement (serviceType hostname : Text) (port : UInt16)
    (ip : Vector UInt8 4) (txt : List Text) (queryId : UInt16)
    (hservice : IsDnsName serviceType) (hhost : IsDnsName hostname)
    (htxt : ∀ kv ∈ txt, IsBytes kv)
    (hptr : (encodeDnsName (hostname ++ ".".toList ++
      (serviceType ++ ".local".toList))).length < 65536)
    (hsrv : (srvRdata (hostname ++ ".local".toList) port).length < 65536)
    (htxtRdata : (txtRdata txt).length < 65536) :
    parseServiceResponses
        (buildServiceResponse (advertisedService hostname serviceType port txt)
          (hostname ++ ".local".toList) ip queryId) serviceType =
      some [{
        hostname
        ip := dottedQuad ip[0] ip[1] ip[2] ip[3]
        port
        txt := (txt.map (·.take 255)).filter (· ≠ []) }] := by
  have hbrowse : IsDnsName (serviceType ++ ".local".toList) :=
    hservice.append_dot isDnsName_local
  have hfqdn : IsDnsName (hostname ++ ".local".toList) := hhost.append_dot isDnsName_local
  have hinstance : IsDnsName (hostname ++ ".".toList ++ (serviceType ++ ".local".toList)) := by
    rw [List.append_assoc]
    exact hhost.append_dot hbrowse
  have hwanted : wanted serviceType
      (hostname ++ ".".toList ++ (serviceType ++ ".local".toList)) = true :=
    wanted_of_infix ⟨hostname ++ ".".toList, ".local".toList, List.append_assoc _ _ _⟩
  generalize hpkt : buildServiceResponse (advertisedService hostname serviceType port txt)
    (hostname ++ ".local".toList) ip queryId = pkt
  have hall := At.intro [] pkt []
  rw [List.append_nil, List.nil_append, ← hpkt] at hall
  obtain ⟨-, h⟩ := at_append.mp hall
  obtain ⟨hflags, h⟩ := at_append.mp h
  obtain ⟨hqdcount, h⟩ := at_append.mp h
  obtain ⟨hancount, h⟩ := at_append.mp h
  obtain ⟨-, h⟩ := at_append.mp h
  obtain ⟨harcount, hrecords⟩ := at_append.mp h
  simp only [List.length_nil, length_put16, Nat.reduceAdd]
    at hflags hqdcount hancount harcount hrecords
  rw [hpkt] at hflags hqdcount hancount harcount hrecords
  have hlen : ¬ pkt.length < 12 := not_lt.mpr (le_of_add_le_left hrecords.le)
  have hread := parseRecords_announcement hbrowse hinstance hfqdn hhost.ne_nil hwanted htxt hptr
    hsrv htxtRdata hrecords
  have hresponse : ¬ (dnsFlagResponse ||| dnsFlagAuthoritative) &&& dnsFlagResponse = 0 := by
    decide
  have hcount : ((1 : UInt16) + 3).toNat = 4 := rfl
  simp only [parseServiceResponses, if_neg hlen, hflags.get16, hqdcount.get16, hancount.get16,
    harcount.get16, Option.bind_eq_bind, Option.bind_some, Option.pure_def, if_neg hresponse,
    UInt16.toNat_zero, skipQuestions, hcount, hread]
  rw [announcedRecords, List.map_singleton]
  exact congrArg (fun ds => some [ds]) (mergeService_announced hostname _ port ip txt)

/-- The announcement of an MCP server, with an empty string among its settings. -/
theorem parseServiceResponses_announcement_sample :
    parseServiceResponses
        (buildServiceResponse
          (advertisedService "llamaste".toList "_mcp._tcp".toList 80
            ["path=/mcp".toList, [], "version=2".toList])
          ("llamaste".toList ++ ".local".toList) #v[192, 168, 1, 10] 0) "_mcp._tcp".toList =
      some [{
        hostname := "llamaste".toList
        ip := dottedQuad 192 168 1 10
        port := 80
        txt := (["path=/mcp".toList, [], "version=2".toList].map (·.take 255)).filter
          (· ≠ []) }] :=
  parseServiceResponses_announcement "_mcp._tcp".toList "llamaste".toList 80
    #v[192, 168, 1, 10] ["path=/mcp".toList, [], "version=2".toList] 0 (by decide) (by decide)
    (by decide) (by decide) (by decide) (by decide)

end Llamaste
