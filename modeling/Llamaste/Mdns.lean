import Llamaste.Lib.Wire

/-!
# Service discovery over mDNS

A node announces a service in one packet of four records: PTR names the service, SRV its
port and host, TXT its settings and A the address of the host. A peer reads the packet
record by record and joins what it finds by the records' owners.

Every read of the packet is checked: `none` stands for a read outside of it.

Source: `net_mdns.cpp`.
-/

namespace Llamaste

open Wire

/-- `DiscoveredService`. -/
structure DiscoveredService where
  hostname : Text := []
  ip : Text := []
  port : UInt16 := 0
  txt : List Text := []
  deriving DecidableEq, Repr

/-- `MdnsServiceRecord`. -/
structure MdnsServiceRecord where
  browseName : Text
  instanceName : Text
  port : UInt16 := 80
  txt : List Text := []

/-! ### Constants -/

def dnsTypeA : UInt16 := 1
def dnsTypePtr : UInt16 := 12
def dnsTypeTxt : UInt16 := 16
def dnsTypeSrv : UInt16 := 33
def dnsClassIn : UInt16 := 1
def dnsFlagResponse : UInt16 := 0x8000
def dnsFlagAuthoritative : UInt16 := 0x0400
def mdnsAddrTtl : UInt32 := 120
def mdnsSvcTtl : UInt32 := 4500

/-! ### Names -/

/-- The labels between the dots of a name. A dot at the end ends the last label. -/
def dnsLabels (fqdn : Text) : List Text :=
  match fqdn.splitOn '.' with
  | [] => []
  | ls => if ls.getLast? = some [] then ls.dropLast else ls

/-- A label behind its length, cut to the 63 bytes a label may have. -/
def encodeLabel (label : Text) : Bytes :=
  UInt8.ofNat (label.take 63).length :: toBytes (label.take 63)

/-- `encode_dns_name`. -/
def encodeDnsName (fqdn : Text) : Bytes := (dnsLabels fqdn).flatMap encodeLabel ++ [0]

/-- A label is appended to the labels before it. -/
def appendLabel (name label : Text) : Text :=
  if name = [] then label else name ++ '.' :: label

/-- The loop of `decode_dns_name`. It returns the name, the offset it stopped at and, if it
followed a pointer, the offset behind the first one. -/
def decodeLoop (pkt : Bytes) (maxJumps offset : ℕ) (name : Text) (saved : Option ℕ) :
    Option (Text × ℕ × Option ℕ) :=
  if offset < pkt.length ∧ 0 < maxJumps then do
    let len ← pkt[offset]?
    if len = 0 then
      some (name, if saved.isSome then offset else offset + 1, saved)
    else if len &&& 0xC0 = 0xC0 then
      if offset + 1 ≥ pkt.length then
        some (name, offset, saved)
      else
        let lo ← pkt[offset + 1]?
        let ptr := (len &&& 0x3F).toUInt16 <<< 8 ||| lo.toUInt16
        decodeLoop pkt (maxJumps - 1) ptr.toNat name (saved <|> some (offset + 2))
    else if offset + 1 + len.toNat > pkt.length then
      some (name, offset + 1, saved)
    else
      let label ← slice pkt (offset + 1) len.toNat
      decodeLoop pkt maxJumps (offset + 1 + len.toNat) (appendLabel name (Text.ofBytes label))
        saved
  else
    some (name, offset, saved)
termination_by maxJumps * (pkt.length + 1) + (pkt.length - offset)
decreasing_by
  · obtain ⟨k, rfl⟩ := Nat.exists_eq_add_of_lt ‹offset < pkt.length ∧ 0 < maxJumps›.2
    rw [Nat.zero_add, Nat.add_sub_cancel, Nat.add_mul]
    omega
  · omega

/-- `decode_dns_name`: the name at an offset, and the offset behind it. -/
def decodeDnsName (pkt : Bytes) (offset : ℕ) : Option (Text × ℕ) := do
  let (name, stop, saved) ← decodeLoop pkt 10 offset [] none
  some (name, saved.getD stop)

/-- `dns_name_eq`. -/
def dnsNameEq (a b : Text) : Bool := a.map Char.toLower == b.map Char.toLower

/-! ### The announcement -/

/-- What the record helpers append: the owner's name, the header and the data of a record. -/
def encodeRecord (name : Text) (type cls : UInt16) (ttl : UInt32) (rdata : Bytes) : Bytes :=
  encodeDnsName name ++ (put16 type ++ (put16 cls ++ (put32 ttl ++
    (put16 (UInt16.ofNat rdata.length) ++ rdata))))

/-- `append_ptr`. -/
def appendPtr (browseName instanceName : Text) : Bytes :=
  encodeRecord browseName dnsTypePtr dnsClassIn mdnsSvcTtl (encodeDnsName instanceName)

/-- The data of an SRV record: priority, weight, port and target. -/
def srvRdata (hostFqdn : Text) (port : UInt16) : Bytes :=
  put16 0 ++ (put16 0 ++ (put16 port ++ encodeDnsName hostFqdn))

/-- `append_srv`. -/
def appendSrv (instanceName hostFqdn : Text) (port : UInt16) : Bytes :=
  encodeRecord instanceName dnsTypeSrv (dnsClassIn ||| 0x8000) mdnsAddrTtl
    (srvRdata hostFqdn port)

/-- A string of a TXT record behind its length, cut to 255 bytes. -/
def encodeTxt (kv : Text) : Bytes :=
  UInt8.ofNat (min kv.length 255) :: toBytes (kv.take (min kv.length 255))

/-- The data of a TXT record. -/
def txtRdata (kvs : List Text) : Bytes := if kvs = [] then [0] else kvs.flatMap encodeTxt

/-- `append_txt`. -/
def appendTxt (instanceName : Text) (kvs : List Text) : Bytes :=
  encodeRecord instanceName dnsTypeTxt (dnsClassIn ||| 0x8000) mdnsSvcTtl (txtRdata kvs)

/-- The bytes of an address. -/
def octets (ip : Vector UInt8 4) : Bytes := [ip[0], ip[1], ip[2], ip[3]]

/-- `append_a`. -/
def appendA (fqdn : Text) (ip : Vector UInt8 4) : Bytes :=
  encodeRecord fqdn dnsTypeA (dnsClassIn ||| 0x8000) mdnsAddrTtl (octets ip)

/-- `build_service_response`. -/
def buildServiceResponse (svc : MdnsServiceRecord) (hostFqdn : Text) (ip : Vector UInt8 4)
    (queryId : UInt16) : Bytes :=
  put16 queryId ++ (put16 (dnsFlagResponse ||| dnsFlagAuthoritative) ++ (put16 0 ++ (put16 1 ++
    (put16 0 ++ (put16 3 ++ (appendPtr svc.browseName svc.instanceName ++
    (appendSrv svc.instanceName hostFqdn svc.port ++ (appendTxt svc.instanceName svc.txt ++
    appendA hostFqdn ip))))))))

/-- The record of a service that `advertise_service` announces. -/
def advertisedService (hostname serviceType : Text) (port : UInt16) (txt : List Text) :
    MdnsServiceRecord :=
  let browseName := serviceType ++ ".local".toList
  { browseName, instanceName := hostname ++ ".".toList ++ browseName, port, txt }

/-! ### Reading a response -/

/-- `SrvInfo`. -/
structure SrvInfo where
  target : Text
  port : UInt16

/-- The records of a response, each behind its owner's name. -/
structure Records where
  srv : List (Text × SrvInfo) := []
  txt : List (Text × List Text) := []
  a : List (Text × Text) := []

/-- The suffix of the names of hosts. -/
def localSuffix : Text := ".local"

/-- A host's name without the suffix. -/
def stripLocal (target : Text) : Text :=
  if target.length > localSuffix.length ∧
      target.drop (target.length - localSuffix.length) = localSuffix then
    target.take (target.length - localSuffix.length)
  else target

/-- The strings of a TXT record that are not empty. -/
def parseTxt (pkt : Bytes) (pos txtEnd : ℕ) (kvs : List Text) : Option (List Text) :=
  if pos < txtEnd then do
    let len ← pkt[pos]?
    if pos + 1 + len.toNat > txtEnd then
      some kvs
    else
      let kv ← slice pkt (pos + 1) len.toNat
      parseTxt pkt (pos + 1 + len.toNat) txtEnd
        (if len > 0 then kvs ++ [Text.ofBytes kv] else kvs)
  else
    some kvs
termination_by txtEnd - pos

/-- `"%u.%u.%u.%u"`. -/
def dottedQuad (a b c d : UInt8) : Text :=
  Text.ofNat a.toNat ++ '.' :: (Text.ofNat b.toNat ++ '.' :: (Text.ofNat c.toNat ++ '.' ::
    Text.ofNat d.toNat))

/-- An address as a text. -/
def addressText (ip : Vector UInt8 4) : Text := dottedQuad ip[0] ip[1] ip[2] ip[3]

/-- Only SRV records of the wanted service are kept. -/
def wanted (serviceType rrName : Text) : Bool :=
  serviceType = [] || (Text.afterFirst serviceType rrName).isSome

/-- What a record adds, by its type. -/
def parseRdata (pkt : Bytes) (serviceType rrName : Text) (rrType rdlength : UInt16)
    (start : ℕ) (recs : Records) : Option Records :=
  if rrType = dnsTypeSrv ∧ rdlength ≥ 6 then do
    let port ← get16 pkt (start + 4)
    let (target, _) ← decodeDnsName pkt (start + 6)
    let info : SrvInfo := { target := stripLocal target, port }
    if wanted serviceType rrName then
      some { recs with srv := recs.srv ++ [(rrName, info)] }
    else
      some recs
  else if rrType = dnsTypeTxt ∧ rdlength > 0 then do
    let kvs ← parseTxt pkt start (start + rdlength.toNat) []
    some { recs with txt := recs.txt ++ [(rrName, kvs)] }
  else if rrType = dnsTypeA ∧ rdlength = 4 then do
    let a ← pkt[start]?
    let b ← pkt[start + 1]?
    let c ← pkt[start + 2]?
    let d ← pkt[start + 3]?
    some { recs with a := recs.a ++ [(rrName, dottedQuad a b c d)] }
  else
    some recs

/-- One record of the answer and additional sections. The result is `some none` where the
record does not fit the packet, which ends the loop. -/
def parseRecord (pkt : Bytes) (serviceType : Text) (offset : ℕ) (recs : Records) :
    Option (Option (ℕ × Records)) := do
  let (rrName, offset) ← decodeDnsName pkt offset
  if offset + 10 > pkt.length then
    return none
  let rrType ← get16 pkt offset
  let _rrClass ← get16 pkt (offset + 2)
  let rdlength ← get16 pkt (offset + 8)
  let start := offset + 10
  if start + rdlength.toNat > pkt.length then
    return none
  let recs ← parseRdata pkt serviceType rrName rrType rdlength start recs
  return some (start + rdlength.toNat, recs)

/-- The loop over the records. -/
def parseRecords (pkt : Bytes) (serviceType : Text) : ℕ → ℕ → Records → Option Records
  | 0, _, recs => some recs
  | n + 1, offset, recs =>
    if offset < pkt.length then do
      match ← parseRecord pkt serviceType offset recs with
      | none => some recs
      | some (offset, recs) => parseRecords pkt serviceType n offset recs
    else
      some recs

/-- The loop over the questions. The result is `some none` where a question does not fit the
packet. -/
def skipQuestions (pkt : Bytes) : ℕ → ℕ → Option (Option ℕ)
  | 0, offset => some (some offset)
  | n + 1, offset =>
    if offset < pkt.length then do
      let (_, offset) ← decodeDnsName pkt offset
      if offset + 4 > pkt.length then
        return none
      skipQuestions pkt n (offset + 4)
    else
      some (some offset)

/-- The service of an SRV record, with the first TXT record of the same owner and the first
A record of the target. -/
def mergeService (recs : Records) (srvName : Text) (info : SrvInfo) : DiscoveredService where
  hostname := info.target
  port := info.port
  txt := (recs.txt.find? fun r => dnsNameEq r.1 srvName).elim [] Prod.snd
  ip := (recs.a.find? fun r => dnsNameEq r.1 (info.target ++ localSuffix)).elim [] Prod.snd

/-- `parse_service_responses`. -/
def parseServiceResponses (pkt : Bytes) (serviceType : Text) : Option (List DiscoveredService) := do
  if pkt.length < 12 then
    return []
  let flags ← get16 pkt 2
  let qdcount ← get16 pkt 4
  let ancount ← get16 pkt 6
  let arcount ← get16 pkt 10
  if flags &&& dnsFlagResponse = 0 then
    return []
  match ← skipQuestions pkt qdcount.toNat 12 with
  | none => return []
  | some offset =>
    let totalRr := ancount + arcount
    let recs ← parseRecords pkt serviceType totalRr.toNat offset {}
    return recs.srv.map fun r => mergeService recs r.1 r.2

end Llamaste
