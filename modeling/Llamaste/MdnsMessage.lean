import Llamaste.MdnsAnnouncement
import Llamaste.MdnsLayout

/-!
# Well-formed responses

A DNS message has a header with the counts of its four sections, and in each section records one
after the other. A name is labels up to an empty one, or up to a pointer to where it goes on. The
reader of responses reads as many records as the answer and the additional section have, but does
not step over the authority section between them.

Source: `net_mdns.cpp`.

## Main results

* `nameText_of_nameAt`, `nameEnd_of_nameAt`: a name is read up to its tenth pointer.
* `fullyRead_iff`: a response is fully read exactly when the authority or the additional section is
  empty, the number of records fits 16 bits, and no name goes on behind a tenth pointer.
-/

namespace Llamaste

open Wire

/-! ### Names -/

/-- Where a pointer points. -/
def pointerTarget (hi lo : UInt8) : ℕ := ((hi &&& 0x3F).toUInt16 <<< 8 ||| lo.toUInt16).toNat

/-- A name stands at an offset and ends before another one. Its labels are in parts, one before
each pointer and one behind the last one. -/
inductive NameAt (pkt : Bytes) : ℕ → List (List Text) → ℕ → Prop
  | root {i : ℕ} (h : At [0] i pkt) : NameAt pkt i [[]] (i + 1)
  | label {i j : ℕ} {label : Text} {part : List Text} {parts : List (List Text)}
      (hlabel : IsLabel label) (h : At (encodeLabel label) i pkt)
      (rest : NameAt pkt (i + (encodeLabel label).length) (part :: parts) j) :
      NameAt pkt i ((label :: part) :: parts) j
  | pointer {i j : ℕ} {hi lo : UInt8} {parts : List (List Text)}
      (hpointer : hi &&& 0xC0 = 0xC0) (h : At [hi, lo] i pkt)
      (rest : NameAt pkt (pointerTarget hi lo) parts j) :
      NameAt pkt i ([] :: parts) (i + 2)

/-- The name that the parts make up. -/
def dnsName (parts : List (List Text)) : Text := parts.flatten.foldl appendLabel []

theorem getD_of_at {b : UInt8} {i : ℕ} {pkt : Bytes} (h : At [b] i pkt) : pkt.getD i 0 = b := by
  rw [List.getD_eq_getElem?_getD, h.getElem?]
  rfl

section

variable {pkt : Bytes} {i j maxJumps : ℕ} {saved : Option ℕ}

theorem spanLoop_at_root (h : At [0] i pkt) (hm : 0 < maxJumps) :
    spanLoop pkt maxJumps i saved = ([], if saved.isSome then i else i + 1, saved) :=
  spanLoop_root ⟨h.lt, hm⟩ (getD_of_at h)

/-- A label is found where it is written. -/
theorem spanLoop_at_label {label : Text} (hlabel : IsLabel label)
    (h : At (encodeLabel label) i pkt) (hm : 0 < maxJumps) :
    spanLoop pkt maxJumps i saved =
      ((i + 1, label.length) ::
        (spanLoop pkt maxJumps (i + (encodeLabel label).length) saved).1,
      (spanLoop pkt maxJumps (i + (encodeLabel label).length) saved).2) := by
  obtain ⟨hzero, hpointer, htoNat⟩ :=
    length_byte label.length hlabel.2.1 (List.length_pos_iff.mpr hlabel.1)
  have hend : i + (encodeLabel label).length = i + 1 + label.length := by
    rw [hlabel.length_encodeLabel]
    omega
  rw [hlabel.encodeLabel_eq] at h
  obtain ⟨hbyte, hbytes⟩ := at_cons.mp h
  have hle := hbytes.le
  rw [length_toBytes] at hle
  have hget := getD_of_at hbyte
  rw [spanLoop_label ⟨hbyte.lt, hm⟩ (by rwa [hget]) (by rwa [hget])
    (by rw [hget, htoNat]; omega), hget, htoNat, hend]

theorem labelText_at {label : Text} (hlabel : IsLabel label) (h : At (encodeLabel label) i pkt) :
    labelText pkt (i + 1, label.length) = label := by
  rw [hlabel.encodeLabel_eq] at h
  obtain ⟨-, hbytes⟩ := at_cons.mp h
  have hle := hbytes.le
  have hslice := hbytes.slice
  rw [length_toBytes] at hle hslice
  rw [slice_eq hle] at hslice
  rw [labelText, Option.some.inj hslice, ofBytes_toBytes hlabel.2.2]

/-- A pointer is followed. -/
theorem spanLoop_at_pointer {hi lo : UInt8} (hpointer : hi &&& 0xC0 = 0xC0)
    (h : At [hi, lo] i pkt) (hm : 0 < maxJumps) :
    spanLoop pkt maxJumps i saved =
      spanLoop pkt (maxJumps - 1) (pointerTarget hi lo) (saved <|> some (i + 2)) := by
  obtain ⟨hhi, hlo⟩ := at_cons.mp h
  have hzero : ¬ hi = 0 := by
    rintro rfl
    exact absurd hpointer (by decide)
  rw [spanLoop_pointer ⟨hhi.lt, hm⟩ (by rwa [getD_of_at hhi]) (by rwa [getD_of_at hhi])
    (not_le.mpr hlo.lt), getD_of_at hhi, getD_of_at hlo]
  rfl

theorem spanLoop_zero : spanLoop pkt 0 i saved = ([], i, saved) :=
  spanLoop_stop fun h => absurd h.2 (Nat.lt_irrefl 0)

variable {parts : List (List Text)}

/-- The loop reads the parts before as many pointers as it may follow. -/
theorem joinSpans_of_nameAt (h : NameAt pkt i parts j) (maxJumps : ℕ) (name : Text)
    (saved : Option ℕ) :
    joinSpans pkt name (spanLoop pkt maxJumps i saved).1 =
      (parts.take maxJumps).flatten.foldl appendLabel name := by
  induction h generalizing maxJumps name saved with
  | root h =>
    cases maxJumps with
    | zero =>
      rw [spanLoop_zero]
      rfl
    | succ m =>
      rw [spanLoop_at_root h (Nat.succ_pos m), List.take_succ_cons, List.take_nil]
      rfl
  | label hlabel h rest ih =>
    cases maxJumps with
    | zero =>
      rw [spanLoop_zero]
      rfl
    | succ m =>
      rw [spanLoop_at_label hlabel h (Nat.succ_pos m), joinSpans, List.map_cons, List.foldl_cons,
        labelText_at hlabel h]
      exact ih (m + 1) _ saved
  | pointer hpointer h rest ih =>
    cases maxJumps with
    | zero =>
      rw [spanLoop_zero]
      rfl
    | succ m =>
      rw [spanLoop_at_pointer hpointer h (Nat.succ_pos m)]
      exact ih m name _

/-- **A name is read up to its tenth pointer.** -/
theorem nameText_of_nameAt (h : NameAt pkt i parts j) :
    nameText pkt i = dnsName (parts.take 10) := joinSpans_of_nameAt h 10 [] none

theorem spanLoop_end_of_nameAt (h : NameAt pkt i parts j) (hm : 0 < maxJumps) :
    (spanLoop pkt maxJumps i none).2.2.getD (spanLoop pkt maxJumps i none).2.1 = j := by
  induction h with
  | root h =>
    rw [spanLoop_at_root h hm]
    rfl
  | label hlabel h rest ih =>
    rw [spanLoop_at_label hlabel h hm]
    exact ih
  | @pointer i _ hi lo _ hpointer h rest ih =>
    rw [spanLoop_at_pointer hpointer h hm]
    have hsaved := spanLoop_saved pkt (maxJumps - 1) (pointerTarget hi lo) (i + 2)
    rw [show (none <|> some (i + 2)) = some (i + 2) from rfl, hsaved]
    rfl

/-- The offset behind a name is that behind its first pointer. -/
theorem nameEnd_of_nameAt (h : NameAt pkt i parts j) : nameEnd pkt i = j :=
  spanLoop_end_of_nameAt h (by decide)

theorem lt_of_nameAt (h : NameAt pkt i parts j) : i < pkt.length ∧ i < j := by
  induction h with
  | root h => exact ⟨h.lt, Nat.lt_succ_self _⟩
  | label hlabel h rest ih =>
    have hlength := hlabel.length_encodeLabel
    omega
  | pointer hpointer h rest ih =>
    obtain ⟨hhi, -⟩ := at_cons.mp h
    exact ⟨hhi.lt, by omega⟩

theorem isLabel_of_nameAt (h : NameAt pkt i parts j) : ∀ label ∈ parts.flatten, IsLabel label := by
  induction h with
  | root h => exact nofun
  | label hlabel h rest ih =>
    rw [List.flatten_cons, List.cons_append, List.forall_mem_cons]
    exact ⟨hlabel, ih⟩
  | pointer hpointer h rest ih => exact ih

/-- A written name. -/
theorem nameAt_encodeDnsName {name : Text} (hname : IsDnsName name)
    (h : At (encodeDnsName name) i pkt) :
    NameAt pkt i [name.splitOn '.'] (i + (encodeDnsName name).length) := by
  have hlabels : ∀ (labels : List Text) (i : ℕ), (∀ label ∈ labels, IsLabel label) →
      At (labels.flatMap encodeLabel ++ [0]) i pkt →
        NameAt pkt i [labels] (i + (labels.flatMap encodeLabel ++ [0]).length) := by
    intro labels
    induction labels with
    | nil => exact fun i _ h => .root h
    | cons label labels ih =>
      intro i hall h
      rw [List.flatMap_cons, List.append_assoc] at h ⊢
      obtain ⟨hfirst, hrest⟩ := at_append.mp h
      rw [List.length_append, ← Nat.add_assoc]
      exact .label (hall label List.mem_cons_self) hfirst
        (ih _ (fun l hl => hall l (List.mem_cons_of_mem _ hl)) hrest)
  rw [encodeDnsName, hname.dnsLabels_eq] at h ⊢
  exact hlabels _ i hname h

end

/-! ### Names that are read whole -/

theorem length_lt_appendLabel (name : Text) {label : Text} (h : label ≠ []) :
    name.length < (appendLabel name label).length := by
  have hpos := List.length_pos_iff.mpr h
  rw [appendLabel]
  split_ifs with hnil
  · rwa [hnil]
  · rw [List.length_append, List.length_cons]
    omega

/-- More labels make a longer name. -/
theorem foldl_appendLabel_eq_iff {labels : List Text} (h : ∀ label ∈ labels, label ≠ [])
    (name : Text) : labels.foldl appendLabel name = name ↔ labels = [] := by
  have hlength : ∀ (labels : List Text) (name : Text), (∀ label ∈ labels, label ≠ []) →
      name.length + labels.length ≤ (labels.foldl appendLabel name).length := by
    intro labels
    induction labels with
    | nil => exact fun name _ => Nat.le_refl _
    | cons label labels ih =>
      intro name hall
      have hlt := length_lt_appendLabel name (hall label List.mem_cons_self)
      have hrest := ih (appendLabel name label) fun l hl => hall l (List.mem_cons_of_mem _ hl)
      rw [List.foldl_cons, List.length_cons]
      omega
  constructor
  · intro heq
    have hle := hlength labels name h
    rw [heq] at hle
    exact List.length_eq_zero_iff.mp (by omega)
  · rintro rfl
    rfl

/-- No label stands behind the tenth pointer of a name. -/
def Whole (parts : List (List Text)) : Prop := (parts.drop 10).flatten = []

theorem dnsName_take_eq_iff {parts : List (List Text)}
    (h : ∀ label ∈ parts.flatten, IsLabel label) :
    dnsName (parts.take 10) = dnsName parts ↔ Whole parts := by
  have hsplit : parts.flatten = (parts.take 10).flatten ++ (parts.drop 10).flatten := by
    rw [← List.flatten_append, List.take_append_drop]
  have hdrop : ∀ label ∈ (parts.drop 10).flatten, label ≠ [] := by
    intro label hlabel
    exact (h label (hsplit ▸ List.mem_append_right _ hlabel)).1
  rw [Whole, ← foldl_appendLabel_eq_iff hdrop (dnsName (parts.take 10)), dnsName, dnsName, hsplit,
    List.foldl_append]
  exact eq_comm

/-! ### Messages -/

/-- The data of a record, names in their parts; `other` is what the reader skips. -/
inductive DnsData
  | srv (priority weight port : UInt16) (target : List (List Text))
  | txt (kvs : List Text)
  | a (ip : Vector UInt8 4)
  | other (type : UInt16) (bytes : Bytes)

/-- A resource record, and where it starts. -/
structure DnsRecord where
  start : ℕ
  owner : List (List Text)
  cls : UInt16
  ttl : UInt32
  data : DnsData

/-- A question. -/
structure DnsQuestion where
  qname : List (List Text)
  qtype : UInt16
  qclass : UInt16

/-- The type of the data. -/
def DnsData.type : DnsData → UInt16
  | .srv _ _ _ _ => dnsTypeSrv
  | .txt _ => dnsTypeTxt
  | .a _ => dnsTypeA
  | .other type _ => type

/-- The data fills the bytes from `i` up to `j`. -/
def DataAt (pkt : Bytes) (i j : ℕ) : DnsData → Prop
  | .srv priority weight port target =>
    At (put16 priority ++ (put16 weight ++ put16 port)) i pkt ∧ NameAt pkt (i + 6) target j
  | .txt kvs => kvs ≠ [] ∧ (∀ kv ∈ kvs, kv.length ≤ 255 ∧ IsBytes kv) ∧
    At (kvs.flatMap encodeTxt) i pkt ∧ j = i + (kvs.flatMap encodeTxt).length
  | .a ip => At (octets ip) i pkt ∧ j = i + 4
  | .other type bytes => type ∉ [dnsTypeSrv, dnsTypeTxt, dnsTypeA] ∧ At bytes i pkt ∧
    j = i + bytes.length

/-- A record stands at its place, before `j`. -/
def RecordAt (pkt : Bytes) (r : DnsRecord) (j : ℕ) : Prop :=
  ∃ k rdlength, NameAt pkt r.start r.owner k ∧
    At (put16 r.data.type ++ (put16 r.cls ++ (put32 r.ttl ++ put16 rdlength))) k pkt ∧
    j = k + 10 + rdlength.toNat ∧ j ≤ pkt.length ∧ DataAt pkt (k + 10) j r.data

/-- Records stand one after the other from `i` up to `j`. -/
def RecordsAt (pkt : Bytes) : ℕ → List DnsRecord → ℕ → Prop
  | i, [], j => i = j
  | i, r :: rs, j => r.start = i ∧ ∃ k, RecordAt pkt r k ∧ RecordsAt pkt k rs j

/-- Questions stand one after the other from `i` up to `j`. -/
def QuestionsAt (pkt : Bytes) : ℕ → List DnsQuestion → ℕ → Prop
  | i, [], j => i = j
  | i, q :: qs, j => ∃ k, NameAt pkt i q.qname k ∧ At (put16 q.qtype ++ put16 q.qclass) k pkt ∧
      QuestionsAt pkt (k + 4) qs j

/-- A packet is a response: a header with the counts of the sections, then the sections. -/
structure DnsResponse (pkt : Bytes) where
  id : UInt16
  flags : UInt16
  qdcount : UInt16
  ancount : UInt16
  nscount : UInt16
  arcount : UInt16
  questions : List DnsQuestion
  answers : List DnsRecord
  authority : List DnsRecord
  additional : List DnsRecord
  isResponse : flags &&& dnsFlagResponse ≠ 0
  header : At (put16 id ++ (put16 flags ++ (put16 qdcount ++ (put16 ancount ++
    (put16 nscount ++ put16 arcount))))) 0 pkt
  qdcount_eq : qdcount.toNat = questions.length
  ancount_eq : ancount.toNat = answers.length
  nscount_eq : nscount.toNat = authority.length
  arcount_eq : arcount.toNat = additional.length
  sections : ∃ i k l j, QuestionsAt pkt 12 questions i ∧ RecordsAt pkt i answers k ∧
    RecordsAt pkt k authority l ∧ RecordsAt pkt l additional j

/-- The data as the reader keeps it, `name` being how it reads names. -/
def DnsData.reading (name : List (List Text) → Text) : DnsData → RecordData Text
  | .srv _ _ port target => .srv port (name target)
  | .txt kvs => .txt (kvs.filter (· ≠ []))
  | .a ip => .a (addressText ip)
  | .other _ _ => .other

/-- A record as the reader keeps it. -/
def DnsRecord.reading (name : List (List Text) → Text) (r : DnsRecord) : ReadRecord Text where
  start := r.start
  owner := name r.owner
  data := r.data.reading name

/-- A name up to its tenth pointer. -/
def cutName (parts : List (List Text)) : Text := dnsName (parts.take 10)

/-! ### The records of a message -/

section

variable {pkt : Bytes}

theorem word_at {v : UInt16} {i : ℕ} (h : At (put16 v) i pkt) : word pkt i = v := by
  have hle := h.le
  rw [length_put16] at hle
  exact Option.some.inj ((get16_eq (by omega)).symm.trans h.get16)

/-- The strings that are not empty are read. -/
theorem txtFrom_at {kvs : List Text} (hkvs : ∀ kv ∈ kvs, kv.length ≤ 255 ∧ IsBytes kv) {i : ℕ}
    (h : At (kvs.flatMap encodeTxt) i pkt) :
    txtFrom pkt i (i + (kvs.flatMap encodeTxt).length) = kvs.filter (· ≠ []) := by
  have hread := parseTxt_at (fun kv hkv => (hkvs kv hkv).2) h []
  rw [parseTxt_eq h.le] at hread
  have hwhole : kvs.map (·.take 255) = kvs := by
    conv_rhs => rw [← List.map_id kvs]
    exact List.map_congr_left fun kv hkv => List.take_of_length_le (hkvs kv hkv).1
  have hstrings : txtStrings kvs = kvs.filter (· ≠ []) := by rw [txtStrings, hwhole]
  rw [← hstrings]
  exact Option.some.inj hread

theorem length_txt_pos {kvs : List Text} (h : kvs ≠ []) : 0 < (kvs.flatMap encodeTxt).length := by
  cases kvs with
  | nil => exact absurd rfl h
  | cons kv kvs =>
    rw [List.flatMap_cons, encodeTxt, List.cons_append, List.length_cons]
    exact Nat.succ_pos _

/-- The data of a record is read by its type. -/
theorem rdataAt_of_dataAt {data : DnsData} {i : ℕ} {rdlength : UInt16}
    (h : DataAt pkt i (i + rdlength.toNat) data) :
    (rdataAt pkt data.type rdlength i).map (joinSpans pkt []) = data.reading cutName := by
  cases data with
  | srv priority weight port target =>
    obtain ⟨hfixed, htarget⟩ := h
    obtain ⟨-, hport⟩ := at_append.mp hfixed
    obtain ⟨-, hport⟩ := at_append.mp hport
    have hlt := (lt_of_nameAt htarget).2
    have hsix : rdlength ≥ 6 := UInt16.le_iff_toNat_le.mpr (by
      show 6 ≤ rdlength.toNat
      omega)
    have hword : word pkt (i + 4) = port := word_at hport
    rw [rdataAt, if_pos ⟨rfl, hsix⟩, RecordData.map, hword]
    exact congrArg (RecordData.srv port) (nameText_of_nameAt htarget)
  | txt kvs =>
    obtain ⟨hne, hkvs, hstrings, hend⟩ := h
    have hpos := length_txt_pos hne
    have hlength : rdlength.toNat = (kvs.flatMap encodeTxt).length := by omega
    have hrd : rdlength > 0 := UInt16.lt_iff_toNat_lt.mpr (by
      show 0 < rdlength.toNat
      omega)
    rw [rdataAt, DnsData.type, if_neg fun hsrv => absurd hsrv.1 (by decide), if_pos ⟨rfl, hrd⟩,
      RecordData.map,
      hlength, txtFrom_at hkvs hstrings]
    rfl
  | a ip =>
    obtain ⟨hquad, hend⟩ := h
    obtain ⟨ha, h⟩ := at_cons.mp hquad
    obtain ⟨hb, h⟩ := at_cons.mp h
    obtain ⟨hc, hd⟩ := at_cons.mp h
    have hfour : rdlength = 4 := UInt16.toNat_inj.mp (by
      show rdlength.toNat = 4
      omega)
    rw [rdataAt, DnsData.type, if_neg fun hsrv => absurd hsrv.1 (by decide),
      if_neg fun htxt => absurd htxt.1 (by decide), if_pos ⟨rfl, hfour⟩, RecordData.map,
      getD_of_at ha, getD_of_at hb, getD_of_at hc, getD_of_at hd]
    rfl
  | other type bytes =>
    obtain ⟨htype, -, -⟩ := h
    simp only [List.mem_cons, List.not_mem_nil, or_false, not_or] at htype
    rw [rdataAt, DnsData.type, if_neg fun hsrv => htype.1 hsrv.1,
      if_neg fun htxt => htype.2.1 htxt.1, if_neg fun ha => htype.2.2 ha.1]
    rfl

/-- A record is read where it stands, its names up to their tenth pointer. -/
theorem recordAt_of_recordAt {r : DnsRecord} {j : ℕ} (h : RecordAt pkt r j) :
    (r.start < pkt.length ∧ nameEnd pkt r.start + 10 ≤ pkt.length ∧
      recordEnd pkt r.start ≤ pkt.length) ∧ recordEnd pkt r.start = j ∧
      (recordAt pkt r.start).map (joinSpans pkt []) = r.reading cutName := by
  obtain ⟨k, rdlength, hname, hfixed, rfl, hend, hdata⟩ := h
  obtain ⟨htype, hrest⟩ := at_append.mp hfixed
  obtain ⟨-, hrest⟩ := at_append.mp hrest
  obtain ⟨-, hlength⟩ := at_append.mp hrest
  have hrdlength : word pkt (k + 8) = rdlength := word_at hlength
  have hrecordEnd : recordEnd pkt r.start = k + 10 + rdlength.toNat := by
    rw [recordEnd, nameEnd_of_nameAt hname, hrdlength]
  refine ⟨⟨(lt_of_nameAt hname).1, ?_, hrecordEnd ▸ hend⟩, hrecordEnd, ?_⟩
  · rw [nameEnd_of_nameAt hname]
    omega
  · rw [recordAt, nameEnd_of_nameAt hname, hrdlength, word_at htype, ReadRecord.map,
      rdataAt_of_dataAt hdata, DnsRecord.reading]
    exact congrArg (ReadRecord.mk r.start · _) (nameText_of_nameAt hname)

/-- The reader takes the first records. -/
theorem recordsFrom_of_recordsAt {rs : List DnsRecord} {i j n : ℕ} (h : RecordsAt pkt i rs j)
    (hn : n ≤ rs.length) :
    (recordsFrom pkt n i).map (ReadRecord.map (joinSpans pkt [])) =
      (rs.take n).map (DnsRecord.reading cutName) := by
  induction rs generalizing i n with
  | nil =>
    obtain rfl := Nat.le_zero.mp hn
    rfl
  | cons r rs ih =>
    cases n with
    | zero => rfl
    | succ n =>
      obtain ⟨rfl, k, hrecord, hrest⟩ := h
      obtain ⟨hfits, rfl, hreading⟩ := recordAt_of_recordAt hrecord
      rw [recordsFrom, if_pos hfits, List.take_succ_cons, List.map_cons, List.map_cons, hreading,
        ih hrest (Nat.le_of_succ_le_succ hn)]

theorem recordsAt_append {rs rs' : List DnsRecord} {i k j : ℕ} (h : RecordsAt pkt i rs k)
    (h' : RecordsAt pkt k rs' j) : RecordsAt pkt i (rs ++ rs') j := by
  induction rs generalizing i with
  | nil =>
    obtain rfl : i = k := h
    exact h'
  | cons r rs ih =>
    obtain ⟨hstart, l, hrecord, hrest⟩ := h
    exact ⟨hstart, l, hrecord, ih hrest⟩

/-- The reader steps over the questions. -/
theorem questionsEnd_of_questionsAt {qs : List DnsQuestion} {i j : ℕ}
    (h : QuestionsAt pkt i qs j) : questionsEnd pkt qs.length i = some j := by
  induction qs generalizing i with
  | nil => exact congrArg some h
  | cons q qs ih =>
    obtain ⟨k, hname, hfixed, hrest⟩ := h
    have hle := hfixed.le
    rw [List.length_append, length_put16, length_put16] at hle
    rw [List.length_cons, questionsEnd, if_pos (lt_of_nameAt hname).1, nameEnd_of_nameAt hname,
      if_neg (by omega)]
    exact ih hrest

end

/-! ### Responses -/

/-- No name of the record goes on behind a tenth pointer. -/
def DnsRecord.Whole (r : DnsRecord) : Prop :=
  Llamaste.Whole r.owner ∧ ∀ priority weight port target,
    r.data = .srv priority weight port target → Llamaste.Whole target

/-- The service of an SRV record, if it is wanted. -/
def DnsRecord.service (serviceType : Text) (r : DnsRecord) : Option (Text × UInt16) :=
  match r.data with
  | .srv _ _ port target =>
    if wanted serviceType (dnsName r.owner) then some (stripLocal (dnsName target), port) else none
  | _ => none

namespace DnsResponse

variable {pkt : Bytes}

/-- The records of the answer and additional sections. -/
def sought (msg : DnsResponse pkt) : List DnsRecord := msg.answers ++ msg.additional

/-- The reader takes the records of the answer and additional sections and no others, and finds
one service for each SRV record that is wanted, in their order. -/
structure FullyRead (serviceType : Text) (msg : DnsResponse pkt) : Prop where
  read : readings pkt = msg.sought.map (DnsRecord.reading dnsName)
  found : ∃ ds, parseServiceResponses pkt serviceType = some ds ∧
    (ds.map fun d => (d.hostname, d.port)) = msg.sought.filterMap (DnsRecord.service serviceType)

/-- The authority or the additional section is empty, the number of records in the answer and
additional sections fits 16 bits, and none of their names goes on behind a tenth pointer. -/
structure Readable (msg : DnsResponse pkt) : Prop where
  authority : msg.authority = [] ∨ msg.additional = []
  count : msg.answers.length + msg.additional.length < 65536
  names : ∀ r ∈ msg.sought, r.Whole

/-- All records, in the order of the packet. -/
def records (msg : DnsResponse pkt) : List DnsRecord :=
  msg.answers ++ (msg.authority ++ msg.additional)

/-- The number of records that the loop is told to read. -/
def total (msg : DnsResponse pkt) : ℕ := (msg.ancount + msg.arcount).toNat

theorem total_eq (msg : DnsResponse pkt) :
    msg.total = (msg.answers.length + msg.additional.length) % 65536 := by
  rw [total, UInt16.toNat_add, msg.ancount_eq, msg.arcount_eq]

/-- The reader takes as many records as the two sections have, from the first one on. -/
theorem readings_eq (msg : DnsResponse pkt) :
    readings pkt = (msg.records.take msg.total).map (DnsRecord.reading cutName) := by
  obtain ⟨-, h⟩ := at_append.mp msg.header
  obtain ⟨hflags, h⟩ := at_append.mp h
  obtain ⟨hqdcount, h⟩ := at_append.mp h
  obtain ⟨hancount, h⟩ := at_append.mp h
  obtain ⟨-, harcount⟩ := at_append.mp h
  simp only [length_put16, Nat.reduceAdd, Nat.zero_add] at hflags hqdcount hancount harcount
  have hlen := harcount.le
  rw [length_put16] at hlen
  obtain ⟨i, k, l, j, hquestions, hanswers, hauthority, hadditional⟩ := msg.sections
  have hrecords := recordsAt_append hanswers (recordsAt_append hauthority hadditional)
  have htotal : msg.total ≤ msg.records.length := by
    rw [total_eq, records, List.length_append, List.length_append]
    exact (Nat.mod_le _ _).trans (by omega)
  rw [readings, layout, word_at hflags, word_at hqdcount, word_at hancount, word_at harcount,
    if_neg (not_or.mpr ⟨not_lt.mpr hlen, msg.isResponse⟩), msg.qdcount_eq,
    questionsEnd_of_questionsAt hquestions]
  exact recordsFrom_of_recordsAt hrecords htotal

/-! ### What is read -/

theorem exists_recordAt {rs : List DnsRecord} {i j : ℕ} (h : RecordsAt pkt i rs j) :
    ∀ r ∈ rs, ∃ k, RecordAt pkt r k := by
  induction rs generalizing i with
  | nil => exact nofun
  | cons r rs ih =>
    obtain ⟨-, k, hrecord, hrest⟩ := h
    exact List.forall_mem_cons.mpr ⟨⟨k, hrecord⟩, ih hrest⟩

theorem start_lt_of_recordAt {r : DnsRecord} {j : ℕ} (h : RecordAt pkt r j) : r.start < j := by
  obtain ⟨k, rdlength, hname, -, rfl, -⟩ := h
  have hlt := (lt_of_nameAt hname).2
  omega

/-- A section that is not empty takes place. -/
theorem lt_of_recordsAt {rs : List DnsRecord} {i j : ℕ} (h : RecordsAt pkt i rs j) :
    i ≤ j ∧ (rs ≠ [] → i < j) := by
  induction rs generalizing i with
  | nil => exact ⟨le_of_eq h, fun hne => absurd rfl hne⟩
  | cons r rs ih =>
    obtain ⟨rfl, k, hrecord, hrest⟩ := h
    have hlt := start_lt_of_recordAt hrecord
    have hle := (ih hrest).1
    exact ⟨by omega, fun _ => by omega⟩

/-- A record is kept as it is exactly when its names are whole. -/
theorem reading_eq_iff {r : DnsRecord} {j : ℕ} (h : RecordAt pkt r j) :
    r.reading cutName = r.reading dnsName ↔ r.Whole := by
  obtain ⟨k, rdlength, hname, -, -, -, hdata⟩ := h
  have howner : cutName r.owner = dnsName r.owner ↔ Llamaste.Whole r.owner :=
    dnsName_take_eq_iff (isLabel_of_nameAt hname)
  rw [DnsRecord.reading, DnsRecord.reading, ReadRecord.mk.injEq, DnsRecord.Whole, howner,
    eq_self_iff_true, true_and]
  refine and_congr_right fun _ => ?_
  cases hr : r.data with
  | srv priority weight port target =>
    rw [hr] at hdata
    have htarget : cutName target = dnsName target ↔ Llamaste.Whole target :=
      dnsName_take_eq_iff (isLabel_of_nameAt hdata.2)
    rw [DnsData.reading, DnsData.reading, RecordData.srv.injEq, eq_self_iff_true, true_and, htarget]
    constructor
    · intro hwhole _ _ _ target' heq
      obtain ⟨-, -, -, rfl⟩ := DnsData.srv.inj heq
      exact hwhole
    · exact fun hall => hall priority weight port target rfl
  | txt kvs => exact iff_of_true rfl nofun
  | a ip => exact iff_of_true rfl nofun
  | other type bytes => exact iff_of_true rfl nofun

/-- The services of records that are read as they are. -/
theorem map_services (serviceType : Text) (rs : List DnsRecord) :
    ((services serviceType (rs.map (DnsRecord.reading dnsName))).map
      fun d => (d.hostname, d.port)) = rs.filterMap (DnsRecord.service serviceType) := by
  have hmerge : ∀ recs : Records, ∀ l : List (Text × SrvInfo),
      ((l.map fun r => mergeService recs r.1 r.2).map fun d => (d.hostname, d.port)) =
        l.map fun r => (r.2.target, r.2.port) := by
    intro recs l
    rw [List.map_map]
    rfl
  have hsrv : (Records.of serviceType (rs.map (DnsRecord.reading dnsName))).srv =
      rs.filterMap fun r => (r.reading dnsName).srv? serviceType := List.filterMap_map
  rw [services, hmerge, hsrv, List.map_filterMap]
  refine List.filterMap_congr fun r _ => ?_
  obtain ⟨start, owner, cls, ttl, data⟩ := r
  cases data with
  | srv priority weight port target =>
    show Option.map _ (ReadRecord.srv? serviceType
      ⟨start, dnsName owner, .srv port (dnsName target)⟩) = _
    rw [ReadRecord.srv?_srv, DnsRecord.service]
    cases wanted serviceType (dnsName owner) <;> rfl
  | txt kvs => rfl
  | a ip => rfl
  | other type bytes => rfl

/-- Where the authority or the additional section is empty, the loop reads the right records. -/
theorem take_total {msg : DnsResponse pkt} (h : msg.authority = [] ∨ msg.additional = [])
    (hcount : msg.answers.length + msg.additional.length < 65536) :
    msg.records.take msg.total = msg.sought := by
  rw [total_eq, Nat.mod_eq_of_lt hcount, records, sought]
  rcases h with hauthority | hadditional
  · rw [hauthority, List.nil_append, ← List.length_append, List.take_length]
  · rw [hadditional, List.length_nil, Nat.add_zero, List.append_nil, List.append_nil,
      List.take_left]

/-- Where the loop reads records at the places of those of the two sections, one of the sections
around is empty. -/
theorem authority_or_additional_of_starts {msg : DnsResponse pkt}
    (h : (msg.records.take msg.total).map DnsRecord.start = msg.sought.map DnsRecord.start) :
    (msg.authority = [] ∨ msg.additional = []) ∧
      msg.answers.length + msg.additional.length < 65536 := by
  obtain ⟨i, k, l, j, -, hanswers, hauthority, hadditional⟩ := msg.sections
  have hlength := congrArg List.length h
  have hmod := Nat.mod_lt (msg.answers.length + msg.additional.length)
    (show 65536 > 0 by decide)
  rw [List.length_map, List.length_map, List.length_take, sought, List.length_append] at hlength
  have htotal : msg.total = msg.answers.length + msg.additional.length := by
    have hle := Nat.mod_le (msg.answers.length + msg.additional.length) 65536
    rw [← total_eq] at hle
    omega
  refine ⟨?_, by rwa [← total_eq, htotal] at hmod⟩
  by_contra hboth
  obtain ⟨hne, hne'⟩ := not_or.mp hboth
  rw [htotal, records, sought, List.take_append, List.take_of_length_le (by omega),
    Nat.add_sub_cancel_left, List.map_append, List.map_append] at h
  have hsecond := List.append_cancel_left h
  cases hns : msg.authority with
  | nil => exact hne hns
  | cons r rs =>
    cases har : msg.additional with
    | nil => exact hne' har
    | cons r' rs' =>
      -- the first record behind the answers stands before the first additional one
      rw [hns, har, List.length_cons, List.cons_append, List.take_succ_cons, List.map_cons,
        List.map_cons] at hsecond
      rw [hns] at hauthority
      rw [har] at hadditional
      have hlt := (lt_of_recordsAt hauthority).2 (List.cons_ne_nil _ _)
      have hstart : r.start = k := hauthority.1
      have hstart' : r'.start = l := hadditional.1
      have heq := (List.cons.inj hsecond).1
      omega

/-- **A response is fully read** exactly when the authority or the additional section is empty, the
number of records fits 16 bits, and no name goes on behind a tenth pointer. -/
theorem fullyRead_iff (serviceType : Text) (msg : DnsResponse pkt) :
    FullyRead serviceType msg ↔ Readable msg := by
  have hreading : ∀ r ∈ msg.sought, (r.reading cutName = r.reading dnsName ↔ r.Whole) := by
    obtain ⟨i, k, l, j, -, hanswers, -, hadditional⟩ := msg.sections
    intro r hr
    rcases List.mem_append.mp hr with hr | hr
    · obtain ⟨e, hrecord⟩ := exists_recordAt hanswers r hr
      exact reading_eq_iff hrecord
    · obtain ⟨e, hrecord⟩ := exists_recordAt hadditional r hr
      exact reading_eq_iff hrecord
  constructor
  · rintro ⟨hread, -⟩
    rw [readings_eq] at hread
    have hstarts := congrArg (List.map ReadRecord.start) hread
    rw [List.map_map, List.map_map] at hstarts
    obtain ⟨hsections, hcount⟩ := authority_or_additional_of_starts hstarts
    refine ⟨hsections, hcount, fun r hr => (hreading r hr).mp ?_⟩
    rw [take_total hsections hcount] at hread
    exact List.map_inj_left.mp hread r hr
  · rintro ⟨hsections, hcount, hnames⟩
    have hread : readings pkt = msg.sought.map (DnsRecord.reading dnsName) := by
      rw [readings_eq, take_total hsections hcount]
      exact List.map_congr_left fun r hr => (hreading r hr).mpr (hnames r hr)
    refine ⟨hread, _, parseServiceResponses_eq pkt serviceType, ?_⟩
    rw [hread]
    exact map_services serviceType msg.sought

/-! ### Written records -/

/-- A record that is written stands in the packet. -/
theorem recordAt_of_encoded {name : Text} (hname : IsDnsName name) (data : DnsData)
    {cls : UInt16} {ttl : UInt32} {rdata : Bytes} (hlength : rdata.length < 65536) {i : ℕ}
    (h : At (encodeRecord name data.type cls ttl rdata) i pkt)
    (hdata : ∀ k, At rdata k pkt → DataAt pkt k (k + rdata.length) data) :
    RecordAt pkt ⟨i, [name.splitOn '.'], cls, ttl, data⟩
      (i + (encodeRecord name data.type cls ttl rdata).length) := by
  have hofNat : (UInt16.ofNat rdata.length).toNat = rdata.length := by
    rw [UInt16.toNat_ofNat']
    exact Nat.mod_eq_of_lt hlength
  have hle := h.le
  have htotal : (encodeRecord name data.type cls ttl rdata).length =
      (encodeDnsName name).length + 10 + rdata.length := by
    simp only [encodeRecord, List.length_append, length_put16, length_put32]
    omega
  have hfixed : encodeRecord name data.type cls ttl rdata = encodeDnsName name ++
      ((put16 data.type ++ (put16 cls ++ (put32 ttl ++ put16 (UInt16.ofNat rdata.length)))) ++
        rdata) := by
    simp only [encodeRecord, List.append_assoc]
  rw [hfixed] at h
  obtain ⟨howner, h⟩ := at_append.mp h
  obtain ⟨hheader, hrdata⟩ := at_append.mp h
  have hdataAt := hdata _ hrdata
  refine ⟨_, UInt16.ofNat rdata.length, nameAt_encodeDnsName hname howner, hheader, ?_, hle, ?_⟩
  · rw [hofNat, htotal]
    dsimp only
    omega
  · have hend : i + (encodeRecord name data.type cls ttl rdata).length =
        i + (encodeDnsName name).length + 10 + rdata.length := by omega
    rw [hend]
    exact hdataAt

/-- The data of a written SRV record. -/
theorem dataAt_srvRdata {host : Text} (hhost : IsDnsName host) (port : UInt16) {k : ℕ}
    (h : At (srvRdata host port) k pkt) :
    DataAt pkt k (k + (srvRdata host port).length) (.srv 0 0 port [host.splitOn '.']) := by
  have hsplit : srvRdata host port = (put16 0 ++ (put16 0 ++ put16 port)) ++
      encodeDnsName host := by
    simp only [srvRdata, List.append_assoc]
  rw [hsplit] at h ⊢
  obtain ⟨hfixed, htarget⟩ := at_append.mp h
  refine ⟨hfixed, ?_⟩
  rw [List.length_append, ← Nat.add_assoc]
  exact nameAt_encodeDnsName hhost htarget

/-- A response with one record in the authority section and an SRV record behind it. -/
def authorityPacket : Bytes :=
  (put16 0 ++ (put16 0x8400 ++ (put16 0 ++ (put16 0 ++ (put16 1 ++ put16 1))))) ++
    (encodeRecord "local" 47 dnsClassIn 120 [] ++
      encodeRecord "a._llama-rpc._tcp.local" dnsTypeSrv dnsClassIn 120 (srvRdata "a.local" 50052))

/-- Its record in the authority section. -/
def authorityRecord : DnsRecord := ⟨12, [[("local" : Text)]], dnsClassIn, 120, .other 47 []⟩

/-- Its SRV record. -/
def additionalRecord : DnsRecord :=
  ⟨29, [[("a" : Text), ("_llama-rpc" : Text), ("_tcp" : Text), ("local" : Text)]], dnsClassIn, 120,
    .srv 0 0 50052 [[("a" : Text), ("local" : Text)]]⟩

/-- The packet is a response. -/
def authorityResponse : DnsResponse authorityPacket where
  id := 0
  flags := 0x8400
  qdcount := 0
  ancount := 0
  nscount := 1
  arcount := 1
  questions := []
  answers := []
  authority := [authorityRecord]
  additional := [additionalRecord]
  isResponse := by decide
  header := ⟨[], _, rfl, rfl⟩
  qdcount_eq := rfl
  ancount_eq := rfl
  nscount_eq := rfl
  arcount_eq := rfl
  sections := by
    have hall : At authorityPacket 0 authorityPacket := ⟨[], [], rfl, (List.append_nil _).symm⟩
    obtain ⟨-, h⟩ := at_append.mp hall
    obtain ⟨hauthority, hadditional⟩ := at_append.mp h
    have hfirst := recordAt_of_encoded (by decide) (.other 47 []) (by decide) hauthority
      fun k hk => ⟨by decide, hk, rfl⟩
    have hsecond := recordAt_of_encoded (by decide)
      (.srv 0 0 50052 [[("a" : Text), ("local" : Text)]]) (by decide) hadditional
      fun k hk => dataAt_srvRdata (by decide) 50052 hk
    exact ⟨12, 12, _, _, rfl, rfl, ⟨rfl, _, hfirst, rfl⟩, ⟨rfl, _, hsecond, rfl⟩⟩

/-- The SRV record behind the authority section is missed. -/
theorem not_fullyRead : ¬ ∀ (serviceType : Text) (pkt : Bytes) (msg : DnsResponse pkt),
    FullyRead serviceType msg := by
  intro h
  obtain ⟨ds, hds, hfound⟩ := (h "_llama-rpc._tcp" authorityPacket authorityResponse).found
  obtain rfl := Option.some.inj ((parseServiceResponses_eq _ _).symm.trans hds)
  have hnone : (services "_llama-rpc._tcp" (readings authorityPacket)).length = 0 := by
    decide +kernel
  have hone : (authorityResponse.sought.filterMap
      (DnsRecord.service "_llama-rpc._tcp")).length = 1 := by
    decide +kernel
  have hlength := congrArg List.length hfound
  rw [List.length_map, hnone, hone] at hlength
  exact absurd hlength (by decide)

end DnsResponse

end Llamaste
