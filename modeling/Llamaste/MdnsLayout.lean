import Llamaste.Mdns

/-!
# The layout of a response

What a response says, apart from the service that is asked for: which records the reader goes
through, where in the packet the labels of their names stand, and what their data is. The checked
reader never reads outside of the packet, so it finds exactly this.

## Main results

* `decodeDnsName_eq`: reading a name never leaves the packet, goes on behind the offset, and gives
  the labels of the layout.
* `parseServiceResponses_eq`: so does reading a response, whose services come from the records of
  the layout.
-/

namespace Llamaste

open Wire

/-! ### Names -/

/-- The offset of a label and its length. -/
abbrev LabelSpan := ℕ × ℕ

/-- The loop over a name: its labels, the offset it stops at and the offset behind the first
pointer. -/
def spanLoop (pkt : Bytes) (maxJumps offset : ℕ) (saved : Option ℕ) :
    List LabelSpan × ℕ × Option ℕ :=
  if offset < pkt.length ∧ 0 < maxJumps then
    let len := pkt.getD offset 0
    if len = 0 then
      ([], if saved.isSome then offset else offset + 1, saved)
    else if len &&& 0xC0 = 0xC0 then
      if offset + 1 ≥ pkt.length then
        ([], offset, saved)
      else
        let ptr := (len &&& 0x3F).toUInt16 <<< 8 ||| (pkt.getD (offset + 1) 0).toUInt16
        spanLoop pkt (maxJumps - 1) ptr.toNat (saved <|> some (offset + 2))
    else if offset + 1 + len.toNat > pkt.length then
      ([], offset + 1, saved)
    else
      let rest := spanLoop pkt maxJumps (offset + 1 + len.toNat) saved
      ((offset + 1, len.toNat) :: rest.1, rest.2)
  else
    ([], offset, saved)
termination_by maxJumps * (pkt.length + 1) + (pkt.length - offset)
decreasing_by
  · obtain ⟨k, rfl⟩ := Nat.exists_eq_add_of_lt ‹offset < pkt.length ∧ 0 < maxJumps›.2
    rw [Nat.zero_add, Nat.add_sub_cancel, Nat.add_mul]
    omega
  · omega

/-- The labels of the name at an offset. -/
def nameSpans (pkt : Bytes) (offset : ℕ) : List LabelSpan := (spanLoop pkt 10 offset none).1

/-- The offset behind the name at an offset. -/
def nameEnd (pkt : Bytes) (offset : ℕ) : ℕ :=
  (spanLoop pkt 10 offset none).2.2.getD (spanLoop pkt 10 offset none).2.1

/-- The bytes of a label. -/
def labelText (pkt : Bytes) (span : LabelSpan) : Text :=
  Text.ofBytes ((pkt.drop span.1).take span.2)

/-- The name that labels make up, behind others. -/
def joinSpans (pkt : Bytes) (name : Text) (spans : List LabelSpan) : Text :=
  (spans.map (labelText pkt)).foldl appendLabel name

theorem slice_eq {pkt : Bytes} {i n : ℕ} (h : i + n ≤ pkt.length) :
    slice pkt i n = some ((pkt.drop i).take n) := if_pos h

theorem getElem?_eq_getD {pkt : Bytes} {i : ℕ} (h : i < pkt.length) :
    pkt[i]? = some (pkt.getD i 0) := by
  rw [List.getD_eq_getElem?_getD, List.getElem?_eq_getElem h]
  rfl

/-! ### One round of the loop -/

section Rounds

variable {pkt : Bytes} {maxJumps offset : ℕ} {saved : Option ℕ}

theorem spanLoop_root (h : offset < pkt.length ∧ 0 < maxJumps) (hzero : pkt.getD offset 0 = 0) :
    spanLoop pkt maxJumps offset saved =
      ([], if saved.isSome then offset else offset + 1, saved) := by
  rw [spanLoop, if_pos h]
  dsimp only
  rw [if_pos hzero]

theorem spanLoop_cutPointer (h : offset < pkt.length ∧ 0 < maxJumps)
    (hzero : ¬ pkt.getD offset 0 = 0) (hpointer : pkt.getD offset 0 &&& 0xC0 = 0xC0)
    (hcut : offset + 1 ≥ pkt.length) :
    spanLoop pkt maxJumps offset saved = ([], offset, saved) := by
  rw [spanLoop, if_pos h]
  dsimp only
  rw [if_neg hzero, if_pos hpointer, if_pos hcut]

theorem spanLoop_pointer (h : offset < pkt.length ∧ 0 < maxJumps)
    (hzero : ¬ pkt.getD offset 0 = 0) (hpointer : pkt.getD offset 0 &&& 0xC0 = 0xC0)
    (hcut : ¬ offset + 1 ≥ pkt.length) :
    spanLoop pkt maxJumps offset saved =
      spanLoop pkt (maxJumps - 1) ((pkt.getD offset 0 &&& 0x3F).toUInt16 <<< 8 |||
        (pkt.getD (offset + 1) 0).toUInt16).toNat (saved <|> some (offset + 2)) := by
  rw [spanLoop, if_pos h]
  dsimp only
  rw [if_neg hzero, if_pos hpointer, if_neg hcut]

theorem spanLoop_cutLabel (h : offset < pkt.length ∧ 0 < maxJumps)
    (hzero : ¬ pkt.getD offset 0 = 0) (hpointer : ¬ pkt.getD offset 0 &&& 0xC0 = 0xC0)
    (hcut : offset + 1 + (pkt.getD offset 0).toNat > pkt.length) :
    spanLoop pkt maxJumps offset saved = ([], offset + 1, saved) := by
  rw [spanLoop, if_pos h]
  dsimp only
  rw [if_neg hzero, if_neg hpointer, if_pos hcut]

theorem spanLoop_label (h : offset < pkt.length ∧ 0 < maxJumps)
    (hzero : ¬ pkt.getD offset 0 = 0) (hpointer : ¬ pkt.getD offset 0 &&& 0xC0 = 0xC0)
    (hcut : ¬ offset + 1 + (pkt.getD offset 0).toNat > pkt.length) :
    spanLoop pkt maxJumps offset saved =
      ((offset + 1, (pkt.getD offset 0).toNat) ::
        (spanLoop pkt maxJumps (offset + 1 + (pkt.getD offset 0).toNat) saved).1,
      (spanLoop pkt maxJumps (offset + 1 + (pkt.getD offset 0).toNat) saved).2) := by
  rw [spanLoop, if_pos h]
  dsimp only
  rw [if_neg hzero, if_neg hpointer, if_neg hcut]

theorem spanLoop_stop (h : ¬ (offset < pkt.length ∧ 0 < maxJumps)) :
    spanLoop pkt maxJumps offset saved = ([], offset, saved) := by
  rw [spanLoop, if_neg h]

end Rounds

/-- **The loop never reads outside of the packet.** -/
theorem decodeLoop_eq (pkt : Bytes) (maxJumps offset : ℕ) (name : Text) (saved : Option ℕ) :
    decodeLoop pkt maxJumps offset name saved =
      some (joinSpans pkt name (spanLoop pkt maxJumps offset saved).1,
        (spanLoop pkt maxJumps offset saved).2) := by
  induction maxJumps, offset, saved using spanLoop.induct pkt generalizing name with
  | case1 maxJumps offset saved h len hzero =>
    rw [spanLoop_root h hzero, decodeLoop, if_pos h, getElem?_eq_getD h.1]
    dsimp only [Option.bind_eq_bind, Option.bind_some]
    rw [if_pos hzero]
    rfl
  | case2 maxJumps offset saved h len hzero hpointer hcut =>
    rw [spanLoop_cutPointer h hzero hpointer hcut, decodeLoop, if_pos h, getElem?_eq_getD h.1]
    dsimp only [Option.bind_eq_bind, Option.bind_some]
    rw [if_neg hzero, if_pos hpointer, if_pos hcut]
    rfl
  | case3 maxJumps offset saved h len hzero hpointer hcut ptr ih =>
    rw [spanLoop_pointer h hzero hpointer hcut, decodeLoop, if_pos h, getElem?_eq_getD h.1,
      getElem?_eq_getD (not_le.mp hcut)]
    dsimp only [Option.bind_eq_bind, Option.bind_some]
    rw [if_neg hzero, if_pos hpointer, if_neg hcut]
    exact ih name
  | case4 maxJumps offset saved h len hzero hpointer hcut =>
    rw [spanLoop_cutLabel h hzero hpointer hcut, decodeLoop, if_pos h, getElem?_eq_getD h.1]
    dsimp only [Option.bind_eq_bind, Option.bind_some]
    rw [if_neg hzero, if_neg hpointer, if_pos hcut]
    rfl
  | case5 maxJumps offset saved h len hzero hpointer hcut ih =>
    rw [spanLoop_label h hzero hpointer hcut, decodeLoop, if_pos h, getElem?_eq_getD h.1]
    dsimp only [Option.bind_eq_bind, Option.bind_some]
    rw [if_neg hzero, if_neg hpointer, if_neg hcut, slice_eq (not_lt.mp hcut), Option.bind_some]
    exact ih _
  | case6 maxJumps offset saved h =>
    rw [spanLoop_stop h, decodeLoop, if_neg h]
    rfl

/-- The name at an offset. -/
def nameText (pkt : Bytes) (offset : ℕ) : Text := joinSpans pkt [] (nameSpans pkt offset)

theorem decodeDnsName_eq (pkt : Bytes) (offset : ℕ) :
    decodeDnsName pkt offset = some (nameText pkt offset, nameEnd pkt offset) := by
  rw [decodeDnsName, decodeLoop_eq]
  rfl

/-- The offset behind the first pointer stays. -/
theorem spanLoop_saved (pkt : Bytes) (maxJumps offset s : ℕ) :
    (spanLoop pkt maxJumps offset (some s)).2.2 = some s := by
  generalize hsaved : some s = saved
  induction maxJumps, offset, saved using spanLoop.induct pkt with
  | case1 maxJumps offset saved h len hzero =>
    rw [spanLoop_root h hzero]
  | case2 maxJumps offset saved h len hzero hpointer hcut =>
    rw [spanLoop_cutPointer h hzero hpointer hcut]
  | case3 maxJumps offset saved h len hzero hpointer hcut ptr ih =>
    subst hsaved
    rw [spanLoop_pointer h hzero hpointer hcut]
    exact ih rfl
  | case4 maxJumps offset saved h len hzero hpointer hcut =>
    rw [spanLoop_cutLabel h hzero hpointer hcut]
  | case5 maxJumps offset saved h len hzero hpointer hcut ih =>
    rw [spanLoop_label h hzero hpointer hcut]
    exact ih hsaved
  | case6 maxJumps offset saved h => rw [spanLoop_stop h]

/-- The loop ends between the offset and the end of the packet, by the first pointer. -/
theorem spanLoop_end (pkt : Bytes) (maxJumps : ℕ) {offset : ℕ} (hoffset : offset ≤ pkt.length) :
    offset ≤ (spanLoop pkt maxJumps offset none).2.2.getD
        (spanLoop pkt maxJumps offset none).2.1 ∧
      (spanLoop pkt maxJumps offset none).2.2.getD
        (spanLoop pkt maxJumps offset none).2.1 ≤ pkt.length := by
  generalize hsaved : none = saved
  induction maxJumps, offset, saved using spanLoop.induct pkt with
  | case1 maxJumps offset saved h len hzero =>
    subst hsaved
    rw [spanLoop_root h hzero]
    exact ⟨Nat.le_succ offset, h.1⟩
  | case2 maxJumps offset saved h len hzero hpointer hcut =>
    subst hsaved
    rw [spanLoop_cutPointer h hzero hpointer hcut]
    exact ⟨le_rfl, hoffset⟩
  | case3 maxJumps offset saved h len hzero hpointer hcut ptr ih =>
    -- a pointer of two bytes stands here, whatever it leads to
    subst hsaved
    rw [spanLoop_pointer h hzero hpointer hcut]
    have hbehind := spanLoop_saved pkt (maxJumps - 1) ptr.toNat (offset + 2)
    rw [show (none <|> some (offset + 2)) = some (offset + 2) from rfl, hbehind]
    exact ⟨Nat.le_add_right offset 2, not_le.mp hcut⟩
  | case4 maxJumps offset saved h len hzero hpointer hcut =>
    subst hsaved
    rw [spanLoop_cutLabel h hzero hpointer hcut]
    exact ⟨Nat.le_succ offset, h.1⟩
  | case5 maxJumps offset saved h len hzero hpointer hcut ih =>
    have hrest := ih (not_lt.mp hcut) hsaved
    rw [spanLoop_label h hzero hpointer hcut]
    exact ⟨(show offset ≤ offset + 1 + len.toNat by omega).trans hrest.1, hrest.2⟩
  | case6 maxJumps offset saved h =>
    subst hsaved
    rw [spanLoop_stop h]
    exact ⟨le_rfl, hoffset⟩

theorem le_nameEnd {pkt : Bytes} {offset : ℕ} (h : offset ≤ pkt.length) :
    offset ≤ nameEnd pkt offset := (spanLoop_end pkt 10 h).1

theorem nameEnd_le {pkt : Bytes} {offset : ℕ} (h : offset ≤ pkt.length) :
    nameEnd pkt offset ≤ pkt.length := (spanLoop_end pkt 10 h).2

/-- The labels with a dot for each fit into the bytes that are left, and the packet once more for
each jump. -/
theorem spanLoop_length (pkt : Bytes) (maxJumps offset : ℕ) (saved : Option ℕ) :
    ((spanLoop pkt maxJumps offset saved).1.map fun span => span.2 + 1).sum ≤
      (pkt.length - offset) + maxJumps * pkt.length := by
  induction maxJumps, offset, saved using spanLoop.induct pkt with
  | case1 maxJumps offset saved h len hzero =>
    rw [spanLoop_root h hzero]
    exact Nat.zero_le _
  | case2 maxJumps offset saved h len hzero hpointer hcut =>
    rw [spanLoop_cutPointer h hzero hpointer hcut]
    exact Nat.zero_le _
  | case3 maxJumps offset saved h len hzero hpointer hcut ptr ih =>
    rw [spanLoop_pointer h hzero hpointer hcut]
    obtain ⟨jumps, rfl⟩ := Nat.exists_eq_add_of_lt h.2
    rw [Nat.zero_add, Nat.add_sub_cancel] at ih ⊢
    rw [Nat.succ_mul]
    exact ih.trans (by omega)
  | case4 maxJumps offset saved h len hzero hpointer hcut =>
    rw [spanLoop_cutLabel h hzero hpointer hcut]
    exact Nat.zero_le _
  | case5 maxJumps offset saved h len hzero hpointer hcut ih =>
    rw [spanLoop_label h hzero hpointer hcut, List.map_cons, List.sum_cons]
    dsimp only [len] at ih hcut ⊢
    omega
  | case6 maxJumps offset saved h =>
    rw [spanLoop_stop h]
    exact Nat.zero_le _

theorem length_labelText_le (pkt : Bytes) (span : LabelSpan) :
    (labelText pkt span).length ≤ span.2 := by
  rw [labelText, Text.ofBytes, List.length_map]
  exact List.length_take_le _ _

theorem length_appendLabel_le (name label : Text) :
    (appendLabel name label).length ≤ name.length + (label.length + 1) := by
  rw [appendLabel]
  split_ifs with h
  · omega
  · rw [List.length_append, List.length_cons]

theorem length_joinSpans_le (pkt : Bytes) (name : Text) (spans : List LabelSpan) :
    (joinSpans pkt name spans).length ≤
      name.length + (spans.map fun span => span.2 + 1).sum := by
  induction spans generalizing name with
  | nil => exact le_rfl
  | cons span spans ih =>
    have hlabel := length_appendLabel_le name (labelText pkt span)
    have htext := length_labelText_le pkt span
    rw [List.map_cons, List.sum_cons]
    exact (ih _).trans (by omega)

/-- A name has at most eleven times as many bytes as the packet. -/
theorem length_nameText_le (pkt : Bytes) (offset : ℕ) :
    (nameText pkt offset).length ≤ 11 * pkt.length := by
  have hjoin := length_joinSpans_le pkt [] (nameSpans pkt offset)
  have hspans := spanLoop_length pkt 10 offset none
  rw [List.length_nil] at hjoin
  rw [nameText, nameSpans] at *
  omega

/-! ### Records -/

/-- The 16-bit number at an offset. -/
def word (pkt : Bytes) (i : ℕ) : UInt16 :=
  (pkt.getD i 0).toUInt16 <<< 8 ||| (pkt.getD (i + 1) 0).toUInt16

theorem get16_eq {pkt : Bytes} {i : ℕ} (h : i + 1 < pkt.length) :
    get16 pkt i = some (word pkt i) := by
  rw [get16, getElem?_eq_getD (Nat.lt_of_succ_lt h), getElem?_eq_getD h]
  rfl

/-- The strings of a TXT record. -/
def txtFrom (pkt : Bytes) (pos txtEnd : ℕ) : List Text :=
  if pos < txtEnd then
    let len := pkt.getD pos 0
    if pos + 1 + len.toNat > txtEnd then []
    else (if len > 0 then [labelText pkt (pos + 1, len.toNat)] else []) ++
      txtFrom pkt (pos + 1 + len.toNat) txtEnd
  else []
termination_by txtEnd - pos

theorem parseTxt_eq {pkt : Bytes} {pos txtEnd : ℕ} (h : txtEnd ≤ pkt.length) (kvs : List Text) :
    parseTxt pkt pos txtEnd kvs = some (kvs ++ txtFrom pkt pos txtEnd) := by
  induction pos using txtFrom.induct pkt txtEnd generalizing kvs with
  | case1 pos hpos len hcut =>
    rw [parseTxt, txtFrom, if_pos hpos, if_pos hpos, getElem?_eq_getD (hpos.trans_le h)]
    dsimp only [Option.bind_eq_bind, Option.bind_some]
    rw [if_pos hcut, if_pos hcut, List.append_nil]
  | case2 pos hpos len hcut ih =>
    rw [parseTxt, txtFrom, if_pos hpos, if_pos hpos, getElem?_eq_getD (hpos.trans_le h)]
    dsimp only [Option.bind_eq_bind, Option.bind_some]
    rw [if_neg hcut, if_neg hcut, slice_eq ((not_lt.mp hcut).trans h), Option.bind_some, ih]
    split_ifs
    · rw [List.append_assoc]
      rfl
    · rfl
  | case3 pos hpos =>
    rw [parseTxt, txtFrom, if_neg hpos, if_neg hpos, List.append_nil]

/-- The data of a record; `ν` is how names are given. -/
inductive RecordData (ν : Type)
  | srv (port : UInt16) (target : ν)
  | txt (kvs : List Text)
  | a (ip : Text)
  | other
  deriving DecidableEq

/-- A record that the reader takes, and where it starts. -/
structure ReadRecord (ν : Type) where
  start : ℕ
  owner : ν
  data : RecordData ν
  deriving DecidableEq

/-- The data of a record at an offset, by its type. -/
def rdataAt (pkt : Bytes) (rrType rdlength : UInt16) (start : ℕ) : RecordData (List LabelSpan) :=
  if rrType = dnsTypeSrv ∧ rdlength ≥ 6 then
    .srv (word pkt (start + 4)) (nameSpans pkt (start + 6))
  else if rrType = dnsTypeTxt ∧ rdlength > 0 then
    .txt (txtFrom pkt start (start + rdlength.toNat))
  else if rrType = dnsTypeA ∧ rdlength = 4 then
    .a (dottedQuad (pkt.getD start 0) (pkt.getD (start + 1) 0) (pkt.getD (start + 2) 0)
      (pkt.getD (start + 3) 0))
  else .other

/-- The offset behind the record at an offset. -/
def recordEnd (pkt : Bytes) (offset : ℕ) : ℕ :=
  nameEnd pkt offset + 10 + (word pkt (nameEnd pkt offset + 8)).toNat

/-- The record at an offset. -/
def recordAt (pkt : Bytes) (offset : ℕ) : ReadRecord (List LabelSpan) where
  start := offset
  owner := nameSpans pkt offset
  data := rdataAt pkt (word pkt (nameEnd pkt offset)) (word pkt (nameEnd pkt offset + 8))
    (nameEnd pkt offset + 10)

/-- The records from an offset on, up to one that does not fit the packet. -/
def recordsFrom (pkt : Bytes) : ℕ → ℕ → List (ReadRecord (List LabelSpan))
  | 0, _ => []
  | n + 1, offset =>
    if offset < pkt.length ∧ nameEnd pkt offset + 10 ≤ pkt.length ∧
        recordEnd pkt offset ≤ pkt.length then
      recordAt pkt offset :: recordsFrom pkt n (recordEnd pkt offset)
    else []

/-- The offset behind the questions, where they fit the packet. -/
def questionsEnd (pkt : Bytes) : ℕ → ℕ → Option ℕ
  | 0, offset => some offset
  | n + 1, offset =>
    if offset < pkt.length then
      if nameEnd pkt offset + 4 > pkt.length then none
      else questionsEnd pkt n (nameEnd pkt offset + 4)
    else some offset

/-- The records of a packet. -/
def layout (pkt : Bytes) : List (ReadRecord (List LabelSpan)) :=
  if pkt.length < 12 ∨ word pkt 2 &&& dnsFlagResponse = 0 then []
  else
    match questionsEnd pkt (word pkt 4).toNat 12 with
    | none => []
    | some offset => recordsFrom pkt (word pkt 6 + word pkt 10).toNat offset

/-! ### The services of the records -/

/-- Names given otherwise. -/
def RecordData.map {ν μ : Type} (f : ν → μ) : RecordData ν → RecordData μ
  | .srv port target => .srv port (f target)
  | .txt kvs => .txt kvs
  | .a ip => .a ip
  | .other => .other

namespace ReadRecord

/-- Names given otherwise. -/
def map {ν μ : Type} (f : ν → μ) (r : ReadRecord ν) : ReadRecord μ where
  start := r.start
  owner := f r.owner
  data := r.data.map f

/-- The SRV record of a wanted service. -/
def srv? (serviceType : Text) (r : ReadRecord Text) : Option (Text × SrvInfo) :=
  match r.data with
  | .srv port target =>
    if wanted serviceType r.owner then some (r.owner, { target := stripLocal target, port })
    else none
  | _ => none

theorem map_srv {ν μ : Type} (f : ν → μ) (start : ℕ) (owner : ν) (port : UInt16) (target : ν) :
    map f ⟨start, owner, .srv port target⟩ = ⟨start, f owner, .srv port (f target)⟩ := rfl

theorem srv?_srv (serviceType : Text) (start : ℕ) (owner : Text) (port : UInt16) (target : Text) :
    srv? serviceType ⟨start, owner, .srv port target⟩ =
      if wanted serviceType owner then some (owner, { target := stripLocal target, port })
      else none := rfl

/-- The strings of a TXT record behind its owner. -/
def txt? (r : ReadRecord Text) : Option (Text × List Text) :=
  match r.data with
  | .txt kvs => some (r.owner, kvs)
  | _ => none

/-- The address of an A record behind its owner. -/
def a? (r : ReadRecord Text) : Option (Text × Text) :=
  match r.data with
  | .a ip => some (r.owner, ip)
  | _ => none

end ReadRecord

/-- What is kept of the records. -/
def Records.of (serviceType : Text) (rs : List (ReadRecord Text)) : Records where
  srv := rs.filterMap (ReadRecord.srv? serviceType)
  txt := rs.filterMap ReadRecord.txt?
  a := rs.filterMap ReadRecord.a?

/-- The services of the records. -/
def services (serviceType : Text) (rs : List (ReadRecord Text)) : List DiscoveredService :=
  (Records.of serviceType rs).srv.map fun r => mergeService (Records.of serviceType rs) r.1 r.2

/-- The records of a packet, with the text of their names. -/
def readings (pkt : Bytes) : List (ReadRecord Text) :=
  (layout pkt).map (ReadRecord.map (joinSpans pkt []))

theorem Records.of_nil (serviceType : Text) : Records.of serviceType [] = {} := rfl

theorem Records.of_srv {serviceType owner : Text} (start : ℕ) (port : UInt16) (target : Text)
    (h : wanted serviceType owner = true) :
    Records.of serviceType [⟨start, owner, .srv port target⟩] =
      { srv := [(owner, { target := stripLocal target, port })] } := by
  simp [of, ReadRecord.srv?, ReadRecord.txt?, ReadRecord.a?, h]

theorem Records.of_unwanted {serviceType owner : Text} (start : ℕ) (port : UInt16) (target : Text)
    (h : wanted serviceType owner = false) :
    Records.of serviceType [⟨start, owner, .srv port target⟩] = {} := by
  simp [of, ReadRecord.srv?, ReadRecord.txt?, ReadRecord.a?, h]

/-- Records are kept behind others. -/
def Records.append (recs recs' : Records) : Records where
  srv := recs.srv ++ recs'.srv
  txt := recs.txt ++ recs'.txt
  a := recs.a ++ recs'.a

theorem Records.append_nil (recs : Records) : recs.append {} = recs := by
  simp only [append, List.append_nil]

theorem Records.append_of_cons (recs : Records) (serviceType : Text) (r : ReadRecord Text)
    (rs : List (ReadRecord Text)) :
    recs.append (Records.of serviceType (r :: rs)) =
      (recs.append (Records.of serviceType [r])).append (Records.of serviceType rs) := by
  have hsplit : r :: rs = [r] ++ rs := rfl
  rw [hsplit]
  simp only [append, of, List.filterMap_append, List.append_assoc]

/-- The reader adds what the layout says. -/
theorem parseRdata_eq {pkt : Bytes} {rrType rdlength : UInt16} {start : ℕ}
    (hend : start + rdlength.toNat ≤ pkt.length) (serviceType rrName : Text) (offset : ℕ)
    (recs : Records) :
    parseRdata pkt serviceType rrName rrType rdlength start recs =
      some (recs.append (Records.of serviceType
        [⟨offset, rrName, (rdataAt pkt rrType rdlength start).map (joinSpans pkt [])⟩])) := by
  rw [parseRdata, rdataAt]
  by_cases hsrv : rrType = dnsTypeSrv ∧ rdlength ≥ 6
  · have hsix : 6 ≤ rdlength.toNat := UInt16.le_iff_toNat_le.mp hsrv.2
    rw [if_pos hsrv, if_pos hsrv, get16_eq (by omega), decodeDnsName_eq]
    dsimp only [Option.bind_eq_bind, Option.bind_some, RecordData.map]
    cases hwanted : wanted serviceType rrName with
    | true =>
      rw [if_pos rfl, ← nameText, Records.of_srv offset _ _ hwanted]
      simp only [Records.append, List.append_nil]
    | false =>
      rw [if_neg Bool.false_ne_true, Records.of_unwanted offset _ _ hwanted, Records.append_nil]
  · rw [if_neg hsrv, if_neg hsrv]
    by_cases htxt : rrType = dnsTypeTxt ∧ rdlength > 0
    · rw [if_pos htxt, if_pos htxt, parseTxt_eq hend]
      have hkept : ∀ kvs, Records.of serviceType [⟨offset, rrName, .txt kvs⟩] =
          { txt := [(rrName, kvs)] } := fun _ => rfl
      dsimp only [RecordData.map]
      rw [hkept]
      simp [Records.append]
    · rw [if_neg htxt, if_neg htxt]
      by_cases ha : rrType = dnsTypeA ∧ rdlength = 4
      · have hfour : rdlength.toNat = 4 := congrArg UInt16.toNat ha.2
        rw [if_pos ha, if_pos ha, getElem?_eq_getD (i := start) (by omega),
          getElem?_eq_getD (i := start + 1) (by omega),
          getElem?_eq_getD (i := start + 2) (by omega),
          getElem?_eq_getD (i := start + 3) (by omega)]
        have hkept : ∀ ip, Records.of serviceType [⟨offset, rrName, .a ip⟩] =
            { a := [(rrName, ip)] } := fun _ => rfl
        dsimp only [RecordData.map]
        rw [hkept]
        simp [Records.append]
      · rw [if_neg ha, if_neg ha]
        have hdropped : Records.of serviceType [⟨offset, rrName, .other⟩] = {} := rfl
        dsimp only [RecordData.map]
        rw [hdropped, Records.append_nil]

/-- The loop over the records reads those of the layout. -/
theorem parseRecords_eq (pkt : Bytes) (serviceType : Text) (n offset : ℕ) (recs : Records) :
    parseRecords pkt serviceType n offset recs =
      some (recs.append (Records.of serviceType
        ((recordsFrom pkt n offset).map (ReadRecord.map (joinSpans pkt []))))) := by
  induction n generalizing offset recs with
  | zero =>
    rw [recordsFrom, List.map_nil, Records.of_nil, Records.append_nil]
    rfl
  | succ n ih =>
    rw [parseRecords, recordsFrom, parseRecord, decodeDnsName_eq]
    dsimp only [Option.bind_eq_bind, Option.bind_some, Option.pure_def]
    by_cases hoffset : offset < pkt.length
    · by_cases hheader : nameEnd pkt offset + 10 ≤ pkt.length
      · rw [if_pos hoffset, if_neg (not_lt.mpr hheader), get16_eq (by omega),
          get16_eq (i := nameEnd pkt offset + 2) (by omega),
          get16_eq (i := nameEnd pkt offset + 8) (by omega)]
        dsimp only [Option.bind_some]
        by_cases hend : nameEnd pkt offset + 10 + (word pkt (nameEnd pkt offset + 8)).toNat ≤
            pkt.length
        · rw [if_neg (not_lt.mpr hend), parseRdata_eq hend serviceType (nameText pkt offset) offset,
            if_pos (show _ ∧ _ ∧ recordEnd pkt offset ≤ pkt.length from ⟨hoffset, hheader, hend⟩)]
          dsimp only [Option.bind_some]
          rw [ih, List.map_cons]
          exact congrArg some (Records.append_of_cons recs serviceType _ _).symm
        · rw [if_pos (not_le.mp hend), if_neg fun h => hend h.2.2, List.map_nil,
            Records.of_nil, Records.append_nil]
          rfl
      · rw [if_pos hoffset, if_pos (not_le.mp hheader), if_neg fun h => hheader h.2.1,
          List.map_nil, Records.of_nil, Records.append_nil]
        rfl
    · rw [if_neg hoffset, if_neg fun h => hoffset h.1, List.map_nil, Records.of_nil,
        Records.append_nil]

theorem skipQuestions_eq (pkt : Bytes) (n offset : ℕ) :
    skipQuestions pkt n offset = some (questionsEnd pkt n offset) := by
  induction n generalizing offset with
  | zero => rfl
  | succ n ih =>
    rw [skipQuestions, questionsEnd, decodeDnsName_eq]
    dsimp only [Option.bind_eq_bind, Option.bind_some, Option.pure_def]
    split_ifs
    · rfl
    · exact ih _
    · rfl

/-- **Reading a response never leaves the packet**, and its services come from the records of the
layout. -/
theorem parseServiceResponses_eq (pkt : Bytes) (serviceType : Text) :
    parseServiceResponses pkt serviceType = some (services serviceType (readings pkt)) := by
  rw [parseServiceResponses, readings, layout]
  dsimp only [Option.bind_eq_bind, Option.pure_def]
  by_cases hlen : pkt.length < 12
  · rw [if_pos hlen, if_pos (.inl hlen)]
    rfl
  · rw [if_neg hlen, get16_eq (by omega), get16_eq (i := 4) (by omega),
      get16_eq (i := 6) (by omega), get16_eq (i := 10) (by omega)]
    dsimp only [Option.bind_some]
    by_cases hflags : word pkt 2 &&& dnsFlagResponse = 0
    · rw [if_pos hflags, if_pos (.inr hflags)]
      rfl
    · rw [if_neg hflags, if_neg (not_or.mpr ⟨hlen, hflags⟩), skipQuestions_eq]
      dsimp only [Option.bind_some]
      cases questionsEnd pkt (word pkt 4).toNat 12 with
      | none => rfl
      | some offset =>
        dsimp only
        rw [parseRecords_eq]
        rfl

end Llamaste
