import Llamaste.Mdns

/-!
# DNS names are read back

A name is written label by label, each behind its length, and an empty label ends it.
Reading appends the labels in the same order, so a name whose labels fit comes back
whole wherever in a packet it stands.

## Main results

* `decodeDnsName_at`: the reader at the offset of a written name returns the name and the
  offset behind it.
* `decodeDnsName_joined`: so it does for labels that are joined by dots, in any packet.
-/

namespace Llamaste

open Wire

/-- A label of a name has 1 to 63 bytes. -/
def IsLabel (label : Text) : Prop := label ≠ [] ∧ label.length ≤ 63 ∧ IsBytes label

instance (label : Text) : Decidable (IsLabel label) :=
  inferInstanceAs (Decidable (label ≠ [] ∧ label.length ≤ 63 ∧ IsBytes label))

/-- What stands between the dots of a name are labels. -/
def IsDnsName (name : Text) : Prop := ∀ label ∈ name.splitOn '.', IsLabel label

instance (name : Text) : Decidable (IsDnsName name) :=
  inferInstanceAs (Decidable (∀ label ∈ name.splitOn '.', IsLabel label))

/-- Names joined by a dot make a name. -/
theorem IsDnsName.append_dot {a b : Text} (ha : IsDnsName a) (hb : IsDnsName b) :
    IsDnsName (a ++ '.' :: b) := by
  intro label hlabel
  rw [List.splitOn_append_cons_self] at hlabel
  rcases List.mem_append.mp hlabel with h | h
  · exact ha label h
  · exact hb label h

theorem IsDnsName.ne_nil {name : Text} (h : IsDnsName name) : name ≠ [] := by
  rintro rfl
  exact (h [] (by rw [List.splitOn_nil]; exact List.mem_singleton_self _)).1 rfl

/-! ### Writing a name -/

/-- No label of a name is empty, so none is dropped at the end. -/
theorem IsDnsName.dnsLabels_eq {name : Text} (h : IsDnsName name) :
    dnsLabels name = name.splitOn '.' := by
  have hlast : (name.splitOn '.').getLast? ≠ some [] := fun hnil =>
    (h [] (List.mem_of_getLast? hnil)).1 rfl
  rw [dnsLabels]
  split
  · rename_i hnil
    exact hnil.symm
  · rw [if_neg hlast]

/-- A label is not cut. -/
theorem IsLabel.encodeLabel_eq {label : Text} (h : IsLabel label) :
    encodeLabel label = UInt8.ofNat label.length :: toBytes label := by
  rw [encodeLabel, List.take_of_length_le h.2.1]

theorem IsLabel.length_encodeLabel {label : Text} (h : IsLabel label) :
    (encodeLabel label).length = label.length + 1 := by
  rw [h.encodeLabel_eq, List.length_cons, length_toBytes]

/-! ### Reading a name -/

/-- Behind a first label, labels are joined by dots. -/
theorem foldl_appendLabel {name : Text} (hname : name ≠ []) (labels : List Text) :
    labels.foldl appendLabel name = ['.'].intercalate (name :: labels) := by
  induction labels generalizing name with
  | nil => simp
  | cons label labels ih =>
      have hstep : appendLabel name label = name ++ '.' :: label := if_neg hname
      rw [List.foldl_cons, hstep, ih (by simp)]
      cases labels <;> simp [List.intercalate]

/-- The labels of a name make it up. -/
theorem IsDnsName.foldl_splitOn {name : Text} (h : IsDnsName name) :
    (name.splitOn '.').foldl appendLabel [] = name := by
  have hjoin : ['.'].intercalate (name.splitOn '.') = name := List.intercalate_splitOn '.'
  unfold IsDnsName at h
  cases hsplit : name.splitOn '.' with
  | nil => exact absurd hsplit (List.splitOn_ne_nil _ _)
  | cons label labels =>
      rw [hsplit] at h hjoin
      have hlabel : appendLabel [] label = label := if_pos rfl
      rw [List.foldl_cons, hlabel, foldl_appendLabel (h label List.mem_cons_self).1, hjoin]

/-- A length byte below 64 is not a pointer. -/
theorem length_byte : ∀ n ≤ 63, 0 < n →
    UInt8.ofNat n ≠ 0 ∧ UInt8.ofNat n &&& 0xC0 ≠ 0xC0 ∧ (UInt8.ofNat n).toNat = n := by
  decide

/-- One round of the loop reads one label. -/
theorem decodeLoop_label {label : Text} (hlabel : IsLabel label) {pkt : Bytes} {i m : ℕ}
    (hm : 0 < m) (h : At (encodeLabel label) i pkt) (name : Text) (saved : Option ℕ) :
    decodeLoop pkt m i name saved =
      decodeLoop pkt m (i + (encodeLabel label).length) (appendLabel name label) saved := by
  have hlen := hlabel.length_encodeLabel
  obtain ⟨hzero, hpointer, htoNat⟩ :=
    length_byte label.length hlabel.2.1 (List.length_pos_iff.mpr hlabel.1)
  rw [hlabel.encodeLabel_eq] at h
  obtain ⟨hbyte, hbytes⟩ := at_cons.mp h
  have hle := hbytes.le
  have hslice := hbytes.slice
  rw [length_toBytes] at hle hslice
  rw [decodeLoop, if_pos ⟨hbyte.lt, hm⟩, hbyte.getElem?, Option.bind_eq_bind, Option.bind_some,
    if_neg hzero, if_neg hpointer, htoNat, if_neg (by omega), hslice, Option.bind_eq_bind,
    Option.bind_some, ofBytes_toBytes hlabel.2.2, hlen]
  congr 1
  omega

/-- The loop reads labels up to the empty one. -/
theorem decodeLoop_labels {labels : List Text} (hlabels : ∀ label ∈ labels, IsLabel label)
    {pkt : Bytes} {i m : ℕ} (hm : 0 < m) (h : At (labels.flatMap encodeLabel ++ [0]) i pkt)
    (name : Text) :
    decodeLoop pkt m i name none =
      some (labels.foldl appendLabel name, i + (labels.flatMap encodeLabel ++ [0]).length,
        none) := by
  induction labels generalizing i name with
  | nil =>
      have hroot : At [0] i pkt := h
      rw [decodeLoop, if_pos ⟨hroot.lt, hm⟩, hroot.getElem?, Option.bind_eq_bind,
        Option.bind_some, if_pos rfl]
      rfl
  | cons label labels ih =>
      rw [List.flatMap_cons, List.append_assoc] at h ⊢
      obtain ⟨hfirst, hrest⟩ := at_append.mp h
      rw [decodeLoop_label (hlabels label List.mem_cons_self) hm hfirst,
        ih (fun l hl => hlabels l (List.mem_cons_of_mem _ hl)) hrest, List.foldl_cons]
      have hlen : (encodeLabel label ++ (labels.flatMap encodeLabel ++ [0])).length =
          (encodeLabel label).length + (labels.flatMap encodeLabel ++ [0]).length :=
        List.length_append
      rw [hlen, Nat.add_assoc]

/-- **A written name is read back**, with the offset behind it. -/
theorem decodeDnsName_at {name : Text} (hname : IsDnsName name) {pkt : Bytes} {i : ℕ}
    (h : At (encodeDnsName name) i pkt) :
    decodeDnsName pkt i = some (name, i + (encodeDnsName name).length) := by
  rw [encodeDnsName, hname.dnsLabels_eq] at h ⊢
  rw [decodeDnsName, decodeLoop_labels hname (by decide) h, hname.foldl_splitOn]
  rfl

/-- Labels without dots that are joined by dots make a name. -/
theorem isDnsName_intercalate {labels : List Text} (hne : labels ≠ [])
    (hlabels : ∀ label ∈ labels, IsLabel label ∧ '.' ∉ label) :
    IsDnsName (['.'].intercalate labels) := by
  rw [IsDnsName, List.splitOn_intercalate '.' (fun label hlabel => (hlabels label hlabel).2) hne]
  exact fun label hlabel => (hlabels label hlabel).1

/-- **Labels that are joined and written are read back**, wherever in a packet they stand. -/
theorem decodeDnsName_joined {labels : List Text} (hne : labels ≠ [])
    (hlabels : ∀ label ∈ labels, IsLabel label ∧ '.' ∉ label) (before after : Bytes) :
    decodeDnsName (before ++ encodeDnsName (['.'].intercalate labels) ++ after) before.length =
      some (['.'].intercalate labels,
        before.length + (encodeDnsName (['.'].intercalate labels)).length) := by
  rw [List.append_assoc]
  exact decodeDnsName_at (isDnsName_intercalate hne hlabels) (At.intro before _ after)

/-- A host name behind a byte and before the first byte of a pointer. -/
theorem decodeDnsName_host :
    decodeDnsName ([7] ++ encodeDnsName (['.'].intercalate ["llamaste".toList, "local".toList]) ++
      [0xC0]) ([7] : Bytes).length = some (['.'].intercalate ["llamaste".toList, "local".toList],
        ([7] : Bytes).length +
          (encodeDnsName (['.'].intercalate ["llamaste".toList, "local".toList])).length) :=
  decodeDnsName_joined (by decide) (by decide) [7] [0xC0]

end Llamaste
