import Llamaste.Lib.JsonDump
import Llamaste.Lib.TextSearch

/-!
# Tags in JSON strings

A tag such as `<tag>` is written into a JSON string as it is, so it occurs in the written text
where it occurs in the string, and nowhere else.

## Main results

* `Json.infix_dumpString_iff`: a tag occurs in a written string where it occurs in the string.
-/

namespace Json

/-- A character that is written as it is. -/
def Plain (c : Char) : Prop := c ≠ '"' ∧ c ≠ '\\' ∧ ¬ c.toNat < 0x20

instance (c : Char) : Decidable (Plain c) := inferInstanceAs (Decidable (_ ∧ _))

theorem escapeChar_of_plain {c : Char} (h : Plain c) : escapeChar c = [c] := by
  have hctl : ∀ d : Char, d.toNat < 0x20 → c ≠ d := fun d hd heq => h.2.2 (heq ▸ hd)
  simp only [escapeChar, if_neg h.1, if_neg h.2.1, if_neg (hctl '\n' (by decide)),
    if_neg (hctl '\r' (by decide)), if_neg (hctl '\t' (by decide)),
    if_neg (hctl (Char.ofNat 8) (by decide)), if_neg (hctl (Char.ofNat 12) (by decide)),
    if_neg h.2.2]

/-- Every other character is written as a backslash and a few letters and digits. -/
theorem escapeChar_of_not_plain {c : Char} (h : ¬ Plain c) :
    ∃ e, escapeChar c = '\\' :: e ∧ '<' ∉ e := by
  have hcontrol : ∀ n < 0x20, (escapeChar (Char.ofNat n)).head? = some '\\' ∧
      '<' ∉ (escapeChar (Char.ofNat n)).tail := by decide
  by_cases hquote : c = '"'
  · exact ⟨['"'], by rw [hquote]; rfl, by decide⟩
  by_cases hslash : c = '\\'
  · exact ⟨['\\'], by rw [hslash]; rfl, by decide⟩
  have hc : c.toNat < 0x20 := Decidable.not_not.mp fun hc => h ⟨hquote, hslash, hc⟩
  obtain ⟨hhead, htail⟩ := hcontrol c.toNat hc
  rw [Char.ofNat_toNat] at hhead htail
  exact ⟨_, (List.cons_head?_tail hhead).symm, htail⟩

/-- A tag, such as a marker of a turn or of a block: it starts with an angle bracket, holds no
other, and is written as it is. -/
structure IsTag (pat : Text) : Prop where
  head : pat.head? = some '<'
  tail : '<' ∉ pat.tail
  plain : ∀ c ∈ pat, Plain c

instance (pat : Text) : Decidable (IsTag pat) :=
  decidable_of_iff (pat.head? = some '<' ∧ '<' ∉ pat.tail ∧ ∀ c ∈ pat, Plain c)
    ⟨fun h => ⟨h.1, h.2.1, h.2.2⟩, fun h => ⟨h.head, h.tail, h.plain⟩⟩

theorem IsTag.anchored {pat : Text} (h : IsTag pat) : Text.Anchored pat := by
  refine ⟨fun hnil => ?_, fun c hc => ?_⟩
  · have hhead := h.head
    rw [hnil] at hhead
    cases hhead
  · rw [h.head] at hc
    obtain rfl := Option.some.inj hc
    exact h.tail

theorem prefix_flatMap_escapeChar {pat : Text} (hpat : ∀ c ∈ pat, Plain c) (s : Text) :
    pat <+: s.flatMap escapeChar ↔ pat <+: s := by
  induction s generalizing pat with
  | nil => rfl
  | cons c s ih =>
    cases pat with
    | nil => exact iff_of_true (List.nil_prefix) (List.nil_prefix)
    | cons a pat =>
      rw [List.flatMap_cons]
      by_cases hc : Plain c
      · rw [escapeChar_of_plain hc, List.singleton_append, List.cons_prefix_cons,
          List.cons_prefix_cons, ih fun b hb => hpat b (by simp [hb])]
      · obtain ⟨e, he, -⟩ := escapeChar_of_not_plain hc
        have ha := hpat a (by simp)
        rw [he, List.cons_append, List.cons_prefix_cons, List.cons_prefix_cons]
        refine iff_of_false (fun h => ?_) (fun h => hc (h.1 ▸ ha))
        exact absurd h.1 ha.2.1

/-- A tag occurs in a written string where it occurs in the string. -/
theorem infix_flatMap_escapeChar {pat : Text} (hpat : IsTag pat) (s : Text) :
    pat <:+: s.flatMap escapeChar ↔ pat <:+: s := by
  induction s with
  | nil => rfl
  | cons c s ih =>
    rw [List.flatMap_cons, List.infix_cons_iff, ← ih]
    by_cases hc : Plain c
    · have hprefix := prefix_flatMap_escapeChar hpat.plain (c :: s)
      rw [List.flatMap_cons, escapeChar_of_plain hc, List.singleton_append] at hprefix
      rw [escapeChar_of_plain hc, List.singleton_append, List.infix_cons_iff, hprefix]
    · obtain ⟨e, he, hlt⟩ := escapeChar_of_not_plain hc
      have hskip : '<' ∉ '\\' :: e := by simp [hlt]
      rw [he, Text.infix_append_of_not_mem hpat.head hskip]
      refine (or_iff_right fun ⟨t, ht⟩ => hc ?_).symm
      cases pat with
      | nil => cases hpat.head
      | cons a pat =>
        obtain rfl := (List.cons.inj ht).1
        exact hpat.plain a (by simp)

theorem infix_dumpString_iff {pat : Text} (hpat : IsTag pat) (s : Text) :
    pat <:+: dumpString s ↔ pat <:+: s := by
  have hquote : '"' ∉ pat := fun h => (hpat.plain _ h).1 rfl
  rw [dumpString, List.cons_append, ← List.nil_append ('"' :: _),
    Text.infix_append_cons_iff hquote, Text.infix_append_cons_iff hquote,
    infix_flatMap_escapeChar hpat]
  have hnil : ¬ pat <:+: ([] : Text) := fun h => by
    cases List.eq_nil_of_infix_nil h
    cases hpat.head
  exact ⟨fun h => (h.resolve_left hnil).resolve_right hnil, fun h => Or.inr (Or.inl h)⟩

end Json
