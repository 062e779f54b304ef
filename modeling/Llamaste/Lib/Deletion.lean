import Mathlib
import Llamaste.Lib.TextSearch

/-!
# Deleting a pattern

Occurrences of a pattern are cut out of a text one at a time. What stood around one joins and
may form the pattern again. When the pattern is anchored, the text that is left in the end does
not depend on the order, and whether a second pattern stands there can be told from the text
at the start.

## Main results

* `Text.Anchored.deletesTo_unique`: the text that is left at the end is unique.
* `Text.Anchored.infix_iff_of_deletesTo`: a pattern of the text that is left is a piece of the
  text at the start that was joined.
-/

open Relation

namespace Text

/-- An occurrence of the pattern is cut out. -/
def Deletes (pat s t : Text) : Prop := ∃ u v, s = u ++ (pat ++ v) ∧ t = u ++ v

/-- Occurrences are cut out, one after the other. -/
abbrev DeletesTo (pat : Text) : Text → Text → Prop := ReflTransGen (Deletes pat)

/-- A piece is cut wherever it stands. -/
theorem Deletes.append {pat s t : Text} (h : Deletes pat s t) (a b : Text) :
    Deletes pat (a ++ (s ++ b)) (a ++ (t ++ b)) := by
  obtain ⟨u, v, rfl, rfl⟩ := h
  exact ⟨a ++ u, v ++ b, by simp, by simp⟩

theorem DeletesTo.append {pat s t : Text} (h : DeletesTo pat s t) (a b : Text) :
    DeletesTo pat (a ++ (s ++ b)) (a ++ (t ++ b)) :=
  h.lift (fun s => a ++ (s ++ b)) fun _ _ hstep => hstep.append a b

/-- From a text without the pattern nothing is cut. -/
theorem DeletesTo.eq_of_not_infix {pat s t : Text} (h : DeletesTo pat s t)
    (hs : ¬ pat <:+: s) : s = t := by
  rcases h.cases_head with heq | ⟨r, ⟨u, v, rfl, -⟩, -⟩
  · exact heq
  · exact absurd ⟨u, v, by simp⟩ hs

/-! ### Where two patterns stand -/

section TwoPatterns

variable {pat tag : Text}

/-- An anchored pattern that starts behind the start of another starts behind its end. -/
theorem Anchored.eq_append_of_head (hpat : Anchored pat) (htag : tag ≠ [])
    (hhead : tag.head? = pat.head?) {u v w : Text} (hu : u ≠ [])
    (heq : pat ++ v = u ++ (tag ++ w)) : ∃ r, u = pat ++ r ∧ v = r ++ (tag ++ w) := by
  rcases List.append_eq_append_iff.mp heq with ⟨r, hr, hv⟩ | ⟨r, hr, hv⟩
  · exact ⟨r, hr, hv⟩
  · cases r with
    | nil => exact ⟨[], by rw [hr]; simp, by rw [List.nil_append, hv, List.nil_append]⟩
    | cons a r =>
      -- the second pattern would start within the first one
      exfalso
      obtain ⟨b, u, rfl⟩ := List.exists_cons_of_ne_nil hu
      obtain ⟨c, tag, rfl⟩ := List.exists_cons_of_ne_nil htag
      obtain rfl := (List.cons.inj hv).1
      refine hpat.2 c hhead.symm ?_
      rw [hr, List.cons_append, List.tail_cons]
      simp

/-- Two anchored patterns with one first character start at one place, or stand apart. -/
theorem Anchored.apart (hpat : Anchored pat) (htag : Anchored tag)
    (hhead : tag.head? = pat.head?) {u v u' v' : Text}
    (heq : u ++ (pat ++ v) = u' ++ (tag ++ v')) :
    u = u' ∨ (∃ r, u' = u ++ (pat ++ r) ∧ v = r ++ (tag ++ v')) ∨
      ∃ r, u = u' ++ (tag ++ r) ∧ v' = r ++ (pat ++ v) := by
  rcases List.append_eq_append_iff.mp heq with ⟨w, rfl, hw⟩ | ⟨w, rfl, hw⟩
  · by_cases hnil : w = []
    · exact Or.inl (by rw [hnil, List.append_nil])
    · obtain ⟨r, rfl, hv⟩ := hpat.eq_append_of_head htag.1 hhead hnil hw
      exact Or.inr (Or.inl ⟨r, rfl, hv⟩)
  · by_cases hnil : w = []
    · exact Or.inl (by rw [hnil, List.append_nil])
    · obtain ⟨r, rfl, hv⟩ := htag.eq_append_of_head hpat.1 hhead.symm hnil hw
      exact Or.inr (Or.inr ⟨r, rfl, hv⟩)

end TwoPatterns

/-! ### The order of deletions -/

/-- Two occurrences are cut out in either order. -/
theorem Anchored.deletes_diamond {pat : Text} (h : Anchored pat) {s t t' : Text}
    (ht : Deletes pat s t) (ht' : Deletes pat s t') :
    t = t' ∨ ∃ r, Deletes pat t r ∧ Deletes pat t' r := by
  obtain ⟨u, v, rfl, rfl⟩ := ht
  obtain ⟨u', v', heq, rfl⟩ := ht'
  rcases h.apart h rfl heq with rfl | ⟨r, rfl, rfl⟩ | ⟨r, rfl, rfl⟩
  · exact Or.inl (by rw [List.append_cancel_left (List.append_cancel_left heq)])
  · exact Or.inr ⟨u ++ (r ++ v'), ⟨u ++ r, v', by simp, by simp⟩, ⟨u, r ++ v', by simp, by simp⟩⟩
  · exact Or.inr ⟨u' ++ (r ++ v), ⟨u', r ++ v, by simp, by simp⟩, ⟨u' ++ r, v, by simp, by simp⟩⟩

/-- Two ways to cut a text come together. -/
theorem Anchored.deletesTo_join {pat : Text} (h : Anchored pat) {s t t' : Text}
    (ht : DeletesTo pat s t) (ht' : DeletesTo pat s t') : Join (DeletesTo pat) t t' := by
  refine church_rosser (fun a b c hb hc => ?_) ht ht'
  rcases h.deletes_diamond hb hc with rfl | ⟨r, hr, hr'⟩
  · exact ⟨b, .refl, .refl⟩
  · exact ⟨r, .single hr, .single hr'⟩

/-- **The text that is left** when the pattern does not occur any more. -/
theorem Anchored.deletesTo_unique {pat : Text} (h : Anchored pat) {s t r : Text}
    (ht : DeletesTo pat s t) (hnot : ¬ pat <:+: t) (hr : DeletesTo pat s r) :
    DeletesTo pat r t := by
  obtain ⟨t', htt', hrt'⟩ := h.deletesTo_join ht hr
  rwa [htt'.eq_of_not_infix hnot]

/-! ### What is joined -/

/-- A piece of the text that is left was a piece, or was joined from one. -/
theorem Deletes.exists_infix {pat s t tag : Text} (h : Deletes pat s t) (htag : tag <:+: t) :
    ∃ w, w <:+: s ∧ DeletesTo pat w tag := by
  obtain ⟨u, v, rfl, rfl⟩ := h
  rcases List.infix_append_iff_ne_nil.mp htag with h | h | ⟨w, w', -, -, rfl, hw, hw'⟩
  · exact ⟨tag, h.trans ⟨[], pat ++ v, rfl⟩, .refl⟩
  · exact ⟨tag, h.trans ⟨u ++ pat, [], by simp⟩, .refl⟩
  · obtain ⟨a, rfl⟩ := hw
    obtain ⟨b, rfl⟩ := hw'
    exact ⟨w ++ (pat ++ w'), ⟨a, b, by simp⟩, .single ⟨w, w', rfl, rfl⟩⟩

theorem DeletesTo.exists_infix {pat s t tag : Text} (h : DeletesTo pat s t) (htag : tag <:+: t) :
    ∃ w, w <:+: s ∧ DeletesTo pat w tag := by
  induction h using ReflTransGen.head_induction_on with
  | refl => exact ⟨tag, htag, .refl⟩
  | head hstep _ ih =>
    obtain ⟨w, hw, hdel⟩ := ih
    obtain ⟨w', hw', hdel'⟩ := hstep.exists_infix hw
    exact ⟨w', hw', hdel'.trans hdel⟩

section Tag

variable {pat tag : Text}

/-- A tag stays where another pattern is cut out. -/
theorem Anchored.infix_of_deletes (hpat : Anchored pat) (htag : Anchored tag)
    (hhead : tag.head? = pat.head?) (hnot : ¬ pat <+: tag) (hnot' : ¬ tag <+: pat) {s t : Text}
    (h : Deletes pat s t) (hin : tag <:+: s) : tag <:+: t := by
  obtain ⟨u, v, rfl, rfl⟩ := h
  obtain ⟨u', v', heq⟩ := hin
  rw [List.append_assoc] at heq
  rcases hpat.apart htag hhead heq.symm with rfl | ⟨r, rfl, rfl⟩ | ⟨r, rfl, rfl⟩
  · rcases List.append_eq_append_iff.mp (List.append_cancel_left heq) with ⟨w, hw, -⟩ | ⟨w, hw, -⟩
    · exact absurd ⟨w, hw.symm⟩ hnot'
    · exact absurd ⟨w, hw.symm⟩ hnot
  · exact ⟨u ++ r, v', by simp⟩
  · exact ⟨u', r ++ v, by simp⟩

theorem Anchored.infix_of_deletesTo (hpat : Anchored pat) (htag : Anchored tag)
    (hhead : tag.head? = pat.head?) (hnot : ¬ pat <+: tag) (hnot' : ¬ tag <+: pat) {s t : Text}
    (h : DeletesTo pat s t) (hin : tag <:+: s) : tag <:+: t := by
  induction h with
  | refl => exact hin
  | tail _ hstep ih => exact hpat.infix_of_deletes htag hhead hnot hnot' hstep ih

/-- **A tag stands in the text that is left** exactly when it is joined from a piece of the text
at the start. -/
theorem Anchored.infix_iff_of_deletesTo (hpat : Anchored pat) (htag : Anchored tag)
    (hhead : tag.head? = pat.head?) (hnot : ¬ pat <+: tag) (hnot' : ¬ tag <+: pat) {s t : Text}
    (h : DeletesTo pat s t) (ht : ¬ pat <:+: t) :
    tag <:+: t ↔ ∃ w, w <:+: s ∧ DeletesTo pat w tag := by
  constructor
  · exact h.exists_infix
  · rintro ⟨w, ⟨a, b, rfl⟩, hdel⟩
    rw [List.append_assoc] at h
    have hjoined := hpat.deletesTo_unique h ht (hdel.append a b)
    exact hpat.infix_of_deletesTo htag hhead hnot hnot' hjoined ⟨a, b, by simp⟩

end Tag

end Text
