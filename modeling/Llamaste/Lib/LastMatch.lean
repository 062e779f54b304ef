import Mathlib

/-!
# The last match of a sorted list

A scan that keeps the last match of a list that is sorted by a key ends with a match of greatest
key. A sort by a key may leave elements of one key in any order, so that among those the scan may
end with any.

## Main results

* `LastMatch.key_le`: no match has a greater key than the last one.
* `LastMatch.forall_sort_eq_some_iff`: a match is the last one however the list is sorted, exactly
  when every other match has a smaller key.
-/

/-- A sort by a key: an unstable one, for each list one of its sorted arrangements. -/
structure KeySort {α β : Type*} [LinearOrder β] (key : α → β) where
  sort : List α → List α
  perm : ∀ l, (sort l).Perm l
  sorted : ∀ l, (sort l).Pairwise fun a b => key a ≤ key b

/-- The last match of a list. -/
def lastMatch {α : Type*} (p : α → Bool) (l : List α) : Option α :=
  l.foldl (fun best m => if p m then some m else best) none

namespace LastMatch

variable {α β : Type*} [LinearOrder β] {key : α → β} {p : α → Bool}

theorem eq_getLast? (l : List α) : lastMatch p l = (l.filter p).getLast? := by
  have hfold : ∀ (l : List α) (best : Option α),
      l.foldl (fun best m => if p m then some m else best) best =
        (l.filter p).getLast?.or best := by
    intro l
    induction l with
    | nil => exact fun best => rfl
    | cons m l ih =>
      intro best
      rw [List.foldl_cons, ih, List.filter_cons]
      split_ifs
      · rw [List.getLast?_cons]
        cases (l.filter p).getLast? <;> rfl
      · rfl
  rw [lastMatch, hfold, Option.or_none]

theorem mem {l : List α} {b : α} (h : lastMatch p l = some b) : b ∈ l ∧ p b = true := by
  rw [eq_getLast?] at h
  exact List.mem_filter.mp (List.mem_of_getLast? h)

theorem eq_none_iff {l : List α} : lastMatch p l = none ↔ ∀ a ∈ l, p a = false := by
  rw [eq_getLast?, List.getLast?_eq_none_iff, List.filter_eq_nil_iff]
  exact forall₂_congr fun a _ => Bool.not_eq_true (p a) ▸ Iff.rfl

/-- No match has a greater key than the last one of a sorted list. -/
theorem key_le (key : α → β) {l : List α} (hsorted : l.Pairwise fun a b => key a ≤ key b) {a b : α}
    (h : lastMatch p l = some b) (ha : a ∈ l) (hp : p a = true) : key a ≤ key b := by
  rw [eq_getLast?] at h
  obtain ⟨front, hfront⟩ := List.getLast?_eq_some_iff.mp h
  have hpairs : (front ++ [b]).Pairwise fun a b => key a ≤ key b :=
    hfront ▸ hsorted.filter p
  have hmem : a ∈ front ++ [b] := hfront ▸ List.mem_filter.mpr ⟨ha, hp⟩
  rcases List.mem_append.mp hmem with hmem | hmem
  · exact (List.pairwise_append.mp hpairs).2.2 a hmem b (List.mem_singleton_self b)
  · rw [List.mem_singleton.mp hmem]

/-! ### However the list is sorted -/

theorem sort_eq_none_iff (s : KeySort key) (l : List α) :
    lastMatch p (s.sort l) = none ↔ ∀ a ∈ l, p a = false := by
  rw [eq_none_iff]
  exact forall_congr' fun a => by rw [(s.perm l).mem_iff]

theorem mem_of_sort {s : KeySort key} {l : List α} {b : α}
    (h : lastMatch p (s.sort l) = some b) : b ∈ l ∧ p b = true :=
  ⟨(s.perm l).mem_iff.mp (mem h).1, (mem h).2⟩

theorem key_le_of_sort {s : KeySort key} {l : List α} {a b : α}
    (h : lastMatch p (s.sort l) = some b) (ha : a ∈ l) (hp : p a = true) : key a ≤ key b :=
  key_le key (s.sorted l) h ((s.perm l).mem_iff.mpr ha) hp

/-- The stable sort. -/
def stable (key : α → β) : KeySort key where
  sort l := l.mergeSort fun a b => key a ≤ key b
  perm l := List.mergeSort_perm l _
  sorted l := by
    have hsorted := @List.pairwise_mergeSort _ (fun a b => decide (key a ≤ key b))
      (fun a b c hab hbc => decide_eq_true
        ((of_decide_eq_true hab).trans (of_decide_eq_true hbc)))
      (fun a b => by simpa using le_total (key a) (key b)) l
    exact hsorted.imp of_decide_eq_true

/-- A sort by a finer key. -/
def ofFiner {γ : Type*} [LinearOrder γ] {fine : α → γ} (s : KeySort fine)
    (h : ∀ a b, fine a ≤ fine b → key a ≤ key b) : KeySort key where
  sort := s.sort
  perm := s.perm
  sorted l := (s.sorted l).imp fun {a b} => h a b

/-- The key of a sort that leaves `c` behind all others of its key. -/
def keyBehind [DecidableEq α] (key : α → β) (c a : α) : β ×ₗ Bool := toLex (key a, a = c)

theorem key_le_of_keyBehind_le [DecidableEq α] {c : α} (a b : α)
    (h : keyBehind key c a ≤ keyBehind key c b) : key a ≤ key b := by
  rcases Prod.Lex.toLex_le_toLex.mp h with h | h
  · exact h.le
  · exact h.1.le

/-- **A match is the last one however the list is sorted** exactly when all others have smaller
keys. -/
theorem forall_sort_eq_some_iff [DecidableEq α] {l : List α} {a : α} (ha : a ∈ l)
    (hp : p a = true) : (∀ s : KeySort key, lastMatch p (s.sort l) = some a) ↔
      ∀ b ∈ l, p b = true → b ≠ a → key b < key a := by
  constructor
  · intro h b hb hpb hne
    have hlast : lastMatch p ((stable (keyBehind key b)).sort l) = some a :=
      h (ofFiner (stable (keyBehind key b)) key_le_of_keyBehind_le)
    rcases Prod.Lex.toLex_le_toLex.mp (key_le_of_sort hlast hb hpb) with hlt | ⟨-, hbool⟩
    · exact hlt
    · rw [decide_eq_true rfl, decide_eq_false hne.symm] at hbool
      exact absurd (hbool rfl) Bool.false_ne_true
  · intro h s
    cases hlast : lastMatch p (s.sort l) with
    | none =>
      rw [(sort_eq_none_iff s l).mp hlast a ha] at hp
      exact nomatch hp
    | some b =>
      obtain ⟨hb, hpb⟩ := mem_of_sort hlast
      by_contra hne
      have hlt := h b hb hpb fun heq => hne (congrArg some heq)
      exact absurd (key_le_of_sort hlast ha hp) (not_le.mpr hlt)

end LastMatch
