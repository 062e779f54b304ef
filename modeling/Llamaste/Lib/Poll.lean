import Mathlib

/-!
# Polling a list of candidates

A loop that goes through a list of candidates in several rounds and stops at the first
one that answers. The list, and what a candidate answers, can change from round to round.

## Main results

* `Poll.search_eq_some_iff`: the search finds the first hit.
-/

namespace Poll

variable {α : Type*} (hit : ℕ → α → Bool) (candidates : ℕ → List α)

/-- The first candidate that answers in the given number of rounds, from round `t` on. -/
def search : (rounds t : ℕ) → Option α
  | 0, _ => none
  | rounds + 1, t => ((candidates t).find? (hit t)).or (search rounds (t + 1))

/-- `a` is a hit in one of the rounds from `t` to `t + rounds - 1`, and nothing before it
in that round or in the earlier ones is. -/
def FirstHit (rounds t : ℕ) (a : α) : Prop :=
  ∃ u, t ≤ u ∧ u < t + rounds ∧ hit u a = true ∧
    (∃ before after, candidates u = before ++ a :: after ∧ ∀ b ∈ before, hit u b = false) ∧
    ∀ v, t ≤ v → v < u → ∀ b ∈ candidates v, hit v b = false

variable {hit candidates}

/-- The search finds the first hit. -/
theorem search_eq_some_iff {rounds t : ℕ} {a : α} :
    search hit candidates rounds t = some a ↔ FirstHit hit candidates rounds t a := by
  induction rounds generalizing t with
  | zero =>
      constructor
      · rintro ⟨⟩
      · rintro ⟨u, hle, hlt, -⟩
        omega
  | succ rounds ih =>
      rw [search]
      cases hfind : (candidates t).find? (hit t) with
      | some b =>
          obtain ⟨hb, before, after, hsplit, hbefore⟩ := List.find?_eq_some_iff_append.mp hfind
          rw [Option.some_or]
          constructor
          · rintro ⟨⟩
            exact ⟨t, Nat.le_refl t, by omega, hb, ⟨before, after, hsplit, by simpa using hbefore⟩,
              fun v hle hlt => absurd hlt (by omega)⟩
          · rintro ⟨u, hle, -, ha, ⟨before', after', hsplit', hbefore'⟩, hearlier⟩
            have hu : u = t := by
              by_contra hne
              have hmiss := hearlier t (Nat.le_refl t) (by omega) b (by rw [hsplit]; simp)
              rw [hb] at hmiss
              exact nomatch hmiss
            subst hu
            rw [← hfind]
            exact List.find?_eq_some_iff_append.mpr
              ⟨ha, before', after', hsplit', by simpa using hbefore'⟩
      | none =>
          have hmiss : ∀ b ∈ candidates t, hit t b = false := by simpa using hfind
          rw [Option.none_or, ih]
          constructor
          · rintro ⟨u, hle, hlt, ha, hsplit, hearlier⟩
            refine ⟨u, by omega, by omega, ha, hsplit, fun v hv hvu b hb => ?_⟩
            rcases Nat.eq_or_lt_of_le hv with rfl | hv
            · exact hmiss b hb
            · exact hearlier v hv hvu b hb
          · rintro ⟨u, hle, hlt, ha, hsplit, hearlier⟩
            have hne : t ≠ u := by
              rintro rfl
              obtain ⟨before, after, hsplit, -⟩ := hsplit
              have := hmiss a (by rw [hsplit]; simp)
              rw [ha] at this
              exact nomatch this
            exact ⟨u, by omega, by omega, ha, hsplit,
              fun v hv hvu b hb => hearlier v (by omega) hvu b hb⟩

/-- There is at most one first hit. -/
theorem FirstHit.unique {rounds t : ℕ} {a b : α} (ha : FirstHit hit candidates rounds t a)
    (hb : FirstHit hit candidates rounds t b) : a = b :=
  Option.some.inj ((search_eq_some_iff.mpr ha).symm.trans (search_eq_some_iff.mpr hb))

end Poll
