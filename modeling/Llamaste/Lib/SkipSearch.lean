import Mathlib

/-!
# Searching forward with jumps

A search probes one candidate after the other. A candidate that does not match says where
to go on, and nothing in between matches. A bound on the number of probes keeps a search
without matches from running forever.

## Main results

* `SkipSearch.Skips.search_later`: a search that starts later, but not past the match that an
  earlier one found, finds the same match.
-/

namespace SkipSearch

/-- Search from a candidate with a number of probes left: the first candidate that `next`
answers with nothing. -/
def search (next : ℤ → Option ℤ) : ℕ → ℤ → Option ℤ
  | 0, _ => none
  | n + 1, c =>
      match next c with
      | none => some c
      | some d => search next n d

variable {next : ℤ → Option ℤ}

theorem search_of_none {c : ℤ} (h : next c = none) (n : ℕ) : search next (n + 1) c = some c := by
  rw [search, h]

theorem search_of_some {c d : ℤ} (h : next c = some d) (n : ℕ) :
    search next (n + 1) c = search next n d := by
  rw [search, h]

/-- More probes find what fewer found. -/
theorem search_succ {n : ℕ} {c r : ℤ} (h : search next n c = some r) :
    search next (n + 1) c = some r := by
  induction n generalizing c with
  | zero => exact absurd h (by simp [search])
  | succ n ih =>
      cases hnext : next c with
      | none => rwa [search_of_none hnext] at h ⊢
      | some d =>
          rw [search_of_some hnext] at h ⊢
          exact ih h

/-- What every jump preserves holds of the match. -/
theorem search_invariant {I : ℤ → Prop} (hnext : ∀ c d, I c → next c = some d → I d)
    {n : ℕ} {c r : ℤ} (hc : I c) (h : search next n c = some r) : I r := by
  induction n generalizing c with
  | zero => exact absurd h (by simp [search])
  | succ n ih =>
      cases hd : next c with
      | none =>
          rw [search_of_none hd] at h
          exact Option.some.inj h ▸ hc
      | some d =>
          rw [search_of_some hd] at h
          exact ih (hnext c d hc hd) h

/-- Jumps go forward, and over candidates that jump to the same place. -/
structure Skips (next : ℤ → Option ℤ) : Prop where
  lt : ∀ {c d}, next c = some d → c < d
  same : ∀ {c c' d}, next c = some d → c ≤ c' → c' < d → next c' = some d

/-- What is found matches. -/
theorem next_of_search {n : ℕ} {c r : ℤ} (h : search next n c = some r) : next r = none := by
  induction n generalizing c with
  | zero => exact absurd h (by simp [search])
  | succ n ih =>
      cases hd : next c with
      | none =>
          rw [search_of_none hd] at h
          exact Option.some.inj h ▸ hd
      | some d =>
          rw [search_of_some hd] at h
          exact ih h

theorem Skips.le_of_search (hskip : Skips next) {n : ℕ} {c r : ℤ}
    (h : search next n c = some r) : c ≤ r :=
  search_invariant (I := fun x => c ≤ x) (fun _ _ hc hd => hc.trans (hskip.lt hd).le) le_rfl h

/-- A search that starts later, but not past the match that an earlier one found, finds
the same match. -/
theorem Skips.search_later (hskip : Skips next) {n : ℕ} {c c' r : ℤ}
    (h : search next n c = some r) (hc : c ≤ c') (hr : c' ≤ r) :
    search next n c' = some r := by
  induction n generalizing c with
  | zero => exact absurd h (by simp [search])
  | succ n ih =>
      cases hnext : next c with
      | none =>
          rw [search_of_none hnext] at h
          obtain rfl := Option.some.inj h
          obtain rfl := le_antisymm hc hr
          exact search_of_none hnext n
      | some d =>
          have hrest : search next n d = some r := by rwa [search_of_some hnext] at h
          by_cases hd : c' < d
          · rw [search_of_some (hskip.same hnext hc hd)]
            exact hrest
          · exact search_succ (ih hrest (not_lt.mp hd))

/-- Jumps do not pass a match. -/
theorem Skips.le_of_next (hskip : Skips next) {c d r : ℤ} (hr : next r = none)
    (hnext : next c = some d) (hc : c ≤ r) : d ≤ r := by
  by_contra hlt
  rw [hskip.same hnext hc (not_le.mp hlt)] at hr
  cases hr

/-- **A search finds the first match** when it has more probes than the rank of its start, for a
rank that goes down with every jump on the way. -/
theorem Skips.search_first (hskip : Skips next) {I : ℤ → Prop} (rank : ℤ → ℕ) {r : ℤ}
    (hI : ∀ c d, I c → next c = some d → I d)
    (hrank : ∀ c d, I c → next c = some d → d ≤ r → rank d < rank c) {c : ℤ} (hc : I c)
    (hle : c ≤ r) (hmin : ∀ x, I x → c ≤ x → next x = none → r ≤ x) (hr : next r = none) {n : ℕ}
    (hn : rank c < n) : search next n c = some r := by
  induction n generalizing c with
  | zero => omega
  | succ n ih =>
      cases hnext : next c with
      | none =>
          obtain rfl := le_antisymm hle (hmin c hc le_rfl hnext)
          exact search_of_none hnext n
      | some d =>
          have hd := hskip.le_of_next hr hnext hle
          have hlt := hrank c d hc hnext hd
          rw [search_of_some hnext]
          exact ih (hI c d hc hnext) hd
            (fun x hx hdx => hmin x hx ((hskip.lt hnext).le.trans hdx)) (by omega)

end SkipSearch
