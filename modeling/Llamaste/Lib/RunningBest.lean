import Mathlib

/-!
# The running best of a scan

A scan keeps the best element so far and replaces it by an element that ranks strictly
higher. What it ends with ranks highest, so its rank does not depend on the order of the
elements, nor on which of them the scan starts with.

## Main results

* `RunningBest.scan_mem`, `RunningBest.rank_le_scan`: the scan ends with a highest element.
* `RunningBest.rank_scan_eq`: scans of the same ranks end with the same rank.
-/

namespace RunningBest

variable {α β : Type*} [LinearOrder β]

/-- The best element of a scan that starts with `a`. -/
def scan (rank : α → β) (a : α) (l : List α) : α :=
  l.foldl (fun best p => if rank best < rank p then p else best) a

variable {rank : α → β}

theorem scan_cons (a p : α) (l : List α) :
    scan rank a (p :: l) = scan rank (if rank a < rank p then p else a) l := rfl

theorem scan_mem (a : α) (l : List α) : scan rank a l ∈ a :: l := by
  induction l generalizing a with
  | nil => exact List.mem_singleton_self a
  | cons p l ih =>
      rw [scan_cons]
      split_ifs
      · exact List.mem_cons_of_mem a (ih p)
      · rcases List.mem_cons.mp (ih a) with h | h
        · rw [h]
          exact List.mem_cons_self
        · exact List.mem_cons_of_mem a (List.mem_cons_of_mem p h)

/-- What the scan starts with ranks no higher than what it ends with. -/
theorem rank_le_scan_start (rank : α → β) (a : α) (l : List α) : rank a ≤ rank (scan rank a l) := by
  induction l generalizing a with
  | nil => exact le_rfl
  | cons p l ih =>
      rw [scan_cons]
      split_ifs with h
      · exact h.le.trans (ih p)
      · exact ih a

/-- No element ranks higher than what the scan ends with. -/
theorem rank_le_scan (a : α) (l : List α) : ∀ p ∈ a :: l, rank p ≤ rank (scan rank a l) := by
  induction l generalizing a with
  | nil =>
      intro p hp
      rw [List.mem_singleton.mp hp]
      exact le_rfl
  | cons q l ih =>
      intro p hp
      rw [scan_cons]
      have hstart := rank_le_scan_start rank (if rank a < rank q then q else a) l
      rcases List.mem_cons.mp hp with rfl | hp
      · refine le_trans ?_ hstart
        split_ifs with h
        · exact h.le
        · exact le_rfl
      · rcases List.mem_cons.mp hp with rfl | hp
        · refine le_trans ?_ hstart
          split_ifs with h
          · exact le_rfl
          · exact not_lt.mp h
        · exact ih _ p (List.mem_cons_of_mem _ hp)

/-- **Scans of the same ranks end with the same rank**, in whatever order they are. -/
theorem rank_scan_eq {a b : α} {l r : List α}
    (h : ((a :: l).map rank).Perm ((b :: r).map rank)) :
    rank (scan rank a l) = rank (scan rank b r) := by
  have hle : ∀ {a b : α} {l r : List α}, ((a :: l).map rank).Perm ((b :: r).map rank) →
      rank (scan rank a l) ≤ rank (scan rank b r) := by
    intro a b l r h
    have hmem : rank (scan rank a l) ∈ (b :: r).map rank :=
      h.subset (List.mem_map_of_mem (scan_mem a l))
    obtain ⟨p, hp, hrank⟩ := List.mem_map.mp hmem
    rw [← hrank]
    exact rank_le_scan b r p hp
  exact le_antisymm (hle h) (hle h.symm)

end RunningBest
