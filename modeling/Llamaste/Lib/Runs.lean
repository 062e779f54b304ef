import Mathlib

/-!
# Runs of integers

A list of integers is cut into runs of successive ones, each given by its ends. The runs together
hold the integers of the list, whatever their order. Those of an ordered list are as long as they
can be, with gaps between them.

## Main results

* `Runs.expand_runs`: the runs of a list hold its integers.
* `Runs.maximal_runs`: the runs of an ordered list are the maximal ones of its integers.
-/

namespace Runs

/-- The runs of a list behind a run that may still grow. -/
def runsFrom (start last : ℤ) : List ℤ → List (ℤ × ℤ)
  | [] => [(start, last)]
  | i :: is => if i = last + 1 then runsFrom start i is else (start, last) :: runsFrom i i is

/-- The runs of a list. -/
def runs : List ℤ → List (ℤ × ℤ)
  | [] => []
  | i :: is => runsFrom i i is

/-- The integers of a run. -/
def between (lo hi : ℤ) : Finset ℤ := (Int.range lo (hi + 1)).toFinset

@[simp] theorem mem_between {lo hi i : ℤ} : i ∈ between lo hi ↔ lo ≤ i ∧ i ≤ hi := by
  rw [between, List.mem_toFinset, Int.mem_range_iff, Int.lt_add_one_iff]

@[simp] theorem between_self (i : ℤ) : between i i = {i} := by
  ext j
  rw [mem_between, Finset.mem_singleton]
  omega

theorem between_succ {lo hi : ℤ} (h : lo ≤ hi) :
    between lo (hi + 1) = insert (hi + 1) (between lo hi) := by
  ext i
  rw [Finset.mem_insert, mem_between, mem_between]
  omega

/-- The integers of the runs. -/
def expand (rs : List (ℤ × ℤ)) : Finset ℤ := rs.foldr (fun r s => between r.1 r.2 ∪ s) ∅

@[simp] theorem expand_nil : expand [] = ∅ := rfl

@[simp] theorem expand_cons (r : ℤ × ℤ) (rs : List (ℤ × ℤ)) :
    expand (r :: rs) = between r.1 r.2 ∪ expand rs := rfl

theorem expand_runsFrom {start last : ℤ} (h : start ≤ last) (is : List ℤ) :
    expand (runsFrom start last is) = between start last ∪ is.toFinset := by
  induction is generalizing start last with
  | nil => rfl
  | cons i is ih =>
      rw [runsFrom, List.toFinset_cons]
      split_ifs with hi
      · subst hi
        rw [ih (by omega), between_succ h, Finset.insert_union, Finset.union_insert]
      · rw [expand_cons, ih le_rfl, between_self, Finset.insert_eq]

/-- **The runs of a list hold its integers.** -/
theorem expand_runs (is : List ℤ) : expand (runs is) = is.toFinset := by
  cases is with
  | nil => rfl
  | cons i is => rw [runs, expand_runsFrom le_rfl, between_self, List.toFinset_cons,
      Finset.insert_eq]

/-- The ends of a run are in order, and in the list. -/
theorem mem_runsFrom {start last : ℤ} (h : start ≤ last) {is : List ℤ} {r : ℤ × ℤ}
    (hr : r ∈ runsFrom start last is) :
    r.1 ≤ r.2 ∧ r.1 ∈ start :: last :: is ∧ r.2 ∈ start :: last :: is := by
  induction is generalizing start last with
  | nil =>
      obtain rfl := List.mem_singleton.mp hr
      exact ⟨h, by simp, by simp⟩
  | cons i is ih =>
      rw [runsFrom] at hr
      split_ifs at hr with hi
      · obtain ⟨hle, hfirst, hlast⟩ := ih (by omega) hr
        simp only [List.mem_cons] at hfirst hlast ⊢
        exact ⟨hle, by tauto, by tauto⟩
      · rcases List.mem_cons.mp hr with rfl | hr
        · exact ⟨h, by simp, by simp⟩
        · obtain ⟨hle, hfirst, hlast⟩ := ih le_rfl hr
          simp only [List.mem_cons] at hfirst hlast ⊢
          exact ⟨hle, by tauto, by tauto⟩

theorem mem_runs {is : List ℤ} {r : ℤ × ℤ} (hr : r ∈ runs is) :
    r.1 ≤ r.2 ∧ r.1 ∈ is ∧ r.2 ∈ is := by
  cases is with
  | nil => exact nomatch hr
  | cons i is =>
      obtain ⟨hle, hfirst, hlast⟩ := mem_runsFrom le_rfl hr
      simp only [List.mem_cons, or_self_left] at hfirst hlast
      exact ⟨hle, List.mem_cons.mpr hfirst, List.mem_cons.mpr hlast⟩

/-! ### Maximal runs -/

/-- There is a gap between the runs. -/
def Apart (r r' : ℤ × ℤ) : Prop := r.2 + 1 < r'.1

/-- The maximal runs of a set, in order. -/
structure Maximal (s : Finset ℤ) (rs : List (ℤ × ℤ)) : Prop where
  apart : rs.Pairwise Apart
  within : ∀ r ∈ rs, r.1 ≤ r.2 ∧ between r.1 r.2 ⊆ s
  below : ∀ r ∈ rs, r.1 - 1 ∉ s
  above : ∀ r ∈ rs, r.2 + 1 ∉ s
  cover : ∀ i ∈ s, ∃ r ∈ rs, i ∈ between r.1 r.2

theorem mem_expand {rs : List (ℤ × ℤ)} {i : ℤ} :
    i ∈ expand rs ↔ ∃ r ∈ rs, i ∈ between r.1 r.2 := by
  induction rs with
  | nil => simp
  | cons r rs ih => simp only [expand_cons, Finset.mem_union, ih, List.exists_mem_cons_iff]

/-- The run that may still grow begins where it began, the others behind its end. -/
theorem pairwise_runsFrom {start last : ℤ} {is : List ℤ} (hle : start ≤ last)
    (h : (last :: is).Pairwise (· < ·)) :
    (∀ r ∈ runsFrom start last is, start ≤ r.1) ∧ (runsFrom start last is).Pairwise Apart := by
  induction is generalizing start last with
  | nil => exact ⟨fun r hr => (List.mem_singleton.mp hr ▸ le_rfl), List.pairwise_singleton _ _⟩
  | cons i is ih =>
      obtain ⟨hlast, hrest⟩ := List.pairwise_cons.mp h
      have hi : last < i := hlast i List.mem_cons_self
      rw [runsFrom]
      split_ifs with hnext
      · exact ih (by omega) hrest
      · obtain ⟨hbegin, hapart⟩ := ih le_rfl hrest
        refine ⟨List.forall_mem_cons.mpr ⟨le_rfl, fun r hr => ?_⟩,
          List.pairwise_cons.mpr ⟨fun r hr => ?_, hapart⟩⟩
        · have := hbegin r hr
          omega
        · have := hbegin r hr
          rw [Apart]
          omega

theorem pairwise_runs {is : List ℤ} (h : is.Pairwise (· < ·)) : (runs is).Pairwise Apart := by
  cases is with
  | nil => exact List.Pairwise.nil
  | cons i is => exact (pairwise_runsFrom le_rfl h).2

/-- Of two runs with gaps one is before the other. -/
theorem eq_or_apart {rs : List (ℤ × ℤ)} (h : rs.Pairwise Apart) {r r' : ℤ × ℤ} (hr : r ∈ rs)
    (hr' : r' ∈ rs) : r = r' ∨ Apart r r' ∨ Apart r' r := by
  have hor : rs.Pairwise fun a b => Apart a b ∨ Apart b a := h.imp fun hab => Or.inl hab
  have : Std.Symm fun a b : ℤ × ℤ => Apart a b ∨ Apart b a := ⟨fun _ _ hab => hab.symm⟩
  rcases eq_or_ne r r' with heq | hne
  · exact Or.inl heq
  · exact Or.inr (hor.forall hr hr' hne)

/-- An integer of the runs that is in a run, or next to it, is in it. -/
theorem mem_of_near {rs : List (ℤ × ℤ)} (h : rs.Pairwise Apart) (hle : ∀ r ∈ rs, r.1 ≤ r.2)
    {r : ℤ × ℤ} (hr : r ∈ rs) {i : ℤ} (hi : i ∈ expand rs) (hlow : r.1 - 1 ≤ i)
    (hhigh : i ≤ r.2 + 1) : i ∈ between r.1 r.2 := by
  obtain ⟨r', hr', hbetween⟩ := mem_expand.mp hi
  have hrle := hle r hr
  rcases eq_or_apart h hr hr' with rfl | hapart | hapart
  · exact hbetween
  · rw [Apart] at hapart
    rw [mem_between] at hbetween
    omega
  · rw [Apart] at hapart
    rw [mem_between] at hbetween
    omega

/-- **The runs of an ordered list are the maximal ones of its integers.** -/
theorem maximal_runs {is : List ℤ} (h : is.Pairwise (· < ·)) : Maximal is.toFinset (runs is) := by
  have hapart := pairwise_runs h
  have hle : ∀ r ∈ runs is, r.1 ≤ r.2 := fun r hr => (mem_runs hr).1
  rw [← expand_runs is]
  exact {
    apart := hapart
    within := fun r hr => ⟨hle r hr, fun i hi => mem_expand.mpr ⟨r, hr, hi⟩⟩
    below := fun r hr hi => by
      have hrle := hle r hr
      have hmem := mem_of_near hapart hle hr hi le_rfl (by omega)
      rw [mem_between] at hmem
      omega
    above := fun r hr hi => by
      have hrle := hle r hr
      have hmem := mem_of_near hapart hle hr hi (by omega) le_rfl
      rw [mem_between] at hmem
      omega
    cover := fun i hi => mem_expand.mp hi }

end Runs
