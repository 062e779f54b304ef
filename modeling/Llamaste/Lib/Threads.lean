import Mathlib

/-!
# Threads over shared state

Threads take atomic steps on a shared state and a local state of their own. A schedule is
the list of the threads in the order in which they step, so a statement about every
schedule is one about every interleaving.

## Main results

* `Threads.run_invariant`: what every step preserves holds after every schedule.
* `Threads.Along.run_invariant`: the same for the schedules whose steps all meet a condition.
* `Threads.run_stays`: what a thread's own steps preserve of its local state is kept.
* `Threads.run_progress`: a thread that was scheduled often enough is done.
* `Threads.run_filter`: threads that leave the shared state alone can be left out.
* `Threads.OneOwner.step`: how at most one thread at a time comes to own the shared state.
-/

namespace Threads

variable {σ α ι : Type*} [DecidableEq ι]

/-- One step of a thread. -/
def step (act : ι → σ × α → σ × α) (s : σ × (ι → α)) (i : ι) : σ × (ι → α) :=
  let (g, l) := act i (s.1, s.2 i)
  (g, Function.update s.2 i l)

/-- The state after a schedule. -/
def run (act : ι → σ × α → σ × α) (s : σ × (ι → α)) (schedule : List ι) : σ × (ι → α) :=
  schedule.foldl (step act) s

variable {f : ι → σ × α → σ × α}

@[simp] theorem run_nil (s : σ × (ι → α)) : run f s [] = s := rfl

@[simp] theorem run_cons (s : σ × (ι → α)) (i : ι) (schedule : List ι) :
    run f s (i :: schedule) = run f (step f s i) schedule := rfl

theorem run_append (s : σ × (ι → α)) (first rest : List ι) :
    run f s (first ++ rest) = run f (run f s first) rest := List.foldl_append ..

theorem step_shared (s : σ × (ι → α)) (i : ι) :
    (step f s i).1 = (f i (s.1, s.2 i)).1 := rfl

theorem step_self (s : σ × (ι → α)) (i : ι) :
    (step f s i).2 i = (f i (s.1, s.2 i)).2 := Function.update_self ..

theorem step_of_ne (s : σ × (ι → α)) {i j : ι} (h : j ≠ i) :
    (step f s i).2 j = s.2 j := Function.update_of_ne h ..

/-- A thread that is not scheduled stays where it is. -/
theorem run_of_not_mem (s : σ × (ι → α)) {i : ι} {schedule : List ι} (h : i ∉ schedule) :
    (run f s schedule).2 i = s.2 i := by
  induction schedule generalizing s with
  | nil => rfl
  | cons j schedule ih =>
      obtain ⟨hij, hrest⟩ := not_or.mp fun hor => h (List.mem_cons.mpr hor)
      rw [run_cons, ih _ hrest, step_of_ne s hij]

/-- **Invariant rule.** What every step preserves holds after every schedule. -/
theorem run_invariant {I : σ × (ι → α) → Prop} (hstep : ∀ s i, I s → I (step f s i))
    {s : σ × (ι → α)} (hs : I s) (schedule : List ι) : I (run f s schedule) := by
  induction schedule generalizing s with
  | nil => exact hs
  | cons i schedule ih => exact ih (hstep s i hs)

/-- Every step of a schedule meets a condition on the thread and the state that it steps in. -/
def Along (f : ι → σ × α → σ × α) (P : σ × (ι → α) → ι → Prop) :
    σ × (ι → α) → List ι → Prop
  | _, [] => True
  | s, i :: schedule => P s i ∧ Along f P (step f s i) schedule

instance Along.decidable {P : σ × (ι → α) → ι → Prop} [∀ s i, Decidable (P s i)] :
    ∀ s schedule, Decidable (Along f P s schedule)
  | _, [] => isTrue trivial
  | s, i :: schedule =>
    have : Decidable (Along f P (step f s i) schedule) := Along.decidable (step f s i) schedule
    inferInstanceAs (Decidable (P s i ∧ Along f P (step f s i) schedule))

/-- What a step preserves that meets the condition holds after every schedule of them. -/
theorem Along.run_invariant {P : σ × (ι → α) → ι → Prop} {I : σ × (ι → α) → Prop}
    (hstep : ∀ s i, P s i → I s → I (step f s i)) {s : σ × (ι → α)} (hs : I s)
    {schedule : List ι} (halong : Along f P s schedule) : I (run f s schedule) := by
  induction schedule generalizing s with
  | nil => exact hs
  | cons i schedule ih => exact ih (hstep s i halong.1 hs) halong.2

/-- What a thread's own steps preserve of its local state, whatever is shared, no schedule
takes from it. -/
theorem run_stays {P : α → Prop} {i : ι} (hact : ∀ g l, P l → P (f i (g, l)).2)
    {s : σ × (ι → α)} (hs : P (s.2 i)) (schedule : List ι) :
    P ((run f s schedule).2 i) := by
  refine run_invariant (I := fun s => P (s.2 i)) (fun s j hs => ?_) hs schedule
  by_cases hij : i = j
  · subst hij
    rw [step_self]
    exact hact _ _ hs
  · rwa [step_of_ne s hij]

/-- When every own step raises the rank of a local state until it is `n`, a thread
gets there by as many steps. -/
theorem run_progress {m : α → ℕ} {n : ℕ}
    (hact : ∀ i g l, min n (m l + 1) ≤ m (f i (g, l)).2)
    (s : σ × (ι → α)) (i : ι) (schedule : List ι) :
    min n (m (s.2 i) + schedule.count i) ≤ m ((run f s schedule).2 i) := by
  induction schedule generalizing s with
  | nil => exact Nat.min_le_right _ _
  | cons j schedule ih =>
      have hrest := ih (step f s j)
      by_cases hij : i = j
      · subst hij
        have hown := hact i s.1 (s.2 i)
        rw [step_self] at hrest
        rw [run_cons, List.count_cons_self]
        omega
      · rw [step_of_ne s hij] at hrest
        rw [run_cons, List.count_cons_of_ne (Ne.symm hij)]
        exact hrest

/-- **Projection rule.** When the threads outside `p` stay in local states from which they
leave the shared state alone, the others run as if those were not scheduled. -/
theorem run_filter {p : ι → Bool} {Q : α → Prop}
    (hact : ∀ i g l, p i = false → Q l → (f i (g, l)).1 = g ∧ Q (f i (g, l)).2)
    {s : σ × (ι → α)} (hs : ∀ i, p i = false → Q (s.2 i)) (schedule : List ι) :
    (run f s schedule).1 = (run f s (schedule.filter p)).1 ∧
      ∀ i, p i = true → (run f s schedule).2 i = (run f s (schedule.filter p)).2 i := by
  suffices h : ∀ s t : σ × (ι → α), (∀ i, p i = false → Q (s.2 i)) → s.1 = t.1 →
      (∀ i, p i = true → s.2 i = t.2 i) →
      (run f s schedule).1 = (run f t (schedule.filter p)).1 ∧
        ∀ i, p i = true → (run f s schedule).2 i = (run f t (schedule.filter p)).2 i from
    h s s hs rfl fun _ _ => rfl
  induction schedule with
  | nil => exact fun s t _ hshared hlocal => ⟨hshared, hlocal⟩
  | cons j schedule ih =>
      intro s t hs hshared hlocal
      cases hj : p j with
      | true =>
          rw [List.filter_cons_of_pos hj, run_cons, run_cons]
          have hact' : f j (s.1, s.2 j) = f j (t.1, t.2 j) := by
            rw [hshared, hlocal j hj]
          have hfst : (step f s j).1 = (step f t j).1 := by
            rw [step_shared, step_shared, hact']
          refine ih _ _ (fun i hi => ?_) hfst fun i hi => ?_
          · rw [step_of_ne s (by rintro rfl; simp [hi] at hj)]
            exact hs i hi
          · by_cases hij : i = j
            · subst hij
              rw [step_self, step_self, hact']
            · rw [step_of_ne s hij, step_of_ne t hij]
              exact hlocal i hi
      | false =>
          rw [List.filter_cons_of_neg (by simp [hj]), run_cons]
          obtain ⟨hfst, hsnd⟩ := hact j s.1 (s.2 j) hj (hs j hj)
          refine ih _ _ (fun i hi => ?_) (hfst.trans hshared) fun i hi => ?_
          · by_cases hij : i = j
            · subst hij
              rwa [step_self]
            · rw [step_of_ne s hij]
              exact hs i hi
          · rw [step_of_ne s (by rintro rfl; simp [hi] at hj)]
            exact hlocal i hi

/-! ### At most one owner -/

/-- Either no thread owns the shared state and it is free, or one thread does, with a local state
that fits it. -/
def OneOwner (Free : σ → Prop) (Outside : α → Prop) (Owns : ι → σ → α → Prop)
    (s : σ × (ι → α)) : Prop :=
  (Free s.1 ∧ ∀ i, Outside (s.2 i)) ∨ ∃ k, (∀ i, i ≠ k → Outside (s.2 i)) ∧ Owns k s.1 (s.2 k)

variable {Free : σ → Prop} {Outside : α → Prop} {Owns : ι → σ → α → Prop}

/-- **Ownership rule.** A thread outside may take a free state, an owner may give it back, and
while there is an owner, the other threads stay outside and leave it what it owns. -/
theorem OneOwner.step {s : σ × (ι → α)} {i : ι} (h : OneOwner Free Outside Owns s)
    (htake : Free s.1 → Outside (s.2 i) →
      (Free (f i (s.1, s.2 i)).1 ∧ Outside (f i (s.1, s.2 i)).2) ∨
        Owns i (f i (s.1, s.2 i)).1 (f i (s.1, s.2 i)).2)
    (hown : Owns i s.1 (s.2 i) →
      (Free (f i (s.1, s.2 i)).1 ∧ Outside (f i (s.1, s.2 i)).2) ∨
        Owns i (f i (s.1, s.2 i)).1 (f i (s.1, s.2 i)).2)
    (hwait : ∀ k, k ≠ i → Owns k s.1 (s.2 k) → Outside (s.2 i) →
      Outside (f i (s.1, s.2 i)).2 ∧ Owns k (f i (s.1, s.2 i)).1 (s.2 k)) :
    OneOwner Free Outside Owns (Threads.step f s i) := by
  have hafter : (Free (f i (s.1, s.2 i)).1 ∧ Outside (f i (s.1, s.2 i)).2) ∨
      Owns i (f i (s.1, s.2 i)).1 (f i (s.1, s.2 i)).2 → (∀ j, j ≠ i → Outside (s.2 j)) →
      OneOwner Free Outside Owns (Threads.step f s i) := by
    rintro (⟨hfree, hout⟩ | howns) hothers
    · refine .inl ⟨hfree, fun j => ?_⟩
      by_cases hji : j = i
      · rwa [hji, step_self]
      · rw [step_of_ne s hji]
        exact hothers j hji
    · refine .inr ⟨i, fun j hji => ?_, ?_⟩
      · rw [step_of_ne s hji]
        exact hothers j hji
      · rwa [step_self, step_shared]
  rcases h with ⟨hfree, hout⟩ | ⟨k, hout, howns⟩
  · exact hafter (htake hfree (hout i)) fun j _ => hout j
  · by_cases hki : k = i
    · subst hki
      exact hafter (hown howns) hout
    · obtain ⟨hi, hk⟩ := hwait k hki howns (hout i (Ne.symm hki))
      refine .inr ⟨k, fun j hjk => ?_, ?_⟩
      · by_cases hji : j = i
        · rwa [hji, step_self]
        · rw [step_of_ne s hji]
          exact hout j hjk
      · rwa [step_of_ne s hki, step_shared]

omit [DecidableEq ι]

/-- Two threads that are not outside are the same one. -/
theorem OneOwner.eq {s : σ × (ι → α)} (h : OneOwner Free Outside Owns s) {i j : ι}
    (hi : ¬ Outside (s.2 i)) (hj : ¬ Outside (s.2 j)) : i = j := by
  rcases h with ⟨-, hout⟩ | ⟨k, hout, -⟩
  · exact absurd (hout i) hi
  · rw [not_imp_comm.mp (hout i) hi, not_imp_comm.mp (hout j) hj]

/-- A thread that is not outside owns the state. -/
theorem OneOwner.owns {s : σ × (ι → α)} (h : OneOwner Free Outside Owns s) {i : ι}
    (hi : ¬ Outside (s.2 i)) : Owns i s.1 (s.2 i) ∧ ∀ j, j ≠ i → Outside (s.2 j) := by
  rcases h with ⟨-, hout⟩ | ⟨k, hout, howns⟩
  · exact absurd (hout i) hi
  · rw [not_imp_comm.mp (hout i) hi]
    exact ⟨howns, hout⟩

/-- When no thread owns the state, it is free. -/
theorem OneOwner.free {s : σ × (ι → α)} (h : OneOwner Free Outside Owns s)
    (hnone : ∀ i, ¬ Owns i s.1 (s.2 i)) : Free s.1 := by
  rcases h with ⟨hfree, -⟩ | ⟨k, -, howns⟩
  · exact hfree
  · exact absurd howns (hnone k)

end Threads
