import Mathlib

/-!
# Event-driven machines

A deterministic machine reads one event at a time, emits one output, and moves to its
next state. Nondeterminism of the outside world (a write that fails, a process that
dies, the thread that is scheduled next) is carried by the event, so a run is a list
of events.

## Main results

* `Machine.final_invariant`: what every step preserves holds at the end of every run.
* `Machine.Along.final_invariant`: the same for events that the state they happen in allows.
* `Machine.final_append`, `Machine.outputs_append`: a run splits at any point.
* `Machine.outputs_eq_map_of_simulation`: a simulation carries the outputs of the
  abstract machine to those of the concrete one, event for event.
-/

namespace Machine

variable {σ τ ε ο ο' : Type*}

/-- The state after a run. -/
def final (step : σ → ε → ο × σ) : σ → List ε → σ
  | s, [] => s
  | s, e :: es => final step (step s e).2 es

/-- The outputs of a run, in order. -/
def outputs (step : σ → ε → ο × σ) : σ → List ε → List ο
  | _, [] => []
  | s, e :: es => (step s e).1 :: outputs step (step s e).2 es

variable {step : σ → ε → ο × σ} {step' : τ → ε → ο' × τ}

@[simp] theorem final_nil (s : σ) : final step s [] = s := rfl

@[simp] theorem final_cons (s : σ) (e : ε) (es : List ε) :
    final step s (e :: es) = final step (step s e).2 es := rfl

@[simp] theorem outputs_nil (s : σ) : outputs step s [] = [] := rfl

@[simp] theorem outputs_cons (s : σ) (e : ε) (es : List ε) :
    outputs step s (e :: es) = (step s e).1 :: outputs step (step s e).2 es := rfl

/-- A machine answers every event exactly once. -/
@[simp] theorem length_outputs (s : σ) (es : List ε) :
    (outputs step s es).length = es.length := by
  induction es generalizing s with
  | nil => rfl
  | cons e es ih => simp [ih]

/-- A run splits at any point. -/
theorem final_append (s : σ) (es fs : List ε) :
    final step s (es ++ fs) = final step (final step s es) fs := by
  induction es generalizing s with
  | nil => rfl
  | cons e es ih => exact ih _

/-- The outputs of a split run are those of its parts. -/
theorem outputs_append (s : σ) (es fs : List ε) :
    outputs step s (es ++ fs) = outputs step s es ++ outputs step (final step s es) fs := by
  induction es generalizing s with
  | nil => rfl
  | cons e es ih => simp [ih]

/-- An output of a run is that of one of its events, in the state before. -/
theorem mem_outputs_iff {s : σ} {es : List ε} {o : ο} : o ∈ outputs step s es ↔
    ∃ before e after, es = before ++ e :: after ∧ (step (final step s before) e).1 = o := by
  constructor
  · intro h
    induction es generalizing s with
    | nil => exact nomatch h
    | cons e es ih =>
        rcases List.mem_cons.mp h with rfl | h
        · exact ⟨[], e, es, rfl, rfl⟩
        · obtain ⟨before, e', after, rfl, ho⟩ := ih h
          exact ⟨e :: before, e', after, rfl, ho⟩
  · rintro ⟨before, e, after, rfl, rfl⟩
    rw [outputs_append]
    exact List.mem_append_right _ List.mem_cons_self

/-- **Invariant rule.** A property that every admissible step preserves holds at the end
of every run of admissible events. -/
theorem final_invariant {I : σ → Prop} {A : ε → Prop}
    (hstep : ∀ s e, I s → A e → I (step s e).2) {s : σ} {es : List ε}
    (hs : I s) (hes : ∀ e ∈ es, A e) : I (final step s es) := by
  induction es generalizing s with
  | nil => exact hs
  | cons e es ih =>
      have he : A e := hes e List.mem_cons_self
      exact ih (hstep s e hs he) fun e' he' => hes e' (List.mem_cons_of_mem e he')

/-- Every event of a run is one that the state it happens in allows. -/
def Along (step : σ → ε → ο × σ) (P : σ → ε → Prop) : σ → List ε → Prop
  | _, [] => True
  | s, e :: es => P s e ∧ Along step P (step s e).2 es

instance Along.decidable {step : σ → ε → ο × σ} {P : σ → ε → Prop}
    [∀ s e, Decidable (P s e)] : ∀ s es, Decidable (Along step P s es)
  | _, [] => isTrue trivial
  | s, e :: es =>
    have : Decidable (Along step P (step s e).2 es) := Along.decidable (step s e).2 es
    inferInstanceAs (Decidable (P s e ∧ Along step P (step s e).2 es))

/-- What every allowed step preserves holds at the end of every run of them. -/
theorem Along.final_invariant {I : σ → Prop} {P : σ → ε → Prop}
    (hstep : ∀ s e, P s e → I s → I (step s e).2) {s : σ} {es : List ε}
    (halong : Along step P s es) (hs : I s) : I (final step s es) := by
  induction es generalizing s with
  | nil => exact hs
  | cons e es ih => exact ih halong.2 (hstep s e halong.1 hs)

/-- A run splits at any point. -/
theorem along_append {P : σ → ε → Prop} {s : σ} {es fs : List ε} :
    Along step P s (es ++ fs) ↔ Along step P s es ∧ Along step P (final step s es) fs := by
  induction es generalizing s with
  | nil => exact ⟨fun h => ⟨trivial, h⟩, And.right⟩
  | cons e es ih =>
    rw [List.cons_append, Along, Along, ih, and_assoc]
    rfl

/-- Conditions that come to the same in the states of an invariant come to the same along runs. -/
theorem Along.congr {I : σ → Prop} {P Q : σ → ε → Prop} (hstep : ∀ s e, I s → I (step s e).2)
    (hiff : ∀ s e, I s → (P s e ↔ Q s e)) {s : σ} (hs : I s) (es : List ε) :
    Along step P s es ↔ Along step Q s es := by
  induction es generalizing s with
  | nil => exact Iff.rfl
  | cons e es ih => exact and_congr (hiff s e hs) (ih (hstep s e hs))

/-- **Simulation rule.** When related states emit outputs that correspond under `f` and
step to related states, whole runs correspond. -/
theorem outputs_eq_map_of_simulation {rel : σ → τ → Prop} {f : ο' → ο}
    (hstep : ∀ s t e, rel s t →
      (step s e).1 = f (step' t e).1 ∧ rel (step s e).2 (step' t e).2)
    {s : σ} {t : τ} (h : rel s t) (es : List ε) :
    outputs step s es = (outputs step' t es).map f := by
  induction es generalizing s t with
  | nil => rfl
  | cons e es ih =>
      obtain ⟨hout, hrel⟩ := hstep s t e h
      rw [outputs_cons, outputs_cons, List.map_cons, hout, ih hrel]

end Machine
