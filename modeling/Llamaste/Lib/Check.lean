import Mathlib

/-!
# Chains of checks

A function that returns at the first failed check, with a message, is an `Except` chain
of `require` steps. A chain that reaches its end has passed every check, and the lemmas
below read that off step by step. A chain of assignments keeps what it has assigned also where it
stops, so both ends of it carry the state (`Ends`).
-/

namespace Check

variable {ε α β : Type}

/-- Go on if `c` holds, otherwise return with the message. -/
def require (c : Prop) [Decidable c] (msg : ε) : Except ε Unit :=
  if c then .ok () else .error msg

/-- The value of an operation that may fail, or return with the message. -/
def demand (o : Option α) (msg : ε) : Except ε α :=
  match o with
  | some a => .ok a
  | none => .error msg

theorem require_eq_ok {c : Prop} [Decidable c] {msg : ε} {u : Unit} :
    require c msg = .ok u ↔ c := by
  rw [require]
  split <;> simp_all

theorem demand_eq_ok {o : Option α} {msg : ε} {a : α} : demand o msg = .ok a ↔ o = some a := by
  cases o <;> simp [demand]

/-- A chain that succeeds passed its first step and its rest. -/
theorem bind_eq_ok {x : Except ε α} {f : α → Except ε β} {b : β} :
    x >>= f = .ok b ↔ ∃ a, x = .ok a ∧ f a = .ok b := by
  cases x with
  | ok a => simp [bind, Except.bind]
  | error e => simp [bind, Except.bind]

/-- A check at the head of a chain that succeeds has been passed. -/
theorem require_bind_eq_ok {c : Prop} [Decidable c] {msg : ε} {f : Unit → Except ε β} {b : β} :
    require c msg >>= f = .ok b ↔ c ∧ f () = .ok b := by
  rw [bind_eq_ok]
  constructor
  · rintro ⟨⟨⟩, hc, hf⟩
    exact ⟨require_eq_ok.mp hc, hf⟩
  · rintro ⟨hc, hf⟩
    exact ⟨(), require_eq_ok.mpr hc, hf⟩

/-- A chain that starts with a check fails at the check or behind it. -/
theorem require_bind_eq_error {c : Prop} [Decidable c] {msg e : ε} {f : Unit → Except ε β} :
    require c msg >>= f = .error e ↔ (¬ c ∧ msg = e) ∨ (c ∧ f () = .error e) := by
  rw [require]
  split_ifs with hc
  · simp [hc, bind, Except.bind]
  · simp [hc, bind, Except.bind]

/-- A value demanded at the head of a chain that succeeds is there. -/
theorem demand_bind_eq_ok {o : Option α} {msg : ε} {f : α → Except ε β} {b : β} :
    demand o msg >>= f = .ok b ↔ ∃ a, o = some a ∧ f a = .ok b := by
  simp [bind_eq_ok, demand_eq_ok]

/-- Where a chain of assignments ends, whether it runs through or stops. -/
def Ends (P : α → Prop) : Except α α → Prop
  | .ok a => P a
  | .error a => P a

/-- What every assignment of a chain preserves holds where the chain ends. -/
theorem Ends.bind {P : α → Prop} {x : Except α α} {f : α → Except α α} (hx : Ends P x)
    (hf : ∀ a, P a → Ends P (f a)) : Ends P (x >>= f) := by
  cases x with
  | ok a => exact hf a hx
  | error a => exact hx

end Check
