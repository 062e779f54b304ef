import Llamaste.Lib.Text

/-!
# Saving a file by temp-and-rename

A save writes a temporary file and renames it over the file it replaces. Each step can
fail, and the writer may or may not look at the result of the write: a checked save
renames only what was written in full, an unchecked one renames whatever arrived.

## Main results

* `TempRename.checked_old_or_new`: a checked save leaves the old content or the new one.
* `TempRename.unchecked_of_lands`, `TempRename.unchecked_of_not_lands`: an unchecked save
  replaces the file exactly when it lands, and by the whole new content if it is not cut.
-/

/-- What happens to the three steps of a save: whether the temporary file opens, after
how many bytes the write is cut short if it is, and whether the rename succeeds. -/
structure TempRename where
  opens : Bool
  cut : Option ℕ
  renames : Bool
  deriving DecidableEq, Repr

namespace TempRename

variable (o : TempRename) (data : Text) (old : Option Text)

/-- The temporary file is opened and renamed, whatever was written to it. -/
def Lands : Prop := o.opens = true ∧ o.renames = true

instance : Decidable o.Lands := inferInstanceAs (Decidable (_ ∧ _))

/-- The part of the data that is written. -/
def written : Text :=
  match o.cut with
  | none => data
  | some k => data.take k

/-- A save that gives up when the write is cut short: whether it succeeded, and the
content of the file after it. -/
def checked : Bool × Option Text :=
  if o.Lands ∧ o.cut = none then (true, some data) else (false, old)

/-- A save that renames the temporary file whatever was written to it: the content of the
file after it. -/
def unchecked : Option Text := if o.Lands then some (o.written data) else old

variable {o data old}

/-- A checked save leaves the old content or the new one, and says which. -/
theorem checked_old_or_new :
    o.checked data old = (true, some data) ∨ o.checked data old = (false, old) := by
  rw [checked]
  split
  · exact Or.inl rfl
  · exact Or.inr rfl

theorem unchecked_of_not_lands (h : ¬ o.Lands) : o.unchecked data old = old := if_neg h

/-- An unchecked save that lands and is not cut short leaves the new content. -/
theorem unchecked_of_lands (h : o.Lands) (hcut : o.cut = none) :
    o.unchecked data old = some data := by
  rw [unchecked, if_pos h, written, hcut]

end TempRename
