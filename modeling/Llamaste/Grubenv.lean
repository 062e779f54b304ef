import Mathlib
import Llamaste.Slot

/-!
# The GRUB environment block

The updater and the bootloader share a 1024-byte file of `key=value` lines. The updater
reads it into a map, changes a few variables, and writes the whole block back. Source:
`updater.cpp`, GRUB environment block, `install_update` step 7, `mark_boot_success`.
-/

namespace Llamaste

/-- The variables of a parsed environment block. -/
abbrev Grubenv := Std.ExtTreeMap Text Text

namespace Grubenv

/-- `GRUBENV_HEADER`. -/
def header : Text := "# GRUB Environment Block\n"

/-- `GRUBENV_SIZE`. -/
def size : ℕ := 1024

/-- One line of the block: comments and lines without `=` are skipped, a repeated key
keeps its last value. -/
def parseLine (vars : Grubenv) (line : Text) : Grubenv :=
  if line = [] ∨ line.head? = some '#' then vars
  else
    match line.dropWhile (· ≠ '=') with
    | [] => vars
    | _ :: val => vars.insert (line.takeWhile (· ≠ '=')) val

/-- `grubenv_parse`. -/
def parse (content : Text) : Grubenv :=
  (content.splitOn '\n').foldl parseLine ∅

/-- `grubenv_serialize`: the header, the bindings in key order, and `#` up to exactly
1024 bytes; a longer block is cut off. -/
def serialize (vars : Grubenv) : Text :=
  let result : Text :=
    header ++ vars.toList.flatMap fun (key, val) => key ++ '=' :: val ++ ['\n']
  if result.length < size then result ++ List.replicate (size - result.length) '#'
  else result.take size

/-- The value of a variable, if it is bound. -/
def lookup (vars : Grubenv) (name : Text) : Option Text := vars[name]?

theorem lookup_insert (vars : Grubenv) (name val name' : Text) :
    lookup (vars.insert name val) name' = if name = name' then some val else lookup vars name' := by
  simp only [lookup, Std.ExtTreeMap.getElem?_insert, Std.LawfulEqCmp.compare_eq_iff_eq]

theorem lookup_erase (vars : Grubenv) (name name' : Text) :
    lookup (vars.erase name) name' = if name = name' then none else lookup vars name' := by
  simp only [lookup, Std.ExtTreeMap.getElem?_erase, Std.LawfulEqCmp.compare_eq_iff_eq]

/-! ### The variables of the update protocol -/

/-- The variable that names the slot to boot. -/
def activeSlot : Text := "active_slot"

/-- The variable that tells whether the active slot has been confirmed. -/
def bootSuccess : Text := "boot_success"

/-- The variable that counts the attempts left. -/
def bootCounter : Text := "boot_counter"

@[simp] theorem activeSlot_ne_bootSuccess : activeSlot ≠ bootSuccess := by decide
@[simp] theorem bootSuccess_ne_activeSlot : bootSuccess ≠ activeSlot := by decide
@[simp] theorem activeSlot_ne_bootCounter : activeSlot ≠ bootCounter := by decide
@[simp] theorem bootCounter_ne_activeSlot : bootCounter ≠ activeSlot := by decide
@[simp] theorem bootSuccess_ne_bootCounter : bootSuccess ≠ bootCounter := by decide
@[simp] theorem bootCounter_ne_bootSuccess : bootCounter ≠ bootSuccess := by decide

/-- The assignments of `install_update` step 7 and of `handle_update_rollback`: the
target slot becomes active, unconfirmed, with a counter of three. -/
def armSlot (vars : Grubenv) (target : Slot) : Grubenv :=
  ((vars.insert activeSlot target.toText).insert bootSuccess "0").insert bootCounter "3"

/-- The assignments of `mark_boot_success`. -/
def markBootSuccess (vars : Grubenv) : Grubenv :=
  (vars.insert bootSuccess "1").erase bootCounter

end Grubenv

end Llamaste
