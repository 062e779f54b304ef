import Llamaste.Lib.Text

/-!
# System slots

The installed system has two root partitions, slot A (partition 3) and slot B
(partition 4). The updater learns which one is running from the kernel command line and
works on the other one. Source: `updater.cpp`, slot detection.
-/

namespace Llamaste

/-- The two system slots. -/
inductive Slot
  | A
  | B
  deriving DecidableEq, Repr

namespace Slot

/-- The name of a slot, as grubenv and the command line spell it. -/
def toText : Slot → Text
  | A => "A"
  | B => "B"

/-- The inactive slot: A -> B, B -> A. -/
def inactiveSlot : Slot → Slot
  | A => B
  | B => A

/-- The partition number of the inactive slot: 4 when A is active, 3 when B is. -/
def inactivePartitionNum : Slot → ℕ
  | A => 4
  | B => 3

@[simp] theorem inactiveSlot_inactiveSlot (x : Slot) : x.inactiveSlot.inactiveSlot = x := by
  cases x <;> rfl

@[simp] theorem inactiveSlot_ne (x : Slot) : x.inactiveSlot ≠ x := by
  cases x <;> decide

theorem toText_injective : Function.Injective toText := by
  intro x y h
  cases x <;> cases y <;> first | rfl | exact absurd h (by decide)

end Slot

/-- The active slot of a kernel command line: the character after the first
`llamaste.slot=`, read without regard to case; slot A when there is none. -/
def parseActiveSlot (cmdline : Text) : Slot :=
  match Text.afterFirst "llamaste.slot=" cmdline with
  | some (c :: _) => if c = 'B' ∨ c = 'b' then .B else .A
  | _ => .A

/-- `detect_current_slot`: the slot named by the first line of `/proc/cmdline`, slot A
when the file cannot be opened. -/
def detectCurrentSlot (procCmdline : Option Text) : Slot :=
  match procCmdline with
  | none => .A
  | some content => parseActiveSlot (content.takeWhile (· ≠ '\n'))

example : parseActiveSlot "root=/dev/sda4 llamaste.slot=B quiet" = .B := by decide

end Llamaste
