import Llamaste.Grubenv
import Llamaste.Lib.Machine

/-!
# A/B boot rollback

An update is put on trial: `install_update` makes the new slot active with a boot counter
of three, the bootloader script counts attempts down, and `mark_boot_success` ends the
trial. This module embeds the script of `grub.cfg` and compares it with the protocol it
is meant to implement.

* `Phase` is the abstract protocol: a slot on trial with a number of attempts left, or a
  settled slot.
* `RollbackLaw n` says what the slots started by a run of boots must be when the new slot
  is granted `n` attempts.

## Main results

* `Phase.rollbackLaw_iff`: what a protocol that grants `m` attempts owes to the law of
  `n` attempts.
* `bootedSlots_eq_phase`: the script simulates the protocol with **one** attempt. The
  three tests of the counter run in sequence, so the first boot takes it from 3 to 0.
* `rollbackLaw_three_iff`: the runs on which the script keeps the law of three attempts.
-/

namespace Llamaste

/-! ### The protocol -/

/-- A slot on trial with the number of boots it is still granted, or a settled slot. -/
inductive Phase
  | trial (slot : Slot) (attempts : ℕ)
  | settled (slot : Slot)
  deriving DecidableEq, Repr

namespace Phase

/-- One boot: the slot that is started and the phase afterwards. The event tells whether
the booted system reaches `mark_boot_success`. -/
def boot : Phase → Bool → Slot × Phase
  | settled x, _ => (x, settled x)
  | trial x 0, _ => (x.inactiveSlot, settled x.inactiveSlot)
  | trial x (_ + 1), true => (x, settled x)
  | trial x (n + 1), false => (x, trial x n)

end Phase

/-- The law of A/B rollback with `n` attempts, for a run of boots that starts `slots`
and confirms as `confirms` tells: as long as no boot has confirmed, the first `n` boots
start the new slot and later ones the old slot; after a boot has confirmed, every boot
starts the slot that confirmed. -/
def RollbackLaw {α : Type*} (n : ℕ) (old new : α) (confirms : List Bool) (slots : List α) :
    Prop :=
  (∀ (i : ℕ) (x : α), slots[i]? = some x → (∀ j < i, confirms[j]? ≠ some true) →
      x = if i < n then new else old) ∧
  (∀ (i j : ℕ) (x y : α), j < i → confirms[j]? = some true → slots[i]? = some x →
      slots[j]? = some y → x = y)

/-- The law does not depend on how slots are named. -/
theorem RollbackLaw.map_iff {α β : Type*} {f : α → β} (hf : Function.Injective f) (n : ℕ)
    (old new : α) (confirms : List Bool) (slots : List α) :
    RollbackLaw n (f old) (f new) confirms (slots.map f) ↔
      RollbackLaw n old new confirms slots := by
  have hite : ∀ i : ℕ, (if i < n then f new else f old) = f (if i < n then new else old) := by
    intro i
    split <;> rfl
  constructor
  · rintro ⟨hfirst, hlater⟩
    refine ⟨fun i x hx hnone => hf ?_, fun i j x y hji hc hx hy => hf ?_⟩
    · rw [hfirst i (f x) (by rw [List.getElem?_map, hx]; rfl) hnone, hite]
    · exact hlater i j (f x) (f y) hji hc (by rw [List.getElem?_map, hx]; rfl)
        (by rw [List.getElem?_map, hy]; rfl)
  · rintro ⟨hfirst, hlater⟩
    refine ⟨fun i x hx hnone => ?_, fun i j x y hji hc hx hy => ?_⟩
    · rw [List.getElem?_map, Option.map_eq_some_iff] at hx
      obtain ⟨a, ha, rfl⟩ := hx
      rw [hfirst i a ha hnone, hite]
    · rw [List.getElem?_map, Option.map_eq_some_iff] at hx hy
      obtain ⟨a, ha, rfl⟩ := hx
      obtain ⟨b, hb, rfl⟩ := hy
      rw [hlater i j a b hji hc ha hb]

namespace Phase

/-- A settled slot is started by every boot. -/
theorem outputs_settled (x : Slot) (cs : List Bool) :
    Machine.outputs boot (settled x) cs = List.replicate cs.length x := by
  induction cs with
  | nil => rfl
  | cons c cs ih => simp only [Machine.outputs_cons, boot, ih, List.length_cons,
      List.replicate_succ]

/-- The slot started by boot `i` of a trial with `m` attempts: the new slot within the
first `m` boots, and for good once one of these has confirmed. -/
theorem getElem?_outputs_trial (x : Slot) (m : ℕ) (cs : List Bool) {i : ℕ}
    (hi : i < cs.length) :
    (Machine.outputs boot (trial x m) cs)[i]? =
      some (if i < m ∨ true ∈ cs.take m then x else x.inactiveSlot) := by
  induction cs generalizing m i with
  | nil => exact absurd hi (Nat.not_lt_zero i)
  | cons c cs ih =>
      rw [List.length_cons] at hi
      rcases m with - | m
      · -- no attempt left: this boot falls back and settles
        cases i with
        | zero => simp [boot]
        | succ i => simp [boot, outputs_settled, Nat.lt_of_succ_lt_succ hi]
      · cases c with
        | true =>
            cases i with
            | zero => simp [boot]
            | succ i => simp [boot, outputs_settled, Nat.lt_of_succ_lt_succ hi]
        | false =>
            cases i with
            | zero => simp [boot]
            | succ i => simpa [boot] using ih m (Nat.lt_of_succ_lt_succ hi)

/-- The protocol with `n` attempts keeps the law of `n` attempts on every run. -/
theorem rollbackLaw_trial (x : Slot) (n : ℕ) (cs : List Bool) :
    RollbackLaw n x.inactiveSlot x cs (Machine.outputs boot (trial x n) cs) := by
  constructor
  · intro i y hy hnone
    have hi : i < cs.length := by simpa using (List.getElem?_eq_some_iff.mp hy).1
    rw [getElem?_outputs_trial x n cs hi, Option.some.injEq] at hy
    subst hy
    by_cases hin : i < n
    · simp [hin]
    · have hmem : true ∉ cs.take n := by
        intro hmem
        obtain ⟨j, hj, hjc⟩ := List.mem_take_iff_getElem.mp hmem
        exact hnone j (by omega) (by rw [List.getElem?_eq_getElem (by omega), hjc])
      simp [hin, hmem]
  · intro i j y z hji hconf hy hz
    have hi : i < cs.length := by simpa using (List.getElem?_eq_some_iff.mp hy).1
    rw [getElem?_outputs_trial x n cs hi, Option.some.injEq] at hy
    rw [getElem?_outputs_trial x n cs (hji.trans hi), Option.some.injEq] at hz
    subst hy hz
    by_cases hjn : j < n
    · have hmem : true ∈ cs.take n :=
        List.mem_take_iff_getElem.mpr
          ⟨j, by omega, (List.getElem?_eq_some_iff.mp hconf).2⟩
      simp [hmem]
    · simp [hjn, show ¬ i < n by omega]

/-- A protocol that grants `m` attempts keeps the law of more than `m` attempts on
exactly the runs that end within its attempts or confirm within them. -/
theorem rollbackLaw_iff (x : Slot) {m n : ℕ} (hmn : m < n) (cs : List Bool) :
    RollbackLaw n x.inactiveSlot x cs (Machine.outputs boot (trial x m) cs) ↔
      cs.length ≤ m ∨ true ∈ cs.take m := by
  constructor
  · intro h
    by_contra hcon
    obtain ⟨hlen, hmem⟩ := not_or.mp hcon
    have hm : m < cs.length := not_le.mp hlen
    -- boot `m` is the first one the protocol denies to the new slot
    have hstart := getElem?_outputs_trial x m cs hm
    have hnone : ∀ j < m, cs[j]? ≠ some true := by
      intro j hj hc
      exact hmem (List.mem_take_iff_getElem.mpr
        ⟨j, by omega, (List.getElem?_eq_some_iff.mp hc).2⟩)
    have := h.1 m _ hstart hnone
    simp [hmem, hmn] at this
  · intro h
    have hall : ∀ (i : ℕ) (y : Slot), (Machine.outputs boot (trial x m) cs)[i]? = some y →
        y = x := by
      intro i y hy
      have hi : i < cs.length := by simpa using (List.getElem?_eq_some_iff.mp hy).1
      rw [getElem?_outputs_trial x m cs hi, Option.some.injEq] at hy
      have : i < m ∨ true ∈ cs.take m := h.imp (by omega) id
      rw [← hy, if_pos this]
    constructor
    · intro i y hy hnone
      have hi : i < cs.length := by simpa using (List.getElem?_eq_some_iff.mp hy).1
      have hin : i < n := by
        rcases h with hlen | hmem
        · omega
        · obtain ⟨j, hj, hjc⟩ := List.mem_take_iff_getElem.mp hmem
          by_contra hge
          exact hnone j (by omega) (by rw [List.getElem?_eq_getElem (by omega), hjc])
      rw [hall i y hy, if_pos hin]
    · intro i j y z _ _ hy hz
      rw [hall i y hy, hall j z hz]

end Phase

/-! ### The bootloader script -/

/-- The bootloader while the script runs: its variables, and the block on disk. -/
structure GrubState where
  vars : Grubenv
  block : Grubenv

namespace GrubState

/-- `load_env`: every binding of the block becomes a variable. -/
def loadEnv (block : Grubenv) : GrubState :=
  { vars := block, block := block }

/-- `${name}`: an unset variable reads as the empty string. -/
def get (s : GrubState) (name : Text) : Text :=
  (s.vars.lookup name).getD []

/-- `set name=val`. -/
def set (s : GrubState) (name val : Text) : GrubState :=
  { s with vars := s.vars.insert name val }

/-- `save_env name`: the current value goes to the block; an unset variable is removed
from it. -/
def saveEnv (s : GrubState) (name : Text) : GrubState :=
  { s with block :=
      match s.vars.lookup name with
      | some val => s.block.insert name val
      | none => s.block.erase name }

@[simp] theorem get_loadEnv (block : Grubenv) (name : Text) :
    (loadEnv block).get name = (block.lookup name).getD [] := rfl

@[simp] theorem block_loadEnv (block : Grubenv) : (loadEnv block).block = block := rfl

@[simp] theorem get_set (s : GrubState) (name val name' : Text) :
    (s.set name val).get name' = if name = name' then val else s.get name' := by
  simp only [get, set, Grubenv.lookup_insert]
  split <;> rfl

@[simp] theorem block_set (s : GrubState) (name val : Text) :
    (s.set name val).block = s.block := rfl

@[simp] theorem get_saveEnv (s : GrubState) (name name' : Text) :
    (s.saveEnv name).get name' = s.get name' := rfl

/-- What `save_env` leaves in the block, read as `${...}` would read it. -/
theorem lookup_saveEnv (s : GrubState) (name name' : Text) :
    ((s.saveEnv name).block.lookup name').getD [] =
      if name = name' then s.get name else (s.block.lookup name').getD [] := by
  rw [saveEnv, get]
  cases s.vars.lookup name with
  | some val => simp only [Grubenv.lookup_insert]; split <;> rfl
  | none => simp only [Grubenv.lookup_erase]; split <;> rfl

end GrubState

/-- `if [ "${boot_counter}" = "v" ]; then set boot_counter=w; fi`. -/
def countFrom (s : GrubState) (v w : Text) : GrubState :=
  if s.get Grubenv.bootCounter = v then s.set Grubenv.bootCounter w else s

/-- The three tests of the counter: each reads the variable as the one before left it. -/
def countDown (s : GrubState) : GrubState :=
  countFrom (countFrom (countFrom s "3" "2") "2" "1") "1" "0"

@[simp] theorem block_countFrom (s : GrubState) (v w : Text) :
    (countFrom s v w).block = s.block := by
  rw [countFrom]
  split <;> rfl

theorem get_countFrom (s : GrubState) (v w name : Text) :
    (countFrom s v w).get name =
      if Grubenv.bootCounter = name ∧ s.get Grubenv.bootCounter = v then w else s.get name := by
  rw [countFrom]
  by_cases h : s.get Grubenv.bootCounter = v <;> simp [h]

@[simp] theorem block_countDown (s : GrubState) : (countDown s).block = s.block := by
  simp only [countDown, block_countFrom]

/-- The tests of the counter touch no other variable. -/
theorem get_countDown_of_ne (s : GrubState) {name : Text} (h : Grubenv.bootCounter ≠ name) :
    (countDown s).get name = s.get name := by
  simp [countDown, get_countFrom, h]

/-- **The counter runs through.** Whichever of 3, 2 and 1 it holds, the tests take it
to 0 in one boot, since each test reads what the one before has stored. -/
theorem get_countDown (s : GrubState)
    (h : s.get Grubenv.bootCounter = "1" ∨ s.get Grubenv.bootCounter = "2" ∨
      s.get Grubenv.bootCounter = "3") :
    (countDown s).get Grubenv.bootCounter = "0" := by
  rcases h with h | h | h <;> simp [countDown, get_countFrom, h]

/-- `grub.cfg` up to the menu: the environment is loaded and the boot counter rollback
logic runs. -/
def grubCfg (block : Grubenv) : GrubState :=
  let s := GrubState.loadEnv block
  let s := if s.get Grubenv.activeSlot = "" then s.set Grubenv.activeSlot "A" else s
  if s.get Grubenv.bootSuccess = "0" then
    if s.get Grubenv.bootCounter ≠ "" then
      if s.get Grubenv.bootCounter = "0" then
        let s := if s.get Grubenv.activeSlot = "A" then s.set Grubenv.activeSlot "B"
          else s.set Grubenv.activeSlot "A"
        let s := s.saveEnv Grubenv.activeSlot
        let s := s.set Grubenv.bootCounter ""
        s.saveEnv Grubenv.bootCounter
      else
        (countDown s).saveEnv Grubenv.bootCounter
    else s
  else s

/-- One boot of the device: the slot named on the kernel command line, and the block
after the system has, or has not, reached `mark_boot_success`. -/
def bootDevice (block : Grubenv) (confirmed : Bool) : Text × Grubenv :=
  let s := grubCfg block
  (s.get Grubenv.activeSlot, if confirmed then s.block.markBootSuccess else s.block)

/-- The slots started by a run of boots. -/
def bootedSlots (block : Grubenv) (confirms : List Bool) : List Text :=
  Machine.outputs bootDevice block confirms

/-! ### The script simulates the protocol with one attempt -/

/-- The value `${name}` has when the script starts. -/
def blockValue (block : Grubenv) (name : Text) : Text :=
  (block.lookup name).getD []

/-- The block stands for a phase of the protocol. A counter of 1, 2 or 3 all stand for
one attempt left, for the script takes each of them to 0. -/
def Represents (block : Grubenv) : Phase → Prop
  | .settled x =>
      blockValue block Grubenv.activeSlot = x.toText ∧
      (blockValue block Grubenv.bootSuccess ≠ "0" ∨ blockValue block Grubenv.bootCounter = "")
  | .trial x n =>
      blockValue block Grubenv.activeSlot = x.toText ∧
      blockValue block Grubenv.bootSuccess = "0" ∧
      (n = 0 ∧ blockValue block Grubenv.bootCounter = "0" ∨
        n = 1 ∧ (blockValue block Grubenv.bootCounter = "1" ∨
          blockValue block Grubenv.bootCounter = "2" ∨
          blockValue block Grubenv.bootCounter = "3"))

/-- Arming a slot, from any block, puts it on trial with one attempt. -/
theorem represents_armSlot (block : Grubenv) (x : Slot) :
    Represents (block.armSlot x) (.trial x 1) := by
  refine ⟨?_, ?_, Or.inr ⟨rfl, Or.inr (Or.inr ?_)⟩⟩ <;>
    simp [blockValue, Grubenv.armSlot, Grubenv.lookup_insert]

/-- Confirming settles the slot that is active. -/
theorem represents_markBootSuccess {block : Grubenv} {x : Slot}
    (h : blockValue block Grubenv.activeSlot = x.toText) :
    Represents block.markBootSuccess (.settled x) := by
  refine ⟨?_, Or.inl ?_⟩
  · simpa [blockValue, Grubenv.markBootSuccess, Grubenv.lookup_insert,
      Grubenv.lookup_erase] using h
  · simp [blockValue, Grubenv.markBootSuccess, Grubenv.lookup_insert, Grubenv.lookup_erase]

theorem toText_ne_nil (x : Slot) : x.toText ≠ "" := by
  cases x <;> decide

/-- A settled block is booted as it is. -/
theorem grubCfg_settled {block : Grubenv} {x : Slot} (h : Represents block (.settled x)) :
    grubCfg block = GrubState.loadEnv block := by
  obtain ⟨hslot, hdone⟩ := h
  have hne : (GrubState.loadEnv block).get Grubenv.activeSlot ≠ "" := by
    rw [show (GrubState.loadEnv block).get Grubenv.activeSlot = x.toText from hslot]
    exact toText_ne_nil x
  simp only [grubCfg, if_neg hne]
  rcases hdone with hsuccess | hcounter
  · rw [if_neg (show ¬ (GrubState.loadEnv block).get Grubenv.bootSuccess = "0" from hsuccess)]
  · rw [if_neg (show ¬ (GrubState.loadEnv block).get Grubenv.bootCounter ≠ "" from
      not_not.mpr hcounter), ite_self]

/-- A trial with attempts left: the counter is taken to 0 and saved. -/
theorem grubCfg_counting {block : Grubenv} {x : Slot} {n : ℕ}
    (h : Represents block (.trial x (n + 1))) :
    grubCfg block = (countDown (GrubState.loadEnv block)).saveEnv Grubenv.bootCounter := by
  obtain ⟨hslot, hsuccess, hzero | ⟨-, hcounter⟩⟩ := h
  · exact absurd hzero.1 (Nat.succ_ne_zero n)
  have hne : (GrubState.loadEnv block).get Grubenv.activeSlot ≠ "" := by
    rw [show (GrubState.loadEnv block).get Grubenv.activeSlot = x.toText from hslot]
    exact toText_ne_nil x
  have hnot : ∀ v : Text, v = "" ∨ v = "0" →
      (GrubState.loadEnv block).get Grubenv.bootCounter ≠ v := by
    rintro v hv heq
    rw [show (GrubState.loadEnv block).get Grubenv.bootCounter =
      blockValue block Grubenv.bootCounter from rfl] at heq
    rcases hcounter with hc | hc | hc <;> rcases hv with rfl | rfl <;>
      exact absurd (hc.symm.trans heq) (by decide)
  simp only [grubCfg, if_neg hne]
  rw [if_pos (show (GrubState.loadEnv block).get Grubenv.bootSuccess = "0" from hsuccess),
    if_pos (hnot "" (Or.inl rfl)), if_neg (hnot "0" (Or.inr rfl))]

/-- A trial with no attempt left: the script starts the other slot, and saves it with an
empty counter. -/
theorem grubCfg_exhausted {block : Grubenv} {x : Slot} (h : Represents block (.trial x 0)) :
    (grubCfg block).get Grubenv.activeSlot = x.inactiveSlot.toText ∧
      Represents (grubCfg block).block (.settled x.inactiveSlot) := by
  obtain ⟨hslot, hsuccess, ⟨-, hcounter⟩ | hone⟩ := h
  swap
  · exact absurd hone.1 Nat.zero_ne_one
  have hne : (GrubState.loadEnv block).get Grubenv.activeSlot ≠ "" := by
    rw [show (GrubState.loadEnv block).get Grubenv.activeSlot = x.toText from hslot]
    exact toText_ne_nil x
  have hc : (GrubState.loadEnv block).get Grubenv.bootCounter = "0" := hcounter
  simp only [grubCfg, if_neg hne]
  rw [if_pos (show (GrubState.loadEnv block).get Grubenv.bootSuccess = "0" from hsuccess),
    if_pos (by rw [hc]; decide), if_pos hc]
  have hx : (GrubState.loadEnv block).get Grubenv.activeSlot = x.toText := hslot
  cases x with
  | A =>
      rw [if_pos (show _ = (("A" : Text)) from hx)]
      refine ⟨by simp [Slot.inactiveSlot, Slot.toText], ?_, Or.inr ?_⟩
      · simp [blockValue, GrubState.lookup_saveEnv, Slot.inactiveSlot, Slot.toText]
      · simp [blockValue, GrubState.lookup_saveEnv]
  | B =>
      rw [if_neg (by rw [hx]; decide)]
      refine ⟨by simp [Slot.inactiveSlot, Slot.toText], ?_, Or.inr ?_⟩
      · simp [blockValue, GrubState.lookup_saveEnv, Slot.inactiveSlot, Slot.toText]
      · simp [blockValue, GrubState.lookup_saveEnv]

/-- **Step simulation.** A boot of the device is a boot of the protocol. -/
theorem bootDevice_simulates {block : Grubenv} {p : Phase} (confirmed : Bool)
    (h : Represents block p) :
    (bootDevice block confirmed).1 = (p.boot confirmed).1.toText ∧
      Represents (bootDevice block confirmed).2 (p.boot confirmed).2 := by
  rcases p with ⟨x, - | n⟩ | x
  · obtain ⟨hstart, hrep⟩ := grubCfg_exhausted h
    refine ⟨hstart, ?_⟩
    cases confirmed with
    | false => exact hrep
    | true => exact represents_markBootSuccess hrep.1
  · have hn : n = 0 := by
      obtain ⟨-, -, hzero | hone⟩ := h
      · exact absurd hzero.1 (Nat.succ_ne_zero n)
      · omega
    have hcfg := grubCfg_counting h
    have hslot : blockValue (grubCfg block).block Grubenv.activeSlot = x.toText := by
      rw [hcfg, blockValue, GrubState.lookup_saveEnv, if_neg (by simp), block_countDown]
      exact h.1
    refine ⟨?_, ?_⟩
    · have : (grubCfg block).get Grubenv.activeSlot = x.toText := by
        rw [hcfg, GrubState.get_saveEnv, get_countDown_of_ne _ (by simp)]
        exact h.1
      cases confirmed <;> exact this
    cases confirmed with
    | true => exact represents_markBootSuccess hslot
    | false =>
        refine ⟨hslot, ?_, Or.inl ⟨hn, ?_⟩⟩
        · simp only [bootDevice, hcfg, blockValue]
          rw [if_neg Bool.false_ne_true, GrubState.lookup_saveEnv, if_neg (by simp),
            block_countDown]
          exact h.2.1
        · obtain ⟨-, -, hzero | hone⟩ := h
          · exact absurd hzero.1 (Nat.succ_ne_zero n)
          · simp only [bootDevice, hcfg, blockValue]
            rw [if_neg Bool.false_ne_true, GrubState.lookup_saveEnv, if_pos rfl]
            exact get_countDown _ hone.2
  · have hcfg := grubCfg_settled h
    refine ⟨?_, ?_⟩
    · simp only [bootDevice, hcfg]
      exact h.1
    cases confirmed with
    | false =>
        simp only [bootDevice, hcfg]
        exact h
    | true =>
        simp only [bootDevice, hcfg]
        exact represents_markBootSuccess h.1

/-- **Run simulation.** The slots a device starts are those the protocol starts. -/
theorem bootedSlots_eq_phase {block : Grubenv} {p : Phase} (h : Represents block p)
    (confirms : List Bool) :
    bootedSlots block confirms = (Machine.outputs Phase.boot p confirms).map Slot.toText :=
  Machine.outputs_eq_map_of_simulation (fun _ _ c hrel => bootDevice_simulates c hrel) h
    confirms

/-! ### The law of three attempts -/

/-- **The runs on which the script grants three attempts.** After an update onto the
inactive slot, whatever the block held before, the slots started by a run of boots keep
the law of three attempts exactly when there is at most one boot, or the first boot
confirms. -/
theorem rollbackLaw_three_iff (block : Grubenv) (x : Slot) (confirms : List Bool) :
    RollbackLaw 3 x.toText x.inactiveSlot.toText confirms
        (bootedSlots (block.armSlot x.inactiveSlot) confirms) ↔
      confirms.length ≤ 1 ∨ confirms.head? = some true := by
  rw [bootedSlots_eq_phase (represents_armSlot block x.inactiveSlot),
    RollbackLaw.map_iff Slot.toText_injective]
  have h := Phase.rollbackLaw_iff x.inactiveSlot (m := 1) (n := 3) (by decide) confirms
  rw [Slot.inactiveSlot_inactiveSlot] at h
  rw [h]
  cases confirms with
  | nil => simp
  | cons c cs => simp [eq_comm]

/-- Two boots that do not confirm: from slot A, confirmed, the update to slot B is
started once and given up at the second boot. -/
theorem not_rollbackLaw_three :
    ¬ RollbackLaw 3 (Slot.A.toText) (Slot.B.toText) [false, false]
      (bootedSlots
        (Grubenv.armSlot (((∅ : Grubenv).insert Grubenv.activeSlot Slot.A.toText).insert
          Grubenv.bootSuccess "1") .B) [false, false]) := by
  intro h
  have hsecond := h.1 1 Slot.A.toText (by decide) (by decide)
  exact absurd hsecond (by decide)

end Llamaste
