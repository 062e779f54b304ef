import Llamaste.Initramfs
import Llamaste.InstallUpdate

/-!
# The running system's partition

Two programs read the kernel command line: the initramfs decides by it which partition to
mount as root, the updater which partition to overwrite. This module compares the two.

## Main results

* `opened_ne_root_iff`: the updater leaves the root partition alone exactly when the boot
  did not mount a device that is plainly numbered like the updater's target.
* `Boot.spares_of_agree`: without a `root=` it is enough that the two readers of the slot
  agree.
* `not_opened_ne_root`: a slot written `b` makes the updater overwrite the root.
-/

namespace Llamaste

/-- The first line of `/proc/mounts` about `/` names the device. -/
def MountedOnRoot (mounts : Option Text) (device : Text) : Prop :=
  ∃ content before rest after, mounts = some content ∧
    Text.lines content = before ++ (device ++ (" / " ++ rest)) :: after ∧
    ' ' ∉ device ∧ ∀ l ∈ before, isRootLine l = false

/-- The updater finds the device that is mounted on `/`. -/
theorem rootDevice_of_mountedOnRoot {mounts : Option Text} {device : Text}
    (h : MountedOnRoot mounts device) : rootDevice mounts = device := by
  obtain ⟨content, before, rest, after, rfl, hlines, hspace, hbefore⟩ := h
  have hspace' : ∀ c ∈ (" / " ++ rest : Text).head?, c = ' ' := by
    rintro c ⟨⟩
    rfl
  have hroot : isRootLine (device ++ (" / " ++ rest)) = true := by
    rw [isRootLine, Text.dropWhile_ne hspace hspace']
    rfl
  have hfind : (Text.lines content).find? isRootLine = some (device ++ (" / " ++ rest)) :=
    List.find?_eq_some_iff_append.mpr ⟨hroot, before, after, hlines, by simpa using hbefore⟩
  rw [rootDevice, Option.elim_some, hfind]
  exact Text.takeWhile_ne hspace hspace'

namespace Boot

variable (b : Boot)

/-- The partition number that the updater of the booted system writes to. -/
def updaterPartition : ℕ := (detectCurrentSlot (some b.cmdline)).inactivePartitionNum

/-- The boot mounts no device that is plainly numbered like the updater's target: it is a
live boot, or the first candidate that holds the system has another number or another
kind of name. -/
def Spares : Prop :=
  b.isLabel = true ∨
    ∀ device, b.FirstSystem device → ¬ PlainlyNumbered device b.updaterPartition

theorem updaterPartition_eq (b : Boot) : b.updaterPartition = 3 ∨ b.updaterPartition = 4 := by
  rw [updaterPartition]
  cases detectCurrentSlot (some b.cmdline) with
  | A => exact Or.inr rfl
  | B => exact Or.inl rfl

/-- Live media are not numbered like a slot. -/
theorem not_plainlyNumbered_live {device : Text} (h : device ∈ liveDevices) :
    ¬ PlainlyNumbered device b.updaterPartition := by
  rw [← siblingPartition_eq_self_iff]
  rcases b.updaterPartition_eq with hn | hn <;> rw [hn]
  · revert device
    decide
  · revert device
    decide

theorem spares_iff {root : Text} (hroot : b.mountedRoot = some root) :
    b.Spares ↔ ¬ PlainlyNumbered root b.updaterPartition := by
  cases hlabel : b.isLabel with
  | true =>
      rw [mountedRoot, if_pos hlabel] at hroot
      exact iff_of_true (Or.inl hlabel)
        (b.not_plainlyNumbered_live (b.mem_liveDevices_of_liveRoot hroot))
  | false =>
      have hfirst := (b.mountedRoot_eq_some_iff hlabel).mp hroot
      constructor
      · rintro (h | h)
        · rw [hlabel] at h
          cases h
        · exact h root hfirst
      · intro h
        refine Or.inr fun device hdevice => ?_
        rwa [hdevice.unique hfirst]

end Boot

/-- **The updater and the root partition.** Whenever an installation opens a device for
writing, the device is another one than the mounted root partition if and only if the
boot spares the updater's target. -/
theorem opened_ne_root_iff {crypto : Crypto} {build : Build} {env : InstallEnv} {path : Text}
    {file : Option Bytes} {st : Storage} {b : Boot} {root device : Text}
    (hroot : b.mountedRoot = some root) (hcmdline : env.cmdline = some b.cmdline)
    (hmounts : MountedOnRoot env.mounts root)
    (hopened : (installUpdate crypto build env path file st).opened = some device) :
    device ≠ root ↔ b.Spares := by
  have htarget : targetPartition env.mounts env.present b.updaterPartition = some device := by
    rw [Boot.updaterPartition, ← hcmdline]
    exact targetPartition_of_opened hopened
  have hiff := targetPartition_eq_root_iff htarget
  rw [rootDevice_of_mountedOnRoot hmounts] at hiff
  rw [b.spares_iff hroot, ← hiff]

/-! ### Boots that name no root -/

theorem getLast?_of_plainlyNumbered {device : Text} {n : ℕ} (h : PlainlyNumbered device n) :
    device.getLast? = (Text.ofNat n).getLast? := by
  obtain ⟨base, rfl, -⟩ := h
  rw [← List.append_assoc, List.getLast?_append_of_ne_nil _ Text.ofNat_ne_nil]

namespace Boot

variable (b : Boot)

theorem partNum_eq : b.partNum = 3 ∨ b.partNum = 4 := by
  rw [partNum]
  split_ifs
  · exact Or.inr rfl
  · exact Or.inl rfl

/-- Without a `root=`, the candidates are partitions with the number of the slot. -/
theorem getLast?_candidate (hroot : b.root = []) {device : Text}
    (h : device ∈ shellWords b.candidateList) :
    device.getLast? = (Text.ofNat b.partNum).getLast? := by
  have hword : ∀ disk ∈ scannedDisks, b.slotPartition disk ≠ [] ∧
      ∀ c ∈ b.slotPartition disk, isBlank c = false := by
    have hall : scannedDisks.all (fun disk => !(b.slotPartition disk).isEmpty &&
        (b.slotPartition disk).all fun c => !isBlank c) = true := by
      simp only [slotPartition]
      rcases b.partNum_eq with hn | hn
      · rw [hn]
        decide
      · rw [hn]
        decide
    intro disk hdisk
    simpa using List.all_eq_true.mp hall disk hdisk
  have hlist : b.candidateList =
      ((scannedDisks.filter (b.block 0)).map b.slotPartition).flatMap (' ' :: ·) := by
    rw [candidateList, hroot, List.nil_append, List.flatMap_map]
  rw [hlist, shellWords_flatMap (by
    intro w hw
    obtain ⟨disk, hdisk, rfl⟩ := List.mem_map.mp hw
    exact hword disk (List.mem_of_mem_filter hdisk))] at h
  obtain ⟨disk, -, rfl⟩ := List.mem_map.mp h
  rw [slotPartition, List.getLast?_append_of_ne_nil _ Text.ofNat_ne_nil]

/-- When the command line names no root and the two readers of the slot agree, the
updater's target is spared. -/
theorem spares_of_agree (hroot : b.root = [])
    (hexpand : ∀ t, ∀ w ∈ shellWords b.candidateList, b.expand t w = [w])
    (hagree : b.partNum ≠ b.updaterPartition) : b.Spares := by
  refine Or.inr fun device hdevice hplain => hagree ?_
  obtain ⟨u, -, -, -, ⟨before, after, hsplit, -⟩, -⟩ := hdevice
  have hmem : device ∈ b.candidates u := by
    rw [hsplit]
    simp
  obtain ⟨w, hw, hdevice⟩ := List.mem_flatMap.mp hmem
  rw [hexpand u w hw] at hdevice
  obtain rfl := List.mem_singleton.mp hdevice
  have hlast := (b.getLast?_candidate hroot hw).symm.trans (getLast?_of_plainlyNumbered hplain)
  rcases b.partNum_eq with hn | hn <;> rcases b.updaterPartition_eq with hm | hm <;>
    rw [hn, hm] at hlast ⊢ <;> exact absurd hlast (by decide)

/-- The command line of the shipped boot menu is read alike. -/
example : ∀ slot : Slot, let b : Boot :=
      { cmdline :=
          "rootfstype=squashfs ro init=/opt/llamaste/llamaste llamaste.slot=" ++ slot.toText
        expand := fun _ w => [w], block := fun _ _ => false, mount := fun _ _ _ => none }
    b.root = [] ∧ b.partNum ≠ b.updaterPartition := by
  rintro (- | -) <;> decide

end Boot

/-! ### Two boots of one disk -/

/-- A disk `sda` whose partitions 3 and 4 hold the system, booted with the given slot. -/
def sdaBoot (slot : Text) : Boot where
  cmdline := "llamaste.slot=" ++ slot
  expand _ word := [word]
  block _ device := device ∈ (["/dev/sda", "/dev/sda3", "/dev/sda4"] : List Text)
  mount _ _ device :=
    if device ∈ (["/dev/sda3", "/dev/sda4"] : List Text) then
      some fun file => file = "/opt/llamaste/llamaste"
    else none

/-- The sample installation, with `sda3` running. -/
def sda3Env (slot : Text) : InstallEnv :=
  { sampleEnv with cmdline := some (sdaBoot slot).cmdline }

theorem mountedOnRoot_sda3Env (slot : Text) : MountedOnRoot (sda3Env slot).mounts "/dev/sda3" :=
  ⟨"/dev/sda3 / squashfs ro 0 0\n", [], "squashfs ro 0 0", [], rfl, by decide, by decide,
    fun _ h => nomatch h⟩

/-- Slot `A` is read alike, and the other partition is opened. -/
theorem opened_ne_root_sample :
    (installUpdate sampleCrypto sampleBuild (sda3Env "A") "/data/a.update" (some sampleFile)
      ⟨fun _ => [], fun _ => none⟩).opened = some "/dev/sda4" ∧
    (("/dev/sda4" : Text) ≠ "/dev/sda3" ↔ (sdaBoot "A").Spares) := by
  obtain ⟨manifest, hverify⟩ := verifyUpdate_sample
  have hopened := (installUpdate_of_verified (e := sda3Env "A") (d := "/dev/sda4")
    (s := ⟨fun _ => [], fun _ => none⟩) hverify (by decide) rfl).1
  exact ⟨hopened, opened_ne_root_iff (by decide) rfl (mountedOnRoot_sda3Env "A") hopened⟩

/-- Slot `b` is not: the initramfs mounts partition 3, the updater takes it for inactive. -/
theorem not_opened_ne_root :
    ¬ ∀ (crypto : Crypto) (build : Build) (env : InstallEnv) (path : Text)
      (file : Option Bytes) (st : Storage) (b : Boot) (root device : Text),
      b.mountedRoot = some root → env.cmdline = some b.cmdline → MountedOnRoot env.mounts root →
      (installUpdate crypto build env path file st).opened = some device → device ≠ root := by
  intro h
  obtain ⟨manifest, hverify⟩ := verifyUpdate_sample
  have hopened := (installUpdate_of_verified (e := sda3Env "b") (d := "/dev/sda3")
    (s := ⟨fun _ => [], fun _ => none⟩) hverify (by decide) rfl).1
  exact h _ _ _ _ _ _ (sdaBoot "b") "/dev/sda3" "/dev/sda3" (by decide) rfl
    (mountedOnRoot_sda3Env "b") hopened rfl

end Llamaste
