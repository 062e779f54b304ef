import Llamaste.Disk
import Llamaste.RootPartition

/-!
# The partition an update should go to

The updater means to write to the partition of the other slot on the disk it runs from. It cuts
the number off the name of the running partition, and for disks whose names end in a number it
puts a `p` before the new one, though the name still has its own. Source: `updater.cpp`,
`install_update` step 6.

## Main results

* `writesSibling_iff`: the updater writes to the sibling partition exactly on disks whose names
  end in a letter.
-/

namespace Llamaste

/-- The block device of a partition. -/
def Disk.partitionDevice (d : Disk) (n : ℕ) : Text := "/dev/" ++ d.partition n

/-- Whenever the system runs from a partition of the disk, what the updater opens for writing is
the partition of the other slot on that disk. -/
def WritesSibling (d : Disk) (n : ℕ) (active : Slot) : Prop :=
  ∀ (crypto : Crypto) (build : Build) (env : InstallEnv) (path : Text) (file : Option Bytes)
    (st : Storage) (opened : Text), MountedOnRoot env.mounts (d.partitionDevice n) →
    detectCurrentSlot env.cmdline = active →
    (installUpdate crypto build env path file st).opened = some opened →
    opened = d.partitionDevice active.inactivePartitionNum

namespace Disk

/-- The updater takes a disk for one that needs a separator by the start of its name. -/
theorem usesSeparator_partition (d : Disk) (n : ℕ) :
    usesSeparator (d.partition n) = d.numbered := by
  cases d <;> rfl

/-- What the updater makes of the name of a partition: the separator comes twice. -/
theorem siblingPartition_partitionDevice (d : Disk) (n m : ℕ) :
    siblingPartition (d.partitionDevice n) m =
      some ("/dev/" ++ (d.name ++ if d.numbered then ['p'] else []) ++
        (if d.numbered then ['p'] else []) ++ Text.ofNat m) := by
  have hstrip : stripDev (d.partitionDevice n) = d.partition n := rfl
  rw [siblingPartition, hstrip, usesSeparator_partition, partition,
    baseName_append_ofNat d.getLast?_separated, Option.map_some]

/-- With a second `p`, it is the name of another device. -/
theorem siblingPartition_eq_iff (d : Disk) (n m : ℕ) :
    siblingPartition (d.partitionDevice n) m = some (d.partitionDevice m) ↔
      d.numbered = false := by
  rw [siblingPartition_partitionDevice, Option.some_inj, partitionDevice, partition]
  cases hnumber : d.numbered with
  | false => simp
  | true =>
    refine iff_of_false (fun h => ?_) nofun
    have hlength := congrArg List.length h
    simp at hlength

theorem mem_partitionDevice {d : Disk} {n : ℕ} {c : Char} (hc : c ∈ d.partitionDevice n) :
    c = '/' ∨ c.isAlphanum = true := by
  rcases List.mem_append.mp hc with hc | hc
  · have hdev : ∀ c ∈ ("/dev/" : Text), c = '/' ∨ c.isAlphanum = true := by decide
    exact hdev c hc
  · exact Or.inr (isAlphanum_of_mem_partition c hc)

end Disk

/-- An installation that runs from a device. -/
def runningFrom (device : Text) (active : Slot) : InstallEnv :=
  { sampleEnv with
    cmdline := some ("llamaste.slot=" ++ active.toText)
    mounts := some (device ++ (" / " ++ "squashfs ro 0 0")) }

theorem mountedOnRoot_runningFrom (d : Disk) (n : ℕ) (active : Slot) :
    MountedOnRoot (runningFrom (d.partitionDevice n) active).mounts (d.partitionDevice n) := by
  have hchar : ∀ c ∈ d.partitionDevice n, c ≠ ' ' ∧ c ≠ '\n' := by
    intro c hc
    rcases Disk.mem_partitionDevice hc with rfl | h
    · decide
    · constructor
      · rintro rfl
        exact absurd h (by decide)
      · rintro rfl
        exact absurd h (by decide)
  have hbreak : '\n' ∉ d.partitionDevice n ++ (" / " ++ "squashfs ro 0 0" : Text) := by
    intro hmem
    rcases List.mem_append.mp hmem with hmem | hmem
    · exact (hchar _ hmem).2 rfl
    · exact absurd hmem (by decide)
  refine ⟨_, [], "squashfs ro 0 0", [], rfl, ?_, fun hspace => (hchar _ hspace).1 rfl,
    fun _ h => nomatch h⟩
  have hne : [d.partitionDevice n ++ (" / " ++ "squashfs ro 0 0" : Text)].getLast? ≠ some [] := by
    rw [List.getLast?_singleton]
    exact fun h => absurd (Option.some.inj h) (by simp)
  rw [Text.lines, List.splitOn_eq_singleton hbreak]
  exact if_neg hne

/-- **The update goes to the sibling partition** exactly when the name of the disk ends in a
letter. -/
theorem writesSibling_iff (d : Disk) (n : ℕ) (active : Slot) :
    WritesSibling d n active ↔ d.numbered = false := by
  rw [← d.siblingPartition_eq_iff n active.inactivePartitionNum]
  constructor
  · intro h
    obtain ⟨manifest, hverify⟩ : ∃ manifest, verifyUpdate sampleCrypto sampleBuild
        (runningFrom (d.partitionDevice n) active).payloadRead "/data/a.update" (some sampleFile) =
          .ok (manifest, samplePayload) := verifyUpdate_sample
    have hmounted := mountedOnRoot_runningFrom d n active
    have hslot : detectCurrentSlot (runningFrom (d.partitionDevice n) active).cmdline = active := by
      cases active <;> rfl
    have htarget : targetPartition (runningFrom (d.partitionDevice n) active).mounts
        (runningFrom (d.partitionDevice n) active).present (detectCurrentSlot
          (runningFrom (d.partitionDevice n) active).cmdline).inactivePartitionNum =
          some ("/dev/" ++ (d.name ++ if d.numbered then ['p'] else []) ++
            (if d.numbered then ['p'] else []) ++ Text.ofNat active.inactivePartitionNum) := by
      rw [targetPartition, rootDevice_of_mountedOnRoot hmounted, hslot,
        d.siblingPartition_partitionDevice, Option.some_or]
    have hopened := (installUpdate_of_verified (s := ⟨fun _ => [], fun _ => none⟩) hverify htarget
      rfl).1
    rw [d.siblingPartition_partitionDevice]
    exact congrArg some (h sampleCrypto sampleBuild (runningFrom (d.partitionDevice n) active)
      "/data/a.update" (some sampleFile) ⟨fun _ => [], fun _ => none⟩ _ hmounted hslot hopened)
  · intro h crypto build env path file st opened hmounts hslot hopened
    have htarget := targetPartition_of_opened hopened
    rw [targetPartition, rootDevice_of_mountedOnRoot hmounts, hslot, h, Option.some_or] at htarget
    exact (Option.some.inj htarget).symm

/-- On an NVMe disk the name gets a second `p`. -/
theorem not_writesSibling :
    ¬ ∀ (d : Disk) (n : ℕ) (active : Slot), WritesSibling d n active :=
  fun h => nomatch (writesSibling_iff (.nvme 0 1) 3 .A).mp (h _ _ _)

end Llamaste
