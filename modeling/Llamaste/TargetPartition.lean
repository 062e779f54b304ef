import Llamaste.Slot

/-!
# The partition an update is written to

`install_update` derives the block device of the inactive slot from the device that is
mounted on `/`: it cuts the last run of digits off the device's name and appends the
partition number of the inactive slot. Source: `updater.cpp`, `install_update` step 6.

## Main results

* `targetPartition_eq_root_iff`: the target is the mounted device itself exactly when the
  target's number is what follows the device's base name.
-/

namespace Llamaste

/-- Whether a line of `/proc/mounts` is about the mount point `/`. -/
def isRootLine (line : Text) : Bool :=
  match line.dropWhile (· ≠ ' ') with
  | [] => false
  | _ :: rest => rest.takeWhile (· ≠ ' ') = "/"

/-- The device of the first line of `/proc/mounts` about `/`, empty when there is none. -/
def rootDevice (mounts : Option Text) : Text :=
  match (mounts.elim [] Text.lines).find? isRootLine with
  | some line => line.takeWhile (· ≠ ' ')
  | none => []

/-- A device name without its `/dev/`. -/
def stripDev (device : Text) : Text :=
  if ("/dev/" : Text).isPrefixOf device then device.drop 5 else device

/-- The part of a name before its last run of digits, wherever that run is. -/
def baseName (name : Text) : Option Text :=
  match name.rdropWhile fun c => !c.isDigit with
  | [] => none
  | upToDigits => some (upToDigits.rdropWhile Char.isDigit)

/-- Whether the name is of a scheme that the updater separates from the partition number
by a `p`. -/
def usesSeparator (name : Text) : Bool :=
  ("nvme" : Text).isPrefixOf name || ("mmcblk" : Text).isPrefixOf name

/-- The partition `n` next to the one that is mounted on `/`. -/
def siblingPartition (device : Text) (n : ℕ) : Option Text :=
  let name := stripDev device
  (baseName name).map fun base =>
    ("/dev/" : Text) ++ base ++ (if usesSeparator name then ['p'] else []) ++ Text.ofNat n

/-- The partitions tried when `/proc/mounts` names no root device. -/
def fallbackPartitions (n : ℕ) : List Text :=
  ["/dev/sda" ++ Text.ofNat n, "/dev/vda" ++ Text.ofNat n, "/dev/nvme0n1p" ++ Text.ofNat n]

/-- The block device that `install_update` opens for partition `n`. -/
def targetPartition (mounts : Option Text) (present : Text → Bool) (n : ℕ) : Option Text :=
  (siblingPartition (rootDevice mounts) n).or ((fallbackPartitions n).find? present)

example : siblingPartition "/dev/sda3" 4 = some "/dev/sda4" := by decide

example : siblingPartition "/dev/nvme0n1p3" 4 = some "/dev/nvme0n1pp4" := by decide

/-! ### When the target is the mounted device -/

/-- The device is partition `n` of a disk whose name takes a partition number directly. -/
def PlainlyNumbered (device : Text) (n : ℕ) : Prop :=
  ∃ base, device = ("/dev/" : Text) ++ (base ++ Text.ofNat n) ∧
    (∀ c ∈ base.getLast?, c.isDigit = false) ∧ usesSeparator (base ++ Text.ofNat n) = false

/-- What is left of a text without its trailing digits does not end in a digit. -/
theorem getLast?_rdropWhile_isDigit (s : Text) :
    ∀ c ∈ (s.rdropWhile Char.isDigit).getLast?, c.isDigit = false := by
  intro c hc
  by_cases hne : s.rdropWhile Char.isDigit = []
  · simp [hne] at hc
  · have hlast := List.rdropWhile_last_not Char.isDigit s hne
    rw [List.getLast?_eq_some_getLast hne] at hc
    obtain rfl := Option.some.inj hc
    simpa using hlast

/-- A base name is followed by a digit, and does not end in one. -/
theorem baseName_eq_some {name base : Text} (h : baseName name = some base) :
    (∃ d tail, name = base ++ d :: tail ∧ d.isDigit = true) ∧
      ∀ c ∈ base.getLast?, c.isDigit = false := by
  unfold baseName at h
  split at h
  · exact nomatch h
  · rename_i upToDigits hne
    obtain rfl := Option.some.inj h
    refine ⟨?_, getLast?_rdropWhile_isDigit _⟩
    generalize hu : (name.rdropWhile fun c => !c.isDigit) = u at hne
    have hlast : (u.getLast hne).isDigit = true := by
      subst hu
      simpa using List.rdropWhile_last_not (fun c => !c.isDigit) name hne
    have hdigits : u.rtakeWhile Char.isDigit ≠ [] := fun hnil =>
      List.rtakeWhile_eq_nil_iff.mp hnil hne hlast
    obtain ⟨d, ds, hds⟩ := List.exists_cons_of_ne_nil hdigits
    have hname : u ++ name.rtakeWhile (fun c => !c.isDigit) = name := by
      rw [← hu]
      exact List.rdropWhile_append_rtakeWhile
    have hsplit : u.rdropWhile Char.isDigit ++ d :: ds = u := by
      rw [← hds]
      exact List.rdropWhile_append_rtakeWhile
    refine ⟨d, ds ++ name.rtakeWhile (fun c => !c.isDigit), ?_, ?_⟩
    · rw [← List.cons_append, ← List.append_assoc, hsplit, hname]
    · exact List.mem_rtakeWhile_imp (hds ▸ List.mem_cons_self)

/-- A name that ends in a number has the text before the number as its base. -/
theorem baseName_append_ofNat {base : Text} (hbase : ∀ c ∈ base.getLast?, c.isDigit = false)
    (n : ℕ) : baseName (base ++ Text.ofNat n) = some base := by
  have hne : base ++ Text.ofNat n ≠ [] := by simp [Text.ofNat_ne_nil]
  have hkeep : (base ++ Text.ofNat n).rdropWhile (fun c => !c.isDigit) = base ++ Text.ofNat n := by
    rw [List.rdropWhile_eq_self_iff]
    intro _
    rw [List.getLast_append_of_ne_nil _ Text.ofNat_ne_nil]
    simp [Text.isDigit_toDigits _ (List.getLast_mem (Text.ofNat_ne_nil (n := n)))]
  have hcut : (base ++ Text.ofNat n).rdropWhile Char.isDigit = base := by
    rw [Text.rdropWhile_isDigit_append_ofNat, List.rdropWhile_eq_self_iff]
    intro hbase'
    simp [hbase _ (List.getLast?_eq_some_getLast hbase')]
  rw [baseName]
  rw [hkeep]
  split
  · exact absurd ‹_› hne
  · rw [hcut]

/-- The sibling partition is the device itself exactly when the device already has the
sibling's number, right behind its base name. -/
theorem siblingPartition_eq_self_iff {device : Text} {n : ℕ} :
    siblingPartition device n = some device ↔ PlainlyNumbered device n := by
  constructor
  · intro h
    obtain ⟨base, hbase, hdevice⟩ := Option.map_eq_some_iff.mp h
    obtain ⟨⟨d, tail, hname, hd⟩, hlast⟩ := baseName_eq_some hbase
    have hstrip : stripDev device =
        base ++ (if usesSeparator (stripDev device) then ['p'] else []) ++ Text.ofNat n := by
      conv_lhs => rw [stripDev, if_pos (by rw [← hdevice]; rfl), ← hdevice]
      rfl
    have hsep : usesSeparator (stripDev device) = false := by
      by_contra hsep
      rw [Bool.not_eq_false] at hsep
      rw [hsep, if_pos rfl, hname, List.append_assoc] at hstrip
      obtain rfl := (List.cons.inj (List.append_cancel_left hstrip)).1
      exact absurd hd (by decide)
    rw [hsep] at hstrip hdevice
    simp only [Bool.false_eq_true, if_false, List.append_nil] at hstrip hdevice
    refine ⟨base, ?_, hlast, ?_⟩
    · rw [← hdevice, List.append_assoc]
    · rw [← hstrip]
      exact hsep
  · rintro ⟨base, rfl, hlast, hsep⟩
    have hstrip : stripDev ("/dev/" ++ (base ++ Text.ofNat n)) = base ++ Text.ofNat n := rfl
    rw [siblingPartition, hstrip, baseName_append_ofNat hlast]
    simp [hsep]

theorem mem_fallbackPartitions {n : ℕ} {device : Text} (h : device ∈ fallbackPartitions n) :
    baseName (stripDev device) ≠ none := by
  have hbase : ∀ base : Text, (∀ c ∈ base.getLast?, c.isDigit = false) →
      baseName (stripDev ("/dev/" ++ (base ++ Text.ofNat n))) ≠ none := by
    intro base hlast
    have hstrip : stripDev ("/dev/" ++ (base ++ Text.ofNat n)) = base ++ Text.ofNat n := rfl
    rw [hstrip, baseName_append_ofNat hlast]
    exact Option.some_ne_none _
  rcases List.mem_cons.mp h with rfl | h
  · exact hbase "sda" (by rintro c ⟨⟩; rfl)
  · rcases List.mem_cons.mp h with rfl | h
    · exact hbase "vda" (by rintro c ⟨⟩; rfl)
    · obtain rfl := List.mem_singleton.mp h
      exact hbase "nvme0n1p" (by rintro c ⟨⟩; rfl)

/-- The target is the device mounted on `/` exactly when that device is plainly numbered
with the target's number. -/
theorem targetPartition_eq_root_iff {mounts : Option Text} {present : Text → Bool} {n : ℕ}
    {target : Text} (h : targetPartition mounts present n = some target) :
    target = rootDevice mounts ↔ PlainlyNumbered (rootDevice mounts) n := by
  rw [← siblingPartition_eq_self_iff]
  unfold targetPartition at h
  cases hsib : siblingPartition (rootDevice mounts) n with
  | some sibling =>
      rw [hsib, Option.some_or] at h
      rw [Option.some.inj h, Option.some_inj]
  | none =>
      rw [hsib, Option.none_or] at h
      refine ⟨?_, fun h => nomatch h⟩
      rintro rfl
      have hbase := mem_fallbackPartitions (List.mem_of_find?_eq_some h)
      simp only [siblingPartition, Option.map_eq_none_iff] at hsib
      exact absurd hsib hbase

end Llamaste
