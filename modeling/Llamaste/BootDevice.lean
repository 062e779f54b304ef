import Llamaste.Lib.CInt
import Llamaste.Lib.Strto
import Llamaste.SiblingPartition

/-!
# The disk and the number of a partition at boot

The boot knows the data partition by the name of its device and takes the disk and the number of
the partition from it. Disks with numbered names are told by a word that may stand anywhere in the
name, not only at its start. Source: `init.cpp` (`disk_device_for`, `partition_number_from`).

## Main results

* `readsDevice_iff`: the disk and the number are right exactly when the name of a lettered disk has
  none of the three words and the number is an `int`.
-/

namespace Llamaste

/-- The name has one of the words that tell a disk with a numbered name. -/
def hasDiskWord (s : Text) : Bool :=
  (Text.afterFirst "nvme" s).isSome || (Text.afterFirst "loop" s).isSome ||
    (Text.afterFirst "mmcblk" s).isSome

/-- `disk_device_for`. -/
def diskDeviceFor (s : Text) : Text :=
  if hasDiskWord s then
    match Text.rfind "p" s with
    | some p => if 4 < p then s.take p else []
    | none => []
  else
    let base := s.rdropWhile Char.isDigit
    if base ≠ [] ∧ base.length < s.length then base else []

/-- `partition_number_from`. -/
def partitionNumberFrom (dev : Text) : ℤ :=
  let digits := dev.rtakeWhile Char.isDigit
  if digits = [] then -1 else CInt.toInt32 ((Strto.strtol digits).getD 0)

/-- The device of a whole disk. -/
def Disk.device (d : Disk) : Text := "/dev/" ++ d.name

/-- The boot takes the device of a partition for that of its disk and its number. -/
structure ReadsDevice (d : Disk) (n : ℕ) : Prop where
  disk : diskDeviceFor (d.partitionDevice n) = d.device
  number : partitionNumberFrom (d.partitionDevice n) = n

/-! ### The disk -/

theorem hasDiskWord_iff {s : Text} :
    hasDiskWord s = true ↔
      "nvme".toList <:+: s ∨ "loop".toList <:+: s ∨ "mmcblk".toList <:+: s := by
  rw [hasDiskWord, Bool.or_eq_true, Bool.or_eq_true, Text.isSome_afterFirst_iff,
    Text.isSome_afterFirst_iff, Text.isSome_afterFirst_iff, or_assoc]

theorem not_mem_ofNat {c : Char} (hc : c.isDigit = false) (n : ℕ) : c ∉ Text.ofNat n := fun h =>
  Bool.noConfusion (hc.symm.trans (Text.isDigit_toDigits c h))

/-- A number behind the name is no part of a word. -/
theorem hasDiskWord_append_ofNat (s : Text) (n : ℕ) :
    hasDiskWord (s ++ Text.ofNat n) = hasDiskWord s := by
  have hword (pat : Text) {c : Char} (hc : c.isDigit = false) :
      pat ++ [c] <:+: s ++ Text.ofNat n ↔ pat ++ [c] <:+: s :=
    Text.infix_append_iff_of_not_mem (not_mem_ofNat hc n)
  rw [Bool.eq_iff_iff, hasDiskWord_iff, hasDiskWord_iff]
  exact or_congr (hword "nvm" (c := 'e') rfl)
    (or_congr (hword "loo" (c := 'p') rfl) (hword "mmcbl" (c := 'k') rfl))

namespace Disk

theorem five_lt_length_device (d : Disk) : 5 < d.device.length := by
  have hlen := d.two_lt_length_name
  rw [device, List.length_append]
  have hdev : ("/dev/" : Text).length = 5 := rfl
  omega

theorem partitionDevice_of_numbered {d : Disk} (hd : d.numbered = true) (n : ℕ) :
    d.partitionDevice n = d.device ++ 'p' :: Text.ofNat n := by
  rw [partitionDevice, partition, hd, if_pos rfl, device]
  simp only [List.append_assoc, List.cons_append, List.nil_append]

theorem partitionDevice_of_lettered {d : Disk} (hd : d.numbered = false) (n : ℕ) :
    d.partitionDevice n = d.device ++ Text.ofNat n := by
  rw [partitionDevice, partition, hd, if_neg Bool.false_ne_true, device, List.append_nil,
    List.append_assoc]

/-- The name of a numbered disk starts with a word. -/
theorem hasDiskWord_of_numbered {d : Disk} (hd : d.numbered = true) (s : Text) :
    hasDiskWord (d.device ++ s) = true := by
  have hinto {pat : Text} (h : pat <:+: d.device) : pat <:+: d.device ++ s :=
    h.trans (List.infix_append' [] d.device s)
  rw [hasDiskWord_iff]
  cases d with
  | sd l => exact nomatch hd
  | vd l => exact nomatch hd
  | nvme c n => exact .inl (hinto ⟨"/dev/", Text.ofNat c ++ 'n' :: Text.ofNat n, rfl⟩)
  | mmcblk c => exact .inr (.inr (hinto ⟨"/dev/", Text.ofNat c, rfl⟩))

theorem diskDeviceFor_of_numbered {d : Disk} (hd : d.numbered = true) (n : ℕ) :
    diskDeviceFor (d.partitionDevice n) = d.device := by
  have hlen := d.five_lt_length_device
  have hp : Text.rfind "p" (d.device ++ 'p' :: Text.ofNat n) = some d.device.length :=
    Text.rfind_singleton d.device (not_mem_ofNat rfl n)
  rw [partitionDevice_of_numbered hd, diskDeviceFor, if_pos (hasDiskWord_of_numbered hd _), hp]
  dsimp only
  rw [if_pos (by omega), List.take_left]

/-- What stands before the number at the end of the name. -/
theorem rdropWhile_isDigit_partitionDevice (d : Disk) (n : ℕ) :
    (d.partitionDevice n).rdropWhile Char.isDigit =
      "/dev/" ++ (d.name ++ if d.numbered then ['p'] else []) := by
  have hne : (d.name ++ if d.numbered then ['p'] else []) ≠ [] := by
    have hlen := d.two_lt_length_name
    exact List.ne_nil_of_length_pos (by rw [List.length_append]; omega)
  rw [partitionDevice, partition, ← List.append_assoc, Text.rdropWhile_isDigit_append_ofNat,
    List.rdropWhile_eq_self_iff]
  intro hbefore
  have hlast := List.getLast?_eq_some_getLast hbefore
  rw [List.getLast?_append_of_ne_nil _ hne] at hlast
  rw [d.getLast?_separated _ hlast]
  exact Bool.false_ne_true

/-- The disk of a lettered name is found if no word is. -/
theorem diskDeviceFor_of_lettered {d : Disk} (hd : d.numbered = false)
    (hword : hasDiskWord d.device = false) (n : ℕ) :
    diskDeviceFor (d.partitionDevice n) = d.device := by
  have hlen := d.five_lt_length_device
  have hcut := d.rdropWhile_isDigit_partitionDevice n
  rw [hd, if_neg Bool.false_ne_true, List.append_nil, partitionDevice_of_lettered hd] at hcut
  have hdigits : 0 < (Text.ofNat n).length := List.length_pos_iff.mpr Text.ofNat_ne_nil
  have hne : d.device ≠ [] := List.ne_nil_of_length_pos (by omega)
  rw [partitionDevice_of_lettered hd, diskDeviceFor, hasDiskWord_append_ofNat, hword,
    if_neg Bool.false_ne_true]
  dsimp only
  rw [hcut]
  refine if_pos ⟨hne, ?_⟩
  change d.device.length < (d.device ++ Text.ofNat n).length
  rw [List.length_append]
  omega

/-- With a word in it, a lettered name is cut too early. -/
theorem diskDeviceFor_ne_of_word {d : Disk} (hd : d.numbered = false)
    (hword : hasDiskWord d.device = true) (n : ℕ) :
    diskDeviceFor (d.partitionDevice n) ≠ d.device := by
  have hlen := d.five_lt_length_device
  have hne : [] ≠ d.device := (List.ne_nil_of_length_pos (by omega)).symm
  rw [partitionDevice_of_lettered hd, diskDeviceFor, hasDiskWord_append_ofNat, if_pos hword]
  by_cases hp : 'p' ∈ d.device
  · obtain ⟨u, r, hdevice, hr⟩ := Text.exists_last hp
    have hbehind : 'p' ∉ r ++ Text.ofNat n := fun h =>
      (List.mem_append.mp h).elim hr (not_mem_ofNat rfl n)
    have hfind : Text.rfind "p" (d.device ++ Text.ofNat n) = some u.length := by
      rw [hdevice, List.append_assoc, List.cons_append]
      exact Text.rfind_singleton u hbehind
    rw [hfind]
    dsimp only
    by_cases hpos : 4 < u.length
    · rw [if_pos hpos]
      intro heq
      have hshort := congrArg List.length heq
      rw [List.length_take, hdevice, List.length_append, List.length_append,
        List.length_cons] at hshort
      omega
    · rw [if_neg hpos]
      exact hne
  · have hnone : 'p' ∉ d.device ++ Text.ofNat n := fun h =>
      (List.mem_append.mp h).elim hp (not_mem_ofNat rfl n)
    have hfind : Text.rfind "p" (d.device ++ Text.ofNat n) = none :=
      Text.rfind_singleton_of_not_mem hnone
    rw [hfind]
    exact hne

/-! ### The number -/

/-- The digits at the end of the name are those of the number. -/
theorem rtakeWhile_isDigit_partitionDevice (d : Disk) (n : ℕ) :
    (d.partitionDevice n).rtakeWhile Char.isDigit = Text.ofNat n := by
  have hsplit := List.rdropWhile_append_rtakeWhile (p := Char.isDigit) (l := d.partitionDevice n)
  rw [rdropWhile_isDigit_partitionDevice] at hsplit
  have hname : d.partitionDevice n =
      "/dev/" ++ (d.name ++ if d.numbered then ['p'] else []) ++ Text.ofNat n := by
    rw [partitionDevice, partition, List.append_assoc, List.append_assoc, List.append_assoc]
  exact List.append_cancel_left (hsplit.trans hname)

/-- The number is read right up to the largest `int`. -/
theorem partitionNumberFrom_eq_iff (d : Disk) (n : ℕ) :
    partitionNumberFrom (d.partitionDevice n) = n ↔ n < 2 ^ 31 := by
  rw [partitionNumberFrom, rtakeWhile_isDigit_partitionDevice, if_neg Text.ofNat_ne_nil]
  constructor
  · intro h
    have hfits := CInt.fitsInt32_toInt32 ((Strto.strtol (Text.ofNat n)).getD 0)
    rw [h] at hfits
    exact_mod_cast hfits.2
  · intro h
    have hnumeral : Strto.Numeral (Text.ofNat n) n := by
      have hplain := Strto.Numeral.plain Text.ofNat_ne_nil (Text.isDigit_toDigits (n := n))
      rwa [Text.ofNat, Nat.ofDigitChars_ten_toDigits] at hplain
    have hread : Strto.strtol (Text.ofNat n) = some (n : ℤ) :=
      Strto.strtol_of_numeral hnumeral (by omega) (by omega)
    rw [hread, Option.getD_some, CInt.toInt32_eq_self_iff]
    exact ⟨by omega, by omega⟩

end Disk

/-- The boot reads the device of a partition right exactly when no word stands in the letters of
its disk and the number is an `int`. -/
theorem readsDevice_iff (d : Disk) (n : ℕ) :
    ReadsDevice d n ↔ (d.numbered = true ∨ hasDiskWord d.device = false) ∧ n < 2 ^ 31 := by
  rw [← d.partitionNumberFrom_eq_iff n]
  constructor
  · intro h
    refine ⟨?_, h.number⟩
    cases hd : d.numbered with
    | true => exact .inl rfl
    | false =>
        cases hword : hasDiskWord d.device with
        | false => exact .inr rfl
        | true => exact absurd h.disk (Disk.diskDeviceFor_ne_of_word hd hword n)
  · rintro ⟨hname, hnumber⟩
    refine ⟨?_, hnumber⟩
    cases hd : d.numbered with
    | true => exact Disk.diskDeviceFor_of_numbered hd n
    | false =>
        rcases hname with hname | hword
        · exact absurd (hd.symm.trans hname) Bool.false_ne_true
        · exact Disk.diskDeviceFor_of_lettered hd hword n

end Llamaste
