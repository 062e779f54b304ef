import Llamaste.Lib.Text

/-!
# Disk and partition names

The kernel's names of disks and of their partitions, in the four schemes the program
meets: `sdX` and `vdX` are told apart by letters, `nvmeCnN` and `mmcblkC` by numbers. A
partition number follows a name that ends in a letter directly, and a name that ends in a
number after a `p`.

## Main results

* `Disk.name_injective`: a name denotes one disk.
-/

namespace Llamaste

/-- The letters of an `sdX` or `vdX` disk. -/
structure DiskLetters where
  letters : Text
  nonempty : letters ≠ []
  alpha : ∀ c ∈ letters, c.isAlpha = true

/-- A disk. -/
inductive Disk
  | sd (l : DiskLetters)
  | vd (l : DiskLetters)
  | nvme (controller drive : ℕ)
  | mmcblk (card : ℕ)

namespace Disk

/-- The name of a disk under `/dev`. -/
def name : Disk → Text
  | sd l => 's' :: 'd' :: l.letters
  | vd l => 'v' :: 'd' :: l.letters
  | nvme c n => "nvme" ++ Text.ofNat c ++ 'n' :: Text.ofNat n
  | mmcblk c => "mmcblk" ++ Text.ofNat c

/-- Whether the name of the disk ends in a number. -/
def numbered : Disk → Bool
  | sd _ => false
  | vd _ => false
  | nvme _ _ => true
  | mmcblk _ => true

/-- The name of a partition of the disk. -/
def partition (d : Disk) (k : ℕ) : Text :=
  d.name ++ (if d.numbered then ['p'] else []) ++ Text.ofNat k

theorem letters_injective {l l' : DiskLetters} (h : l.letters = l'.letters) : l = l' := by
  cases l
  cases l'
  simpa using h

theorem nvme_name_inj {c n c' n' : ℕ} (h : (nvme c n).name = (nvme c' n').name) :
    c = c' ∧ n = n' := by
  have hnumbers : Text.ofNat c ++ 'n' :: Text.ofNat n = Text.ofNat c' ++ 'n' :: Text.ofNat n' := by
    refine List.append_cancel_left (?_ : ("nvme" : Text) ++ _ = ("nvme" : Text) ++ _)
    rw [← List.append_assoc, ← List.append_assoc]
    exact h
  obtain ⟨hc, hn⟩ := Text.ofNat_append_inj (by rintro c ⟨⟩; rfl) (by rintro c ⟨⟩; rfl) hnumbers
  exact ⟨hc, Text.ofNat_injective (List.cons.inj hn).2⟩

/-- A name denotes one disk. -/
theorem name_injective : Function.Injective name := by
  intro d d' h
  cases d <;> cases d' <;> try (exact absurd (List.cons.inj h).1 (by decide))
  case sd.sd l l' =>
    exact congrArg sd (letters_injective (List.cons.inj (List.cons.inj h).2).2)
  case vd.vd l l' =>
    exact congrArg vd (letters_injective (List.cons.inj (List.cons.inj h).2).2)
  case nvme.nvme c n c' n' =>
    obtain ⟨rfl, rfl⟩ := nvme_name_inj h
    rfl
  case mmcblk.mmcblk c c' =>
    exact congrArg mmcblk (Text.ofNat_injective (List.append_cancel_left h))

theorem not_isDigit_of_isAlpha {c : Char} (hc : c.isAlpha = true) : c.isDigit = false := by
  simp only [Char.isAlpha, Char.isUpper, Char.isLower, Char.isDigit, ge_iff_le, Bool.or_eq_true,
    Bool.and_eq_true, decide_eq_true_eq, UInt32.le_iff_toNat_le, Bool.and_eq_false_iff,
    decide_eq_false_iff_not] at hc ⊢
  simp only [Char.reduceVal, UInt32.reduceToNat] at hc ⊢
  omega

/-- A lettered name ends in a letter. -/
theorem rdropWhile_isDigit_lettered {d : Disk} (hd : d.numbered = false) :
    d.name.rdropWhile Char.isDigit = d.name := by
  have hlast : ∀ (l : DiskLetters) (a b : Char),
      (a :: b :: l.letters).rdropWhile Char.isDigit = a :: b :: l.letters := by
    intro l a b
    rw [List.rdropWhile_eq_self_iff]
    intro hne
    rw [List.getLast_cons (by simp), List.getLast_cons l.nonempty]
    simp [not_isDigit_of_isAlpha (l.alpha _ (List.getLast_mem l.nonempty))]
  cases d with
  | sd l => exact hlast l 's' 'd'
  | vd l => exact hlast l 'v' 'd'
  | nvme c n => exact nomatch hd
  | mmcblk c => exact nomatch hd

/-- A numbered name ends in a digit. -/
theorem getLast?_numbered {d : Disk} (hd : d.numbered = true) :
    ∃ c, d.name.getLast? = some c ∧ c.isDigit = true := by
  have hlast : ∀ (s : Text) (n : ℕ), ∃ c, (s ++ Text.ofNat n).getLast? = some c ∧
      c.isDigit = true := by
    intro s n
    have hne : Text.ofNat n ≠ [] := Text.ofNat_ne_nil
    refine ⟨(Text.ofNat n).getLast hne, ?_, Text.isDigit_toDigits _ (List.getLast_mem hne)⟩
    rw [List.getLast?_append_of_ne_nil _ hne, List.getLast?_eq_some_getLast hne]
  cases d with
  | sd l => exact nomatch hd
  | vd l => exact nomatch hd
  | nvme c n =>
      have hname : (nvme c n).name = "nvme" ++ Text.ofNat c ++ ['n'] ++ Text.ofNat n := by
        rw [List.append_assoc _ ['n']]
        rfl
      rw [hname]
      exact hlast _ n
  | mmcblk c => exact hlast "mmcblk" c

/-- What stands before the number of a partition does not end in a digit. -/
theorem getLast?_separated (d : Disk) :
    ∀ c ∈ (d.name ++ if d.numbered then ['p'] else []).getLast?, c.isDigit = false := by
  intro c hc
  cases hd : d.numbered with
  | false =>
      rw [hd, if_neg Bool.false_ne_true, List.append_nil] at hc
      have hcut := rdropWhile_isDigit_lettered hd
      rw [List.rdropWhile_eq_self_iff] at hcut
      have hne : d.name ≠ [] := by
        rintro hnil
        rw [hnil] at hc
        cases hc
      rw [List.getLast?_eq_some_getLast hne] at hc
      obtain rfl := Option.some.inj hc
      simpa using hcut hne
  | true =>
      rw [hd, if_pos rfl, List.getLast?_concat] at hc
      obtain rfl := Option.some.inj hc
      rfl

theorem two_lt_length_name (d : Disk) : 2 < d.name.length := by
  cases d with
  | sd l => exact Nat.succ_lt_succ (Nat.succ_lt_succ (List.length_pos_iff.mpr l.nonempty))
  | vd l => exact Nat.succ_lt_succ (Nat.succ_lt_succ (List.length_pos_iff.mpr l.nonempty))
  | nvme c n => exact Nat.succ_lt_succ (Nat.succ_lt_succ (Nat.succ_pos _))
  | mmcblk c => exact Nat.succ_lt_succ (Nat.succ_lt_succ (Nat.succ_pos _))

theorem isAlphanum_of_isDigit {c : Char} (hc : c.isDigit = true) : c.isAlphanum = true := by
  simp [Char.isAlphanum, hc]

/-- Names are made of letters and digits. -/
theorem isAlphanum_of_mem_name {d : Disk} : ∀ c ∈ d.name, c.isAlphanum = true := by
  have hletters : ∀ (l : DiskLetters), ∀ c ∈ l.letters, c.isAlphanum = true := by
    intro l c hc
    simp [Char.isAlphanum, l.alpha c hc]
  have hdigits : ∀ (n : ℕ), ∀ c ∈ Text.ofNat n, c.isAlphanum = true := fun n c hc =>
    isAlphanum_of_isDigit (Text.isDigit_toDigits c hc)
  intro c hc
  cases d with
  | sd l =>
      rcases List.mem_cons.mp hc with rfl | hc
      · rfl
      · rcases List.mem_cons.mp hc with rfl | hc
        · rfl
        · exact hletters l c hc
  | vd l =>
      rcases List.mem_cons.mp hc with rfl | hc
      · rfl
      · rcases List.mem_cons.mp hc with rfl | hc
        · rfl
        · exact hletters l c hc
  | nvme i n =>
      rcases List.mem_append.mp hc with hc | hc
      · rcases List.mem_append.mp hc with hc | hc
        · exact Text.forall_of_all (s := "nvme") (p := (·.isAlphanum = true)) (by decide) c hc
        · exact hdigits i c hc
      · rcases List.mem_cons.mp hc with rfl | hc
        · rfl
        · exact hdigits n c hc
  | mmcblk i =>
      rcases List.mem_append.mp hc with hc | hc
      · exact Text.forall_of_all (s := "mmcblk") (p := (·.isAlphanum = true)) (by decide) c hc
      · exact hdigits i c hc

theorem isAlphanum_of_mem_partition {d : Disk} {k : ℕ} :
    ∀ c ∈ d.partition k, c.isAlphanum = true := by
  intro c hc
  rcases List.mem_append.mp hc with hc | hc
  · rcases List.mem_append.mp hc with hc | hc
    · exact isAlphanum_of_mem_name c hc
    · split at hc
      · obtain rfl := List.mem_singleton.mp hc
        rfl
      · exact nomatch hc
  · exact isAlphanum_of_isDigit (Text.isDigit_toDigits c hc)

end Disk

/-- A block device: a whole disk, or a partition of one. -/
inductive BlockDevice
  | whole (d : Disk)
  | part (d : Disk) (k : ℕ)

namespace BlockDevice

/-- The disk a device is on. -/
def disk : BlockDevice → Disk
  | whole d => d
  | part d _ => d

/-- The name of the device under `/dev`. -/
def name : BlockDevice → Text
  | whole d => d.name
  | part d k => d.partition k

theorem head?_lettered {b : BlockDevice} (hb : b.disk.numbered = false) :
    b.name.head? = some 's' ∨ b.name.head? = some 'v' := by
  rcases b with ⟨_ | _ | _ | _⟩ | ⟨_ | _ | _ | _, k⟩
  all_goals first | exact Or.inl rfl | exact Or.inr rfl | cases hb

theorem head?_numbered {b : BlockDevice} (hb : b.disk.numbered = true) :
    b.name.head? = some 'n' ∨ b.name.head? = some 'm' := by
  rcases b with ⟨_ | _ | _ | _⟩ | ⟨_ | _ | _ | _, k⟩
  all_goals first | exact Or.inl rfl | exact Or.inr rfl | cases hb

end BlockDevice

end Llamaste
