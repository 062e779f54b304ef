import Llamaste.ModelFiles

/-!
# The names of shards

The name of a shard is read from its end: the last `-of-`, the last `.gguf`, and the last `-` before
the number. Reading a name that was built gives what it was built from, whatever the base is like; a
number that is missing or no `int` is an exception.

Source: `tools_model_download.cpp` (`parse_shard_filename`, `build_shard_filename`).

## Main results

* `parseShardFilename_build`: a name that was built is read back.
* `shardNames_iff`: the names that are read without an exception.
-/

namespace Llamaste

/-- `base-num-of-total.gguf`, with digits for both numbers, though the first may have none. -/
structure IsShardName (base num total filename : Text) : Prop where
  eq : filename = base ++ '-' :: num ++ ("-of-" ++ (total ++ ".gguf"))
  numDigits : ∀ c ∈ num, c.isDigit = true
  totalDigits : ∀ c ∈ total, c.isDigit = true
  total_ne : total ≠ []
  long : 6 ≤ (base ++ '-' :: num).length

/-- A run of digits that is no `int`. -/
def IsBadRun (digits : Text) : Prop := digits = [] ∨ 2 ^ 31 ≤ Nat.ofDigitChars 10 digits 0

/-- Names that were built are read back. -/
def BuiltNamesAreRead : Prop :=
  ∀ (base : Text) (n t : ℤ), 0 ≤ n ∧ n < 2 ^ 31 → 0 ≤ t ∧ t < 2 ^ 31 →
    parseShardFilename (buildShardFilename base n t) =
      some { base, shardNum := n, totalShards := t }

/-- A name is read, and without shards where a run of digits is empty or too large. -/
structure ReadsName (filename : Text) : Prop where
  returns : (parseShardFilename filename).isSome = true
  unsharded : ∀ base num total, IsShardName base num total filename →
    IsBadRun num ∨ IsBadRun total → parseShardFilename filename = some { base := filename }

/-! ### Finding the parts -/

/-- The last `-of-` is found if no dash follows. -/
theorem rfind_of {u r : Text} (h : '-' ∉ r) :
    Text.rfind "-of-" (u ++ ("-of-" ++ r)) = some u.length := by
  refine Text.rfind_eq_some (by rw [List.length_append]; omega)
    (by rw [List.drop_left]; exact List.prefix_append _ _) fun j hj hpat => ?_
  obtain ⟨k, rfl⟩ := Nat.exists_eq_add_of_lt hj
  rw [Nat.add_assoc, List.drop_length_add_append] at hpat
  have hdash : '-' ∈ ("-of-" ++ r : Text).drop (k + 1) := hpat.subset List.mem_cons_self
  match k with
  | 0 => exact absurd (List.cons_prefix_cons.mp hpat).1 (by decide)
  | 1 => exact absurd (List.cons_prefix_cons.mp hpat).1 (by decide)
  | 2 => exact h ((List.cons_prefix_cons.mp hpat).2.subset (by decide))
  | k + 3 => exact h (List.mem_of_mem_drop (i := k) hdash)

section

variable {base num total filename : Text}

namespace IsShardName

variable (h : IsShardName base num total filename)

include h

theorem dash_not_mem : '-' ∉ num ∧ '-' ∉ (total ++ ".gguf" : Text) := by
  refine ⟨fun hmem => absurd (h.numDigits _ hmem) (by decide), fun hmem => ?_⟩
  rcases List.mem_append.mp hmem with hmem | hmem
  · exact absurd (h.totalDigits _ hmem) (by decide)
  · exact absurd hmem (by decide)

/-- Such a name is read as its parts, if both numbers can be read. -/
theorem parseShardFilename_eq : parseShardFilename filename = do
    return { base, shardNum := ← Strto.stoi num, totalShards := ← Strto.stoi total } := by
  have hof : Text.rfind "-of-" filename = some (base ++ '-' :: num).length := by
    rw [h.eq]
    exact rfind_of h.dash_not_mem.2
  have hdot : Text.rfind ".gguf" filename =
      some (base ++ '-' :: num ++ ("-of-" ++ total)).length := by
    rw [h.eq, ← List.append_assoc "-of-".toList, ← List.append_assoc]
    exact Text.rfind_append_self _ (by decide)
  have htake : filename.take (base ++ '-' :: num).length = base ++ '-' :: num := by
    rw [h.eq, List.take_left]
  have hdash : Text.rfind "-" (base ++ '-' :: num) = some base.length :=
    Text.rfind_singleton base h.dash_not_mem.1
  have htotal := List.length_pos_iff.mpr h.total_ne
  have hlen : (base ++ '-' :: num ++ ("-of-" ++ total)).length =
      (base ++ '-' :: num).length + 4 + total.length := by
    rw [List.length_append, Nat.add_assoc]
    exact congrArg _ (List.length_append.trans rfl)
  have htotalStr : (filename.drop ((base ++ '-' :: num).length + 4)).take
      ((base ++ '-' :: num ++ ("-of-" ++ total)).length - ((base ++ '-' :: num).length + 4)) =
        total := by
    have hdrop : filename.drop ((base ++ '-' :: num).length + 4) = total ++ ".gguf" := by
      rw [h.eq, List.drop_length_add_append]
      rfl
    rw [hlen, Nat.add_sub_cancel_left, hdrop, List.take_left]
  have hshardStr : (filename.drop (base.length + 1)).take
      ((base ++ '-' :: num).length - base.length - 1) = num := by
    have hlen : (base ++ '-' :: num).length - base.length - 1 = num.length := by
      rw [List.length_append, List.length_cons]
      omega
    have hdrop : filename.drop (base.length + 1) = num ++ ("-of-" ++ (total ++ ".gguf")) := by
      rw [h.eq, List.append_assoc, List.drop_length_add_append]
      rfl
    rw [hlen, hdrop, List.take_left]
  have hbase : filename.take base.length = base := by
    rw [h.eq, List.append_assoc, List.take_left]
  have hdigits : (num.all Char.isDigit && total.all Char.isDigit) = true :=
    Bool.and_eq_true_iff.mpr ⟨List.all_eq_true.mpr h.numDigits, List.all_eq_true.mpr h.totalDigits⟩
  rw [parseShardFilename, hof]
  dsimp only
  rw [if_neg (Nat.not_lt.mpr h.long), hdot]
  dsimp only
  rw [if_neg (by omega), htake, hdash]
  dsimp only
  rw [htotalStr, hshardStr, if_pos hdigits, hbase]

end IsShardName

/-- A model file whose name is not like that has no shards. -/
theorem parseShardFilename_of_not {stem : Text}
    (h : ∀ base num total, ¬IsShardName base num total (stem ++ ".gguf")) :
    parseShardFilename (stem ++ ".gguf") = some { base := stem ++ ".gguf" } := by
  have hdot : Text.rfind ".gguf" (stem ++ ".gguf") = some stem.length :=
    Text.rfind_append_self stem (by decide)
  rw [parseShardFilename, hdot]
  cases hof : Text.rfind "-of-" (stem ++ ".gguf") with
  | none => rfl
  | some ofPos =>
      dsimp only
      split_ifs with hstart hdots
      · rfl
      · rfl
      cases hdash : Text.rfind "-" ((stem ++ ".gguf" : Text).take ofPos) with
      | none => rfl
      | some dashPos =>
          dsimp only
          split_ifs with hdigits
          · obtain ⟨hnum, htotal⟩ := Bool.and_eq_true_iff.mp hdigits
            obtain ⟨u, r, heq, rfl⟩ := Text.eq_append_of_rfind hof
            rw [heq, List.take_left] at hdash
            obtain ⟨base, num, rfl, rfl⟩ := Text.eq_append_of_rfind hdash
            have hrest : r = stem.drop ((base ++ ("-" ++ num)).length + 4) ++ ".gguf" := by
              have hdrop := congrArg (List.drop ((base ++ ("-" ++ num)).length + 4)) heq
              rw [List.drop_append_of_le_length (Nat.le_of_not_le hdots),
                List.drop_length_add_append] at hdrop
              exact hdrop.symm
            have hshardStr : ((stem ++ ".gguf" : Text).drop (base.length + 1)).take
                ((base ++ ("-" ++ num)).length - base.length - 1) = num := by
              have hlen : (base ++ ("-" ++ num)).length - base.length - 1 = num.length := by
                rw [List.length_append, Nat.add_sub_cancel_left]
                rfl
              have hdrop : (base ++ ("-" ++ num) ++ ("-of-" ++ r)).drop (base.length + 1) =
                  num ++ ("-of-" ++ r) := by
                rw [List.append_assoc, List.drop_length_add_append]
                rfl
              rw [hlen, heq, hdrop, List.take_left]
            have htotalStr : ((stem ++ ".gguf" : Text).drop
                ((base ++ ("-" ++ num)).length + 4)).take
                  (stem.length - ((base ++ ("-" ++ num)).length + 4)) =
                stem.drop ((base ++ ("-" ++ num)).length + 4) := by
              rw [List.drop_append_of_le_length (Nat.le_of_not_le hdots), ← List.length_drop,
                List.take_left]
            rw [hshardStr] at hnum
            rw [htotalStr] at htotal
            refine absurd ?_ (h base num (stem.drop ((base ++ ("-" ++ num)).length + 4)))
            exact ⟨by rw [← hrest]; exact heq, List.all_eq_true.mp hnum, List.all_eq_true.mp htotal,
              List.ne_nil_of_length_pos (by rw [List.length_drop]; omega), Nat.not_lt.mp hstart⟩
          · rfl

/-- A number is written with five digits or more. -/
theorem padFive_of_nonneg {n : ℤ} (h : 0 ≤ n) :
    (∀ c ∈ padFive n, c.isDigit = true) ∧ 5 ≤ (padFive n).length ∧
      (Nat.ofDigitChars 10 (padFive n) 0 : ℤ) = n := by
  have hsign : ¬n < 0 := Int.not_lt.mpr h
  rw [padFive, if_neg hsign]
  refine ⟨fun c hc => ?_, ?_, ?_⟩
  · rcases List.mem_append.mp hc with hc | hc
    · rw [List.nil_append] at hc
      rw [List.eq_of_mem_replicate hc]
      rfl
    · exact Text.isDigit_toDigits c hc
  · rw [List.nil_append, List.length_append, List.length_replicate, List.length_nil]
    omega
  · rw [List.nil_append, Nat.ofDigitChars_append, Nat.ofDigitChars_replicate_zero, Nat.mul_zero,
      Text.ofNat, Nat.ofDigitChars_ten_toDigits]
    omega

/-- The number that is written is read back. -/
theorem stoi_padFive {n : ℤ} (h : 0 ≤ n ∧ n < 2 ^ 31) : Strto.stoi (padFive n) = some n := by
  obtain ⟨hdigits, hlen, hvalue⟩ := padFive_of_nonneg h.1
  have hne : padFive n ≠ [] := List.ne_nil_of_length_pos (by omega)
  rw [Strto.stoi_of_digits hdigits, if_neg (not_or.mpr ⟨hne, by omega⟩), hvalue]

theorem isShardName_build (base : Text) {n t : ℤ} (hn : 0 ≤ n) (ht : 0 ≤ t) :
    IsShardName base (padFive n) (padFive t) (buildShardFilename base n t) := by
  obtain ⟨hnum, hnumLen, -⟩ := padFive_of_nonneg hn
  obtain ⟨htotal, htotalLen, -⟩ := padFive_of_nonneg ht
  refine ⟨?_, hnum, htotal, List.ne_nil_of_length_pos (by omega), ?_⟩
  · simp only [buildShardFilename, List.append_assoc]
    rfl
  · rw [List.length_append, List.length_cons]
    omega

/-- **A name that was built is read back,** whatever its base contains. -/
theorem parseShardFilename_build (base : Text) {n t : ℤ} (hn : 0 ≤ n ∧ n < 2 ^ 31)
    (ht : 0 ≤ t ∧ t < 2 ^ 31) : parseShardFilename (buildShardFilename base n t) =
      some { base, shardNum := n, totalShards := t } := by
  rw [(isShardName_build base hn.1 ht.1).parseShardFilename_eq, stoi_padFive hn, stoi_padFive ht]
  rfl

/-- A name is an exception exactly when one of its numbers is. -/
theorem IsShardName.parseShardFilename_eq_none_iff (h : IsShardName base num total filename) :
    parseShardFilename filename = none ↔ IsBadRun num ∨ IsBadRun total := by
  rw [h.parseShardFilename_eq, Strto.stoi_of_digits h.numDigits,
    Strto.stoi_of_digits h.totalDigits]
  unfold IsBadRun
  by_cases hnum : num = [] ∨ 2 ^ 31 ≤ Nat.ofDigitChars 10 num 0
  · rw [if_pos hnum]
    exact iff_of_true rfl (Or.inl hnum)
  by_cases htotal : total = [] ∨ 2 ^ 31 ≤ Nat.ofDigitChars 10 total 0
  · rw [if_neg hnum, if_pos htotal]
    exact iff_of_true rfl (Or.inr htotal)
  · rw [if_neg hnum, if_neg htotal]
    exact iff_of_false nofun (not_or.mpr ⟨hnum, htotal⟩)

end

/-- A valid name ends like a model file. -/
theorem exists_stem_of_validate {filename : Text} (h : validateGgufFilename filename = true) :
    ∃ stem, filename = stem ++ ".gguf" := by
  simp only [validateGgufFilename, Bool.and_eq_true] at h
  obtain ⟨stem, hstem⟩ := List.isSuffixOf_iff_suffix.mp h.1.1.2
  exact ⟨stem, hstem.symm⟩

/-- **Names that were built are read back, and a valid name is read as it should be,** exactly when
it is not the name of a shard with a number that is missing or no `int`. -/
theorem shardNames_iff (filename : Text) :
    BuiltNamesAreRead ∧ (validateGgufFilename filename = true → ReadsName filename) ↔
      (validateGgufFilename filename = true → ∀ base num total,
        IsShardName base num total filename → ¬(IsBadRun num ∨ IsBadRun total)) := by
  constructor
  · intro h hvalid base num total hname hbad
    have hnone := hname.parseShardFilename_eq_none_iff.mpr hbad
    exact absurd ((h.2 hvalid).returns) (by rw [hnone]; exact nofun)
  · refine fun h => ⟨fun base n t hn ht => parseShardFilename_build base hn ht, fun hvalid => ?_⟩
    refine ⟨?_, fun base num total hname hbad => absurd hbad (h hvalid base num total hname)⟩
    by_cases hname : ∃ base num total, IsShardName base num total filename
    · obtain ⟨base, num, total, hname⟩ := hname
      rw [Option.isSome_iff_ne_none]
      exact fun hnone => h hvalid base num total hname
        (hname.parseShardFilename_eq_none_iff.mp hnone)
    · obtain ⟨stem, rfl⟩ := exists_stem_of_validate hvalid
      rw [parseShardFilename_of_not fun base num total hparts => hname ⟨base, num, total, hparts⟩]
      rfl

/-- A dash too many stops the parser. -/
theorem not_shardNames : ¬∀ filename, BuiltNamesAreRead ∧
    (validateGgufFilename filename = true → ReadsName filename) := fun h =>
  absurd ((h "model--of-00002.gguf").2 (by decide +kernel)).returns (by decide +kernel)

end Llamaste
