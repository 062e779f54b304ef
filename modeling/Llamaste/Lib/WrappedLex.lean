import Llamaste.Lib.CInt

/-!
# Comparison by wrapped differences

Lists of 32-bit numbers compared by the difference of the first two that differ, the difference
being of 32 bits as well. On the circle of these numbers a number counts as the smaller of two when
the way up from it to the other is at most half of the circle.

## Main results

* `sign_lexDiff_iff`: when the comparison of two lists is the opposite of the comparison of the two
  in the other order.
* `lexDiff_trans_iff`: when the comparison is transitive for three lists.
-/

namespace WrappedLex

open CInt

/-- The comparison: negative, zero or positive. -/
def lexDiff : List ℤ → List ℤ → ℤ
  | x :: xs, y :: ys => if x = y then lexDiff xs ys else toInt32 (x - y)
  | _, _ => 0

/-- The way up from one number to another, around the circle. -/
def ahead (x y : ℤ) : ℤ := (y - x) % 2 ^ 32

/-- The first numbers that differ lie on opposite sides of the circle. -/
def Opposite : List ℤ → List ℤ → Prop
  | x :: xs, y :: ys => if x = y then Opposite xs ys else (x - y).natAbs = 2 ^ 31
  | _, _ => False

/-- The first three numbers that are not all the same are three numbers, and the way up from the
first to the second, on to the third and back to the first is once around the circle, without a step
of more than a half, the last being less. -/
def GoesRound : List ℤ → List ℤ → List ℤ → Prop
  | x :: xs, y :: ys, z :: zs =>
      if x = y ∧ y = z then GoesRound xs ys zs
      else (x ≠ y ∧ y ≠ z ∧ x ≠ z) ∧ ahead x y ≤ 2 ^ 31 ∧ ahead y z ≤ 2 ^ 31 ∧ ahead z x < 2 ^ 31
  | _, _, _ => False

instance decidableOpposite : ∀ xs ys : List ℤ, Decidable (Opposite xs ys)
  | x :: xs, y :: ys =>
      have := decidableOpposite xs ys
      inferInstanceAs (Decidable (if x = y then Opposite xs ys else (x - y).natAbs = 2 ^ 31))
  | [], _ => inferInstanceAs (Decidable False)
  | _ :: _, [] => inferInstanceAs (Decidable False)

/-! ### Two numbers -/

section

variable {x y z : ℤ}

theorem toInt32_nonpos_iff (x y : ℤ) : toInt32 (x - y) ≤ 0 ↔ ahead x y ≤ 2 ^ 31 := by
  unfold toInt32 ahead
  omega

/-- The way back is the rest of the circle. -/
theorem ahead_swap (hx : FitsInt32 x) (hz : FitsInt32 z) (hne : x ≠ z) :
    ahead z x = 2 ^ 32 - ahead x z := by
  unfold FitsInt32 at hx hz
  unfold ahead
  omega

theorem toInt32_swap (hx : FitsInt32 x) (hy : FitsInt32 y) (h : (x - y).natAbs ≠ 2 ^ 31) :
    toInt32 (y - x) = -toInt32 (x - y) := by
  unfold FitsInt32 at hx hy
  unfold toInt32
  omega

/-- Halfway around, both numbers count as the smaller one. -/
theorem toInt32_of_opposite (h : (x - y).natAbs = 2 ^ 31) : toInt32 (x - y) = -2 ^ 31 := by
  unfold toInt32
  omega

theorem toInt32_ne_zero (hx : FitsInt32 x) (hy : FitsInt32 y) (h : x ≠ y) :
    toInt32 (x - y) ≠ 0 := by
  unfold FitsInt32 at hx hy
  unfold toInt32
  omega

theorem sign_toInt32_iff (hx : FitsInt32 x) (hy : FitsInt32 y) :
    (toInt32 (x - y)).sign = -(toInt32 (y - x)).sign ↔ (x - y).natAbs ≠ 2 ^ 31 := by
  constructor
  · intro hsign hopposite
    have hback : (y - x).natAbs = 2 ^ 31 := by omega
    rw [toInt32_of_opposite hopposite, toInt32_of_opposite hback] at hsign
    exact absurd hsign (by decide)
  · intro hne
    rw [toInt32_swap hx hy hne, Int.sign_neg, Int.neg_neg]

theorem toInt32_trans_iff (hx : FitsInt32 x) (hz : FitsInt32 z) (hxz : x ≠ z) :
    (toInt32 (x - y) ≤ 0 → toInt32 (y - z) ≤ 0 → toInt32 (x - z) ≤ 0) ↔
      ¬(ahead x y ≤ 2 ^ 31 ∧ ahead y z ≤ 2 ^ 31 ∧ ahead z x < 2 ^ 31) := by
  have hback : ahead z x < 2 ^ 31 ↔ ¬ahead x z ≤ 2 ^ 31 := by
    rw [ahead_swap hx hz hxz]
    omega
  rw [toInt32_nonpos_iff, toInt32_nonpos_iff, toInt32_nonpos_iff, hback,
    not_and, not_and, Decidable.not_not]

end

/-! ### Lists -/

/-- The comparison turns around with the lists exactly when they are not opposite. -/
theorem sign_lexDiff_iff {xs ys : List ℤ} (hxs : ∀ x ∈ xs, FitsInt32 x)
    (hys : ∀ y ∈ ys, FitsInt32 y) :
    (lexDiff xs ys).sign = -(lexDiff ys xs).sign ↔ ¬Opposite xs ys := by
  induction xs generalizing ys with
  | nil => cases ys <;> exact iff_of_true rfl id
  | cons x xs ih =>
      cases ys with
      | nil => exact iff_of_true rfl id
      | cons y ys =>
          rw [List.forall_mem_cons] at hxs hys
          by_cases hxy : x = y
          · rw [lexDiff, lexDiff, Opposite, if_pos hxy, if_pos hxy.symm, if_pos hxy]
            exact ih hxs.2 hys.2
          · rw [lexDiff, lexDiff, Opposite, if_neg hxy, if_neg (Ne.symm hxy), if_neg hxy]
            exact sign_toInt32_iff hxs.1 hys.1

/-- The comparison goes on from two lists that are not opposite to a third one exactly when the
three do not go round. -/
theorem lexDiff_trans_iff {xs ys zs : List ℤ} (hxs : ∀ x ∈ xs, FitsInt32 x)
    (hys : ∀ y ∈ ys, FitsInt32 y) (hzs : ∀ z ∈ zs, FitsInt32 z) (hxy : xs.length = ys.length)
    (hyz : ys.length = zs.length) (hopposite : ¬Opposite xs ys) :
    (lexDiff xs ys ≤ 0 → lexDiff ys zs ≤ 0 → lexDiff xs zs ≤ 0) ↔ ¬GoesRound xs ys zs := by
  induction xs generalizing ys zs with
  | nil => exact iff_of_true (fun _ _ => Int.le_refl 0) id
  | cons x xs ih =>
      obtain ⟨y, ys, rfl⟩ := List.exists_cons_of_length_eq_add_one hxy.symm
      obtain ⟨z, zs, rfl⟩ := List.exists_cons_of_length_eq_add_one hyz.symm
      rw [List.forall_mem_cons] at hxs hys hzs
      obtain ⟨hy, hys⟩ := hys
      by_cases hall : x = y ∧ y = z
      · obtain ⟨rfl, rfl⟩ := hall
        rw [Opposite, if_pos rfl] at hopposite
        simp only [lexDiff, GoesRound, if_true, and_self]
        exact ih hxs.2 hys hzs.2 (Nat.succ.inj hxy) (Nat.succ.inj hyz) hopposite
      rw [GoesRound, if_neg hall]
      by_cases hne : x = y
      · -- the first two go on in the same way
        subst hne
        have hxz : x ≠ z := fun h => hall ⟨rfl, h⟩
        refine iff_of_true (fun _ h => ?_) fun h => h.1.1 rfl
        rwa [lexDiff, if_neg hxz] at h ⊢
      by_cases hyz' : y = z
      · subst hyz'
        refine iff_of_true (fun h _ => ?_) fun h => h.1.2.1 rfl
        rwa [lexDiff, if_neg hne] at h ⊢
      by_cases hxz : x = z
      · -- there and back, which only opposite numbers allow
        subst hxz
        rw [Opposite, if_neg hne] at hopposite
        refine iff_of_true (fun h h' => absurd h' ?_) fun h => h.1.2.2 rfl
        rw [lexDiff, if_neg hne] at h
        rw [lexDiff, if_neg (Ne.symm hne), toInt32_swap hxs.1 hy hopposite]
        have hzero := toInt32_ne_zero hxs.1 hy hne
        omega
      · simp only [lexDiff, if_neg hne, if_neg hyz', if_neg hxz]
        rw [toInt32_trans_iff hxs.1 hzs.1 hxz]
        exact not_congr ⟨fun h => ⟨⟨hne, hyz', hxz⟩, h⟩, And.right⟩

/-! ### Numbers that are not negative -/

theorem not_opposite_of_nonneg {xs ys : List ℤ} (hxs : ∀ x ∈ xs, 0 ≤ x ∧ x < 2 ^ 31)
    (hys : ∀ y ∈ ys, 0 ≤ y ∧ y < 2 ^ 31) : ¬Opposite xs ys := by
  induction xs generalizing ys with
  | nil => exact id
  | cons x xs ih =>
      cases ys with
      | nil => exact id
      | cons y ys =>
          rw [List.forall_mem_cons] at hxs hys
          rw [Opposite]
          split_ifs with hxy
          · exact ih hxs.2 hys.2
          · omega

/-- They lie on one half of the circle. -/
theorem not_goesRound_of_nonneg {xs ys zs : List ℤ} (hxs : ∀ x ∈ xs, 0 ≤ x ∧ x < 2 ^ 31)
    (hys : ∀ y ∈ ys, 0 ≤ y ∧ y < 2 ^ 31) (hzs : ∀ z ∈ zs, 0 ≤ z ∧ z < 2 ^ 31) :
    ¬GoesRound xs ys zs := by
  induction xs generalizing ys zs with
  | nil => exact id
  | cons x xs ih =>
      match ys, zs with
      | [], _ => exact id
      | _ :: _, [] => exact id
      | y :: ys, z :: zs =>
          rw [List.forall_mem_cons] at hxs hys hzs
          rw [GoesRound]
          split_ifs with hall
          · exact ih hxs.2 hys.2 hzs.2
          · unfold ahead
            omega

end WrappedLex
