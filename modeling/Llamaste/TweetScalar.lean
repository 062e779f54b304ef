import Llamaste.TweetPoint

/-!
# The scalars of the update signatures

Scalars are reduced modulo `L`, the order of the base point, which is `2 ^ 252` and a number
of 125 bits. The code takes the limbs of a number of 64 bytes from the top, subtracts the
multiple of `L` that makes a limb vanish, and leaves limbs of either sign; one more multiple
is read off the highest limb, and the last borrow is made up for.

Source: `tweetnacl.c`, `modL` and `reduce`.

## Main results

* `modL_spec`: for limbs up to `2 ^ 22` no computation overflows, and the result is the
  canonical residue.
* `reduce_spec`: the same for a hash.
-/

namespace Llamaste

namespace TweetNacl

open CInt Limbs LittleEndian

/-! ### The code -/

/-- The inner loop of the first loop of `modL`, for `j = i - 32 + k`. `L` is unsigned, so that
the sum wraps around. -/
def reduceStep (i k : ℕ) (xc : List ℤ × ℤ) : Option (List ℤ × ℤ) := do
  let (x, carry) := xc
  let p ← i64 (16 * get x i)
  let y := toInt64 (get x (i - 32 + k) + (carry - p * get L k))
  let s ← i64 (y + 128)
  let z ← i64 (y - s / 2 ^ 8 * 2 ^ 8)
  some (x.set (i - 32 + k) z, s / 2 ^ 8)

/-- The body of the first loop of `modL`. -/
def reduceRound (i : ℕ) (x : List ℤ) : Option (List ℤ) := do
  let (x, carry) ← Loop.up 20 (reduceStep i) (x, 0)
  let y ← i64 (get x (i - 12) + carry)
  some ((x.set (i - 12) y).set i 0)

/-- The body of the second loop of `modL`. -/
def quotientStep (j : ℕ) (xc : List ℤ × ℤ) : Option (List ℤ × ℤ) := do
  let (x, carry) := xc
  let y := toInt64 (get x j + (carry - get x 31 / 2 ^ 4 * get L j))
  some (x.set j (y % 2 ^ 8), y / 2 ^ 8)

/-- The body of the third loop of `modL`. -/
def borrowStep (carry : ℤ) (j : ℕ) (x : List ℤ) : Option (List ℤ) :=
  some (x.set j (toInt64 (get x j - carry * get L j)))

/-- The body of the last loop of `modL`. -/
def byteStep (i : ℕ) (xr : List ℤ × Bytes) : Option (List ℤ × Bytes) := do
  let (x, r) := xr
  let y ← i64 (get x (i + 1) + get x i / 2 ^ 8)
  some (x.set (i + 1) y, r ++ [u8 (get x i % 2 ^ 8)])

/-- `modL`. -/
def modL (x : List ℤ) : Option Bytes := do
  let x ← Loop.down (fun i => reduceRound (i + 32)) 32 x
  let (x, carry) ← Loop.up 32 quotientStep (x, 0)
  let x ← Loop.up 32 (borrowStep carry) x
  let (_, r) ← Loop.up 32 byteStep (x, [])
  some r

/-- `reduce`. -/
def reduce (r : Bytes) : Option Bytes := do
  let o ← modL (r.map fun b => (b.toNat : ℤ))
  some (o ++ List.replicate 32 0)

/-! ### The number `L` -/

theorem L_digit (k : ℕ) : 0 ≤ get L k ∧ get L k ≤ 255 := by
  by_cases hk : k < L.length
  · have hall : ∀ x ∈ L, 0 ≤ x ∧ x ≤ 255 := by decide
    exact hall _ (get_mem hk)
  · rw [Limbs.get, List.getD_eq_default _ _ (by omega)]
    decide

/-- The limbs that the inner loop reads, and the highest one. -/
theorem order_eq_low : value 8 (L.take 20) + 2 ^ 252 = order := by decide

theorem order_eq : value 8 (L.take 32) = order := by decide

theorem order_range : (2 ^ 252 : ℤ) < order ∧ (order : ℤ) < 2 ^ 252 + 2 ^ 125 := by
  decide

theorem L_gap : ∀ k < 20, 16 ≤ k → get L k = 0 := by decide

/-! ### Subtracting a multiple -/

/-- A limb in the range that a rounded carry leaves. -/
def Centred (n : ℤ) : Prop := -128 ≤ n ∧ n ≤ 127

/-- The state of the inner loop behind `k` limbs from `b` on, for the limb `a` that has to
vanish: the limbs behind it are centred, the others untouched, and with the carry the number
is what it was without the multiple. The carry dies away where `L` has zeros. -/
structure Subtracting (x₀ : List ℤ) (a bound : ℤ) (b k : ℕ) (xc : List ℤ × ℤ) : Prop where
  length : xc.1.length = 64
  total : value 8 xc.1 + xc.2 * 2 ^ (8 * (b + k)) =
    value 8 x₀ - 16 * a * value 8 (L.take k) * 2 ^ (8 * b)
  window : ∀ m, b ≤ m → m < b + k → Centred (get xc.1 m)
  outside : ∀ m, m < b ∨ b + k ≤ m → get xc.1 m = get x₀ m
  carry : |xc.2| ≤ 32 * bound
  small : (∀ m, b + 16 ≤ m → m < b + 20 → Centred (get x₀ m)) → bound ≤ 2 ^ 28 →
    |xc.2| ≤ 2 ^ (33 - 8 * (k - 16))

/-- What a rounded carry leaves, and how large it is. -/
theorem rounded {y c : ℤ} (hy : |y| ≤ c) :
    Centred (y - (y + 128) / 2 ^ 8 * 2 ^ 8) ∧ 256 * |(y + 128) / 2 ^ 8| ≤ c + 128 := by
  have h := abs_le.mp hy
  unfold Centred
  rcases abs_cases ((y + 128) / 2 ^ 8) with ⟨habs, -⟩ | ⟨habs, -⟩ <;> omega

theorem Subtracting.step {x₀ : List ℤ} {bound : ℤ} {i k : ℕ} {xc : List ℤ × ℤ} (hi : 32 ≤ i)
    (hi' : i < 64) (hk : k < 20) (hlow : 2 ^ 10 ≤ bound) (hhigh : bound ≤ 2 ^ 28)
    (hx : ∀ m, |get x₀ m| ≤ bound) (h : Subtracting x₀ (get x₀ i) bound (i - 32) k xc) :
    ∃ xc', reduceStep i k xc = some xc' ∧
      Subtracting x₀ (get x₀ i) bound (i - 32) (k + 1) xc' := by
  obtain ⟨x, carry⟩ := xc
  set j := i - 32 + k with hj
  have hlen : x.length = 64 := h.length
  have hcarry := abs_le.mp h.carry
  have ha : get x i = get x₀ i := h.outside i (Or.inr (by omega))
  have hxj : get x j = get x₀ j := h.outside j (Or.inr le_rfl)
  have hai := abs_le.mp (hx i)
  have hxi := abs_le.mp (hx j)
  have hL := L_digit k
  set a := get x₀ i with hadef
  have hprod : |16 * a * get L k| ≤ 4080 * bound := by
    rw [abs_mul, abs_mul, abs_of_nonneg hL.1, abs_of_nonneg (by decide : (0 : ℤ) ≤ 16)]
    nlinarith [abs_le.mpr hai, abs_nonneg a]
  have hprod' := abs_le.mp hprod
  set y := get x j + (carry - 16 * a * get L k) with hy
  have hyabs : |y| ≤ 4113 * bound := by
    rw [abs_le]
    constructor <;> simp only at hcarry <;> omega
  have hyle := abs_le.mp hyabs
  have hy64 : toInt64 y = y := toInt64_of_fits (by unfold FitsInt64; omega)
  obtain ⟨hcentred, hquot⟩ := rounded hyabs
  set c := (y + 128) / 2 ^ 8 with hc
  have hz64 : FitsInt64 (y - c * 2 ^ 8) := by
    unfold Centred at hcentred
    unfold FitsInt64
    omega
  have hrun : reduceStep i k (x, carry) = some (x.set j (y - c * 2 ^ 8), c) := by
    refine Loop.bind_of (i64_of_fits (by unfold FitsInt64; omega)) ?_
    rw [ha, ← hj, ← hy, hy64]
    exact Loop.bind_of (i64_of_fits (by unfold FitsInt64; omega))
      (Loop.bind_of (i64_of_fits hz64) rfl)
  have hget : ∀ m, get (x.set j (y - c * 2 ^ 8)) m = if m = j then y - c * 2 ^ 8 else get x m :=
    fun m => get_set (by omega) _ _
  refine ⟨_, hrun, by simpa using hlen, ?_, fun m hm hm' => ?_, fun m hm => ?_, ?_, ?_⟩
  · have hvalue : value 8 x + carry * 2 ^ (8 * j) =
        value 8 x₀ - 16 * a * value 8 (L.take k) * 2 ^ (8 * (i - 32)) := h.total
    have hpow : (2 : ℤ) ^ (8 * j) = 2 ^ (8 * k) * 2 ^ (8 * (i - 32)) := by
      rw [← pow_add]
      congr 1
      omega
    show value 8 (x.set j (y - c * 2 ^ 8)) + c * 2 ^ (8 * (j + 1)) = _
    rw [value_set (by omega), value_take_succ, Nat.mul_succ, pow_add]
    rw [hpow] at hvalue ⊢
    linear_combination hvalue + hy * 2 ^ (8 * k) * 2 ^ (8 * (i - 32))
  · rw [hget]
    split_ifs with hmj
    · exact hcentred
    · exact h.window m hm (by omega)
  · rw [hget, if_neg (by omega)]
    exact h.outside m (by omega)
  · show |c| ≤ 32 * bound
    omega
  · intro hgap hbound
    show |c| ≤ _
    by_cases hk16 : k < 16
    · rw [show 33 - 8 * (k + 1 - 16) = 33 by omega]
      omega
    · have hzero := L_gap k hk (by omega)
      have hsmall := abs_le.mp (h.small hgap hbound)
      have hcen := hgap j (by omega) (by omega)
      unfold Centred at hcen
      rw [hzero, mul_zero, sub_zero, hxj] at hy
      rw [abs_le]
      clear_value c y
      simp only at hsmall
      obtain rfl | rfl | rfl | rfl : k = 16 ∨ k = 17 ∨ k = 18 ∨ k = 19 := by omega
      all_goals
        norm_num at hsmall ⊢
        omega

/-- The state between the rounds of the first loop, when limb `n` and those behind it are
zero. -/
structure Reducing (v : ℤ) (n : ℕ) (x : List ℤ) : Prop where
  length : x.length = 64
  total : value 8 x ≡ v [ZMOD order]
  zero : ∀ k, n ≤ k → get x k = 0
  bound : ∀ k, |get x k| ≤ if n = 64 then 2 ^ 22 else 2 ^ 28
  window : n < 64 → ∀ k, n ≤ k + 32 → k + 13 ≤ n → Centred (get x k)
  behind : n < 64 → ∀ k, n ≤ k + 12 → k < 51 → |get x k| ≤ 130

theorem Reducing.step {v : ℤ} {i : ℕ} {x : List ℤ} (hi : 32 ≤ i) (hi' : i < 64)
    (h : Reducing v (i + 1) x) : ∃ x', reduceRound i x = some x' ∧ Reducing v i x' := by
  obtain ⟨bound, hlow, hhigh, hbound, hfirst⟩ : ∃ bound : ℤ, 2 ^ 10 ≤ bound ∧ bound ≤ 2 ^ 28 ∧
      (∀ m, |get x m| ≤ bound) ∧ (i = 63 → bound ≤ 2 ^ 22) := by
    by_cases h63 : i = 63
    · exact ⟨2 ^ 22, by norm_num, by norm_num, fun m => by
        simpa [h63] using h.bound m, fun _ => le_rfl⟩
    · refine ⟨2 ^ 28, by norm_num, le_rfl, fun m => ?_, fun h => absurd h h63⟩
      have := h.bound m
      rwa [if_neg (by omega)] at this
  have hstart : Subtracting x (get x i) bound (i - 32) 0 (x, 0) :=
    ⟨h.length, by simp, fun m hm hm' => absurd hm' (by omega), fun _ _ => rfl,
      by simp only [abs_zero]; omega, fun _ _ => by simp⟩
  obtain ⟨⟨y, carry⟩, hy, hsub⟩ := Loop.up_spec (P := fun k xc =>
    Subtracting x (get x i) bound (i - 32) k xc) hstart
    fun k xc hk hs => hs.step hi hi' hk hlow hhigh hbound
  have hlen : y.length = 64 := hsub.length
  have hcarry := abs_le.mp hsub.carry
  have hj : get y (i - 12) = get x (i - 12) := hsub.outside _ (Or.inr (by omega))
  have hiy : get y i = get x i := hsub.outside _ (Or.inr (by omega))
  have hxj := abs_le.mp (hbound (i - 12))
  set s := get y (i - 12) + carry with hs
  have hs64 : FitsInt64 s := by
    unfold FitsInt64
    simp only at hcarry
    omega
  have hget : ∀ m, get ((y.set (i - 12) s).set i 0) m =
      if m = i then 0 else if m = i - 12 then s else get y m := fun m => by
    rw [get_set (by simp; omega), get_set (by omega)]
  -- The carry is small from the second round on, where the limbs it meets are centred.
  have hsmall : i < 63 → |carry| ≤ 2 := fun h63 =>
    hsub.small (fun m hm hm' => h.window (by omega) m (by omega) (by omega)) hhigh
  refine ⟨(y.set (i - 12) s).set i 0, Loop.bind_of hy (Loop.bind_of (i64_of_fits hs64) rfl),
    by simpa using hlen, ?_, fun k hk => ?_, fun k => ?_, fun hn k hk hk' => ?_,
    fun hn k hk hk' => ?_⟩
  · have hvalue : value 8 y + carry * 2 ^ (8 * (i - 32 + 20)) =
        value 8 x - 16 * get x i * value 8 (L.take 20) * 2 ^ (8 * (i - 32)) := hsub.total
    have hjpow : 8 * (i - 12) = 8 * (i - 32 + 20) := by omega
    have hpow : (2 : ℤ) ^ (8 * i) = 2 ^ 256 * 2 ^ (8 * (i - 32)) := by
      rw [← pow_add]
      congr 1
      omega
    have hi12 : get (y.set (i - 12) s) i = get x i := by
      rw [get_set (by omega), if_neg (by omega), hiy]
    have hnew : value 8 ((y.set (i - 12) s).set i 0) =
        value 8 x + order * (-(16 * get x i * 2 ^ (8 * (i - 32)))) := by
      rw [value_set (by simp; omega), value_set (by omega), hi12, hjpow, hpow, ← order_eq_low]
      linear_combination hvalue + hs * 2 ^ (8 * (i - 32 + 20))
    rw [hnew]
    exact (Int.add_mul_emod_self_left _ _ _).trans h.total
  · rw [hget]
    split_ifs with h1 h2
    · rfl
    · omega
    · rw [hsub.outside k (Or.inr (by omega))]
      exact h.zero k (by omega)
  · rw [hget, if_neg (by omega : i ≠ 64)]
    split_ifs with h1 h2
    · norm_num
    · rw [abs_le]
      simp only at hcarry
      by_cases h63 : i = 63
      · have := hfirst h63
        omega
      · have h1 := abs_le.mp (hsmall (by omega))
        have h2 := h.window (by omega) (i - 12) (by omega) (by omega)
        unfold Centred at h2
        omega
    · by_cases hw : i - 32 ≤ k ∧ k < i - 32 + 20
      · have h2 := hsub.window k hw.1 hw.2
        unfold Centred at h2
        rw [abs_le]
        simp only at h2
        omega
      · rw [hsub.outside k (by omega)]
        exact (hbound k).trans hhigh
  · rw [hget, if_neg (by omega), if_neg (by omega)]
    exact hsub.window k (by omega) (by omega)
  · rw [hget]
    split_ifs with h1 h2
    · norm_num
    · have h1 := abs_le.mp (hsmall (by omega))
      have h2 := h.window (by omega) (i - 12) (by omega) (by omega)
      unfold Centred at h2
      rw [abs_le]
      omega
    · rw [hsub.outside k (Or.inr (by omega))]
      exact h.behind (by omega) k (by omega) hk'

/-- What the first loop leaves: 32 limbs that are nearly centred. -/
theorem reducing_spec {x : List ℤ} (hlen : x.length = 64) (hx : ∀ k, |get x k| ≤ 2 ^ 22) :
    ∃ x', Loop.down (fun i => reduceRound (i + 32)) 32 x = some x' ∧ x'.length = 64 ∧
      value 8 x' ≡ value 8 x [ZMOD order] ∧ (∀ k, 32 ≤ k → get x' k = 0) ∧
      ∀ k, |get x' k| ≤ 130 := by
  have hstart : Reducing (value 8 x) (32 + 32) x := by
    refine ⟨hlen, rfl, fun k hk => ?_, fun k => ?_, fun h => absurd h (by decide),
      fun h => absurd h (by decide)⟩
    · rw [Limbs.get, List.getD_eq_default _ _ (by omega)]
    · exact hx k
  obtain ⟨x', hx', hred⟩ := Loop.down_spec (P := fun i y => Reducing (value 8 x) (i + 32) y)
    hstart fun i y hi h => Reducing.step (i := i + 32) (by omega) (by omega)
      (by rwa [show i + 32 + 1 = i + 1 + 32 by omega])
  refine ⟨x', hx', hred.length, hred.total, fun k hk => hred.zero k (by omega), fun k => ?_⟩
  by_cases h32 : 32 ≤ k
  · rw [hred.zero k (by omega)]
    norm_num
  · by_cases h20 : k < 20
    · have h := hred.window (by omega) k (by omega) (by omega)
      unfold Centred at h
      rw [abs_le]
      omega
    · exact hred.behind (by omega) k (by omega) (by omega)

/-! ### The last multiple -/

/-- The state of the second loop behind `k` limbs, for the quotient `q`. -/
structure Quotienting (x₀ : List ℤ) (k : ℕ) (xc : List ℤ × ℤ) : Prop where
  length : xc.1.length = 64
  total : value 8 xc.1 + xc.2 * 2 ^ (8 * k) =
    value 8 x₀ - get x₀ 31 / 2 ^ 4 * value 8 (L.take k)
  digit : ∀ m < k, 0 ≤ get xc.1 m ∧ get xc.1 m ≤ 255
  behind : ∀ m, k ≤ m → get xc.1 m = get x₀ m
  carry : |xc.2| ≤ 32

theorem Quotienting.step {x₀ : List ℤ} {k : ℕ} {xc : List ℤ × ℤ} (hk : k < 32)
    (hx : ∀ m, |get x₀ m| ≤ 130) (h : Quotienting x₀ k xc) :
    ∃ xc', quotientStep k xc = some xc' ∧ Quotienting x₀ (k + 1) xc' := by
  obtain ⟨x, carry⟩ := xc
  have hlen : x.length = 64 := h.length
  have hcarry := abs_le.mp h.carry
  have hxk : get x k = get x₀ k := h.behind k le_rfl
  have hx31 : get x 31 = get x₀ 31 := h.behind 31 (by omega)
  have h31 := abs_le.mp (hx 31)
  have hk' := abs_le.mp (hx k)
  have hL := L_digit k
  set q := get x₀ 31 / 2 ^ 4 with hq
  have hprod : |q * get L k| ≤ 9 * 255 := by
    rw [abs_mul]
    refine mul_le_mul ?_ ?_ (abs_nonneg _) (by decide) <;> rw [abs_le] <;> omega
  have hprod' := abs_le.mp hprod
  set y := get x k + (carry - q * get L k) with hy
  have hyle : -3000 ≤ y ∧ y ≤ 3000 := by
    simp only at hcarry
    omega
  have hy64 : toInt64 y = y := toInt64_of_fits (by unfold FitsInt64; omega)
  have hrun : quotientStep k (x, carry) = some (x.set k (y % 2 ^ 8), y / 2 ^ 8) := by
    rw [quotientStep, hx31, ← hq, ← hy, hy64]
  have hget : ∀ m, get (x.set k (y % 2 ^ 8)) m = if m = k then y % 2 ^ 8 else get x m :=
    fun m => get_set (by omega) _ _
  refine ⟨_, hrun, by simpa using hlen, ?_, fun m hm => ?_, fun m hm => ?_, ?_⟩
  · have hvalue : value 8 x + carry * 2 ^ (8 * k) = value 8 x₀ - q * value 8 (L.take k) := h.total
    show value 8 (x.set k (y % 2 ^ 8)) + y / 2 ^ 8 * 2 ^ (8 * (k + 1)) = _
    have hdiv := Int.emod_add_mul_ediv y (2 ^ 8)
    rw [value_set (by omega), value_take_succ, Nat.mul_succ, pow_add]
    linear_combination hvalue + (hdiv + hy) * 2 ^ (8 * k)
  · rw [hget]
    split_ifs with hmk
    · omega
    · exact h.digit m (by omega)
  · rw [hget, if_neg (by omega)]
    exact h.behind m (by omega)
  · show |y / 2 ^ 8| ≤ 32
    rw [abs_le]
    omega

/-- The state of the third loop: `L` is added where the second loop borrowed. -/
structure Restoring (x₀ : List ℤ) (carry : ℤ) (k : ℕ) (x : List ℤ) : Prop where
  length : x.length = 64
  total : value 8 x = value 8 x₀ - carry * value 8 (L.take k)
  limb : ∀ m < k, 0 ≤ get x m ∧ get x m ≤ 510
  behind : ∀ m, k ≤ m → get x m = get x₀ m

theorem Restoring.step {x₀ x : List ℤ} {carry : ℤ} {k : ℕ} (hk : k < 32)
    (hcarry : carry = 0 ∨ carry = -1) (hx : ∀ m < 32, 0 ≤ get x₀ m ∧ get x₀ m ≤ 255)
    (h : Restoring x₀ carry k x) :
    ∃ x', borrowStep carry k x = some x' ∧ Restoring x₀ carry (k + 1) x' := by
  have hlen := h.length
  have hxk := h.behind k le_rfl
  have hk' := hx k hk
  have hL := L_digit k
  set y := get x k - carry * get L k with hy
  have hyle : 0 ≤ y ∧ y ≤ 510 := by
    rcases hcarry with rfl | rfl <;> omega
  have hy64 : toInt64 y = y := toInt64_of_fits (by unfold FitsInt64; omega)
  have hget : ∀ m, get (x.set k y) m = if m = k then y else get x m :=
    fun m => get_set (by omega) _ _
  refine ⟨x.set k y, by rw [borrowStep, ← hy, hy64], by simpa using hlen, ?_,
    fun m hm => ?_, fun m hm => ?_⟩
  · rw [value_set (by omega), value_take_succ, h.total]
    linear_combination hy * 2 ^ (8 * k)
  · rw [hget]
    split_ifs with hmk
    · exact hyle
    · exact h.limb m (by omega)
  · rw [hget, if_neg (by omega)]
    exact h.behind m (by omega)

/-- The state of the last loop: the bytes, and the limbs that are left. -/
structure Emitting (x₀ : List ℤ) (k : ℕ) (xr : List ℤ × Bytes) : Prop where
  length : xr.1.length = 64
  bytes : xr.2.length = k
  total : (number xr.2 : ℤ) + (value 8 xr.1 - value 8 (xr.1.take k)) = value 8 x₀
  limb : 0 ≤ get xr.1 k ∧ get xr.1 k ≤ 1000
  behind : ∀ m, k < m → get xr.1 m = get x₀ m

theorem Emitting.step {x₀ : List ℤ} {k : ℕ} {xr : List ℤ × Bytes} (hk : k < 32)
    (hx : ∀ m, 0 ≤ get x₀ m ∧ get x₀ m ≤ 510) (h : Emitting x₀ k xr) :
    ∃ xr', byteStep k xr = some xr' ∧ Emitting x₀ (k + 1) xr' := by
  obtain ⟨x, r⟩ := xr
  have hlen : x.length = 64 := h.length
  have hr : r.length = k := h.bytes
  have hlimb : 0 ≤ get x k ∧ get x k ≤ 1000 := h.limb
  have hnext : get x (k + 1) = get x₀ (k + 1) := h.behind _ (by omega)
  have hbound := hx (k + 1)
  set y := get x (k + 1) + get x k / 2 ^ 8 with hy
  have hrun : byteStep k (x, r) = some (x.set (k + 1) y, r ++ [u8 (get x k % 2 ^ 8)]) :=
    Loop.bind_of (i64_of_fits (by unfold FitsInt64; omega)) rfl
  refine ⟨_, hrun, by simpa using hlen, by simp [hr], ?_, ?_, fun m hm => ?_⟩
  · have hvalue : (number r : ℤ) + (value 8 x - value 8 (x.take k)) = value 8 x₀ := h.total
    show (number (r ++ [u8 (get x k % 2 ^ 8)]) : ℤ) + (value 8 (x.set (k + 1) y) -
      value 8 ((x.set (k + 1) y).take (k + 1))) = _
    have hbyte : (number [u8 (get x k % 2 ^ 8)] : ℤ) = get x k % 2 ^ 8 := by
      simp only [number, u8, UInt8.toNat_ofNat', Nat.mul_zero, Nat.add_zero]
      omega
    have htake : (x.set (k + 1) y).take (k + 1) = x.take (k + 1) :=
      List.take_set_of_le le_rfl
    have hpow : ((256 ^ k : ℕ) : ℤ) = 2 ^ (8 * k) := by
      rw [pow_mul]
      norm_num
    have hdiv := Int.emod_add_mul_ediv (get x k) (2 ^ 8)
    rw [number_append, hr, Nat.cast_add, Nat.cast_mul, hpow, hbyte, htake, value_take_succ,
      value_set (by omega), Nat.mul_succ, pow_add]
    linear_combination hvalue + hdiv * 2 ^ (8 * k) + hy * 2 ^ (8 * k) * 2 ^ 8
  · show 0 ≤ get (x.set (k + 1) y) (k + 1) ∧ get (x.set (k + 1) y) (k + 1) ≤ 1000
    rw [get_set (by omega), if_pos rfl]
    omega
  · show get (x.set (k + 1) y) m = _
    rw [get_set (by omega), if_neg (by omega)]
    exact h.behind m (by omega)

/-! ### The residue -/

/-- The range that the quotient leaves: a limb above the base, less a borrow. -/
theorem quotient_range {x : List ℤ} (hlen : x.length = 64) (hzero : ∀ k, 32 ≤ k → get x k = 0)
    (hx : ∀ k, |get x k| ≤ 130) :
    -2 ^ 248 < value 8 x - get x 31 / 2 ^ 4 * order ∧
      value 8 x - get x 31 / 2 ^ 4 * order < 2 ^ 252 := by
  have hsplit : value 8 x = value 8 (x.take 31) + get x 31 * 2 ^ 248 := by
    rw [← value_take_of_zero hzero]
    exact value_take_succ x 31
  have hlow : (2 ^ 8 - 1) * |value 8 (x.take 31)| ≤ 130 * (2 ^ 248 - 1) := by
    have hle : ∀ y ∈ x.take 31, |y| ≤ 130 := by
      intro y hy
      obtain ⟨i, hi, rfl⟩ := exists_get_of_mem hy
      rw [List.length_take] at hi
      rw [get_take (by omega)]
      exact hx i
    have h := abs_value_le (w := 8) hle
    rwa [List.length_take, hlen, show 8 * min 31 64 = 248 by decide] at h
  have h31 := abs_le.mp (hx 31)
  obtain ⟨horder, horder'⟩ := order_range
  set q := get x 31 / 2 ^ 4 with hq
  have hprod : |q * (order - 2 ^ 252)| ≤ 9 * 2 ^ 125 := by
    rw [abs_mul]
    refine mul_le_mul ?_ ?_ (abs_nonneg _) (by decide) <;> rw [abs_le] <;> omega
  have hprod' := abs_le.mp hprod
  have hexpand : q * order = q * (order - 2 ^ 252) + q * 2 ^ 252 := by ring
  rw [hsplit, hexpand]
  rcases abs_cases (value 8 (x.take 31)) with ⟨habs, hsign⟩ | ⟨habs, hsign⟩ <;>
    constructor <;> omega

/-- **Reduction of a scalar.** -/
theorem modL_spec {x : List ℤ} (hlen : x.length = 64) (hx : ∀ k, |get x k| ≤ 2 ^ 22) :
    modL x = some (bytes 32 (value 8 x % order).toNat) := by
  obtain ⟨x₁, hx₁, hlen₁, htotal₁, hzero₁, hbound₁⟩ := reducing_spec hlen hx
  obtain ⟨⟨x₂, c⟩, hx₂, hquot⟩ := Loop.up_spec (P := Quotienting x₁) (n := 32) (s := (x₁, 0))
    ⟨hlen₁, by simp, fun m hm => absurd hm (Nat.not_lt_zero m), fun _ _ => rfl, by norm_num⟩
    fun k xc hk h => h.step hk hbound₁
  have hlen₂ : x₂.length = 64 := hquot.length
  have hdigit₂ : ∀ m < 32, 0 ≤ get x₂ m ∧ get x₂ m ≤ 255 := hquot.digit
  have hzero₂ : ∀ k, 32 ≤ k → get x₂ k = 0 := fun k hk => (hquot.behind k hk).trans (hzero₁ k hk)
  have htotal₂ : value 8 x₂ + c * 2 ^ (8 * 32) =
      value 8 x₁ - get x₁ 31 / 2 ^ 4 * value 8 (L.take 32) := hquot.total
  rw [order_eq] at htotal₂
  have hrange := quotient_range hlen₁ hzero₁ hbound₁
  set w := value 8 x₁ - get x₁ 31 / 2 ^ 4 * order with hw
  have hrange₂ : 0 ≤ value 8 x₂ ∧ value 8 x₂ < 2 ^ 256 := by
    have hdigits : ∀ y ∈ x₂.take 32, 0 ≤ y ∧ y < 2 ^ 8 := by
      intro y hy
      obtain ⟨i, hi, rfl⟩ := exists_get_of_mem hy
      rw [List.length_take] at hi
      rw [get_take (by omega)]
      have := hdigit₂ i (by omega)
      omega
    have h := value_of_digits hdigits
    rwa [List.length_take, hlen₂, value_take_of_zero hzero₂] at h
  have hc : c = 0 ∨ c = -1 := by omega
  obtain ⟨x₃, hx₃, hrest⟩ := Loop.up_spec (P := Restoring x₂ c) (n := 32) (s := x₂)
    ⟨hlen₂, by simp, fun m hm => absurd hm (Nat.not_lt_zero m), fun _ _ => rfl⟩
    fun k y hk h => h.step hk hc hdigit₂
  have htotal₃ := hrest.total
  rw [order_eq] at htotal₃
  have hzero₃ : ∀ k, 32 ≤ k → get x₃ k = 0 := fun k hk => (hrest.behind k hk).trans (hzero₂ k hk)
  have hlimb₃ : ∀ m, 0 ≤ get x₃ m ∧ get x₃ m ≤ 510 := fun m => by
    by_cases hm : m < 32
    · exact hrest.limb m hm
    · rw [hzero₃ m (by omega)]
      decide
  obtain ⟨⟨x₄, r⟩, hx₄, hemit⟩ := Loop.up_spec (P := Emitting x₃) (n := 32) (s := (x₃, []))
    ⟨hrest.length, rfl, by simp [number], (hlimb₃ 0).imp_right (·.trans (by norm_num)),
      fun _ _ => rfl⟩
    fun k xr hk h => h.step hk hlimb₃
  have hr : r.length = 32 := hemit.bytes
  have hlimb₄ : 0 ≤ get x₄ 32 ∧ get x₄ 32 ≤ 1000 := hemit.limb
  have htotal₄ : (number r : ℤ) + get x₄ 32 * 2 ^ 256 = value 8 x₃ := by
    have h : (number r : ℤ) + (value 8 x₄ - value 8 (x₄.take 32)) = value 8 x₃ := hemit.total
    have hzero₄ : ∀ k, 33 ≤ k → get x₄ k = 0 := fun k hk =>
      (hemit.behind k (by omega)).trans (hzero₃ k (by omega))
    have hsplit := value_take_succ (w := 8) x₄ 32
    rw [value_take_of_zero hzero₄] at hsplit
    rw [← h, hsplit]
    ring
  have hnumber := number_lt r
  rw [hr] at hnumber
  obtain ⟨horder, horder'⟩ := order_range
  -- The last borrow, if any, is made up for by `L`.
  have hfinal : (number r : ℤ) = if c = 0 then w else w + order := by
    rcases hc with rfl | rfl
    · rw [if_pos rfl]
      omega
    · rw [if_neg (by decide)]
      omega
  have hmod : value 8 x % order = number r := by
    have hw' : w ≡ value 8 x [ZMOD order] :=
      ((Int.modEq_iff_dvd.mpr ⟨get x₁ 31 / 2 ^ 4, by rw [hw]; ring⟩ :
        w ≡ value 8 x₁ [ZMOD order])).trans htotal₁
    have hnum : (number r : ℤ) ≡ value 8 x [ZMOD order] := by
      rw [hfinal]
      split_ifs
      · exact hw'
      · exact (Int.add_emod_right w order).trans hw'
    rw [← hnum, Int.emod_eq_of_lt (Int.natCast_nonneg _)]
    rcases hc with rfl | rfl
    · rw [if_pos rfl] at hfinal
      omega
    · rw [if_neg (by decide)] at hfinal
      omega
  have hbytes : r = bytes 32 (value 8 x % order).toNat := by
    rw [hmod, Int.toNat_natCast, ← hr, bytes_number]
  rw [← hbytes]
  exact Loop.bind_of hx₁ (Loop.bind_of hx₂ (Loop.bind_of hx₃ (Loop.bind_of hx₄ rfl)))

/-- The number of bytes as limbs. -/
theorem value_bytes (bs : Bytes) : value 8 (bs.map fun b => (b.toNat : ℤ)) = number bs := by
  induction bs with
  | nil => rfl
  | cons b bs ih =>
    rw [List.map_cons, value_cons, ih, number]
    push_cast
    ring

theorem get_bytes (bs : Bytes) (k : ℕ) :
    get (bs.map fun b => (b.toNat : ℤ)) k = (byteAt bs k).toNat := by
  rw [Limbs.get, byteAt, List.getD_eq_getElem?_getD, List.getD_eq_getElem?_getD, List.getElem?_map]
  cases bs[k]? <;> rfl

/-- **Reduction of a hash.** -/
theorem reduce_spec {r : Bytes} (hr : r.length = 64) :
    reduce r = some (bytes 32 (number r % order) ++ List.replicate 32 0) := by
  have hbound : ∀ k, |get (r.map fun b => (b.toNat : ℤ)) k| ≤ 2 ^ 22 := fun k => by
    have hlt : (byteAt r k).toNat < 256 := (byteAt r k).toNat_lt
    rw [get_bytes, abs_le]
    omega
  have hmod := modL_spec (by rw [List.length_map, hr]) hbound
  rw [value_bytes, ← Int.natCast_mod, Int.toNat_natCast] at hmod
  exact Loop.bind_of hmod rfl

end TweetNacl

end Llamaste
