import Llamaste.Lib.Primality
import Llamaste.TweetField
import Llamaste.TwistedEdwards

/-!
# The curve of the update signatures

The constants of the signature code stand for the twisted Edwards curve
`-x² + y² = 1 + d x² y²` modulo the prime `2 ^ 255 - 19`, and for a point of it whose
order divides the number `L`.

Source: `tweetnacl.c`, `D` to `I`, and `L`.

## Main results

* `prime_p25519`: the modulus is prime.
* `complete_d25519`: the addition law of the curve has no exceptions.
* `order_smul_B`: the base point vanishes when it is multiplied by `L`.
-/

namespace Llamaste

namespace TweetNacl

open Limbs Edwards Primality

/-! ### The code -/

/-- `gf0`. -/
def gf0 : Gf := List.replicate 16 0

/-- `gf1`. -/
def gf1 : Gf := [1, 0, 0, 0, 0, 0, 0, 0, 0, 0, 0, 0, 0, 0, 0, 0]

/-- `D`. -/
def D : Gf := [0x78a3, 0x1359, 0x4dca, 0x75eb, 0xd8ab, 0x4141, 0x0a4d, 0x0070,
  0xe898, 0x7779, 0x4079, 0x8cc7, 0xfe73, 0x2b6f, 0x6cee, 0x5203]

/-- `D2`. -/
def D2 : Gf := [0xf159, 0x26b2, 0x9b94, 0xebd6, 0xb156, 0x8283, 0x149a, 0x00e0,
  0xd130, 0xeef3, 0x80f2, 0x198e, 0xfce7, 0x56df, 0xd9dc, 0x2406]

/-- `X`. -/
def X : Gf := [0xd51a, 0x8f25, 0x2d60, 0xc956, 0xa7b2, 0x9525, 0xc760, 0x692c,
  0xdc5c, 0xfdd6, 0xe231, 0xc0a4, 0x53fe, 0xcd6e, 0x36d3, 0x2169]

/-- `Y`. -/
def Y : Gf := [0x6658, 0x6666, 0x6666, 0x6666, 0x6666, 0x6666, 0x6666, 0x6666,
  0x6666, 0x6666, 0x6666, 0x6666, 0x6666, 0x6666, 0x6666, 0x6666]

/-- `I`. -/
def I : Gf := [0xa0b0, 0x4a0e, 0x1b27, 0xc4ee, 0xe478, 0xad2f, 0x1806, 0x2f43,
  0xd7a7, 0x3dfb, 0x0099, 0x2b4d, 0xdf0b, 0x4fc1, 0x2480, 0x2b83]

/-- `L`, byte by byte. -/
def L : List ℤ := [0xed, 0xd3, 0xf5, 0x5c, 0x1a, 0x63, 0x12, 0x58, 0xd6, 0x9c, 0xf7, 0xa2,
  0xde, 0xf9, 0xde, 0x14, 0, 0, 0, 0, 0, 0, 0, 0, 0, 0, 0, 0, 0, 0, 0, 0x10]

/-! ### The modulus is prime -/

/-- The largest prime factor of the predecessor of the modulus. -/
def largestFactor : ℕ := 74058212732561358302231226437062788676166966415465897661863160754340907

/-- The certificates of the modulus and of the large primes behind it. -/
theorem certificates_pass :
    passes 32 2773320623 5 [2, 2437, 569003] = true ∧
    passes 64 72106336199 7 [2773320623, 2, 13] = true ∧
    passes 64 1919519569386763 2 [2, 3, 7, 19, 47, 47, 127, 8574133] = true ∧
    passes 128 75445702479781427272750846543864801 7
      [72106336199, 1919519569386763, 2, 2, 2, 2, 2, 3, 3, 5, 5, 75707] = true ∧
    passes 64 31757755568855353 10 [2, 2, 2, 3, 31, 107, 223, 4153, 430751] = true ∧
    passes 256 largestFactor 2 [75445702479781427272750846543864801, 31757755568855353, 2, 3, 353,
      57467, 132049, 1923133] = true ∧
    passes 256 p25519 2 [largestFactor, 2, 2, 3, 65147] = true := by
  decide +kernel

theorem prime_p25519 : Nat.Prime p25519 := by
  obtain ⟨h₁, h₂, h₃, h₄, h₅, h₆, h₇⟩ := certificates_pass
  have hcons : ∀ {q : ℕ} {qs : List ℕ}, q.Prime → (∀ r ∈ qs, r.Prime) → ∀ r ∈ q :: qs, r.Prime :=
    fun hq hqs => List.forall_mem_cons.mpr ⟨hq, hqs⟩
  have prime₁ := prime_of_passes _ _ _ (by norm_num) h₁
  have prime₂ := prime_of_passes _ _ _ (hcons prime₁ (by norm_num)) h₂
  have prime₃ := prime_of_passes _ _ _ (by norm_num) h₃
  have prime₄ := prime_of_passes _ _ _ (hcons prime₂ (hcons prime₃ (by norm_num))) h₄
  have prime₅ := prime_of_passes _ _ _ (by norm_num) h₅
  have prime₆ := prime_of_passes _ _ _ (hcons prime₄ (hcons prime₅ (by norm_num))) h₆
  exact prime_of_passes _ _ _ (hcons prime₆ (by norm_num)) h₇

instance fact_prime_p25519 : Fact (Nat.Prime p25519) := ⟨prime_p25519⟩

/-! ### The curve -/

/-- The parameter of the curve. -/
def d25519 : Fp := residue D

/-- An equation of field elements, by the numbers that stand for them. -/
theorem intCast_eq {a b : ℤ} (h : a % p25519 = b % p25519) : (a : Fp) = b :=
  (ZMod.intCast_eq_intCast_iff a b p25519).mpr h

theorem residue_D2 : residue D2 = 2 * d25519 := by
  have h : ((num D2 : ℤ) : Fp) = ((2 * num D : ℤ) : Fp) := intCast_eq (by decide)
  rw [residue, h, d25519, residue, Int.cast_mul, Int.cast_ofNat]

theorem residue_I_sq : residue I ^ 2 = -1 := by
  have h : ((num I ^ 2 : ℤ) : Fp) = ((-1 : ℤ) : Fp) := intCast_eq (by decide)
  rw [residue, ← Int.cast_pow, h, Int.cast_neg, Int.cast_one]

theorem two_ne_zero_Fp : (2 : Fp) ≠ 0 := by
  have h : ((2 : ℕ) : Fp) ≠ 0 := by
    rw [ne_eq, ZMod.natCast_eq_zero_iff]
    exact fun hdvd => absurd (Nat.le_of_dvd (by decide) hdvd) (by norm_num)
  exact_mod_cast h

/-- The power of the parameter that would be one, were it a square. -/
theorem d25519_pow : d25519 ^ ((p25519 - 1) / 2) = -1 := by
  have hnat : d25519 = ((num D).toNat : Fp) := by
    rw [d25519, residue, ← Int.cast_natCast, Int.toNat_of_nonneg (by decide)]
  have hpow := natCast_powMod p25519 256 1 (num D).toNat
    (show (p25519 - 1) / 2 < 2 ^ 256 by norm_num)
  have hval : powMod p25519 256 1 (num D).toNat ((p25519 - 1) / 2) = p25519 - 1 := by
    decide +kernel
  rw [hval, Nat.cast_one, one_mul, ← hnat] at hpow
  rw [← hpow, Nat.cast_sub prime_p25519.one_le, ZMod.natCast_self, Nat.cast_one, zero_sub]

/-- **The addition law has no exceptions.** -/
instance complete_d25519 : Complete d25519 where
  two_ne_zero := two_ne_zero_Fp
  isSquare_neg_one := ⟨residue I, by rw [← pow_two, residue_I_sq]⟩
  not_isSquare := by
    rintro ⟨x, hx⟩
    have hpow := d25519_pow
    have heven : 2 * ((p25519 - 1) / 2) = p25519 - 1 := by norm_num
    rw [hx, ← pow_two, ← pow_mul, heven] at hpow
    have hx0 : x ≠ 0 := by
      rintro rfl
      rw [zero_pow (by norm_num)] at hpow
      exact one_ne_zero (neg_eq_zero.mp hpow.symm)
    rw [ZMod.pow_card_sub_one_eq_one hx0] at hpow
    exact two_ne_zero_Fp (by linear_combination hpow)

/-- A point of the curve. -/
abbrev Point25519 : Type := Edwards.Point d25519

/-- The base point, of the coordinates `X` and `Y`. -/
def B : Point25519 where
  x := residue X
  y := residue Y
  onCurve := by
    have h : ((-num X ^ 2 + num Y ^ 2 : ℤ) : Fp) =
        ((1 + num D * num X ^ 2 * num Y ^ 2 : ℤ) : Fp) := intCast_eq (by decide)
    push_cast at h
    exact h

/-- The number of `L`. -/
def order : ℕ := (value 8 L).toNat

/-- The base point in integers. -/
def baseExtended : Extended ℤ := ⟨num X, num Y, 1, num X * num Y⟩

theorem baseExtended_represents :
    (baseExtended.map (Int.castRingHom Fp)).Represents B where
  ne_zero := by simp [baseExtended, Extended.map]
  X_eq := by simp [baseExtended, Extended.map, B, residue]
  Y_eq := by simp [baseExtended, Extended.map, B, residue]
  T_eq := by simp [baseExtended, Extended.map, B, residue]

/-- **The order of the base point divides `L`.** The multiple is computed in extended
coordinates: its first coordinate vanishes, and its second is the third. -/
theorem order_smul_B : order • B = 0 := by
  have hzero : ((Extended.zero : Extended ℤ).map (Int.castRingHom Fp)).Represents
      (0 : Point25519) := by
    simpa [Extended.map, Extended.zero] using Extended.zero_represents (d := d25519)
  have hlt : order < 2 ^ 256 := by decide
  have hrep := Extended.multiple_represents (m := p25519) (d := num D) (c := d25519) rfl 256 hlt
    hzero baseExtended_represents
  rw [zero_add] at hrep
  have hX : (Extended.multiple p25519 (num D) 256 .zero baseExtended order).X = 0 := by
    decide +kernel
  have hYZ : (Extended.multiple p25519 (num D) 256 .zero baseExtended order).Y =
      (Extended.multiple p25519 (num D) 256 .zero baseExtended order).Z := by
    decide +kernel
  refine Extended.eq_zero_of_represents hrep ?_ ?_
  · exact (congrArg (Int.castRingHom Fp) hX).trans (map_zero _)
  · exact congrArg (Int.castRingHom Fp) hYZ

end TweetNacl

end Llamaste
