import Mathlib

/-!
# Large primes

A number is prime when a base has the full order modulo it, which Lucas's test reads off
the primes that divide its predecessor. The powers are computed by squaring, so that the
test can be evaluated for numbers of hundreds of bits.

## Main results

* `Primality.natCast_powMod`: a computed power is the power in `ZMod`.
* `Primality.prime_of_passes`: what passes the test with prime factors is prime.
-/

namespace Primality

/-- `acc * a ^ n % m` by squaring, for an exponent of up to `bits` bits. -/
def powMod (m : ℕ) : (bits acc a n : ℕ) → ℕ
  | 0, acc, _, _ => acc % m
  | bits + 1, acc, a, n =>
      powMod m bits (if n % 2 = 1 then acc * a % m else acc) (a * a % m) (n / 2)

theorem natCast_powMod (m bits acc a : ℕ) {n : ℕ} (hn : n < 2 ^ bits) :
    (powMod m bits acc a n : ZMod m) = acc * (a : ZMod m) ^ n := by
  induction bits generalizing acc a n with
  | zero =>
    obtain rfl : n = 0 := Nat.lt_one_iff.mp hn
    rw [powMod, ZMod.natCast_mod, pow_zero, mul_one]
  | succ bits ih =>
    have hhalf : n / 2 < 2 ^ bits := by
      rw [pow_succ] at hn
      omega
    have hsplit : (a : ZMod m) ^ n = (a : ZMod m) ^ (n % 2) * ((a : ZMod m) * a) ^ (n / 2) := by
      rw [← pow_two, ← pow_mul, ← pow_add, Nat.mod_add_div]
    rw [powMod, ih _ _ hhalf, ZMod.natCast_mod, Nat.cast_mul, hsplit]
    rcases Nat.mod_two_eq_zero_or_one n with h | h
    · rw [h, if_neg (by decide), pow_zero, one_mul]
    · rw [h, if_pos rfl, ZMod.natCast_mod, Nat.cast_mul, pow_one, mul_assoc]

/-- Lucas's test of `p` with the base `a`, for the factors `qs` of `p - 1`. -/
def passes (bits p a : ℕ) (qs : List ℕ) : Bool :=
  1 < p && p ≤ 2 ^ bits && qs.prod == p - 1 && powMod p bits 1 a (p - 1) == 1 &&
    qs.all fun q => powMod p bits 1 a ((p - 1) / q) != 1 && powMod p bits 1 a ((p - 1) / q) < p

/-- **What passes the test with prime factors is prime.** -/
theorem prime_of_passes {p : ℕ} (bits a : ℕ) (qs : List ℕ) (hqs : ∀ q ∈ qs, q.Prime)
    (h : passes bits p a qs = true) : p.Prime := by
  simp only [passes, Bool.and_eq_true, decide_eq_true_eq, beq_iff_eq, bne_iff_ne,
    List.all_eq_true] at h
  obtain ⟨⟨⟨⟨hone, hbits⟩, hprod⟩, hfull⟩, hparts⟩ := h
  have hpow : ∀ n ≤ p - 1, (a : ZMod p) ^ n = (powMod p bits 1 a n : ℕ) := fun n hn => by
    rw [natCast_powMod p bits 1 a (by omega), Nat.cast_one, one_mul]
  refine lucas_primality p (a : ZMod p) ?_ fun q hq hdvd => ?_
  · rw [hpow _ le_rfl, hfull, Nat.cast_one]
  · obtain ⟨r, hr, hqr⟩ := (Prime.dvd_prod_iff hq.prime).mp (hprod ▸ hdvd)
    obtain rfl : q = r := (Nat.prime_dvd_prime_iff_eq hq (hqs r hr)).mp hqr
    obtain ⟨hne, hlt⟩ := hparts q hr
    rw [hpow _ (Nat.div_le_self _ _)]
    intro heq
    have hmod := (ZMod.natCast_eq_natCast_iff' _ 1 p).mp (heq.trans Nat.cast_one.symm)
    rw [Nat.mod_eq_of_lt hlt, Nat.mod_eq_of_lt hone] at hmod
    exact hne hmod

end Primality
