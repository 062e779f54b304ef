import Llamaste.TweetCurve

/-!
# Field elements as bytes

A field element is encoded in 32 bytes. The code carries three times, so that the limbs
become digits, and subtracts the modulus up to twice, limb by limb with a borrow; a swap by
masks keeps the difference unless it borrowed.

Source: `tweetnacl.c`, `vn`, `crypto_verify_32`, `sel25519` to `unpack25519`.

## Main results

* `pack25519_spec`: the encoding is that of the canonical residue, for any element whose
  limbs are up to `2 ^ 62`.
* `unpack25519_spec`: decoding ignores the highest bit.
* `neq25519_spec`, `par25519_spec`: the comparison and the parity are those of residues.
* `cryptoVerify32_iff`: the comparison of bytes.
-/

namespace Llamaste

namespace TweetNacl

open CInt Limbs LittleEndian

/-! ### The code -/

/-- The conversion to `u8`. -/
def u8 (n : ℤ) : UInt8 := UInt8.ofNat (n % 2 ^ 8).toNat

/-- `n[i]` of a byte array. -/
def byteAt (bs : Bytes) (i : ℕ) : UInt8 := bs.getD i 0

/-- `vn`, with the arithmetic of the unsigned 64-bit `u32`. -/
def vn (x y : Bytes) (n : ℕ) : ℤ :=
  let d := (List.range n).foldl
    (fun (d : UInt64) i => d ||| (byteAt x i ^^^ byteAt y i).toUInt64) 0
  toInt32 (((1 : UInt64) &&& ((d - 1) >>> 8)) - 1).toNat

/-- `crypto_verify_32`. -/
def cryptoVerify32 (x y : Bytes) : ℤ := vn x y 32

/-- `sel25519`: `b` is 0 or 1. -/
def sel25519 (p q : Gf) (b : ℤ) : Gf × Gf :=
  let c := Int.lnot (b - 1)
  let t := fun i => Int.land c (Int.xor (get p i) (get q i))
  ((List.range 16).map fun i => Int.xor (get p i) (t i),
    (List.range 16).map fun i => Int.xor (get q i) (t i))

/-- The inner loop of a subtraction of the modulus in `pack25519`, for limb `i + 1`. -/
def borrowRound (t : Gf) (i : ℕ) (m : Gf) : Option Gf := do
  let x ← i64 (get t (i + 1) - 0xffff - get m i / 2 ^ 16 % 2)
  let m := m.set (i + 1) x
  some (m.set i (get m i % 2 ^ 16))

/-- A round of `FOR(j,2)` in `pack25519`: the difference goes to `m`, and is swapped with `t`
when it did not borrow. Every limb of `m` is written before it is read. -/
def subtractRound (tm : Gf × Gf) : Option (Gf × Gf) := do
  let (t, m) := tm
  let x ← i64 (get t 0 - 0xffed)
  let m ← Loop.up 14 (borrowRound t) (m.set 0 x)
  let y ← i64 (get t 15 - 0x7fff - get m 14 / 2 ^ 16 % 2)
  let m := m.set 15 y
  let b := get m 15 / 2 ^ 16 % 2
  some (sel25519 t (m.set 14 (get m 14 % 2 ^ 16)) (1 - b))

/-- `o[2*i]=t[i]&0xff; o[2*i+1]=t[i]>>8`. -/
def limbBytes (t : Gf) (i : ℕ) : Bytes := [u8 (get t i % 2 ^ 8), u8 (get t i / 2 ^ 8)]

/-- `pack25519`. -/
def pack25519 (n : Gf) : Option Bytes := do
  let t ← car25519 n
  let t ← car25519 t
  let t ← car25519 t
  let tm ← subtractRound (t, List.replicate 16 0)
  let tm ← subtractRound tm
  some ((List.range 16).flatMap (limbBytes tm.1))

/-- `neq25519`. -/
def neq25519 (a b : Gf) : Option ℤ := do
  let c ← pack25519 a
  let d ← pack25519 b
  some (cryptoVerify32 c d)

/-- `par25519`. -/
def par25519 (a : Gf) : Option UInt8 := do
  let d ← pack25519 a
  some (byteAt d 0 &&& 1)

/-- `n[2*i]+((i64)n[2*i+1]<<8)`. -/
def limbOf (n : Bytes) (i : ℕ) : ℤ :=
  ((byteAt n (2 * i)).toNat + (byteAt n (2 * i + 1)).toNat * 2 ^ 8 : ℤ)

/-- `unpack25519`. -/
def unpack25519 (n : Bytes) : Gf :=
  let o := (List.range 16).map (limbOf n)
  o.set 15 (get o 15 % 2 ^ 15)

/-! ### Comparing -/

/-- The mask of the differences between two arrays. -/
theorem differences_spec (x y : Bytes) (n : ℕ) :
    let d := (List.range n).foldl
      (fun (d : UInt64) i => d ||| (byteAt x i ^^^ byteAt y i).toUInt64) 0
    d.toNat < 2 ^ 8 ∧ (d = 0 ↔ ∀ i < n, byteAt x i = byteAt y i) := by
  induction n with
  | zero => exact ⟨Nat.pos_of_neZero _, fun _ i hi => absurd hi (Nat.not_lt_zero i), fun _ => rfl⟩
  | succ n ih =>
    obtain ⟨hlt, hiff⟩ := ih
    simp only [List.range_succ, List.foldl_append, List.foldl_cons, List.foldl_nil]
    constructor
    · rw [UInt64.toNat_or]
      exact Nat.or_lt_two_pow hlt (UInt8.toNat_lt _)
    · rw [UInt64.or_eq_zero_iff, hiff, Nat.forall_lt_succ_right]
      refine and_congr_right fun _ => ?_
      rw [← UInt8.xor_eq_zero_iff, ← UInt8.toNat_inj, ← UInt64.toNat_inj, UInt8.toNat_toUInt64]
      rfl

theorem vn_of_lt : ∀ d < 2 ^ 8,
    toInt32 (((1 : UInt64) &&& ((UInt64.ofNat d - 1) >>> 8)) - 1).toNat =
      if d = 0 then 0 else -1 := by
  decide +kernel

/-- `vn` is zero for equal bytes and minus one for others. -/
theorem vn_eq (x y : Bytes) (n : ℕ) :
    vn x y n = if ∀ i < n, byteAt x i = byteAt y i then 0 else -1 := by
  obtain ⟨hlt, hiff⟩ := differences_spec x y n
  have hd := vn_of_lt _ hlt
  rw [UInt64.ofNat_toNat] at hd
  rw [vn, hd]
  refine if_congr ?_ rfl rfl
  rw [← hiff, ← UInt64.toNat_inj]
  rfl

/-- **The comparison of 32 bytes.** -/
theorem cryptoVerify32_iff {x y : Bytes} (hx : x.length = 32) (hy : y.length = 32) :
    cryptoVerify32 x y = 0 ↔ x = y := by
  rw [cryptoVerify32, vn_eq]
  constructor
  · intro h
    have hall : ∀ i < 32, byteAt x i = byteAt y i := by
      by_contra hne
      rw [if_neg hne] at h
      exact absurd h (by decide)
    refine List.ext_getElem (hx.trans hy.symm) fun i hi hi' => ?_
    have := hall i (hx ▸ hi)
    rwa [byteAt, byteAt, List.getD_eq_getElem x 0 hi, List.getD_eq_getElem y 0 hi'] at this
  · rintro rfl
    rw [if_pos fun _ _ => rfl]

/-! ### Swapping -/

theorem land_zero_left (n : ℤ) : Int.land 0 n = 0 := by
  cases n with
  | ofNat n => exact congrArg Int.ofNat (Nat.zero_and n)
  | negSucc n => exact congrArg Int.ofNat (by simp [Nat.ldiff])

theorem land_neg_one_left (n : ℤ) : Int.land (-1) n = n := by
  cases n with
  | ofNat n => exact congrArg Int.ofNat (by simp [Nat.ldiff])
  | negSucc n => exact congrArg Int.negSucc (Nat.zero_or n)

theorem xor_zero_right (n : ℤ) : Int.xor n 0 = n := by
  cases n with
  | ofNat n => exact congrArg Int.ofNat (Nat.xor_zero n)
  | negSucc n => exact congrArg Int.negSucc (Nat.xor_zero n)

theorem xor_cancel_left (m n : ℤ) : Int.xor m (Int.xor m n) = n := by
  cases m <;> cases n <;> simp [Int.xor]

theorem xor_cancel_right (m n : ℤ) : Int.xor n (Int.xor m n) = m := by
  cases m <;> cases n <;> simp [Int.xor]

theorem map_get_range {a : Gf} (h : a.length = 16) : (List.range 16).map (get a) = a := by
  refine List.ext_getElem (by simp [h]) fun i hi hi' => ?_
  rw [List.getElem_map, List.getElem_range, Limbs.get, List.getD_eq_getElem a 0 hi']

/-- `sel25519` swaps exactly when its bit is set. -/
theorem sel25519_zero {p q : Gf} (hp : p.length = 16) (hq : q.length = 16) :
    sel25519 p q 0 = (p, q) := by
  have hmask : Int.lnot (0 - 1) = 0 := by decide
  simp only [sel25519, hmask, land_zero_left, xor_zero_right]
  exact Prod.ext (map_get_range hp) (map_get_range hq)

theorem sel25519_one {p q : Gf} (hp : p.length = 16) (hq : q.length = 16) :
    sel25519 p q 1 = (q, p) := by
  have hmask : Int.lnot (1 - 1) = -1 := by decide
  simp only [sel25519, hmask, land_neg_one_left, xor_cancel_left, xor_cancel_right]
  exact Prod.ext (map_get_range hq) (map_get_range hp)

/-! ### Subtracting the modulus -/

/-- An element whose limbs are the digits of its number. -/
structure Digits (t : Gf) : Prop where
  length : t.length = 16
  digit : ∀ i < 16, 0 ≤ get t i ∧ get t i < 2 ^ 16

theorem Digits.num_eq_sum {t : Gf} (h : Digits t) :
    num t = ∑ i ∈ Finset.range 16, get t i * 2 ^ (16 * i) := by
  rw [num, value_eq_sum, h.length]

theorem Digits.num_range {t : Gf} (h : Digits t) : 0 ≤ num t ∧ num t < 2 ^ 256 := by
  have hdigits : ∀ x ∈ t, 0 ≤ x ∧ x < 2 ^ 16 := fun x hx => by
    obtain ⟨i, hi, rfl⟩ := exists_get_of_mem hx
    exact h.digit i (h.length ▸ hi)
  have hrange := value_of_digits hdigits
  rwa [h.length] at hrange

/-- The limbs of the modulus. -/
def modulusLimb (i : ℕ) : ℤ := if i = 0 then 0xffed else if i = 15 then 0x7fff else 0xffff

theorem sum_modulusLimb : ∑ i ∈ Finset.range 16, modulusLimb i * 2 ^ (16 * i) = p25519 := by
  decide

/-- The state of a subtraction from `t` behind limb `k`: the limbs before it are digits, it
itself shows whether it borrows, and all together are the difference so far. -/
structure Borrowing (t : Gf) (k : ℕ) (m : Gf) : Prop where
  length : m.length = 16
  digit : ∀ i < k, 0 ≤ get m i ∧ get m i < 2 ^ 16
  limb : -2 ^ 16 ≤ get m k ∧ get m k < 2 ^ 16
  sum : ∑ i ∈ Finset.range (k + 1), get m i * 2 ^ (16 * i) =
    ∑ i ∈ Finset.range (k + 1), (get t i - modulusLimb i) * 2 ^ (16 * i)

/-- One limb more: the borrow of the limb before is taken, and that limb made a digit. -/
theorem Borrowing.next {t m : Gf} {k : ℕ} (hk : k < 15) (h : Borrowing t k m) :
    let x := get t (k + 1) - modulusLimb (k + 1) - get m k / 2 ^ 16 % 2
    let m' := (m.set (k + 1) x).set k (get m k % 2 ^ 16)
    m'.length = 16 ∧ (∀ i < k + 1, 0 ≤ get m' i ∧ get m' i < 2 ^ 16) ∧ get m' (k + 1) = x ∧
      ∑ i ∈ Finset.range (k + 2), get m' i * 2 ^ (16 * i) =
        ∑ i ∈ Finset.range (k + 2), (get t i - modulusLimb i) * 2 ^ (16 * i) := by
  intro x m'
  have hlen := h.length
  have hlimb := h.limb
  have hget : ∀ i, get m' i =
      if i = k then get m k % 2 ^ 16 else if i = k + 1 then x else get m i := fun i => by
    rw [get_set (by simp; omega), get_set (by omega)]
  have hlow : ∑ i ∈ Finset.range k, get m' i * 2 ^ (16 * i) =
      ∑ i ∈ Finset.range k, get m i * 2 ^ (16 * i) :=
    Finset.sum_congr rfl fun i hi => by
      have := Finset.mem_range.mp hi
      rw [hget, if_neg (by omega), if_neg (by omega)]
  have hsum := h.sum
  rw [Finset.sum_range_succ] at hsum
  have hborrow : get m k % 2 ^ 16 = get m k + 2 ^ 16 * (get m k / 2 ^ 16 % 2) := by omega
  refine ⟨by simp [m', hlen], fun i hi => ?_, ?_, ?_⟩
  · rw [hget]
    split_ifs with h1 h2
    · omega
    · omega
    · exact h.digit i (by omega)
  · rw [hget, if_neg (by omega), if_pos rfl]
  · rw [Finset.sum_range_succ, Finset.sum_range_succ, hlow, hget, if_pos rfl, hget,
      if_neg (by omega), if_pos rfl, hborrow, Finset.sum_range_succ _ (k + 1), ← hsum,
      Nat.mul_succ, pow_add]
    ring

theorem Borrowing.step {t m : Gf} {k : ℕ} (ht : Digits t) (hk : k < 14) (h : Borrowing t k m) :
    ∃ m', borrowRound t k m = some m' ∧ Borrowing t (k + 1) m' := by
  have hlimb := h.limb
  have hdigit := ht.digit (k + 1) (by omega)
  have hmod : modulusLimb (k + 1) = 0xffff := by
    rw [modulusLimb, if_neg (by omega), if_neg (by omega)]
  obtain ⟨hlen', hdigit', hx, hsum⟩ := h.next (by omega)
  rw [hmod] at hlen' hdigit' hx hsum
  set x := get t (k + 1) - 0xffff - get m k / 2 ^ 16 % 2 with hxdef
  have hlen := h.length
  have hgetk : get (m.set (k + 1) x) k = get m k := by rw [get_set (by omega), if_neg (by omega)]
  have hx64 : FitsInt64 x := by unfold FitsInt64; omega
  refine ⟨(m.set (k + 1) x).set k (get m k % 2 ^ 16), ?_, hlen', hdigit', ?_, hsum⟩
  · rw [borrowRound, ← hxdef]
    exact Loop.bind_of (i64_of_fits hx64)
      (congrArg (fun y => some ((m.set (k + 1) x).set k (y % 2 ^ 16))) hgetk)
  · rw [hx]
    omega

/-- The first limb of a difference. -/
theorem borrowing_zero {t m : Gf} (ht : Digits t) (hm : m.length = 16) :
    Borrowing t 0 (m.set 0 (get t 0 - 0xffed)) := by
  have hget : get (m.set 0 (get t 0 - 0xffed)) 0 = get t 0 - 0xffed := by
    rw [get_set (by omega), if_pos rfl]
  have hdigit := ht.digit 0 (by decide)
  refine ⟨by rw [List.length_set, hm], fun i hi => absurd hi (Nat.not_lt_zero i), ?_, ?_⟩
  · rw [hget]
    omega
  · rw [Finset.sum_range_one, Finset.sum_range_one, hget, modulusLimb, if_pos rfl]

/-- **One conditional subtraction of the modulus.** -/
theorem subtractRound_spec {t m : Gf} (ht : Digits t) (hm : m.length = 16) :
    ∃ t' m', subtractRound (t, m) = some (t', m') ∧ Digits t' ∧ m'.length = 16 ∧
      num t' = if num t < p25519 then num t else num t - p25519 := by
  have hdigit0 := ht.digit 0 (by decide)
  have hdigit15 := ht.digit 15 (by decide)
  have hx64 : FitsInt64 (get t 0 - 0xffed) := by unfold FitsInt64; omega
  obtain ⟨u, hu, hborrowing⟩ := Loop.up_spec (P := Borrowing t) (borrowing_zero ht hm)
    fun k u hk h => h.step ht hk
  obtain ⟨hlen, hdigits, hlast, hsum⟩ := hborrowing.next (by decide)
  have hmod : modulusLimb (14 + 1) = 0x7fff := by decide
  rw [hmod] at hlen hdigits hlast hsum
  have hlimb := hborrowing.limb
  have hulen := hborrowing.length
  set y := get t 15 - 0x7fff - get u 14 / 2 ^ 16 % 2 with hy
  have hy64 : FitsInt64 y := by unfold FitsInt64; omega
  set d := (u.set 15 y).set 14 (get u 14 % 2 ^ 16) with hd
  have hget15 : get (u.set 15 y) 15 = y := by rw [get_set (by omega), if_pos rfl]
  have hget14 : get (u.set 15 y) 14 = get u 14 := by rw [get_set (by omega), if_neg (by decide)]
  have hround : subtractRound (t, m) = some (sel25519 t d (1 - y / 2 ^ 16 % 2)) := by
    rw [subtractRound]
    refine Loop.bind_of (i64_of_fits hx64) (Loop.bind_of hu (Loop.bind_of (i64_of_fits hy64) ?_))
    refine congrArg some ?_
    show sel25519 t ((u.set 15 y).set 14 (get (u.set 15 y) 14 % 2 ^ 16))
      (1 - get (u.set 15 y) 15 / 2 ^ 16 % 2) = _
    rw [hget15, hget14]
  -- The difference: fifteen digits below the last limb, whose sign is that of the whole.
  have hnum : num d = num t - p25519 := by
    rw [num, value_eq_sum, hlen, hsum, ht.num_eq_sum, ← sum_modulusLimb,
      ← Finset.sum_sub_distrib]
    simp only [sub_mul]
  have hlow : ∀ x ∈ d.take 15, 0 ≤ x ∧ x < 2 ^ 16 := by
    intro x hx
    obtain ⟨i, hi, rfl⟩ := exists_get_of_mem hx
    rw [List.length_take, hlen] at hi
    rw [get_take (by omega)]
    exact hdigits i (by omega)
  have hrange := value_of_digits hlow
  rw [List.length_take, hlen, show 16 * min 15 16 = 240 by decide] at hrange
  have hsplit : num d = value 16 (d.take 15) + y * 2 ^ 240 := by
    have hall : d.take (15 + 1) = d := List.take_of_length_le hlen.le
    rw [num, ← congrArg (value 16) hall, value_take_succ]
    exact congrArg (fun z => value 16 (d.take 15) + z * 2 ^ 240) hlast
  by_cases hlt : num t < p25519
  · have hneg : y / 2 ^ 16 % 2 = 1 := by omega
    refine ⟨t, d, ?_, ht, hlen, (if_pos hlt).symm⟩
    rw [hround, hneg]
    exact congrArg some (sel25519_zero ht.length hlen)
  · have hnonneg : y / 2 ^ 16 % 2 = 0 := by omega
    refine ⟨d, t, ?_, ⟨hlen, fun i hi => ?_⟩, ht.length, by rw [if_neg hlt, hnum]⟩
    · rw [hround, hnonneg]
      exact congrArg some (sel25519_one ht.length hlen)
    · by_cases h15 : i = 15
      · subst h15
        rw [hlast]
        omega
      · exact hdigits i (by omega)

/-! ### Packing -/

/-- The bytes of the limbs are those of the number. -/
theorem number_limbBytes {t : Gf} (ht : Digits t) {k : ℕ} (hk : k ≤ 16) :
    ((List.range k).flatMap (limbBytes t)).length = 2 * k ∧
      (number ((List.range k).flatMap (limbBytes t)) : ℤ) =
        ∑ i ∈ Finset.range k, get t i * 2 ^ (16 * i) := by
  induction k with
  | zero => exact ⟨rfl, rfl⟩
  | succ k ih =>
    obtain ⟨hlen, hnum⟩ := ih (by omega)
    have hdigit := ht.digit k (by omega)
    have hpow : (256 : ℤ) ^ (2 * k) = 2 ^ (16 * k) := by
      rw [show (256 : ℤ) = 2 ^ 8 by norm_num, ← pow_mul]
      congr 1
      ring
    have hlimb : (number (limbBytes t k) : ℤ) = get t k := by
      simp only [limbBytes, number, u8, UInt8.toNat_ofNat', Nat.mul_zero, Nat.add_zero]
      omega
    simp only [List.range_succ, List.flatMap_append, List.flatMap_singleton]
    constructor
    · rw [List.length_append, hlen]
      rfl
    · rw [number_append, hlen, Nat.cast_add, hnum, Nat.cast_mul, Nat.cast_pow, hlimb,
        Finset.sum_range_succ, ← hpow]
      push_cast
      ring

/-- **Encoding.** The bytes are those of the canonical residue. -/
theorem pack25519_spec {n : Gf} (hn : Within (2 ^ 62) n) :
    pack25519 n = some (bytes 32 (residue n).val) := by
  obtain ⟨o, o', ho, ho', hcarried, hquot, hcarried', hwithin, hresidue⟩ := car25519_twice hn
  obtain ⟨t, ht, hthird⟩ := car25519_spec (hwithin.mono (by norm_num))
  -- Behind two carries the number fits, so that the third leaves its digits.
  have hfits : num o' / 2 ^ 256 = 0 := by
    have h1 := hcarried.value
    have h2 := hcarried'.value
    have h3 := abs_le.mp hquot
    omega
  have hdigits : Digits t := by
    refine ⟨hthird.length, fun i hi => ?_⟩
    by_cases h0 : i = 0
    · subst h0
      have := hthird.lowest
      omega
    · exact hthird.digit i hi h0
  obtain ⟨t₁, m₁, hround₁, hdigits₁, hlen₁, hnum₁⟩ :=
    subtractRound_spec hdigits (m := List.replicate 16 0) rfl
  obtain ⟨t₂, m₂, hround₂, hdigits₂, -, hnum₂⟩ := subtractRound_spec hdigits₁ hlen₁
  have hrange := hdigits.num_range
  have hcanonical : 0 ≤ num t₂ ∧ num t₂ < p25519 := by
    have := hdigits₂.num_range
    have hp : (p25519 : ℤ) = 2 ^ 255 - 19 := by norm_num
    rw [hp] at hnum₁ hnum₂ ⊢
    split_ifs at hnum₁ hnum₂ <;> omega
  have hres : residue t₂ = residue n := by
    have hsub : ∀ {a b : ℤ}, (b = if a < p25519 then a else a - p25519) → (b : Fp) = a := by
      intro a b h
      rw [h]
      split_ifs
      · rfl
      · rw [Int.cast_sub, Int.cast_natCast, ZMod.natCast_self, sub_zero]
    rw [residue, hsub hnum₂, hsub hnum₁, ← residue, hthird.residue_eq, ← residue, hresidue]
  have hval : ((residue n).val : ℤ) = num t₂ := by
    rw [← hres, residue, ZMod.val_intCast, Int.emod_eq_of_lt hcanonical.1 hcanonical.2]
  obtain ⟨hlen, hnumber⟩ := number_limbBytes hdigits₂ le_rfl
  have hbytes : (List.range 16).flatMap (limbBytes t₂) = bytes 32 (residue n).val := by
    refine number_inj (by rw [hlen, length_bytes]) ?_
    rw [number_bytes, Nat.mod_eq_of_lt ((ZMod.val_lt _).trans (by norm_num))]
    apply Int.ofNat.inj
    exact hnumber.trans (hdigits₂.num_eq_sum.symm.trans hval.symm)
  rw [← hbytes]
  exact Loop.bind_of ho (Loop.bind_of ho' (Loop.bind_of ht (Loop.bind_of hround₁
    (Loop.bind_of hround₂ rfl))))

theorem bytes_val_inj {x y : Fp} : bytes 32 x.val = bytes 32 y.val ↔ x = y := by
  have hlt : ∀ z : Fp, z.val % 256 ^ 32 = z.val := fun z =>
    Nat.mod_eq_of_lt ((ZMod.val_lt z).trans (by norm_num))
  constructor
  · intro h
    have hnumber := congrArg number h
    rw [number_bytes, number_bytes, hlt, hlt] at hnumber
    exact ZMod.val_injective _ hnumber
  · rintro rfl
    rfl

/-- The comparison of elements is that of their residues. -/
theorem neq25519_spec {a b : Gf} (ha : Within (2 ^ 62) a) (hb : Within (2 ^ 62) b) :
    ∃ r, neq25519 a b = some r ∧ (r = 0 ↔ residue a = residue b) := by
  refine ⟨_, Loop.bind_of (pack25519_spec ha) (Loop.bind_of (pack25519_spec hb) rfl), ?_⟩
  rw [cryptoVerify32_iff (length_bytes _ _) (length_bytes _ _), bytes_val_inj]

/-- The parity of an element is that of its canonical residue. -/
theorem par25519_spec {a : Gf} (ha : Within (2 ^ 62) a) :
    par25519 a = some (UInt8.ofNat ((residue a).val % 2)) := by
  refine Loop.bind_of (pack25519_spec ha) (congrArg some ?_)
  apply UInt8.toNat_inj.mp
  show (UInt8.ofNat (residue a).val &&& 1).toNat = _
  rw [UInt8.toNat_and, UInt8.toNat_ofNat', UInt8.toNat_ofNat']
  show ((residue a).val % 2 ^ 8) &&& (2 ^ 1 - 1) = _
  rw [Nat.and_two_pow_sub_one_eq_mod]
  omega

/-! ### Unpacking -/

theorem limbOf_range (n : Bytes) (i : ℕ) : 0 ≤ limbOf n i ∧ limbOf n i < 2 ^ 16 := by
  have h0 : (byteAt n (2 * i)).toNat < 256 := (byteAt n (2 * i)).toNat_lt
  have h1 : (byteAt n (2 * i + 1)).toNat < 256 := (byteAt n (2 * i + 1)).toNat_lt
  unfold limbOf
  omega

/-- The limbs of bytes have their number. -/
theorem value_limbOf {n : Bytes} {k : ℕ} (hn : n.length = 2 * k) :
    value 16 ((List.range k).map (limbOf n)) = number n := by
  induction k generalizing n with
  | zero =>
    obtain rfl : n = [] := List.length_eq_zero_iff.mp hn
    rfl
  | succ k ih =>
    match n, hn with
    | b :: c :: n, hn =>
      have hlen : n.length = 2 * k := by
        simp only [List.length_cons] at hn
        omega
      have hshift : limbOf (b :: c :: n) ∘ Nat.succ = limbOf n := rfl
      rw [List.range_succ_eq_map, List.map_cons, List.map_map, hshift, value_cons, ih hlen]
      simp only [limbOf, byteAt, number, List.getD_cons_zero, List.getD_cons_succ, Nat.mul_zero,
        Nat.zero_add]
      push_cast
      ring

/-- **Decoding.** The limbs are digits, and stand for the number of the bytes without its
highest bit. Nothing asks for a canonical residue. -/
theorem unpack25519_spec {n : Bytes} (hn : n.length = 32) :
    Within (2 ^ 16) (unpack25519 n) ∧
      residue (unpack25519 n) = ((number n % 2 ^ 255 : ℕ) : Fp) := by
  set o := (List.range 16).map (limbOf n) with ho
  have hlen : o.length = 16 := by simp [ho]
  have hget : ∀ i < 16, get o i = limbOf n i := fun i hi => get_map_range hi
  have hnum : num o = number n := value_limbOf hn
  have hunpack : unpack25519 n = o.set 15 (get o 15 % 2 ^ 15) := rfl
  have hlast := limbOf_range n 15
  have hdigits : ∀ x ∈ o.take 15, 0 ≤ x ∧ x < 2 ^ 16 := by
    intro x hx
    obtain ⟨i, hi, rfl⟩ := exists_get_of_mem hx
    rw [List.length_take, hlen] at hi
    rw [get_take (by omega), hget i (by omega)]
    exact limbOf_range n i
  constructor
  · refine ⟨by rw [hunpack, List.length_set, hlen], fun i hi => ?_⟩
    rw [hunpack, get_set (by omega), hget 15 (by decide), hget i hi, abs_le]
    have := limbOf_range n i
    split_ifs <;> omega
  · have hlow := value_of_digits hdigits
    rw [List.length_take, hlen, show 16 * min 15 16 = 240 by decide] at hlow
    have hsplit : num o = value 16 (o.take 15) + get o 15 * 2 ^ 240 := by
      have hall : o.take (15 + 1) = o := List.take_of_length_le hlen.le
      rw [num, ← congrArg (value 16) hall, value_take_succ]
    have hmod : num (unpack25519 n) = ((number n % 2 ^ 255 : ℕ) : ℤ) := by
      rw [hunpack, num, value_set (by omega), ← num]
      rw [hget 15 (by decide)] at hsplit ⊢
      push_cast
      rw [← hnum]
      omega
    rw [residue, hmod, Int.cast_natCast]

/-- The sign of an encoded point. -/
theorem byteAt_shift {n : Bytes} (hn : n.length = 32) :
    (byteAt n 31 >>> 7).toNat = number n / 2 ^ 255 := by
  have hbyte := number_div_mod n 31
  have hlt := number_lt n
  rw [hn] at hlt
  have hpow : number n / 2 ^ 255 = number n / 256 ^ 31 / 2 ^ 7 := by
    rw [Nat.div_div_eq_div_mul, show 256 ^ 31 * 2 ^ 7 = 2 ^ 255 by norm_num]
  rw [UInt8.toNat_shiftRight, Nat.shiftRight_eq_div_pow, byteAt, ← hbyte, hpow]
  congr 1
  omega

end TweetNacl

end Llamaste
