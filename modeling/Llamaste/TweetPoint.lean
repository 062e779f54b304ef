import Llamaste.TweetEncoding

/-!
# The group of the update signatures

The code adds points in extended coordinates, multiplies by a scalar with a ladder of swaps,
and encodes a point by its second coordinate and the parity of its first.

Source: `tweetnacl.c`, `add` to `scalarbase`, and `unpackneg`.

## Main results

* `add_spec`, `scalarmult_spec`: the operations never overflow, and are those of the group.
* `pack_spec`: the encoding of a point.
* `unpackneg_spec`: it fails exactly for bytes that no point decodes to, and gives the
  negative of the point otherwise.
-/

namespace Llamaste

namespace TweetNacl

open Limbs LittleEndian Edwards

/-! ### The code -/

/-- `gf p[4]`. -/
structure Ge where
  x : Gf
  y : Gf
  z : Gf
  t : Gf

/-- `add`. -/
def add (p q : Ge) : Option Ge := do
  let a ← Z p.y p.x
  let t ← Z q.y q.x
  let a ← M a t
  let b ← A p.x p.y
  let t ← A q.x q.y
  let b ← M b t
  let c ← M p.t q.t
  let c ← M c D2
  let d ← M p.z q.z
  let d ← A d d
  let e ← Z b a
  let f ← Z d c
  let g ← A d c
  let h ← A b a
  let x ← M e f
  let y ← M h g
  let z ← M g f
  let t ← M e h
  some ⟨x, y, z, t⟩

/-- `cswap`. -/
def cswap (p q : Ge) (b : ℤ) : Ge × Ge :=
  let x := sel25519 p.x q.x b
  let y := sel25519 p.y q.y b
  let z := sel25519 p.z q.z b
  let t := sel25519 p.t q.t b
  (⟨x.1, y.1, z.1, t.1⟩, ⟨x.2, y.2, z.2, t.2⟩)

/-- `pack`. -/
def pack (p : Ge) : Option Bytes := do
  let zi ← inv25519 p.z
  let tx ← M p.x zi
  let ty ← M p.y zi
  let r ← pack25519 ty
  let b ← par25519 tx
  some (r.set 31 (byteAt r 31 ^^^ (b <<< 7)))

/-- The loop body of `scalarmult`. -/
def ladderRound (s : Bytes) (i : ℕ) (pq : Ge × Ge) : Option (Ge × Ge) := do
  let b : ℤ := ((byteAt s (i / 8) >>> UInt8.ofNat (i % 8)) &&& 1).toNat
  let (p, q) := cswap pq.1 pq.2 b
  let q ← add q p
  let p ← add p p
  some (cswap p q b)

/-- `scalarmult`: the product, and what becomes of `q`. -/
def scalarmult (q : Ge) (s : Bytes) : Option (Ge × Ge) :=
  Loop.down (ladderRound s) 256 (⟨gf0, gf1, gf1, gf0⟩, q)

/-- `scalarbase`. -/
def scalarbase (s : Bytes) : Option Ge := do
  let t ← M X Y
  let pq ← scalarmult ⟨X, Y, gf1, t⟩ s
  some pq.1

/-- The power of `unpackneg` that is a root of `num / den` up to a factor. -/
def rootPower (num den : Gf) : Option Gf := do
  let den2 ← S den
  let den4 ← S den2
  let den6 ← M den4 den2
  let t ← M den6 num
  let t ← M t den
  let t ← pow2523 t
  let t ← M t num
  let t ← M t den
  let t ← M t den
  M t den

/-- `S(chk,r[0]); M(chk,chk,den); neq25519(chk, num)`. -/
def rootDiffers (x num den : Gf) : Option ℤ := do
  let chk ← S x
  let chk ← M chk den
  neq25519 chk num

/-- `unpackneg`: `some none` where the code returns -1. -/
def unpackneg (p : Bytes) : Option (Option Ge) := do
  let y := unpack25519 p
  let num ← S y
  let den ← M num D
  let num ← Z num gf1
  let den ← A gf1 den
  let x ← rootPower num den
  let ne ← rootDiffers x num den
  let x ← (if ne ≠ 0 then M x I else some x)
  let ne ← rootDiffers x num den
  if ne ≠ 0 then some none
  else do
    let b ← par25519 x
    let x ← (if b = byteAt p 31 >>> 7 then Z gf0 x else some x)
    let t ← M x y
    some (some ⟨x, y, gf1, t⟩)

/-! ### Points -/

/-- The coordinates in the field. -/
def Ge.extended (p : Ge) : Extended Fp := ⟨residue p.x, residue p.y, residue p.z, residue p.t⟩

/-- Limbs within bounds that stand for a point. -/
structure Denotes (p : Ge) (P : Point25519) : Prop where
  x : Within (2 ^ 17) p.x
  y : Within (2 ^ 17) p.y
  z : Within (2 ^ 17) p.z
  t : Within (2 ^ 17) p.t
  represents : p.extended.Represents P

/-- A constant within bounds. -/
theorem within_of_all {a : Gf} {b : ℤ} (hlen : a.length = 16) (h : ∀ x ∈ a, |x| ≤ b) :
    Within b a :=
  ⟨hlen, fun _ hi => h _ (get_mem (hlen ▸ hi))⟩

theorem gf0_within : Within 0 gf0 := within_of_all rfl (by decide)

theorem gf1_within : Within (2 ^ 16) gf1 := within_of_all rfl (by decide)

theorem D_within : Within (2 ^ 16) D := within_of_all rfl (by decide)

theorem D2_within : Within (2 ^ 16) D2 := within_of_all rfl (by decide)

theorem X_within : Within (2 ^ 16) X := within_of_all rfl (by decide)

theorem Y_within : Within (2 ^ 16) Y := within_of_all rfl (by decide)

theorem I_within : Within (2 ^ 16) I := within_of_all rfl (by decide)

@[simp] theorem residue_gf0 : residue gf0 = 0 := by
  have h : num gf0 = 0 := by decide
  rw [residue, h, Int.cast_zero]

@[simp] theorem residue_gf1 : residue gf1 = 1 := by
  have h : num gf1 = 1 := by decide
  rw [residue, h, Int.cast_one]

/-! ### Adding -/

/-- Multiplication under smaller bounds. -/
theorem M_of_le {a b : Gf} {ba bb : ℤ} (ha : Within ba a) (hb : Within bb b)
    (hba : ba ≤ 2 ^ 25) (hbb : bb ≤ 2 ^ 25) :
    ∃ o, M a b = some o ∧ Within (2 ^ 17) o ∧ residue o = residue a * residue b :=
  M_spec (ha.mono hba) (hb.mono hbb)

/-- **The addition of the code** is that of the group. -/
theorem add_spec {p q : Ge} {P Q : Point25519} (hp : Denotes p P) (hq : Denotes q Q) :
    ∃ r, add p q = some r ∧ Denotes r (P + Q) := by
  obtain ⟨a₁, ha₁, wa₁, ra₁⟩ := Z_spec hp.y hp.x (by norm_num)
  obtain ⟨t₁, ht₁, wt₁, rt₁⟩ := Z_spec hq.y hq.x (by norm_num)
  obtain ⟨a, ha, wa, ra⟩ := M_of_le wa₁ wt₁ (by norm_num) (by norm_num)
  obtain ⟨b₁, hb₁, wb₁, rb₁⟩ := A_spec hp.x hp.y (by norm_num)
  obtain ⟨t₂, ht₂, wt₂, rt₂⟩ := A_spec hq.x hq.y (by norm_num)
  obtain ⟨b, hb, wb, rb⟩ := M_of_le wb₁ wt₂ (by norm_num) (by norm_num)
  obtain ⟨c₁, hc₁, wc₁, rc₁⟩ := M_of_le hp.t hq.t (by norm_num) (by norm_num)
  obtain ⟨c, hc, wc, rc⟩ := M_of_le wc₁ D2_within (by norm_num) (by norm_num)
  obtain ⟨d₁, hd₁, wd₁, rd₁⟩ := M_of_le hp.z hq.z (by norm_num) (by norm_num)
  obtain ⟨d, hd, wd, rd⟩ := A_spec wd₁ wd₁ (by norm_num)
  obtain ⟨e, he, we, re⟩ := Z_spec wb wa (by norm_num)
  obtain ⟨f, hf, wf, rf⟩ := Z_spec wd wc (by norm_num)
  obtain ⟨g, hg, wg, rg⟩ := A_spec wd wc (by norm_num)
  obtain ⟨h, hh, wh, rh⟩ := A_spec wb wa (by norm_num)
  obtain ⟨x, hx, wx, rx⟩ := M_of_le we wf (by norm_num) (by norm_num)
  obtain ⟨y, hy, wy, ry⟩ := M_of_le wh wg (by norm_num) (by norm_num)
  obtain ⟨z, hz, wz, rz⟩ := M_of_le wg wf (by norm_num) (by norm_num)
  obtain ⟨t, ht, wt, rt⟩ := M_of_le we wh (by norm_num) (by norm_num)
  refine ⟨⟨x, y, z, t⟩, ?_, wx, wy, wz, wt, ?_⟩
  · exact Loop.bind_of ha₁ (Loop.bind_of ht₁ (Loop.bind_of ha (Loop.bind_of hb₁
      (Loop.bind_of ht₂ (Loop.bind_of hb (Loop.bind_of hc₁ (Loop.bind_of hc
      (Loop.bind_of hd₁ (Loop.bind_of hd (Loop.bind_of he (Loop.bind_of hf
      (Loop.bind_of hg (Loop.bind_of hh (Loop.bind_of hx (Loop.bind_of hy
      (Loop.bind_of hz (Loop.bind_of ht rfl)))))))))))))))))
  · have hext : Ge.extended ⟨x, y, z, t⟩ = Extended.add d25519 p.extended q.extended := by
      simp only [Ge.extended, Extended.add, rx, ry, rz, rt, re, rf, rg, rh, rd, rd₁, rc, rc₁, rb,
        rb₁, rt₂, ra, ra₁, rt₁, residue_D2]
    rw [hext]
    exact Extended.add_represents hp.represents hq.represents

/-! ### Multiplying by a scalar -/

theorem cswap_zero {p q : Ge} {P Q : Point25519} (hp : Denotes p P) (hq : Denotes q Q) :
    cswap p q 0 = (p, q) := by
  simp only [cswap, sel25519_zero hp.x.length hq.x.length, sel25519_zero hp.y.length hq.y.length,
    sel25519_zero hp.z.length hq.z.length, sel25519_zero hp.t.length hq.t.length]

theorem cswap_one {p q : Ge} {P Q : Point25519} (hp : Denotes p P) (hq : Denotes q Q) :
    cswap p q 1 = (q, p) := by
  simp only [cswap, sel25519_one hp.x.length hq.x.length, sel25519_one hp.y.length hq.y.length,
    sel25519_one hp.z.length hq.z.length, sel25519_one hp.t.length hq.t.length]

/-- The bit that a round of the ladder reads. -/
theorem ladderBit (s : Bytes) {i : ℕ} (hi : i < 256) :
    ((byteAt s (i / 8) >>> UInt8.ofNat (i % 8)) &&& 1).toNat =
      number (s.take 32) / 2 ^ i % 2 := by
  have hbyte : (s.take 32).getD (i / 8) 0 = byteAt s (i / 8) := by
    rw [byteAt, List.getD_eq_getElem?_getD, List.getElem?_take_of_lt (by omega),
      ← List.getD_eq_getElem?_getD]
  have hshift : (UInt8.ofNat (i % 8)).toNat % 8 = i % 8 := by
    rw [UInt8.toNat_ofNat']
    omega
  rw [number_bit, hbyte, UInt8.toNat_and, UInt8.toNat_shiftRight, hshift,
    Nat.shiftRight_eq_div_pow]
  exact Nat.and_two_pow_sub_one_eq_mod _ 1

/-- Before a round the two points are consecutive multiples. -/
structure Ladder (Q : Point25519) (n : ℕ) (pq : Ge × Ge) : Prop where
  lower : Denotes pq.1 (n • Q)
  upper : Denotes pq.2 ((n + 1) • Q)

theorem Ladder.step {Q : Point25519} {s : Bytes} {i : ℕ} {pq : Ge × Ge} (hi : i < 256)
    (h : Ladder Q (number (s.take 32) / 2 ^ (i + 1)) pq) :
    ∃ pq', ladderRound s i pq = some pq' ∧ Ladder Q (number (s.take 32) / 2 ^ i) pq' := by
  obtain ⟨p, q⟩ := pq
  set n := number (s.take 32) / 2 ^ (i + 1) with hn
  have hsplit : number (s.take 32) / 2 ^ i = 2 * n + number (s.take 32) / 2 ^ i % 2 := by
    rw [hn, pow_succ, ← Nat.div_div_eq_div_mul]
    omega
  have hbit := ladderBit s hi
  rw [hsplit, ladderRound, hbit]
  rcases Nat.mod_two_eq_zero_or_one (number (s.take 32) / 2 ^ i) with hb | hb
  · obtain ⟨q', hq', hdq⟩ := add_spec h.upper h.lower
    obtain ⟨p', hp', hdp⟩ := add_spec h.lower h.lower
    refine ⟨(p', q'), ?_, ?_, ?_⟩
    · rw [hb, Nat.cast_zero, cswap_zero h.lower h.upper]
      exact Loop.bind_of hq' (Loop.bind_of hp' (congrArg some (cswap_zero hdp hdq)))
    · rw [hb, add_zero, two_mul, add_nsmul]
      exact hdp
    · rw [hb, show 2 * n + 0 + 1 = (n + 1) + n by omega, add_nsmul]
      exact hdq
  · obtain ⟨q', hq', hdq⟩ := add_spec h.lower h.upper
    obtain ⟨p', hp', hdp⟩ := add_spec h.upper h.upper
    refine ⟨(q', p'), ?_, ?_, ?_⟩
    · rw [hb, Nat.cast_one, cswap_one h.lower h.upper]
      exact Loop.bind_of hq' (Loop.bind_of hp' (congrArg some (cswap_one hdp hdq)))
    · rw [hb, show 2 * n + 1 = n + (n + 1) by omega, add_nsmul]
      exact hdq
    · rw [hb, show 2 * n + 1 + 1 = (n + 1) + (n + 1) by omega, add_nsmul]
      exact hdp

theorem zero_denotes : Denotes ⟨gf0, gf1, gf1, gf0⟩ 0 := by
  refine ⟨gf0_within.mono (by norm_num), gf1_within.mono (by norm_num),
    gf1_within.mono (by norm_num), gf0_within.mono (by norm_num), ?_⟩
  have hext : Ge.extended ⟨gf0, gf1, gf1, gf0⟩ = Extended.zero := by
    simp only [Ge.extended, Extended.zero, residue_gf0, residue_gf1]
  rw [hext]
  exact Extended.zero_represents

/-- **The ladder multiplies** by the number of the first 32 bytes. -/
theorem scalarmult_spec {q : Ge} {Q : Point25519} (hq : Denotes q Q) (s : Bytes) :
    ∃ r q', scalarmult q s = some (r, q') ∧ Denotes r (number (s.take 32) • Q) := by
  have hstart : Ladder Q (number (s.take 32) / 2 ^ 256) (⟨gf0, gf1, gf1, gf0⟩, q) := by
    have hlt : number (s.take 32) < 2 ^ 256 := by
      rw [number_take]
      exact (Nat.mod_lt _ (by norm_num)).trans_eq (by norm_num)
    rw [Nat.div_eq_of_lt hlt]
    exact ⟨by rw [zero_nsmul]; exact zero_denotes, by rw [zero_add, one_nsmul]; exact hq⟩
  obtain ⟨⟨r, q'⟩, hr, hladder⟩ := Loop.down_spec
    (P := fun i pq => Ladder Q (number (s.take 32) / 2 ^ i) pq) hstart fun i pq hi h => h.step hi
  refine ⟨r, q', hr, ?_⟩
  have := hladder.lower
  rwa [pow_zero, Nat.div_one] at this

/-- **The multiples of the base point.** -/
theorem scalarbase_spec (s : Bytes) :
    ∃ r, scalarbase s = some r ∧ Denotes r (number (s.take 32) • B) := by
  obtain ⟨t, ht, wt, rt⟩ := M_of_le X_within Y_within (by norm_num) (by norm_num)
  have hB : Denotes ⟨X, Y, gf1, t⟩ B := by
    refine ⟨X_within.mono (by norm_num), Y_within.mono (by norm_num),
      gf1_within.mono (by norm_num), wt, ?_⟩
    constructor
    · simp [Ge.extended]
    · simp [Ge.extended, B]
    · simp [Ge.extended, B]
    · simp [Ge.extended, B, rt]
  obtain ⟨r, q', hr, hdr⟩ := scalarmult_spec hB s
  exact ⟨r, Loop.bind_of ht (Loop.bind_of hr rfl), hdr⟩

/-! ### Encoding -/

/-- The encoding of a point. -/
def encode (P : Point25519) : Bytes := bytes 32 (P.y.val + 2 ^ 255 * (P.x.val % 2))

theorem val_lt_two_pow (x : Fp) : x.val < 2 ^ 255 := (ZMod.val_lt x).trans (by norm_num)

theorem number_encode (P : Point25519) :
    number (encode P) = P.y.val + 2 ^ 255 * (P.x.val % 2) := by
  have hy := val_lt_two_pow P.y
  rw [encode, number_bytes, Nat.mod_eq_of_lt]
  omega

theorem inv_of_pow {x : Fp} (hx : x ≠ 0) : x * x ^ (p25519 - 2) = 1 := by
  have hpow := ZMod.pow_card_sub_one_eq_one hx
  rwa [← pow_succ', show p25519 - 2 + 1 = p25519 - 1 by norm_num]

theorem xor_sign : ∀ b < 128, ∀ c < 2,
    (UInt8.ofNat b ^^^ (UInt8.ofNat c <<< 7)).toNat = b + 128 * c := by decide

/-- A sign on the highest bit of a number that leaves it free. -/
theorem number_set_sign {v c : ℕ} (hv : v < 2 ^ 255) (hc : c < 2) :
    number ((bytes 32 v).set 31 (byteAt (bytes 32 v) 31 ^^^ (UInt8.ofNat c <<< 7))) =
      v + 2 ^ 255 * c := by
  have hlen : 31 < (bytes 32 v).length := by rw [length_bytes]; decide
  have hnum : number (bytes 32 v) = v := by
    rw [number_bytes, Nat.mod_eq_of_lt]
    omega
  have hbyte := number_div_mod (bytes 32 v) 31
  rw [hnum] at hbyte
  have hset := number_set hlen (byteAt (bytes 32 v) 31 ^^^ (UInt8.ofNat c <<< 7))
  rw [hnum] at hset
  have hsmall : (byteAt (bytes 32 v) 31).toNat < 128 := by
    rw [byteAt, ← hbyte]
    omega
  have hxor := xor_sign _ hsmall c hc
  rw [UInt8.ofNat_toNat] at hxor
  rw [hxor] at hset
  have hget : (bytes 32 v).getD 31 0 = byteAt (bytes 32 v) 31 := rfl
  rw [hget] at hset
  omega

/-- **Encoding a point.** -/
theorem pack_spec {p : Ge} {P : Point25519} (hp : Denotes p P) : pack p = some (encode P) := by
  obtain ⟨zi, hzi, wzi, rzi⟩ := inv25519_spec hp.z
  obtain ⟨tx, htx, wtx, rtx⟩ := M_of_le hp.x wzi (by norm_num) (by norm_num)
  obtain ⟨ty, hty, wty, rty⟩ := M_of_le hp.y wzi (by norm_num) (by norm_num)
  obtain ⟨hz0, hX, hY, -⟩ := hp.represents
  have hinv : residue p.z * residue p.z ^ (p25519 - 2) = 1 := inv_of_pow hz0
  have hx : residue tx = P.x := by
    rw [rtx, rzi, show residue p.x = P.x * residue p.z from hX, mul_assoc, hinv, mul_one]
  have hy : residue ty = P.y := by
    rw [rty, rzi, show residue p.y = P.y * residue p.z from hY, mul_assoc, hinv, mul_one]
  refine Loop.bind_of hzi (Loop.bind_of htx (Loop.bind_of hty (Loop.bind_of
    (pack25519_spec (wty.mono (by norm_num))) (Loop.bind_of
    (par25519_spec (wtx.mono (by norm_num))) (congrArg some ?_)))))
  rw [hx, hy]
  refine number_inj (by rw [List.length_set, encode, length_bytes, length_bytes]) ?_
  rw [number_encode, number_set_sign (val_lt_two_pow P.y) (Nat.mod_lt _ (by decide))]

/-- **The bytes of a multiple** are those of the point, whatever coordinates the code multiplies. -/
theorem pack_scalarmult {q : Ge} {Q : Point25519} (hq : Denotes q Q) (s : Bytes) :
    (scalarmult q s).bind (fun rq => pack rq.1) = some (encode (number (s.take 32) • Q)) := by
  obtain ⟨r, q', hr, hdr⟩ := scalarmult_spec hq s
  rw [hr, Option.bind_some, pack_spec hdr]

theorem pack_scalarmult_zero :
    (scalarmult ⟨gf0, gf1, gf1, gf0⟩ [3]).bind (fun rq => pack rq.1) =
      some (encode (number [3] • 0)) :=
  pack_scalarmult zero_denotes [3]

/-! ### Decoding -/

/-- The points that bytes decode to: the lower bits give the second coordinate, which need not
be reduced, and the highest bit the parity of the first, unless that is zero. -/
structure Decodes (bs : Bytes) (P : Point25519) : Prop where
  y_eq : P.y = ((number bs % 2 ^ 255 : ℕ) : Fp)
  parity : P.x = 0 ∨ P.x.val % 2 = number bs / 2 ^ 255

/-- A number and its negative differ in parity. -/
theorem val_neg_parity {x : Fp} (hx : x ≠ 0) : (-x).val % 2 = 1 - x.val % 2 := by
  have hlt := ZMod.val_lt x
  have hodd : p25519 % 2 = 1 := by norm_num
  rw [ZMod.neg_val, if_neg hx]
  omega

theorem sq_eq_of_y {P Q : Point25519} (h : P.y = Q.y) : P.x = Q.x ∨ P.x = -Q.x := by
  have hP := onCurve_iff.mp P.onCurve
  have hQ := onCurve_iff.mp Q.onCurve
  rw [h] at hP
  exact sq_eq_sq_iff_eq_or_eq_neg.mp
    (mul_right_cancel₀ (denominator_ne_zero Q.y) (hP.trans hQ.symm))

/-- Bytes decode to at most one point. -/
theorem Decodes.unique {bs : Bytes} {P Q : Point25519} (hP : Decodes bs P) (hQ : Decodes bs Q) :
    P = Q := by
  have hy := hP.y_eq.trans hQ.y_eq.symm
  refine Edwards.Point.ext ?_ hy
  rcases sq_eq_of_y hy with h | h
  · exact h
  · by_cases h0 : Q.x = 0
    · rw [h, h0, neg_zero]
    · have hneg := val_neg_parity h0
      have h1 := hP.parity.resolve_left (h ▸ neg_ne_zero.mpr h0)
      have h2 := hQ.parity.resolve_left h0
      rw [h] at h1
      omega

/-- **An encoding decodes to its point.** -/
theorem decodes_encode (P : Point25519) : Decodes (encode P) P := by
  have hy := val_lt_two_pow P.y
  constructor
  · rw [number_encode, Nat.add_mul_mod_self_left, Nat.mod_eq_of_lt hy, ZMod.natCast_zmod_val]
  · right
    rw [number_encode]
    omega

theorem encode_injective {P Q : Point25519} (h : encode P = encode Q) : P = Q :=
  (h ▸ decodes_encode P : Decodes (encode Q) P).unique (decodes_encode Q)

/-- The candidate for the first coordinate. -/
theorem rootPower_spec {u v : Gf} {bu bv : ℤ} (hu : Within bu u) (hv : Within bv v)
    (hbu : bu ≤ 2 ^ 25) (hbv : bv ≤ 2 ^ 25) :
    ∃ x, rootPower u v = some x ∧ Within (2 ^ 17) x ∧ residue x = residue u * residue v ^ 3 *
      (residue u * residue v ^ 7) ^ ((p25519 - 5) / 8) := by
  obtain ⟨v₂, hv₂, wv₂, rv₂⟩ := S_spec (hv.mono hbv)
  obtain ⟨v₄, hv₄, wv₄, rv₄⟩ := S_spec (wv₂.mono (by norm_num))
  obtain ⟨v₆, hv₆, wv₆, rv₆⟩ := M_of_le wv₄ wv₂ (by norm_num) (by norm_num)
  obtain ⟨t₁, ht₁, wt₁, rt₁⟩ := M_of_le wv₆ hu (by norm_num) hbu
  obtain ⟨t₂, ht₂, wt₂, rt₂⟩ := M_of_le wt₁ hv (by norm_num) hbv
  obtain ⟨t₃, ht₃, wt₃, rt₃⟩ := pow2523_spec wt₂
  obtain ⟨t₄, ht₄, wt₄, rt₄⟩ := M_of_le wt₃ hu (by norm_num) hbu
  obtain ⟨t₅, ht₅, wt₅, rt₅⟩ := M_of_le wt₄ hv (by norm_num) hbv
  obtain ⟨t₆, ht₆, wt₆, rt₆⟩ := M_of_le wt₅ hv (by norm_num) hbv
  obtain ⟨x, hx, wx, rx⟩ := M_of_le wt₆ hv (by norm_num) hbv
  refine ⟨x, ?_, wx, ?_⟩
  · exact Loop.bind_of hv₂ (Loop.bind_of hv₄ (Loop.bind_of hv₆ (Loop.bind_of ht₁
      (Loop.bind_of ht₂ (Loop.bind_of ht₃ (Loop.bind_of ht₄ (Loop.bind_of ht₅
      (Loop.bind_of ht₆ hx))))))))
  · have hbase : residue t₂ = residue u * residue v ^ 7 := by
      rw [rt₂, rt₁, rv₆, rv₄, rv₂]
      ring
    rw [rx, rt₆, rt₅, rt₄, rt₃, hbase]
    ring

/-- The check of a candidate. -/
theorem rootDiffers_spec {x u v : Gf} {bu bv : ℤ} (hx : Within (2 ^ 17) x) (hu : Within bu u)
    (hv : Within bv v) (hbu : bu ≤ 2 ^ 25) (hbv : bv ≤ 2 ^ 25) :
    ∃ r, rootDiffers x u v = some r ∧ (r = 0 ↔ residue x ^ 2 * residue v = residue u) := by
  obtain ⟨c, hc, wc, rc⟩ := S_spec (hx.mono (by norm_num))
  obtain ⟨c', hc', wc', rc'⟩ := M_of_le wc hv (by norm_num) hbv
  obtain ⟨r, hr, hiff⟩ := neq25519_spec (wc'.mono (by norm_num))
    (hu.mono (hbu.trans (by norm_num)))
  refine ⟨r, Loop.bind_of hc (Loop.bind_of hc' hr), ?_⟩
  rw [hiff, rc', rc]

/-- The candidate, corrected by the root of minus one, is a root whenever there is one. -/
theorem corrected_spec {x u v : Gf} {bu bv : ℤ} (hu : Within bu u) (hv : Within bv v)
    (hbu : bu ≤ 2 ^ 25) (hbv : bv ≤ 2 ^ 25) (hv0 : residue v ≠ 0)
    (hx : Within (2 ^ 17) x) (hres : residue x = residue u * residue v ^ 3 *
      (residue u * residue v ^ 7) ^ ((p25519 - 5) / 8)) :
    ∃ ne x', rootDiffers x u v = some ne ∧ (if ne ≠ 0 then M x I else some x) = some x' ∧
      Within (2 ^ 17) x' ∧ ((∃ z : Fp, z ^ 2 * residue v = residue u) →
        residue x' ^ 2 * residue v = residue u) := by
  obtain ⟨ne, hne, hiff⟩ := rootDiffers_spec hx hu hv hbu hbv
  by_cases h0 : ne = 0
  · exact ⟨ne, x, hne, if_neg (not_not.mpr h0), hx, fun _ => hiff.mp h0⟩
  · obtain ⟨x', hx', wx', rx'⟩ := M_of_le hx I_within (by norm_num) (by norm_num)
    refine ⟨ne, x', hne, (if_pos h0).trans hx', wx', ?_⟩
    rintro ⟨z, hz⟩
    have hroot := root_of_quotient (m := p25519) (by norm_num) hv0 hz
    simp only [← hres] at hroot
    have hminus := hroot.resolve_left fun h => h0 (hiff.mpr h)
    rw [rx', mul_pow, residue_I_sq]
    linear_combination -hminus

/-- The second coordinate of a point, and the numerator and denominator of the square of the
first, as the code computes them. -/
theorem quotient_spec {y : Gf} (hy : Within (2 ^ 16) y) :
    ∃ s d u v, S y = some s ∧ M s D = some d ∧ Z s gf1 = some u ∧ A gf1 d = some v ∧
      Within (2 ^ 18) u ∧ Within (2 ^ 18) v ∧ residue u = residue y ^ 2 - 1 ∧
      residue v = 1 + d25519 * residue y ^ 2 := by
  obtain ⟨s, hs, ws, rs⟩ := S_spec (hy.mono (by norm_num))
  obtain ⟨d, hd, wd, rd⟩ := M_of_le ws D_within (by norm_num) (by norm_num)
  obtain ⟨u, hu, wu, ru⟩ := Z_spec ws gf1_within (by norm_num)
  obtain ⟨v, hv, wv, rv⟩ := A_spec gf1_within wd (by norm_num)
  refine ⟨s, d, u, v, hs, hd, hu, hv, wu.mono (by norm_num), wv.mono (by norm_num), ?_, ?_⟩
  · rw [ru, rs, residue_gf1]
  · rw [rv, rd, rs, residue_gf1, mul_comm, d25519]

/-- The sign that `unpackneg` chooses is that of the negative. -/
theorem chosenSign_spec {bs : Bytes} {x : Gf} (hbs : bs.length = 32) (hx : Within (2 ^ 17) x) :
    ∃ x', (if UInt8.ofNat ((residue x).val % 2) = byteAt bs 31 >>> 7 then Z gf0 x else some x) =
        some x' ∧ Within (2 ^ 17) x' ∧ residue x' ^ 2 = residue x ^ 2 ∧
      (residue x' = 0 ∨ (-residue x').val % 2 = number bs / 2 ^ 255) := by
  have hsign := byteAt_shift hbs
  have hlt := number_lt bs
  rw [hbs] at hlt
  have hbit : number bs / 2 ^ 255 < 2 := by omega
  have hparity : (UInt8.ofNat ((residue x).val % 2)).toNat = (residue x).val % 2 := by
    rw [UInt8.toNat_ofNat']
    omega
  by_cases h : UInt8.ofNat ((residue x).val % 2) = byteAt bs 31 >>> 7
  · obtain ⟨x', hx', wx', rx'⟩ := Z_spec gf0_within hx (by norm_num)
    rw [residue_gf0, zero_sub] at rx'
    refine ⟨x', (if_pos h).trans hx', by rwa [zero_add] at wx', by rw [rx', neg_sq], Or.inr ?_⟩
    rw [rx', neg_neg, ← hsign, ← h, hparity]
  · refine ⟨x, if_neg h, hx, rfl, or_iff_not_imp_left.mpr fun h0 => ?_⟩
    rw [val_neg_parity h0, ← hsign]
    have hne : (residue x).val % 2 ≠ (byteAt bs 31 >>> 7).toNat := fun heq =>
      h (UInt8.toNat_inj.mp (hparity.trans heq))
    omega

/-- **Decoding.** The code gives the negative of the point that the bytes decode to, and
fails exactly when there is none. -/
theorem unpackneg_spec {bs : Bytes} (hbs : bs.length = 32) :
    (∃ r P, unpackneg bs = some (some r) ∧ Decodes bs P ∧ Denotes r (-P)) ∨
      (unpackneg bs = some none ∧ ∀ P, ¬ Decodes bs P) := by
  obtain ⟨wy, ry⟩ := unpack25519_spec hbs
  set y := unpack25519 bs with hy
  obtain ⟨s, d, u, v, hs, hd, hu, hv, wu, wv, ru, rv⟩ := quotient_spec wy
  have hv0 : residue v ≠ 0 := by
    rw [rv]
    exact denominator_ne_zero _
  obtain ⟨x₀, hx₀, wx₀, rx₀⟩ := rootPower_spec wu wv (by norm_num) (by norm_num)
  obtain ⟨ne, x, hne, hx, wx, hroot⟩ :=
    corrected_spec wu wv (by norm_num) (by norm_num) hv0 wx₀ rx₀
  obtain ⟨ne', hne', hiff⟩ := rootDiffers_spec wx wu wv (by norm_num) (by norm_num)
  -- The computation up to the second check.
  have hrun : ∀ {o}, (if ne' ≠ 0 then some none
      else do
        let b ← par25519 x
        let x ← (if b = byteAt bs 31 >>> 7 then Z gf0 x else some x)
        let t ← M x y
        some (some ⟨x, y, gf1, t⟩)) = o → unpackneg bs = o := fun {o} ho =>
    Loop.bind_of hs (Loop.bind_of hd (Loop.bind_of hu (Loop.bind_of hv (Loop.bind_of hx₀
      (Loop.bind_of hne (Loop.bind_of hx (Loop.bind_of hne' ho)))))))
  by_cases h : ne' = 0
  · left
    have hcurve := hiff.mp h
    obtain ⟨x', hx', wx', hsq, hparity⟩ := chosenSign_spec hbs wx
    obtain ⟨t, ht, wt, rt⟩ := M_of_le wx' wy (by norm_num) (by norm_num)
    have hon : OnCurve d25519 (-residue x') (residue y) := by
      rw [onCurve_iff, neg_sq, hsq, ← rv, ← ru]
      exact hcurve
    refine ⟨⟨x', y, gf1, t⟩, ⟨-residue x', residue y, hon⟩, ?_, ⟨ry, ?_⟩, ?_⟩
    · exact hrun ((if_neg (not_not.mpr h)).trans (Loop.bind_of
        (par25519_spec (wx.mono (by norm_num))) (Loop.bind_of hx' (Loop.bind_of ht rfl))))
    · exact hparity.imp_left neg_eq_zero.mpr
    · refine ⟨wx', wy.mono (by norm_num), gf1_within.mono (by norm_num), wt, ?_⟩
      constructor
      · simp [Ge.extended]
      · simp [Ge.extended]
      · simp [Ge.extended]
      · simp [Ge.extended, rt]
  · right
    refine ⟨hrun (if_pos h), fun P hP => h (hiff.mpr (hroot ⟨P.x, ?_⟩))⟩
    rw [rv, ru, ry, ← hP.y_eq]
    exact onCurve_iff.mp P.onCurve

/-- **What is packed is unpacked**, as the negative of the point, and no other point has these
bytes. -/
theorem unpackneg_pack {p : Ge} {P : Point25519} (hp : Denotes p P) :
    ∃ bs q, pack p = some bs ∧ unpackneg bs = some (some q) ∧ Denotes q (-P) ∧
      ∀ r R, Denotes r R → pack r = some bs → R = P := by
  rcases unpackneg_spec (length_bytes 32 _ : (encode P).length = 32) with
    ⟨q, Q, hq, hQ, hdq⟩ | ⟨-, hnone⟩
  · obtain rfl := hQ.unique (decodes_encode P)
    refine ⟨_, q, pack_spec hp, hq, hdq, fun r R hr heq => ?_⟩
    rw [pack_spec hr] at heq
    exact encode_injective (Option.some.inj heq)
  · exact absurd (decodes_encode P) (hnone P)

theorem unpackneg_pack_zero :
    ∃ bs q, pack ⟨gf0, gf1, gf1, gf0⟩ = some bs ∧ unpackneg bs = some (some q) ∧
      Denotes q (-0) ∧ ∀ r R, Denotes r R → pack r = some bs → R = 0 :=
  unpackneg_pack zero_denotes

end TweetNacl

end Llamaste
