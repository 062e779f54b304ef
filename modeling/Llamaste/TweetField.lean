import Llamaste.Lib.Limbs
import Llamaste.Lib.Text

/-!
# The field of the update signatures

The signature of an update is checked by a small vendored library that computes modulo
`2 ^ 255 - 19`. A field element is an array of sixteen signed 64-bit limbs in the radix
`2 ^ 16`; additions leave the limbs as they come out, and a multiplication carries twice.
Nothing in the code checks that a limb still fits. The model is undefined where a signed
computation overflows.

Source: `tweetnacl.c`, `car25519` to `pow2523`.

## Main results

* `car25519_spec`: a carry leaves the digits of the number, and adds 38 times what
  does not fit into them.
* `M_spec`: a product of elements with limbs below `2 ^ 25` is defined, is the product
  modulo `2 ^ 255 - 19`, and its limbs are below `2 ^ 17`.
* `inv25519_spec`, `pow2523_spec`: the powers that the two loops compute.
-/

namespace Llamaste

namespace TweetNacl

open CInt Limbs

/-! ### The code -/

/-- `gf`. -/
abbrev Gf := List ℤ

/-- One round of `car25519`. Shifts are divisions and multiplications by powers of two;
the carry is below `2 ^ 48`, so that only the three sums can overflow. -/
def carRound (i : ℕ) (o : Gf) : Option Gf := do
  let x ← i64 (get o i + 2 ^ 16)
  let o := o.set i x
  let c := x / 2 ^ 16
  let j := if i < 15 then i + 1 else 0
  let y ← i64 (get o j + (c - 1 + if i = 15 then 37 * (c - 1) else 0))
  let o := o.set j y
  let z ← i64 (get o i - c * 2 ^ 16)
  some (o.set i z)

/-- `car25519`. -/
def car25519 (o : Gf) : Option Gf := Loop.up 16 carRound o

/-- `A`. -/
def A (a b : Gf) : Option Gf := tabulate 16 fun i => i64 (get a i + get b i)

/-- `Z`. -/
def Z (a b : Gf) : Option Gf := tabulate 16 fun i => i64 (get a i - get b i)

/-- `FOR(i,16) FOR(j,16) t[i+j]+=a[i]*b[j]`, from zeros. -/
def mulColumns (a b : Gf) : Option (List ℤ) :=
  Loop.up 16 (fun i t =>
    Loop.up 16 (fun j t => do
      let p ← i64 (get a i * get b j)
      let s ← i64 (get t (i + j) + p)
      some (t.set (i + j) s)) t) (List.replicate 31 0)

/-- `FOR(i,15) t[i]+=38*t[i+16]`. -/
def mulFold (t : List ℤ) : Option (List ℤ) :=
  Loop.up 15 (fun i t => do
    let p ← i64 (38 * get t (i + 16))
    let s ← i64 (get t i + p)
    some (t.set i s)) t

/-- `M`. -/
def M (a b : Gf) : Option Gf := do
  let t ← mulColumns a b
  let t ← mulFold t
  let o ← car25519 (t.take 16)
  car25519 o

/-- `S`. -/
def S (a : Gf) : Option Gf := M a a

/-- A round of `inv25519` and `pow2523`: `c` is squared and, except in the rounds of `skip`,
multiplied by `i`. -/
def powRound (skip : List ℕ) (i : Gf) (a : ℕ) (c : Gf) : Option Gf := do
  let c ← S c
  if a ∈ skip then some c else M c i

/-- `n` rounds, from `c = i`. -/
def powLoop (skip : List ℕ) (n : ℕ) (i : Gf) : Option Gf := Loop.down (powRound skip i) n i

/-- `inv25519`. -/
def inv25519 (i : Gf) : Option Gf := powLoop [2, 4] 254 i

/-- `pow2523`. -/
def pow2523 (i : Gf) : Option Gf := powLoop [1] 251 i

/-! ### Carrying -/

/-- The number of a field element. -/
abbrev num (a : Gf) : ℤ := value 16 a

/-- A field element whose limbs are at most `b`. -/
structure Within (b : ℤ) (a : Gf) : Prop where
  length : a.length = 16
  limb : ∀ i < 16, |get a i| ≤ b

theorem Within.mono {b b' : ℤ} {a : Gf} (h : Within b a) (hb : b ≤ b') : Within b' a :=
  ⟨h.length, fun i hi => (h.limb i hi).trans hb⟩

theorem Within.take {b : ℤ} {a : Gf} (h : Within b a) : a.take 16 = a :=
  List.take_of_length_le h.length.le

theorem Within.num_le {b : ℤ} {a : Gf} (h : Within b a) :
    (2 ^ 16 - 1) * |num a| ≤ b * (2 ^ 256 - 1) := by
  have hlimb : ∀ x ∈ a, |x| ≤ b := fun x hx => by
    obtain ⟨i, hi, rfl⟩ := exists_get_of_mem hx
    exact h.limb i (h.length ▸ hi)
  have hnum : (2 ^ 16 - 1) * |num a| ≤ b * (2 ^ (16 * a.length) - 1) := abs_value_le hlimb
  rwa [h.length] at hnum

/-- What a carry makes of an element that stands for `v`: the digits of `v`, and what they
leave over, times 38, on the lowest of them. -/
structure Carried (v : ℤ) (o : Gf) : Prop where
  length : o.length = 16
  digit : ∀ i < 16, i ≠ 0 → 0 ≤ get o i ∧ get o i < 2 ^ 16
  lowest : 0 ≤ get o 0 - 38 * (v / 2 ^ 256) ∧ get o 0 - 38 * (v / 2 ^ 256) < 2 ^ 16
  value : num o = v % 2 ^ 256 + 38 * (v / 2 ^ 256)

/-- The state of a carry before round `i`: the limbs before it are digits, those behind it
are untouched, and the number is the same. -/
structure Carrying (a : Gf) (i : ℕ) (o : Gf) : Prop where
  length : o.length = 16
  value : num o = num a
  digit : ∀ k < i, 0 ≤ get o k ∧ get o k < 2 ^ 16
  behind : ∀ k, i < k → get o k = get a k
  limb : |get o i| ≤ 2 ^ 62 + 2 ^ 48

theorem Carrying.step {a o : Gf} {i : ℕ} (ha : Within (2 ^ 62) a) (hi : i < 15)
    (h : Carrying a i o) : ∃ o', carRound i o = some o' ∧ Carrying a (i + 1) o' := by
  have hlimb := abs_le.mp h.limb
  have hnext := abs_le.mp (ha.limb (i + 1) (by omega))
  set x := get o i + 2 ^ 16 with hx
  set c := x / 2 ^ 16 with hc
  have hx64 : FitsInt64 x := by unfold FitsInt64; omega
  have hy64 : FitsInt64 (get o (i + 1) + (c - 1 + 0)) := by
    rw [h.behind (i + 1) (Nat.lt_succ_self i)]
    unfold FitsInt64
    omega
  have hz64 : FitsInt64 (x - c * 2 ^ 16) := by unfold FitsInt64; omega
  have hlen := h.length
  have hgetj : get (o.set i x) (i + 1) = get o (i + 1) := by
    rw [get_set (by omega), if_neg (by omega)]
  have hgeti : get ((o.set i x).set (i + 1) (get o (i + 1) + (c - 1 + 0))) i = x := by
    rw [get_set (by simp; omega), if_neg (by omega), get_set (by omega), if_pos rfl]
  refine ⟨((o.set i x).set (i + 1) (get o (i + 1) + (c - 1 + 0))).set i (x - c * 2 ^ 16), ?_, ?_⟩
  · simp only [carRound, if_pos hi, if_neg (show i ≠ 15 by omega), ← hx, i64_of_fits hx64,
      Option.bind_eq_bind, Option.bind_some, hgetj, ← hc, i64_of_fits hy64, hgeti,
      i64_of_fits hz64]
  · have hget : ∀ k, get (((o.set i x).set (i + 1) (get o (i + 1) + (c - 1 + 0))).set i
        (x - c * 2 ^ 16)) k = if k = i then x - c * 2 ^ 16
          else if k = i + 1 then get o (i + 1) + (c - 1 + 0) else get o k := fun k => by
      rw [get_set (by simp; omega), get_set (by simp; omega), get_set (by omega)]
      split_ifs <;> rfl
    constructor
    · simp [hlen]
    · rw [← h.value, num, value_set (by simp; omega), value_set (by simp; omega),
        value_set (by omega), hgeti, hgetj, Nat.mul_succ, pow_add, hx]
      ring
    · intro k hk
      rw [hget]
      split_ifs with h1 h2
      · omega
      · omega
      · exact h.digit k (by omega)
    · intro k hk
      rw [hget, if_neg (by omega), if_neg (by omega), h.behind k (by omega)]
    · rw [hget, if_neg (by omega), if_pos rfl, h.behind (i + 1) (Nat.lt_succ_self i), abs_le]
      omega

/-- The last round takes what is left over to the lowest limb. -/
theorem Carrying.last {a o : Gf} (h : Carrying a 15 o) :
    ∃ o', carRound 15 o = some o' ∧ Carried (num a) o' := by
  have hlimb := abs_le.mp h.limb
  have hzero := h.digit 0 (by decide)
  set x := get o 15 + 2 ^ 16 with hx
  set c := x / 2 ^ 16 with hc
  set y := get o 0 + (c - 1 + 37 * (c - 1)) with hy
  have hx64 : FitsInt64 x := by unfold FitsInt64; omega
  have hy64 : FitsInt64 y := by unfold FitsInt64; omega
  have hz64 : FitsInt64 (x - c * 2 ^ 16) := by unfold FitsInt64; omega
  have hlen := h.length
  have hget0 : get (o.set 15 x) 0 = get o 0 := by rw [get_set (by omega), if_neg (by decide)]
  have hget15 : get ((o.set 15 x).set 0 y) 15 = x := by
    rw [get_set (by simp; omega), if_neg (by decide), get_set (by omega), if_pos rfl]
  have hget : ∀ k, get (((o.set 15 x).set 0 y).set 15 (x - c * 2 ^ 16)) k =
      if k = 15 then x - c * 2 ^ 16 else if k = 0 then y else get o k := fun k => by
    rw [get_set (by simp; omega), get_set (by simp; omega), get_set (by omega)]
    split_ifs <;> rfl
  -- The digits alone, without what goes to the lowest limb.
  have hdigits : ∀ z ∈ o.set 15 (x - c * 2 ^ 16), 0 ≤ z ∧ z < 2 ^ 16 := by
    intro z hz
    obtain ⟨k, hk, rfl⟩ := exists_get_of_mem hz
    rw [List.length_set, hlen] at hk
    rw [get_set (by omega)]
    split_ifs with h15
    · omega
    · exact h.digit k (by omega)
  have hnum : num (o.set 15 (x - c * 2 ^ 16)) = num a - (c - 1) * 2 ^ 256 := by
    rw [num, value_set (by omega), ← h.value, hx]
    ring
  have hrange := value_of_digits hdigits
  rw [List.length_set, hlen, ← num, hnum] at hrange
  have hquot : num a / 2 ^ 256 = c - 1 := by omega
  refine ⟨((o.set 15 x).set 0 y).set 15 (x - c * 2 ^ 16), ?_, ?_⟩
  · simp only [carRound, ← hx, i64_of_fits hx64, Option.bind_eq_bind, Option.bind_some,
      if_neg (show ¬ 15 < 15 by decide), if_true, hget0, ← hc, ← hy, i64_of_fits hy64, hget15,
      i64_of_fits hz64]
  · constructor
    · simp [hlen]
    · intro k hk hk0
      rw [hget, if_neg hk0]
      split_ifs with h15
      · omega
      · exact h.digit k (by omega)
    · rw [hget, if_neg (by decide), if_pos rfl, hquot, hy]
      omega
    · have hmod := Int.emod_add_mul_ediv (num a) (2 ^ 256)
      rw [hquot] at hmod ⊢
      rw [num, value_set (by simp; omega), value_set (by simp; omega), value_set (by omega),
        hget15, hget0, ← num, h.value, hy, hx]
      linear_combination -hmod

/-- **A carry.** It is defined for limbs up to `2 ^ 62`. -/
theorem car25519_spec {a : Gf} (ha : Within (2 ^ 62) a) :
    ∃ o, car25519 a = some o ∧ Carried (num a) o := by
  have h0 : Carrying a 0 a :=
    ⟨ha.length, rfl, fun k hk => absurd hk (Nat.not_lt_zero k), fun _ _ => rfl,
      (ha.limb 0 (by decide)).trans (by norm_num)⟩
  obtain ⟨o, ho, hcarrying⟩ := Loop.up_spec h0 fun i s hi hs => hs.step ha hi
  obtain ⟨o', ho', hcarried⟩ := hcarrying.last
  exact ⟨o', by rw [car25519, Loop.up_succ, ho]; exact ho', hcarried⟩

/-- `2 ^ 255 - 19`. -/
abbrev p25519 : ℕ := 2 ^ 255 - 19

instance neZero_p25519 : NeZero p25519 := ⟨by norm_num⟩

/-- The field. -/
abbrev Fp : Type := ZMod p25519

/-- The field element that limbs stand for. -/
def residue (a : Gf) : Fp := (num a : ℤ)

theorem two_pow_256 : ((2 ^ 256 : ℤ) : Fp) = 38 := by
  have h : ((2 ^ 256 - 38 : ℤ) : Fp) = 0 :=
    (ZMod.intCast_zmod_eq_zero_iff_dvd _ _).mpr ⟨2, by norm_num⟩
  rw [Int.cast_sub, sub_eq_zero] at h
  exact h

theorem Carried.residue_eq {v : ℤ} {o : Gf} (h : Carried v o) : residue o = (v : Fp) := by
  have hv := Int.emod_add_mul_ediv v (2 ^ 256)
  calc residue o = ((v % 2 ^ 256 + 38 * (v / 2 ^ 256) : ℤ) : Fp) := by rw [residue, h.value]
    _ = ((v % 2 ^ 256 : ℤ) : Fp) + ((2 ^ 256 : ℤ) : Fp) * ((v / 2 ^ 256 : ℤ) : Fp) := by
      rw [two_pow_256, Int.cast_add, Int.cast_mul]
      rfl
    _ = (v : Fp) := by rw [← Int.cast_mul, ← Int.cast_add, hv]

theorem Carried.within {v b : ℤ} {o : Gf} (h : Carried v o) (hb : |v / 2 ^ 256| ≤ b) :
    Within (2 ^ 16 + 38 * b) o := by
  have hq := abs_le.mp hb
  refine ⟨h.length, fun i hi => abs_le.mpr ?_⟩
  by_cases h0 : i = 0
  · subst h0
    have := h.lowest
    omega
  · have := h.digit i hi h0
    omega

/-- What two carries leave over at most. -/
theorem Carried.quotient {v : ℤ} {o : Gf} (h : Carried v o) (hv : |v / 2 ^ 256| ≤ 2 ^ 47) :
    |num o / 2 ^ 256| ≤ 1 := by
  have hq := abs_le.mp hv
  have hvalue := h.value
  rw [abs_le]
  omega

/-- **Two carries.** They are defined for limbs up to `2 ^ 62`, keep the residue, and leave
limbs below `2 ^ 17`. -/
theorem car25519_twice {a : Gf} (ha : Within (2 ^ 62) a) :
    ∃ o o', car25519 a = some o ∧ car25519 o = some o' ∧ Carried (num a) o ∧
      |num a / 2 ^ 256| ≤ 2 ^ 47 ∧ Carried (num o) o' ∧ Within (2 ^ 17) o' ∧
      residue o' = residue a := by
  obtain ⟨o, ho, hcarried⟩ := car25519_spec ha
  have hquot : |num a / 2 ^ 256| ≤ 2 ^ 47 := by
    have hnum := ha.num_le
    rw [abs_le]
    rcases abs_cases (num a) with ⟨habs, hsign⟩ | ⟨habs, hsign⟩ <;> omega
  obtain ⟨o', ho', hcarried'⟩ :=
    car25519_spec ((hcarried.within hquot).mono (by norm_num))
  refine ⟨o, o', ho, ho', hcarried, hquot, hcarried',
    (hcarried'.within (hcarried.quotient hquot)).mono (by norm_num), ?_⟩
  rw [hcarried'.residue_eq, ← residue, hcarried.residue_eq, residue]

/-! ### Multiplying -/

/-- The columns before the products of limb `i` with the limbs of `b` from `j` on. -/
structure Columns (a b : Gf) (c : ℤ) (i j : ℕ) (t : List ℤ) : Prop where
  length : t.length = 31
  value : Limbs.value 16 t =
    value 16 (a.take i) * num b + get a i * 2 ^ (16 * i) * value 16 (b.take j)
  limb : ∀ k, |get t k| ≤ (if i ≤ k ∧ k < i + j then i + 1 else i) * c

theorem Columns.step {a b : Gf} {ba bb : ℤ} {t : List ℤ} {i j : ℕ} (ha : Within ba a)
    (hb : Within bb b) (hab : 16 * (ba * bb) < 2 ^ 63) (hi : i < 16) (hj : j < 16)
    (h : Columns a b (ba * bb) i j t) :
    ∃ t', (do
        let p ← i64 (get a i * get b j)
        let s ← i64 (get t (i + j) + p)
        some (t.set (i + j) s)) = some t' ∧ Columns a b (ba * bb) i (j + 1) t' := by
  have hba : 0 ≤ ba := (abs_nonneg _).trans (ha.limb i hi)
  have hbb : 0 ≤ bb := (abs_nonneg _).trans (hb.limb j hj)
  have hc : 0 ≤ ba * bb := mul_nonneg hba hbb
  have hp : |get a i * get b j| ≤ ba * bb := by
    rw [abs_mul]
    exact mul_le_mul (ha.limb i hi) (hb.limb j hj) (abs_nonneg _) hba
  have hcell : |get t (i + j)| ≤ i * (ba * bb) := by
    have := h.limb (i + j)
    rwa [if_neg (by omega)] at this
  have hs : |get t (i + j) + get a i * get b j| ≤ (i + 1) * (ba * bb) :=
    (abs_add_le _ _).trans ((add_le_add hcell hp).trans_eq (by ring))
  have hrow : ((i : ℤ) + 1) * (ba * bb) ≤ 16 * (ba * bb) :=
    mul_le_mul_of_nonneg_right (by omega) hc
  have hlen := h.length
  refine ⟨t.set (i + j) (get t (i + j) + get a i * get b j), ?_, ?_⟩
  · rw [i64_of_abs_le hp (by omega), Option.bind_eq_bind, Option.bind_some,
      i64_of_abs_le hs (by omega), Option.bind_some]
  · constructor
    · rw [List.length_set, hlen]
    · rw [value_set (by omega), h.value, value_take_succ, Nat.mul_add, pow_add]
      ring
    · intro k
      rw [get_set (by omega)]
      by_cases hk : k = i + j
      · rw [if_pos hk, if_pos (by omega)]
        exact hs
      · rw [if_neg hk]
        refine (h.limb k).trans (mul_le_mul_of_nonneg_right ?_ hc)
        split_ifs <;> omega

/-- The columns of a product. -/
theorem mulColumns_spec {a b : Gf} {ba bb : ℤ} (ha : Within ba a) (hb : Within bb b)
    (hab : 16 * (ba * bb) < 2 ^ 63) :
    ∃ t, mulColumns a b = some t ∧ t.length = 31 ∧ value 16 t = num a * num b ∧
      ∀ k, |get t k| ≤ 16 * (ba * bb) := by
  have h0 : Columns a b (ba * bb) 0 0 (List.replicate 31 0) :=
    ⟨List.length_replicate, by rw [value_replicate_zero]; simp, fun k => by
      rw [get_replicate_zero]
      split_ifs with h
      · exact absurd h.2 (by omega)
      · simp⟩
  obtain ⟨t, ht, hcolumns⟩ := Loop.up_spec (P := fun i t => Columns a b (ba * bb) i 0 t) h0
    fun i t hi h => by
      obtain ⟨t', ht', hrow⟩ := Loop.up_spec (P := fun j t => Columns a b (ba * bb) i j t) h
        fun j t hj h => h.step ha hb hab hi hj
      refine ⟨t', ht', hrow.length, ?_, fun k => (hrow.limb k).trans ?_⟩
      · rw [hrow.value, hb.take, value_take_succ, List.take_zero, value_nil]
        ring
      · have hc : 0 ≤ ba * bb := mul_nonneg ((abs_nonneg _).trans (ha.limb i hi))
          ((abs_nonneg _).trans (hb.limb i hi))
        refine mul_le_mul_of_nonneg_right ?_ hc
        push_cast
        split_ifs <;> omega
  refine ⟨t, ht, hcolumns.length, ?_, fun k => ?_⟩
  · rw [hcolumns.value, ha.take, List.take_zero, value_nil]
    ring
  · have := hcolumns.limb k
    rwa [if_neg (by omega)] at this

/-- The columns before the fold of column `i`. -/
structure Folding (t : List ℤ) (c : ℤ) (i : ℕ) (u : List ℤ) : Prop where
  length : u.length = 31
  value : Limbs.value 16 u = Limbs.value 16 t + 38 * Limbs.value 16 ((t.drop 16).take i)
  drop : u.drop 16 = t.drop 16
  limb : ∀ k, |get u k| ≤ if k < i then 39 * c else c

theorem Folding.step {t u : List ℤ} {c : ℤ} {i : ℕ} (hc : 39 * c < 2 ^ 63) (hi : i < 15)
    (ht : ∀ k, |get t k| ≤ c) (h : Folding t c i u) :
    ∃ u', (do
        let p ← i64 (38 * get u (i + 16))
        let s ← i64 (get u i + p)
        some (u.set i s)) = some u' ∧ Folding t c (i + 1) u' := by
  have hhigh : get u (i + 16) = get t (i + 16) := by
    rw [← get_drop, h.drop, get_drop]
  have hp : |38 * get u (i + 16)| ≤ 38 * c := by
    rw [hhigh, abs_mul, abs_of_pos (by decide)]
    exact mul_le_mul_of_nonneg_left (ht _) (by decide)
  have hcell : |get u i| ≤ c := by
    have := h.limb i
    rwa [if_neg (lt_irrefl i)] at this
  have hc0 : 0 ≤ c := (abs_nonneg _).trans hcell
  have hs : |get u i + 38 * get u (i + 16)| ≤ 39 * c :=
    (abs_add_le _ _).trans ((add_le_add hcell hp).trans_eq (by ring))
  have hlen := h.length
  refine ⟨u.set i (get u i + 38 * get u (i + 16)), ?_, ?_⟩
  · rw [i64_of_abs_le hp (by omega), Option.bind_eq_bind, Option.bind_some,
      i64_of_abs_le hs (by omega), Option.bind_some]
  · constructor
    · rw [List.length_set, hlen]
    · rw [value_set (by omega), h.value, value_take_succ, get_drop, hhigh]
      ring
    · rw [List.drop_set_of_lt (by omega), h.drop]
    · intro k
      rw [get_set (by omega)]
      by_cases hk : k = i
      · rw [if_pos hk, if_pos (by omega)]
        exact hs
      · rw [if_neg hk]
        refine (h.limb k).trans ?_
        split_ifs <;> omega

/-- The fold keeps the residue: `2 ^ 256` is 38. -/
theorem mulFold_spec {t : List ℤ} {c : ℤ} (hlen : t.length = 31) (hc : 39 * c < 2 ^ 63)
    (ht : ∀ k, |get t k| ≤ c) :
    ∃ u, mulFold t = some u ∧ Within (39 * c) (u.take 16) ∧
      residue (u.take 16) = (value 16 t : Fp) := by
  have h0 : Folding t c 0 t :=
    ⟨hlen, by simp, rfl, fun k => by rw [if_neg (Nat.not_lt_zero k)]; exact ht k⟩
  obtain ⟨u, hu, hfolding⟩ := Loop.up_spec h0 fun i u hi h => h.step hc hi ht
  have hulen := hfolding.length
  have hc0 : 0 ≤ c := (abs_nonneg _).trans (ht 0)
  refine ⟨u, hu, ⟨by rw [List.length_take, hulen]; rfl, fun i hi => ?_⟩, ?_⟩
  · rw [get_take hi]
    refine (hfolding.limb i).trans ?_
    split_ifs <;> omega
  · have hsplit : value 16 u = num (u.take 16) + 2 ^ 256 * value 16 (u.drop 16) := by
      conv_lhs => rw [← List.take_append_drop 16 u]
      rw [value_append, List.length_take, hulen]
      rfl
    have hdrop : (t.drop 16).take 15 = t.drop 16 :=
      List.take_of_length_le (by rw [List.length_drop, hlen])
    have hvalue := hfolding.value
    rw [hsplit, hdrop, hfolding.drop] at hvalue
    have hcast := congrArg (Int.cast : ℤ → Fp) hvalue
    rw [Int.cast_add, Int.cast_add, Int.cast_mul, two_pow_256, Int.cast_mul] at hcast
    exact add_right_cancel hcast

/-- **Multiplication.** With limbs below `2 ^ 25` no computation overflows. -/
theorem M_spec {a b : Gf} (ha : Within (2 ^ 25) a) (hb : Within (2 ^ 25) b) :
    ∃ o, M a b = some o ∧ Within (2 ^ 17) o ∧ residue o = residue a * residue b := by
  obtain ⟨t, ht, hlen, hvalue, hlimb⟩ := mulColumns_spec ha hb (by norm_num)
  obtain ⟨u, hu, hwithin, hresidue⟩ := mulFold_spec hlen (by norm_num) hlimb
  obtain ⟨o, o', ho, ho', -, -, -, hwithin', hresidue'⟩ :=
    car25519_twice (hwithin.mono (by norm_num))
  refine ⟨o', Loop.bind_of ht (Loop.bind_of hu (Loop.bind_of ho ho')), hwithin', ?_⟩
  rw [hresidue', hresidue, hvalue, Int.cast_mul, residue, residue]

/-! ### Sums, differences and powers -/

/-- Limbs that are computed one by one. -/
theorem tabulate_within {b : ℤ} {f : ℕ → ℤ} (hb : b < 2 ^ 63) (hf : ∀ i < 16, |f i| ≤ b) :
    ∃ o, tabulate 16 (fun i => i64 (f i)) = some o ∧ Within b o ∧
      num o = ∑ i ∈ Finset.range 16, f i * 2 ^ (16 * i) := by
  refine ⟨(List.range 16).map f, tabulate_eq fun i hi => i64_of_abs_le (hf i hi) hb, ?_,
    value_map_range f 16⟩
  exact ⟨by simp, fun i hi => by rw [get_map_range hi]; exact hf i hi⟩

theorem Within.num_eq_sum {b : ℤ} {a : Gf} (h : Within b a) :
    num a = ∑ i ∈ Finset.range 16, get a i * 2 ^ (16 * i) := by
  rw [num, value_eq_sum, h.length]

theorem A_spec {a b : Gf} {ba bb : ℤ} (ha : Within ba a) (hb : Within bb b)
    (hab : ba + bb < 2 ^ 63) :
    ∃ o, A a b = some o ∧ Within (ba + bb) o ∧ residue o = residue a + residue b := by
  obtain ⟨o, ho, hwithin, hnum⟩ := tabulate_within (f := fun i => get a i + get b i) hab
    fun i hi => (abs_add_le _ _).trans (add_le_add (ha.limb i hi) (hb.limb i hi))
  refine ⟨o, ho, hwithin, ?_⟩
  rw [residue, hnum, residue, residue, ha.num_eq_sum, hb.num_eq_sum, ← Int.cast_add,
    ← Finset.sum_add_distrib]
  simp only [add_mul]

theorem Z_spec {a b : Gf} {ba bb : ℤ} (ha : Within ba a) (hb : Within bb b)
    (hab : ba + bb < 2 ^ 63) :
    ∃ o, Z a b = some o ∧ Within (ba + bb) o ∧ residue o = residue a - residue b := by
  obtain ⟨o, ho, hwithin, hnum⟩ := tabulate_within (f := fun i => get a i - get b i) hab
    fun i hi => (abs_sub _ _).trans (add_le_add (ha.limb i hi) (hb.limb i hi))
  refine ⟨o, ho, hwithin, ?_⟩
  rw [residue, hnum, residue, residue, ha.num_eq_sum, hb.num_eq_sum, ← Int.cast_sub,
    ← Finset.sum_sub_distrib]
  simp only [sub_mul]

theorem S_spec {a : Gf} (ha : Within (2 ^ 25) a) :
    ∃ o, S a = some o ∧ Within (2 ^ 17) o ∧ residue o = residue a ^ 2 := by
  rw [S, pow_two]
  exact M_spec ha ha

/-- The exponent that `n` rounds make of `e`. -/
def exponent (skip : List ℕ) : ℕ → ℕ → ℕ
  | 0, e => e
  | n + 1, e => exponent skip n (2 * e + if n ∈ skip then 0 else 1)

theorem powRound_spec (skip : List ℕ) (a : ℕ) {i c : Gf} {e : ℕ} (hi : Within (2 ^ 17) i)
    (hc : Within (2 ^ 17) c) (hres : residue c = residue i ^ e) :
    ∃ c', powRound skip i a c = some c' ∧ Within (2 ^ 17) c' ∧
      residue c' = residue i ^ (2 * e + if a ∈ skip then 0 else 1) := by
  obtain ⟨s, hs, hswithin, hsres⟩ := S_spec (hc.mono (by norm_num))
  rw [powRound, hs, Option.bind_eq_bind, Option.bind_some]
  by_cases hskip : a ∈ skip
  · refine ⟨s, if_pos hskip, hswithin, ?_⟩
    rw [hsres, hres, if_pos hskip, add_zero, ← pow_mul, mul_comm]
  · obtain ⟨m, hm, hmwithin, hmres⟩ := M_spec (hswithin.mono (by norm_num)) (hi.mono (by norm_num))
    refine ⟨m, (if_neg hskip).trans hm, hmwithin, ?_⟩
    rw [hmres, hsres, hres, if_neg hskip, pow_succ _ (2 * e), ← pow_mul, mul_comm e]

theorem powLoop_spec (skip : List ℕ) (n : ℕ) {i : Gf} (hi : Within (2 ^ 17) i) :
    ∃ o, powLoop skip n i = some o ∧ Within (2 ^ 17) o ∧
      residue o = residue i ^ exponent skip n 1 := by
  have hone : Within (2 ^ 17) i ∧
      ∃ e, residue i = residue i ^ e ∧ exponent skip n e = exponent skip n 1 :=
    ⟨hi, 1, (pow_one _).symm, rfl⟩
  obtain ⟨o, ho, hwithin, e, hres, hexp⟩ := Loop.down_spec
    (P := fun k c => Within (2 ^ 17) c ∧
      ∃ e, residue c = residue i ^ e ∧ exponent skip k e = exponent skip n 1) hone
    fun a c _ h => by
      obtain ⟨hc, e, hres, hexp⟩ := h
      obtain ⟨c', hc', hwithin, hres'⟩ := powRound_spec skip a hi hc hres
      exact ⟨c', hc', hwithin, _, hres', hexp⟩
  exact ⟨o, ho, hwithin, hres.trans (congrArg (residue i ^ ·) hexp)⟩

theorem exponent_inv25519 : exponent [2, 4] 254 1 = p25519 - 2 := by decide +kernel

theorem exponent_pow2523 : exponent [1] 251 1 = (p25519 - 5) / 8 := by decide +kernel

/-- `inv25519` raises to the power `p - 2`. -/
theorem inv25519_spec {i : Gf} (hi : Within (2 ^ 17) i) :
    ∃ o, inv25519 i = some o ∧ Within (2 ^ 17) o ∧ residue o = residue i ^ (p25519 - 2) := by
  obtain ⟨o, ho, hwithin, hres⟩ := powLoop_spec [2, 4] 254 hi
  exact ⟨o, ho, hwithin, hres.trans (congrArg (residue i ^ ·) exponent_inv25519)⟩

/-- `pow2523` raises to the power `(p - 5) / 8`. -/
theorem pow2523_spec {i : Gf} (hi : Within (2 ^ 17) i) :
    ∃ o, pow2523 i = some o ∧ Within (2 ^ 17) o ∧
      residue o = residue i ^ ((p25519 - 5) / 8) := by
  obtain ⟨o, ho, hwithin, hres⟩ := powLoop_spec [1] 251 hi
  exact ⟨o, ho, hwithin, hres.trans (congrArg (residue i ^ ·) exponent_pow2523)⟩

end TweetNacl

end Llamaste
