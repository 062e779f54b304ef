import Mathlib

/-!
# Twisted Edwards curves

The curve `-x² + y² = 1 + d x² y²` over a field in which `-1` is a square and `d` is not.
The addition law has no exceptions, and makes the points a commutative group. Code
computes in extended coordinates `(X : Y : Z : T)` with `x = X / Z`, `y = Y / Z` and
`x y = T / Z`, where an addition needs no division.

## Main results

* `Edwards.one_add_ne_zero`, `Edwards.one_sub_ne_zero`: the denominators never vanish.
* `Edwards.addCommGroup`: the group.
* `Edwards.Extended.add_represents`: the addition in extended coordinates.
* `Edwards.Extended.multiple_represents`: a multiple of a point, computed with integers.
-/

namespace Edwards

variable {F : Type*} [Field F]

/-- What makes the addition law complete. -/
class Complete (d : F) : Prop where
  two_ne_zero : (2 : F) ≠ 0
  isSquare_neg_one : IsSquare (-1 : F)
  not_isSquare : ¬ IsSquare d

/-- The equation of the curve. -/
def OnCurve (d x y : F) : Prop := -x ^ 2 + y ^ 2 = 1 + d * x ^ 2 * y ^ 2

/-! ### The denominators -/

variable {d x₁ y₁ x₂ y₂ x₃ y₃ : F}

/-- The product of the coordinates of two points, times `d`, is not a square root of one. -/
theorem sq_ne_one [hd : Complete d] (h₁ : OnCurve d x₁ y₁) (h₂ : OnCurve d x₂ y₂) :
    (d * x₁ * x₂ * y₁ * y₂) ^ 2 ≠ 1 := by
  intro hε
  set ε := d * x₁ * x₂ * y₁ * y₂ with hεdef
  obtain ⟨i, hi⟩ := hd.isSquare_neg_one
  have hε0 : ε ≠ 0 := fun h => by simp [h] at hε
  have hx₁ : x₁ ≠ 0 := fun h => hε0 (by rw [hεdef, h]; ring)
  have hy₁ : y₁ ≠ 0 := fun h => hε0 (by rw [hεdef, h]; ring)
  have hy₂ : y₂ ≠ 0 := fun h => hε0 (by rw [hεdef, h]; ring)
  unfold OnCurve at h₁ h₂
  -- Either sign makes `d` a square, unless `y₂ = ± i x₂`.
  have hplus : (i * x₁ + ε * y₁) ^ 2 = d * (x₁ * y₁ * (y₂ + i * x₂)) ^ 2 := by
    linear_combination (y₁ ^ 2 - 1) * hε + h₁ - d * x₁ ^ 2 * y₁ ^ 2 * h₂ -
      (x₁ ^ 2 - d * x₁ ^ 2 * y₁ ^ 2 * x₂ ^ 2) * hi +
      (2 * i * x₁ * y₁ + ε + d * x₁ * x₂ * y₁ * y₂) * hεdef
  have hminus : (i * x₁ - ε * y₁) ^ 2 = d * (x₁ * y₁ * (y₂ - i * x₂)) ^ 2 := by
    linear_combination (y₁ ^ 2 - 1) * hε + h₁ - d * x₁ ^ 2 * y₁ ^ 2 * h₂ -
      (x₁ ^ 2 - d * x₁ ^ 2 * y₁ ^ 2 * x₂ ^ 2) * hi +
      (-2 * i * x₁ * y₁ + ε + d * x₁ * x₂ * y₁ * y₂) * hεdef
  have hsquare : ∀ {u v : F}, u ^ 2 = d * (x₁ * y₁ * v) ^ 2 → v = 0 := by
    intro u v h
    by_contra hv
    have hne : x₁ * y₁ * v ≠ 0 := mul_ne_zero (mul_ne_zero hx₁ hy₁) hv
    refine hd.not_isSquare ⟨u / (x₁ * y₁ * v), ?_⟩
    rw [← pow_two, div_pow, h, mul_div_assoc, div_self (pow_ne_zero 2 hne), mul_one]
  have hsum : 2 * y₂ = 0 := by linear_combination hsquare hplus + hsquare hminus
  exact hy₂ ((mul_eq_zero.mp hsum).resolve_left hd.two_ne_zero)

theorem one_add_ne_zero [hd : Complete d] (h₁ : OnCurve d x₁ y₁) (h₂ : OnCurve d x₂ y₂) :
    1 + d * x₁ * x₂ * y₁ * y₂ ≠ 0 := fun h =>
  sq_ne_one h₁ h₂ (by linear_combination (d * x₁ * x₂ * y₁ * y₂ - 1) * h)

theorem one_sub_ne_zero [hd : Complete d] (h₁ : OnCurve d x₁ y₁) (h₂ : OnCurve d x₂ y₂) :
    1 - d * x₁ * x₂ * y₁ * y₂ ≠ 0 := fun h =>
  sq_ne_one h₁ h₂ (by linear_combination -(d * x₁ * x₂ * y₁ * y₂ + 1) * h)

/-! ### The first coordinate of a point -/

theorem denominator_ne_zero [hd : Complete d] (y : F) : 1 + d * y ^ 2 ≠ 0 := by
  intro h
  obtain ⟨i, hi⟩ := hd.isSquare_neg_one
  have hy : y ≠ 0 := by
    rintro rfl
    simp at h
  refine hd.not_isSquare ⟨i / y, ?_⟩
  rw [div_mul_div_comm, ← hi, eq_div_iff (mul_ne_zero hy hy)]
  linear_combination h

/-- The square of the first coordinate is a quotient. -/
theorem onCurve_iff {x y : F} : OnCurve d x y ↔ x ^ 2 * (1 + d * y ^ 2) = y ^ 2 - 1 := by
  unfold OnCurve
  constructor <;> intro h <;> linear_combination -h

/-- **A root of a quotient by one power**, modulo a prime that is 5 modulo 8: its square is
the quotient up to the sign, whenever the quotient has a root. -/
theorem root_of_quotient {m : ℕ} [Fact m.Prime] (hm : m % 8 = 5) {u v z : ZMod m} (hv : v ≠ 0)
    (hz : z ^ 2 * v = u) :
    let x := u * v ^ 3 * (u * v ^ 7) ^ ((m - 5) / 8)
    x ^ 2 * v = u ∨ x ^ 2 * v = -u := by
  intro x
  set e := (m - 5) / 8 with he
  have hx : x ^ 2 * v = u * (u * v ^ 7) ^ (2 * e + 1) := by
    show (u * v ^ 3 * (u * v ^ 7) ^ e) ^ 2 * v = _
    rw [pow_succ (u * v ^ 7) (2 * e), mul_comm 2 e, pow_mul]
    ring
  by_cases h0 : z = 0
  · left
    rw [hx, ← hz, h0]
    ring
  · have hroot : u * v ^ 7 = (z * v ^ 4) ^ 2 := by
      rw [← hz]
      ring
    have hone : ((u * v ^ 7) ^ (2 * e + 1)) ^ 2 = 1 := by
      rw [hroot, ← pow_mul, ← pow_mul, show 2 * ((2 * e + 1) * 2) = m - 1 by omega]
      exact ZMod.pow_card_sub_one_eq_one (mul_ne_zero h0 (pow_ne_zero 4 hv))
    rw [hx]
    rcases mul_self_eq_one_iff.mp ((pow_two _).symm.trans hone) with h | h
    · left
      rw [h, mul_one]
    · right
      rw [h, mul_neg_one]

/-! ### The addition law -/

/-- The first coordinate of a sum. -/
def addX (d x₁ y₁ x₂ y₂ : F) : F := (x₁ * y₂ + y₁ * x₂) / (1 + d * x₁ * x₂ * y₁ * y₂)

/-- The second coordinate of a sum. -/
def addY (d x₁ y₁ x₂ y₂ : F) : F := (y₁ * y₂ + x₁ * x₂) / (1 - d * x₁ * x₂ * y₁ * y₂)

theorem addX_comm : addX d x₁ y₁ x₂ y₂ = addX d x₂ y₂ x₁ y₁ := by
  rw [addX, addX]
  ring_nf

theorem addY_comm : addY d x₁ y₁ x₂ y₂ = addY d x₂ y₂ x₁ y₁ := by
  rw [addY, addY]
  ring_nf

theorem onCurve_div {X Y p m : F} (hp : p ≠ 0) (hm : m ≠ 0)
    (h : -(X * m) ^ 2 + (Y * p) ^ 2 = (p * m) ^ 2 + d * X ^ 2 * Y ^ 2) :
    OnCurve d (X / p) (Y / m) := by
  have hpm : (p * m) ^ 2 ≠ 0 := pow_ne_zero 2 (mul_ne_zero hp hm)
  have hleft : -(X / p) ^ 2 + (Y / m) ^ 2 = (-(X * m) ^ 2 + (Y * p) ^ 2) / (p * m) ^ 2 := by
    field_simp
  have hright : 1 + d * (X / p) ^ 2 * (Y / m) ^ 2 =
      ((p * m) ^ 2 + d * X ^ 2 * Y ^ 2) / (p * m) ^ 2 := by field_simp
  rw [OnCurve, hleft, hright, h]

theorem onCurve_add [Complete d] (h₁ : OnCurve d x₁ y₁) (h₂ : OnCurve d x₂ y₂) :
    OnCurve d (addX d x₁ y₁ x₂ y₂) (addY d x₁ y₁ x₂ y₂) := by
  refine onCurve_div (one_add_ne_zero h₁ h₂) (one_sub_ne_zero h₁ h₂) ?_
  unfold OnCurve at h₁ h₂
  -- A polynomial consequence of the two equations.
  grind

/-- The first coordinate of a sum of three points, over a common denominator. -/
theorem addX_add [Complete d] (h₁ : OnCurve d x₁ y₁) (h₂ : OnCurve d x₂ y₂)
    (h₃ : OnCurve d x₃ y₃) :
    let δ := d * x₁ * x₂ * y₁ * y₂
    let X := x₁ * y₂ + y₁ * x₂
    let Y := y₁ * y₂ + x₁ * x₂
    (1 + δ) * (1 - δ) + d * X * x₃ * Y * y₃ ≠ 0 ∧
      addX d (addX d x₁ y₁ x₂ y₂) (addY d x₁ y₁ x₂ y₂) x₃ y₃ =
        (X * (1 - δ) * y₃ + Y * (1 + δ) * x₃) / ((1 + δ) * (1 - δ) + d * X * x₃ * Y * y₃) := by
  intro δ X Y
  have hp : 1 + δ ≠ 0 := one_add_ne_zero h₁ h₂
  have hm : 1 - δ ≠ 0 := one_sub_ne_zero h₁ h₂
  have hpm := mul_ne_zero hp hm
  have hden : 1 + d * (X / (1 + δ)) * x₃ * (Y / (1 - δ)) * y₃ =
      ((1 + δ) * (1 - δ) + d * X * x₃ * Y * y₃) / ((1 + δ) * (1 - δ)) := by field_simp
  have hnum : X / (1 + δ) * y₃ + Y / (1 - δ) * x₃ =
      (X * (1 - δ) * y₃ + Y * (1 + δ) * x₃) / ((1 + δ) * (1 - δ)) := by field_simp
  have hne : 1 + d * (X / (1 + δ)) * x₃ * (Y / (1 - δ)) * y₃ ≠ 0 :=
    one_add_ne_zero (onCurve_add h₁ h₂) h₃
  constructor
  · intro h
    rw [hden, h, zero_div] at hne
    exact hne rfl
  · show (X / (1 + δ) * y₃ + Y / (1 - δ) * x₃) /
      (1 + d * (X / (1 + δ)) * x₃ * (Y / (1 - δ)) * y₃) = _
    rw [hnum, hden, div_div_div_cancel_right₀ hpm]

/-- The same for the second coordinate. -/
theorem addY_add [Complete d] (h₁ : OnCurve d x₁ y₁) (h₂ : OnCurve d x₂ y₂)
    (h₃ : OnCurve d x₃ y₃) :
    let δ := d * x₁ * x₂ * y₁ * y₂
    let X := x₁ * y₂ + y₁ * x₂
    let Y := y₁ * y₂ + x₁ * x₂
    (1 + δ) * (1 - δ) - d * X * x₃ * Y * y₃ ≠ 0 ∧
      addY d (addX d x₁ y₁ x₂ y₂) (addY d x₁ y₁ x₂ y₂) x₃ y₃ =
        (Y * (1 + δ) * y₃ + X * (1 - δ) * x₃) / ((1 + δ) * (1 - δ) - d * X * x₃ * Y * y₃) := by
  intro δ X Y
  have hp : 1 + δ ≠ 0 := one_add_ne_zero h₁ h₂
  have hm : 1 - δ ≠ 0 := one_sub_ne_zero h₁ h₂
  have hpm := mul_ne_zero hp hm
  have hden : 1 - d * (X / (1 + δ)) * x₃ * (Y / (1 - δ)) * y₃ =
      ((1 + δ) * (1 - δ) - d * X * x₃ * Y * y₃) / ((1 + δ) * (1 - δ)) := by field_simp
  have hnum : Y / (1 - δ) * y₃ + X / (1 + δ) * x₃ =
      (Y * (1 + δ) * y₃ + X * (1 - δ) * x₃) / ((1 + δ) * (1 - δ)) := by field_simp
  have hne : 1 - d * (X / (1 + δ)) * x₃ * (Y / (1 - δ)) * y₃ ≠ 0 :=
    one_sub_ne_zero (onCurve_add h₁ h₂) h₃
  constructor
  · intro h
    rw [hden, h, zero_div] at hne
    exact hne rfl
  · show (Y / (1 - δ) * y₃ + X / (1 + δ) * x₃) /
      (1 - d * (X / (1 + δ)) * x₃ * (Y / (1 - δ)) * y₃) = _
    rw [hnum, hden, div_div_div_cancel_right₀ hpm]

/-- **Associativity**, in the first coordinate: cross-multiplied, it follows from the
equations of the three points. -/
theorem addX_assoc [Complete d] (h₁ : OnCurve d x₁ y₁) (h₂ : OnCurve d x₂ y₂)
    (h₃ : OnCurve d x₃ y₃) :
    addX d (addX d x₁ y₁ x₂ y₂) (addY d x₁ y₁ x₂ y₂) x₃ y₃ =
      addX d x₁ y₁ (addX d x₂ y₂ x₃ y₃) (addY d x₂ y₂ x₃ y₃) := by
  obtain ⟨hleft, heq⟩ := addX_add h₁ h₂ h₃
  obtain ⟨hright, heq'⟩ := addX_add h₂ h₃ h₁
  rw [addX_comm.trans heq', heq, div_eq_div_iff hleft hright]
  clear heq heq' hleft hright
  unfold OnCurve at h₁ h₂ h₃
  grind

/-- The same in the second coordinate. -/
theorem addY_assoc [Complete d] (h₁ : OnCurve d x₁ y₁) (h₂ : OnCurve d x₂ y₂)
    (h₃ : OnCurve d x₃ y₃) :
    addY d (addX d x₁ y₁ x₂ y₂) (addY d x₁ y₁ x₂ y₂) x₃ y₃ =
      addY d x₁ y₁ (addX d x₂ y₂ x₃ y₃) (addY d x₂ y₂ x₃ y₃) := by
  obtain ⟨hleft, heq⟩ := addY_add h₁ h₂ h₃
  obtain ⟨hright, heq'⟩ := addY_add h₂ h₃ h₁
  rw [addY_comm.trans heq', heq, div_eq_div_iff hleft hright]
  clear heq heq' hleft hright
  unfold OnCurve at h₁ h₂ h₃
  grind

/-! ### The group -/

/-- A point of the curve. -/
@[ext] structure Point (d : F) where
  x : F
  y : F
  onCurve : OnCurve d x y

namespace Point

instance : Zero (Point d) := ⟨⟨0, 1, by unfold OnCurve; ring⟩⟩

instance : Neg (Point d) :=
  ⟨fun P => ⟨-P.x, P.y, by have := P.onCurve; unfold OnCurve at *; rw [neg_sq, this]⟩⟩

instance [Complete d] : Add (Point d) :=
  ⟨fun P Q => ⟨addX d P.x P.y Q.x Q.y, addY d P.x P.y Q.x Q.y, onCurve_add P.onCurve Q.onCurve⟩⟩

@[simp] theorem zero_x : (0 : Point d).x = 0 := rfl

@[simp] theorem zero_y : (0 : Point d).y = 1 := rfl

@[simp] theorem neg_x (P : Point d) : (-P).x = -P.x := rfl

@[simp] theorem neg_y (P : Point d) : (-P).y = P.y := rfl

variable [Complete d]

theorem add_x (P Q : Point d) : (P + Q).x = addX d P.x P.y Q.x Q.y := rfl

theorem add_y (P Q : Point d) : (P + Q).y = addY d P.x P.y Q.x Q.y := rfl

protected theorem zero_add (P : Point d) : 0 + P = P :=
  Point.ext (by simp [add_x, addX]) (by simp [add_y, addY])

protected theorem add_comm (P Q : Point d) : P + Q = Q + P := Point.ext addX_comm addY_comm

protected theorem neg_add_cancel (P : Point d) : -P + P = 0 := by
  have hne := one_add_ne_zero P.onCurve P.onCurve
  have hP := P.onCurve
  unfold OnCurve at hP
  refine Point.ext ?_ ?_
  · rw [add_x, addX, neg_x, neg_y, zero_x]
    refine div_eq_zero_iff.mpr (Or.inl ?_)
    ring
  · rw [add_y, addY, neg_x, neg_y, zero_y, div_eq_one_iff_eq]
    · linear_combination hP
    · intro h
      exact hne (by linear_combination h)

/-- **The group of the curve.** -/
instance addCommGroup : AddCommGroup (Point d) where
  add_assoc P Q R :=
    Point.ext (addX_assoc P.onCurve Q.onCurve R.onCurve) (addY_assoc P.onCurve Q.onCurve R.onCurve)
  zero_add := Point.zero_add
  add_zero P := (Point.add_comm P 0).trans (Point.zero_add P)
  add_comm := Point.add_comm
  neg_add_cancel := Point.neg_add_cancel
  nsmul := nsmulRec
  zsmul := zsmulRec

end Point

/-! ### Extended coordinates -/

/-- `(X : Y : Z : T)`. -/
structure Extended (R : Type*) where
  X : R
  Y : R
  Z : R
  T : R

namespace Extended

/-- The coordinates are those of a point. -/
structure Represents (e : Extended F) (P : Point d) : Prop where
  ne_zero : e.Z ≠ 0
  X_eq : e.X = P.x * e.Z
  Y_eq : e.Y = P.y * e.Z
  T_eq : e.T = P.x * P.y * e.Z

/-- The addition without a division. -/
def add {R : Type*} [CommRing R] (d : R) (e f : Extended R) : Extended R :=
  let a := (e.Y - e.X) * (f.Y - f.X)
  let b := (e.X + e.Y) * (f.X + f.Y)
  let c := e.T * f.T * (2 * d)
  let g := e.Z * f.Z + e.Z * f.Z
  ⟨(b - a) * (g - c), (b + a) * (g + c), (g + c) * (g - c), (b - a) * (b + a)⟩

/-- **The addition in extended coordinates.** -/
theorem add_represents [Complete d] {e f : Extended F} {P Q : Point d} (he : e.Represents P)
    (hf : f.Represents Q) : (add d e f).Represents (P + Q) := by
  have hp := one_add_ne_zero P.onCurve Q.onCurve
  have hm := one_sub_ne_zero P.onCurve Q.onCurve
  have hz : 2 * (e.Z * f.Z) ≠ 0 :=
    mul_ne_zero (Complete.two_ne_zero d) (mul_ne_zero he.ne_zero hf.ne_zero)
  obtain ⟨-, heX, heY, heT⟩ := he
  obtain ⟨-, hfX, hfY, hfT⟩ := hf
  set z := 2 * (e.Z * f.Z) with hzdef
  set δ := d * P.x * Q.x * P.y * Q.y with hδ
  have hx : (P.x * Q.y + P.y * Q.x) = (P + Q).x * (1 + δ) := by
    rw [Point.add_x, addX, div_mul_cancel₀ _ hp]
  have hy : (P.y * Q.y + P.x * Q.x) = (P + Q).y * (1 - δ) := by
    rw [Point.add_y, addY, div_mul_cancel₀ _ hm]
  have hE : (e.X + e.Y) * (f.X + f.Y) - (e.Y - e.X) * (f.Y - f.X) = z * ((P + Q).x * (1 + δ)) := by
    rw [← hx, heX, heY, hfX, hfY, hzdef]
    ring
  have hH : (e.X + e.Y) * (f.X + f.Y) + (e.Y - e.X) * (f.Y - f.X) = z * ((P + Q).y * (1 - δ)) := by
    rw [← hy, heX, heY, hfX, hfY, hzdef]
    ring
  have hG : e.Z * f.Z + e.Z * f.Z + e.T * f.T * (2 * d) = z * (1 + δ) := by
    rw [heT, hfT, hzdef, hδ]
    ring
  have hF : e.Z * f.Z + e.Z * f.Z - e.T * f.T * (2 * d) = z * (1 - δ) := by
    rw [heT, hfT, hzdef, hδ]
    ring
  constructor
  · simp only [add, hG, hF]
    exact mul_ne_zero (mul_ne_zero hz hp) (mul_ne_zero hz hm)
  all_goals
    simp only [add, hE, hH, hG, hF]
    ring

/-- The neutral element. -/
def zero {R : Type*} [CommRing R] : Extended R := ⟨0, 1, 1, 0⟩

theorem zero_represents : (zero : Extended F).Represents (0 : Point d) :=
  ⟨one_ne_zero, by simp [zero], by simp [zero], by simp [zero]⟩

/-- A representation of zero. -/
theorem eq_zero_of_represents {e : Extended F} {P : Point d} (h : e.Represents P)
    (hX : e.X = 0) (hY : e.Y = e.Z) : P = 0 := by
  have hx := h.X_eq
  have hy := h.Y_eq
  rw [hX, eq_comm] at hx
  rw [hY] at hy
  refine Point.ext ((mul_eq_zero.mp hx).resolve_right h.ne_zero) ?_
  exact mul_right_cancel₀ h.ne_zero (hy.symm.trans (one_mul e.Z).symm)

/-! ### Multiples by integers modulo a number -/

/-- The coordinates in another ring. -/
def map {R S : Type*} [CommRing R] [CommRing S] (φ : R →+* S) (e : Extended R) : Extended S :=
  ⟨φ e.X, φ e.Y, φ e.Z, φ e.T⟩

theorem map_add {R S : Type*} [CommRing R] [CommRing S] (φ : R →+* S) (d : R)
    (e f : Extended R) : (add d e f).map φ = add (φ d) (e.map φ) (f.map φ) := by
  simp [add, map, map_ofNat]

/-- Integer coordinates modulo `m`. -/
def modulo (m : ℤ) (e : Extended ℤ) : Extended ℤ := ⟨e.X % m, e.Y % m, e.Z % m, e.T % m⟩

/-- `acc + n * e` modulo `m`, by doubling, for an `n` of up to `bits` bits. -/
def multiple (m d : ℤ) : (bits : ℕ) → (acc e : Extended ℤ) → ℕ → Extended ℤ
  | 0, acc, _, _ => acc
  | bits + 1, acc, e, n =>
      multiple m d bits (if n % 2 = 1 then (add d acc e).modulo m else acc)
        ((add d e e).modulo m) (n / 2)

theorem map_modulo {m : ℕ} (e : Extended ℤ) :
    (e.modulo m).map (Int.castRingHom (ZMod m)) = e.map (Int.castRingHom (ZMod m)) := by
  simp [modulo, map]

/-- **Multiples computed with integers.** -/
theorem multiple_represents {m : ℕ} [Fact m.Prime] {d : ℤ} {c : ZMod m} [Complete c]
    (hd : (d : ZMod m) = c) (bits : ℕ) {n : ℕ} {acc e : Extended ℤ} {A P : Point c}
    (hn : n < 2 ^ bits)
    (hacc : (acc.map (Int.castRingHom (ZMod m))).Represents A)
    (he : (e.map (Int.castRingHom (ZMod m))).Represents P) :
    ((multiple m d bits acc e n).map (Int.castRingHom (ZMod m))).Represents (A + n • P) := by
  induction bits generalizing acc e A P n with
  | zero =>
    obtain rfl : n = 0 := Nat.lt_one_iff.mp hn
    rwa [zero_nsmul, add_zero]
  | succ bits ih =>
    have hhalf : n / 2 < 2 ^ bits := by
      rw [pow_succ] at hn
      omega
    have hstep : ∀ {a b : Extended ℤ} {Q R : Point c},
        (a.map (Int.castRingHom (ZMod m))).Represents Q →
        (b.map (Int.castRingHom (ZMod m))).Represents R →
        (((add d a b).modulo m).map (Int.castRingHom (ZMod m))).Represents (Q + R) := by
      intro a b Q R ha hb
      rw [map_modulo, map_add, eq_intCast, hd]
      exact add_represents ha hb
    have hsplit : A + n • P = A + (n % 2) • P + (n / 2) • (P + P) := by
      rw [add_assoc, ← two_nsmul, ← mul_nsmul', ← add_nsmul, mul_comm, Nat.mod_add_div]
    rw [hsplit, multiple]
    refine ih hhalf ?_ (hstep he he)
    rcases Nat.mod_two_eq_zero_or_one n with h | h
    · rwa [h, if_neg (by decide), zero_nsmul, add_zero]
    · rw [h, if_pos rfl, one_nsmul]
      exact hstep hacc he

end Extended

end Edwards
