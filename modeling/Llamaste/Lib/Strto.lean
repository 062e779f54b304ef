import Llamaste.Lib.JsonText

/-!
# Numbers at the start of a text

The conversions of the C library: white space, a sign and digits are read, and what
follows them is ignored. A text without digits gives no number.
-/

namespace Strto

/-- The sign and the digits that a conversion reads. -/
def scan (s : Text) : Option (Bool × Text) :=
  let (neg, r) := Json.scanSign (s.dropWhile Text.isSpace)
  let digits := r.takeWhile Char.isDigit
  if digits = [] then none else some (neg, digits)

/-- `strtol(s, &end, 10)`: a number outside the 64-bit range gives the bound it is past. -/
def strtol (s : Text) : Option ℤ :=
  (scan s).map fun (neg, digits) => max (-2 ^ 63) (min (Json.signed neg digits) (2 ^ 63 - 1))

/-- `std::stoul(s)`: a negated number wraps around, and without digits or past 64 bits it
throws. -/
def stoul (s : Text) : Option ℕ :=
  match scan (Text.cStr s) with
  | none => none
  | some (neg, digits) =>
      let n := Nat.ofDigitChars 10 digits 0
      if 2 ^ 64 ≤ n then none else some (if neg then (2 ^ 64 - n) % 2 ^ 64 else n)

/-- `std::stoi(s)`: without digits, or for a number that is no `int`, it throws. -/
def stoi (s : Text) : Option ℤ := do
  let n ← strtol (Text.cStr s)
  if -2 ^ 31 ≤ n ∧ n < 2 ^ 31 then some n else none

/-- `atoi(s)`: zero without digits, and the low 32 bits of a number that is no `int`. -/
def atoi (s : Text) : ℤ := ((strtol s).getD 0).bmod (2 ^ 32)

theorem isSpace_of_isDigit {c : Char} (hc : c.isDigit = true) : Text.isSpace c = false := by
  cases hspace : Text.isSpace c with
  | false => rfl
  | true =>
      simp only [Text.isSpace, Bool.or_eq_true, decide_eq_true_eq, or_assoc] at hspace
      rcases hspace with rfl | rfl | rfl | rfl | rfl | rfl <;> exact absurd hc (by decide)

/-- Text that starts like a number and is digits behind its sign is read to its end. -/
theorem scan_of_sign {c : Char} {r digits : Text} {neg : Bool} (hspace : Text.isSpace c = false)
    (hsign : Json.scanSign (c :: r) = (neg, digits)) (hne : digits ≠ [])
    (hdigits : ∀ c ∈ digits, c.isDigit = true) : scan (c :: r) = some (neg, digits) := by
  have htake : digits.takeWhile Char.isDigit = digits := List.takeWhile_eq_self_iff.mpr hdigits
  rw [scan, List.dropWhile_cons_of_neg (by simp [hspace])]
  simp only [hsign, htake, hne, if_false]

/-- A text of digits is read to its end. -/
theorem scan_of_digits {s : Text} (hne : s ≠ []) (hdigits : ∀ c ∈ s, c.isDigit = true) :
    scan s = some (false, s) := by
  obtain ⟨c, r, rfl⟩ := List.exists_cons_of_ne_nil hne
  have hc := hdigits c List.mem_cons_self
  have hsign : Json.scanSign (c :: r) = (false, c :: r) := by
    rw [Json.scanSign]
    · rintro t ⟨⟩
      exact absurd hc (by decide)
    · rintro t ⟨⟩
      exact absurd hc (by decide)
  exact scan_of_sign (isSpace_of_isDigit hc) hsign hne hdigits

/-- A plain numeral is read as its number. -/
theorem stoul_of_digits {s : Text} (hne : s ≠ []) (hdigits : ∀ c ∈ s, c.isDigit = true)
    (hlt : Nat.ofDigitChars 10 s 0 < 2 ^ 64) : stoul s = some (Nat.ofDigitChars 10 s 0) := by
  have hcStr : Text.cStr s = s := Text.cStr_eq_self fun h => absurd (hdigits _ h) (by decide)
  simp only [stoul, hcStr, scan_of_digits hne hdigits, if_neg (not_le.mpr hlt),
    Bool.false_eq_true, if_false]

/-- Decimal integers: digits, with a sign in front of them or without. -/
inductive Numeral : Text → ℤ → Prop
  | plain {digits : Text} (hne : digits ≠ []) (hdigits : ∀ c ∈ digits, c.isDigit = true) :
      Numeral digits (Nat.ofDigitChars 10 digits 0)
  | plus {digits : Text} (hne : digits ≠ []) (hdigits : ∀ c ∈ digits, c.isDigit = true) :
      Numeral ('+' :: digits) (Nat.ofDigitChars 10 digits 0)
  | minus {digits : Text} (hne : digits ≠ []) (hdigits : ∀ c ∈ digits, c.isDigit = true) :
      Numeral ('-' :: digits) (-(Nat.ofDigitChars 10 digits 0 : ℤ))

/-- A decimal integer has no character but its sign and its digits. -/
theorem Numeral.mem {s : Text} {v : ℤ} (h : Numeral s v) :
    ∀ c ∈ s, c = '+' ∨ c = '-' ∨ c.isDigit = true := by
  cases h with
  | plain hne hdigits => exact fun c hc => Or.inr (Or.inr (hdigits c hc))
  | plus hne hdigits =>
      exact List.forall_mem_cons.mpr ⟨Or.inl rfl, fun c hc => Or.inr (Or.inr (hdigits c hc))⟩
  | minus hne hdigits =>
      exact List.forall_mem_cons.mpr
        ⟨Or.inr (Or.inl rfl), fun c hc => Or.inr (Or.inr (hdigits c hc))⟩

theorem Numeral.cStr {s : Text} {v : ℤ} (h : Numeral s v) : Text.cStr s = s := by
  refine Text.cStr_eq_self fun hzero => ?_
  rcases h.mem _ hzero with h | h | h <;> exact absurd h (by decide)

/-- **A decimal integer of 64 bits is read as its number.** -/
theorem strtol_of_numeral {s : Text} {v : ℤ} (h : Numeral s v) (hlow : -2 ^ 63 ≤ v)
    (hhigh : v ≤ 2 ^ 63 - 1) : strtol s = some v := by
  have hscan : ∃ neg digits, scan s = some (neg, digits) ∧ Json.signed neg digits = v := by
    cases h with
    | plain hne hdigits => exact ⟨false, _, scan_of_digits hne hdigits, rfl⟩
    | plus hne hdigits => exact ⟨false, _, scan_of_sign (by decide) rfl hne hdigits, rfl⟩
    | minus hne hdigits => exact ⟨true, _, scan_of_sign (by decide) rfl hne hdigits, rfl⟩
  obtain ⟨neg, digits, hread, hv⟩ := hscan
  rw [strtol, hread, Option.map_some]
  simp only [hv]
  exact congrArg some (by omega)

/-- A written integer is a decimal. -/
theorem numeral_dumpInt (n : ℤ) : Numeral (Json.dumpInt n) n := by
  have hdigits : ∀ c ∈ Nat.toDigits 10 n.natAbs, c.isDigit = true := Text.isDigit_toDigits
  rw [Json.dumpInt]
  split
  · have hvalue : -(n.natAbs : ℤ) = n := by omega
    have hminus := Numeral.minus Nat.toDigits_ne_nil hdigits
    rwa [Nat.ofDigitChars_ten_toDigits, hvalue] at hminus
  · have hvalue : (n.natAbs : ℤ) = n := by omega
    have hplain := Numeral.plain Nat.toDigits_ne_nil hdigits
    rwa [Nat.ofDigitChars_ten_toDigits, hvalue] at hplain

theorem not_mem_dumpInt {c : Char} (hc : c ≠ '+' ∧ c ≠ '-' ∧ c.isDigit = false) (n : ℤ) :
    c ∉ Json.dumpInt n := fun hmem => by
  rcases (numeral_dumpInt n).mem c hmem with h | h | h
  · exact hc.1 h
  · exact hc.2.1 h
  · exact absurd (hc.2.2.symm.trans h) Bool.false_ne_true

/-- A written `int` is read back. -/
theorem stoi_dumpInt {n : ℤ} (h : -2 ^ 31 ≤ n ∧ n < 2 ^ 31) :
    stoi (Json.dumpInt n) = some n := by
  rw [stoi, (numeral_dumpInt n).cStr,
    strtol_of_numeral (numeral_dumpInt n) (by omega) (by omega)]
  exact if_pos h

/-- A text of digits is read as an `int` if it has digits and they make one. -/
theorem stoi_of_digits {s : Text} (hdigits : ∀ c ∈ s, c.isDigit = true) :
    stoi s = if s = [] ∨ 2 ^ 31 ≤ Nat.ofDigitChars 10 s 0 then none
      else some (Nat.ofDigitChars 10 s 0 : ℤ) := by
  have hcStr : Text.cStr s = s := Text.cStr_eq_self fun h => absurd (hdigits _ h) (by decide)
  rw [stoi, hcStr]
  by_cases hne : s = []
  · subst hne
    rfl
  have hread : strtol s =
      some (max (-2 ^ 63) (min (Nat.ofDigitChars 10 s 0 : ℤ) (2 ^ 63 - 1))) := by
    rw [strtol, scan_of_digits hne hdigits]
    rfl
  rw [hread, Option.bind_eq_bind, Option.bind_some]
  by_cases hlarge : 2 ^ 31 ≤ Nat.ofDigitChars 10 s 0
  · rw [if_pos (Or.inr hlarge), if_neg (by omega)]
  · rw [if_neg (not_or.mpr ⟨hne, hlarge⟩), if_pos (by omega)]
    exact congrArg some (by omega)

end Strto
