import Mathlib
import Llamaste.Lib.Text

/-!
# Address texts

Which texts `inet_pton` takes for an address: four decimal numbers below 256 without leading
zeros, or eight groups of hexadecimal digits, where one run of zero groups may be left out and
the last two groups may be written as four decimal numbers.

## Main results

* `Inet.addressChars_of_pton`: an address is made of hexadecimal digits, colons and points.
-/

namespace Inet

/-- The value of a row of decimal digits. -/
def decimal (digits : Text) : ℕ := digits.foldl (fun v c => 10 * v + (c.toNat - '0'.toNat)) 0

/-- The last `n` numbers of an address. -/
def numbers : ℕ → Text → Bool
  | 0, _ => false
  | n + 1, s =>
    let digits := (s.takeWhile Char.isDigit).take 3
    if digits = [] ∨ (1 < digits.length ∧ digits.head? = some '0') ∨ 255 < decimal digits then
      false
    else
      match s.drop digits.length with
      | [] => n = 0
      | '.' :: rest => numbers n rest
      | _ => false

/-- `inet_pton(AF_INET, ..)`. -/
def pton4 (s : Text) : Bool := numbers 4 s

/-- A hexadecimal digit. -/
def isHex (c : Char) : Bool :=
  c.isDigit || ('a' ≤ c && c ≤ 'f') || ('A' ≤ c && c ≤ 'F')

/-- The groups of an address from the `i`-th on; `short` tells that groups were left out. -/
def groups : ℕ → ℕ → Bool → Text → Bool
  | 0, _, _, _ => false
  | fuel + 1, i, short, s =>
    if s.head? = some ':' ∧ short = false then
      if s.tail = [] then true
      else if i = 7 then false
      else groups fuel (i + 1) true s.tail
    else
      let digits := (s.takeWhile isHex).take 4
      let rest := s.drop digits.length
      if digits = [] then false
      else if rest = [] ∧ (short = true ∨ i = 7) then true
      else if i = 7 then false
      else
        match rest with
        | ':' :: rest => groups fuel (i + 1) short rest
        | '.' :: _ => (6 ≤ i || short) && pton4 s
        | _ => false

/-- `inet_pton(AF_INET6, ..)`. -/
def pton6 (s : Text) : Bool :=
  if s.head? = some ':' then
    if s.tail.head? = some ':' then groups 9 0 false s.tail else false
  else groups 9 0 false s

/-! ### What an address is made of -/

/-- The characters of addresses. -/
def isAddressChar (c : Char) : Bool := isHex c || c = ':' || c = '.'

theorem isAddressChar_of_isDigit {c : Char} (h : c.isDigit = true) : isAddressChar c = true := by
  rw [isAddressChar, isHex, h]
  rfl

theorem isAddressChar_of_isHex {c : Char} (h : isHex c = true) : isAddressChar c = true := by
  rw [isAddressChar, h]
  rfl

/-- A row of characters that is taken off the front, and the rest. -/
theorem all_of_take {p : Char → Bool} (hp : ∀ c, p c = true → isAddressChar c = true) {s : Text}
    (n : ℕ) (h : (s.drop ((s.takeWhile p).take n).length).all isAddressChar = true) :
    s.all isAddressChar = true := by
  have hprefix : (s.takeWhile p).take n <+: s :=
    (List.take_prefix _ _).trans (List.takeWhile_prefix _)
  obtain ⟨t, ht⟩ := hprefix
  have hdrop : s.drop ((s.takeWhile p).take n).length = t :=
    (congrArg (List.drop _) ht.symm).trans List.drop_left
  have hfront : ((s.takeWhile p).take n).all isAddressChar = true :=
    List.all_eq_true.mpr fun c hc => hp c (List.mem_takeWhile_imp (List.mem_of_mem_take hc))
  rw [hdrop] at h
  rw [← ht, List.all_append, h, hfront]
  rfl

theorem all_of_numbers {n : ℕ} {s : Text} (h : numbers n s = true) :
    s.all isAddressChar = true := by
  induction n generalizing s with
  | zero => cases h
  | succ n ih =>
    rw [numbers] at h
    split_ifs at h
    refine all_of_take (fun c => isAddressChar_of_isDigit) 3 ?_
    split at h
    · rename_i hrest
      rw [hrest]
      rfl
    · rename_i rest hrest
      rw [hrest, List.all_cons, ih h]
      rfl
    · cases h

theorem all_of_groups {fuel i : ℕ} {short : Bool} {s : Text} (h : groups fuel i short s = true) :
    s.all isAddressChar = true := by
  induction fuel generalizing i short s with
  | zero => cases h
  | succ fuel ih =>
    rw [groups] at h
    dsimp only at h
    split_ifs at h with hcolon htail hseven hnone hend hseven
    · obtain ⟨t, rfl⟩ := List.head?_eq_some_iff.mp hcolon.1
      obtain rfl : t = [] := htail
      rfl
    · obtain ⟨t, rfl⟩ := List.head?_eq_some_iff.mp hcolon.1
      rw [List.all_cons, show t.all isAddressChar = true from ih h]
      rfl
    · refine all_of_take (fun c => isAddressChar_of_isHex) 4 ?_
      rw [hend.1]
      rfl
    · split at h
      · rename_i rest hrest
        refine all_of_take (fun c => isAddressChar_of_isHex) 4 ?_
        rw [hrest, List.all_cons, ih h]
        rfl
      · exact all_of_numbers (Bool.and_eq_true_iff.mp h).2
      · cases h

/-- **What an address is made of.** -/
theorem addressChars_of_pton {s : Text} (h : pton4 s = true ∨ pton6 s = true) :
    ∀ c ∈ s, isAddressChar c = true := by
  refine List.all_eq_true.mp ?_
  rcases h with h | h
  · exact all_of_numbers h
  · rw [pton6] at h
    split_ifs at h with hcolon
    · obtain ⟨t, rfl⟩ := List.head?_eq_some_iff.mp hcolon
      rw [List.all_cons, show t.all isAddressChar = true from all_of_groups h]
      rfl
    · exact all_of_groups h

example : pton4 "192.168.1.10".toList = true ∧ pton4 "192.168.01.10".toList = false ∧
    pton6 "fe80::1:2".toList = true ∧ pton6 "::ffff:10.0.0.1".toList = true ∧
    pton6 "1:2:3:4:5:6:7".toList = false := by decide

end Inet
