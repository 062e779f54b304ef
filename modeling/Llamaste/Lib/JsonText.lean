import Llamaste.Lib.JsonString

/-!
# JSON text

Reading and writing JSON values. Integers that fit a 64-bit type stay integers, a
repeated member key keeps its last value, and the reader either demands the end of the
text after the value (`parse`) or leaves the rest (`parsePrefix`). A value is written in
any `Layout`, compact or indented.

Values nest, so the reader carries a fuel that bounds the nesting; the length of the text
is always enough.

## Main results

* `Json.parse_dumpAt`, `Json.parsePrefix_dumpAt`: a written value is read back, in any
  layout, by either reader.
-/

namespace Json

/-! ### Reading -/

/-- White space between tokens. -/
def isWs (c : Char) : Bool := c = ' ' || c = '\t' || c = '\n' || c = '\r'

/-- The text from the next token on. -/
def skipWs (s : Text) : Text := s.dropWhile isWs

/-- The integer part of a number: a single zero, or digits. -/
def scanInt : Text → Option (Text × Text)
  | '0' :: r => some (['0'], r)
  | s =>
      if s.takeWhile Char.isDigit = [] then none
      else some (s.takeWhile Char.isDigit, s.dropWhile Char.isDigit)

/-- The fraction of a number, if a point follows. -/
def scanFrac : Text → Option (Text × Text)
  | '.' :: r =>
      if r.takeWhile Char.isDigit = [] then none
      else some (r.takeWhile Char.isDigit, r.dropWhile Char.isDigit)
  | s => some ([], s)

/-- An optional sign: whether it is a minus, and the text after it. -/
def scanSign : Text → Bool × Text
  | '-' :: r => (true, r)
  | '+' :: r => (false, r)
  | s => (false, s)

/-- An integer with the given sign and digits. -/
def signed (neg : Bool) (digits : Text) : ℤ :=
  if neg then -(Nat.ofDigitChars 10 digits 0 : ℤ) else Nat.ofDigitChars 10 digits 0

/-- The exponent of a number, if there is one. -/
def scanExp : Text → Option (Option ℤ × Text)
  | [] => some (none, [])
  | c :: r =>
      if c = 'e' ∨ c = 'E' then
        let (neg, r) := scanSign r
        if r.takeWhile Char.isDigit = [] then none
        else some (some (signed neg (r.takeWhile Char.isDigit)), r.dropWhile Char.isDigit)
      else some (none, c :: r)

/-- The integers that fit `int64_t` or `uint64_t`. -/
def FitsInteger (n : ℤ) : Prop := -2 ^ 63 ≤ n ∧ n < 2 ^ 64

instance (n : ℤ) : Decidable (FitsInteger n) := inferInstanceAs (Decidable (_ ∧ _))

/-- The least decimal that rounds to an infinite `double`. -/
def doubleOverflow : ℕ := (2 ^ 54 - 1) * (2 ^ 97) ^ 10

/-- The decimals `m * 10 ^ e` that do not overflow a `double`. -/
def FitsDouble (m e : ℤ) : Prop :=
  m.natAbs * 10 ^ e.toNat < doubleOverflow * 10 ^ (-e).toNat

instance (m e : ℤ) : Decidable (FitsDouble m e) := inferInstanceAs (Decidable (_ < _))

/-- A decimal, unless it overflows. -/
def mkFloat (m e : ℤ) : Option Json := if FitsDouble m e then some (.float m e) else none

/-- The value of a scanned number. -/
def mkNumber (neg : Bool) (ip fp : Text) (ex : Option ℤ) : Option Json :=
  match fp, ex with
  | [], none =>
      if FitsInteger (signed neg ip) then some (.int (signed neg ip))
      else mkFloat (signed neg ip) 0
  | fp, ex => mkFloat (signed neg (ip ++ fp)) (ex.getD 0 - fp.length)

/-- A number. -/
def parseNumber (s : Text) : Option (Json × Text) := do
  let neg := s.head? = some '-'
  let (ip, r) ← scanInt (if neg then s.tail else s)
  let (fp, r) ← scanFrac r
  let (ex, r) ← scanExp r
  (mkNumber neg ip fp ex).map fun j => (j, r)

/-- One of the three literal names, or a number. -/
def parseScalar (s : Text) : Option (Json × Text) :=
  if ("null" : Text).isPrefixOf s then some (.null, s.drop 4)
  else if ("true" : Text).isPrefixOf s then some (.bool true, s.drop 4)
  else if ("false" : Text).isPrefixOf s then some (.bool false, s.drop 5)
  else parseNumber s

mutual

/-- A value, after white space. -/
def parseValue : ℕ → Text → Option (Json × Text)
  | 0, _ => none
  | n + 1, s =>
      match skipWs s with
      | '"' :: r => (scanString (.text Utf8.start) r).map fun (t, r) => (.str t, r)
      | '[' :: r =>
          match skipWs r with
          | ']' :: r => some (.arr [], r)
          | r => (parseElems n r).map fun (js, r) => (.arr js, r)
      | '{' :: r =>
          match skipWs r with
          | '}' :: r => some (.obj [], r)
          | r => (parseMembers n r).map fun (ms, r) => (object ms, r)
      | s => parseScalar s

/-- The elements of an array, up to its closing bracket. -/
def parseElems : ℕ → Text → Option (List Json × Text)
  | 0, _ => none
  | n + 1, s =>
      match parseValue n s with
      | none => none
      | some (j, r) =>
          match skipWs r with
          | ',' :: r => (parseElems n r).map fun (js, r) => (j :: js, r)
          | ']' :: r => some ([j], r)
          | _ => none

/-- The members of an object in text order, up to its closing brace. -/
def parseMembers : ℕ → Text → Option (List (Text × Json) × Text)
  | 0, _ => none
  | n + 1, s =>
      match skipWs s with
      | '"' :: r =>
          match scanString (.text Utf8.start) r with
          | none => none
          | some (k, r) =>
              match skipWs r with
              | ':' :: r =>
                  match parseValue n r with
                  | none => none
                  | some (j, r) =>
                      match skipWs r with
                      | ',' :: r => (parseMembers n r).map fun (ms, r) => ((k, j) :: ms, r)
                      | '}' :: r => some ([(k, j)], r)
                      | _ => none
              | _ => none
      | _ => none

end

/-- The byte order mark that may start a text. -/
def skipBom (s : Text) : Text :=
  if [Char.ofNat 0xEF, Char.ofNat 0xBB, Char.ofNat 0xBF].isPrefixOf s then s.drop 3 else s

/-- The value at the start of a text, whatever follows it (`stream >> j`). -/
def parsePrefix (s : Text) : Option Json :=
  (parseValue ((skipBom s).length + 1) (skipBom s)).map Prod.fst

/-- The value of a whole text (`json::parse`). A zero byte between tokens ends the text. -/
def parse (s : Text) : Option Json :=
  match parseValue ((skipBom s).length + 1) (skipBom s) with
  | some (j, r) =>
      if skipWs r = [] ∨ (skipWs r).head? = some (Char.ofNat 0) then some j else none
  | none => none

/-! ### Writing -/

/-- How tokens are set out: the white space before an element or a closing bracket at a
nesting depth, and the white space after a colon. -/
structure Layout where
  newline : ℕ → Text
  afterColon : Text
  newline_ws : ∀ d, (newline d).all isWs = true
  afterColon_ws : afterColon.all isWs = true

/-- `dump()`: no white space. -/
def Layout.compact : Layout where
  newline _ := []
  afterColon := []
  newline_ws _ := rfl
  afterColon_ws := rfl

/-- `dump(width)`: one token a line. -/
def Layout.indented (width : ℕ) : Layout where
  newline d := '\n' :: List.replicate (width * d) ' '
  afterColon := [' ']
  newline_ws d := by simp [isWs]
  afterColon_ws := rfl

/-- An integer in decimal. -/
def dumpInt (n : ℤ) : Text :=
  if n < 0 then '-' :: Nat.toDigits 10 n.natAbs else Nat.toDigits 10 n.natAbs

mutual

/-- The text of a value at a nesting depth. Decimals are written with an exponent. -/
def dumpAt (L : Layout) (d : ℕ) : Json → Text
  | .null => "null"
  | .bool b => if b then "true" else "false"
  | .int n => dumpInt n
  | .float m e => dumpInt m ++ 'e' :: dumpInt e
  | .str s => dumpString s
  | .arr [] => "[]"
  | .arr (j :: js) =>
      '[' :: (L.newline (d + 1) ++ dumpAt L (d + 1) j ++ dumpElems L (d + 1) js ++
        L.newline d ++ [']'])
  | .obj [] => "{}"
  | .obj ((k, j) :: ms) =>
      '{' :: (L.newline (d + 1) ++ dumpString k ++ ':' :: L.afterColon ++
        dumpAt L (d + 1) j ++ dumpMembers L (d + 1) ms ++ L.newline d ++ ['}'])

/-- The elements of an array after the first. -/
def dumpElems (L : Layout) (d : ℕ) : List Json → Text
  | [] => []
  | j :: js => ',' :: (L.newline d ++ dumpAt L d j ++ dumpElems L d js)

/-- The members of an object after the first. -/
def dumpMembers (L : Layout) (d : ℕ) : List (Text × Json) → Text
  | [] => []
  | (k, j) :: ms =>
      ',' :: (L.newline d ++ dumpString k ++ ':' :: L.afterColon ++ dumpAt L d j ++
        dumpMembers L d ms)

end

/-! ### Numbers are read back -/

/-- A text that does not continue a number or a name: it is empty, or starts with white
space or a closing or separating token. -/
def Delimited (r : Text) : Prop :=
  ∀ c ∈ r.head?, c = ',' ∨ c = ']' ∨ c = '}' ∨ isWs c = true

theorem Delimited.not_digit {r : Text} (hr : Delimited r) :
    ∀ c ∈ r.head?, c.isDigit = false := by
  intro c hc
  rcases hr c hc with rfl | rfl | rfl | hws
  · rfl
  · rfl
  · rfl
  · simp only [isWs, Bool.or_eq_true, decide_eq_true_eq] at hws
    rcases hws with ((rfl | rfl) | rfl) | rfl <;> rfl

theorem digitChar_ne_zero : ∀ n < 10, 0 < n → Nat.digitChar n ≠ '0' := by
  decide

/-- A positive numeral does not start with zero. -/
theorem head?_toDigits_ne_zero {n : ℕ} (hn : 0 < n) : (Nat.toDigits 10 n).head? ≠ some '0' := by
  induction n using Nat.strong_induction_on with
  | _ n ih =>
      by_cases hlt : n < 10
      · rw [Nat.toDigits_of_lt_base hlt]
        simpa using digitChar_ne_zero n hlt hn
      · have hdiv : 0 < n / 10 := by omega
        rw [Nat.toDigits_of_base_le (by decide) (not_lt.mp hlt), List.head?_append]
        have := ih (n / 10) (by omega) hdiv
        cases hd : Nat.toDigits 10 (n / 10) with
        | nil => exact absurd hd Nat.toDigits_ne_nil
        | cons c cs => simpa [hd] using this

theorem scanInt_toDigits (n : ℕ) {r : Text} (hr : ∀ c ∈ r.head?, c.isDigit = false) :
    scanInt (Nat.toDigits 10 n ++ r) = some (Nat.toDigits 10 n, r) := by
  rcases Nat.eq_zero_or_pos n with rfl | hn
  · rfl
  · obtain ⟨htake, hdrop⟩ := Text.takeWhile_dropWhile_append (s := Nat.toDigits 10 n)
      Text.isDigit_toDigits hr
    have hhead := head?_toDigits_ne_zero hn
    have hne : Nat.toDigits 10 n ≠ [] := Nat.toDigits_ne_nil
    simp only [scanInt]
    split
    · rename_i r' heq
      cases hd : Nat.toDigits 10 n with
      | nil => exact absurd hd hne
      | cons c cs =>
          rw [hd, List.cons_append, List.cons.injEq] at heq
          exact absurd (by rw [hd, heq.1]; rfl) hhead
    · rw [htake, hdrop, if_neg hne]

theorem signed_toDigits (n : ℤ) : signed (decide (n < 0)) (Nat.toDigits 10 n.natAbs) = n := by
  rw [signed]
  rw [Nat.ofDigitChars_ten_toDigits]
  by_cases hn : n < 0
  · rw [if_pos (by simpa using hn)]
    omega
  · rw [if_neg (by simpa using hn)]
    omega

/-- The integer part of a written integer, with its sign. -/
theorem scanInt_dumpInt (n : ℤ) {r : Text} (hr : ∀ c ∈ r.head?, c.isDigit = false) :
    let s := dumpInt n ++ r
    decide (s.head? = some '-') = decide (n < 0) ∧
      scanInt (if s.head? = some '-' then s.tail else s) =
        some (Nat.toDigits 10 n.natAbs, r) := by
  by_cases hn : n < 0
  · simp only [dumpInt, if_pos hn, List.cons_append, List.head?_cons, List.tail_cons, if_true,
      scanInt_toDigits _ hr]
    simp [hn]
  · have hhead : (Nat.toDigits 10 n.natAbs ++ r).head? ≠ some '-' := by
      cases hd : Nat.toDigits 10 n.natAbs with
      | nil => exact absurd hd Nat.toDigits_ne_nil
      | cons c cs =>
          have hc : c.isDigit = true :=
            Text.isDigit_toDigits c (by rw [hd]; exact List.mem_cons_self)
          rw [List.cons_append, List.head?_cons]
          rintro ⟨⟩
          exact absurd hc (by decide)
    simp only [dumpInt, if_neg hn, if_neg hhead, scanInt_toDigits _ hr]
    simpa [hn] using hhead

theorem scanFrac_of_not_point {r : Text} (hr : r.head? ≠ some '.') : scanFrac r = some ([], r) := by
  simp only [scanFrac]
  split
  · simp at hr
  · rfl

theorem Delimited.not_point {r : Text} (hr : Delimited r) : r.head? ≠ some '.' := by
  intro h
  rcases hr '.' h with h | h | h | h <;> revert h <;> decide

theorem Delimited.scanExp {r : Text} (hr : Delimited r) : scanExp r = some (none, r) := by
  cases r with
  | nil => rfl
  | cons c r =>
      have hc : ¬ (c = 'e' ∨ c = 'E') := by
        rintro (rfl | rfl)
        · rcases hr 'e' rfl with h | h | h | h <;> revert h <;> decide
        · rcases hr 'E' rfl with h | h | h | h <;> revert h <;> decide
      rw [Json.scanExp, if_neg hc]

theorem parseNumber_dumpInt {n : ℤ} {r : Text} (hn : FitsInteger n) (hr : Delimited r) :
    parseNumber (dumpInt n ++ r) = some (.int n, r) := by
  obtain ⟨hneg, hint⟩ := scanInt_dumpInt n hr.not_digit
  simp only [parseNumber, hint, Option.bind_eq_bind, Option.bind_some,
    scanFrac_of_not_point hr.not_point, hr.scanExp, hneg, mkNumber, signed_toDigits, if_pos hn,
    Option.map_some]

theorem scanSign_dumpInt (n : ℤ) (r : Text) :
    scanSign (dumpInt n ++ r) = (decide (n < 0), Nat.toDigits 10 n.natAbs ++ r) := by
  by_cases hn : n < 0
  · simp [dumpInt, scanSign, hn]
  · rw [dumpInt, if_neg hn]
    cases hd : Nat.toDigits 10 n.natAbs with
    | nil => exact absurd hd Nat.toDigits_ne_nil
    | cons c cs =>
        have hc : c.isDigit = true := Text.isDigit_toDigits c (by rw [hd]; exact List.mem_cons_self)
        simp only [scanSign]
        split
        · rename_i heq
          obtain rfl := (List.cons.inj heq).1
          exact absurd hc (by decide)
        · rename_i heq
          obtain rfl := (List.cons.inj heq).1
          exact absurd hc (by decide)
        · simp [hn]

theorem parseNumber_dumpFloat {m e : ℤ} {r : Text} (hfits : FitsDouble m e)
    (hr : Delimited r) :
    parseNumber (dumpInt m ++ 'e' :: dumpInt e ++ r) = some (.float m e, r) := by
  rw [List.append_assoc, List.cons_append]
  obtain ⟨hneg, hint⟩ := scanInt_dumpInt m (r := 'e' :: (dumpInt e ++ r))
    (by rintro c ⟨⟩; rfl)
  obtain ⟨htake, hdrop⟩ := Text.takeWhile_dropWhile_append (s := Nat.toDigits 10 e.natAbs)
    Text.isDigit_toDigits hr.not_digit
  have hexp : scanExp ('e' :: (dumpInt e ++ r)) = some (some e, r) := by
    simp only [scanExp, true_or, if_true, scanSign_dumpInt, htake, hdrop,
      if_neg (Nat.toDigits_ne_nil (n := e.natAbs) (b := 10)), signed_toDigits]
  simp only [parseNumber, hint, Option.bind_eq_bind, Option.bind_some,
    scanFrac_of_not_point (r := 'e' :: (dumpInt e ++ r)) (by simp), hexp, hneg, mkNumber,
    List.append_nil, signed_toDigits]
  simp [mkFloat, hfits]

/-! ### Values are read back -/

/-- The values a library can write and read back: 64-bit integers, finite decimals, strings
and keys in UTF-8, members in strict key order. -/
inductive WellFormed : Json → Prop
  | null : WellFormed .null
  | bool (b : Bool) : WellFormed (.bool b)
  | int {n : ℤ} (h : FitsInteger n) : WellFormed (.int n)
  | float {m e : ℤ} (h : FitsDouble m e) : WellFormed (.float m e)
  | str {s : Text} (h : Utf8.valid s = true) : WellFormed (.str s)
  | arr {js : List Json} (h : ∀ j ∈ js, WellFormed j) : WellFormed (.arr js)
  | obj {ms : List (Text × Json)} (hsorted : ms.Pairwise fun a b => a.1 < b.1)
      (hkeys : ∀ kv ∈ ms, Utf8.valid kv.1 = true) (h : ∀ kv ∈ ms, WellFormed kv.2) :
      WellFormed (.obj ms)

theorem skipWs_append {ws : Text} (hws : ws.all isWs = true) (s : Text) :
    skipWs (ws ++ s) = skipWs s := by
  rw [skipWs, List.dropWhile_append_of_pos (by simpa using hws), skipWs]

@[simp] theorem skipWs_cons {c : Char} (hc : isWs c = false) (s : Text) :
    skipWs (c :: s) = c :: s := by
  simp [skipWs, hc]

theorem Delimited.cons {c : Char} (hc : c = ',' ∨ c = ']' ∨ c = '}') (r : Text) :
    Delimited (c :: r) := by
  rintro c' ⟨⟩
  tauto

theorem Delimited.append_ws {ws r : Text} (hws : ws.all isWs = true) (hr : Delimited r) :
    Delimited (ws ++ r) := by
  cases ws with
  | nil => exact hr
  | cons c ws =>
      rintro c' ⟨⟩
      exact Or.inr (Or.inr (Or.inr (by simpa using (List.all_eq_true.mp hws) c (by simp))))

/-- What the first byte of a written integer can be. -/
theorem dumpInt_head (n : ℤ) : ∃ c t, dumpInt n = c :: t ∧ (c = '-' ∨ c.isDigit = true) := by
  by_cases hn : n < 0
  · exact ⟨'-', _, by rw [dumpInt, if_pos hn], Or.inl rfl⟩
  · rw [dumpInt, if_neg hn]
    cases hd : Nat.toDigits 10 n.natAbs with
    | nil => exact absurd hd Nat.toDigits_ne_nil
    | cons c t => exact ⟨c, t, rfl, Or.inr (Text.isDigit_toDigits c (by rw [hd]; simp))⟩

theorem toNat_lt_of_isDigit {c : Char} (hc : c.isDigit = true) : c.toNat < 0x80 := by
  simp only [Char.isDigit, ge_iff_le, Bool.and_eq_true, decide_eq_true_eq] at hc
  have := UInt32.le_iff_toNat_le.mp hc.2
  exact lt_of_le_of_lt this (by decide)

/-- The first byte of a written value starts a token that closes nothing. -/
theorem dumpAt_head (L : Layout) (d : ℕ) (j : Json) :
    ∃ c t, dumpAt L d j = c :: t ∧ isWs c = false ∧ c ≠ ']' ∧ c ≠ '}' ∧ c.toNat < 0x80 := by
  have hint : ∀ (n : ℤ) (s : Text), ∃ c t, dumpInt n ++ s = c :: t ∧ isWs c = false ∧
      c ≠ ']' ∧ c ≠ '}' ∧ c.toNat < 0x80 := by
    intro n s
    obtain ⟨c, t, hdump, hc⟩ := dumpInt_head n
    refine ⟨c, t ++ s, by rw [hdump]; rfl, ?_⟩
    rcases hc with rfl | hc
    · decide
    · refine ⟨?_, ?_, ?_, toNat_lt_of_isDigit hc⟩
      · by_contra hws
        simp only [isWs, Bool.not_eq_false, Bool.or_eq_true, decide_eq_true_eq] at hws
        rcases hws with ((rfl | rfl) | rfl) | rfl <;> exact absurd hc (by decide)
      · rintro rfl
        exact absurd hc (by decide)
      · rintro rfl
        exact absurd hc (by decide)
  cases j with
  | null => exact ⟨'n', _, rfl, by decide⟩
  | bool b => cases b <;> exact ⟨_, _, rfl, by decide⟩
  | int n => simpa [dumpAt] using hint n []
  | float m e => simpa [dumpAt] using hint m _
  | str s => exact ⟨'"', _, rfl, by decide⟩
  | arr js => cases js <;> exact ⟨'[', _, rfl, by decide⟩
  | obj ms =>
      rcases ms with - | ⟨⟨k, j⟩, ms⟩ <;> exact ⟨'{', _, rfl, by decide⟩

/-- A scalar is read by `parseScalar`, whatever precedes it. -/
theorem parseValue_scalar {n : ℕ} {ws s : Text} (hws : ws.all isWs = true)
    {c : Char} {t : Text} (hs : s = c :: t) (hc : isWs c = false) (hq : c ≠ '"')
    (hb : c ≠ '[') (hbr : c ≠ '{') :
    parseValue (n + 1) (ws ++ s) = parseScalar s := by
  subst hs
  rw [parseValue, skipWs_append hws, skipWs_cons hc]
  split
  · exact absurd (List.cons.inj ‹_›).1 hq
  · exact absurd (List.cons.inj ‹_›).1 hb
  · exact absurd (List.cons.inj ‹_›).1 hbr
  · rfl

theorem parseValue_quote {n : ℕ} {ws : Text} (hws : ws.all isWs = true) (r : Text) :
    parseValue (n + 1) (ws ++ '"' :: r) =
      (scanString (.text Utf8.start) r).map fun (t, r) => (.str t, r) := by
  rw [parseValue, skipWs_append hws, skipWs_cons (by decide)]
  rfl

/-- An opening bracket before anything but its closing one starts the elements. -/
theorem parseValue_bracket {n : ℕ} {u r t : Text} (hws : u.all isWs = true) {c : Char}
    (hr : skipWs r = c :: t) (hc : c ≠ ']') :
    parseValue (n + 1) (u ++ '[' :: r) =
      (parseElems n (c :: t)).map fun (js, r) => (.arr js, r) := by
  rw [parseValue, skipWs_append hws, skipWs_cons (by decide)]
  simp only [hr]
  split
  · exact absurd (List.cons.inj ‹_›).1 hc
  · rfl

/-- An opening brace before anything but its closing one starts the members. -/
theorem parseValue_brace {n : ℕ} {u r t : Text} (hws : u.all isWs = true) {c : Char}
    (hr : skipWs r = c :: t) (hc : c ≠ '}') :
    parseValue (n + 1) (u ++ '{' :: r) =
      (parseMembers n (c :: t)).map fun (ms, r) => (object ms, r) := by
  rw [parseValue, skipWs_append hws, skipWs_cons (by decide)]
  simp only [hr]
  split
  · exact absurd (List.cons.inj ‹_›).1 hc
  · rfl

/-- A text that starts like a number is read as one: it is no bracket, quote or name. -/
theorem parseValue_number {n : ℕ} {ws s : Text} (hws : ws.all isWs = true) {c : Char} {t : Text}
    (hs : s = c :: t) (hc : c = '-' ∨ c.isDigit = true) :
    parseValue (n + 1) (ws ++ s) = parseNumber s := by
  have hne : ∀ d : Char, d.isDigit = false → d ≠ '-' → d ≠ c := by
    rintro d hd hminus rfl
    rcases hc with rfl | hc
    · exact hminus rfl
    · rw [hd] at hc
      exact absurd hc (by decide)
  have hws' : isWs c = false := by
    by_contra h
    simp only [isWs, Bool.not_eq_false, Bool.or_eq_true, decide_eq_true_eq] at h
    rcases h with ((rfl | rfl) | rfl) | rfl
    · exact hne ' ' rfl (by decide) rfl
    · exact hne '\t' rfl (by decide) rfl
    · exact hne '\n' rfl (by decide) rfl
    · exact hne '\r' rfl (by decide) rfl
  rw [parseValue_scalar hws hs hws' (hne '"' rfl (by decide)).symm (hne '[' rfl (by decide)).symm
    (hne '{' rfl (by decide)).symm]
  subst hs
  simp [parseScalar, hne 'n' rfl (by decide), hne 't' rfl (by decide), hne 'f' rfl (by decide)]

/-- Inserting a member behind all others appends it. -/
theorem insertMember_of_lt {key : Text} {val : Json} {ms : List (Text × Json)}
    (h : ∀ kv ∈ ms, kv.1 < key) : insertMember key val ms = ms ++ [(key, val)] := by
  induction ms with
  | nil => rfl
  | cons kv ms ih =>
      obtain ⟨k, v⟩ := kv
      have hk : k < key := h (k, v) List.mem_cons_self
      rw [insertMember, if_neg hk.ne', if_neg (lt_asymm hk),
        ih fun kv hkv => h kv (List.mem_cons_of_mem _ hkv), List.cons_append]

/-- An ordered member list is the object it lists. -/
theorem object_eq_obj {ms : List (Text × Json)} (h : ms.Pairwise fun a b => a.1 < b.1) :
    object ms = .obj ms := by
  suffices hgen : ∀ acc : List (Text × Json), (acc ++ ms).Pairwise (fun a b => a.1 < b.1) →
      ms.foldl (fun ms kv => insertMember kv.1 kv.2 ms) acc = acc ++ ms by
    rw [object, hgen [] h, List.nil_append]
  clear h
  induction ms with
  | nil => intro acc _; simp
  | cons kv ms ih =>
      intro acc hacc
      have hlt : ∀ kv' ∈ acc, kv'.1 < kv.1 := fun kv' hkv' =>
        (List.pairwise_append.mp hacc).2.2 kv' hkv' kv List.mem_cons_self
      rw [List.foldl_cons, insertMember_of_lt hlt, ih _ (by simpa using hacc)]
      simp

section

variable (L : Layout)

/-- Fuel `n + 1` reads every value whose text has at most `n` bytes. -/
def ReadsValue (n : ℕ) : Prop :=
  ∀ d j ws r, WellFormed j → ws.all isWs = true → (dumpAt L d j).length ≤ n → Delimited r →
    parseValue (n + 1) (ws ++ dumpAt L d j ++ r) = some (j, r)

/-- Fuel `n` reads every nonempty element list whose text, with its brackets, has at most
`n` bytes. -/
def ReadsElems (n : ℕ) : Prop :=
  ∀ d d' j js ws r, WellFormed j → (∀ j ∈ js, WellFormed j) → ws.all isWs = true →
    (dumpAt L d j).length + (dumpElems L d js).length + 2 ≤ n →
    parseElems n (ws ++ (dumpAt L d j ++ (dumpElems L d js ++ (L.newline d' ++ ']' :: r)))) =
      some (j :: js, r)

/-- Fuel `n` reads every nonempty member list whose values, with the braces, have at most
`n` bytes. -/
def ReadsMembers (n : ℕ) : Prop :=
  ∀ d d' k j ms ws r, Utf8.valid k = true → (∀ kv ∈ ms, Utf8.valid kv.1 = true) →
    WellFormed j → (∀ kv ∈ ms, WellFormed kv.2) → ws.all isWs = true →
    (dumpAt L d j).length + (dumpMembers L d ms).length + 2 ≤ n →
    parseMembers n (ws ++ (dumpString k ++ ':' :: (L.afterColon ++ (dumpAt L d j ++
        (dumpMembers L d ms ++ (L.newline d' ++ '}' :: r)))))) = some ((k, j) :: ms, r)

variable {L}

theorem dumpAt_length_pos (d : ℕ) (j : Json) : 0 < (dumpAt L d j).length := by
  obtain ⟨c, t, hdump, -⟩ := dumpAt_head L d j
  rw [hdump]
  exact Nat.succ_pos _

theorem readsElems_step {n : ℕ} (hvalue : ReadsValue L n) (helems : ReadsElems L (n + 1)) :
    ReadsElems L (n + 2) := by
  intro d d' j js ws r hj hjs hws hlen
  have hhead : ∀ r, Delimited r →
      parseValue (n + 1) (ws ++ (dumpAt L d j ++ r)) = some (j, r) := fun r hr => by
    rw [← List.append_assoc]
    exact hvalue d j ws r hj hws (by omega) hr
  cases js with
  | nil =>
      have hend : Delimited (L.newline d' ++ ']' :: r) :=
        (Delimited.cons (Or.inr (Or.inl rfl)) r).append_ws (L.newline_ws d')
      rw [parseElems, dumpElems, List.nil_append, hhead _ hend]
      simp only [skipWs_append (L.newline_ws d')]
      rfl
  | cons j' js =>
      have hpos := dumpAt_length_pos (L := L) d j
      have hrest := helems d d' j' js (L.newline d) r (hjs j' List.mem_cons_self)
        (fun j hj => hjs j (List.mem_cons_of_mem _ hj)) (L.newline_ws d)
        (by simp only [dumpElems, List.length_cons, List.length_append] at hlen; omega)
      simp only [dumpElems, List.append_assoc, List.cons_append]
      rw [parseElems, hhead _ (Delimited.cons (Or.inl rfl) _)]
      simp only [skipWs_cons (show isWs ',' = false from rfl), hrest]
      rfl

theorem readsMembers_step {n : ℕ} (hvalue : ReadsValue L n) (hmembers : ReadsMembers L (n + 1)) :
    ReadsMembers L (n + 2) := by
  intro d d' k j ms ws r hk hks hj hms hws hlen
  have hkey : ∀ r, scanString (.text Utf8.start) ((dumpString k ++ r).tail) = some (k, r) :=
    fun r => scanString_dumpString r hk
  have hhead : ∀ r, Delimited r →
      parseValue (n + 1) (L.afterColon ++ (dumpAt L d j ++ r)) = some (j, r) := fun r hr => by
    rw [← List.append_assoc]
    exact hvalue d j L.afterColon r hj L.afterColon_ws (by omega) hr
  have hquote : ∀ r, dumpString k ++ r = '"' :: (dumpString k ++ r).tail := fun _ => rfl
  rw [hquote, parseMembers, skipWs_append hws, skipWs_cons rfl]
  simp only [hkey, skipWs_cons (show isWs ':' = false from rfl)]
  cases ms with
  | nil =>
      have hend : Delimited (L.newline d' ++ '}' :: r) :=
        (Delimited.cons (Or.inr (Or.inr rfl)) r).append_ws (L.newline_ws d')
      simp only [dumpMembers, List.nil_append]
      rw [hhead _ hend]
      simp only [skipWs_append (L.newline_ws d')]
      rfl
  | cons kv ms =>
      obtain ⟨k', j'⟩ := kv
      have hpos := dumpAt_length_pos (L := L) d j
      have hrest := hmembers d d' k' j' ms (L.newline d) r (hks _ List.mem_cons_self)
        (fun kv hkv => hks kv (List.mem_cons_of_mem _ hkv)) (hms _ List.mem_cons_self)
        (fun kv hkv => hms kv (List.mem_cons_of_mem _ hkv)) (L.newline_ws d)
        (by
          simp only [dumpMembers, List.length_cons, List.length_append] at hlen
          omega)
      simp only [dumpMembers, List.append_assoc, List.cons_append]
      rw [hhead _ (Delimited.cons (Or.inl rfl) _)]
      simp only [skipWs_cons (show isWs ',' = false from rfl), hrest]
      rfl

theorem readsValue_of {n : ℕ} (helems : ReadsElems L n) (hmembers : ReadsMembers L n) :
    ReadsValue L n := by
  intro d j ws r hj hws hlen hr
  rw [List.append_assoc]
  cases hj with
  | null =>
      have := parseValue_scalar (n := n) hws (s := dumpAt L d .null ++ r) (c := 'n') rfl
        (by decide) (by decide) (by decide) (by decide)
      rw [this]
      rfl
  | bool b =>
      cases b with
      | true =>
          have := parseValue_scalar (n := n) hws (s := dumpAt L d (.bool true) ++ r) (c := 't')
            rfl (by decide) (by decide) (by decide) (by decide)
          rw [this]
          rfl
      | false =>
          have := parseValue_scalar (n := n) hws (s := dumpAt L d (.bool false) ++ r)
            (c := 'f') rfl (by decide) (by decide) (by decide) (by decide)
          rw [this]
          rfl
  | @int i h =>
      obtain ⟨c, t, hdump, hc⟩ := dumpInt_head i
      have hs : dumpAt L d (.int i) ++ r = c :: (t ++ r) := by rw [dumpAt, hdump]; rfl
      rw [parseValue_number hws hs hc, dumpAt]
      exact parseNumber_dumpInt h hr
  | @float m e h =>
      obtain ⟨c, t, hdump, hc⟩ := dumpInt_head m
      have hs : dumpAt L d (.float m e) ++ r = c :: (t ++ 'e' :: dumpInt e ++ r) := by
        rw [dumpAt, hdump]
        rfl
      rw [parseValue_number hws hs hc, dumpAt]
      exact parseNumber_dumpFloat h hr
  | @str s h =>
      have hscan := scanString_dumpString r h
      rw [dumpAt, show dumpString s ++ r = '"' :: (dumpString s ++ r).tail from rfl,
        parseValue_quote hws, hscan]
      rfl
  | @arr js h =>
      cases js with
      | nil =>
          rw [show dumpAt L d (.arr []) ++ r = '[' :: ']' :: r from rfl, parseValue,
            skipWs_append hws, skipWs_cons (by decide)]
          simp only [skipWs_cons (show isWs ']' = false from rfl)]
      | cons j js =>
          obtain ⟨c, t, hdump, hc, hne, -⟩ := dumpAt_head L (d + 1) j
          have hrest := helems (d + 1) d j js [] r (h j List.mem_cons_self)
            (fun j hj => h j (List.mem_cons_of_mem _ hj)) rfl (by
              simp only [dumpAt, List.length_cons, List.length_append] at hlen
              omega)
          simp only [dumpAt, List.cons_append, List.append_assoc]
          rw [parseValue_bracket hws (c := c) (by
            rw [skipWs_append (L.newline_ws _), hdump, List.cons_append, skipWs_cons hc]) hne]
          rw [List.nil_append, hdump, List.cons_append] at hrest
          simp only [List.nil_append] at hrest ⊢
          rw [hrest]
          rfl
  | @obj ms hsorted hkeys h =>
      cases ms with
      | nil =>
          rw [show dumpAt L d (.obj []) ++ r = '{' :: '}' :: r from rfl, parseValue,
            skipWs_append hws, skipWs_cons (by decide)]
          simp only [skipWs_cons (show isWs '}' = false from rfl)]
      | cons kv ms =>
          obtain ⟨k, j⟩ := kv
          have hrest := hmembers (d + 1) d k j ms [] r (hkeys _ List.mem_cons_self)
            (fun kv hkv => hkeys kv (List.mem_cons_of_mem _ hkv)) (h _ List.mem_cons_self)
            (fun kv hkv => h kv (List.mem_cons_of_mem _ hkv)) rfl (by
              simp only [dumpAt, List.length_cons, List.length_append] at hlen
              omega)
          simp only [dumpAt, List.cons_append, List.append_assoc, List.nil_append] at hrest ⊢
          generalize ':' :: (L.afterColon ++ _) = X at hrest ⊢
          have hquote : skipWs (dumpString k ++ X) = '"' :: (dumpString k ++ X).tail :=
            skipWs_cons (by decide) _
          rw [parseValue_brace hws ((skipWs_append (L.newline_ws _) _).trans hquote) (by decide)]
          change (parseMembers n (dumpString k ++ X)).map _ = _
          rw [hrest]
          exact congrArg (fun o => some (o, r)) (object_eq_obj hsorted)

/-- The three statements hold for every fuel: the elements and members of a value are
read with less fuel than the value itself. -/
theorem reads (L : Layout) (n : ℕ) :
    ReadsValue L n ∧ ReadsElems L n ∧ ReadsMembers L n := by
  suffices h : ∀ n, (ReadsElems L n ∧ ReadsMembers L n) ∧
      ReadsElems L (n + 1) ∧ ReadsMembers L (n + 1) by
    exact ⟨readsValue_of (h n).1.1 (h n).1.2, (h n).1⟩
  have hvoid : ∀ n < 2, ReadsElems L n ∧ ReadsMembers L n := fun n hn =>
    ⟨fun _ _ _ _ _ _ _ _ _ hlen => absurd hlen (by omega),
      fun _ _ _ _ _ _ _ _ _ _ _ _ hlen => absurd hlen (by omega)⟩
  intro n
  induction n with
  | zero => exact ⟨hvoid 0 (by decide), hvoid 1 (by decide)⟩
  | succ n ih =>
      have hvalue := readsValue_of ih.1.1 ih.1.2
      exact ⟨ih.2, readsElems_step hvalue ih.2.1, readsMembers_step hvalue ih.2.2⟩

/-- A written value is read back from the front of a text that does not continue it. -/
theorem parseValue_dumpAt {j : Json} {n d : ℕ} {r : Text} (hj : WellFormed j)
    (hlen : (dumpAt L d j).length ≤ n) (hr : Delimited r) :
    parseValue (n + 1) (dumpAt L d j ++ r) = some (j, r) :=
  (reads L n).1 d j [] r hj rfl hlen hr

end

/-- A written value does not start with a byte order mark. -/
theorem skipBom_dumpAt (L : Layout) (d : ℕ) (j : Json) (r : Text) :
    skipBom (dumpAt L d j ++ r) = dumpAt L d j ++ r := by
  obtain ⟨c, t, hdump, -, -, -, hc⟩ := dumpAt_head L d j
  have hne : Char.ofNat 0xEF ≠ c := by
    rintro rfl
    exact absurd hc (by decide)
  rw [hdump, List.cons_append, skipBom, if_neg]
  simp [hne]

/-- **A written value is read back**, in any layout and with any white space after it. -/
theorem parse_dumpAt {L : Layout} {j : Json} (d : ℕ) {u : Text} (hj : WellFormed j)
    (hws : u.all isWs = true) : parse (dumpAt L d j ++ u) = some j := by
  have hr : Delimited u := by
    have hnil : Delimited [] := by rintro c ⟨⟩
    simpa using hnil.append_ws hws
  have hlen : (dumpAt L d j).length ≤ (dumpAt L d j ++ u).length := by
    rw [List.length_append]
    exact Nat.le_add_right _ _
  have hskip : skipWs u = [] := by simpa [skipWs] using skipWs_append hws []
  simp only [parse, skipBom_dumpAt, parseValue_dumpAt hj hlen hr, hskip, true_or, if_true]

/-- The reader that stops after the value reads it too. -/
theorem parsePrefix_dumpAt {L : Layout} {j : Json} (d : ℕ) {r : Text} (hj : WellFormed j)
    (hr : Delimited r) : parsePrefix (dumpAt L d j ++ r) = some j := by
  have hlen : (dumpAt L d j).length ≤ (dumpAt L d j ++ r).length := by
    rw [List.length_append]
    exact Nat.le_add_right _ _
  simp only [parsePrefix, skipBom_dumpAt, parseValue_dumpAt hj hlen hr, Option.map_some]

end Json
