import Mathlib
import Llamaste.Lib.JsonScan

/-!
# Syntax trees of JSON text

A tree of the JSON grammar has a text and, unless a surrogate stands alone in a string or a
number is too large, a value. A strict reader reads the value from the text.

## Main results

* `Json.Tree.reads`, `Json.Object.reads`: a reader finds the value of a tree in its text.
* `Json.Object.isSome_json`: which objects have a value.
* `Json.Object.closed`: a lexer comes back from the text of an object.
-/

namespace Json

/-! ### Strings -/

/-- White space. -/
abbrev Blank := {s : Text // s.all isWs = true}

theorem all_isWs_nil : ([] : Text).all isWs = true := rfl

/-- No white space. -/
def Blank.nil : Blank := ⟨[], all_isWs_nil⟩

abbrev HexDigit := {c : Char // (hexVal c).isSome = true}

def HexDigit.value (d : HexDigit) : ℕ := (hexVal d.1).get d.2

/-- A piece of a string: a character, a one-letter escape or a UTF-16 unit. -/
inductive Piece
  | plain (c : Char) (h : Plain c)
  | escape (c : Char) (h : c ∈ "\"\\/bfnrt".toList)
  | unit (a b c d : HexDigit)

def Piece.text : Piece → Text
  | .plain c _ => Utf8.encode c.toNat
  | .escape c _ => ['\\', c]
  | .unit a b c d => ['\\', 'u', a.1, b.1, c.1, d.1]

/-- The number of a unit. -/
def unitOf (a b c d : HexDigit) : ℕ :=
  ((a.value * 16 + b.value) * 16 + c.value) * 16 + d.value

abbrev IsHigh (u : ℕ) : Prop := 0xD800 ≤ u ∧ u ≤ 0xDBFF

abbrev IsLow (u : ℕ) : Prop := 0xDC00 ≤ u ∧ u ≤ 0xDFFF

/-- What a string stands for; a high surrogate may wait for its low one. -/
def decode : Option ℕ → List Piece → Option Text
  | none, [] => some []
  | none, .plain c _ :: r => (decode none r).map (Utf8.encode c.toNat ++ ·)
  | none, .escape c _ :: r => (decode none r).map ((unescape c).toList ++ ·)
  | none, .unit a b c d :: r =>
    let u := unitOf a b c d
    if IsHigh u then decode (some u) r
    else if IsLow u then none
    else (decode none r).map (Utf8.encode u ++ ·)
  | some h, .unit a b c d :: r =>
    let u := unitOf a b c d
    if IsLow u then
      (decode none r).map (Utf8.encode (0x10000 + (h - 0xD800) * 0x400 + (u - 0xDC00)) ++ ·)
    else none
  | some _, _ => none

/-- Every high surrogate stands before a low one, and every low one behind a high one. -/
def Paired : Bool → List Piece → Prop
  | waits, [] => waits = false
  | waits, .unit a b c d :: r =>
    (IsLow (unitOf a b c d) ↔ waits = true) ∧ Paired (decide (IsHigh (unitOf a b c d))) r
  | waits, _ :: r => waits = false ∧ Paired false r

/-- The text between the quotes. -/
def piecesText (s : List Piece) : Text := s.flatMap Piece.text

theorem isSome_decode (high : Option ℕ) (s : List Piece) :
    (decode high s).isSome = true ↔ Paired high.isSome s := by
  induction s generalizing high with
  | nil => cases high <;> simp [decode, Paired]
  | cons p s ih =>
    cases p with
    | plain c hc => cases high <;> simp [decode, Paired, ih]
    | escape c hc => cases high <;> simp [decode, Paired, ih]
    | unit a b c d =>
      cases high with
      | none =>
        simp only [decode, Paired, Option.isSome_none, Bool.false_eq_true, iff_false]
        split_ifs with hhigh hlow
        · have hnot : ¬ IsLow (unitOf a b c d) := by omega
          simp [ih, hnot, hhigh]
        · simp [hlow]
        · simp [ih, hlow, hhigh]
      | some h =>
        simp only [decode, Paired, Option.isSome_some, iff_true]
        split_ifs with hlow
        · have hnot : ¬ IsHigh (unitOf a b c d) := by omega
          rw [Option.isSome_map, ih, and_iff_right hlow, decide_eq_false hnot]
          rfl
        · simp [hlow]

theorem isSome_decode_none (s : List Piece) : (decode none s).isSome = true ↔ Paired false s :=
  isSome_decode none s

/-- The reader's state before a piece. -/
def waiting : Option ℕ → StrState
  | none => .text Utf8.start
  | some h => .lowEscape h

theorem scanString_hexDigit {high : Option ℕ} {digits acc : ℕ} (hdigits : digits < 3)
    (d : HexDigit) (r : Text) : scanString (.hex high digits acc) (d.1 :: r) =
      scanString (.hex high (digits + 1) (acc * 16 + d.value)) r := by
  have hval : hexVal d.1 = some d.value := (Option.some_get d.2).symm
  have hstep : strStep (.hex high digits acc) d.1 =
      some ([], .hex high (digits + 1) (acc * 16 + d.value)) := by
    simp only [strStep, hval, if_pos hdigits]
  rw [scanString_cons rfl hstep]
  simp

theorem scanString_hex (high : Option ℕ) (a b c d : HexDigit) (r : Text) :
    scanString (.hex high 0 0) (a.1 :: b.1 :: c.1 :: d.1 :: r) =
      (endHex high (unitOf a b c d)).bind fun o =>
        (scanString o.2 r).map fun t => (o.1 ++ t.1, t.2) := by
  have hval : hexVal d.1 = some d.value := (Option.some_get d.2).symm
  have hzero : 0 * 16 + a.value = a.value := by omega
  rw [scanString_hexDigit (by decide), scanString_hexDigit (by decide),
    scanString_hexDigit (by decide), hzero]
  change scanString (.hex high 3 _) _ = _
  have hlast : strStep (.hex high 3 ((a.value * 16 + b.value) * 16 + c.value)) d.1 =
      endHex high (unitOf a b c d) := by
    simp only [strStep, hval, unitOf]
    rfl
  cases hend : endHex high (unitOf a b c d) with
  | none =>
    rw [scanString, if_neg (by simp [closes]), hlast, hend]
    rfl
  | some o => rw [scanString_cons rfl (hlast.trans hend), Option.bind_some]

/-- Plain bytes that make up whole characters are read as they stand. -/
theorem scanString_valid {q : Utf8.State} (hq : q.owed = 0 → q = Utf8.start) {t : Text}
    (ht : ∀ c ∈ t, Plain c) (hvalid : Utf8.validFrom q t = true) (r : Text) :
    scanString (.text q) (t ++ r) =
      (scanString (.text Utf8.start) r).map fun o => (t ++ o.1, o.2) := by
  induction t generalizing q with
  | nil =>
    obtain rfl := hq (by simpa [Utf8.validFrom] using hvalid)
    simp
  | cons c t ih =>
    obtain ⟨⟨hquote, hback, h20⟩, ht⟩ := List.forall_mem_cons.mp ht
    rw [Utf8.validFrom] at hvalid
    cases hstep : Utf8.step q c.toNat with
    | none =>
      rw [hstep] at hvalid
      cases hvalid
    | some q' =>
      rw [hstep] at hvalid
      have hq' : q'.owed = 0 → q' = Utf8.start := by
        intro hzero
        rw [Utf8.step] at hstep
        split_ifs at hstep with howed hrange
        · rw [Utf8.lead] at hstep
          split_ifs at hstep <;> cases Option.some.inj hstep <;> first | rfl | cases hzero
        · obtain rfl := Option.some.inj hstep
          rw [show q.owed - 1 = 0 from hzero]
          rfl
      rw [List.cons_append, scanString_plain _ (not_lt.mp h20) hquote hback hstep,
        ih hq' ht hvalid, Option.map_map]
      rfl

theorem plain_of_not_ascii {c : Char} (h : 0x80 ≤ c.toNat) : Plain c := by
  refine ⟨?_, ?_, by omega⟩ <;> rintro rfl <;> exact absurd h (by decide)

/-- The bytes of a plain character are plain. -/
theorem plain_of_mem_encode {c : Char} (hc : Plain c) : ∀ b ∈ Utf8.encode c.toNat, Plain b := by
  have hlt : c.toNat < 0x110000 := by
    rcases c.valid with h | h
    · exact lt_trans h (by decide)
    · exact h.2
  have htail : ∀ n, Plain (Utf8.tail n) := fun n =>
    plain_of_not_ascii (by rw [Utf8.toNat_tail]; omega)
  have hlead : ∀ n, 0x80 ≤ n → n < 0x100 → Plain (Char.ofNat n) := fun n h h' =>
    plain_of_not_ascii (by rwa [Utf8.toNat_ofNat_of_lt h'])
  rw [Utf8.encode]
  split_ifs with h1 h2 h3
  · rw [Char.ofNat_toNat]
    exact List.forall_mem_singleton.mpr hc
  · simp only [List.forall_mem_cons]
    exact ⟨hlead _ (by omega) (by omega), htail _, List.forall_mem_nil _⟩
  · simp only [List.forall_mem_cons]
    exact ⟨hlead _ (by omega) (by omega), htail _, htail _, List.forall_mem_nil _⟩
  · simp only [List.forall_mem_cons]
    exact ⟨hlead _ (by omega) (by omega), htail _, htail _, htail _, List.forall_mem_nil _⟩

theorem valid_encode (c : Char) : Utf8.valid (Utf8.encode c.toNat) = true := by
  have h : c.toNat < 0x110000 ∧ (c.toNat < 0xD800 ∨ 0xDFFF < c.toNat) := by
    rcases c.valid with h | h
    · exact ⟨lt_trans h (by decide), Or.inl h⟩
    · exact ⟨h.2, Or.inr h.1⟩
  have hnil := Utf8.validFrom_encode h.1 h.2 []
  rwa [List.append_nil] at hnil

theorem scanString_lowEscape {c : Char} (hc : c ≠ '\\') (h : ℕ) (r : Text) :
    scanString (.lowEscape h) (c :: r) = none := by
  have hstep : strStep (.lowEscape h) c = none := if_neg hc
  rw [scanString, if_neg (by simp [closes]), hstep]

/-- The escape of a unit, read up to its digits. -/
theorem scanString_backslash_u (high : Option ℕ) (r : Text) :
    scanString (waiting high) ('\\' :: 'u' :: r) = scanString (.hex high 0 0) r := by
  cases high with
  | none =>
    have hslash : strStep (.text Utf8.start) '\\' = some ([], .escape) := rfl
    have hu : strStep .escape 'u' = some ([], .hex none 0 0) := rfl
    rw [waiting, scanString_cons rfl hslash, scanString_cons rfl hu]
    simp
  | some h =>
    have hslash : strStep (.lowEscape h) '\\' = some ([], .lowU h) := rfl
    have hu : strStep (.lowU h) 'u' = some ([], .hex (some h) 0 0) := rfl
    rw [waiting, scanString_cons rfl hslash, scanString_cons rfl hu]
    simp

/-- **A string is read** as what its pieces stand for. -/
theorem scanString_pieces (high : Option ℕ) (s : List Piece) (r : Text) :
    scanString (waiting high) (piecesText s ++ '"' :: r) =
      (decode high s).map fun t => (t, r) := by
  induction s generalizing high with
  | nil =>
    cases high with
    | none => rfl
    | some h => exact scanString_lowEscape (by decide) h r
  | cons p s ih =>
    have hcons : piecesText (p :: s) ++ '"' :: r = p.text ++ (piecesText s ++ '"' :: r) := by
      rw [piecesText, List.flatMap_cons, List.append_assoc, piecesText]
    have hnone : scanString (.text Utf8.start) (piecesText s ++ '"' :: r) =
        (decode none s).map fun t => (t, r) := ih none
    rw [hcons]
    cases p with
    | plain c hc =>
      have hplain := plain_of_mem_encode hc
      cases high with
      | none =>
        have hread := scanString_valid (fun _ => rfl) hplain (valid_encode c)
          (piecesText s ++ '"' :: r)
        rw [Piece.text, waiting, hread, hnone, decode, Option.map_map, Option.map_map]
        rfl
      | some h =>
        obtain ⟨b, t, ht⟩ : ∃ b t, Utf8.encode c.toNat = b :: t := by
          rw [Utf8.encode]
          split_ifs <;> exact ⟨_, _, rfl⟩
        rw [Piece.text, ht, waiting, List.cons_append]
        exact scanString_lowEscape (hplain b (by simp [ht])).2.1 h _
    | escape c hc =>
      have hletters : ∀ c ∈ "\"\\/bfnrt".toList, c ≠ 'u' ∧ (unescape c).isSome = true := by
        decide
      have hletter := hletters c hc
      obtain ⟨b, hb⟩ := Option.isSome_iff_exists.mp hletter.2
      cases high with
      | none =>
        have hread := scanString_escape (q := Utf8.start) (piecesText s ++ '"' :: r) rfl
          hletter.1 hb
        rw [Piece.text, waiting, List.cons_append, List.singleton_append, hread, hnone, decode, hb,
          Option.map_map, Option.map_map]
        rfl
      | some h =>
        have hslash : strStep (.lowEscape h) '\\' = some ([], .lowU h) := rfl
        have hstep : strStep (.lowU h) c = none := if_neg hletter.1
        rw [Piece.text, waiting, List.cons_append, List.singleton_append,
          scanString_cons rfl hslash, scanString, if_neg (by simp [closes]), hstep]
        rfl
    | unit a b c d =>
      change scanString (waiting high) ('\\' :: 'u' :: a.1 :: b.1 :: c.1 :: d.1 :: _) = _
      rw [scanString_backslash_u, scanString_hex]
      cases high with
      | none =>
        simp only [endHex, decode]
        split_ifs with hhigh hlow
        · have hsome : scanString (.lowEscape (unitOf a b c d)) (piecesText s ++ '"' :: r) =
              (decode (some (unitOf a b c d)) s).map fun t => (t, r) := ih (some _)
          simp [hsome, Function.comp_def]
        · rfl
        · simp [hnone, Function.comp_def]
      | some h =>
        simp only [endHex, decode]
        split_ifs with hlow
        · simp [hnone, Function.comp_def]
        · rfl

/-! ### Numbers -/

abbrev Digits := {s : Text // s ≠ [] ∧ s.all Char.isDigit = true}

/-- A sign and digits behind a letter. -/
structure Exponent where
  letter : {c : Char // c = 'e' ∨ c = 'E'}
  sign : Option {c : Char // c = '+' ∨ c = '-'}
  digits : Digits

def Exponent.text (e : Exponent) : Text :=
  e.letter.1 :: (e.sign.elim [] fun c => [c.1]) ++ e.digits.1

def Exponent.value (e : Exponent) : ℤ :=
  signed (e.sign.elim false fun c => decide (c.1 = '-')) e.digits.1

/-- Digits without a leading zero. -/
abbrev Numeral :=
  {s : Text // s ≠ [] ∧ s.all Char.isDigit = true ∧ (s.head? = some '0' → s = ['0'])}

structure Number where
  minus : Bool
  int : Numeral
  frac : Option Digits
  exp : Option Exponent

def Number.text (n : Number) : Text :=
  (if n.minus then ['-'] else []) ++ (n.int.1 ++ ((n.frac.elim [] fun d => '.' :: d.1) ++
    n.exp.elim [] Exponent.text))

/-- The digits of a number without its point. -/
def Number.digits (n : Number) : Text := n.int.1 ++ n.frac.elim [] Subtype.val

/-- The power of ten that the digits are multiplied by. -/
def Number.scale (n : Number) : ℤ :=
  (n.exp.map Exponent.value).getD 0 - (n.frac.elim [] Subtype.val).length

def Number.json (n : Number) : Option Json :=
  mkNumber n.minus n.int.1 (n.frac.elim [] Subtype.val) (n.exp.map Exponent.value)

/-- The number is finite as a `double`. -/
def Number.Finite (n : Number) : Prop := FitsDouble (signed n.minus n.digits) n.scale

theorem fitsDouble_of_fitsInteger {n : ℤ} (h : FitsInteger n) : FitsDouble n 0 := by
  have hle : n.natAbs < 2 ^ 64 := by
    obtain ⟨hlow, hhigh⟩ := h
    omega
  rw [FitsDouble, doubleOverflow]
  rw [neg_zero, Int.toNat_zero, pow_zero, mul_one, mul_one]
  exact lt_of_lt_of_le hle (by decide)

/-- **A number has a value** exactly when it is finite. -/
theorem Number.isSome_json (n : Number) : n.json.isSome = true ↔ n.Finite := by
  have hfloat : ∀ m e, (mkFloat m e).isSome = true ↔ FitsDouble m e := by
    intro m e
    rw [mkFloat]
    split_ifs with h <;> simp [h]
  rw [json, Finite, digits, scale]
  generalize n.frac.elim [] Subtype.val = fp
  generalize n.exp.map Exponent.value = ex
  cases fp with
  | cons c fp => cases ex <;> exact hfloat _ _
  | nil =>
    cases ex with
    | some e => simpa [mkNumber] using hfloat _ _
    | none =>
      rw [mkNumber]
      simp only [List.append_nil, Option.getD_none, List.length_nil, Nat.cast_zero, sub_zero]
      split_ifs with h
      · simp [fitsDouble_of_fitsInteger h]
      · exact hfloat _ _

theorem scanInt_numeral (s : Numeral) {r : Text} (hr : ∀ c ∈ r.head?, c.isDigit = false) :
    scanInt (s.1 ++ r) = some (s.1, r) := by
  obtain ⟨s, hne, hdigits, hzero⟩ := s
  obtain ⟨htake, hdrop⟩ := Text.takeWhile_dropWhile_append (List.all_eq_true.mp hdigits) hr
  cases s with
  | nil => exact absurd rfl hne
  | cons c s =>
    by_cases hc : c = '0'
    · subst hc
      obtain rfl : s = [] := (List.cons.inj (hzero rfl)).2
      rfl
    · rw [List.cons_append, scanInt.eq_2 _ (fun t h => hc (List.cons.inj h).1), ← List.cons_append,
        htake, hdrop, if_neg hne]

theorem scanFrac_text (frac : Option Digits) {r : Text} (hdigit : ∀ c ∈ r.head?, c.isDigit = false)
    (hpoint : r.head? ≠ some '.') :
    scanFrac ((frac.elim [] fun d => '.' :: d.1) ++ r) = some (frac.elim [] Subtype.val, r) := by
  cases frac with
  | none => exact scanFrac_of_not_point hpoint
  | some d =>
    obtain ⟨htake, hdrop⟩ := Text.takeWhile_dropWhile_append (List.all_eq_true.mp d.2.2) hdigit
    simp only [Option.elim_some, List.cons_append, scanFrac, htake, hdrop, if_neg d.2.1]

theorem scanExp_text (exp : Option Exponent) {r : Text} (hr : Delimited r) :
    scanExp (exp.elim [] Exponent.text ++ r) = some (exp.map Exponent.value, r) := by
  cases exp with
  | none => exact hr.scanExp
  | some e =>
    obtain ⟨⟨letter, hletter⟩, sign, digits⟩ := e
    obtain ⟨htake, hdrop⟩ := Text.takeWhile_dropWhile_append (List.all_eq_true.mp digits.2.2)
      hr.not_digit
    have hsign : scanSign ((sign.elim [] fun c => [c.1]) ++ (digits.1 ++ r)) =
        (sign.elim false fun c => decide (c.1 = '-'), digits.1 ++ r) := by
      cases sign with
      | none =>
        obtain ⟨⟨⟩ | ⟨c, s⟩, hne, hall⟩ := digits
        · exact absurd rfl hne
        · have hc := (List.all_eq_true.mp hall) c List.mem_cons_self
          exact scanSign.eq_3 _ (fun t h => absurd hc (by rw [(List.cons.inj h).1]; decide))
            fun t h => absurd hc (by rw [(List.cons.inj h).1]; decide)
      | some c =>
        obtain ⟨c, rfl | rfl⟩ := c <;> rfl
    simp only [Option.elim_some, Exponent.text, List.cons_append, List.append_assoc, scanExp,
      if_pos hletter, hsign, htake, hdrop, if_neg digits.2.1, Option.map_some, Exponent.value]

/-- **A number is read.** -/
theorem Number.parseNumber_text (n : Number) {r : Text} (hr : Delimited r) :
    parseNumber (n.text ++ r) = n.json.map fun j => (j, r) := by
  obtain ⟨minus, int, frac, exp⟩ := n
  -- what stands behind each part does not continue it
  have hexp : ∀ c ∈ (exp.elim [] Exponent.text ++ r).head?, c.isDigit = false ∧ c ≠ '.' := by
    intro c hc
    cases exp with
    | none => exact ⟨hr.not_digit c hc, fun h => hr.not_point (h ▸ hc)⟩
    | some e =>
      have hletter : c = 'e' ∨ c = 'E' := Option.some.inj hc ▸ e.letter.2
      rcases hletter with rfl | rfl <;> decide
  have hfrac : ∀ c ∈ ((frac.elim [] fun d => '.' :: d.1) ++ (exp.elim [] Exponent.text ++ r)).head?,
      c.isDigit = false := by
    intro c hc
    cases frac with
    | none => exact (hexp c hc).1
    | some d =>
      obtain rfl := Option.some.inj hc
      rfl
  have hint := scanInt_numeral int hfrac
  have hscan := scanFrac_text frac (fun c hc => (hexp c hc).1) fun h => (hexp '.' h).2 rfl
  have hhead : ∀ t : Text, (int.1 ++ t).head? ≠ some '-' := by
    intro t
    obtain ⟨⟨⟩ | ⟨c, s⟩, hne, hall, -⟩ := int
    · exact absurd rfl hne
    · have hc := (List.all_eq_true.mp hall) c List.mem_cons_self
      rintro h
      obtain rfl := Option.some.inj h
      cases hc
  rw [text, List.append_assoc, List.append_assoc, List.append_assoc, parseNumber, json]
  cases minus with
  | true =>
    simp only [if_true, List.singleton_append, List.head?_cons, List.tail_cons, hint, hscan,
      scanExp_text exp hr, Option.bind_eq_bind, Option.bind_some, decide_true]
  | false =>
    simp only [Bool.false_eq_true, if_false, List.nil_append, hhead, hint, hscan,
      scanExp_text exp hr, Option.bind_eq_bind, Option.bind_some, decide_false]

/-! ### Trees -/

mutual

/-- A value as it stands in a text. -/
inductive Tree
  | null
  | bool (b : Bool)
  | str (s : List Piece)
  | num (n : Number)
  | emptyArr (ws : Blank)
  | arr (ws : Blank) (first : Tree) (rest : Trees) (ws' : Blank)
  | obj (o : Object)

/-- The elements of an array behind the first. -/
inductive Trees
  | nil
  | cons (ws : Blank) (v : Tree) (rest : Trees)

inductive Object
  | empty (ws : Blank)
  | members (ws : Blank) (key : List Piece) (ws₁ ws₂ : Blank) (v : Tree) (rest : Pairs)
      (ws' : Blank)

/-- The members of an object behind the first. -/
inductive Pairs
  | nil
  | cons (ws : Blank) (key : List Piece) (ws₁ ws₂ : Blank) (v : Tree) (rest : Pairs)

end

mutual

def Tree.text : Tree → Text
  | .null => "null".toList
  | .bool b => if b then "true".toList else "false".toList
  | .str s => '"' :: (piecesText s ++ ['"'])
  | .num n => n.text
  | .emptyArr ws => '[' :: (ws.1 ++ [']'])
  | .arr ws v rest ws' => '[' :: (ws.1 ++ (v.text ++ (rest.text ++ (ws'.1 ++ [']']))))
  | .obj o => o.text

def Trees.text : Trees → Text
  | .nil => []
  | .cons ws v rest => ',' :: (ws.1 ++ (v.text ++ rest.text))

def Object.text : Object → Text
  | .empty ws => '\x7b' :: (ws.1 ++ ['\x7d'])
  | .members ws key ws₁ ws₂ v rest ws' =>
    '\x7b' :: (ws.1 ++ ('"' :: (piecesText key ++ '"' :: (ws₁.1 ++ ':' :: (ws₂.1 ++ (v.text ++
      (rest.text ++ (ws'.1 ++ ['\x7d']))))))))

def Pairs.text : Pairs → Text
  | .nil => []
  | .cons ws key ws₁ ws₂ v rest =>
    ',' :: (ws.1 ++ ('"' :: (piecesText key ++ '"' :: (ws₁.1 ++ ':' :: (ws₂.1 ++ (v.text ++
      rest.text))))))

end

mutual

/-- The value of a tree. -/
def Tree.json : Tree → Option Json
  | .null => some .null
  | .bool b => some (.bool b)
  | .str s => (decode none s).map .str
  | .num n => n.json
  | .emptyArr _ => some (.arr [])
  | .arr _ v rest _ => v.json.bind fun j => rest.json.map fun js => .arr (j :: js)
  | .obj o => o.json

def Trees.json : Trees → Option (List Json)
  | .nil => some []
  | .cons _ v rest => v.json.bind fun j => rest.json.map (j :: ·)

/-- A member that comes again replaces the earlier one. -/
def Object.json : Object → Option Json
  | .empty _ => some (.obj [])
  | .members _ key _ _ v rest _ =>
    (decode none key).bind fun k => v.json.bind fun j =>
      rest.json.map fun ms => object ((k, j) :: ms)

def Pairs.json : Pairs → Option (List (Text × Json))
  | .nil => some []
  | .cons _ key _ _ v rest =>
    (decode none key).bind fun k => v.json.bind fun j => rest.json.map ((k, j) :: ·)

end

mutual

/-- In every string the surrogates are paired, and every number is finite. -/
def Tree.Sound : Tree → Prop
  | .str s => Paired false s
  | .num n => n.Finite
  | .arr _ v rest _ => v.Sound ∧ rest.Sound
  | .obj o => o.Sound
  | _ => True

def Trees.Sound : Trees → Prop
  | .nil => True
  | .cons _ v rest => v.Sound ∧ rest.Sound

def Object.Sound : Object → Prop
  | .empty _ => True
  | .members _ key _ _ v rest _ => Paired false key ∧ v.Sound ∧ rest.Sound

def Pairs.Sound : Pairs → Prop
  | .nil => True
  | .cons _ key _ _ v rest => Paired false key ∧ v.Sound ∧ rest.Sound

end

theorem isSome_bind_map {α β γ : Type*} {o : Option α} {p : Option β} (f : α → β → γ) :
    (o.bind fun a => p.map (f a)).isSome = true ↔ o.isSome = true ∧ p.isSome = true := by
  cases o <;> cases p <;> simp

mutual

theorem Tree.isSome_json : ∀ v : Tree, v.json.isSome = true ↔ v.Sound
  | .null => by simp [Tree.json, Tree.Sound]
  | .bool b => by simp [Tree.json, Tree.Sound]
  | .str s => by rw [Tree.json, Tree.Sound, Option.isSome_map, isSome_decode, Option.isSome_none]
  | .num n => n.isSome_json
  | .emptyArr ws => by simp [Tree.json, Tree.Sound]
  | .arr ws v rest ws' => by
    rw [Tree.json, Tree.Sound, isSome_bind_map fun j js => Json.arr (j :: js), v.isSome_json,
      rest.isSome_json]
  | .obj o => o.isSome_json

theorem Trees.isSome_json : ∀ vs : Trees, vs.json.isSome = true ↔ vs.Sound
  | .nil => by simp [Trees.json, Trees.Sound]
  | .cons ws v rest => by
    rw [Trees.json, Trees.Sound, isSome_bind_map fun j js => j :: js, v.isSome_json,
      rest.isSome_json]

/-- **An object has a value** exactly when its strings and numbers have one. -/
theorem Object.isSome_json : ∀ o : Object, o.json.isSome = true ↔ o.Sound
  | .empty ws => by simp [Object.json, Object.Sound]
  | .members ws key ws₁ ws₂ v rest ws' => by
    rw [Object.json, Object.Sound, ← v.isSome_json, ← rest.isSome_json, ← isSome_decode_none]
    cases decode none key <;> cases v.json <;> cases rest.json <;> simp

theorem Pairs.isSome_json : ∀ ps : Pairs, ps.json.isSome = true ↔ ps.Sound
  | .nil => by simp [Pairs.json, Pairs.Sound]
  | .cons ws key ws₁ ws₂ v rest => by
    rw [Pairs.json, Pairs.Sound, ← v.isSome_json, ← rest.isSome_json, ← isSome_decode_none]
    cases decode none key <;> cases v.json <;> cases rest.json <;> simp

end

/-! ### Reading a tree -/

theorem Number.text_head (n : Number) : ∃ c t, n.text = c :: t ∧ (c = '-' ∨ c.isDigit = true) := by
  obtain ⟨minus, ⟨⟨⟩ | ⟨c, s⟩, hne, hall, hzero⟩, frac, exp⟩ := n
  · exact absurd rfl hne
  · cases minus with
    | true => exact ⟨'-', _, rfl, Or.inl rfl⟩
    | false => exact ⟨c, _, rfl, Or.inr (List.all_eq_true.mp hall c List.mem_cons_self)⟩

theorem not_ws_of_numeric {c : Char} (hc : c = '-' ∨ c.isDigit = true) :
    isWs c = false ∧ c ≠ ']' := by
  have hne : ∀ d ∈ " \t\n\r]".toList, c ≠ d := by
    rintro d hd rfl
    rcases hc with rfl | hc
    · exact absurd hd (by decide)
    · have hdigit : ∀ d ∈ " \t\n\r]".toList, d.isDigit = false := by decide
      rw [hdigit c hd] at hc
      cases hc
  have hws : ∀ d ∈ " \t\n\r".toList, c ≠ d := fun d hd => hne d (by simp at hd ⊢; tauto)
  refine ⟨?_, hne ']' (by decide)⟩
  simp [isWs, hws ' ' (by decide), hws '\t' (by decide), hws '\n' (by decide),
    hws '\r' (by decide)]

/-- A value starts a token that closes nothing. -/
theorem Tree.text_head (v : Tree) : ∃ c t, v.text = c :: t ∧ isWs c = false ∧ c ≠ ']' := by
  cases v with
  | null => exact ⟨'n', _, rfl, by decide⟩
  | bool b => cases b <;> exact ⟨_, _, rfl, by decide⟩
  | str s => exact ⟨'"', _, rfl, by decide⟩
  | num n =>
    obtain ⟨c, t, ht, hc⟩ := n.text_head
    exact ⟨c, t, ht, not_ws_of_numeric hc⟩
  | emptyArr ws => exact ⟨'[', _, rfl, by decide⟩
  | arr ws v rest ws' => exact ⟨'[', _, rfl, by decide⟩
  | obj o => cases o <;> exact ⟨'\x7b', _, rfl, by decide⟩

/-- The value is read from the text of the tree. -/
def Tree.Reads (v : Tree) : Prop :=
  ∀ n ws r, ws.all isWs = true → v.text.length ≤ n → Delimited r →
    parseValue (n + 1) (ws ++ (v.text ++ r)) = v.json.map fun j => (j, r)

/-- The elements are read, behind a first one. -/
def Trees.Reads (vs : Trees) : Prop :=
  ∀ v : Tree, v.Reads → ∀ n ws ws' r, ws.all isWs = true → ws'.all isWs = true →
    v.text.length + vs.text.length ≤ n →
      parseElems (n + 2) (ws ++ (v.text ++ (vs.text ++ (ws' ++ ']' :: r)))) =
        v.json.bind fun j => vs.json.map fun js => (j :: js, r)

/-- The members are read, behind a first one. -/
def Pairs.Reads (ps : Pairs) : Prop :=
  ∀ v : Tree, v.Reads → ∀ key n ws ws₁ ws₂ ws' r, ws.all isWs = true → ws₁.all isWs = true →
    ws₂.all isWs = true → ws'.all isWs = true → v.text.length + ps.text.length ≤ n →
      parseMembers (n + 2) (ws ++ '"' :: (piecesText key ++ '"' :: (ws₁ ++ ':' :: (ws₂ ++
          (v.text ++ (ps.text ++ (ws' ++ '\x7d' :: r))))))) =
        (decode none key).bind fun k => v.json.bind fun j =>
          ps.json.map fun ms => ((k, j) :: ms, r)

theorem Trees.reads_nil : Trees.nil.Reads := by
  intro v hv n ws ws' r hws hws' hlen
  have hend : Delimited (ws' ++ ']' :: r) :=
    (Delimited.cons (Or.inr (Or.inl rfl)) r).append_ws hws'
  simp only [Trees.text, List.length_nil, Nat.add_zero] at hlen
  rw [parseElems, Trees.text, List.nil_append, hv n ws _ hws hlen hend, Trees.json]
  cases v.json with
  | none => rfl
  | some j =>
    simp only [Option.map_some, skipWs_append hws', skipWs_cons (show isWs ']' = false from rfl)]
    rfl

theorem Trees.reads_cons {ws₀ : Blank} {v₀ : Tree} {rest : Trees} (hv₀ : v₀.Reads)
    (hrest : rest.Reads) : (Trees.cons ws₀ v₀ rest).Reads := by
  intro v hv n ws ws' r hws hws' hlen
  obtain ⟨c, t, ht, -⟩ := v.text_head
  have hpos : 0 < v.text.length := by simp [ht]
  simp only [Trees.text, List.length_cons, List.length_append] at hlen
  have hvalue := hv n ws (',' :: (ws₀.1 ++ (v₀.text ++ (rest.text ++ (ws' ++ ']' :: r))))) hws
    (by omega) (Delimited.cons (Or.inl rfl) _)
  obtain ⟨m, rfl⟩ : ∃ m, n = m + 1 := ⟨n - 1, by omega⟩
  have htail := hrest v₀ hv₀ m ws₀.1 ws' r ws₀.2 hws' (by omega)
  simp only [Trees.text, List.cons_append, List.append_assoc]
  rw [parseElems, hvalue, Trees.json]
  cases v.json with
  | none => rfl
  | some j =>
    simp only [Option.map_some, skipWs_cons (show isWs ',' = false from rfl), htail,
      Option.bind_some]
    cases v₀.json <;> cases rest.json <;> rfl

theorem Pairs.reads_nil : Pairs.nil.Reads := by
  intro v hv key n ws ws₁ ws₂ ws' r hws hws₁ hws₂ hws' hlen
  have hend : Delimited (ws' ++ '\x7d' :: r) :=
    (Delimited.cons (Or.inr (Or.inr rfl)) r).append_ws hws'
  have hkey := scanString_pieces none key
  simp only [waiting] at hkey
  simp only [Pairs.text, List.length_nil, Nat.add_zero] at hlen
  rw [parseMembers, skipWs_append hws, skipWs_cons rfl, Pairs.text, List.nil_append]
  simp only [hkey, Pairs.json]
  cases decode none key with
  | none => rfl
  | some k =>
    simp only [Option.map_some, skipWs_append hws₁, skipWs_cons (show isWs ':' = false from rfl),
      hv n ws₂ _ hws₂ hlen hend, Option.bind_some]
    cases v.json with
    | none => rfl
    | some j =>
      simp only [Option.map_some, skipWs_append hws',
        skipWs_cons (show isWs '\x7d' = false from rfl)]
      rfl

theorem Pairs.reads_cons {ws₀ ws₃ ws₄ : Blank} {key₀ : List Piece} {v₀ : Tree} {rest : Pairs}
    (hv₀ : v₀.Reads) (hrest : rest.Reads) : (Pairs.cons ws₀ key₀ ws₃ ws₄ v₀ rest).Reads := by
  intro v hv key n ws ws₁ ws₂ ws' r hws hws₁ hws₂ hws' hlen
  obtain ⟨c, t, ht, -⟩ := v.text_head
  have hpos : 0 < v.text.length := by simp [ht]
  have hkey := scanString_pieces none key
  simp only [waiting] at hkey
  simp only [Pairs.text, List.length_cons, List.length_append] at hlen
  have hvalue := fun r => hv n ws₂ (',' :: r) hws₂ (by omega) (Delimited.cons (Or.inl rfl) _)
  obtain ⟨m, rfl⟩ : ∃ m, n = m + 1 := ⟨n - 1, by omega⟩
  have htail := hrest v₀ hv₀ key₀ m ws₀.1 ws₃.1 ws₄.1 ws' r ws₀.2 ws₃.2 ws₄.2 hws' (by omega)
  simp only [Pairs.text, List.cons_append, List.append_assoc]
  rw [parseMembers, skipWs_append hws, skipWs_cons rfl]
  simp only [hkey, Pairs.json]
  cases decode none key with
  | none => rfl
  | some k =>
    simp only [Option.map_some, skipWs_append hws₁, skipWs_cons (show isWs ':' = false from rfl),
      hvalue, Option.bind_some]
    cases v.json with
    | none => rfl
    | some j =>
      simp only [Option.map_some, skipWs_cons (show isWs ',' = false from rfl), htail,
        Option.bind_some]
      cases decode none key₀ <;> cases v₀.json <;> cases rest.json <;> rfl

theorem Tree.reads_arr {ws₀ ws₁ : Blank} {v : Tree} {rest : Trees} (hv : v.Reads)
    (hrest : rest.Reads) : (Tree.arr ws₀ v rest ws₁).Reads := by
  intro n ws r hws hlen _
  obtain ⟨c, t, ht, hc, hne⟩ := v.text_head
  simp only [Tree.text, List.length_cons, List.length_append] at hlen
  have hpos : 0 < v.text.length := by simp [ht]
  obtain ⟨m, rfl⟩ : ∃ m, n = m + 2 := ⟨n - 2, by simp at hlen; omega⟩
  have hskip : skipWs (ws₀.1 ++ (v.text ++ (rest.text ++ (ws₁.1 ++ ']' :: r)))) =
      c :: (t ++ (rest.text ++ (ws₁.1 ++ ']' :: r))) := by
    rw [skipWs_append ws₀.2, ht, List.cons_append, skipWs_cons hc]
  have helems := hrest v hv m [] ws₁.1 r rfl ws₁.2 (by simp at hlen; omega)
  rw [List.nil_append, ht, List.cons_append] at helems
  simp only [Tree.text, List.cons_append, List.append_assoc, List.nil_append]
  rw [parseValue_bracket hws hskip hne, helems, Tree.json]
  cases v.json <;> cases rest.json <;> rfl

theorem Object.reads_members {ws₀ ws₁ ws₂ ws₃ : Blank} {key : List Piece} {v : Tree} {rest : Pairs}
    (hv : v.Reads) (hrest : rest.Reads) :
    (Tree.obj (.members ws₀ key ws₁ ws₂ v rest ws₃)).Reads := by
  intro n ws r hws hlen _
  simp only [Tree.text, Object.text, List.length_cons, List.length_append] at hlen
  obtain ⟨m, rfl⟩ : ∃ m, n = m + 2 := ⟨n - 2, by omega⟩
  have hmembers := hrest v hv key m [] ws₁.1 ws₂.1 ws₃.1 r rfl ws₁.2 ws₂.2 ws₃.2 (by omega)
  have hskip := fun t : Text => (skipWs_append ws₀.2 ('"' :: t)).trans (skipWs_cons (by decide) t)
  simp only [Tree.text, Object.text, List.cons_append, List.append_assoc, List.nil_append]
  rw [parseValue_brace hws (hskip _) (by decide)]
  rw [List.nil_append] at hmembers
  rw [hmembers, Tree.json, Object.json]
  cases decode none key <;> cases v.json <;> cases rest.json <;> rfl

theorem Tree.reads_str (s : List Piece) : (Tree.str s).Reads := by
  intro n ws r hws _ _
  have hscan := scanString_pieces none s r
  simp only [waiting] at hscan
  simp only [Tree.text, List.cons_append, List.append_assoc, List.nil_append]
  rw [parseValue_quote hws, hscan, Tree.json, Option.map_map, Option.map_map]
  rfl

theorem Tree.reads_num (n : Number) : (Tree.num n).Reads := by
  intro m ws r hws _ hr
  obtain ⟨c, t, ht, hc⟩ := n.text_head
  have hhead : n.text ++ r = c :: (t ++ r) := by rw [ht, List.cons_append]
  rw [Tree.text, parseValue_number hws hhead hc, n.parseNumber_text hr, Tree.json]

theorem Tree.reads_emptyArr (ws : Blank) : (Tree.emptyArr ws).Reads := by
  intro n ws' r hws _ _
  simp only [Tree.text, List.cons_append, List.append_assoc, List.nil_append]
  rw [parseValue, skipWs_append hws, skipWs_cons (by decide)]
  simp only [skipWs_append ws.2, skipWs_cons (show isWs ']' = false from rfl)]
  rfl

theorem Object.reads_empty (ws : Blank) : (Tree.obj (.empty ws)).Reads := by
  intro n ws' r hws _ _
  simp only [Tree.text, Object.text, List.cons_append, List.append_assoc, List.nil_append]
  rw [parseValue, skipWs_append hws, skipWs_cons (by decide)]
  simp only [skipWs_append ws.2, skipWs_cons (show isWs '\x7d' = false from rfl)]
  rfl

theorem Tree.reads_name {v : Tree} {c : Char} {t : Text} {j : Json} (ht : v.text = c :: t)
    (hc : isWs c = false) (hne : c ≠ '"' ∧ c ≠ '[' ∧ c ≠ '\x7b')
    (hscalar : ∀ r, parseScalar (c :: (t ++ r)) = some (j, r)) (hj : v.json = some j) :
    v.Reads := by
  intro n ws r hws _ _
  rw [ht, List.cons_append, parseValue_scalar hws rfl hc hne.1 hne.2.1 hne.2.2, hscalar, hj]
  rfl

mutual

theorem Tree.reads : ∀ v : Tree, v.Reads
  | .null => Tree.reads_name rfl (by decide) (by decide) (fun _ => rfl) rfl
  | .bool true => Tree.reads_name rfl (by decide) (by decide) (fun _ => rfl) rfl
  | .bool false => Tree.reads_name rfl (by decide) (by decide) (fun _ => rfl) rfl
  | .str s => Tree.reads_str s
  | .num n => Tree.reads_num n
  | .emptyArr ws => Tree.reads_emptyArr ws
  | .arr _ v rest _ => Tree.reads_arr v.reads rest.reads
  | .obj o => o.reads

theorem Trees.reads : ∀ vs : Trees, vs.Reads
  | .nil => Trees.reads_nil
  | .cons _ v rest => Trees.reads_cons v.reads rest.reads

theorem Object.reads : ∀ o : Object, (Tree.obj o).Reads
  | .empty ws => Object.reads_empty ws
  | .members _ _ _ _ v rest _ => Object.reads_members v.reads rest.reads

theorem Pairs.reads : ∀ ps : Pairs, ps.Reads
  | .nil => Pairs.reads_nil
  | .cons _ _ _ _ v rest => Pairs.reads_cons v.reads rest.reads

end

/-! ### Scanning a tree -/

/-- A scanner between strings comes back from the text to where it was. -/
def Closed (s : Text) : Prop := ∀ d, ∃ ts, Lexes (d, .out) s ts (d, .out)

theorem closed_filler {s : Text} (h : ∀ c ∈ s, isFiller c = true) : Closed s :=
  fun d => ⟨[], lexes_filler h d⟩

theorem Closed.append {s t : Text} (hs : Closed s) (ht : Closed t) : Closed (s ++ t) := by
  intro d
  obtain ⟨ts, hts⟩ := hs d
  obtain ⟨us, hus⟩ := ht d
  exact ⟨ts ++ us, hts.append hus⟩

theorem closed_blank (ws : Blank) : Closed ws.1 :=
  closed_filler fun c hc => isFiller_of_isWs (List.all_eq_true.mp ws.2 c hc)

theorem closed_colon : Closed [':'] := fun d => ⟨_, lexes_colon d⟩

theorem closed_comma : Closed [','] := fun d => ⟨_, lexes_comma d⟩

theorem Closed.brackets {a b : Char} (ha : a = '\x7b' ∨ a = '[') (hb : b = '\x7d' ∨ b = ']')
    {s : Text} (hs : Closed s) : Closed (a :: s ++ [b]) := by
  intro d
  obtain ⟨ts, hts⟩ := hs (d + 1)
  exact ⟨ts, lexes_brackets ha hb hts⟩

theorem lexes_piece (p : Piece) (d : ℕ) (b : Text) :
    Lexes (d, .str b) p.text [] (d, .str (b ++ p.text)) := by
  cases p with
  | plain c hc =>
    have hplain := plain_of_mem_encode hc
    exact lexes_plain (fun h => (hplain _ h).1 rfl) (fun h => (hplain _ h).2.1 rfl) d b
  | escape c hc =>
    have hslash : lexStep (d, .str b) '\\' = some ([], d, .esc (b ++ ['\\'])) := rfl
    have hletter : lexStep (d, .esc (b ++ ['\\'])) c = some ([], d, .str (b ++ ['\\'] ++ [c])) :=
      rfl
    refine lexes_cons.mpr ⟨[], [], _, hslash, lexes_cons.mpr ⟨[], [], _, hletter, ?_, rfl⟩, rfl⟩
    rw [List.append_assoc]
    exact Lexes.nil _
  | unit c₁ c₂ c₃ c₄ =>
    have hstart : Lexes (d, .str b) ['\\', 'u'] [] (d, .str (b ++ ['\\'] ++ ['u'])) := rfl
    have hhex : ∀ c : HexDigit, c.1 ≠ '"' ∧ c.1 ≠ '\\' := by
      rintro ⟨c, hc⟩
      constructor
      · rintro rfl
        exact absurd hc (by decide)
      · rintro rfl
        exact absurd hc (by decide)
    have hdigits := lexes_plain (s := [c₁.1, c₂.1, c₃.1, c₄.1])
      (by simp [(hhex c₁).1.symm, (hhex c₂).1.symm, (hhex c₃).1.symm, (hhex c₄).1.symm])
      (by simp [(hhex c₁).2.symm, (hhex c₂).2.symm, (hhex c₃).2.symm, (hhex c₄).2.symm]) d
      (b ++ ['\\'] ++ ['u'])
    have hall := hstart.append hdigits
    rw [List.append_assoc, List.append_assoc] at hall
    exact hall

/-- A string literal. -/
theorem closed_pieces (s : List Piece) : Closed ('"' :: (piecesText s ++ ['"'])) := by
  have hpieces : ∀ d b, Lexes (d, .str b) (piecesText s) [] (d, .str (b ++ piecesText s)) := by
    intro d
    induction s with
    | nil =>
      intro b
      rw [piecesText, List.flatMap_nil, List.append_nil]
      exact Lexes.nil _
    | cons p s ih =>
      intro b
      have hall := (lexes_piece p d b).append (ih (b ++ p.text))
      rw [List.append_assoc] at hall
      exact hall
  intro d
  have hopen : Lexes (d, .out) ['"'] [] (d, .str []) := rfl
  have hclose : Lexes (d, .str ([] ++ piecesText s)) ['"'] [.lit d ([] ++ piecesText s)]
      (d, .out) := rfl
  exact ⟨_, hopen.append ((hpieces d []).append hclose)⟩

theorem Number.closed_text (n : Number) : Closed n.text := by
  have hdigits : ∀ s : Text, s.all Char.isDigit = true → ∀ c ∈ s, isFiller c = true :=
    fun s hs c hc => isFiller_of_isDigit (List.all_eq_true.mp hs c hc)
  obtain ⟨minus, int, frac, exp⟩ := n
  have hexp : ∀ c ∈ exp.elim [] Exponent.text, isFiller c = true := by
    cases exp with
    | none => exact nofun
    | some e =>
      obtain ⟨⟨letter, hletter⟩, sign, digits⟩ := e
      refine List.forall_mem_cons.mpr ⟨by rcases hletter with rfl | rfl <;> rfl, ?_⟩
      refine List.forall_mem_append.mpr ⟨?_, hdigits _ digits.2.2⟩
      cases sign with
      | none => exact nofun
      | some c =>
        obtain ⟨c, rfl | rfl⟩ := c <;> exact List.forall_mem_singleton.mpr rfl
  refine closed_filler (List.forall_mem_append.mpr ⟨?_, List.forall_mem_append.mpr
    ⟨hdigits _ int.2.2.1, List.forall_mem_append.mpr ⟨?_, hexp⟩⟩⟩)
  · cases minus with
    | true => exact List.forall_mem_singleton.mpr rfl
    | false => exact nofun
  · cases frac with
    | none => exact nofun
    | some digits => exact List.forall_mem_cons.mpr ⟨rfl, hdigits _ digits.2.2⟩

/-- A member behind its white space. -/
theorem closed_member (key : List Piece) (ws₁ ws₂ : Blank) {v rest : Text} (hv : Closed v)
    (hrest : Closed rest) :
    Closed ('"' :: (piecesText key ++ '"' :: (ws₁.1 ++ ':' :: (ws₂.1 ++ (v ++ rest))))) := by
  have hall := (closed_pieces key).append ((closed_blank ws₁).append
    (closed_colon.append ((closed_blank ws₂).append (hv.append hrest))))
  simpa using hall

mutual

theorem Tree.closed : ∀ v : Tree, Closed v.text
  | .null => closed_filler (by decide)
  | .bool true => closed_filler (by decide)
  | .bool false => closed_filler (by decide)
  | .str s => closed_pieces s
  | .num n => n.closed_text
  | .emptyArr ws => Closed.brackets (Or.inr rfl) (Or.inr rfl) (closed_blank ws)
  | .arr ws v rest ws' => by
    have hall := Closed.brackets (Or.inr rfl) (Or.inr rfl) ((closed_blank ws).append
      (v.closed.append (rest.closed.append (closed_blank ws'))))
    simpa [Tree.text] using hall
  | .obj o => o.closed

theorem Trees.closed : ∀ vs : Trees, Closed vs.text
  | .nil => closed_filler nofun
  | .cons ws v rest => closed_comma.append ((closed_blank ws).append (v.closed.append rest.closed))

/-- **The text of an object** leads a scanner back to where it was. -/
theorem Object.closed : ∀ o : Object, Closed o.text
  | .empty ws => Closed.brackets (Or.inl rfl) (Or.inl rfl) (closed_blank ws)
  | .members ws key ws₁ ws₂ v rest ws' => by
    have hall := Closed.brackets (Or.inl rfl) (Or.inl rfl) ((closed_blank ws).append
      (closed_member key ws₁ ws₂ v.closed (rest.closed.append (closed_blank ws'))))
    simpa [Object.text] using hall

theorem Pairs.closed : ∀ ps : Pairs, Closed ps.text
  | .nil => closed_filler nofun
  | .cons ws key ws₁ ws₂ v rest => closed_comma.append ((closed_blank ws).append
      (closed_member key ws₁ ws₂ v.closed rest.closed))

end

end Json
