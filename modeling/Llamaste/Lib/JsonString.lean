import Llamaste.Lib.Json

/-!
# JSON strings

Reading and writing the contents of JSON strings as bytes, the way a strict JSON library
does it: contents are checked to be UTF-8, and control characters must be escaped. The
scanner is a byte machine (`StrState`), so that reading is a structural recursion on the
text.

## Main results

* `Json.scanString_dumpString`: a written string is read back.
-/

/-! ### UTF-8 -/

namespace Utf8

/-- Where a UTF-8 reader stands: the continuation bytes still owed, and the range of the
next one. -/
structure State where
  owed : ℕ
  low : ℕ
  high : ℕ
  deriving DecidableEq, Repr

/-- Between characters. -/
def start : State := ⟨0, 0x80, 0xBF⟩

/-- The first byte of a character. -/
def lead (b : ℕ) : Option State :=
  if b < 0x80 then some start
  else if b < 0xC2 then none
  else if b ≤ 0xDF then some ⟨1, 0x80, 0xBF⟩
  else if b = 0xE0 then some ⟨2, 0xA0, 0xBF⟩
  else if b = 0xED then some ⟨2, 0x80, 0x9F⟩
  else if b ≤ 0xEF then some ⟨2, 0x80, 0xBF⟩
  else if b = 0xF0 then some ⟨3, 0x90, 0xBF⟩
  else if b ≤ 0xF3 then some ⟨3, 0x80, 0xBF⟩
  else if b = 0xF4 then some ⟨3, 0x80, 0x8F⟩
  else none

/-- One byte: the state after it, or `none` where UTF-8 cannot hold it. -/
def step (q : State) (b : ℕ) : Option State :=
  if q.owed = 0 then lead b
  else if q.low ≤ b ∧ b ≤ q.high then some ⟨q.owed - 1, 0x80, 0xBF⟩
  else none

/-- The text can be completed from `q` to whole characters. -/
def validFrom : State → Text → Bool
  | q, [] => q.owed == 0
  | q, c :: s =>
      match step q c.toNat with
      | some q' => validFrom q' s
      | none => false

/-- The byte string is valid UTF-8. -/
def valid (s : Text) : Bool := validFrom start s

/-- ASCII is UTF-8. -/
theorem valid_of_ascii {s : Text} (hs : ∀ c ∈ s, c.toNat < 0x80) : valid s = true := by
  suffices h : validFrom start s = true from h
  induction s with
  | nil => rfl
  | cons c s ih =>
      have hstep : step start c.toNat = some start := if_pos (hs c List.mem_cons_self)
      simp only [validFrom, hstep]
      exact ih fun c hc => hs c (List.mem_cons_of_mem _ hc)

/-- A continuation byte with the low six bits of a number. -/
def tail (n : ℕ) : Char := Char.ofNat (0x80 + n % 0x40)

/-- The bytes of a code point. -/
def encode (cp : ℕ) : Text :=
  if cp < 0x80 then [Char.ofNat cp]
  else if cp < 0x800 then [Char.ofNat (0xC0 + cp / 0x40), tail cp]
  else if cp < 0x10000 then [Char.ofNat (0xE0 + cp / 0x1000), tail (cp / 0x40), tail cp]
  else [Char.ofNat (0xF0 + cp / 0x40000), tail (cp / 0x1000), tail (cp / 0x40), tail cp]

end Utf8

namespace Json

/-! ### Strings -/

/-- Where the string scanner stands: in the text, after a backslash, within a `\u` escape
(with the digits read, their value, and a high surrogate that waits for its low one), or
before the escape of that low surrogate. -/
inductive StrState
  | text (q : Utf8.State)
  | escape
  | hex (high : Option ℕ) (digits acc : ℕ)
  | lowEscape (high : ℕ)
  | lowU (high : ℕ)
  deriving DecidableEq, Repr

/-- The value of a hexadecimal digit. -/
def hexVal (c : Char) : Option ℕ :=
  if '0' ≤ c ∧ c ≤ '9' then some (c.toNat - '0'.toNat)
  else if 'A' ≤ c ∧ c ≤ 'F' then some (c.toNat - 'A'.toNat + 10)
  else if 'a' ≤ c ∧ c ≤ 'f' then some (c.toNat - 'a'.toNat + 10)
  else none

/-- The end of a `\u` escape: a high surrogate must be followed by a low one, and a low
one must follow a high one. -/
def endHex (high : Option ℕ) (cp : ℕ) : Option (Text × StrState) :=
  match high with
  | none =>
      if 0xD800 ≤ cp ∧ cp ≤ 0xDBFF then some ([], .lowEscape cp)
      else if 0xDC00 ≤ cp ∧ cp ≤ 0xDFFF then none
      else some (Utf8.encode cp, .text Utf8.start)
  | some h =>
      if 0xDC00 ≤ cp ∧ cp ≤ 0xDFFF then
        some (Utf8.encode (0x10000 + (h - 0xD800) * 0x400 + (cp - 0xDC00)), .text Utf8.start)
      else none

/-- The byte a one-character escape stands for. -/
def unescape (c : Char) : Option Char :=
  if c = '"' ∨ c = '\\' ∨ c = '/' then some c
  else if c = 'b' then some (Char.ofNat 8)
  else if c = 'f' then some (Char.ofNat 12)
  else if c = 'n' then some '\n'
  else if c = 'r' then some '\r'
  else if c = 't' then some '\t'
  else none

/-- One byte of a string literal: the bytes it completes, and the next state. Control
characters must be escaped. -/
def strStep : StrState → Char → Option (Text × StrState)
  | .text q, c =>
      if q.owed = 0 ∧ c = '\\' then some ([], .escape)
      else if c.toNat < 0x20 then none
      else (Utf8.step q c.toNat).map fun q' => ([c], .text q')
  | .escape, c =>
      if c = 'u' then some ([], .hex none 0 0)
      else (unescape c).map fun b => ([b], .text Utf8.start)
  | .hex high digits acc, c =>
      match hexVal c with
      | none => none
      | some v =>
          if digits < 3 then some ([], .hex high (digits + 1) (acc * 16 + v))
          else endHex high (acc * 16 + v)
  | .lowEscape high, c => if c = '\\' then some ([], .lowU high) else none
  | .lowU high, c => if c = 'u' then some ([], .hex (some high) 0 0) else none

/-- A closing quote is one that stands between characters. -/
def closes : StrState → Char → Bool
  | .text q, c => q.owed = 0 && c = '"'
  | _, _ => false

/-- The rest of a string literal after its opening quote: the contents and the text after
the closing quote. -/
def scanString : StrState → Text → Option (Text × Text)
  | _, [] => none
  | q, c :: r =>
      if closes q c then some ([], r)
      else
        match strStep q c with
        | none => none
        | some (out, q') => (scanString q' r).map fun (s, r') => (out ++ s, r')

/-- One byte of a string as it is written. -/
def escapeChar (c : Char) : Text :=
  if c = '"' then "\\\""
  else if c = '\\' then "\\\\"
  else if c = '\n' then "\\n"
  else if c = '\r' then "\\r"
  else if c = '\t' then "\\t"
  else if c = Char.ofNat 8 then "\\b"
  else if c = Char.ofNat 12 then "\\f"
  else if c.toNat < 0x20 then
    "\\u00" ++ [Text.hexDigit (c.toNat / 16), Text.hexDigit (c.toNat % 16)]
  else [c]

/-- A string literal. -/
def dumpString (s : Text) : Text := '"' :: s.flatMap escapeChar ++ ['"']

/-! ### A written string is read back -/

theorem hexVal_hexDigit : ∀ n < 16, hexVal (Text.hexDigit n) = some n := by
  decide

/-- The states the reader is in owe continuation bytes from 0x80 on. -/
def Owes (q : Utf8.State) : Prop := q.owed ≠ 0 → 0x80 ≤ q.low

theorem owes_start : Owes Utf8.start := fun h => absurd rfl h

/-- The bytes that may come next begin no character. -/
theorem bounds_step {q q' : Utf8.State} {b : ℕ} (hq : Utf8.step q b = some q') :
    0x80 ≤ q'.low ∧ q'.high ≤ 0xBF := by
  unfold Utf8.step at hq
  split at hq
  · unfold Utf8.lead at hq
    repeat' split at hq
    all_goals first | (obtain rfl := Option.some.inj hq; decide) | cases hq
  · split at hq
    · obtain rfl := Option.some.inj hq
      exact ⟨le_rfl, le_rfl⟩
    · cases hq

theorem Owes.step {q q' : Utf8.State} {b : ℕ} (hq : Utf8.step q b = some q') : Owes q' :=
  fun _ => (bounds_step hq).1

/-- A byte below 0x80 stands between characters. -/
theorem step_ascii {q q' : Utf8.State} {b : ℕ} (hb : b < 0x80) (ho : Owes q)
    (hq : Utf8.step q b = some q') : q.owed = 0 ∧ q' = Utf8.start := by
  unfold Utf8.step at hq
  by_cases h0 : q.owed = 0
  · rw [if_pos h0, Utf8.lead, if_pos hb] at hq
    exact ⟨h0, (Option.some.inj hq).symm⟩
  · have := ho h0
    rw [if_neg h0, if_neg (by omega)] at hq
    cases hq

/-- A byte that needs no escape is read as it stands. -/
theorem scanString_plain {q q' : Utf8.State} {c : Char} (r : Text) (h20 : 0x20 ≤ c.toNat)
    (hquote : c ≠ '"') (hback : c ≠ '\\') (hq : Utf8.step q c.toNat = some q') :
    scanString (.text q) (c :: r) =
      (scanString (.text q') r).map fun (s, r') => (c :: s, r') := by
  have hclose : closes (.text q) c = false := by simp [closes, hquote]
  have hstep : strStep (.text q) c = some ([c], .text q') := by
    simp [strStep, hback, hq, Nat.not_lt.mpr h20]
  simp [scanString, hclose, hstep]

/-- A one-character escape is read as the byte it stands for. -/
theorem scanString_escape {q : Utf8.State} {c b : Char} (r : Text) (h0 : q.owed = 0)
    (hu : c ≠ 'u') (hc : unescape c = some b) :
    scanString (.text q) ('\\' :: c :: r) =
      (scanString (.text Utf8.start) r).map fun (s, r') => (b :: s, r') := by
  have hclose : closes (.text q) '\\' = false := by simp [closes]
  have hclose' : closes .escape c = false := rfl
  have hstep : strStep (.text q) '\\' = some ([], .escape) := by simp [strStep, h0]
  have hstep' : strStep .escape c = some ([b], .text Utf8.start) := by
    simp [strStep, hu, hc]
  simp [scanString, hclose, hclose', hstep, hstep', Function.comp_def]

/-- A control character written as `\u00xx` is read back. -/
theorem scanString_control {q : Utf8.State} {c : Char} (r : Text) (h0 : q.owed = 0)
    (hc : c.toNat < 0x20) :
    scanString (.text q)
        ("\\u00" ++ [Text.hexDigit (c.toNat / 16), Text.hexDigit (c.toNat % 16)] ++ r) =
      (scanString (.text Utf8.start) r).map fun (s, r') => (c :: s, r') := by
  have h1 := hexVal_hexDigit (c.toNat / 16) (by omega)
  have h2 := hexVal_hexDigit (c.toNat % 16) (by omega)
  have hz : hexVal '0' = some 0 := by decide
  have hval : c.toNat / 16 * 16 + c.toNat % 16 = c.toNat := by omega
  have henc : Utf8.encode c.toNat = [c] := by
    simp [Utf8.encode, show c.toNat < 0x80 by omega]
  have hend : endHex none c.toNat = some ([c], .text Utf8.start) := by
    rw [endHex, if_neg (by omega), if_neg (by omega), henc]
  simp [scanString, closes, strStep, h0, hz, h1, h2, hval, hend, Function.comp_def]

/-- A byte that is not ASCII needs no escape. -/
theorem escapeChar_of_not_ascii {c : Char} (hc : ¬ c.toNat < 0x80) : escapeChar c = [c] := by
  have hbig : ∀ d : Char, d.toNat < 0x80 → c ≠ d := by
    rintro d hd rfl
    exact hc hd
  simp only [escapeChar, if_neg (hbig '"' (by decide)), if_neg (hbig '\\' (by decide)),
    if_neg (hbig '\n' (by decide)), if_neg (hbig '\r' (by decide)),
    if_neg (hbig '\t' (by decide)), if_neg (hbig (Char.ofNat 8) (by decide)),
    if_neg (hbig (Char.ofNat 12) (by decide)), if_neg (show ¬ c.toNat < 0x20 by omega)]

/-- One byte, written and read back. -/
theorem scanString_escapeChar {q q' : Utf8.State} {c : Char} (r : Text) (ho : Owes q)
    (hq : Utf8.step q c.toNat = some q') :
    scanString (.text q) (escapeChar c ++ r) =
      (scanString (.text q') r).map fun (s, r') => (c :: s, r') := by
  by_cases hascii : c.toNat < 0x80
  · obtain ⟨h0, rfl⟩ := step_ascii hascii ho hq
    rw [escapeChar]
    -- the seven short escapes, each read by `unescape`
    split; · subst_vars; exact scanString_escape r h0 (by decide) (by decide)
    split; · subst_vars; exact scanString_escape r h0 (by decide) (by decide)
    split; · subst_vars; exact scanString_escape r h0 (by decide) (by decide)
    split; · subst_vars; exact scanString_escape r h0 (by decide) (by decide)
    split; · subst_vars; exact scanString_escape r h0 (by decide) (by decide)
    split; · subst_vars; exact scanString_escape r h0 (by decide) (by decide)
    split; · subst_vars; exact scanString_escape r h0 (by decide) (by decide)
    split
    · exact scanString_control r h0 ‹_›
    · exact scanString_plain r (by omega) ‹_› ‹_› hq
  · have hbig : ∀ d : Char, d.toNat < 0x80 → c ≠ d := by
      rintro d hd rfl
      exact hascii hd
    rw [escapeChar_of_not_ascii hascii]
    exact scanString_plain r (by omega) (hbig '"' (by decide)) (hbig '\\' (by decide)) hq

/-- **A written string is read back**, up to its closing quote. -/
theorem scanString_flatMap_escapeChar {q : Utf8.State} {s : Text} (r : Text) (ho : Owes q)
    (hs : Utf8.validFrom q s = true) :
    scanString (.text q) (s.flatMap escapeChar ++ '"' :: r) = some (s, r) := by
  induction s generalizing q with
  | nil =>
      have h0 : q.owed = 0 := by simpa [Utf8.validFrom] using hs
      simp [scanString, closes, h0]
  | cons c s ih =>
      rw [Utf8.validFrom] at hs
      cases hq : Utf8.step q c.toNat with
      | none => simp [hq] at hs
      | some q' =>
          rw [hq] at hs
          rw [List.flatMap_cons, List.append_assoc, scanString_escapeChar _ ho hq,
            ih (Owes.step hq) hs]
          rfl

theorem scanString_dumpString {s : Text} (r : Text) (hs : Utf8.valid s = true) :
    scanString (.text Utf8.start) ((dumpString s ++ r).tail) = some (s, r) := by
  have := scanString_flatMap_escapeChar r owes_start hs
  simpa [dumpString] using this

end Json
