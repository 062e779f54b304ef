import Llamaste.Lib.JsonTag

/-!
# A scanner for JSON text

The scanner has no stack: it only keeps whether it stands in a string and how deep brackets are
nested. It reports the string literals with their depth, the colons and the commas.

## Main results

* `Json.Lexes.literal`: a literal that is reported stands between quotes in the text.
* `Json.Lexes.swapped`: two scanners that start on different sides of a quote stay apart.
-/

namespace Json

/-! ### The scanner -/

/-- What the scanner reports. -/
inductive Token
  | lit (depth : ℕ) (t : Text)
  | colon
  | comma
  deriving DecidableEq, Repr

/-- Where the scanner stands: between strings, in a string whose text so far it holds, or
behind a backslash in one. -/
inductive Mode
  | out
  | str (buf : Text)
  | esc (buf : Text)
  deriving DecidableEq, Repr

/-- The other characters of white space, numbers and literal names. -/
def isFiller (c : Char) : Bool :=
  isWs c || c.isDigit || "+-.Eaeflnrstu".toList.contains c

/-- One character between strings, at a depth. -/
def stepOut (d : ℕ) (c : Char) : Option (List Token × ℕ × Mode) :=
  if c = '"' then some ([], d, .str [])
  else if c = '\x7b' ∨ c = '[' then some ([], d + 1, .out)
  else if c = '\x7d' ∨ c = ']' then if d = 0 then none else some ([], d - 1, .out)
  else if c = ':' then some ([.colon], d, .out)
  else if c = ',' then some ([.comma], d, .out)
  else if isFiller c then some ([], d, .out)
  else none

/-- One character in a string. -/
def stepStr (d : ℕ) (buf : Text) (c : Char) : List Token × ℕ × Mode :=
  if c = '"' then ([.lit d buf], d, .out)
  else if c = '\\' then ([], d, .esc (buf ++ [c]))
  else ([], d, .str (buf ++ [c]))

/-- One character. -/
def lexStep : ℕ × Mode → Char → Option (List Token × ℕ × Mode)
  | (d, .out), c => stepOut d c
  | (d, .str buf), c => some (stepStr d buf c)
  | (d, .esc buf), c => some ([], d, .str (buf ++ [c]))

/-- A text: what is reported, and where the scanner stands behind it. -/
def lex : ℕ × Mode → Text → Option (List Token × ℕ × Mode)
  | σ, [] => some ([], σ)
  | σ, c :: s =>
    match lexStep σ c with
    | none => none
    | some (ts, σ) => (lex σ s).map fun r => (ts ++ r.1, r.2)

/-- The scanner reads the text. -/
def Lexes (σ : ℕ × Mode) (s : Text) (ts : List Token) (τ : ℕ × Mode) : Prop :=
  lex σ s = some (ts, τ)

instance (σ : ℕ × Mode) (s : Text) (ts : List Token) (τ : ℕ × Mode) :
    Decidable (Lexes σ s ts τ) := inferInstanceAs (Decidable (_ = _))

variable {σ τ υ : ℕ × Mode} {s t : Text} {ts us : List Token}

theorem Lexes.nil (σ : ℕ × Mode) : Lexes σ [] [] σ := rfl

theorem lexes_cons {c : Char} : Lexes σ (c :: s) ts υ ↔
    ∃ us vs τ, lexStep σ c = some (us, τ) ∧ Lexes τ s vs υ ∧ ts = us ++ vs := by
  rw [Lexes, lex]
  cases hstep : lexStep σ c with
  | none => simp
  | some r =>
    obtain ⟨us, τ⟩ := r
    simp only [Option.map_eq_some_iff, Lexes]
    constructor
    · rintro ⟨⟨vs, υ⟩, hlex, heq⟩
      obtain ⟨rfl, rfl⟩ := Prod.mk.inj heq
      exact ⟨us, vs, τ, rfl, hlex, rfl⟩
    · rintro ⟨us, vs, τ, hstep, hlex, rfl⟩
      obtain ⟨rfl, rfl⟩ := Prod.mk.inj (Option.some.inj hstep)
      exact ⟨(vs, υ), hlex, rfl⟩

/-- A text is read in parts. -/
theorem lexes_append : Lexes σ (s ++ t) ts υ ↔
    ∃ us vs τ, Lexes σ s us τ ∧ Lexes τ t vs υ ∧ ts = us ++ vs := by
  induction s generalizing σ ts with
  | nil =>
    constructor
    · exact fun h => ⟨[], ts, σ, rfl, h, rfl⟩
    · rintro ⟨us, vs, τ, hnil, h, rfl⟩
      obtain ⟨rfl, rfl⟩ := Prod.mk.inj (Option.some.inj hnil)
      exact h
  | cons c s ih =>
    rw [List.cons_append, lexes_cons]
    constructor
    · rintro ⟨us, vs, τ, hstep, hrest, rfl⟩
      obtain ⟨vs, ws, τ', hs, ht, rfl⟩ := ih.mp hrest
      exact ⟨us ++ vs, ws, τ', lexes_cons.mpr ⟨us, vs, τ, hstep, hs, rfl⟩, ht,
        (List.append_assoc _ _ _).symm⟩
    · rintro ⟨us, ws, τ', hs, ht, rfl⟩
      obtain ⟨us, vs, τ, hstep, hrest, rfl⟩ := lexes_cons.mp hs
      exact ⟨us, vs ++ ws, τ, hstep, ih.mpr ⟨vs, ws, τ', hrest, ht, rfl⟩,
        List.append_assoc _ _ _⟩

theorem Lexes.append (h : Lexes σ s ts τ) (h' : Lexes τ t us υ) :
    Lexes σ (s ++ t) (ts ++ us) υ := lexes_append.mpr ⟨ts, us, τ, h, h', rfl⟩

theorem Lexes.functional (h : Lexes σ s ts τ) (h' : Lexes σ s us υ) : ts = us ∧ τ = υ :=
  Prod.mk.inj (Option.some.inj (h.symm.trans h'))

/-- A string without quotes and backslashes is passed through. -/
theorem lexes_plain {s : Text} (hquote : '"' ∉ s) (hslash : '\\' ∉ s) (d : ℕ) (b : Text) :
    Lexes (d, .str b) s [] (d, .str (b ++ s)) := by
  induction s generalizing b with
  | nil =>
    rw [List.append_nil]
    exact Lexes.nil _
  | cons c s ih =>
    simp only [List.mem_cons, not_or] at hquote hslash
    have hstep : lexStep (d, .str b) c = some ([], d, .str (b ++ [c])) := by
      rw [lexStep, stepStr, if_neg (Ne.symm hquote.1), if_neg (Ne.symm hslash.1)]
    have hrest := ih hquote.2 hslash.2 (b ++ [c])
    rw [List.append_assoc] at hrest
    exact lexes_cons.mpr ⟨[], [], _, hstep, hrest, rfl⟩

/-! ### String literals -/

/-- The scanner's mode at a state of the string reader. -/
def StrState.mode : StrState → Text → Mode
  | .escape, buf => .esc buf
  | .lowU _, buf => .esc buf
  | _, buf => .str buf

/-- The digits of an escape that are read. -/
def StrState.digits : StrState → ℕ
  | .hex _ digits _ => digits
  | _ => 0

/-- The state owes continuation bytes from 0x80 on, and lacks a digit of an escape. -/
def StrState.Reading : StrState → Prop
  | .text q => Owes q
  | .hex _ digits _ => digits ≤ 3
  | _ => True

/-- A literal is what stands between two quotes for a string. -/
def Decodes (t v : Text) : Prop :=
  ∀ r, scanString (.text Utf8.start) (t ++ '"' :: r) = some (v, r)

theorem length_encode_le (cp : ℕ) : (Utf8.encode cp).length ≤ 4 := by
  rw [Utf8.encode]
  split_ifs <;> simp

/-- Only between characters can a byte be a quote or a backslash. -/
theorem stepStr_of_not_ascii {q q' : Utf8.State} {c : Char} (hq : Owes q)
    (hstep : Utf8.step q c.toNat = some q') (hquote : ¬ (q.owed = 0 ∧ c = '"'))
    (hslash : ¬ (q.owed = 0 ∧ c = '\\')) : c ≠ '"' ∧ c ≠ '\\' := by
  constructor
  · rintro rfl
    exact hquote ⟨(step_ascii (by decide) hq hstep).1, rfl⟩
  · rintro rfl
    exact hslash ⟨(step_ascii (by decide) hq hstep).1, rfl⟩

/-- One character of a string, as the scanner reads it. -/
theorem lexStep_of_strStep {q q' : StrState} {c : Char} {out : Text} (hq : q.Reading)
    (hclose : closes q c = false) (h : strStep q c = some (out, q')) (d : ℕ) (buf : Text) :
    lexStep (d, q.mode buf) c = some ([], d, q'.mode (buf ++ [c])) := by
  have hplain : c ≠ '"' → c ≠ '\\' → stepStr d buf c = ([], d, .str (buf ++ [c])) :=
    fun hquote hslash => by rw [stepStr, if_neg hquote, if_neg hslash]
  have hhex : ∀ {v}, hexVal c = some v → c ≠ '"' ∧ c ≠ '\\' := by
    rintro v hv
    constructor <;> rintro rfl <;> cases hv
  cases q with
  | text q =>
    rw [strStep] at h
    split_ifs at h with hesc hctl
    · obtain ⟨-, rfl⟩ := Prod.mk.inj (Option.some.inj h)
      obtain rfl := hesc.2
      rfl
    · obtain ⟨u, hstep, heq⟩ := Option.map_eq_some_iff.mp h
      obtain ⟨-, rfl⟩ := Prod.mk.inj heq
      have hquote : ¬ (q.owed = 0 ∧ c = '"') := by simpa [closes] using hclose
      obtain ⟨hquote, hslash⟩ := stepStr_of_not_ascii hq hstep hquote hesc
      exact congrArg some (hplain hquote hslash)
  | escape =>
    rw [strStep] at h
    split_ifs at h with hu
    · obtain ⟨-, rfl⟩ := Prod.mk.inj (Option.some.inj h)
      rfl
    · obtain ⟨b, -, heq⟩ := Option.map_eq_some_iff.mp h
      obtain ⟨-, rfl⟩ := Prod.mk.inj heq
      rfl
  | hex high digits acc =>
    rw [strStep] at h
    cases hv : hexVal c with
    | none => simp [hv] at h
    | some v =>
      simp only [hv] at h
      have hnext := congrArg some (hplain (hhex hv).1 (hhex hv).2)
      split_ifs at h
      · obtain ⟨-, rfl⟩ := Prod.mk.inj (Option.some.inj h)
        exact hnext
      · cases high with
        | none =>
          rw [endHex] at h
          split_ifs at h
          all_goals
            obtain ⟨-, rfl⟩ := Prod.mk.inj (Option.some.inj h)
            exact hnext
        | some high =>
          rw [endHex] at h
          split_ifs at h
          obtain ⟨-, rfl⟩ := Prod.mk.inj (Option.some.inj h)
          exact hnext
  | lowEscape high =>
    rw [strStep] at h
    split_ifs at h with hslash
    obtain ⟨-, rfl⟩ := Prod.mk.inj (Option.some.inj h)
    rw [hslash]
    rfl
  | lowU high =>
    rw [strStep] at h
    split_ifs at h
    obtain ⟨-, rfl⟩ := Prod.mk.inj (Option.some.inj h)
    rfl

/-- What one character completes is no longer than the text it was read from. -/
theorem length_of_strStep {q q' : StrState} {c : Char} {out : Text} (hq : q.Reading)
    (h : strStep q c = some (out, q')) :
    q'.Reading ∧ out.length + q'.digits ≤ 1 + q.digits := by
  cases q with
  | text q =>
    rw [strStep] at h
    split_ifs at h with hesc hctl
    · obtain ⟨rfl, rfl⟩ := Prod.mk.inj (Option.some.inj h)
      exact ⟨trivial, Nat.zero_le _⟩
    · obtain ⟨u, hstep, heq⟩ := Option.map_eq_some_iff.mp h
      obtain ⟨rfl, rfl⟩ := Prod.mk.inj heq
      exact ⟨Owes.step hstep, le_rfl⟩
  | escape =>
    rw [strStep] at h
    split_ifs at h with hu
    · obtain ⟨rfl, rfl⟩ := Prod.mk.inj (Option.some.inj h)
      exact ⟨Nat.zero_le 3, Nat.zero_le _⟩
    · obtain ⟨b, -, heq⟩ := Option.map_eq_some_iff.mp h
      obtain ⟨rfl, rfl⟩ := Prod.mk.inj heq
      exact ⟨owes_start, le_rfl⟩
  | hex high digits acc =>
    have hdigits : digits ≤ 3 := hq
    rw [strStep] at h
    cases hv : hexVal c with
    | none => simp [hv] at h
    | some v =>
      simp only [hv] at h
      split_ifs at h with hlt
      · obtain ⟨rfl, rfl⟩ := Prod.mk.inj (Option.some.inj h)
        exact ⟨show digits + 1 ≤ 3 by omega, by simp only [StrState.digits, List.length_nil]; omega⟩
      · have hend : ∀ cp, (Utf8.encode cp).length + 0 ≤ 1 + digits := fun cp => by
          have := length_encode_le cp
          omega
        cases high with
        | none =>
          rw [endHex] at h
          split_ifs at h
          · obtain ⟨rfl, rfl⟩ := Prod.mk.inj (Option.some.inj h)
            exact ⟨trivial, Nat.zero_le _⟩
          · obtain ⟨rfl, rfl⟩ := Prod.mk.inj (Option.some.inj h)
            exact ⟨owes_start, hend _⟩
        | some high =>
          rw [endHex] at h
          split_ifs at h
          obtain ⟨rfl, rfl⟩ := Prod.mk.inj (Option.some.inj h)
          exact ⟨owes_start, hend _⟩
  | lowEscape high =>
    rw [strStep] at h
    split_ifs at h
    obtain ⟨rfl, rfl⟩ := Prod.mk.inj (Option.some.inj h)
    exact ⟨trivial, Nat.zero_le _⟩
  | lowU high =>
    rw [strStep] at h
    split_ifs at h
    obtain ⟨rfl, rfl⟩ := Prod.mk.inj (Option.some.inj h)
    exact ⟨Nat.zero_le 3, Nat.zero_le _⟩

/-- The text of a literal whose rest is read from a state. -/
structure Literal (q : StrState) (t v : Text) : Prop where
  scan : ∀ r, scanString q (t ++ '"' :: r) = some (v, r)
  lexes : ∀ d buf, Lexes (d, q.mode buf) t [] (d, .str (buf ++ t))
  length : v.length ≤ t.length + q.digits
  /-- A string is shorter than its literal, or the literal is the string itself. -/
  eq_or_lt : ∀ u, q = .text u →
    (v = t ∧ ∀ c ∈ t, Plain c) ∨ ('\\' ∈ t ∧ v.length < t.length)

theorem scanString_cons {q q' : StrState} {c : Char} {out : Text} (hclose : closes q c = false)
    (hstep : strStep q c = some (out, q')) (s : Text) :
    scanString q (c :: s) = (scanString q' s).map fun (v, r) => (out ++ v, r) := by
  simp [scanString, hclose, hstep]

/-- A string that is read has a literal before its closing quote. -/
theorem literal_of_scanString {q : StrState} {s v r : Text} (hq : q.Reading)
    (h : scanString q s = some (v, r)) : ∃ t, s = t ++ '"' :: r ∧ Literal q t v := by
  induction s generalizing q v with
  | nil => exact nomatch h
  | cons c s ih =>
    rw [scanString] at h
    split_ifs at h with hclose
    · obtain ⟨rfl, rfl⟩ := Prod.mk.inj (Option.some.inj h)
      cases q with
      | text q =>
        have hquote : q.owed = 0 ∧ c = '"' := by simpa [closes] using hclose
        obtain ⟨howed, rfl⟩ := hquote
        refine ⟨[], rfl, fun r => ?_, fun d buf => ?_, le_rfl, fun _ _ => Or.inl ⟨rfl, by simp⟩⟩
        · rw [List.nil_append, scanString, if_pos hclose]
        · rw [List.append_nil]
          exact Lexes.nil _
      | escape => cases hclose
      | hex high digits acc => cases hclose
      | lowEscape high => cases hclose
      | lowU high => cases hclose
    · have hclose : closes q c = false := Bool.not_eq_true _ ▸ hclose
      cases hstep : strStep q c with
      | none => simp [hstep] at h
      | some out =>
        obtain ⟨out, q'⟩ := out
        rw [hstep] at h
        obtain ⟨⟨v', r'⟩, hrest, heq⟩ := Option.map_eq_some_iff.mp h
        obtain ⟨rfl, rfl⟩ := Prod.mk.inj heq
        obtain ⟨hq', hlength⟩ := length_of_strStep hq hstep
        obtain ⟨t, rfl, ht⟩ := ih hq' hrest
        have hle := ht.length
        refine ⟨c :: t, rfl, fun r => ?_, fun d buf => ?_, ?_, ?_⟩
        · rw [List.cons_append, scanString_cons hclose hstep, ht.scan]
          rfl
        · have hlex := lexStep_of_strStep hq hclose hstep d buf
          have hrest := ht.lexes d (buf ++ [c])
          rw [List.append_assoc] at hrest
          exact lexes_cons.mpr ⟨[], [], _, hlex, hrest, rfl⟩
        · simp only [List.length_append, List.length_cons]
          omega
        · rintro u rfl
          have hquote : ¬ (u.owed = 0 ∧ c = '"') := by simpa [closes] using hclose
          rw [strStep] at hstep
          split_ifs at hstep with hesc hctl
          · obtain ⟨rfl, rfl⟩ := Prod.mk.inj (Option.some.inj hstep)
            exact Or.inr ⟨by rw [hesc.2]; exact List.mem_cons_self, Nat.lt_succ_of_le hle⟩
          · obtain ⟨u', hutf, heq⟩ := Option.map_eq_some_iff.mp hstep
            obtain ⟨rfl, rfl⟩ := Prod.mk.inj heq
            obtain ⟨hc, hc'⟩ := stepStr_of_not_ascii hq hutf hquote hesc
            rcases ht.eq_or_lt u' rfl with ⟨rfl, hplain⟩ | ⟨hslash, hlt⟩
            · exact Or.inl ⟨rfl, List.forall_mem_cons.mpr ⟨⟨hc, hc', hctl⟩, hplain⟩⟩
            · exact Or.inr ⟨List.mem_cons_of_mem _ hslash, Nat.succ_lt_succ hlt⟩

/-- The literal of a string that is read from its opening quote on. -/
theorem decodes_of_scanString {s v r : Text}
    (h : scanString (.text Utf8.start) s = some (v, r)) :
    ∃ t, s = t ++ '"' :: r ∧ Decodes t v ∧
      ∀ d, Lexes (d, .out) ('"' :: t ++ ['"']) [.lit d t] (d, .out) := by
  obtain ⟨t, hs, ht⟩ := literal_of_scanString (q := .text Utf8.start) owes_start h
  refine ⟨t, hs, ht.scan, fun d => ?_⟩
  have hopen : Lexes (d, .out) ['"'] [] (d, .str []) := rfl
  have hclose : Lexes (d, .str t) ['"'] [.lit d t] (d, .out) := rfl
  exact (hopen.append (ht.lexes d [])).append hclose

theorem Decodes.length_le {t v : Text} (h : Decodes t v) : v.length ≤ t.length := by
  obtain ⟨t', ht', hlit⟩ := literal_of_scanString (q := .text Utf8.start) owes_start (h [])
  obtain rfl : t = t' := List.append_cancel_right ht'
  exact hlit.length

theorem Decodes.functional {t v w : Text} (hv : Decodes t v) (hw : Decodes t w) : v = w :=
  (Prod.mk.inj (Option.some.inj ((hv []).symm.trans (hw [])))).1

/-- A string is its literal, or shorter, where a backslash starts an escape. -/
theorem Decodes.eq_or_lt {t v : Text} (h : Decodes t v) :
    (v = t ∧ ∀ c ∈ t, Plain c) ∨ ('\\' ∈ t ∧ v.length < t.length) := by
  obtain ⟨t', ht', hlit⟩ := literal_of_scanString (q := .text Utf8.start) owes_start (h [])
  obtain rfl : t = t' := List.append_cancel_right ht'
  exact hlit.eq_or_lt _ rfl

/-! ### Where literals stand -/

/-- The text of a literal that is not closed yet, with its quote. -/
def Mode.pending : Mode → Text
  | .out => []
  | .str buf => '"' :: buf
  | .esc buf => '"' :: buf

/-- A literal that is reported stands between quotes in the text. -/
theorem Lexes.literal {d : ℕ} {m : Mode} (h : Lexes (d, m) s ts τ) {e : ℕ} {t : Text}
    (ht : .lit e t ∈ ts) : ∃ a b, m.pending ++ s = a ++ '"' :: (t ++ '"' :: b) := by
  induction s generalizing d m ts with
  | nil =>
    obtain ⟨rfl, -⟩ := Prod.mk.inj (Option.some.inj h)
    cases ht
  | cons c s ih =>
    obtain ⟨us, vs, ⟨d', m'⟩, hstep, hrest, rfl⟩ := lexes_cons.mp h
    -- a literal of the rest stands in the rest, whatever is pending
    have hlater : Token.lit e t ∈ vs → (m'.pending = m.pending ++ [c] ∨ m'.pending = []) →
        ∃ a b, m.pending ++ c :: s = a ++ '"' :: (t ++ '"' :: b) := by
      intro hvs hpending
      obtain ⟨a, b, hab⟩ := ih hrest hvs
      rcases hpending with hp | hp
      · exact ⟨a, b, by rw [← hab, hp]; simp⟩
      · rw [hp, List.nil_append] at hab
        exact ⟨m.pending ++ c :: a, b, by rw [hab]; simp⟩
    cases m with
    | out =>
      have hout : ∀ {us τ'}, stepOut d c = some (us, τ') →
          (∀ e t, Token.lit e t ∉ us) ∧ (τ'.2.pending = [c] ∨ τ'.2.pending = []) := by
        intro us τ' hstep
        rw [stepOut] at hstep
        split_ifs at hstep with hquote
        all_goals
          obtain ⟨rfl, rfl⟩ := Prod.mk.inj (Option.some.inj hstep)
          refine ⟨by simp, ?_⟩
          first
            | exact Or.inl (by rw [hquote]; rfl)
            | exact Or.inr rfl
      obtain ⟨hus, hp⟩ := hout hstep
      exact hlater ((List.mem_append.mp ht).resolve_left (hus e t)) hp
    | str buf =>
      have hstep := Option.some.inj hstep
      rw [stepStr] at hstep
      split_ifs at hstep with hquote hslash
      · obtain ⟨rfl, heq⟩ := Prod.mk.inj hstep
        obtain ⟨rfl, rfl⟩ := Prod.mk.inj heq
        rcases List.mem_append.mp ht with ht | ht
        · obtain ⟨rfl, rfl⟩ := Token.lit.inj (List.mem_singleton.mp ht)
          exact ⟨[], s, by rw [hquote]; rfl⟩
        · exact hlater ht (Or.inr rfl)
      · obtain ⟨rfl, heq⟩ := Prod.mk.inj hstep
        obtain ⟨rfl, rfl⟩ := Prod.mk.inj heq
        exact hlater ht (Or.inl rfl)
      · obtain ⟨rfl, heq⟩ := Prod.mk.inj hstep
        obtain ⟨rfl, rfl⟩ := Prod.mk.inj heq
        exact hlater ht (Or.inl rfl)
    | esc buf =>
      obtain ⟨rfl, heq⟩ := Prod.mk.inj (Option.some.inj hstep)
      obtain ⟨rfl, rfl⟩ := Prod.mk.inj heq
      exact hlater ht (Or.inl rfl)

/-- Depths only matter relative to each other. -/
theorem Lexes.deeper {d d' : ℕ} {m m' : Mode} (h : Lexes (d, m) s ts (d', m')) :
    ∃ us, Lexes (d + 1, m) s us (d' + 1, m') := by
  induction s generalizing d m ts with
  | nil =>
    obtain ⟨-, heq⟩ := Prod.mk.inj (Option.some.inj h)
    obtain ⟨rfl, rfl⟩ := Prod.mk.inj heq
    exact ⟨[], Lexes.nil _⟩
  | cons c s ih =>
    obtain ⟨us, vs, ⟨d1, m1⟩, hstep, hrest, -⟩ := lexes_cons.mp h
    obtain ⟨ws, hws⟩ := ih hrest
    suffices hnext : ∃ us', lexStep (d + 1, m) c = some (us', d1 + 1, m1) by
      obtain ⟨us', hus'⟩ := hnext
      exact ⟨us' ++ ws, lexes_cons.mpr ⟨us', ws, _, hus', hws, rfl⟩⟩
    cases m with
    | out =>
      have hstep : stepOut d c = some (us, d1, m1) := hstep
      rw [stepOut] at hstep
      split_ifs at hstep with hquote hopen hclose hzero hcolon hcomma hfiller
      all_goals
        obtain ⟨-, heq⟩ := Prod.mk.inj (Option.some.inj hstep)
        obtain ⟨rfl, rfl⟩ := Prod.mk.inj heq
        rw [lexStep, stepOut]
        simp_all
      omega
    | str buf =>
      have hstep := Option.some.inj hstep
      rw [stepStr] at hstep
      split_ifs at hstep with hquote hslash
      all_goals
        obtain ⟨-, heq⟩ := Prod.mk.inj hstep
        obtain ⟨rfl, rfl⟩ := Prod.mk.inj heq
        rw [lexStep, stepStr]
        simp_all
    | esc buf =>
      obtain ⟨-, heq⟩ := Prod.mk.inj (Option.some.inj hstep)
      obtain ⟨rfl, rfl⟩ := Prod.mk.inj heq
      exact ⟨[], rfl⟩

/-! ### Two sides of a quote -/

/-- The characters that stand between strings. -/
def isMark (c : Char) : Bool := isFiller c || "\x7b[\x7d]:,".toList.contains c

/-- What the scanner does between strings. -/
theorem stepOut_cases {d : ℕ} {c : Char} (h : stepOut d c = some (ts, τ)) :
    (∀ e t, Token.lit e t ∉ ts) ∧
      (c = '"' ∧ τ = (d, .str []) ∨ isMark c = true ∧ τ.2 = .out) := by
  rw [stepOut] at h
  split_ifs at h with hquote hopen hclose hzero hcolon hcomma hfiller
  · obtain ⟨rfl, rfl⟩ := Prod.mk.inj (Option.some.inj h)
    exact ⟨by simp, Or.inl ⟨hquote, rfl⟩⟩
  · obtain ⟨rfl, rfl⟩ := Prod.mk.inj (Option.some.inj h)
    exact ⟨by simp, Or.inr ⟨by rcases hopen with rfl | rfl <;> decide, rfl⟩⟩
  · obtain ⟨rfl, rfl⟩ := Prod.mk.inj (Option.some.inj h)
    exact ⟨by simp, Or.inr ⟨by rcases hclose with rfl | rfl <;> decide, rfl⟩⟩
  · obtain ⟨rfl, rfl⟩ := Prod.mk.inj (Option.some.inj h)
    exact ⟨by simp, Or.inr ⟨by rw [hcolon]; decide, rfl⟩⟩
  · obtain ⟨rfl, rfl⟩ := Prod.mk.inj (Option.some.inj h)
    exact ⟨by simp, Or.inr ⟨by rw [hcomma]; decide, rfl⟩⟩
  · obtain ⟨rfl, rfl⟩ := Prod.mk.inj (Option.some.inj h)
    exact ⟨by simp, Or.inr ⟨by rw [isMark, hfiller]; rfl, rfl⟩⟩

theorem isMark_ne {c : Char} (hc : isMark c = true) : c ≠ '"' ∧ c ≠ '\\' := by
  constructor <;> rintro rfl <;> exact absurd hc (by decide)

/-- A mark in a string is read as it stands. -/
theorem stepStr_of_isMark {c : Char} (hc : isMark c = true) (d : ℕ) (buf : Text) :
    stepStr d buf c = ([], d, .str (buf ++ [c])) := by
  rw [stepStr, if_neg (isMark_ne hc).1, if_neg (isMark_ne hc).2]

/-- Two scanners on different sides of a quote: what one has read of a string are marks to
the other. -/
inductive Apart : Mode → Mode → Prop
  | out (buf : Text) : Apart .out (.str buf)
  | str {buf : Text} (h : ∀ c ∈ buf, isMark c = true) : Apart (.str buf) .out

/-- **Scanners that start on different sides of a quote stay apart**, and what one reports as a
literal the other reads between strings. -/
theorem Lexes.swapped {d e : ℕ} {m n : Mode} (h : Lexes (d, m) s ts τ)
    (h' : Lexes (e, n) s us υ) (hapart : Apart m n) :
    Apart τ.2 υ.2 ∧ ∀ f t, .lit f t ∈ ts → ∀ c ∈ t, isMark c = true := by
  induction s generalizing d e m n ts us with
  | nil =>
    obtain ⟨rfl, rfl⟩ := Prod.mk.inj (Option.some.inj h)
    obtain ⟨-, rfl⟩ := Prod.mk.inj (Option.some.inj h')
    exact ⟨hapart, fun _ _ hmem => nomatch hmem⟩
  | cons c s ih =>
    obtain ⟨ts, ts', ⟨d, m⟩, hstep, hrest, rfl⟩ := lexes_cons.mp h
    obtain ⟨us, us', ⟨e, n⟩, hstep', hrest', rfl⟩ := lexes_cons.mp h'
    suffices hnext : Apart m n ∧ ∀ f t, .lit f t ∈ ts → ∀ c ∈ t, isMark c = true by
      obtain ⟨hend, hlits⟩ := ih hrest hrest' hnext.1
      refine ⟨hend, fun f t hmem => ?_⟩
      exact (List.mem_append.mp hmem).elim (hnext.2 f t) (hlits f t)
    cases hapart with
    | out buf =>
      obtain ⟨hts, hcases⟩ := stepOut_cases hstep
      refine ⟨?_, fun f t hmem => absurd hmem (hts f t)⟩
      rcases hcases with ⟨rfl, hm⟩ | ⟨hc, hm⟩
      · obtain ⟨rfl, rfl⟩ := Prod.mk.inj hm
        obtain ⟨-, heq⟩ := Prod.mk.inj (Option.some.inj hstep')
        obtain ⟨rfl, rfl⟩ := Prod.mk.inj heq
        exact .str fun _ h => nomatch h
      · obtain rfl : m = .out := hm
        have heq := (Option.some.inj hstep').symm.trans (stepStr_of_isMark hc _ buf)
        obtain ⟨rfl, rfl⟩ := Prod.mk.inj (Prod.mk.inj heq).2
        exact .out _
    | @str buf hbuf =>
      obtain ⟨-, hcases⟩ := stepOut_cases hstep'
      rcases hcases with ⟨rfl, hn⟩ | ⟨hc, hn⟩
      · obtain ⟨rfl, rfl⟩ := Prod.mk.inj hn
        obtain ⟨rfl, heq⟩ := Prod.mk.inj (Option.some.inj hstep)
        obtain ⟨rfl, rfl⟩ := Prod.mk.inj heq
        refine ⟨.out [], fun f t hmem => ?_⟩
        obtain ⟨-, rfl⟩ := Token.lit.inj (List.mem_singleton.mp hmem)
        exact hbuf
      · obtain rfl : n = .out := hn
        have heq := (Option.some.inj hstep).symm.trans (stepStr_of_isMark hc _ buf)
        obtain ⟨hts, heq⟩ := Prod.mk.inj heq
        obtain ⟨rfl, rfl⟩ := Prod.mk.inj heq
        refine ⟨.str ?_, fun f t hmem => absurd (hts ▸ hmem) List.not_mem_nil⟩
        exact List.forall_mem_append.mpr ⟨hbuf, List.forall_mem_singleton.mpr hc⟩

end Json
