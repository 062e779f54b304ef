import Mathlib
import Llamaste.Lib.JsonString
import Llamaste.Lib.TextSearch

/-!
# Grammars in GBNF

A grammar is a list of rules, one on a line: `name ::= alternatives`. An alternative is a
sequence of literals between quotes, sets of characters between brackets, names of rules and
groups, each of which may carry `*`, `+` or `?`. A set matches one character, which stands in
the text in UTF-8.

Comments, rules of several lines, bounded repetition and sets with characters beyond ASCII are
not read. A backslash before a character that is no escape of its own stands for the character.

## Main results

* `Gbnf.mem_language_of_derives`: what is derived lies in every closed interpretation.
* `Gbnf.language_eq`: the texts of a rule are those of its body.
-/

namespace Gbnf

/-! ### Expressions -/

/-- A set of characters: those in some ranges, or all others. -/
structure CharSet where
  negated : Bool
  ranges : List (Char × Char)
  deriving DecidableEq, Repr

def CharSet.contains (set : CharSet) (c : Char) : Bool :=
  set.negated != set.ranges.any fun r => r.1 ≤ c && c ≤ r.2

/-- The right side of a rule. -/
inductive Expr
  | empty
  | literal (s : Text)
  | chars (set : CharSet)
  | rule (name : Text)
  | seq (e f : Expr)
  | alt (e f : Expr)
  | star (e : Expr)
  deriving DecidableEq, Repr

/-- One after the other. -/
def sequence : List Expr → Expr
  | [] => .empty
  | [e] => e
  | e :: es => .seq e (sequence es)

theorem sequence_pair (e f : Expr) : sequence [e, f] = .seq e f := rfl

theorem sequence_cons_cons (e f : Expr) (es : List Expr) :
    sequence (e :: f :: es) = .seq e (sequence (f :: es)) := rfl

/-- One of some expressions. -/
def choice : List Expr → Expr
  | [] => .empty
  | [e] => e
  | e :: es => .alt e (choice es)

abbrev ref (name : Text) : Expr := .rule name

/-- One character of some ranges. -/
abbrev oneOf (ranges : List (Char × Char)) : Expr := .chars ⟨false, ranges⟩

abbrev opt (e : Expr) : Expr := .alt e .empty

abbrev plus (e : Expr) : Expr := .seq e (.star e)

/-- The rules of a grammar. -/
abbrev Grammar := List (Text × Expr)

/-! ### Reading -/

/-- A character of a rule, and whether a backslash stands before it. -/
structure Symbol where
  escaped : Bool
  char : Char
  deriving DecidableEq, Repr

/-- What a character behind a backslash stands for. -/
def unescape (c : Char) : Char :=
  if c = 'n' then '\n' else if c = 'r' then '\r' else if c = 't' then '\t' else c

/-- The characters of a rule. -/
def symbols : Text → Option (List Symbol)
  | [] => some []
  | ['\\'] => none
  | '\\' :: 'x' :: a :: b :: r => do
    let high ← Json.hexVal a
    let low ← Json.hexVal b
    (symbols r).map (⟨true, Char.ofNat (16 * high + low)⟩ :: ·)
  | '\\' :: c :: r => (symbols r).map (⟨true, unescape c⟩ :: ·)
  | c :: r => (symbols r).map (⟨false, c⟩ :: ·)

/-- The ranges of a set. A dash at its end stands for itself. -/
def readRanges : List Symbol → List (Char × Char)
  | a :: ⟨false, '-'⟩ :: b :: r => (a.char, b.char) :: readRanges r
  | a :: r => (a.char, a.char) :: readRanges r
  | [] => []

/-- The set between two brackets. -/
def readSet (content : List Symbol) : Option CharSet :=
  if content.all fun s => s.char.toNat < 0x80 then
    match content with
    | ⟨false, '^'⟩ :: r => some ⟨true, readRanges r⟩
    | r => some ⟨false, readRanges r⟩
  else none

/-- The alternatives that are complete, and the items of the next one. -/
structure Frame where
  done : List Expr
  items : List Expr
  deriving DecidableEq, Repr

def Frame.expr (f : Frame) : Expr := choice (f.done ++ [sequence f.items])

def Frame.add (f : Frame) (e : Expr) : Frame := { f with items := f.items ++ [e] }

def Frame.bar (f : Frame) : Frame := ⟨f.done ++ [sequence f.items], []⟩

/-- The last item, wrapped. -/
def Frame.wrap (f : Frame) (w : Expr → Expr) : Option Frame :=
  f.items.getLast?.map fun e => { f with items := f.items.dropLast ++ [w e] }

/-- What the reader is in. -/
inductive Mode
  | out
  | name (buf : Text)
  | literal (buf : Text)
  | set (content : List Symbol)
  deriving DecidableEq, Repr

/-- A reader within a rule: its mode, the group it is in, and the groups around it. -/
structure Reader where
  mode : Mode
  frame : Frame
  outer : List Frame
  deriving DecidableEq, Repr

def Reader.start : Reader := ⟨.out, ⟨[], []⟩, []⟩

def isWordChar (c : Char) : Bool := c.isAlphanum || c = '-'

/-- A character between items. -/
def stepOut (f : Frame) (outer : List Frame) (c : Char) : Option Reader :=
  if c = ' ' then some ⟨.out, f, outer⟩
  else if c = '"' then some ⟨.literal [], f, outer⟩
  else if c = '[' then some ⟨.set [], f, outer⟩
  else if c = '(' then some ⟨.out, ⟨[], []⟩, f :: outer⟩
  else if c = ')' then
    match outer with
    | [] => none
    | g :: outer => some ⟨.out, g.add f.expr, outer⟩
  else if c = '|' then some ⟨.out, f.bar, outer⟩
  else if c = '*' then (f.wrap .star).map fun f => ⟨.out, f, outer⟩
  else if c = '+' then (f.wrap plus).map fun f => ⟨.out, f, outer⟩
  else if c = '?' then (f.wrap opt).map fun f => ⟨.out, f, outer⟩
  else if isWordChar c then some ⟨.name [c], f, outer⟩
  else none

/-- One character. -/
def step (r : Reader) (s : Symbol) : Option Reader :=
  match r.mode with
  | .out => if s.escaped then none else stepOut r.frame r.outer s.char
  | .name buf =>
    if s.escaped then none
    else if isWordChar s.char then some { r with mode := .name (buf ++ [s.char]) }
    else stepOut (r.frame.add (.rule buf)) r.outer s.char
  | .literal buf =>
    if s.escaped then some { r with mode := .literal (buf ++ Utf8.encode s.char.toNat) }
    else if s.char = '"' then some ⟨.out, r.frame.add (.literal buf), r.outer⟩
    else some { r with mode := .literal (buf ++ [s.char]) }
  | .set content =>
    if !s.escaped && s.char = ']' then
      (readSet content).map fun set => ⟨.out, r.frame.add (.chars set), r.outer⟩
    else some { r with mode := .set (content ++ [s]) }

/-- The expression at the end of a rule. -/
def Reader.finish (r : Reader) : Option Expr :=
  match r.mode, r.outer with
  | .out, [] => some r.frame.expr
  | .name buf, [] => some (r.frame.add (.rule buf)).expr
  | _, _ => none

/-- The right side of a rule. -/
def readExpr (s : Text) : Option Expr := do
  let r ← (← symbols s).foldlM step Reader.start
  r.finish

theorem readExpr_eq (s : Text) : readExpr s =
    (symbols s).bind fun ss => (ss.foldlM step Reader.start).bind Reader.finish := rfl

/-- A rule. -/
def readRule (line : Text) : Option (Text × Expr) := do
  let (name, body) ← Text.splitFirst "::=".toList line
  (readExpr body).map fun e => (Text.trim (· = ' ') name, e)

/-- A grammar. -/
def read (s : Text) : Option Grammar := (s.splitOn '\n').filter (· ≠ []) |>.mapM readRule

theorem read_lines {lines : List Text} (h : ∀ l ∈ lines, '\n' ∉ l ∧ l ≠ []) :
    read (lines.flatMap (· ++ "\n".toList)) = lines.mapM readRule := by
  have hsplit : (lines.flatMap (· ++ "\n".toList)).splitOn '\n' = lines ++ [[]] := by
    have hlines := Text.splitOn_lines (fun l hl => (h l hl).1)
      (List.not_mem_nil : '\n' ∉ ([] : Text))
    rwa [List.append_nil] at hlines
  have hfilter : lines.filter (· ≠ []) = lines := List.filter_eq_self.mpr fun l hl => by
    simpa using (h l hl).2
  rw [read, hsplit, List.filter_append, hfilter]
  exact congrArg (List.mapM readRule) (List.append_nil lines)

/-- Characters without a backslash are read as they stand. -/
theorem symbols_plain {s : Text} (hs : '\\' ∉ s) (r : Text) :
    symbols (s ++ r) = (symbols r).map (s.map (Symbol.mk false) ++ ·) := by
  induction s with
  | nil => simp
  | cons c s ih =>
    simp only [List.mem_cons, not_or] at hs
    have hc : ∀ t, symbols (c :: t) = (symbols t).map (Symbol.mk false c :: ·) := fun t =>
      symbols.eq_5 c t (fun h _ => hs.1 h.symm) (fun _ _ _ h _ => hs.1 h.symm)
        fun _ _ h _ => hs.1 h.symm
    rw [List.cons_append, hc, ih hs.2, Option.map_map]
    rfl

/-- A literal takes in characters other than a quote. -/
theorem foldlM_literal {s : Text} (hs : '"' ∉ s) (buf : Text) (f : Frame) (outer : List Frame)
    (r : List Symbol) :
    (s.map (Symbol.mk false) ++ r).foldlM step ⟨.literal buf, f, outer⟩ =
      r.foldlM step ⟨.literal (buf ++ s), f, outer⟩ := by
  induction s generalizing buf with
  | nil => simp
  | cons c s ih =>
    simp only [List.mem_cons, not_or] at hs
    have hstep : step ⟨.literal buf, f, outer⟩ ⟨false, c⟩ =
        some ⟨.literal (buf ++ [c]), f, outer⟩ := by
      rw [step]
      exact if_neg (Ne.symm hs.1)
    rw [List.map_cons, List.cons_append, List.foldlM_cons, hstep]
    simpa using ih hs.2 (buf ++ [c])

/-! ### Derivations -/

/-- A text is derived from an expression. -/
inductive Derives (g : Grammar) : Expr → Text → Prop
  | empty : Derives g .empty []
  | literal (s : Text) : Derives g (.literal s) s
  | chars {set : CharSet} {c : Char} (h : set.contains c = true) :
      Derives g (.chars set) (Utf8.encode c.toNat)
  | rule {name : Text} {e : Expr} {s : Text} (hrule : (name, e) ∈ g) (h : Derives g e s) :
      Derives g (.rule name) s
  | seq {e f : Expr} {s t : Text} (hs : Derives g e s) (ht : Derives g f t) :
      Derives g (.seq e f) (s ++ t)
  | left {e f : Expr} {s : Text} (h : Derives g e s) : Derives g (.alt e f) s
  | right {e f : Expr} {s : Text} (h : Derives g f s) : Derives g (.alt e f) s
  | done {e : Expr} : Derives g (.star e) []
  | more {e : Expr} {s t : Text} (hs : Derives g e s) (ht : Derives g (.star e) t) :
      Derives g (.star e) (s ++ t)

/-- The texts of an expression, where the texts of the rules are given. -/
def Expr.language (I : Text → Language Char) : Expr → Language Char
  | .empty => 1
  | .literal s => {s}
  | .chars set => {s | ∃ c, set.contains c = true ∧ s = Utf8.encode c.toNat}
  | .rule name => I name
  | .seq e f => e.language I * f.language I
  | .alt e f => e.language I + f.language I
  | .star e => KStar.kstar (e.language I)

section

variable {I : Text → Language Char} {s : Text} {e f : Expr}

@[simp] theorem mem_empty : s ∈ Expr.empty.language I ↔ s = [] := Iff.rfl

@[simp] theorem mem_literal {t : Text} : s ∈ (Expr.literal t).language I ↔ s = t := Iff.rfl

@[simp] theorem mem_chars {set : CharSet} : s ∈ (Expr.chars set).language I ↔
    ∃ c, set.contains c = true ∧ s = Utf8.encode c.toNat := Iff.rfl

@[simp] theorem mem_rule {name : Text} : s ∈ (Expr.rule name).language I ↔ s ∈ I name := Iff.rfl

@[simp] theorem mem_seq : s ∈ (Expr.seq e f).language I ↔
    ∃ a ∈ e.language I, ∃ b ∈ f.language I, a ++ b = s := Language.mem_mul

@[simp] theorem mem_alt : s ∈ (Expr.alt e f).language I ↔
    s ∈ e.language I ∨ s ∈ f.language I := Iff.rfl

theorem mem_star : s ∈ (Expr.star e).language I ↔
    ∃ L : List Text, s = L.flatten ∧ ∀ y ∈ L, y ∈ e.language I := Iff.rfl

theorem mem_choice {es : List Expr} (hne : es ≠ []) :
    s ∈ (choice es).language I ↔ ∃ e ∈ es, s ∈ e.language I := by
  induction es with
  | nil => exact absurd rfl hne
  | cons e es ih =>
    cases es with
    | nil => simp [choice]
    | cons f es =>
      have hcons : choice (e :: f :: es) = .alt e (choice (f :: es)) := rfl
      rw [hcons, mem_alt, ih (List.cons_ne_nil _ _)]
      simp

theorem nil_mem_star : [] ∈ (Expr.star e).language I := Language.nil_mem_kstar _

theorem append_mem_star {t : Text} (hs : s ∈ e.language I) (ht : t ∈ (Expr.star e).language I) :
    s ++ t ∈ (Expr.star e).language I := by
  obtain ⟨L, rfl, hL⟩ := mem_star.mp ht
  exact mem_star.mpr ⟨s :: L, rfl, List.forall_mem_cons.mpr ⟨hs, hL⟩⟩

end

/-- The texts that a grammar derives from a name. -/
def language (g : Grammar) (name : Text) : Language Char := {s | Derives g (.rule name) s}

/-- **What is derived lies in every interpretation** that is closed under the rules. -/
theorem mem_language_of_derives {g : Grammar} {I : Text → Language Char}
    (hI : ∀ r ∈ g, ∀ s ∈ r.2.language I, s ∈ I r.1) {e : Expr} {s : Text} (h : Derives g e s) :
    s ∈ e.language I := by
  induction h with
  | empty => rfl
  | literal s => rfl
  | chars h => exact ⟨_, h, rfl⟩
  | rule hrule _ ih => exact hI _ hrule _ ih
  | seq _ _ ihs iht => exact Language.append_mem_mul ihs iht
  | left _ ih => exact Or.inl ih
  | right _ ih => exact Or.inr ih
  | done => exact Language.nil_mem_kstar _
  | more _ _ ihs iht =>
    obtain ⟨L, rfl, hL⟩ := iht
    exact ⟨_ :: L, rfl, List.forall_mem_cons.mpr ⟨ihs, hL⟩⟩

theorem derives_of_mem_language {g : Grammar} {e : Expr} {s : Text}
    (h : s ∈ e.language (language g)) : Derives g e s := by
  induction e generalizing s with
  | empty =>
    obtain rfl := mem_empty.mp h
    exact .empty
  | literal t =>
    obtain rfl := mem_literal.mp h
    exact .literal s
  | chars set =>
    obtain ⟨c, hc, rfl⟩ := h
    exact .chars hc
  | rule name => exact h
  | seq e f ihe ihf =>
    obtain ⟨a, ha, b, hb, rfl⟩ := mem_seq.mp h
    exact .seq (ihe ha) (ihf hb)
  | alt e f ihe ihf => exact h.elim (fun h => .left (ihe h)) fun h => .right (ihf h)
  | star e ih =>
    obtain ⟨L, rfl, hL⟩ := mem_star.mp h
    clear h
    -- one derivation of the body after the other
    induction L with
    | nil => exact .done
    | cons y L ihL =>
      obtain ⟨hy, hL⟩ := List.forall_mem_cons.mp hL
      exact .more (ih hy) (ihL hL)

/-- **The texts of a rule** are those of its body. -/
theorem language_eq {g : Grammar} (hg : (g.map Prod.fst).Nodup) {name : Text} {e : Expr}
    (h : (name, e) ∈ g) : language g name = e.language (language g) := by
  refine Set.Subset.antisymm (fun s hs => ?_) fun s hs => .rule h (derives_of_mem_language hs)
  cases hs with
  | @rule _ e' _ hrule hs =>
    obtain rfl : e' = e := congrArg Prod.snd (List.inj_on_of_nodup_map hg hrule h rfl)
    refine mem_language_of_derives (fun r hr s hs => ?_) hs
    exact .rule hr (derives_of_mem_language hs)

/-! ### Sets -/

theorem contains_oneOf (l : List Char) (c : Char) :
    CharSet.contains ⟨false, l.map fun c => (c, c)⟩ c = true ↔ c ∈ l := by
  have hany : (l.map fun c => (c, c)).any (fun r => r.1 ≤ c && c ≤ r.2) = true ↔ c ∈ l := by
    simp only [List.any_map, List.any_eq_true, Function.comp_apply, Bool.and_eq_true,
      decide_eq_true_eq]
    constructor
    · rintro ⟨a, ha, hle, hge⟩
      exact le_antisymm hle hge ▸ ha
    · exact fun h => ⟨c, h, le_rfl, le_rfl⟩
  rw [CharSet.contains, ← hany]
  cases List.any _ _ <;> simp

/-- An ASCII character stands for itself. -/
theorem encode_ascii {c : Char} (hc : c.toNat < 0x80) : Utf8.encode c.toNat = [c] := by
  rw [Utf8.encode, if_pos hc, Char.ofNat_toNat]

section

variable {I : Text → Language Char} {s : Text} {set : CharSet} {p : Char → Prop}

theorem mem_chars_ascii (hset : ∀ c, set.contains c = true ↔ p c)
    (hp : ∀ c, p c → c.toNat < 0x80) :
    s ∈ (Expr.chars set).language I ↔ ∃ c, p c ∧ s = [c] := by
  rw [mem_chars]
  constructor
  · rintro ⟨c, hc, rfl⟩
    exact ⟨c, (hset c).mp hc, encode_ascii (hp c ((hset c).mp hc))⟩
  · rintro ⟨c, hc, rfl⟩
    exact ⟨c, (hset c).mpr hc, (encode_ascii (hp c hc)).symm⟩

theorem mem_star_ascii (hset : ∀ c, set.contains c = true ↔ p c)
    (hp : ∀ c, p c → c.toNat < 0x80) :
    s ∈ (Expr.star (.chars set)).language I ↔ ∀ c ∈ s, p c := by
  rw [mem_star]
  constructor
  · rintro ⟨L, rfl, hL⟩ c hc
    obtain ⟨y, hy, hc⟩ := List.mem_flatten.mp hc
    obtain ⟨a, ha, rfl⟩ := (mem_chars_ascii hset hp).mp (hL y hy)
    exact List.mem_singleton.mp hc ▸ ha
  · intro h
    refine ⟨s.map fun c => [c], ?_, List.forall_mem_map.mpr fun c hc =>
      (mem_chars_ascii hset hp).mpr ⟨c, h c hc, rfl⟩⟩
    rw [← List.flatMap_def, List.flatMap_singleton']

end

/-- More texts of the rules give more texts. -/
theorem language_mono {I J : Text → Language Char} (h : ∀ n s, s ∈ I n → s ∈ J n) {e : Expr}
    {s : Text} (hs : s ∈ e.language I) : s ∈ e.language J := by
  induction e generalizing s with
  | empty => exact hs
  | literal t => exact hs
  | chars set => exact hs
  | rule name => exact h name s hs
  | seq e f ihe ihf =>
    obtain ⟨a, ha, b, hb, rfl⟩ := mem_seq.mp hs
    exact mem_seq.mpr ⟨a, ihe ha, b, ihf hb, rfl⟩
  | alt e f ihe ihf => exact hs.imp ihe ihf
  | star e ih =>
    obtain ⟨L, rfl, hL⟩ := mem_star.mp hs
    exact mem_star.mpr ⟨L, rfl, fun y hy => ih (hL y hy)⟩

end Gbnf
