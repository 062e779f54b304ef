import Llamaste.CallGrammar

/-!
# What the grammar of tool calls derives

The rules of the arguments derive the texts of syntax trees, and the rules of the calls the
texts of calls of tools that exist.

## Main results

* `mem_object`: what is derived of the arguments.
* `derives_root_iff`: what is derived of the whole.
-/

namespace Llamaste

open Gbnf (Expr ref oneOf opt plus sequence choice)

/-! ### Rules without recursion -/

section

variable {names : List Text}

/-- The texts of a rule. -/
def callLanguage (names : List Text) (rule : Text) : Language Char :=
  Gbnf.language (callGrammar names) rule

theorem nodup_callGrammar : ((callGrammar names).map Prod.fst).Nodup := by
  have hnames : (callGrammar names).map Prod.fst =
      callExprs.map Prod.fst ++ "toolname".toList :: jsonExprs.map Prod.fst := rfl
  rw [hnames]
  decide +kernel

theorem language_json {rule : Text} {e : Expr} (h : (rule, e) ∈ jsonExprs) :
    callLanguage names rule = e.language (callLanguage names) :=
  Gbnf.language_eq nodup_callGrammar
    (List.mem_append_right _ (List.mem_cons_of_mem _ h))

variable {s : Text}

theorem mem_ws : s ∈ callLanguage names "ws".toList ↔ s.all Json.isWs = true := by
  rw [language_json (List.mem_of_getElem? (i := 15) rfl),
    Gbnf.mem_star_ascii (Gbnf.contains_oneOf _) (by decide), List.all_eq_true]
  simp [Json.isWs, or_assoc]

theorem contains_range {a b c : Char} :
    Gbnf.CharSet.contains ⟨false, [(a, b)]⟩ c = true ↔ a ≤ c ∧ c ≤ b := by
  simp [Gbnf.CharSet.contains]

theorem contains_digit (c : Char) :
    Gbnf.CharSet.contains ⟨false, [('0', '9')]⟩ c = true ↔ c.isDigit = true := by
  rw [contains_range, Char.isDigit, Bool.and_eq_true, decide_eq_true_eq, decide_eq_true_eq]
  rfl

theorem toNat_of_isDigit (c : Char) (h : c.isDigit = true) : c.toNat < 0x80 :=
  Json.toNat_lt_of_isDigit h

theorem mem_digits {I : Text → Language Char} :
    s ∈ (plus digitExpr).language I ↔ s ≠ [] ∧ s.all Char.isDigit = true := by
  rw [plus, digitExpr, Gbnf.mem_seq]
  simp only [Gbnf.mem_star_ascii contains_digit toNat_of_isDigit,
    Gbnf.mem_chars_ascii contains_digit toNat_of_isDigit, List.all_eq_true]
  constructor
  · rintro ⟨_, ⟨c, hc, rfl⟩, t, ht, rfl⟩
    exact ⟨List.cons_ne_nil _ _, List.forall_mem_cons.mpr ⟨hc, ht⟩⟩
  · rintro ⟨hne, hall⟩
    obtain ⟨c, t, rfl⟩ := List.exists_cons_of_ne_nil hne
    obtain ⟨hc, ht⟩ := List.forall_mem_cons.mp hall
    exact ⟨[c], ⟨c, hc, rfl⟩, t, ht, rfl⟩

theorem mem_opt {I : Text → Language Char} {e : Expr} :
    s ∈ (opt e).language I ↔ s ∈ e.language I ∨ s = [] := Iff.rfl

/-! #### Strings -/

theorem contains_hex (c : Char) :
    Gbnf.CharSet.contains ⟨false, [('0', '9'), ('a', 'f'), ('A', 'F')]⟩ c = true ↔
      (Json.hexVal c).isSome = true := by
  rw [Json.hexVal]
  simp only [Gbnf.CharSet.contains, List.any_cons, List.any_nil, Bool.or_false, Bool.false_bne,
    Bool.or_eq_true, Bool.and_eq_true, decide_eq_true_eq]
  by_cases h1 : '0' ≤ c ∧ c ≤ '9' <;> by_cases h2 : 'A' ≤ c ∧ c ≤ 'F' <;>
    by_cases h3 : 'a' ≤ c ∧ c ≤ 'f' <;> simp [h1, h2, h3]

theorem toNat_of_hexVal (c : Char) (h : (Json.hexVal c).isSome = true) : c.toNat < 0x80 := by
  have hle : ∀ b : Char, b.toNat < 0x80 → c ≤ b → c.toNat < 0x80 := fun b hb hc =>
    lt_of_le_of_lt (UInt32.le_iff_toNat_le.mp hc) hb
  rw [Json.hexVal] at h
  split_ifs at h with h1 h2 h3
  · exact hle _ (by decide) h1.2
  · exact hle _ (by decide) h2.2
  · exact hle _ (by decide) h3.2
  · cases h

theorem mem_hex : s ∈ callLanguage names "hex".toList ↔ ∃ d : Json.HexDigit, s = [d.1] := by
  rw [language_json (List.mem_of_getElem? (i := 10) rfl),
    Gbnf.mem_chars_ascii contains_hex toNat_of_hexVal]
  exact ⟨fun ⟨c, hc, hs⟩ => ⟨⟨c, hc⟩, hs⟩, fun ⟨d, hs⟩ => ⟨d.1, d.2, hs⟩⟩

theorem mem_escape : s ∈ callLanguage names "escape".toList ↔
    (∃ c ∈ "\"\\/bfnrt".toList, s = [c]) ∨
      ∃ a b c d : Json.HexDigit, s = ['u', a.1, b.1, c.1, d.1] := by
  rw [language_json (List.mem_of_getElem? (i := 9) rfl), escapeExpr]
  simp only [Gbnf.choice, Gbnf.sequence, Gbnf.mem_alt, Gbnf.mem_seq, Gbnf.mem_literal,
    Gbnf.mem_rule, mem_hex,
    Gbnf.mem_chars_ascii (Gbnf.contains_oneOf "\"\\/bfnrt".toList) (by decide)]
  refine or_congr Iff.rfl ⟨?_, ?_⟩
  · rintro ⟨_, rfl, _,
      ⟨_, ⟨a, rfl⟩, _, ⟨_, ⟨b, rfl⟩, _, ⟨_, ⟨c, rfl⟩, _, ⟨d, rfl⟩, rfl⟩, rfl⟩, rfl⟩, rfl⟩
    exact ⟨a, b, c, d, rfl⟩
  · rintro ⟨a, b, c, d, rfl⟩
    exact ⟨_, rfl, _, ⟨_, ⟨a, rfl⟩, _, ⟨_, ⟨b, rfl⟩, _, ⟨_, ⟨c, rfl⟩, _, ⟨d, rfl⟩, rfl⟩, rfl⟩, rfl⟩,
      rfl⟩

theorem contains_plain (c : Char) : Gbnf.CharSet.contains
    ⟨true, [('"', '"'), ('\\', '\\'), (Char.ofNat 0, Char.ofNat 0x1F)]⟩ c = true ↔
      Json.Plain c := by
  have hone : ∀ a : Char, (a ≤ c ∧ c ≤ a) ↔ c = a := fun a =>
    ⟨fun h => le_antisymm h.2 h.1, fun h => ⟨h.ge, h.le⟩⟩
  have hcontrol : (Char.ofNat 0 ≤ c ∧ c ≤ Char.ofNat 0x1F) ↔ c.toNat < 0x20 := by
    have hle : c ≤ Char.ofNat 0x1F ↔ c.toNat ≤ 0x1F := UInt32.le_iff_toNat_le
    have hzero : Char.ofNat 0 ≤ c := UInt32.le_iff_toNat_le.mpr (Nat.zero_le _)
    rw [hle, and_iff_right hzero]
    omega
  simp only [Gbnf.CharSet.contains, List.any_cons, List.any_nil, Bool.or_false, Bool.true_bne,
    Bool.not_eq_true', Bool.or_eq_false_iff, Json.Plain]
  simp only [← Bool.not_eq_true, Bool.and_eq_true, decide_eq_true_eq, hone, hcontrol]

theorem mem_char : s ∈ callLanguage names "char".toList ↔ ∃ p : Json.Piece, s = p.text := by
  rw [language_json (List.mem_of_getElem? (i := 8) rfl), charExpr]
  simp only [Gbnf.choice, Gbnf.sequence, Gbnf.mem_alt, Gbnf.mem_seq, Gbnf.mem_literal,
    Gbnf.mem_rule, mem_escape, Gbnf.mem_chars, contains_plain]
  constructor
  · rintro (⟨c, hc, rfl⟩ | ⟨_, rfl, _, ⟨c, hc, rfl⟩ | ⟨a, b, c, d, rfl⟩, rfl⟩)
    · exact ⟨.plain c hc, rfl⟩
    · exact ⟨.escape c hc, rfl⟩
    · exact ⟨.unit a b c d, rfl⟩
  · rintro ⟨p, rfl⟩
    cases p with
    | plain c hc => exact Or.inl ⟨c, hc, rfl⟩
    | escape c hc => exact Or.inr ⟨_, rfl, _, Or.inl ⟨c, hc, rfl⟩, rfl⟩
    | unit a b c d => exact Or.inr ⟨_, rfl, _, Or.inr ⟨a, b, c, d, rfl⟩, rfl⟩

theorem mem_string : s ∈ callLanguage names "string".toList ↔
    ∃ ps : List Json.Piece, s = '"' :: (Json.piecesText ps ++ ['"']) := by
  have hchars : ∀ t, t ∈ callLanguage names "chars".toList ↔
      ∃ ps : List Json.Piece, t = Json.piecesText ps := by
    intro t
    rw [language_json (List.mem_of_getElem? (i := 7) rfl), Gbnf.mem_star]
    simp only [Gbnf.mem_rule, mem_char]
    constructor
    · rintro ⟨L, rfl, hL⟩
      induction L with
      | nil => exact ⟨[], rfl⟩
      | cons y L ih =>
        obtain ⟨⟨p, rfl⟩, htail⟩ := List.forall_mem_cons.mp hL
        obtain ⟨ps, hps⟩ := ih htail
        exact ⟨p :: ps, by rw [List.flatten_cons, hps]; rfl⟩
    · rintro ⟨ps, rfl⟩
      exact ⟨ps.map Json.Piece.text, List.flatMap_def, List.forall_mem_map.mpr fun p _ => ⟨p, rfl⟩⟩
  rw [language_json (List.mem_of_getElem? (i := 6) rfl)]
  simp only [Gbnf.sequence, Gbnf.mem_seq, Gbnf.mem_literal, Gbnf.mem_rule, hchars]
  constructor
  · rintro ⟨_, rfl, _, ⟨_, ⟨ps, rfl⟩, _, rfl, rfl⟩, rfl⟩
    exact ⟨ps, rfl⟩
  · rintro ⟨ps, rfl⟩
    exact ⟨_, rfl, _, ⟨_, ⟨ps, rfl⟩, _, rfl, rfl⟩, rfl⟩

/-! #### Numbers -/

theorem mem_int : s ∈ callLanguage names "int".toList ↔ ∃ i : Json.Numeral, s = i.1 := by
  have hrange : ∀ c : Char, '1' ≤ c ∧ c ≤ '9' → c.isDigit = true ∧ c ≠ '0' := by
    rintro c ⟨hle, hge⟩
    refine ⟨(contains_digit c).mp (contains_range.mpr ⟨le_trans (by decide) hle, hge⟩), ?_⟩
    rintro rfl
    exact absurd hle (by decide)
  rw [language_json (List.mem_of_getElem? (i := 12) rfl), intExpr]
  simp only [Gbnf.choice, Gbnf.sequence, digitExpr, Gbnf.mem_alt, Gbnf.mem_seq, Gbnf.mem_literal,
    Gbnf.mem_star_ascii contains_digit toNat_of_isDigit,
    Gbnf.mem_chars_ascii (fun _ => contains_range)
      fun c hc => toNat_of_isDigit c (hrange c hc).1]
  constructor
  · rintro (rfl | ⟨_, ⟨c, hc, rfl⟩, t, ht, rfl⟩)
    · exact ⟨⟨['0'], by decide⟩, rfl⟩
    · obtain ⟨hdigit, hne⟩ := hrange c hc
      exact ⟨⟨c :: t, List.cons_ne_nil _ _, List.all_eq_true.mpr
        (List.forall_mem_cons.mpr ⟨hdigit, ht⟩), fun h => absurd (Option.some.inj h) hne⟩, rfl⟩
  · rintro ⟨⟨i, hne, hall, hzero⟩, rfl⟩
    obtain ⟨c, t, rfl⟩ := List.exists_cons_of_ne_nil hne
    obtain ⟨hc, ht⟩ := List.forall_mem_cons.mp (List.all_eq_true.mp hall)
    by_cases h0 : c = '0'
    · subst h0
      exact Or.inl (hzero rfl)
    · have hlow : '1' ≤ c := by
        have hdigit := (contains_range.mp ((contains_digit c).mpr hc)).1
        have hlt := lt_of_le_of_ne hdigit (Ne.symm h0)
        exact UInt32.le_iff_toNat_le.mpr (Nat.succ_le_of_lt (UInt32.lt_iff_toNat_lt.mp hlt))
      have hhigh := (contains_range.mp ((contains_digit c).mpr hc)).2
      exact Or.inr ⟨[c], ⟨c, ⟨hlow, hhigh⟩, rfl⟩, t, ht, rfl⟩

theorem mem_frac : s ∈ callLanguage names "frac".toList ↔ ∃ d : Json.Digits, s = '.' :: d.1 := by
  rw [language_json (List.mem_of_getElem? (i := 13) rfl), Gbnf.sequence_pair, Gbnf.mem_seq]
  simp only [Gbnf.mem_literal, mem_digits]
  constructor
  · rintro ⟨_, rfl, t, ht, rfl⟩
    exact ⟨⟨t, ht⟩, rfl⟩
  · rintro ⟨d, rfl⟩
    exact ⟨_, rfl, d.1, d.2, rfl⟩

theorem mem_exp : s ∈ callLanguage names "exp".toList ↔ ∃ e : Json.Exponent, s = e.text := by
  have hletter : ∀ t : Text, t ∈ (oneOf ("eE".toList.map fun c => (c, c))).language
      (callLanguage names) ↔ ∃ c, (c = 'e' ∨ c = 'E') ∧ t = [c] := by
    intro t
    rw [Gbnf.mem_chars_ascii (Gbnf.contains_oneOf "eE".toList) (by decide)]
    simp
  have hsign : ∀ t : Text, t ∈ (opt (oneOf ("+-".toList.map fun c => (c, c)))).language
      (callLanguage names) ↔ (∃ c, (c = '+' ∨ c = '-') ∧ t = [c]) ∨ t = [] := by
    intro t
    rw [mem_opt, Gbnf.mem_chars_ascii (Gbnf.contains_oneOf "+-".toList) (by decide)]
    simp
  rw [language_json (List.mem_of_getElem? (i := 14) rfl), expExpr, Gbnf.sequence_cons_cons,
    Gbnf.sequence_pair, Gbnf.mem_seq]
  simp only [Gbnf.mem_seq (e := opt _), hletter, hsign, mem_digits]
  constructor
  · rintro ⟨_, ⟨c, hc, rfl⟩, _, ⟨_, ⟨sgn, hsgn, rfl⟩ | rfl, t, ht, rfl⟩, rfl⟩
    · exact ⟨⟨⟨c, hc⟩, some ⟨sgn, hsgn⟩, ⟨t, ht⟩⟩, rfl⟩
    · exact ⟨⟨⟨c, hc⟩, none, ⟨t, ht⟩⟩, rfl⟩
  · rintro ⟨⟨c, sgn, t⟩, rfl⟩
    cases sgn with
    | none => exact ⟨[c.1], ⟨c.1, c.2, rfl⟩, _, ⟨[], Or.inr rfl, t.1, t.2, rfl⟩, rfl⟩
    | some sgn =>
      exact ⟨[c.1], ⟨c.1, c.2, rfl⟩, _, ⟨[sgn.1], Or.inl ⟨sgn.1, sgn.2, rfl⟩, t.1, t.2, rfl⟩, rfl⟩

theorem mem_number : s ∈ callLanguage names "number".toList ↔ ∃ n : Json.Number, s = n.text := by
  rw [language_json (List.mem_of_getElem? (i := 11) rfl), numberExpr]
  simp only [Gbnf.sequence, Gbnf.mem_seq, mem_opt, Gbnf.mem_literal, Gbnf.mem_rule, mem_int,
    mem_frac, mem_exp]
  constructor
  · rintro ⟨m, hm, _, ⟨_, ⟨i, rfl⟩, _, ⟨f, hf, e, he, rfl⟩, rfl⟩, rfl⟩
    obtain ⟨minus, rfl⟩ : ∃ minus : Bool, m = if minus then ['-'] else [] := by
      rcases hm with rfl | rfl
      · exact ⟨true, rfl⟩
      · exact ⟨false, rfl⟩
    obtain ⟨frac, rfl⟩ : ∃ frac : Option Json.Digits, f = frac.elim [] fun d => '.' :: d.1 := by
      rcases hf with ⟨d, rfl⟩ | rfl
      · exact ⟨some d, rfl⟩
      · exact ⟨none, rfl⟩
    obtain ⟨exp, rfl⟩ : ∃ exp : Option Json.Exponent, e = exp.elim [] Json.Exponent.text := by
      rcases he with ⟨e, rfl⟩ | rfl
      · exact ⟨some e, rfl⟩
      · exact ⟨none, rfl⟩
    exact ⟨⟨minus, i, frac, exp⟩, rfl⟩
  · rintro ⟨⟨minus, i, frac, exp⟩, rfl⟩
    refine ⟨_, ?_, _, ⟨_, ⟨i, rfl⟩, _, ⟨_, ?_, _, ?_, rfl⟩, rfl⟩, rfl⟩
    · cases minus with
      | true => exact Or.inl rfl
      | false => exact Or.inr rfl
    · cases frac with
      | none => exact Or.inr rfl
      | some d => exact Or.inl ⟨d, rfl⟩
    · cases exp with
      | none => exact Or.inr rfl
      | some e => exact Or.inl ⟨e, rfl⟩

end

/-! ### Trees are derived -/

section

variable {names : List Text}

theorem blank_mem_ws (ws : Json.Blank) : ws.1 ∈ callLanguage names "ws".toList := mem_ws.mpr ws.2

theorem pieces_mem_string (ps : List Json.Piece) :
    '"' :: (Json.piecesText ps ++ ['"']) ∈ callLanguage names "string".toList :=
  mem_string.mpr ⟨ps, rfl⟩

/-- The text of a member. -/
def pairText (key : List Json.Piece) (ws₁ ws₂ : Json.Blank) (v : Json.Tree) : Text :=
  '"' :: (Json.piecesText key ++ ['"']) ++ (ws₁.1 ++ ([':'] ++ (ws₂.1 ++ v.text)))

/-- The elements and the members behind the first ones. -/
def moreExpr (item : Text) : Expr :=
  .star (sequence [.literal ",".toList, ref "ws".toList, ref item])

theorem pairText_mem (key : List Json.Piece) (ws₁ ws₂ : Json.Blank) {v : Json.Tree}
    (hv : v.text ∈ callLanguage names "value".toList) :
    pairText key ws₁ ws₂ v ∈ callLanguage names "pair".toList := by
  rw [language_json (List.mem_of_getElem? (i := 2) rfl)]
  exact ⟨_, pieces_mem_string key, _, ⟨_, blank_mem_ws ws₁, _, ⟨_, rfl, _,
    ⟨_, blank_mem_ws ws₂, _, hv, rfl⟩, rfl⟩, rfl⟩, rfl⟩

theorem comma_mem_more {item s t : Text} (ws : Json.Blank) (hs : s ∈ callLanguage names item)
    (ht : t ∈ (moreExpr item).language (callLanguage names)) :
    ',' :: (ws.1 ++ (s ++ t)) ∈ (moreExpr item).language (callLanguage names) := by
  have hfirst : ",".toList ++ (ws.1 ++ s) ∈ (sequence [.literal ",".toList, ref "ws".toList,
      ref item]).language (callLanguage names) :=
    ⟨_, rfl, _, ⟨_, blank_mem_ws ws, _, hs, rfl⟩, rfl⟩
  have hall := Gbnf.append_mem_star hfirst ht
  simpa [moreExpr] using hall

theorem brackets_mem {a b inner s : Text} (ws ws' : Json.Blank)
    (hs : s ∈ callLanguage names inner) :
    a ++ (ws.1 ++ (s ++ (ws'.1 ++ b))) ∈ (bracketed a b inner).language (callLanguage names) :=
  Or.inr ⟨_, rfl, _, ⟨_, blank_mem_ws ws, _, ⟨_, hs, _, ⟨_, blank_mem_ws ws', _, rfl, rfl⟩, rfl⟩,
    rfl⟩, rfl⟩

theorem emptyBrackets_mem {a b inner : Text} (ws : Json.Blank) :
    a ++ (ws.1 ++ b) ∈ (bracketed a b inner).language (callLanguage names) :=
  Or.inl ⟨_, rfl, _, ⟨_, blank_mem_ws ws, _, rfl, rfl⟩, rfl⟩

theorem mem_value {s : Text} : s ∈ callLanguage names "value".toList ↔
    s ∈ valueExpr.language (callLanguage names) := by
  rw [language_json (List.mem_of_getElem? (i := 5) rfl)]

theorem mem_array {s : Text} : s ∈ callLanguage names "array".toList ↔
    s ∈ (bracketed "[".toList "]".toList "values".toList).language (callLanguage names) := by
  rw [language_json (List.mem_of_getElem? (i := 3) rfl)]

theorem arr_mem {v : Json.Tree} {rest : Json.Trees} (ws ws' : Json.Blank)
    (hv : v.text ∈ callLanguage names "value".toList)
    (hrest : rest.text ∈ (moreExpr "value".toList).language (callLanguage names)) :
    (Json.Tree.arr ws v rest ws').text ∈ callLanguage names "array".toList := by
  have hvalues : v.text ++ rest.text ∈ callLanguage names "values".toList := by
    rw [language_json (List.mem_of_getElem? (i := 4) rfl)]
    exact ⟨_, hv, _, hrest, rfl⟩
  have harray := mem_array.mpr (brackets_mem (a := "[".toList) (b := "]".toList) ws ws' hvalues)
  have htext : (Json.Tree.arr ws v rest ws').text =
      "[".toList ++ (ws.1 ++ (v.text ++ rest.text ++ (ws'.1 ++ "]".toList))) := by
    simp [Json.Tree.text]
  rwa [htext]

mutual

theorem derived_tree : ∀ v : Json.Tree, v.text ∈ callLanguage names "value".toList
  | .null => mem_value.mpr (Or.inr (Or.inr (Or.inr (Or.inr (Or.inr (Or.inr rfl))))))
  | .bool true => mem_value.mpr (Or.inr (Or.inr (Or.inr (Or.inr (Or.inl rfl)))))
  | .bool false => mem_value.mpr (Or.inr (Or.inr (Or.inr (Or.inr (Or.inr (Or.inl rfl))))))
  | .str s => mem_value.mpr (Or.inl (pieces_mem_string s))
  | .num n => mem_value.mpr (Or.inr (Or.inl (mem_number.mpr ⟨n, rfl⟩)))
  | .emptyArr ws => mem_value.mpr (Or.inr (Or.inr (Or.inr (Or.inl
      (mem_array.mpr (emptyBrackets_mem ws))))))
  | .arr ws v rest ws' => mem_value.mpr (Or.inr (Or.inr (Or.inr (Or.inl
      (arr_mem ws ws' (derived_tree v) (derived_trees rest))))))
  | .obj o => mem_value.mpr (Or.inr (Or.inr (Or.inl (derived_object o))))

theorem derived_trees : ∀ vs : Json.Trees,
    vs.text ∈ (moreExpr "value".toList).language (callLanguage names)
  | .nil => Gbnf.nil_mem_star
  | .cons ws v rest => comma_mem_more ws (derived_tree v) (derived_trees rest)

/-- The text of an object is derived. -/
theorem derived_object : ∀ o : Json.Object, o.text ∈ callLanguage names "object".toList
  | .empty ws => by
    rw [language_json (List.mem_of_getElem? (i := 0) rfl)]
    exact emptyBrackets_mem ws
  | .members ws key ws₁ ws₂ v rest ws' => by
    have hmembers : pairText key ws₁ ws₂ v ++ rest.text ∈
        callLanguage names "members".toList := by
      rw [language_json (List.mem_of_getElem? (i := 1) rfl)]
      exact ⟨_, pairText_mem key ws₁ ws₂ (derived_tree v), _, derived_pairs rest, rfl⟩
    rw [language_json (List.mem_of_getElem? (i := 0) rfl)]
    have hall := brackets_mem (a := "\x7b".toList) (b := "\x7d".toList) ws ws' hmembers
    simpa [Json.Object.text, pairText] using hall

theorem derived_pairs : ∀ ps : Json.Pairs,
    ps.text ∈ (moreExpr "pair".toList).language (callLanguage names)
  | .nil => Gbnf.nil_mem_star
  | .cons ws key ws₁ ws₂ v rest => by
    have hall := comma_mem_more ws (pairText_mem key ws₁ ws₂ (derived_tree v))
      (derived_pairs rest)
    simpa [Json.Pairs.text, pairText] using hall

end

end

/-! ### What is derived is a tree -/

section

variable {names : List Text}

/-- The texts of trees. -/
def treeTexts : List (Text × Language Char) := [
  ("object".toList, {s | ∃ o : Json.Object, s = o.text}),
  ("members".toList, {s | ∃ key ws₁ ws₂ v, ∃ rest : Json.Pairs,
    s = pairText key ws₁ ws₂ v ++ rest.text}),
  ("pair".toList, {s | ∃ key ws₁ ws₂ v, s = pairText key ws₁ ws₂ v}),
  ("array".toList, {s | (∃ ws, s = (Json.Tree.emptyArr ws).text) ∨
    ∃ ws v rest ws', s = (Json.Tree.arr ws v rest ws').text}),
  ("values".toList, {s | ∃ v : Json.Tree, ∃ rest : Json.Trees, s = v.text ++ rest.text}),
  ("value".toList, {s | ∃ v : Json.Tree, s = v.text})]

/-- The texts of trees, and of the other rules what they derive. -/
def treeLanguage (names : List Text) (rule : Text) : Language Char :=
  (treeTexts.lookup rule).getD (callLanguage names rule)

theorem treeLanguage_le (rule s : Text) (h : s ∈ treeLanguage names rule) :
    s ∈ callLanguage names rule := by
  rw [treeLanguage] at h
  cases hlookup : treeTexts.lookup rule with
  | none =>
    rw [hlookup] at h
    exact h
  | some l =>
    rw [hlookup, Option.getD_some] at h
    have hmem : (rule, l) ∈ treeTexts := by
      obtain ⟨l₁, l₂, heq, -⟩ := List.lookup_eq_some_iff.mp hlookup
      rw [heq]
      exact List.mem_append_right _ List.mem_cons_self
    simp only [treeTexts, List.mem_cons, List.not_mem_nil, or_false] at hmem
    rcases hmem with ⟨rfl, rfl⟩ | ⟨rfl, rfl⟩ | ⟨rfl, rfl⟩ | ⟨rfl, rfl⟩ | ⟨rfl, rfl⟩ | ⟨rfl, rfl⟩
    · obtain ⟨o, rfl⟩ := h
      exact derived_object o
    · obtain ⟨key, ws₁, ws₂, v, rest, rfl⟩ := h
      rw [language_json (List.mem_of_getElem? (i := 1) rfl)]
      exact ⟨_, pairText_mem key ws₁ ws₂ (derived_tree v), _, derived_pairs rest, rfl⟩
    · obtain ⟨key, ws₁, ws₂, v, rfl⟩ := h
      exact pairText_mem key ws₁ ws₂ (derived_tree v)
    · rcases h with ⟨ws, rfl⟩ | ⟨ws, v, rest, ws', rfl⟩
      · exact mem_array.mpr (emptyBrackets_mem ws)
      · exact arr_mem ws ws' (derived_tree v) (derived_trees rest)
    · obtain ⟨v, rest, rfl⟩ := h
      rw [language_json (List.mem_of_getElem? (i := 4) rfl)]
      exact ⟨_, derived_tree v, _, derived_trees rest, rfl⟩
    · obtain ⟨v, rfl⟩ := h
      exact derived_tree v

theorem mem_tree_ws {s : Text} : s ∈ treeLanguage names "ws".toList ↔ ∃ ws : Json.Blank, s = ws.1 :=
  mem_ws.trans ⟨fun h => ⟨⟨s, h⟩, rfl⟩, fun ⟨ws, h⟩ => h ▸ ws.2⟩

theorem mem_bracketed {a b inner s : Text}
    (h : s ∈ (bracketed a b inner).language (treeLanguage names)) :
    (∃ ws : Json.Blank, s = a ++ (ws.1 ++ b)) ∨
      ∃ ws ws' : Json.Blank, ∃ t ∈ treeLanguage names inner,
        s = a ++ (ws.1 ++ (t ++ (ws'.1 ++ b))) := by
  rcases h with h | h
  · obtain ⟨_, rfl, _, ⟨_, hws, _, rfl, rfl⟩, rfl⟩ := h
    obtain ⟨ws, rfl⟩ := mem_tree_ws.mp hws
    exact Or.inl ⟨ws, rfl⟩
  · obtain ⟨_, rfl, _, ⟨_, hws, _, ⟨t, ht, _, ⟨_, hws', _, rfl, rfl⟩, rfl⟩, rfl⟩, rfl⟩ := h
    obtain ⟨ws, rfl⟩ := mem_tree_ws.mp hws
    obtain ⟨ws', rfl⟩ := mem_tree_ws.mp hws'
    exact Or.inr ⟨ws, ws', t, ht, rfl⟩

theorem mem_more {item s : Text} (h : s ∈ (moreExpr item).language (treeLanguage names)) :
    ∃ L : List (Json.Blank × Text), (∀ x ∈ L, x.2 ∈ treeLanguage names item) ∧
      s = L.flatMap fun x => ',' :: (x.1.1 ++ x.2) := by
  obtain ⟨L, rfl, hL⟩ := Gbnf.mem_star.mp h
  clear h
  induction L with
  | nil => exact ⟨[], nofun, rfl⟩
  | cons y L ih =>
    obtain ⟨⟨_, rfl, _, ⟨_, hws, t, ht, rfl⟩, rfl⟩, htail⟩ := List.forall_mem_cons.mp hL
    obtain ⟨ws, rfl⟩ := mem_tree_ws.mp hws
    obtain ⟨L', hL', heq⟩ := ih htail
    exact ⟨(ws, t) :: L', List.forall_mem_cons.mpr ⟨ht, hL'⟩, by rw [List.flatten_cons, heq]; rfl⟩

theorem trees_of_mem_more {s : Text}
    (h : s ∈ (moreExpr "value".toList).language (treeLanguage names)) :
    ∃ vs : Json.Trees, s = vs.text := by
  obtain ⟨L, hL, rfl⟩ := mem_more h
  clear h
  induction L with
  | nil => exact ⟨.nil, rfl⟩
  | cons x L ih =>
    obtain ⟨⟨v, hv⟩, htail⟩ := List.forall_mem_cons.mp hL
    obtain ⟨vs, hvs⟩ := ih htail
    exact ⟨.cons x.1 v vs, by rw [List.flatMap_cons, hvs, hv]; simp [Json.Trees.text]⟩

theorem pairs_of_mem_more {s : Text}
    (h : s ∈ (moreExpr "pair".toList).language (treeLanguage names)) :
    ∃ ps : Json.Pairs, s = ps.text := by
  obtain ⟨L, hL, rfl⟩ := mem_more h
  clear h
  induction L with
  | nil => exact ⟨.nil, rfl⟩
  | cons x L ih =>
    obtain ⟨⟨key, ws₁, ws₂, v, hv⟩, htail⟩ := List.forall_mem_cons.mp hL
    obtain ⟨ps, hps⟩ := ih htail
    refine ⟨.cons x.1 key ws₁ ws₂ v ps, ?_⟩
    rw [List.flatMap_cons, hps, hv]
    simp [Json.Pairs.text, pairText]

/-- A rule whose texts are not those of trees. -/
theorem closed_other {r : Text × Expr} (hr : r ∈ callGrammar names)
    (hlookup : treeTexts.lookup r.1 = none) {s : Text}
    (h : s ∈ r.2.language (treeLanguage names)) : s ∈ treeLanguage names r.1 := by
  rw [treeLanguage, hlookup, Option.getD_none, callLanguage,
    Gbnf.language_eq nodup_callGrammar hr]
  exact Gbnf.language_mono treeLanguage_le h

theorem closed_value {s : Text} (h : s ∈ valueExpr.language (treeLanguage names)) :
    ∃ v : Json.Tree, s = v.text := by
  rcases h with h | h | h | h | h | h | h
  · obtain ⟨ps, rfl⟩ := mem_string.mp h
    exact ⟨.str ps, rfl⟩
  · obtain ⟨n, rfl⟩ := mem_number.mp h
    exact ⟨.num n, rfl⟩
  · obtain ⟨o, rfl⟩ := h
    exact ⟨.obj o, rfl⟩
  · rcases h with ⟨ws, rfl⟩ | ⟨ws, v, rest, ws', rfl⟩
    · exact ⟨.emptyArr ws, rfl⟩
    · exact ⟨.arr ws v rest ws', rfl⟩
  · exact ⟨.bool true, h⟩
  · exact ⟨.bool false, h⟩
  · exact ⟨.null, h⟩

theorem closed_object {s : Text} (h : s ∈ (bracketed "\x7b".toList "\x7d".toList
    "members".toList).language (treeLanguage names)) : ∃ o : Json.Object, s = o.text := by
  rcases mem_bracketed h with ⟨ws, rfl⟩ | ⟨ws, ws', t, ⟨key, ws₁, ws₂, v, rest, rfl⟩, rfl⟩
  · exact ⟨.empty ws, rfl⟩
  · exact ⟨.members ws key ws₁ ws₂ v rest ws', by simp [Json.Object.text, pairText]⟩

theorem closed_array {s : Text} (h : s ∈ (bracketed "[".toList "]".toList
    "values".toList).language (treeLanguage names)) :
    (∃ ws, s = (Json.Tree.emptyArr ws).text) ∨
      ∃ ws v rest ws', s = (Json.Tree.arr ws v rest ws').text := by
  rcases mem_bracketed h with ⟨ws, rfl⟩ | ⟨ws, ws', t, ⟨v, rest, rfl⟩, rfl⟩
  · exact Or.inl ⟨ws, rfl⟩
  · exact Or.inr ⟨ws, v, rest, ws', by simp [Json.Tree.text]⟩

theorem closed_pair {s : Text} (h : s ∈ pairExpr.language (treeLanguage names)) :
    ∃ key ws₁ ws₂ v, s = pairText key ws₁ ws₂ v := by
  obtain ⟨_, hkey, _, ⟨_, hws₁, _, ⟨_, rfl, _, ⟨_, hws₂, _, ⟨v, rfl⟩, rfl⟩, rfl⟩, rfl⟩, rfl⟩ := h
  obtain ⟨key, rfl⟩ := mem_string.mp hkey
  obtain ⟨ws₁, rfl⟩ := mem_tree_ws.mp hws₁
  obtain ⟨ws₂, rfl⟩ := mem_tree_ws.mp hws₂
  exact ⟨key, ws₁, ws₂, v, rfl⟩

/-- The texts of trees are closed under the rules. -/
theorem treeLanguage_closed : ∀ r ∈ callGrammar names,
    ∀ s ∈ r.2.language (treeLanguage names), s ∈ treeLanguage names r.1 := by
  intro r hr s h
  have hother := fun hlookup => closed_other hr hlookup h
  rcases List.mem_append.mp hr with hcall | hjson
  · have hnone : ∀ r ∈ callExprs, treeTexts.lookup r.1 = none := by
      simp only [callExprs, List.forall_mem_cons]
      exact ⟨rfl, rfl, rfl, nofun⟩
    exact hother (hnone r hcall)
  · rcases List.mem_cons.mp hjson with rfl | hjson
    · exact hother rfl
    · simp only [jsonExprs, List.mem_cons, List.not_mem_nil, or_false] at hjson
      rcases hjson with rfl | rfl | rfl | rfl | rfl | rfl | hjson
      · exact closed_object h
      · obtain ⟨_, ⟨key, ws₁, ws₂, v, rfl⟩, t, ht, rfl⟩ := h
        obtain ⟨ps, rfl⟩ := pairs_of_mem_more ht
        exact ⟨key, ws₁, ws₂, v, ps, rfl⟩
      · exact closed_pair h
      · exact closed_array h
      · obtain ⟨_, ⟨v, rfl⟩, t, ht, rfl⟩ := h
        obtain ⟨vs, rfl⟩ := trees_of_mem_more ht
        exact ⟨v, vs, rfl⟩
      · exact closed_value h
      · refine hother ?_
        rcases hjson with rfl | rfl | rfl | rfl | rfl | rfl | rfl | rfl | rfl | rfl <;> rfl

/-- **What is derived of the arguments** are the texts of objects. -/
theorem mem_object {s : Text} :
    s ∈ callLanguage names "object".toList ↔ ∃ o : Json.Object, s = o.text := by
  refine ⟨fun h => ?_, fun ⟨o, ho⟩ => ho ▸ derived_object o⟩
  exact Gbnf.mem_language_of_derives treeLanguage_closed h

end

/-! ### Calls -/

section

variable {names : List Text}

/-- A call as it is derived: a tool that exists, arguments, and the white space in between. -/
structure DerivedCall (names : List Text) where
  name : Text
  known : name ∈ names
  arguments : Json.Object
  ws₁ : Json.Blank
  ws₂ : Json.Blank
  ws₃ : Json.Blank
  ws₄ : Json.Blank
  ws₅ : Json.Blank
  ws₆ : Json.Blank
  ws₇ : Json.Blank
  ws₈ : Json.Blank
  after : Json.Blank

namespace DerivedCall

/-- The object of a call. -/
def object (c : DerivedCall names) : Text :=
  "\x7b".toList ++ (c.ws₁.1 ++ ("\"name\"".toList ++ (c.ws₂.1 ++ (":".toList ++ (c.ws₃.1 ++
    (nameLiteral c.name ++ (c.ws₄.1 ++ (",".toList ++ (c.ws₅.1 ++ ("\"arguments\"".toList ++
      (c.ws₆.1 ++ (":".toList ++ (c.ws₇.1 ++ (c.arguments.text ++ (c.ws₈.1 ++
        "\x7d".toList)))))))))))))))

def text (c : DerivedCall names) : Text :=
  "<tool_call>\n".toList ++ (c.object ++ ("\n</tool_call>".toList ++ c.after.1))

/-- The object starts and ends with a brace. -/
theorem object_eq (c : DerivedCall names) : c.object =
    '\x7b' :: (c.ws₁.1 ++ ('"' :: ("name".toList ++ ['"']) ++ (c.ws₂.1 ++ ([':'] ++ (c.ws₃.1 ++
      (nameLiteral c.name ++ (c.ws₄.1 ++ ([','] ++ (c.ws₅.1 ++ ('"' :: ("arguments".toList ++
        ['"']) ++ (c.ws₆.1 ++ ([':'] ++ (c.ws₇.1 ++ (c.arguments.text ++
          c.ws₈.1)))))))))))))) ++ ['\x7d'] := by
  have hname : "\"name\"".toList = '"' :: ("name".toList ++ ['"']) := by decide
  have harguments : "\"arguments\"".toList = '"' :: ("arguments".toList ++ ['"']) := by decide
  have hopen : "\x7b".toList = ['\x7b'] := by decide
  have hclose : "\x7d".toList = ['\x7d'] := by decide
  have hcolon : ":".toList = [':'] := by decide
  have hcomma : ",".toList = [','] := by decide
  delta object
  rw [hname, harguments, hopen, hclose, hcolon, hcomma]
  simp only [List.cons_append, List.append_assoc, List.nil_append]

theorem text_eq (c : DerivedCall names) : c.text =
    "<tool_call>\n".toList ++ (c.object ++ ("\n</tool_call>".toList ++ c.after.1)) := rfl

end DerivedCall

/-- A derivation from the root: one call or several. -/
structure CallDerivation (names : List Text) where
  first : DerivedCall names
  rest : List (Json.Blank × DerivedCall names)

namespace CallDerivation

def calls (d : CallDerivation names) : List (DerivedCall names) := d.first :: d.rest.map Prod.snd

def text (d : CallDerivation names) : Text :=
  d.first.text ++ d.rest.flatMap fun r => r.1.1 ++ r.2.text

end CallDerivation

theorem language_call {rule : Text} {e : Expr} (h : (rule, e) ∈ callExprs) :
    callLanguage names rule = e.language (callLanguage names) :=
  Gbnf.language_eq nodup_callGrammar (List.mem_append_left _ h)

theorem mem_toolname (hne : names ≠ []) {s : Text} :
    s ∈ callLanguage names "toolname".toList ↔ ∃ name ∈ names, s = nameLiteral name := by
  have hrule : toolNameExpr names ∈ callGrammar names :=
    List.mem_append_right _ List.mem_cons_self
  have hlang : callLanguage names "toolname".toList =
      (choice (names.map fun name => .literal (nameLiteral name))).language (callLanguage names) :=
    Gbnf.language_eq nodup_callGrammar hrule
  rw [hlang, Gbnf.mem_choice (by simpa using hne)]
  constructor
  · rintro ⟨e, he, hs⟩
    obtain ⟨name, hname, rfl⟩ := List.mem_map.mp he
    exact ⟨name, hname, hs⟩
  · rintro ⟨name, hname, hs⟩
    exact ⟨_, List.mem_map_of_mem hname, hs⟩

theorem mem_toolcall (hne : names ≠ []) {s : Text} :
    s ∈ callLanguage names "toolcall".toList ↔ ∃ c : DerivedCall names, s = c.text := by
  have hobj : callLanguage names "toolobj".toList = toolobjExpr.language (callLanguage names) :=
    language_call (List.mem_of_getElem? (i := 2) rfl)
  rw [language_call (List.mem_of_getElem? (i := 1) rfl)]
  constructor
  · rintro ⟨_, rfl, _, ⟨o, ho, _, ⟨_, rfl, _, hafter, rfl⟩, rfl⟩, rfl⟩
    replace ho : o ∈ toolobjExpr.language (callLanguage names) := hobj ▸ ho
    obtain ⟨_, rfl, _, ⟨w₁, h₁, _, ⟨_, rfl, _, ⟨w₂, h₂, _, ⟨_, rfl, _, ⟨w₃, h₃, _,
      ⟨n, hn, _, ⟨w₄, h₄, _, ⟨_, rfl, _, ⟨w₅, h₅, _, ⟨_, rfl, _, ⟨w₆, h₆, _, ⟨_, rfl, _,
        ⟨w₇, h₇, _, ⟨a, ha, _, ⟨w₈, h₈, _, rfl, rfl⟩, rfl⟩, rfl⟩, rfl⟩, rfl⟩, rfl⟩, rfl⟩, rfl⟩,
          rfl⟩, rfl⟩, rfl⟩, rfl⟩, rfl⟩, rfl⟩, rfl⟩, rfl⟩ := ho
    obtain ⟨name, hname, rfl⟩ := (mem_toolname hne).mp hn
    obtain ⟨arguments, rfl⟩ := mem_object.mp ha
    exact ⟨⟨name, hname, arguments, ⟨w₁, mem_ws.mp h₁⟩, ⟨w₂, mem_ws.mp h₂⟩, ⟨w₃, mem_ws.mp h₃⟩,
      ⟨w₄, mem_ws.mp h₄⟩, ⟨w₅, mem_ws.mp h₅⟩, ⟨w₆, mem_ws.mp h₆⟩, ⟨w₇, mem_ws.mp h₇⟩,
      ⟨w₈, mem_ws.mp h₈⟩, ⟨_, mem_ws.mp hafter⟩⟩, rfl⟩
  · rintro ⟨c, rfl⟩
    have ho : c.object ∈ toolobjExpr.language (callLanguage names) :=
      ⟨_, rfl, _, ⟨_, blank_mem_ws c.ws₁, _, ⟨_, rfl, _, ⟨_, blank_mem_ws c.ws₂, _, ⟨_, rfl, _,
        ⟨_, blank_mem_ws c.ws₃, _, ⟨_, (mem_toolname hne).mpr ⟨c.name, c.known, rfl⟩, _,
        ⟨_, blank_mem_ws c.ws₄, _, ⟨_, rfl, _, ⟨_, blank_mem_ws c.ws₅, _, ⟨_, rfl, _,
        ⟨_, blank_mem_ws c.ws₆, _, ⟨_, rfl, _, ⟨_, blank_mem_ws c.ws₇, _,
        ⟨_, mem_object.mpr ⟨c.arguments, rfl⟩, _, ⟨_, blank_mem_ws c.ws₈, _, rfl, rfl⟩, rfl⟩, rfl⟩,
        rfl⟩, rfl⟩, rfl⟩, rfl⟩, rfl⟩, rfl⟩, rfl⟩, rfl⟩, rfl⟩, rfl⟩, rfl⟩, rfl⟩, rfl⟩
    exact ⟨_, rfl, _, ⟨_, (hobj ▸ ho : c.object ∈ callLanguage names "toolobj".toList), _,
      ⟨_, rfl, _, blank_mem_ws c.after, rfl⟩, rfl⟩, rfl⟩

/-- **What is derived of the whole** are the texts of derivations. -/
theorem derives_root_iff (hne : names ≠ []) {s : Text} :
    Gbnf.Derives (callGrammar names) (.rule "root".toList) s ↔
      ∃ d : CallDerivation names, s = d.text := by
  have hroot : callLanguage names "root".toList = (several (ref "toolcall".toList)
      [ref "ws".toList, ref "toolcall".toList]).language (callLanguage names) :=
    language_call (List.mem_of_getElem? (i := 0) rfl)
  change s ∈ callLanguage names "root".toList ↔ _
  rw [hroot]
  constructor
  · rintro ⟨_, hfirst, _, ⟨L, rfl, hL⟩, rfl⟩
    obtain ⟨first, rfl⟩ := (mem_toolcall hne).mp hfirst
    obtain ⟨rest, hrest⟩ : ∃ rest : List (Json.Blank × DerivedCall names),
        L.flatten = rest.flatMap fun r => r.1.1 ++ r.2.text := by
      clear hfirst
      induction L with
      | nil => exact ⟨[], rfl⟩
      | cons y L ih =>
        obtain ⟨⟨w, hw, t, ht, rfl⟩, htail⟩ := List.forall_mem_cons.mp hL
        obtain ⟨c, rfl⟩ := (mem_toolcall hne).mp ht
        obtain ⟨rest, hrest⟩ := ih htail
        exact ⟨(⟨w, mem_ws.mp hw⟩, c) :: rest, by rw [List.flatten_cons, hrest]; rfl⟩
    exact ⟨⟨first, rest⟩, by rw [hrest]; rfl⟩
  · rintro ⟨d, rfl⟩
    refine ⟨_, (mem_toolcall hne).mpr ⟨d.first, rfl⟩, _,
      ⟨d.rest.map fun r => r.1.1 ++ r.2.text, List.flatMap_def, List.forall_mem_map.mpr
        fun r _ => ?_⟩, rfl⟩
    exact ⟨_, blank_mem_ws r.1, _, (mem_toolcall hne).mpr ⟨r.2, rfl⟩, rfl⟩

end

end Llamaste
