import Llamaste.ChatPrompt
import Llamaste.QwenCalls

/-!
# Rendered calls read again

A call is rendered into a block of the prompt with its name pasted between quotes. Whatever the
name holds, a call that is read from the block has that name, or a shorter one.

## Main results

* `blocksOf_toolCallBlock`: the blocks of rendered calls are those of each.
* `qwenCall_callText`: a plain name is read back with its arguments.
* `shorter_of_callText`: any other call that is read from a block has a shorter name.
-/

namespace Llamaste

/-! ### The text of a block -/

/-- The text before the name. -/
def callHead : Text := "\n\x7b\"name\": \"".toList

/-- The text between the name and the arguments, from the closing quote on. -/
def callMiddle : Text := "\", \"arguments\": ".toList

/-- The text of a block without its tags. -/
def callText (name args : Text) : Text :=
  callHead ++ (name ++ (callMiddle ++ (args ++ "\x7d\n".toList)))

theorem toolCallBlock_eq (name args : Text) : toolCallBlock name args =
    toolCallStart ++ callText name args ++ toolCallEnd ++ "\n".toList := by
  have hopen : "<tool_call>\n\x7b\"name\": \"".toList = toolCallStart ++ callHead := by decide
  have hclose : "\x7d\n</tool_call>\n".toList =
      "\x7d\n".toList ++ (toolCallEnd ++ "\n".toList) := by decide
  have hassoc : ∀ {t u a b c d e : Text}, t = a ++ b → u = c ++ (d ++ e) →
      t ++ name ++ callMiddle ++ args ++ u =
        a ++ (b ++ (name ++ (callMiddle ++ (args ++ c)))) ++ d ++ e := by
    rintro _ _ a b c d e rfl rfl
    simp
  exact hassoc hopen hclose

/-- White space before a text holds no block. -/
theorem blocksOf_ws {u : Text} (hws : u.all Json.isWs = true) (rest : Text) :
    blocksOf (u ++ rest) = blocksOf rest := by
  induction u with
  | nil => rfl
  | cons c u ih =>
    obtain ⟨hc, hws⟩ := List.forall_mem_cons.mp (List.all_eq_true.mp hws)
    rw [← ih (List.all_eq_true.mpr hws), List.cons_append]
    have hne : c ≠ '<' := by
      rintro rfl
      cases hc
    have hskip : Text.afterFirst toolCallStart (c :: (u ++ rest)) =
        Text.afterFirst toolCallStart (u ++ rest) := by
      have hstart : toolCallStart = '<' :: toolCallStart.tail := rfl
      have hpre : ¬ toolCallStart <+: c :: (u ++ rest) := by
        rw [hstart, List.cons_prefix_cons]
        exact fun h => hne h.1.symm
      rw [Text.afterFirst, if_neg (mt List.isPrefixOf_iff_prefix.mp hpre)]
    have hnext : nextBlock (c :: (u ++ rest)) = nextBlock (u ++ rest) := by
      rw [nextBlock, hskip, nextBlock]
    cases h : nextBlock (u ++ rest) with
    | none => rw [blocksOf_of_none (hnext.trans h), blocksOf_of_none h]
    | some r => rw [blocksOf_of_some (hnext.trans h), blocksOf_of_some h]

/-- Where a block stands in a text between tags. -/
theorem mem_tagged {text raw : Text}
    (h : raw ∈ blocksOf (toolCallStart ++ text ++ toolCallEnd)) :
    ∃ a c, text = a ++ (raw ++ c) ∧ (a = [] ∨ toolCallStart <:+ a) ∧
      (c = [] ∨ toolCallEnd <+: c) ∧ ¬ toolCallEnd <:+: raw := by
  obtain ⟨a, c, heq, hc, hraw⟩ := mem_blocksOf h
  rcases isTag_toolCallStart.anchored.append_eq_append_start heq with ⟨rfl, h⟩ | ⟨a', rfl, h⟩
  · exact ⟨[], c, h, Or.inl rfl, hc, hraw⟩
  · exact ⟨a' ++ toolCallStart, c, by rw [h]; simp, Or.inr (List.suffix_append _ _), hc, hraw⟩

/-- A text between tags without a closing tag is the only block. -/
theorem blocksOf_tagged {text : Text} (h : ¬ toolCallEnd <:+: text) :
    blocksOf (toolCallStart ++ text ++ toolCallEnd) = [text] := by
  have hsplit := isTag_toolCallEnd.anchored.splitFirst_append h []
  have hnext : nextBlock (toolCallStart ++ text ++ toolCallEnd) = some (text, []) := by
    have hafter := isTag_toolCallStart.anchored.afterFirst_append (u := [])
      ((Text.occurrences_eq_zero_iff (by decide)).mp rfl) (text ++ toolCallEnd)
    rw [List.append_nil] at hsplit
    rw [nextBlock, List.append_assoc]
    exact (congrArg (Option.bind · _) hafter).trans hsplit
  rw [blocksOf_of_some hnext, blocksOf_of_none nextBlock_nil]

/-- The blocks of a rendered call. -/
def callBlocks (name args : Text) : List Text :=
  blocksOf (toolCallStart ++ callText name args ++ toolCallEnd)

/-- **The blocks of rendered calls** are those of each call. -/
theorem blocksOf_toolCallBlock (name args rest : Text) :
    blocksOf (toolCallBlock name args ++ rest) = callBlocks name args ++ blocksOf rest := by
  have hnewline := blocksOf_ws (u := "\n".toList) (by decide) rest
  rw [toolCallBlock_eq, List.append_assoc, blocksOf_append, hnewline, callBlocks]

/-- The text of a call without a closing tag is its only block. -/
theorem callBlocks_of_not_infix {name args : Text} (h : ¬ toolCallEnd <:+: callText name args) :
    callBlocks name args = [callText name args] := blocksOf_tagged h

/-- A closing tag in the text of a call stands in the name or in the arguments. -/
theorem infix_callText_iff {name args : Text} : toolCallEnd <:+: callText name args ↔
    toolCallEnd <:+: name ∨ toolCallEnd <:+: args := by
  have hquote : '"' ∉ toolCallEnd := by decide
  have hspace : ' ' ∉ toolCallEnd := by decide
  have hbrace : '\x7d' ∉ toolCallEnd := by decide
  have hfixed : ∀ text ∈ ["\n\x7b\"name\": ".toList, ", \"arguments\":".toList, "\n".toList],
      ¬ toolCallEnd <:+: text := fun text htext =>
    (Text.occurrences_eq_zero_iff (by decide)).mp (by revert text; decide)
  have hhead : callHead = "\n\x7b\"name\": ".toList ++ ['"'] := by decide
  have hmiddle : callMiddle = '"' :: ", \"arguments\":".toList ++ [' '] := by decide
  have hend : "\x7d\n".toList = '\x7d' :: "\n".toList := by decide
  have hassoc : ∀ {t u v a b c : Text}, t = a ++ ['"'] → u = '"' :: b ++ [' '] →
      v = '\x7d' :: c → t ++ (name ++ (u ++ (args ++ v))) =
        a ++ '"' :: (name ++ '"' :: (b ++ ' ' :: (args ++ '\x7d' :: c))) := by
    rintro _ _ _ a b c rfl rfl rfl
    simp
  rw [callText, hassoc hhead hmiddle hend, Text.infix_append_cons_iff hquote,
    Text.infix_append_cons_iff hquote, Text.infix_append_cons_iff hspace,
    Text.infix_append_cons_iff hbrace, or_iff_right (hfixed _ (by simp)),
    or_iff_right (hfixed ", \"arguments\":".toList (by simp)),
    or_iff_left (hfixed "\n".toList (by simp))]

/-! ### What a block that is read as a call looks like -/

/-- The text that is scanned stops at its end, at a zero byte or at a tag. -/
def StopsAt (r : Text) : Prop :=
  r = [] ∨ r.head? = some (Char.ofNat 0) ∨ r.head? = some '<'

theorem lexes_of_ws {ws : Text} (hws : ws.all Json.isWs = true) (d : ℕ) :
    Json.Lexes (d, .out) ws [] (d, .out) :=
  Json.lexes_filler (fun c hc => Json.isFiller_of_isWs (List.all_eq_true.mp hws c hc)) d

theorem not_mem_of_ws {ws : Text} (hws : ws.all Json.isWs = true) : '"' ∉ ws ∧ '\\' ∉ ws :=
  ⟨fun h => absurd (List.all_eq_true.mp hws _ h) (by decide),
    fun h => absurd (List.all_eq_true.mp hws _ h) (by decide)⟩

/-- A call is read from an object with its name. -/
theorem name_of_qwenCall {raw name : Text} {args : Json}
    (h : qwenCall raw = some (some (name, args))) :
    ∃ members, Json.parse (Text.trim Json.isWs raw) = some (.obj members) ∧
      ("name".toList, .str name) ∈ members ∧ name ≠ [] ∧
      args = qwenArguments ((Json.obj members).find "arguments".toList) := by
  rw [qwenCall] at h
  split at h
  · rename_i members hparse
    simp only [Option.bind_eq_bind, Option.bind_eq_some_iff] at h
    obtain ⟨name', hvalue, h⟩ := h
    split_ifs at h with hempty
    · cases h
    · obtain ⟨rfl, rfl⟩ := Prod.mk.inj (Option.some.inj (Option.some.inj h))
      refine ⟨members, hparse, ?_, hempty, rfl⟩
      rcases Json.value_eq_some hvalue with rfl | ⟨v, hv, hstr⟩
      · exact absurd rfl hempty
      · obtain ⟨l, r, hmembers, -⟩ := List.lookup_eq_some_iff.mp hv
        cases v with
        | str s =>
          obtain rfl := Option.some.inj hstr
          rw [hmembers]
          simp
        | _ => cases hstr
  · cases h

/-- A call is read from an object whose name member is reported. Before the object stands
nothing, or white space and a byte order mark. -/
theorem scanned_of_qwenCall {raw name : Text} {args : Json}
    (h : qwenCall raw = some (some (name, args))) :
    ∃ a c r, raw = a ++ (c ++ r) ∧ '"' ∉ a ∧ '\\' ∉ a ∧
      (a = [] ∨ ∃ ws b, a = ws ++ Char.ofNat 0xEF :: b ∧ ws.all Json.isWs = true) ∧
      (r = [] ∨ r.head? = some (Char.ofNat 0)) ∧
      ∃ ts, Json.Lexes (0, .out) c ts (0, .out) ∧ Json.ReportsMember 1 "name".toList name ts := by
  obtain ⟨members, hparse, hmember, -, -⟩ := name_of_qwenCall h
  obtain ⟨ws, ws', hraw, hws, hws'⟩ := Text.eq_trim Json.isWs raw
  obtain ⟨bom, c, r, htrim, hbom, hquote, hslash, hr, hscan⟩ := Json.scanned_of_parse hparse
  obtain ⟨ts, hlex, hreports⟩ := hscan 0
  have hname := hreports.2 _ _ hmember
  rw [htrim] at hraw
  -- white space behind the object belongs to it, unless a zero byte stands before
  obtain ⟨c', r', hend, hr', hlex'⟩ : ∃ c' r', c ++ r ++ ws' = c' ++ r' ∧
      (r' = [] ∨ r'.head? = some (Char.ofNat 0)) ∧ Json.Lexes (0, .out) c' ts (0, .out) := by
    rcases hr with rfl | hr
    · refine ⟨c ++ ws', [], by simp, Or.inl rfl, ?_⟩
      simpa using hlex.append (lexes_of_ws hws' 0)
    · refine ⟨c, r ++ ws', by simp, Or.inr ?_, hlex⟩
      rw [List.head?_append, hr]
      rfl
  rcases hbom with rfl | hbom
  · refine ⟨[], ws ++ c', r', ?_, List.not_mem_nil, List.not_mem_nil, Or.inl rfl, hr', ts, ?_,
      hname⟩
    · rw [hraw, List.nil_append, List.nil_append, hend]
      simp
    · simpa using (lexes_of_ws hws 0).append hlex'
  · cases bom with
    | nil => cases hbom
    | cons b bom =>
      obtain rfl := Option.some.inj hbom
      refine ⟨ws ++ Char.ofNat 0xEF :: bom, c', r', ?_, ?_, ?_, Or.inr ⟨ws, bom, rfl, hws⟩, hr',
        ts, hlex', hname⟩
      · rw [hraw, List.append_assoc, ← hend]
        simp
      · exact fun hmem => (List.mem_append.mp hmem).elim (not_mem_of_ws hws).1 hquote
      · exact fun hmem => (List.mem_append.mp hmem).elim (not_mem_of_ws hws).2 hslash

/-! ### Where the name of a call that is read stands -/

theorem lexes_callHead :
    Json.Lexes (0, .out) callHead [.lit 1 "name".toList, .colon] (1, .str []) := by
  decide

/-- Between name and arguments the scanner comes from a string. -/
theorem lexes_callMiddle (d : ℕ) (b : Text) : Json.Lexes (d, .str b) callMiddle
    [.lit d b, .comma, .lit d "arguments".toList, .colon] (d, .out) := rfl

theorem str_of_lexes_callMiddle {d : ℕ} {m : Json.Mode} {ts : List Json.Token} {τ : ℕ × Json.Mode}
    (h : Json.Lexes (d, m) callMiddle ts τ) : ∃ b, m = .str b := by
  cases m with
  | out =>
    have hnone : Json.lex (d, .out) callMiddle = none := rfl
    cases hnone.symm.trans h
  | str b => exact ⟨b, rfl⟩
  | esc b =>
    have hnone : Json.lex (d, .esc b) callMiddle = none := rfl
    cases hnone.symm.trans h

/-- The arguments and the closing brace behind them. -/
theorem lexes_arguments {v : Json} (hv : Json.WellFormed v) (d : ℕ) :
    ∃ ts, Json.Lexes (d + 1, .out) (Json.dumpAt .compact 0 v ++ "\x7d\n".toList) ts (d, .out) ∧
      Json.Reports (d + 1) v ts := by
  obtain ⟨ts, hlex, hreports⟩ := Json.scanned_dumpAt hv .compact 0 (d + 1)
  have hend : Json.Lexes (d + 1, .out) "\x7d\n".toList [] (d, .out) := rfl
  exact ⟨ts, by simpa using hlex.append hend, hreports⟩

/-- A value reports no string member on its own level. -/
theorem not_infix_reports {d : ℕ} {v : Json} {ts : List Json.Token} (h : Json.Reports d v ts)
    (kt vt : Text) : ¬ [.lit d kt, .colon, .lit d vt] <:+: ts := by
  intro hin
  have hbelow : ¬ Json.Below (d + 1) ts := fun hbelow =>
    absurd (hbelow d kt (hin.subset (by simp))) (by omega)
  cases v with
  | str s =>
    obtain ⟨t, rfl, -⟩ := h
    have hlen := hin.length_le
    simp at hlen
  | obj ms => exact hbelow h.1
  | null => exact hbelow h
  | bool b => exact hbelow h
  | int n => exact hbelow h
  | float m e => exact hbelow h
  | arr js => exact hbelow h

/-- Between strings the scanner does not read on where it stops. -/
theorem eq_nil_of_stopsAt {r : Text} (hr : StopsAt r) {d : ℕ} {ts : List Json.Token}
    {τ : ℕ × Json.Mode} (h : Json.Lexes (d, .out) r ts τ) : r = [] := by
  rcases hr with rfl | hr
  · rfl
  · cases r with
    | nil => rfl
    | cons c r =>
      obtain ⟨us, vs, τ', hstep, -, -⟩ := Json.lexes_cons.mp h
      have hnone : Json.lexStep (d, .out) c = none := by
        rcases hr with hr | hr <;> obtain rfl := Option.some.inj hr <;> rfl
      cases hnone.symm.trans hstep

/-- A literal that the scanner from the other side of the quote reads between strings is not
`name`. -/
theorem not_decodes_name {kt : Text} (h : Json.Decodes kt "name".toList)
    (hmarks : ∀ c ∈ kt, Json.isMark c = true) : False := by
  rcases h.eq_or_lt with ⟨rfl, -⟩ | ⟨hslash, -⟩
  · exact absurd (hmarks 'm' (by decide)) (by decide)
  · exact absurd (hmarks '\\' hslash) (by decide)

/-- No call is read from a block that starts behind a tag which a scanner passes. -/
theorem no_call_behind_tag {σ τ : ℕ × Json.Mode} {t a c r name : Text} {us ts : List Json.Token}
    (hwhole : Json.Lexes σ (t ++ (toolCallStart ++ (a ++ (c ++ r)))) us τ)
    (hquote : '"' ∉ a) (hslash : '\\' ∉ a) (hlex : Json.Lexes (0, .out) c ts (0, .out))
    (hname : Json.ReportsMember 1 "name".toList name ts) : False := by
  obtain ⟨_, _, ⟨d, m⟩, -, hrest, -⟩ := Json.lexes_append.mp hwhole
  -- the opening tag stands in a string
  obtain ⟨b, hb⟩ : ∃ b, ∀ υ vs, Json.Lexes (d, m) (toolCallStart ++ (a ++ (c ++ r))) vs υ →
      ∃ ws, Json.Lexes (d, .str b) (c ++ r) ws υ := by
    have hstart : toolCallStart = '<' :: toolCallStart.tail := rfl
    have hplain : ∀ b, Json.Lexes (d, .str b) (toolCallStart.tail ++ a) []
        (d, .str (b ++ (toolCallStart.tail ++ a))) := fun b =>
      Json.lexes_plain (by rw [List.mem_append]; exact not_or.mpr ⟨by decide, hquote⟩)
        (by rw [List.mem_append]; exact not_or.mpr ⟨by decide, hslash⟩) d b
    have hafter : ∀ b, m = .str b ∨ m = .esc b → ∀ υ vs,
        Json.Lexes (d, m) (toolCallStart ++ (a ++ (c ++ r))) vs υ →
          ∃ ws, Json.Lexes (d, .str (b ++ ['<'] ++ (toolCallStart.tail ++ a))) (c ++ r) ws υ := by
      intro b hm υ vs h
      have hstep : Json.lexStep (d, m) '<' = some ([], d, .str (b ++ ['<'])) := by
        rcases hm with rfl | rfl <;> rfl
      rw [hstart, List.cons_append, ← List.append_assoc] at h
      obtain ⟨us, vs, τ, hstep', hlex, -⟩ := Json.lexes_cons.mp h
      obtain ⟨rfl, rfl⟩ := Prod.mk.inj (Option.some.inj (hstep.symm.trans hstep'))
      obtain ⟨us', vs', τ', hlex', hlex, -⟩ := Json.lexes_append.mp hlex
      obtain ⟨rfl, rfl⟩ := hlex'.functional (hplain _)
      exact ⟨vs', hlex⟩
    cases m with
    | out =>
      rw [hstart, List.cons_append] at hrest
      obtain ⟨us, vs, τ, hstep, -, -⟩ := Json.lexes_cons.mp hrest
      cases hstep
    | str b => exact ⟨_, hafter b (Or.inl rfl)⟩
    | esc b => exact ⟨_, hafter b (Or.inr rfl)⟩
  obtain ⟨ws, hcr⟩ := hb _ _ hrest
  obtain ⟨_, _, τ, hc, -, -⟩ := Json.lexes_append.mp hcr
  obtain ⟨-, hmarks⟩ := hlex.swapped hc (.out b)
  obtain ⟨kt, vt, hin, hkt, -⟩ := hname
  exact not_decodes_name hkt (hmarks 1 kt (hin.subset (by simp)))

/-- No call is read from a block that starts in the arguments. -/
theorem no_call_in_arguments {v : Json} (hv : Json.WellFormed v) {t a c r name : Text}
    {ts : List Json.Token}
    (htext : callMiddle ++ (Json.dumpAt .compact 0 v ++ "\x7d\n".toList) =
      t ++ (toolCallStart ++ (a ++ (c ++ r))))
    (hquote : '"' ∉ a) (hslash : '\\' ∉ a) (hlex : Json.Lexes (0, .out) c ts (0, .out))
    (hname : Json.ReportsMember 1 "name".toList name ts) : False := by
  obtain ⟨us, htail, -⟩ := lexes_arguments hv 0
  have hwhole := (lexes_callMiddle 1 []).append htail
  rw [htext] at hwhole
  exact no_call_behind_tag hwhole hquote hslash hlex hname

theorem decodes_arguments : Json.Decodes "arguments".toList "arguments".toList := fun _ => rfl

theorem StopsAt.head_not_mem {c : Char} {r s : Text} (h : StopsAt (c :: r)) (hc : c ∈ s) :
    Char.ofNat 0 ∈ s ∨ '<' ∈ s := by
  rcases h with h | h | h
  · cases h
  · exact Or.inl (Option.some.inj h ▸ hc)
  · exact Or.inr (Option.some.inj h ▸ hc)

/-- A text that is scanned and reports a name either ends before the arguments, or holds them
whole; then the name is reported before them. -/
theorem block_cases {v : Json} (hv : Json.WellFormed v) {p c r kt vt : Text}
    {ts : List Json.Token}
    (htext : c ++ r = p ++ (callMiddle ++ (Json.dumpAt .compact 0 v ++ "\x7d\n".toList)))
    (hr : StopsAt r) (hlex : Json.Lexes (0, .out) c ts (0, .out))
    (hin : [.lit 1 kt, .colon, .lit 1 vt] <:+: ts) (hkt : Json.Decodes kt "name".toList) :
    (∃ p', p = c ++ p' ∧
      r = p' ++ (callMiddle ++ (Json.dumpAt .compact 0 v ++ "\x7d\n".toList))) ∨
    (r = [] ∧ ∃ us, Json.Lexes (0, .out) (p ++ ['"']) us (1, .out) ∧
      [.lit 1 kt, .colon, .lit 1 vt] <:+: us) := by
  rcases List.append_eq_append_iff.mp htext with ⟨p', hp, hr'⟩ | ⟨c', rfl, htail⟩
  · exact Or.inl ⟨p', hp, hr'⟩
  right
  obtain ⟨c', rfl, hrest⟩ : ∃ c'', c' = callMiddle ++ c'' ∧
      Json.dumpAt .compact 0 v ++ "\x7d\n".toList = c'' ++ r := by
    rcases List.append_eq_append_iff.mp htail with ⟨c'', hc, hrest⟩ | ⟨m, hmiddle, hr'⟩
    · exact ⟨c'', hc, hrest⟩
    · cases m with
      | nil =>
        rw [List.append_nil] at hmiddle
        exact ⟨[], by rw [hmiddle, List.append_nil], hr'.symm⟩
      | cons b m =>
        -- the scanner does not stop within the fixed text
        rw [hr', List.cons_append] at hr
        rcases hr.head_not_mem (s := callMiddle) (by rw [hmiddle]; simp) with h | h
        · exact absurd h (by decide)
        · exact absurd h (by decide)
  obtain ⟨ts1, _, ⟨d, m⟩, hp, hlater, rfl⟩ := Json.lexes_append.mp hlex
  obtain ⟨ts2, ts3, τ, hmiddle, hargs, rfl⟩ := Json.lexes_append.mp hlater
  obtain ⟨b, rfl⟩ := str_of_lexes_callMiddle hmiddle
  obtain ⟨rfl, rfl⟩ := hmiddle.functional (lexes_callMiddle d b)
  -- the arguments are read to their end
  obtain ⟨_, hwhole, -⟩ := lexes_arguments hv d
  rw [hrest] at hwhole
  obtain ⟨_, hdeep⟩ := hargs.deeper
  obtain ⟨_, _, τ, hargs', hr', -⟩ := Json.lexes_append.mp hwhole
  obtain ⟨-, rfl⟩ := hargs'.functional hdeep
  obtain rfl := eq_nil_of_stopsAt hr hr'
  obtain ⟨-, heq⟩ := Prod.mk.inj (Option.some.inj hr')
  obtain ⟨rfl, -⟩ := Prod.mk.inj heq
  obtain ⟨ts', hargs', hreports⟩ := lexes_arguments hv 0
  rw [hrest, List.append_nil] at hargs'
  obtain ⟨rfl, -⟩ := hargs.functional hargs'
  have hclose : Json.Lexes (1, .str b) ['"'] [.lit 1 b] (1, .out) := rfl
  refine ⟨rfl, ts1 ++ [.lit 1 b], hp.append hclose, ?_⟩
  -- behind the comma only the arguments are reported
  have hsplit : ts1 ++ ([.lit 1 b, .comma, .lit 1 "arguments".toList, .colon] ++ ts3) =
      (ts1 ++ [.lit 1 b]) ++ .comma :: (.lit 1 "arguments".toList :: .colon :: ts3) := by simp
  rw [hsplit, Text.infix_append_cons_iff (by simp)] at hin
  refine hin.resolve_right fun hin => ?_
  rcases List.infix_cons_iff.mp hin with ⟨_, hprefix⟩ | hin
  · obtain ⟨-, rfl⟩ := Json.Token.lit.inj (List.cons.inj hprefix).1
    exact absurd (hkt.functional decodes_arguments) (by decide)
  · rcases List.infix_cons_iff.mp hin with ⟨_, hprefix⟩ | hin
    · cases (List.cons.inj hprefix).1
    · exact not_infix_reports hreports kt vt hin

/-- A literal is shorter than the text it is reported of. -/
theorem length_lit {d e : ℕ} {s t : Text} {ts : List Json.Token} {τ : ℕ × Json.Mode}
    (h : Json.Lexes (d, .out) s ts τ) (ht : .lit e t ∈ ts) : t.length + 2 ≤ s.length := by
  obtain ⟨a, b, heq⟩ := h.literal ht
  have hlen := congrArg List.length heq
  simp only [Json.Mode.pending, List.nil_append, List.length_append, List.length_cons] at hlen
  omega

/-- In a string, too, unless it is the rest of the string. -/
theorem length_lit_str {d e : ℕ} {s t : Text} {ts : List Json.Token} {τ : ℕ × Json.Mode}
    (h : Json.Lexes (d, .str []) s ts τ) (ht : .lit e t ∈ ts) :
    s = t ++ ['"'] ∨ t.length + 1 < s.length := by
  obtain ⟨a, b, heq⟩ := h.literal ht
  have hlen := congrArg List.length heq
  simp only [Json.Mode.pending, List.length_append, List.length_cons, List.length_nil] at hlen
  rcases Nat.eq_zero_or_pos (a.length + b.length) with hzero | hpos
  · obtain rfl := List.length_eq_zero_iff.mp (Nat.add_eq_zero_iff.mp hzero).1
    obtain rfl := List.length_eq_zero_iff.mp (Nat.add_eq_zero_iff.mp hzero).2
    exact Or.inl (List.cons.inj heq).2
  · exact Or.inr (by omega)

/-- Behind two tokens that are reported first, the third of three comes later. -/
theorem mem_of_within {x y z a b : Json.Token} {ts : List Json.Token}
    (h : [x, y, z] <:+: a :: b :: ts) : z ∈ ts := by
  rcases List.infix_cons_iff.mp h with ⟨t, ht⟩ | h
  · simp only [List.cons_append, List.cons.injEq] at ht
    rw [← ht.2.2]
    simp
  · rcases List.infix_cons_iff.mp h with ⟨t, ht⟩ | h
    · simp only [List.cons_append, List.cons.injEq] at ht
      rw [← ht.2]
      simp
    · exact h.subset (by simp)

/-- A block that starts behind a tag in the name ends in it, or its name does. -/
theorem shorter_of_later {v : Json} (hv : Json.WellFormed v) {p c r name' : Text}
    {ts : List Json.Token}
    (htext : c ++ r = p ++ (callMiddle ++ (Json.dumpAt .compact 0 v ++ "\x7d\n".toList)))
    (hr : StopsAt r) (hlex : Json.Lexes (0, .out) c ts (0, .out))
    (hname : Json.ReportsMember 1 "name".toList name' ts) : name'.length < p.length := by
  obtain ⟨kt, vt, hin, hkt, hvt⟩ := hname
  have hle := hvt.length_le
  rcases block_cases hv htext hr hlex hin hkt with ⟨p', rfl, -⟩ | ⟨-, us, hus, hin⟩
  · have := length_lit hlex (hin.subset (List.mem_of_getLast? rfl))
    rw [List.length_append]
    omega
  · have := length_lit hus (hin.subset (List.mem_of_getLast? rfl))
    rw [List.length_append, List.length_singleton] at this
    omega

/-- The first block ends in the name, or it is the whole text and its name the literal. -/
theorem shorter_of_first {v : Json} (hv : Json.WellFormed v) {name c r name' : Text}
    {ts : List Json.Token}
    (htext : c ++ r = callHead ++ name ++
      (callMiddle ++ (Json.dumpAt .compact 0 v ++ "\x7d\n".toList)))
    (hr : StopsAt r) (hlex : Json.Lexes (0, .out) c ts (0, .out))
    (hname : Json.ReportsMember 1 "name".toList name' ts) :
    name'.length < name.length ∨ (r = [] ∧ name' = name ∧ ∀ c ∈ name, Json.Plain c) := by
  obtain ⟨kt, vt, hin, hkt, hvt⟩ := hname
  have hle := hvt.length_le
  rcases block_cases hv htext hr hlex hin hkt with ⟨p', hp, hr'⟩ | ⟨hnil, us, hus, hin⟩
  · left
    rcases List.append_eq_append_iff.mp hp with ⟨n, rfl, rfl⟩ | ⟨h, hhead, hp'⟩
    · obtain ⟨ts1, ts2, τ, hhead, hrest, rfl⟩ := Json.lexes_append.mp hlex
      obtain ⟨rfl, rfl⟩ := hhead.functional lexes_callHead
      have := length_lit_str hrest (mem_of_within hin)
      rw [List.length_append]
      rcases this with rfl | hlt
      · rw [List.length_append, List.length_singleton]
        omega
      · omega
    · cases h with
      | nil =>
        rw [List.append_nil] at hhead
        obtain ⟨rfl, -⟩ := hlex.functional (hhead ▸ lexes_callHead)
        exact absurd (mem_of_within hin) List.not_mem_nil
      | cons b h =>
        -- the scanner does not stop within the fixed text
        rw [hr', hp', List.cons_append, List.cons_append] at hr
        rcases hr.head_not_mem (s := callHead) (by rw [hhead]; simp) with h | h
        · exact absurd h (by decide)
        · exact absurd h (by decide)
  · rw [List.append_assoc] at hus
    obtain ⟨ts1, ts2, τ, hhead, hrest, rfl⟩ := Json.lexes_append.mp hus
    obtain ⟨rfl, rfl⟩ := hhead.functional lexes_callHead
    rcases length_lit_str hrest (mem_of_within hin) with heq | hlt
    · obtain rfl := List.append_cancel_right heq
      rcases hvt.eq_or_lt with ⟨rfl, hplain⟩ | ⟨-, hlt⟩
      · exact Or.inr ⟨hnil, rfl, hplain⟩
      · exact Or.inl hlt
    · rw [List.length_append, List.length_singleton] at hlt
      exact Or.inl (by omega)

/-- The text of a call starts with a brace on the second line. -/
theorem bom_not_first {name args ws b r : Text} (hws : ws.all Json.isWs = true) :
    callText name args ≠ ws ++ Char.ofNat 0xEF :: b ++ r := by
  intro h
  have hhead : callText name args = '\n' :: '\x7b' :: (callText name args).tail.tail := rfl
  rw [hhead] at h
  match ws with
  | [] => exact absurd (List.cons.inj h).1 (by decide)
  | [_] => exact absurd (List.cons.inj (List.cons.inj h).2).1 (by decide)
  | _ :: c :: _ =>
    obtain rfl := (List.cons.inj (List.cons.inj h).2).1
    exact absurd (List.all_eq_true.mp hws '\x7b' (by simp)) (by decide)

/-- **A call that is read from the block of a call** has a shorter name, unless the block is whole
and the name plain. -/
theorem shorter_of_callText {v : Json} (hv : Json.WellFormed v) {name name' raw : Text}
    {args' : Json} (hraw : raw ∈ callBlocks name (Json.dumpAt .compact 0 v))
    (hcall : qwenCall raw = some (some (name', args'))) :
    name'.length < name.length ∨
      (¬ toolCallEnd <:+: callText name (Json.dumpAt .compact 0 v) ∧ name' = name ∧
        ∀ c ∈ name, Json.Plain c) := by
  obtain ⟨a0, c0, htext, ha0, hc0, hend⟩ := mem_tagged hraw
  obtain ⟨a, c, r, rfl, hquote, hslash, ha, hr, ts, hlex, hname⟩ := scanned_of_qwenCall hcall
  have hstops : StopsAt (r ++ c0) := by
    rcases hr with rfl | hr
    · rcases hc0 with rfl | ⟨t, rfl⟩
      · exact Or.inl rfl
      · exact Or.inr (Or.inr rfl)
    · exact Or.inr (Or.inl (by rw [List.head?_append, hr]; rfl))
  rcases ha0 with rfl | ⟨a1, rfl⟩
  · -- the first block starts with the fixed text
    rcases ha with rfl | ⟨ws, b, rfl, hws⟩
    · have hfirst : c ++ (r ++ c0) = callHead ++ name ++
          (callMiddle ++ (Json.dumpAt .compact 0 v ++ "\x7d\n".toList)) := by
        rw [callText] at htext
        simpa using htext.symm
      rcases shorter_of_first hv hfirst hstops hlex hname with hlt | ⟨hnil, heq, hplain⟩
      · exact Or.inl hlt
      · obtain ⟨rfl, rfl⟩ := List.append_eq_nil_iff.mp hnil
        refine Or.inr ⟨?_, heq, hplain⟩
        rw [htext]
        simpa using hend
    · exact absurd (htext.trans (by simp)) (bom_not_first (b := b) (r := c ++ (r ++ c0)) hws)
  · left
    have hsplit : (callHead ++ name) ++
        (callMiddle ++ (Json.dumpAt .compact 0 v ++ "\x7d\n".toList)) =
          (a1 ++ (toolCallStart ++ a)) ++ (c ++ (r ++ c0)) := by
      rw [callText] at htext
      simpa using htext
    rcases List.append_eq_append_iff.mp hsplit with ⟨t, hprefix, htail⟩ | ⟨p, hprefix, htail⟩
    · -- the block starts in the arguments, or with them
      rcases List.append_eq_append_iff.mp hprefix with ⟨x, -, htag⟩ | ⟨x, -, ht⟩
      · cases t with
        | nil =>
          have hlt := shorter_of_later (p := []) (c := c) hv htail.symm hstops hlex hname
          exact absurd hlt (Nat.not_lt_zero _)
        | cons q t =>
          obtain rfl : '"' = q := (List.cons.inj htail).1
          have hmem : '"' ∈ toolCallStart ++ a := by
            rw [htag]
            simp
          exact absurd (List.mem_append.mp hmem) (not_or.mpr ⟨by decide, hquote⟩)
      · rw [ht] at htail
        exact (no_call_in_arguments hv (by simpa using htail) hquote hslash hlex hname).elim
    · have hlt := shorter_of_later hv htail hstops hlex hname
      suffices hp : p.length ≤ name.length by omega
      -- a tag does not stand in the fixed text
      rcases List.append_eq_append_iff.mp hprefix with ⟨x, -, hname⟩ | ⟨x, hhead, -⟩
      · rw [hname, List.length_append]
        omega
      · have hstart : '<' ∈ toolCallStart := by decide
        have hmem : '<' ∈ callHead := by
          rw [hhead]
          simp [hstart]
        exact absurd hmem (by decide)

/-! ### A plain name is read back -/

theorem decodes_name : Json.Decodes "name".toList "name".toList := fun _ => rfl

theorem callMiddle_append (s : Text) : callMiddle ++ s =
    '"' :: ',' :: ([' '] ++ '"' :: ("arguments".toList ++ '"' ::
      ([] ++ ':' :: ([' '] ++ s)))) := rfl

/-- The members of a call. -/
theorem parseMembers_call {name : Text} {v : Json} (hv : Json.WellFormed v)
    (hplain : ∀ c ∈ name, Json.Plain c) (hvalid : Utf8.valid name = true) {n : ℕ}
    (hlen : (Json.dumpAt .compact 0 v).length ≤ n) :
    Json.parseMembers (n + 3) ([] ++ '"' :: ("name".toList ++ '"' :: ([] ++ ':' :: ([' '] ++
      '"' :: (name ++ (callMiddle ++ (Json.dumpAt .compact 0 v ++ ['\x7d']))))))) =
      some ([("name".toList, .str name), ("arguments".toList, v)], []) := by
  have hargs := (Json.reads .compact n).1 0 v [' '] ['\x7d'] hv rfl hlen
    (Json.Delimited.cons (Or.inr (Or.inr rfl)) [])
  rw [List.append_assoc] at hargs
  have hlast := Json.parseMembers_last (u := [' ']) (w := []) rfl rfl decodes_arguments hargs
    (Json.skipWs_cons rfl [])
  have hvalue := Json.parseValue_literal (n := n + 1) (u := [' ']) rfl
    (Json.decodes_of_plain hplain hvalid) (',' :: ([' '] ++ '"' :: ("arguments".toList ++ '"' ::
      ([] ++ ':' :: ([' '] ++ (Json.dumpAt .compact 0 v ++ ['\x7d']))))))
  rw [callMiddle_append, Json.parseMembers_next (u := []) (w := []) rfl rfl decodes_name hvalue
    (Json.skipWs_cons rfl _), hlast]
  rfl

/-- The text of a call without the newlines at its ends. -/
def callObject (name args : Text) : Text :=
  '\x7b' :: ([] ++ '"' :: ("name".toList ++ '"' :: ([] ++ ':' :: ([' '] ++
    '"' :: (name ++ (callMiddle ++ (args ++ ['\x7d'])))))))

theorem trim_callText (name args : Text) :
    Text.trim Json.isWs (callText name args) = callObject name args := by
  have htext : callText name args = '\n' :: (callObject name args ++ ['\n']) := by
    have hhead : callHead = '\n' :: '\x7b' :: '"' ::
        ("name".toList ++ '"' :: ':' :: ' ' :: ['"']) := by decide
    have hend : "\x7d\n".toList = ['\x7d', '\n'] := by decide
    rw [callText, hhead, hend, callObject]
    simp only [List.cons_append, List.append_assoc, List.nil_append]
  have hlast : callObject name args = '\x7b' :: ('"' :: ("name".toList ++ '"' :: ':' :: ' ' ::
      '"' :: (name ++ (callMiddle ++ args)))) ++ ['\x7d'] := by
    rw [callObject]
    simp only [List.cons_append, List.append_assoc, List.nil_append]
  have hdrop : (callText name args).dropWhile Json.isWs = callObject name args ++ ['\n'] := by
    rw [htext, callObject]
    rfl
  rw [Text.trim, hdrop, List.rdropWhile_concat_pos _ _ _ (by decide), hlast,
    List.rdropWhile_concat_neg _ _ _ (by decide)]

theorem parse_callObject {name : Text} {v : Json} (hv : Json.WellFormed v)
    (hplain : ∀ c ∈ name, Json.Plain c) (hvalid : Utf8.valid name = true) :
    Json.parse (callObject name (Json.dumpAt .compact 0 v)) =
      some (.obj [("arguments".toList, v), ("name".toList, .str name)]) := by
  obtain ⟨n, hn, hlen⟩ : ∃ n, (callObject name (Json.dumpAt .compact 0 v)).length = n + 3 ∧
      (Json.dumpAt .compact 0 v).length ≤ n := by
    refine ⟨(callObject name (Json.dumpAt .compact 0 v)).length - 3, ?_⟩
    have hmiddle : callMiddle.length = 16 := rfl
    simp only [callObject, List.length_cons, List.length_append]
    omega
  have hbom : Json.skipBom (callObject name (Json.dumpAt .compact 0 v)) =
      callObject name (Json.dumpAt .compact 0 v) := rfl
  have hmembers := parseMembers_call hv hplain hvalid hlen
  have hvalue := Json.parseValue_brace (n := n + 3) (u := []) rfl
    (r := (callObject name (Json.dumpAt .compact 0 v)).tail) (c := '"') rfl (by decide)
  have hobject : Json.parseValue (n + 3 + 1) (callObject name (Json.dumpAt .compact 0 v)) =
      some (.obj [("arguments".toList, v), ("name".toList, .str name)], []) :=
    hvalue.trans (congrArg (Option.map _) hmembers)
  rw [Json.parse, hbom, hn, hobject]
  rfl

/-- **A plain name is read back** with its arguments. -/
theorem qwenCall_callText {name : Text} {v : Json} (hv : Json.WellFormed v) (hne : name ≠ [])
    (hplain : ∀ c ∈ name, Json.Plain c) (hvalid : Utf8.valid name = true) :
    qwenCall (callText name (Json.dumpAt .compact 0 v)) =
      some (some (name, qwenArguments (some v))) := by
  have hname : (Json.obj [("arguments".toList, v), ("name".toList, .str name)]).value
      Json.getString "name".toList [] = some name := rfl
  rw [qwenCall, trim_callText, parse_callObject hv hplain hvalid]
  simp only [hname, Option.bind_eq_bind, Option.bind_some, if_neg hne]
  rfl

end Llamaste
