import Llamaste.CallDerivation
import Llamaste.CallReplay

/-!
# The retry under the grammar

A text that the grammar of tool calls derives is read like any other output of the model: cut at
the tags, and each block parsed. It gives the derived calls unless a closing tag stands in a
string of the arguments, a surrogate stands alone, or a number is too large.

## Main results

* `whole_of_qwenCall`: a block that gives a call is the whole text between the tags.
* `parsesAsDerived_iff`: which derived texts give the derived calls.
-/

namespace Llamaste

/-! ### Blocks of a text that a scanner passes -/

/-- A text that a scanner passes does not start with a byte order mark. -/
theorem bom_not_lexed {ws b : Text} {ts : List Json.Token} {τ : ℕ × Json.Mode}
    (hws : ws.all Json.isWs = true) :
    ¬ Json.Lexes (0, .out) (ws ++ Char.ofNat 0xEF :: b) ts τ := by
  intro h
  obtain ⟨_, _, _, hfirst, hrest, -⟩ := Json.lexes_append.mp h
  obtain ⟨-, rfl⟩ := hfirst.functional (lexes_of_ws hws 0)
  obtain ⟨_, _, _, hstep, -, -⟩ := Json.lexes_cons.mp hrest
  have hnone : Json.lexStep (0, .out) (Char.ofNat 0xEF) = none := rfl
  cases hnone.symm.trans hstep

/-- **A block that gives a call is the whole text** between the tags, where a scanner comes
back from that text to where it was. -/
theorem whole_of_qwenCall {text raw : Text} (hclosed : Json.Closed text)
    (hraw : raw ∈ blocksOf (toolCallStart ++ text ++ toolCallEnd)) {call : Text × Json}
    (hcall : qwenCall raw = some (some call)) : raw = text ∧ ¬ toolCallEnd <:+: text := by
  obtain ⟨a₀, c₀, htext, ha₀, hc₀, hend⟩ := mem_tagged hraw
  obtain ⟨a, c, r, rfl, hquote, hslash, ha, hr, ts, hlex, hname⟩ := scanned_of_qwenCall hcall
  obtain ⟨us, hwhole⟩ := hclosed 0
  have hstops : StopsAt (r ++ c₀) := by
    rcases hr with rfl | hr
    · rcases hc₀ with rfl | ⟨t, rfl⟩
      · exact Or.inl rfl
      · exact Or.inr (Or.inr rfl)
    · exact Or.inr (Or.inl (by rw [List.head?_append, hr]; rfl))
  rcases ha₀ with rfl | ⟨t, rfl⟩
  · rw [List.nil_append] at htext
    rcases ha with rfl | ⟨ws, b, rfl, hws⟩
    · -- behind the object the scanner stands between strings, and stops
      rw [htext, List.nil_append, List.append_assoc] at hwhole
      obtain ⟨_, _, _, hobject, hrest, -⟩ := Json.lexes_append.mp hwhole
      obtain ⟨-, rfl⟩ := hobject.functional hlex
      obtain ⟨rfl, rfl⟩ := List.append_eq_nil_iff.mp (eq_nil_of_stopsAt hstops hrest)
      rw [List.append_nil] at htext
      exact ⟨htext.symm, htext ▸ hend⟩
    · rw [htext, List.append_assoc, List.append_assoc, List.cons_append] at hwhole
      exact absurd hwhole (bom_not_lexed hws)
  · have hsplit : text = t ++ (toolCallStart ++ (a ++ (c ++ (r ++ c₀)))) := by
      rw [htext]
      simp
    rw [hsplit] at hwhole
    exact (no_call_behind_tag hwhole hquote hslash hlex hname).elim

/-! ### The text of a derived call -/

section

variable {names : List Text}

/-- The text of a call between its tags. -/
def DerivedCall.inner (c : DerivedCall names) : Text := '\n' :: (c.object ++ ['\n'])

theorem DerivedCall.text_tagged (c : DerivedCall names) :
    c.text = toolCallStart ++ c.inner ++ toolCallEnd ++ c.after.1 := by
  have hopen : "<tool_call>\n".toList = toolCallStart ++ ['\n'] := by decide
  have hclose : "\n</tool_call>".toList = '\n' :: toolCallEnd := by decide
  rw [DerivedCall.text_eq, hopen, hclose, DerivedCall.inner]
  simp only [List.append_assoc, List.cons_append, List.nil_append]

theorem closed_quoted {s : Text} (hquote : '"' ∉ s) (hslash : '\\' ∉ s) :
    Json.Closed ('"' :: (s ++ ['"'])) := by
  intro d
  have hopen : Json.Lexes (d, .out) ['"'] [] (d, .str []) := rfl
  have hclose : Json.Lexes (d, .str ([] ++ s)) ['"'] [.lit d ([] ++ s)] (d, .out) := rfl
  exact ⟨_, hopen.append ((Json.lexes_plain hquote hslash d []).append hclose)⟩

theorem IsToolName.plain {name : Text} (h : IsToolName name) : ∀ c ∈ name, Json.Plain c := by
  intro c hc
  obtain ⟨hquote, hslash, -, -⟩ := ne_of_isToolNameChar (h c hc)
  refine ⟨hquote, hslash, fun hlow => ?_⟩
  have hall : ∀ n < 0x20, ((Char.ofNat n).isAlphanum || "._-".toList.contains (Char.ofNat n)) =
      false := by decide
  have hfalse := hall c.toNat hlow
  rw [Char.ofNat_toNat, h c hc] at hfalse
  cases hfalse

theorem IsToolName.ascii {name : Text} (h : IsToolName name) : ∀ c ∈ name, c.toNat < 0x80 := by
  intro c hc
  rcases Bool.or_eq_true_iff.mp (h c hc) with hc | hc
  · simp [Char.isAlphanum, Char.isAlpha, Char.isUpper, Char.isLower, Char.isDigit,
      UInt32.le_iff_toNat_le] at hc
    omega
  · have hall : ∀ c ∈ "._-".toList, c.toNat < 0x80 := by decide
    exact hall c (List.contains_iff_mem.mp hc)

theorem DerivedCall.closed_inner (c : DerivedCall names) (h : IsToolName c.name) :
    Json.Closed c.inner := by
  have hname : Json.Closed (nameLiteral c.name) :=
    closed_quoted (fun hc => (h.plain _ hc).1 rfl) fun hc => (h.plain _ hc).2.1 rfl
  have hfixed : ∀ s ∈ ["name".toList, "arguments".toList], Json.Closed ('"' :: (s ++ ['"'])) := by
    intro s hs
    refine closed_quoted ?_ ?_ <;> revert s <;> decide
  have hobject := Json.Closed.brackets (Or.inl rfl) (Or.inl rfl) <|
    (Json.closed_blank c.ws₁).append <| (hfixed "name".toList (by simp)).append <|
    (Json.closed_blank c.ws₂).append <| Json.closed_colon.append <|
    (Json.closed_blank c.ws₃).append <| hname.append <|
    (Json.closed_blank c.ws₄).append <| Json.closed_comma.append <|
    (Json.closed_blank c.ws₅).append <| (hfixed "arguments".toList (by simp)).append <|
    (Json.closed_blank c.ws₆).append <| Json.closed_colon.append <|
    (Json.closed_blank c.ws₇).append <| c.arguments.closed.append (Json.closed_blank c.ws₈)
  have hnewline : Json.Closed ['\n'] := Json.closed_filler (by decide)
  rw [← c.object_eq] at hobject
  exact hnewline.append (hobject.append hnewline)

/-- The text of a call without the newlines is what is left when it is trimmed. -/
theorem DerivedCall.trim_inner (c : DerivedCall names) :
    Text.trim Json.isWs c.inner = c.object := by
  have hobject := c.object_eq
  generalize c.ws₁.1 ++ _ = t at hobject
  have hdrop : c.inner.dropWhile Json.isWs = c.object ++ ['\n'] := by
    rw [DerivedCall.inner, hobject]
    rfl
  rw [Text.trim, hdrop, List.rdropWhile_concat_pos _ _ _ (by decide), hobject,
    List.rdropWhile_concat_neg _ _ _ (by decide)]

end

/-! ### What a derived call is read as -/

section

variable {names : List Text}

/-- The members of a derived call, up to the arguments. -/
theorem parseMembers_object (c : DerivedCall names) (h : IsToolName c.name) {n : ℕ}
    (hlen : c.arguments.text.length ≤ n) :
    Json.parseMembers (n + 3) ([] ++ '"' :: ("name".toList ++ '"' :: (c.ws₂.1 ++ ':' ::
      (c.ws₃.1 ++ '"' :: (c.name ++ '"' :: (c.ws₄.1 ++ ',' :: (c.ws₅.1 ++ '"' ::
        ("arguments".toList ++ '"' :: (c.ws₆.1 ++ ':' :: (c.ws₇.1 ++ (c.arguments.text ++
          (c.ws₈.1 ++ ['\x7d'])))))))))))) =
      c.arguments.json.map fun v =>
        ([("name".toList, .str c.name), ("arguments".toList, v)], []) := by
  have hvalid : Utf8.valid c.name = true := Utf8.valid_of_ascii h.ascii
  have hname := fun r => Json.parseValue_literal (n := n + 1) c.ws₃.2
    (Json.decodes_of_plain h.plain hvalid) r
  rw [Json.parseMembers_next (u := []) rfl c.ws₂.2 decodes_name (hname _)
    ((Json.skipWs_append c.ws₄.2 _).trans (Json.skipWs_cons rfl _))]
  have hdelim : Json.Delimited (c.ws₈.1 ++ ['\x7d']) :=
    (Json.Delimited.cons (Or.inr (Or.inr rfl)) []).append_ws c.ws₈.2
  have hargs := c.arguments.reads n c.ws₇.1 (c.ws₈.1 ++ ['\x7d']) c.ws₇.2 hlen hdelim
  cases hjson : c.arguments.json with
  | none =>
    have hnone : Json.parseValue (n + 1) (c.ws₇.1 ++ (c.arguments.text ++
        (c.ws₈.1 ++ ['\x7d']))) = none := hargs.trans (congrArg (Option.map _) hjson)
    rw [Json.parseMembers_none c.ws₅.2 c.ws₆.2 decodes_arguments hnone]
    rfl
  | some v =>
    have hsome : Json.parseValue (n + 1) (c.ws₇.1 ++ (c.arguments.text ++
        (c.ws₈.1 ++ ['\x7d']))) = some (v, c.ws₈.1 ++ ['\x7d']) :=
      hargs.trans (congrArg (Option.map _) hjson)
    rw [Json.parseMembers_last c.ws₅.2 c.ws₆.2 decodes_arguments hsome
      ((Json.skipWs_append c.ws₈.2 _).trans (Json.skipWs_cons rfl _))]
    rfl

/-- **The object of a derived call** is parsed exactly when its arguments have a value. -/
theorem parse_object (c : DerivedCall names) (h : IsToolName c.name) :
    Json.parse c.object = c.arguments.json.map fun v =>
      .obj [("arguments".toList, v), ("name".toList, .str c.name)] := by
  have hobject : c.object = '\x7b' :: (c.ws₁.1 ++ '"' :: ("name".toList ++ '"' :: (c.ws₂.1 ++
      ':' :: (c.ws₃.1 ++ '"' :: (c.name ++ '"' :: (c.ws₄.1 ++ ',' :: (c.ws₅.1 ++ '"' ::
        ("arguments".toList ++ '"' :: (c.ws₆.1 ++ ':' :: (c.ws₇.1 ++ (c.arguments.text ++
          (c.ws₈.1 ++ ['\x7d'])))))))))))) := by
    rw [c.object_eq, nameLiteral]
    simp only [List.cons_append, List.append_assoc, List.nil_append]
  obtain ⟨n, hn, hlen⟩ : ∃ n, c.object.length = n + 3 ∧ c.arguments.text.length ≤ n := by
    refine ⟨c.object.length - 3, ?_⟩
    rw [hobject]
    simp only [List.length_cons, List.length_append]
    omega
  have hmembers := parseMembers_object c h hlen
  have hbom : Json.skipBom c.object = c.object := by rw [hobject]; rfl
  have hbrace : Json.parseValue (n + 3 + 1) c.object = (c.arguments.json.map fun v =>
      (.obj [("arguments".toList, v), ("name".toList, .str c.name)], [])) := by
    rw [hobject]
    have hskip := fun t => (Json.skipWs_append c.ws₁.2 ('"' :: t)).trans
      (Json.skipWs_cons (show Json.isWs '"' = false from rfl) t)
    refine (Json.parseValue_brace (u := []) rfl (hskip _) (by decide)).trans ?_
    refine (congrArg (Option.map _) hmembers).trans ?_
    cases c.arguments.json <;> rfl
  rw [Json.parse, hbom, hn, hbrace]
  cases c.arguments.json <;> rfl

end

/-! ### A closing tag in a call -/

theorem end_not_within {s : Text} (h : '<' ∉ s) : ¬ toolCallEnd <:+: s := by
  have hmem : '<' ∈ toolCallEnd := by decide
  exact fun hin => h (hin.subset hmem)

theorem not_mem_end_of_ws {c : Char} (hc : Json.isWs c = true) : c ∉ toolCallEnd ∧ c ≠ '<' := by
  simp only [Json.isWs, Bool.or_eq_true, decide_eq_true_eq] at hc
  rcases hc with ((rfl | rfl) | rfl) | rfl <;> decide

theorem not_mem_blank (ws : Json.Blank) : '<' ∉ ws.1 := fun h =>
  (not_mem_end_of_ws (List.all_eq_true.mp ws.2 _ h)).2 rfl

theorem end_infix_append {s v : Text} (hfirst : ∀ c ∈ v.head?, c ∉ toolCallEnd) (h : '<' ∉ v) :
    toolCallEnd <:+: s ++ v ↔ toolCallEnd <:+: s := by
  cases v with
  | nil => rw [List.append_nil]
  | cons c v =>
    rw [Text.infix_append_cons_iff (hfirst c rfl)]
    exact or_iff_left (end_not_within fun hmem => h (List.mem_cons_of_mem _ hmem))

/-- A closing tag in a derived call stands in the arguments. -/
theorem infix_inner_iff {names : List Text} (c : DerivedCall names) (h : IsToolName c.name) :
    toolCallEnd <:+: c.inner ↔ toolCallEnd <:+: c.arguments.text := by
  obtain ⟨head, hhead, heq⟩ : ∃ head, '<' ∉ head ∧ c.inner = head ++ ':' ::
      (c.ws₇.1 ++ (c.arguments.text ++ (c.ws₈.1 ++ "\x7d\n".toList))) := by
    refine ⟨'\n' :: '\x7b' :: (c.ws₁.1 ++ ('"' :: ("name".toList ++ ['"']) ++ (c.ws₂.1 ++ ([':'] ++
      (c.ws₃.1 ++ (nameLiteral c.name ++ (c.ws₄.1 ++ ([','] ++ (c.ws₅.1 ++
        ('"' :: ("arguments".toList ++ ['"']) ++ c.ws₆.1)))))))))), ?_, ?_⟩
    · have hname : '<' ∉ nameLiteral c.name := by
        simp only [nameLiteral, List.mem_cons, List.mem_append, List.not_mem_nil, or_false, not_or]
        exact ⟨by decide, fun hc => (ne_of_isToolNameChar (h _ hc)).2.2.2 rfl, by decide⟩
      have hfixed : '<' ∉ '"' :: ("name".toList ++ ['"']) ∧
          '<' ∉ '"' :: ("arguments".toList ++ ['"']) := by decide
      have hchars : '<' ≠ '\n' ∧ '<' ≠ '\x7b' ∧ '<' ∉ [':'] ∧ '<' ∉ [','] := by decide
      simp only [List.mem_cons, List.mem_append] at hname hfixed hchars ⊢
      simp only [not_or] at hname hfixed hchars ⊢
      simp only [hname, hfixed, hchars, not_mem_blank, not_false_eq_true, and_self]
    · have hend : "\x7d\n".toList = ['\x7d', '\n'] := by decide
      rw [DerivedCall.inner, c.object_eq, hend]
      simp only [List.cons_append, List.append_assoc, List.nil_append]
  have hcolon : ':' ∉ toolCallEnd := by decide
  rw [heq, Text.infix_append_cons_iff hcolon, or_iff_right (end_not_within hhead),
    Text.infix_append_of_not_mem (a := '<') rfl (not_mem_blank c.ws₇), end_infix_append]
  · intro d hd
    have hbrace : '\x7d' ∉ toolCallEnd := by decide
    generalize c.ws₈ = ws₈ at hd
    obtain ⟨ws, hws⟩ := ws₈
    cases ws with
    | nil => exact Option.some.inj hd ▸ hbrace
    | cons w ws =>
      obtain rfl := Option.some.inj hd
      exact (not_mem_end_of_ws (List.all_eq_true.mp hws _ List.mem_cons_self)).1
  · have hend : '<' ∉ "\x7d\n".toList := by decide
    exact fun hmem => (List.mem_append.mp hmem).elim (not_mem_blank c.ws₈) hend

/-! ### Which derived texts give the derived calls -/

/-- The call has a name, no string of its arguments holds a closing tag, every surrogate in them
is half of a pair, and every number is finite. -/
structure DerivedCall.Sound {names : List Text} (c : DerivedCall names) : Prop where
  named : c.name ≠ []
  whole : ¬ toolCallEnd <:+: c.arguments.text
  arguments : c.arguments.Sound

section

variable {names : List Text}

/-- The name and the value of the arguments, where they have one. -/
def DerivedCall.call (c : DerivedCall names) : Option (Text × Json) :=
  c.arguments.json.map fun v => (c.name, v)

/-- The derived calls are read from the derived text: one for each, in order, with the name and
the arguments that are derived. -/
def ParsesAsDerived (d : CallDerivation names) : Prop :=
  ∃ calls, d.calls.mapM DerivedCall.call = some calls ∧
    ∀ counter, ∃ entries n, parseQwenToolCalls counter d.text = some (entries, n) ∧
      calledTools entries = some calls

def DerivedCall.blocks (c : DerivedCall names) : List Text :=
  blocksOf (toolCallStart ++ c.inner ++ toolCallEnd)

theorem blocksOf_text (c : DerivedCall names) (rest : Text) :
    blocksOf (c.text ++ rest) = c.blocks ++ blocksOf rest := by
  rw [c.text_tagged, List.append_assoc, blocksOf_append, blocksOf_ws c.after.2, DerivedCall.blocks]

theorem blocksOf_derivation (d : CallDerivation names) :
    blocksOf d.text = d.calls.flatMap DerivedCall.blocks := by
  have hrest : ∀ l : List (Json.Blank × DerivedCall names),
      blocksOf (l.flatMap fun r => r.1.1 ++ r.2.text) =
        (l.map Prod.snd).flatMap DerivedCall.blocks := by
    intro l
    induction l with
    | nil => rfl
    | cons r l ih =>
      rw [List.flatMap_cons, List.append_assoc, blocksOf_ws r.1.2, blocksOf_text, ih,
        List.map_cons, List.flatMap_cons]
  rw [CallDerivation.text, blocksOf_text, hrest, CallDerivation.calls, List.flatMap_cons]

/-- The value of an object is one. -/
theorem isObject_json {o : Json.Object} {v : Json} (h : o.json = some v) : v.isObject = true := by
  cases o with
  | empty ws => exact Option.some.inj h ▸ rfl
  | members ws key ws₁ ws₂ v rest ws' =>
    rw [Json.Object.json] at h
    obtain ⟨k, -, h⟩ := Option.bind_eq_some_iff.mp h
    obtain ⟨j, -, h⟩ := Option.bind_eq_some_iff.mp h
    obtain ⟨ms, -, rfl⟩ := Option.map_eq_some_iff.mp h
    rfl

/-- **A sound call is read as it is derived.** -/
theorem blockCalls_of_sound {c : DerivedCall names} (hname : IsToolName c.name) (h : c.Sound) :
    ∃ call, c.call = some call ∧ blockCalls c.blocks = some [call] := by
  obtain ⟨v, hv⟩ := Option.isSome_iff_exists.mp (c.arguments.isSome_json.mpr h.arguments)
  refine ⟨(c.name, v), by rw [DerivedCall.call, hv]; rfl, ?_⟩
  have hwhole : ¬ toolCallEnd <:+: c.inner := mt (infix_inner_iff c hname).mp h.whole
  have hvalue : (Json.obj [("arguments".toList, v), ("name".toList, .str c.name)]).value
      Json.getString "name".toList [] = some c.name := rfl
  have hargs : qwenArguments (some v) = v := by
    cases v with
    | obj members => rfl
    | _ => cases isObject_json hv
  have hcall : qwenCall c.inner = some (some (c.name, v)) := by
    rw [qwenCall, c.trim_inner, parse_object c hname, hv]
    simp only [Option.map_some, hvalue, Option.bind_eq_bind, Option.bind_some, if_neg h.named]
    exact congrArg (fun a => some (some (c.name, a))) hargs
  rw [DerivedCall.blocks, blocksOf_tagged hwhole, blockCalls_cons, hcall]
  rfl

/-- **No call is read from a call that is not sound.** -/
theorem blockCalls_of_not_sound {c : DerivedCall names} (hname : IsToolName c.name)
    (h : ¬ c.Sound) {calls : List (Text × Json)} (hcalls : blockCalls c.blocks = some calls) :
    calls = [] := by
  refine List.eq_nil_iff_forall_not_mem.mpr fun call hcall => h ?_
  obtain ⟨raw, hraw, hread⟩ := mem_blockCalls hcalls hcall
  obtain ⟨rfl, hwhole⟩ := whole_of_qwenCall (c.closed_inner hname) hraw hread
  obtain ⟨members, hparse, hmember, hne, -⟩ := name_of_qwenCall hread
  rw [c.trim_inner, parse_object c hname] at hparse
  obtain ⟨v, hv, heq⟩ := Option.map_eq_some_iff.mp hparse
  obtain rfl := Json.obj.inj heq
  refine ⟨?_, mt (infix_inner_iff c hname).mpr hwhole, c.arguments.isSome_json.mp (by rw [hv]; rfl)⟩
  have hcname : call.1 = c.name := by
    rcases List.mem_cons.mp hmember with heq | hmember
    · exact absurd (Prod.mk.inj heq).1 (by decide)
    · exact Json.str.inj (Prod.mk.inj (List.mem_singleton.mp hmember)).2
  exact hcname ▸ hne

end

section

variable {names : List Text}

/-- Sound calls are all read. -/
theorem blockCalls_of_all_sound {calls : List (DerivedCall names)}
    (hnames : ∀ name ∈ names, IsToolName name) (h : ∀ c ∈ calls, c.Sound) :
    ∃ read, calls.mapM DerivedCall.call = some read ∧
      blockCalls (calls.flatMap DerivedCall.blocks) = some read := by
  induction calls with
  | nil => exact ⟨[], rfl, rfl⟩
  | cons c calls ih =>
    obtain ⟨hc, hcalls⟩ := List.forall_mem_cons.mp h
    obtain ⟨call, hcall, hblocks⟩ := blockCalls_of_sound (hnames _ c.known) hc
    obtain ⟨read, hread, hrest⟩ := ih hcalls
    refine ⟨call :: read, ?_, ?_⟩
    · rw [List.mapM_cons, hcall, hread]
      rfl
    · rw [List.flatMap_cons, blockCalls_append, hblocks, hrest]
      rfl

/-- No more calls are read than there are, and fewer where one is not sound. -/
theorem length_blockCalls {calls : List (DerivedCall names)} {read : List (Text × Json)}
    (hnames : ∀ name ∈ names, IsToolName name)
    (h : blockCalls (calls.flatMap DerivedCall.blocks) = some read) :
    read.length ≤ calls.length ∧ (calls.length ≤ read.length → ∀ c ∈ calls, c.Sound) := by
  induction calls generalizing read with
  | nil =>
    obtain rfl := Option.some.inj h
    exact ⟨le_rfl, fun _ => nofun⟩
  | cons c calls ih =>
    rw [List.flatMap_cons, blockCalls_append] at h
    obtain ⟨first, hfirst, h⟩ := Option.bind_eq_some_iff.mp h
    obtain ⟨rest, hrest, rfl⟩ := Option.map_eq_some_iff.mp h
    obtain ⟨hle, hsound⟩ := ih hrest
    rw [List.length_append, List.length_cons]
    by_cases hc : c.Sound
    · obtain ⟨call, -, hone⟩ := blockCalls_of_sound (hnames _ c.known) hc
      obtain rfl : [call] = first := Option.some.inj (hone.symm.trans hfirst)
      rw [List.length_singleton]
      exact ⟨by omega, fun hlen => List.forall_mem_cons.mpr ⟨hc, hsound (by omega)⟩⟩
    · obtain rfl := blockCalls_of_not_sound (hnames _ c.known) hc hfirst
      rw [List.length_nil]
      exact ⟨by omega, fun hlen => absurd hlen (by omega)⟩

/-- A derivation is read as it is derived exactly when each of its calls is sound. -/
theorem parsesAsDerived_of_names (hnames : ∀ name ∈ names, IsToolName name)
    (d : CallDerivation names) : ParsesAsDerived d ↔ ∀ c ∈ d.calls, c.Sound := by
  simp only [ParsesAsDerived, calledTools_parseQwenToolCalls, blocksOf_derivation]
  constructor
  · rintro ⟨calls, hcalls, hread⟩
    have hlen : calls.length = d.calls.length := length_of_mapM_eq_some hcalls
    exact (length_blockCalls hnames hread).2 hlen.ge
  · exact blockCalls_of_all_sound hnames

end

/-- One tool. -/
def oneTool : Json := .arr [.obj [("function".toList, .obj [("name".toList, .str "t".toList)])]]

/-- A call whose argument is half of a surrogate pair. -/
def loneSurrogate : DerivedCall (toolNames oneTool) where
  name := "t".toList
  known := by decide
  arguments := .members .nil [.plain 'a' (by decide)] .nil .nil
    (.str [.unit ⟨'d', rfl⟩ ⟨'8', rfl⟩ ⟨'0', rfl⟩ ⟨'0', rfl⟩]) .nil .nil
  ws₁ := .nil
  ws₂ := .nil
  ws₃ := .nil
  ws₄ := .nil
  ws₅ := .nil
  ws₆ := .nil
  ws₇ := .nil
  ws₈ := .nil
  after := .nil

end Llamaste
