import Llamaste.CallReplay
import Llamaste.Lib.JsonTree

/-!
# Reading written calls

Calls that stand between tags, each as a JSON text of its own, are read back in order, whatever
stands between them. The name of a call is read with a typed access, which throws where a block
has a name of another type. Source: `agent.cpp` (`parse_qwen_tool_calls`).

## Main results

* `parsedExactly_iff`: written calls are read back with different ids up to 2³² of them, and
  reading throws exactly on a block whose name is no string.
-/

namespace Llamaste

/-! ### Written calls -/

/-- A call as it is written: the JSON text of an object that has a name and arguments, with white
space around it, and without a closing tag. -/
structure WrittenCall where
  before : Json.Blank
  object : Json.Object
  after : Json.Blank
  document : Json
  name : Text
  arguments : List (Text × Json)
  value : object.json = some document
  named : document.find "name".toList = some (.str name)
  nonempty : name ≠ []
  hasArguments : document.find "arguments".toList = some (.obj arguments)
  unclosed : ¬ toolCallEnd <:+: object.text

namespace WrittenCall

/-- What stands between the tags. -/
def inner (c : WrittenCall) : Text := c.before.1 ++ (c.object.text ++ c.after.1)

def text (c : WrittenCall) : Text := toolCallStart ++ c.inner ++ toolCallEnd

/-- The name and the arguments. -/
def call (c : WrittenCall) : Text × Json := (c.name, .obj c.arguments)

end WrittenCall

/-- A text in which no block is opened. -/
abbrev Unopened := {s : Text // ¬ toolCallStart <:+: s}

/-- The written calls, each with the text behind it, and the text before the first. -/
def writtenText (first : Unopened) (calls : List (WrittenCall × Unopened)) : Text :=
  first.1 ++ calls.flatMap fun c => c.1.text ++ c.2.1

/-! ### What is claimed -/

/-- The ids of some entries, as they are read. -/
def entryIds (entries : List Json) : Option (List Text) :=
  (entries.mapM parseToolCall).map fun tcs => tcs.map ToolCall.id

/-- The calls of a text are read back in order, under different ids. -/
structure ReadsCalls (counter : ℤ) (text : Text) (calls : List (Text × Json)) : Prop where
  reads : ∃ entries counter', parseQwenToolCalls counter text = some (entries, counter') ∧
    calledTools entries = some calls ∧ ∃ ids, entryIds entries = some ids ∧ ids.Nodup

/-- The block is an object with a name that is no string. -/
def MisnamedBlock (raw : Text) : Prop :=
  ∃ members v, Json.parse (Text.trim Json.isWs raw) = some (.obj members) ∧
    (Json.obj members).find "name".toList = some v ∧ v.getString = none

/-! ### One block -/

namespace WrittenCall

variable (c : WrittenCall)

theorem text_eq_braces (o : Json.Object) : ∃ t, o.text = '\x7b' :: (t ++ ['\x7d']) := by
  cases o with
  | empty ws => exact ⟨ws.1, rfl⟩
  | members ws key ws₁ ws₂ v rest ws' =>
    refine ⟨ws.1 ++ ('"' :: (Json.piecesText key ++ '"' :: (ws₁.1 ++ ':' :: (ws₂.1 ++ (v.text ++
      (rest.text ++ ws'.1)))))), ?_⟩
    simp only [Json.Object.text, List.append_assoc, List.cons_append]

/-- The white space is trimmed off. -/
theorem trim_inner : Text.trim Json.isWs c.inner = c.object.text := by
  obtain ⟨t, ht⟩ := text_eq_braces c.object
  have hfront : c.inner.dropWhile Json.isWs = c.object.text ++ c.after.1 := by
    rw [inner, List.dropWhile_append_of_pos (List.all_eq_true.mp c.before.2), ht]
    rfl
  have hlast : c.object.text = ('\x7b' :: t) ++ ['\x7d'] := ht
  rw [Text.trim, hfront, Text.rdropWhile_append_of_pos (List.all_eq_true.mp c.after.2), hlast,
    List.rdropWhile_concat_neg _ _ _ (by decide)]

theorem parse_object : Json.parse c.object.text = some c.document := by
  obtain ⟨t, ht⟩ := text_eq_braces c.object
  have hbom : Json.skipBom c.object.text = c.object.text := by
    rw [ht]
    rfl
  have hread := (Json.Object.reads c.object) c.object.text.length [] [] rfl le_rfl nofun
  rw [Json.Tree.json, Json.Tree.text, List.nil_append, List.append_nil, c.value] at hread
  rw [Json.parse, hbom, hread]
  rfl

theorem qwenCall_inner : qwenCall c.inner = some (some c.call) := by
  have hparse := c.parse_object
  have hname := c.named
  have hargs := c.hasArguments
  generalize c.document = document at hparse hname hargs
  cases document with
  | obj members =>
    have hvalue : (Json.obj members).value Json.getString "name".toList [] = some c.name :=
      Json.value_of_find hname
    rw [qwenCall, c.trim_inner, hparse]
    simp only [hvalue, hargs, Option.bind_eq_bind, Option.bind_some, if_neg c.nonempty]
    rfl
  | _ => cases hname

theorem not_infix_inner : ¬ toolCallEnd <:+: c.inner := by
  have hbracket : ∀ ws : Json.Blank, '<' ∉ ws.1 ∧ '>' ∉ ws.1 := fun ws =>
    ⟨fun h => absurd (List.all_eq_true.mp ws.2 _ h) (by decide),
      fun h => absurd (List.all_eq_true.mp ws.2 _ h) (by decide)⟩
  have hend : toolCallEnd = "</tool_call".toList ++ ['>'] := by decide
  rw [inner, Text.infix_append_of_not_mem isTag_toolCallEnd.head (hbracket c.before).1, hend,
    Text.infix_append_iff_of_not_mem (hbracket c.after).2, ← hend]
  exact c.unclosed

end WrittenCall

/-! ### The blocks of a written text -/

theorem nextBlock_writtenCall {u : Text} (hu : ¬ toolCallStart <:+: u) (c : WrittenCall)
    (rest : Text) : nextBlock (u ++ (c.text ++ rest)) = some (c.inner, rest) := by
  have hstart := isTag_toolCallStart.anchored.afterFirst_append hu (c.inner ++ toolCallEnd ++ rest)
  have hend := isTag_toolCallEnd.anchored.splitFirst_append c.not_infix_inner rest
  have htext : u ++ (c.text ++ rest) =
      u ++ toolCallStart ++ (c.inner ++ toolCallEnd ++ rest) := by
    simp only [WrittenCall.text, List.append_assoc]
  rw [nextBlock, htext, hstart]
  exact hend

theorem blocksOf_writtenText (first : Unopened) (calls : List (WrittenCall × Unopened)) :
    blocksOf (writtenText first calls) = calls.map fun c => c.1.inner := by
  induction calls generalizing first with
  | nil =>
    have hnone : nextBlock first.1 = none := by
      rw [nextBlock, Text.afterFirst_eq_none_iff.mpr first.2]
      rfl
    rw [writtenText, List.flatMap_nil, List.append_nil]
    exact blocksOf_of_none hnone
  | cons c calls ih =>
    have hnext := nextBlock_writtenCall first.2 c.1 (writtenText c.2 calls)
    rw [writtenText, List.flatMap_cons, List.append_assoc, List.map_cons, ← ih c.2]
    exact blocksOf_of_some hnext

theorem blockCalls_written (calls : List (WrittenCall × Unopened)) :
    blockCalls (calls.map fun c => c.1.inner) = some (calls.map fun c => c.1.call) := by
  induction calls with
  | nil => rfl
  | cons c calls ih =>
    rw [List.map_cons, List.map_cons, blockCalls_cons, c.1.qwenCall_inner, ih]
    rfl

/-! ### The ids -/

theorem dumpInt_injective : Function.Injective Json.dumpInt := by
  intro m n h
  have hm := Json.scanSign_dumpInt m []
  have hn := Json.scanSign_dumpInt n []
  rw [h, hn] at hm
  obtain ⟨hsign, hdigits⟩ := Prod.mk.inj hm
  rw [List.append_nil, List.append_nil] at hdigits
  have habs : n.natAbs = m.natAbs := Text.ofNat_injective hdigits
  have hneg : n < 0 ↔ m < 0 := decide_eq_decide.mp hsign
  omega

/-- The id of a call by its number. -/
def callId (counter : ℤ) (i : ℕ) : Text :=
  "call_".toList ++ Json.dumpInt (CInt.toInt32 (counter + 1 + i))

theorem callId_toInt32 (counter : ℤ) (i : ℕ) :
    callId (CInt.toInt32 (counter + 1)) i = callId counter (i + 1) := by
  have hnext : CInt.toInt32 (CInt.toInt32 (counter + 1) + 1 + i) =
      CInt.toInt32 (counter + 1 + (i + 1 : ℕ)) := by
    simp only [CInt.toInt32]
    omega
  rw [callId, callId, hnext]

theorem ids_qwenToolCalls {blocks : List Text} {counter n : ℤ} {tcs : List ToolCall}
    (h : qwenToolCalls counter blocks = some (tcs, n)) :
    tcs.map ToolCall.id = (List.range tcs.length).map (callId counter) := by
  induction blocks generalizing counter tcs n with
  | nil =>
    obtain ⟨rfl, -⟩ := Prod.mk.inj (Option.some.inj h)
    rfl
  | cons raw blocks ih =>
    rw [qwenToolCalls] at h
    obtain ⟨call, -, h⟩ := Option.bind_eq_some_iff.mp h
    cases call with
    | none => exact ih h
    | some call =>
      obtain ⟨arguments, -, h⟩ := Option.bind_eq_some_iff.mp h
      obtain ⟨⟨rest, n'⟩, hrest, h⟩ := Option.bind_eq_some_iff.mp h
      obtain ⟨rfl, -⟩ := Prod.mk.inj (Option.some.inj h)
      rw [List.map_cons, ih hrest, List.length_cons, List.range_succ_eq_map, List.map_cons,
        List.map_map]
      have hfirst : callId counter 0 =
          "call_".toList ++ Json.dumpInt (CInt.toInt32 (counter + 1)) := by
        rw [callId, Nat.cast_zero, add_zero]
      rw [hfirst]
      exact congrArg _ (List.map_congr_left fun i _ => callId_toInt32 counter i)

/-- The numbers of the calls come again after 2³² of them. -/
theorem nodup_callId_iff (counter : ℤ) (n : ℕ) :
    ((List.range n).map (callId counter)).Nodup ↔ n ≤ 2 ^ 32 := by
  have heq (i j : ℕ) : callId counter i = callId counter j ↔
      (i : ℤ) % 2 ^ 32 = (j : ℤ) % 2 ^ 32 := by
    rw [callId, callId, List.append_cancel_left_eq, dumpInt_injective.eq_iff]
    simp only [CInt.toInt32]
    omega
  rw [List.nodup_map_iff_inj_on List.nodup_range]
  constructor
  · intro h
    by_contra hn
    have := h 0 (List.mem_range.mpr (by omega)) (2 ^ 32) (List.mem_range.mpr (by omega))
      ((heq _ _).mpr rfl)
    omega
  · intro hn i hi j hj hij
    have hi := List.mem_range.mp hi
    have hj := List.mem_range.mp hj
    have hmod := (heq i j).mp hij
    omega

/-! ### The claim -/

/-- Written calls are read back, and their ids differ up to 2³² of them. -/
theorem readsCalls_writtenText_iff (counter : ℤ) (first : Unopened)
    (calls : List (WrittenCall × Unopened)) :
    ReadsCalls counter (writtenText first calls) (calls.map fun c => c.1.call) ↔
      calls.length ≤ 2 ^ 32 := by
  have hblocks := blockCalls_written calls
  obtain ⟨tcs, n, htcs, hwrites⟩ := qwenToolCalls_of_blockCalls hblocks counter
  have hread : ∀ call ∈ calls.map fun c => c.1.call, CallRead call := fun call hcall =>
    have ⟨_, _, hraw⟩ := mem_blockCalls hblocks hcall
    callRead_of_qwenCall hraw
  have hparse : parseQwenToolCalls counter (writtenText first calls) =
      some (tcs.map ToolCall.json, n) := by
    rw [parseQwenToolCalls, blocksOf_writtenText, htcs]
    rfl
  have hids : entryIds (tcs.map ToolCall.json) = some (tcs.map ToolCall.id) := by
    rw [entryIds, mapM_parseToolCall]
    rfl
  have hnodup : (tcs.map ToolCall.id).Nodup ↔ calls.length ≤ 2 ^ 32 := by
    rw [ids_qwenToolCalls htcs, nodup_callId_iff, hwrites.length_eq, List.length_map]
  rw [← hnodup]
  constructor
  · rintro ⟨entries, counter', hentries, -, ids, hread, hnodup⟩
    rw [hparse] at hentries
    obtain ⟨rfl, -⟩ := Prod.mk.inj (Option.some.inj hentries)
    rw [hids] at hread
    rwa [Option.some.inj hread]
  · intro h
    exact ⟨_, n, hparse, calledTools_of_writes hwrites hread, _, hids, h⟩

theorem qwenCall_eq_none_iff (raw : Text) : qwenCall raw = none ↔ MisnamedBlock raw := by
  rw [qwenCall]
  cases hparse : Json.parse (Text.trim Json.isWs raw) with
  | none =>
    refine iff_of_false (by rintro ⟨⟩) ?_
    rintro ⟨_, _, h, -⟩
    cases hparse.symm.trans h
  | some j =>
    cases j with
    | obj members =>
      have hvalue : ((Json.obj members).value Json.getString "name".toList [] = none) ↔
          ∃ v, (Json.obj members).find "name".toList = some v ∧ v.getString = none := by
        cases hfind : (Json.obj members).find "name".toList with
        | none =>
          have hlookup : members.lookup "name".toList = none := hfind
          rw [Json.value, hlookup]
          refine iff_of_false (by rintro ⟨⟩) ?_
          rintro ⟨_, ⟨⟩, -⟩
        | some v =>
          rw [Json.value_of_find hfind]
          refine ⟨fun h => ⟨v, rfl, h⟩, ?_⟩
          rintro ⟨_, ⟨⟩, hv⟩
          exact hv
      have hmisnamed : MisnamedBlock raw ↔
          ∃ v, (Json.obj members).find "name".toList = some v ∧ v.getString = none := by
        constructor
        · rintro ⟨members', v, h, hv⟩
          obtain rfl := Json.obj.inj (Option.some.inj (hparse.symm.trans h))
          exact ⟨v, hv⟩
        · rintro ⟨v, hv⟩
          exact ⟨members, v, hparse, hv⟩
      rw [hmisnamed, ← hvalue]
      dsimp only [Option.bind_eq_bind]
      cases (Json.obj members).value Json.getString "name".toList [] with
      | none => exact iff_of_true rfl rfl
      | some name =>
        rw [Option.bind_some]
        split_ifs <;> exact iff_of_false (by rintro ⟨⟩) (by rintro ⟨⟩)
    | _ =>
      refine iff_of_false (by rintro ⟨⟩) ?_
      rintro ⟨_, _, h, -⟩
      cases hparse.symm.trans h

theorem blockCalls_eq_none_iff (blocks : List Text) :
    blockCalls blocks = none ↔ ∃ raw ∈ blocks, MisnamedBlock raw := by
  induction blocks with
  | nil => exact iff_of_false nofun fun ⟨_, h, _⟩ => nomatch h
  | cons raw blocks ih =>
    rw [blockCalls_cons, List.exists_mem_cons_iff, ← ih, ← qwenCall_eq_none_iff]
    cases qwenCall raw with
    | none => exact iff_of_true rfl (Or.inl rfl)
    | some call =>
      rw [Option.bind_some, Option.map_eq_none_iff]
      exact (or_iff_right nofun).symm

/-- Reading throws exactly on a misnamed block. -/
theorem parseQwenToolCalls_eq_none_iff (counter : ℤ) (text : Text) :
    parseQwenToolCalls counter text = none ↔ ∃ raw ∈ blocksOf text, MisnamedBlock raw := by
  rw [parseQwenToolCalls, Option.map_eq_none_iff, ← blockCalls_eq_none_iff]
  constructor
  · intro h
    cases hcalls : blockCalls (blocksOf text) with
    | none => rfl
    | some calls =>
      obtain ⟨tcs, n, htcs, -⟩ := qwenToolCalls_of_blockCalls hcalls counter
      cases h.symm.trans htcs
  · intro h
    cases htcs : qwenToolCalls counter (blocksOf text) with
    | none => rfl
    | some r =>
      have hsome := isSome_blockCalls (Option.isSome_iff_exists.mpr ⟨r, htcs⟩)
      rw [h] at hsome
      cases hsome

/-- **Calls are parsed back exactly** up to 2³² of them, and **a text is read without an exception**
exactly when no block is an object with a name that is no string. -/
theorem parsedExactly_iff (counter : ℤ) (first : Unopened) (calls : List (WrittenCall × Unopened))
    (text : Text) :
    (ReadsCalls counter (writtenText first calls) (calls.map fun c => c.1.call) ↔
      calls.length ≤ 2 ^ 32) ∧
    (parseQwenToolCalls counter text ≠ none ↔ ∀ raw ∈ blocksOf text, ¬ MisnamedBlock raw) := by
  refine ⟨readsCalls_writtenText_iff counter first calls, ?_⟩
  rw [Ne, parseQwenToolCalls_eq_none_iff]
  exact ⟨fun h raw hraw hname => h ⟨raw, hraw, hname⟩, fun h ⟨raw, hraw, hname⟩ => h raw hraw hname⟩

/-- A name that is a number makes the reader throw. -/
theorem not_parsedExactly :
    ¬ ((∀ counter first calls, ReadsCalls counter (writtenText first calls)
      (calls.map fun c => c.1.call)) ∧ ∀ counter text, parseQwenToolCalls counter text ≠ none) :=
  fun h => h.2 0 "<tool_call>\x7b\"name\": 1\x7d</tool_call>" (by decide +kernel)

end Llamaste
