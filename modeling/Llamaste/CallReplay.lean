import Mathlib
import Llamaste.CallBlocks
import Llamaste.LlamaInference

/-!
# Calls in the history of a conversation

A call that the model has made is kept in the conversation and rendered into the next prompt.
There it reads as the same call when its name can stand between quotes as it is and its
arguments are an object; a closing tag in either cuts the block short.

## Main results

* `replayed_iff`: which calls are read back from their rendered blocks.
* `replaysFaithfully_iff`: which outputs of the model are replayed.
-/

namespace Llamaste

/-! ### The calls of a text -/

/-- The names and the arguments that some blocks call, in order. -/
def blockCalls (blocks : List Text) : Option (List (Text × Json)) :=
  (blocks.mapM qwenCall).map List.reduceOption

/-- A call writes a name and a value. -/
structure ToolCall.Writes (tc : ToolCall) (call : Text × Json) : Prop where
  id : Utf8.valid tc.id = true
  name : tc.name = call.1
  arguments : tc.arguments = Json.dumpAt .compact 0 call.2

/-- A name and a value as they come from a text. -/
structure CallRead (call : Text × Json) : Prop where
  name : Utf8.valid call.1 = true
  named : call.1 ≠ []
  arguments : Json.WellFormed call.2

theorem wellFormed_qwenArguments {arguments : Option Json} (h : ∀ j ∈ arguments, j.WellFormed) :
    (qwenArguments arguments).WellFormed := by
  have hempty : Json.WellFormed (.obj []) := .obj .nil nofun nofun
  cases arguments with
  | none => exact hempty
  | some j =>
    cases j with
    | obj members => exact h _ rfl
    | str s =>
      rw [qwenArguments]
      cases hparse : Json.parse s with
      | none => exact hempty
      | some v => exact Json.wellFormed_of_parse hparse
    | null | bool | int | float | arr => exact hempty

theorem callRead_of_qwenCall {raw : Text} {call : Text × Json}
    (h : qwenCall raw = some (some call)) : CallRead call := by
  obtain ⟨members, hparse, hname, hne, hargs⟩ := name_of_qwenCall h
  have hobj := Json.wellFormed_of_parse hparse
  refine ⟨?_, hne, ?_⟩
  · cases hobj with
    | obj _ _ hvalues => exact (hvalues _ hname).valid_getString rfl
  · rw [hargs]
    exact wellFormed_qwenArguments fun j hj => hobj.find hj

theorem blockCalls_nil : blockCalls [] = some [] := rfl

theorem blockCalls_cons (raw : Text) (blocks : List Text) : blockCalls (raw :: blocks) =
    (qwenCall raw).bind fun call => (blockCalls blocks).map (call.toList ++ ·) := by
  rw [blockCalls, List.mapM_cons, blockCalls]
  cases qwenCall raw with
  | none => rfl
  | some call =>
    cases blocks.mapM qwenCall with
    | none => rfl
    | some calls => cases call <;> rfl

theorem blockCalls_append (blocks blocks' : List Text) : blockCalls (blocks ++ blocks') =
    (blockCalls blocks).bind fun calls => (blockCalls blocks').map (calls ++ ·) := by
  induction blocks with
  | nil => cases h : blockCalls blocks' <;> simp [blockCalls_nil, h]
  | cons raw blocks ih =>
    rw [List.cons_append, blockCalls_cons, blockCalls_cons, ih]
    cases qwenCall raw with
    | none => rfl
    | some call =>
      cases blockCalls blocks with
      | none => rfl
      | some calls => cases blockCalls blocks' <;> simp

theorem mem_blockCalls {blocks : List Text} {calls : List (Text × Json)}
    (h : blockCalls blocks = some calls) {call : Text × Json} (hcall : call ∈ calls) :
    ∃ raw ∈ blocks, qwenCall raw = some (some call) := by
  obtain ⟨read, hread, rfl⟩ := Option.map_eq_some_iff.mp h
  exact mem_of_mapM_eq_some hread ((List.mem_filterMap.mp hcall).elim fun o ho => ho.2 ▸ ho.1)

/-- The entries of the calls of some blocks, whatever the counter. -/
theorem qwenToolCalls_of_blockCalls {blocks : List Text} {calls : List (Text × Json)}
    (h : blockCalls blocks = some calls) (counter : ℤ) :
    ∃ tcs n, qwenToolCalls counter blocks = some (tcs, n) ∧
      List.Forall₂ ToolCall.Writes tcs calls := by
  induction blocks generalizing calls counter with
  | nil =>
    obtain rfl : [] = calls := Option.some.inj h
    exact ⟨[], counter, rfl, .nil⟩
  | cons raw blocks ih =>
    rw [blockCalls_cons] at h
    obtain ⟨call, hcall, h⟩ := Option.bind_eq_some_iff.mp h
    obtain ⟨rest, hrest, rfl⟩ := Option.map_eq_some_iff.mp h
    rw [qwenToolCalls, hcall]
    cases call with
    | none => exact ih hrest counter
    | some call =>
      obtain ⟨name, arguments⟩ := call
      obtain ⟨tcs, n, htcs, hwrites⟩ := ih hrest (CInt.toInt32 (counter + 1))
      have hdump : arguments.dump = some (Json.dumpAt .compact 0 arguments) :=
        if_pos (callRead_of_qwenCall hcall).arguments.utf8
      have hid : Utf8.valid ("call_".toList ++ Json.dumpInt (CInt.toInt32 (counter + 1))) = true :=
        Utf8.valid_append (by decide) (Utf8.valid_of_ascii (Json.dumpInt_ascii _))
      refine ⟨⟨_, name, Json.dumpAt .compact 0 arguments⟩ :: tcs, n, ?_,
        .cons ⟨hid, rfl, rfl⟩ hwrites⟩
      simp only [Option.bind_eq_bind, Option.bind_some, hdump, htcs]

/-- Entries are only made where the blocks can be read. -/
theorem isSome_blockCalls {counter : ℤ} {blocks : List Text}
    (h : (qwenToolCalls counter blocks).isSome = true) : (blockCalls blocks).isSome = true := by
  induction blocks generalizing counter with
  | nil => rfl
  | cons raw blocks ih =>
    rw [qwenToolCalls] at h
    rw [blockCalls_cons]
    cases hcall : qwenCall raw with
    | none => rw [hcall] at h; cases h
    | some call =>
      rw [hcall] at h
      cases call with
      | none => simpa using ih h
      | some call =>
        simp only [Option.bind_eq_bind, Option.bind_some] at h
        obtain ⟨r, hr⟩ := Option.isSome_iff_exists.mp h
        obtain ⟨arguments, -, hr⟩ := Option.bind_eq_some_iff.mp hr
        obtain ⟨tcs, htcs, -⟩ := Option.bind_eq_some_iff.mp hr
        simpa using ih (Option.isSome_iff_exists.mpr ⟨tcs, htcs⟩)

theorem qwenToolCalls_eq_some {counter n : ℤ} {blocks : List Text} {tcs : List ToolCall}
    (h : qwenToolCalls counter blocks = some (tcs, n)) :
    ∃ calls, blockCalls blocks = some calls ∧ List.Forall₂ ToolCall.Writes tcs calls := by
  obtain ⟨calls, hcalls⟩ := Option.isSome_iff_exists.mp
    (isSome_blockCalls (Option.isSome_iff_exists.mpr ⟨_, h⟩))
  obtain ⟨tcs', n', htcs, hwrites⟩ := qwenToolCalls_of_blockCalls hcalls counter
  obtain ⟨rfl, -⟩ := Prod.mk.inj (Option.some.inj (h.symm.trans htcs))
  exact ⟨calls, hcalls, hwrites⟩

/-! ### From the reply to the prompt -/

/-- The names and the values of the arguments of some entries, as they are read. -/
def calledTools (entries : List Json) : Option (List (Text × Json)) := do
  let tcs ← entries.mapM parseToolCall
  tcs.mapM fun tc => (Json.parse tc.arguments).map fun v => (tc.name, v)

theorem mapM_parseToolCall (tcs : List ToolCall) :
    (tcs.map ToolCall.json).mapM parseToolCall = some tcs := by
  induction tcs with
  | nil => rfl
  | cons tc tcs ih => rw [List.map_cons, List.mapM_cons, ih]; rfl

theorem ToolCall.Writes.isUtf8 {tc : ToolCall} {call : Text × Json} (h : tc.Writes call)
    (hcall : CallRead call) : tc.IsUtf8 where
  id := h.id
  name := h.name ▸ hcall.name
  arguments := h.arguments ▸ Json.valid_dumpAt .compact 0 _ hcall.arguments.utf8

theorem isUtf8_of_writes {tcs : List ToolCall} {calls : List (Text × Json)}
    (h : List.Forall₂ ToolCall.Writes tcs calls) (hread : ∀ call ∈ calls, CallRead call) :
    ∀ tc ∈ tcs, tc.IsUtf8 := by
  induction h with
  | nil => exact nofun
  | @cons tc call tcs calls hwrites _ ih =>
    obtain ⟨hcall, hread⟩ := List.forall_mem_cons.mp hread
    exact List.forall_mem_cons.mpr ⟨hwrites.isUtf8 hcall, ih hread⟩

/-- What is written is read back. -/
theorem calledTools_of_writes {tcs : List ToolCall} {calls : List (Text × Json)}
    (h : List.Forall₂ ToolCall.Writes tcs calls) (hread : ∀ call ∈ calls, CallRead call) :
    calledTools (tcs.map ToolCall.json) = some calls := by
  rw [calledTools, mapM_parseToolCall, Option.bind_eq_bind, Option.bind_some]
  induction h with
  | nil => rfl
  | @cons tc call tcs calls hwrites _ ih =>
    obtain ⟨hcall, hread⟩ := List.forall_mem_cons.mp hread
    have hparse : Json.parse tc.arguments = some call.2 := by
      have := Json.parse_dumpAt (L := .compact) 0 (u := []) hcall.arguments rfl
      rwa [List.append_nil, ← hwrites.arguments] at this
    rw [List.mapM_cons, ih hread, hparse, hwrites.name]
    rfl

theorem wellFormed_toolCall_json {tc : ToolCall} (h : tc.IsUtf8) : tc.json.WellFormed := by
  have hfunction : Json.WellFormed (.obj [("arguments".toList, .str tc.arguments),
      ("name".toList, .str tc.name)]) := by
    refine .obj_of_keys (l := ["arguments".toList, "name".toList]) rfl (by decide) (by decide) ?_
    simp only [List.map_cons, List.map_nil, List.forall_mem_cons]
    exact ⟨.str h.arguments, .str h.name, fun _ h => nomatch h⟩
  refine .obj_of_keys (l := ["function".toList, "id".toList, "type".toList]) rfl (by decide)
    (by decide) ?_
  simp only [List.map_cons, List.map_nil, List.forall_mem_cons]
  exact ⟨hfunction, .str h.id, .str (by decide), fun _ h => nomatch h⟩

/-- The counts of tokens that a reply can hold. -/
structure Counts where
  completion : ℤ
  prompt : ℤ
  total : ℤ
  fits : ∀ n ∈ [completion, prompt, total], CInt.FitsInt32 n

def Counts.json (c : Counts) : Json := usageJson c.completion c.prompt c.total

theorem wellFormed_counts (c : Counts) : c.json.WellFormed := by
  have hint : ∀ n ∈ [c.completion, c.prompt, c.total], Json.WellFormed (.int n) := by
    intro n hn
    obtain ⟨hlow, hhigh⟩ := c.fits n hn
    exact .int (by constructor <;> omega)
  refine .obj_of_keys (l := ["completion_tokens".toList, "prompt_tokens".toList,
    "total_tokens".toList]) rfl (by decide) (by decide) ?_
  simp only [List.map_cons, List.map_nil, List.forall_mem_cons]
  exact ⟨hint _ (by simp), hint _ (by simp), hint _ (by simp), fun _ h => nomatch h⟩

theorem wellFormed_toolCallsReply (created : ℤ) (c : Counts) {entries : List Json}
    (h : ∀ entry ∈ entries, entry.WellFormed) :
    (toolCallsReply created c.json entries).WellFormed := by
  have hmessage : (callsMessage entries).WellFormed := by
    refine .obj_of_keys (l := ["content".toList, "role".toList, "tool_calls".toList]) rfl
      (by decide) (by decide) ?_
    simp only [List.map_cons, List.map_nil, List.forall_mem_cons]
    exact ⟨.null, .str (by decide), .arr h, fun _ h => nomatch h⟩
  have hchoice : (choiceJson "tool_calls".toList (callsMessage entries)).WellFormed := by
    refine .obj_of_keys (l := ["finish_reason".toList, "index".toList, "message".toList]) rfl
      (by decide) (by decide) ?_
    simp only [List.map_cons, List.map_nil, List.forall_mem_cons]
    exact ⟨.str (by decide), .int (by decide), hmessage, fun _ h => nomatch h⟩
  have hid : Utf8.valid ("chatcmpl-".toList ++ Json.dumpInt created) = true :=
    Utf8.valid_append (by decide) (Utf8.valid_of_ascii (Json.dumpInt_ascii _))
  refine .obj_of_keys (l := ["choices".toList, "id".toList, "model".toList, "object".toList,
    "usage".toList]) rfl (by decide) (by decide) ?_
  simp only [List.map_cons, List.map_nil, List.forall_mem_cons]
  exact ⟨.arr (List.forall_mem_singleton.mpr hchoice), .str hid, .str (by decide),
    .str (by decide), wellFormed_counts c, fun _ h => nomatch h⟩

/-- The reply that holds calls is read as these calls. -/
theorem parseToolCalls_toolCallsReply (created : ℤ) (c : Counts) {tcs : List ToolCall}
    (h : ∀ tc ∈ tcs, tc.IsUtf8) {response : Text}
    (hdump : (toolCallsReply created c.json (tcs.map ToolCall.json)).dump = some response) :
    parseToolCalls response = some tcs := by
  have hwf := wellFormed_toolCallsReply created c
    (List.forall_mem_map.mpr fun tc htc => wellFormed_toolCall_json (h tc htc))
  rw [Json.dump, if_pos hwf.utf8] at hdump
  obtain rfl := Option.some.inj hdump
  have hparse := Json.parse_dumpAt (L := .compact) 0 (u := []) hwf rfl
  rw [List.append_nil] at hparse
  rw [parseToolCalls, hparse]
  exact mapM_parseToolCall tcs

/-- The message that keeps calls is rendered to their blocks. -/
theorem messageTurn_toolCallsMessage {tcs : List ToolCall} (h : ∀ tc ∈ tcs, tc.IsUtf8) :
    messageTurn (toolCallsMessage tcs).json =
      some ("assistant".toList, tcs.flatMap fun tc => toolCallBlock tc.name tc.arguments) := by
  have hutf8 : (toolCallsMessage tcs).IsUtf8 := ⟨valid_assistant, rfl, rfl, rfl, h⟩
  rw [messageTurn_json hutf8, Message.turn, Message.rendered]
  cases tcs with
  | nil => rfl
  | cons tc tcs => rw [if_pos ⟨rfl, List.cons_ne_nil _ _⟩]; rfl

/-! ### Which calls are read again -/

/-- A call that its block gives back: a name that stands between quotes as it is, no closing tag
in it or in the written arguments, and arguments that are an object. -/
structure Replayable (call : Text × Json) : Prop where
  plain : ∀ c ∈ call.1, Json.Plain c
  name : ¬ toolCallEnd <:+: call.1
  arguments : ¬ toolCallEnd <:+: Json.dumpAt .compact 0 call.2
  object : call.2.isObject = true

theorem Replayable.whole {call : Text × Json} (h : Replayable call) :
    ¬ toolCallEnd <:+: callText call.1 (Json.dumpAt .compact 0 call.2) :=
  fun hin => (infix_callText_iff.mp hin).elim h.name h.arguments

/-- The calls that the rendered block of a call gives. -/
def blockReplay (call : Text × Json) : Option (List (Text × Json)) :=
  blockCalls (callBlocks call.1 (Json.dumpAt .compact 0 call.2))

theorem blockReplay_of_plain {call : Text × Json} (hread : CallRead call)
    (hplain : ∀ c ∈ call.1, Json.Plain c)
    (hwhole : ¬ toolCallEnd <:+: callText call.1 (Json.dumpAt .compact 0 call.2)) :
    blockReplay call = some [(call.1, qwenArguments (some call.2))] := by
  rw [blockReplay, callBlocks_of_not_infix hwhole, blockCalls_cons,
    qwenCall_callText hread.arguments hread.named hplain hread.name]
  rfl

/-- The calls in a block that is not whole have shorter names. -/
theorem shorter_of_blockReplay {call call' : Text × Json} (hread : CallRead call)
    (hbad : ¬ ((∀ c ∈ call.1, Json.Plain c) ∧
      ¬ toolCallEnd <:+: callText call.1 (Json.dumpAt .compact 0 call.2)))
    {calls : List (Text × Json)} (h : blockReplay call = some calls) (hmem : call' ∈ calls) :
    call'.1.length < call.1.length := by
  obtain ⟨raw, hraw, hcall⟩ := mem_blockCalls h hmem
  rcases shorter_of_callText hread.arguments hraw hcall with hlt | ⟨hwhole, -, hplain⟩
  · exact hlt
  · exact absurd ⟨hplain, hwhole⟩ hbad

/-- Only an object is the value of its own text. -/
theorem isObject_of_qwenArguments {v : Json} (h : qwenArguments (some v) = v) :
    v.isObject = true := by
  cases v with
  | obj members => rfl
  | str s =>
    -- a string is shorter than any text that is read as it
    have hparse : Json.parse s = some (.str s) := by
      rw [qwenArguments] at h
      cases hs : Json.parse s with
      | none => rw [hs] at h; cases h
      | some j => rw [hs] at h; exact congrArg some h
    obtain ⟨bom, c, r, hs, -, -, -, -, hscan⟩ := Json.scanned_of_parse hparse
    obtain ⟨ts, hlex, t, rfl, hdecodes⟩ := hscan 0
    have hlit := length_lit hlex (List.mem_singleton_self _)
    have hle := hdecodes.length_le
    have hlen := congrArg List.length hs
    simp only [List.length_append] at hlen
    omega
  | null | bool | int | float | arr => cases h

theorem eq_singleton_of_flatMap {α : Type*} {f : α → List α} {l : List α}
    (hf : ∀ x ∈ l, ∃ y, f x = [y]) (h : l.flatMap f = l) : ∀ x ∈ l, f x = [x] := by
  induction l with
  | nil => exact nofun
  | cons x l ih =>
    obtain ⟨⟨y, hy⟩, hrest⟩ := List.forall_mem_cons.mp hf
    rw [List.flatMap_cons, hy, List.singleton_append, List.cons.injEq] at h
    obtain ⟨rfl, h⟩ := h
    exact List.forall_mem_cons.mpr ⟨hy, ih hrest h⟩

/-- Where every element gives one element of its own size or only smaller ones, a list that
stays as it is stays so element by element: the largest that gives smaller ones would be
missing. -/
theorem fixed_of_flatMap {α : Type*} {f : α → List α} {size : α → ℕ} {l : List α}
    (hf : ∀ x ∈ l, (∃ y, f x = [y] ∧ size y = size x) ∨ ∀ y ∈ f x, size y < size x)
    (h : l.flatMap f = l) : ∀ x ∈ l, f x = [x] := by
  have hsingle : ∀ x ∈ l, ∃ y, f x = [y] ∧ size y = size x := by
    by_contra hbad
    obtain ⟨x, ⟨hx, hxbad⟩, hmax⟩ := Set.exists_max_image
      {x | x ∈ l ∧ ¬ ∃ y, f x = [y] ∧ size y = size x} size
      (l.finite_toSet.subset fun x hx => hx.1) (by simpa [Set.Nonempty] using hbad)
    let large : α → Bool := fun y => size x ≤ size y
    have hsmaller : ∀ z ∈ l, (¬ ∃ y, f z = [y] ∧ size y = size z) →
        (f z).countP large = 0 := by
      intro z hz hzbad
      refine List.countP_eq_zero.mpr fun y hy => ?_
      have hlt := (hf z hz).resolve_left hzbad y hy
      have hle := hmax z ⟨hz, hzbad⟩
      simp only [large, decide_eq_true_eq]
      omega
    have hlt : (l.flatMap f).countP large < (l.flatMap fun x => [x]).countP large := by
      rw [List.countP_flatMap, List.countP_flatMap]
      refine List.sum_lt_sum _ _ (fun z hz => ?_) ⟨x, hx, ?_⟩
      · by_cases hz' : ∃ y, f z = [y] ∧ size y = size z
        · obtain ⟨y, hy, hsize⟩ := hz'
          simp [hy, large, hsize]
        · simp [hsmaller z hz hz']
      · simp [hsmaller x hx hxbad, large]
    rw [h, List.flatMap_singleton'] at hlt
    exact lt_irrefl _ hlt
  exact eq_singleton_of_flatMap (fun x hx => (hsingle x hx).imp fun y hy => hy.1) h

theorem blocksOf_flatMap (calls : List (Text × Text)) :
    blocksOf (calls.flatMap fun call => toolCallBlock call.1 call.2) =
      calls.flatMap fun call => callBlocks call.1 call.2 := by
  induction calls with
  | nil => rfl
  | cons call calls ih =>
    rw [List.flatMap_cons, List.flatMap_cons, blocksOf_toolCallBlock, ih]

/-- The blocks of many calls give what each of them gives. -/
theorem blockCalls_flatMap {calls all : List (Text × Json)}
    (h : blockCalls (calls.flatMap fun call =>
      callBlocks call.1 (Json.dumpAt .compact 0 call.2)) = some all) :
    (∀ call ∈ calls, (blockReplay call).isSome = true) ∧
      all = calls.flatMap fun call => (blockReplay call).getD [] := by
  induction calls generalizing all with
  | nil => exact ⟨nofun, (Option.some.inj h).symm⟩
  | cons call calls ih =>
    rw [List.flatMap_cons, blockCalls_append] at h
    obtain ⟨first, hfirst, h⟩ := Option.bind_eq_some_iff.mp h
    obtain ⟨rest, hrest, rfl⟩ := Option.map_eq_some_iff.mp h
    obtain ⟨hsome, rfl⟩ := ih hrest
    have hcall : blockReplay call = some first := hfirst
    refine ⟨List.forall_mem_cons.mpr ⟨by rw [hcall]; rfl, hsome⟩, ?_⟩
    rw [List.flatMap_cons, hcall]
    rfl

theorem blockCalls_of_replayable {calls : List (Text × Json)}
    (hread : ∀ call ∈ calls, CallRead call) (h : ∀ call ∈ calls, Replayable call) :
    blockCalls (calls.flatMap fun call =>
      callBlocks call.1 (Json.dumpAt .compact 0 call.2)) = some calls := by
  induction calls with
  | nil => rfl
  | cons call calls ih =>
    obtain ⟨hfirst, hread⟩ := List.forall_mem_cons.mp hread
    obtain ⟨hreplay, h⟩ := List.forall_mem_cons.mp h
    have hcall := blockReplay_of_plain hfirst hreplay.plain hreplay.whole
    have hself : qwenArguments (some call.2) = call.2 := by
      have hobject := hreplay.object
      cases hv : call.2 with
      | obj members => rfl
      | _ => rw [hv] at hobject; cases hobject
    rw [hself] at hcall
    rw [List.flatMap_cons, blockCalls_append, ih hread h]
    exact (congrArg (Option.bind · _) hcall).trans rfl

/-- **Calls are read back from their rendered blocks** exactly when each of them is. -/
theorem replayed_iff {calls : List (Text × Json)} (hread : ∀ call ∈ calls, CallRead call) :
    blockCalls (calls.flatMap fun call =>
      callBlocks call.1 (Json.dumpAt .compact 0 call.2)) = some calls ↔
        ∀ call ∈ calls, Replayable call := by
  refine ⟨fun h => ?_, blockCalls_of_replayable hread⟩
  obtain ⟨hsome, hall⟩ := blockCalls_flatMap h
  -- every call gives one of its own name, or only calls with shorter names
  have hsizes : ∀ call ∈ calls,
      (∃ y, (blockReplay call).getD [] = [y] ∧ y.1.length = call.1.length) ∨
        ∀ y ∈ (blockReplay call).getD [], y.1.length < call.1.length := by
    intro call hcall
    obtain ⟨first, hfirst⟩ := Option.isSome_iff_exists.mp (hsome call hcall)
    by_cases hgood : (∀ c ∈ call.1, Json.Plain c) ∧
        ¬ toolCallEnd <:+: callText call.1 (Json.dumpAt .compact 0 call.2)
    · left
      rw [blockReplay_of_plain (hread call hcall) hgood.1 hgood.2]
      exact ⟨_, rfl, rfl⟩
    · right
      rw [hfirst]
      exact fun y hy => shorter_of_blockReplay (hread call hcall) hgood hfirst hy
  intro call hcall
  have hself := fixed_of_flatMap hsizes hall.symm call hcall
  obtain ⟨first, hfirst⟩ := Option.isSome_iff_exists.mp (hsome call hcall)
  rw [hfirst, Option.getD_some] at hself
  by_cases hgood : (∀ c ∈ call.1, Json.Plain c) ∧
      ¬ toolCallEnd <:+: callText call.1 (Json.dumpAt .compact 0 call.2)
  · have hplain := blockReplay_of_plain (hread call hcall) hgood.1 hgood.2
    rw [hfirst, hself] at hplain
    have heq := (List.cons.inj (Option.some.inj hplain)).1
    exact ⟨hgood.1, fun hin => hgood.2 (infix_callText_iff.mpr (Or.inl hin)),
      fun hin => hgood.2 (infix_callText_iff.mpr (Or.inr hin)),
      isObject_of_qwenArguments (congrArg Prod.snd heq).symm⟩
  · have hlt : call.1.length < call.1.length :=
      shorter_of_blockReplay (hread call hcall) hgood hfirst
        (by rw [hself]; exact List.mem_singleton_self _)
    exact absurd hlt (lt_irrefl _)

/-! ### Which outputs are replayed -/

/-- The calls of an output are replayed: kept from the reply that holds them and rendered into
the turn of the assistant, they are read from it again. -/
def ReplaysFaithfully (text : Text) : Prop :=
  ∀ counter entries n, parseQwenToolCalls counter text = some (entries, n) →
    ∀ created counts response,
      (toolCallsReply created (Counts.json counts) entries).dump = some response →
        ∃ tcs content calls, parseToolCalls response = some tcs ∧
          messageTurn (toolCallsMessage tcs).json = some ("assistant".toList, content) ∧
          calledTools entries = some calls ∧
          ∀ counter', ∃ entries' n', parseQwenToolCalls counter' content = some (entries', n') ∧
            calledTools entries' = some calls

theorem callRead_of_blockCalls {blocks : List Text} {calls : List (Text × Json)}
    (h : blockCalls blocks = some calls) : ∀ call ∈ calls, CallRead call := by
  intro call hcall
  obtain ⟨raw, -, hraw⟩ := mem_blockCalls h hcall
  exact callRead_of_qwenCall hraw

/-- The calls of a text are its entries, whatever the counter. -/
theorem calledTools_parseQwenToolCalls {text : Text} {calls : List (Text × Json)} :
    (∀ counter, ∃ entries n, parseQwenToolCalls counter text = some (entries, n) ∧
      calledTools entries = some calls) ↔ blockCalls (blocksOf text) = some calls := by
  constructor
  · intro h
    obtain ⟨entries, n, hparse, hcalls⟩ := h 0
    obtain ⟨⟨tcs, n'⟩, htcs, heq⟩ := Option.map_eq_some_iff.mp hparse
    obtain ⟨rfl, rfl⟩ := Prod.mk.inj heq
    obtain ⟨calls', hblocks, hwrites⟩ := qwenToolCalls_eq_some htcs
    have hread := calledTools_of_writes hwrites (callRead_of_blockCalls hblocks)
    rw [hblocks, ← hread, hcalls]
  · intro h counter
    obtain ⟨tcs, n, htcs, hwrites⟩ := qwenToolCalls_of_blockCalls h counter
    exact ⟨tcs.map ToolCall.json, n, by rw [parseQwenToolCalls, htcs]; rfl,
      calledTools_of_writes hwrites (callRead_of_blockCalls h)⟩

theorem flatMap_of_writes {tcs : List ToolCall} {calls : List (Text × Json)}
    (h : List.Forall₂ ToolCall.Writes tcs calls) :
    (tcs.flatMap fun tc => toolCallBlock tc.name tc.arguments) =
      calls.flatMap fun call => toolCallBlock call.1 (Json.dumpAt .compact 0 call.2) := by
  induction h with
  | nil => rfl
  | @cons tc call tcs calls hwrites _ ih =>
    rw [List.flatMap_cons, List.flatMap_cons, ih, hwrites.name, hwrites.arguments]

/-- The turn of the assistant gives the calls back exactly when each of them is replayable. -/
theorem calledTools_turn_iff {tcs : List ToolCall} {calls : List (Text × Json)}
    (hwrites : List.Forall₂ ToolCall.Writes tcs calls) (hread : ∀ call ∈ calls, CallRead call)
    {content : Text} (hturn : messageTurn (toolCallsMessage tcs).json =
      some ("assistant".toList, content)) :
    (∀ counter, ∃ entries n, parseQwenToolCalls counter content = some (entries, n) ∧
      calledTools entries = some calls) ↔ ∀ call ∈ calls, Replayable call := by
  have hblocks := blocksOf_flatMap
    (calls.map fun call => (call.1, Json.dumpAt .compact 0 call.2))
  rw [List.flatMap_map, List.flatMap_map] at hblocks
  rw [messageTurn_toolCallsMessage (isUtf8_of_writes hwrites hread),
    flatMap_of_writes hwrites] at hturn
  obtain ⟨-, rfl⟩ := Prod.mk.inj (Option.some.inj hturn)
  rw [calledTools_parseQwenToolCalls, hblocks, replayed_iff hread]

theorem replayable_of_replaysFaithfully {text : Text} (h : ReplaysFaithfully text)
    {calls : List (Text × Json)} (hcalls : blockCalls (blocksOf text) = some calls) :
    ∀ call ∈ calls, Replayable call := by
  have hread := callRead_of_blockCalls hcalls
  obtain ⟨tcs, n, htcs, hwrites⟩ := qwenToolCalls_of_blockCalls hcalls 0
  have hutf8 := isUtf8_of_writes hwrites hread
  -- any reply will do
  let counts : Counts := ⟨0, 0, 0, by decide⟩
  have hreply := wellFormed_toolCallsReply 0 counts
    (List.forall_mem_map.mpr fun tc htc => wellFormed_toolCall_json (hutf8 tc htc))
  have hdump : (toolCallsReply 0 counts.json (tcs.map ToolCall.json)).dump = some _ :=
    if_pos hreply.utf8
  have hparse : parseQwenToolCalls 0 text = some (tcs.map ToolCall.json, n) := by
    rw [parseQwenToolCalls, htcs]
    rfl
  obtain ⟨tcs', content, calls', hreplyCalls, hturn, hentries, hreplay⟩ :=
    h 0 _ n hparse 0 counts _ hdump
  rw [parseToolCalls_toolCallsReply 0 counts hutf8 hdump] at hreplyCalls
  obtain rfl := Option.some.inj hreplyCalls
  rw [calledTools_of_writes hwrites hread] at hentries
  obtain rfl := Option.some.inj hentries
  exact (calledTools_turn_iff hwrites hread hturn).mp hreplay

theorem replaysFaithfully_of_replayable {text : Text}
    (h : ∀ calls, blockCalls (blocksOf text) = some calls → ∀ call ∈ calls, Replayable call) :
    ReplaysFaithfully text := by
  intro counter entries n hparse created counts response hdump
  obtain ⟨⟨tcs, n'⟩, htcs, heq⟩ := Option.map_eq_some_iff.mp hparse
  obtain ⟨rfl, rfl⟩ := Prod.mk.inj heq
  obtain ⟨calls, hcalls, hwrites⟩ := qwenToolCalls_eq_some htcs
  have hread := callRead_of_blockCalls hcalls
  have hutf8 := isUtf8_of_writes hwrites hread
  have hturn := messageTurn_toolCallsMessage hutf8
  exact ⟨tcs, _, calls, parseToolCalls_toolCallsReply created counts hutf8 hdump, hturn,
    calledTools_of_writes hwrites hread,
    (calledTools_turn_iff hwrites hread hturn).mpr (h calls hcalls)⟩

/-- **Which outputs of the model are replayed faithfully**: those whose calls are all read back
from their blocks. -/
theorem replaysFaithfully_iff (text : Text) : ReplaysFaithfully text ↔
    ∀ calls, blockCalls (blocksOf text) = some calls → ∀ call ∈ calls, Replayable call :=
  ⟨fun h _ hcalls => replayable_of_replaysFaithfully h hcalls, replaysFaithfully_of_replayable⟩

/-- An output that calls a tool with a quote in its name. -/
def quotedName : Text := "<tool_call>\x7b\"name\":\"a\\\"b\"\x7d</tool_call>".toList

/-- A quote in the name of a tool breaks the block that the name is pasted into. -/
theorem not_replaysFaithfully : ¬ ∀ text : Text, ReplaysFaithfully text := by
  intro h
  have hnames : (blockCalls (blocksOf quotedName)).map (List.map Prod.fst) =
      some ["a\"b".toList] := by decide +kernel
  obtain ⟨calls, hcalls, hname⟩ := Option.map_eq_some_iff.mp hnames
  have hmem : "a\"b".toList ∈ calls.map Prod.fst := by
    rw [hname]
    exact List.mem_singleton_self _
  obtain ⟨call, hcall, heq⟩ := List.mem_map.mp hmem
  have hplain := (replayable_of_replaysFaithfully (h quotedName) hcalls call hcall).plain
  rw [heq] at hplain
  exact absurd (hplain '"' (by decide)) (by decide)

end Llamaste
