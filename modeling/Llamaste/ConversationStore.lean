import Llamaste.AgentRequest

/-!
# Stored conversations

A conversation is written to a file as one JSON document and read back from it. Members
without content are left out when a message is written, and stand at their defaults when it
is read. An exception is `none`. Source: `agent.cpp`.

## Main results

* `deserialize_serialize`: a conversation in UTF-8 is written and read back.
-/

namespace Llamaste

/-! ### Writing -/

/-- A string member that is left out when it is empty. -/
def optionalMember (key val : Text) : List (Text × Json) :=
  if val = [] then [] else [(key, .str val)]

/-- A tool call as it is stored. -/
def ToolCall.storedJson (tc : ToolCall) : Json :=
  .obj [("arguments".toList, .str tc.arguments), ("id".toList, .str tc.id),
    ("name".toList, .str tc.name)]

/-- The members of a stored message, in key order. -/
def Message.storedMembers (msg : Message) : List (Text × Json) :=
  [("content".toList, Json.str msg.content)] ++ optionalMember "name" msg.name ++
    [("role".toList, Json.str msg.role)] ++ optionalMember "tool_call_id" msg.toolCallId ++
    if msg.toolCalls = [] then []
    else [("tool_calls".toList, Json.arr (msg.toolCalls.map ToolCall.storedJson))]

/-- A message as it is stored. -/
def Message.storedJson (msg : Message) : Json := .obj msg.storedMembers

namespace ConversationState

/-- The document of a conversation. -/
def storedJson (conv : ConversationState) : Json :=
  .obj [("conversation_id".toList, .str conv.conversationId),
    ("messages".toList, .arr (conv.messages.map Message.storedJson)),
    ("system_prompt".toList, .str conv.systemPrompt)]

/-- `serialize`. -/
def serialize (conv : ConversationState) : Option Text :=
  Json.dumpIndented 2 conv.storedJson

end ConversationState

/-! ### Reading -/

/-- An entry of `tool_calls`. -/
def readStoredToolCall (t : Json) : Option ToolCall := do
  let id ← t.value Json.getString "id".toList []
  let name ← t.value Json.getString "name".toList []
  let arguments ← t.value Json.getString "arguments".toList []
  some { id, name, arguments }

/-- The elements of an array member, each read; anything but an array has none. -/
def readElems {α : Type} (read : Json → Option α) : Option Json → Option (List α)
  | some (.arr elems) => elems.mapM read
  | _ => some []

/-- An entry of `messages`. -/
def readStoredMessage (m : Json) : Option Message := do
  let role ← m.value Json.getString "role".toList []
  let content ← m.value Json.getString "content".toList []
  let toolCallId ← m.value Json.getString "tool_call_id".toList []
  let name ← m.value Json.getString "name".toList []
  let toolCalls ← readElems readStoredToolCall (m.find "tool_calls".toList)
  some { role, content, toolCallId, name, toolCalls }

/-- `deserialize`. A text that is no JSON gives an empty conversation. -/
def ConversationState.deserialize (text : Text) : Option ConversationState :=
  match Json.parse text with
  | none => some {}
  | some j => do
    let systemPrompt ← j.value Json.getString "system_prompt".toList []
    let conversationId ← j.value Json.getString "conversation_id".toList []
    let messages ← readElems readStoredMessage (j.find "messages".toList)
    some { systemPrompt, conversationId, messages }

/-! ### Documents -/

theorem ToolCall.wellFormed_storedJson {tc : ToolCall} (h : tc.IsUtf8) :
    Json.WellFormed tc.storedJson := by
  refine .obj_of_keys (l := ["arguments".toList, "id".toList, "name".toList]) rfl (by decide)
    (by decide) ?_
  simp only [List.map_cons, List.map_nil, List.forall_mem_cons]
  exact ⟨.str h.arguments, .str h.id, .str h.name, fun _ h => nomatch h⟩

theorem keys_optionalMember (key val : Text) :
    ((optionalMember key val).map Prod.fst).Sublist [key] := by
  rw [optionalMember]
  split_ifs
  · exact List.nil_sublist _
  · exact List.Sublist.refl _

/-- The keys of a stored message are some of five, in order. -/
theorem Message.keys_storedMembers (msg : Message) :
    (msg.storedMembers.map Prod.fst).Sublist ["content".toList, "name".toList, "role".toList,
      "tool_call_id".toList, "tool_calls".toList] := by
  have hcalls : ((if msg.toolCalls = [] then []
      else [("tool_calls".toList, Json.arr (msg.toolCalls.map ToolCall.storedJson))]).map
        Prod.fst).Sublist ["tool_calls".toList] := by
    split_ifs
    · exact List.nil_sublist _
    · exact List.Sublist.refl _
  simp only [storedMembers, List.map_append]
  exact ((((List.Sublist.refl ["content".toList]).append (keys_optionalMember "name" _)).append
    (List.Sublist.refl ["role".toList])).append (keys_optionalMember "tool_call_id" _)).append
      hcalls

theorem Message.wellFormed_storedJson {msg : Message} (h : msg.IsUtf8) :
    Json.WellFormed msg.storedJson := by
  have hsorted : (["content".toList, "name".toList, "role".toList, "tool_call_id".toList,
      "tool_calls".toList] : List Text).Pairwise (· < ·) := by decide
  have hvalid : ∀ key ∈ ["content".toList, "name".toList, "role".toList, "tool_call_id".toList,
      "tool_calls".toList], Utf8.valid key = true := by decide
  have hmember : ∀ {key val : Text}, Utf8.valid val = true →
      ∀ kv ∈ optionalMember key val, Json.WellFormed kv.2 := by
    intro key val hval kv hkv
    rw [optionalMember] at hkv
    split_ifs at hkv
    · cases hkv
    · obtain rfl := List.mem_singleton.mp hkv
      exact .str hval
  refine .obj (List.pairwise_map.mp (hsorted.sublist msg.keys_storedMembers))
    (fun kv hkv => hvalid _ (msg.keys_storedMembers.subset (List.mem_map_of_mem hkv)))
    fun kv hkv => ?_
  rw [storedMembers] at hkv
  simp only [List.mem_append, List.mem_singleton] at hkv
  rcases hkv with (((rfl | hname) | rfl) | hid) | hcalls
  · exact .str h.content
  · exact hmember h.name kv hname
  · exact .str h.role
  · exact hmember h.toolCallId kv hid
  · split_ifs at hcalls
    · cases hcalls
    · obtain rfl := List.mem_singleton.mp hcalls
      refine .arr (List.forall_mem_map.mpr fun tc htc => ?_)
      exact ToolCall.wellFormed_storedJson (h.toolCalls tc htc)

theorem ConversationState.wellFormed_storedJson {conv : ConversationState} (h : conv.IsUtf8) :
    Json.WellFormed conv.storedJson := by
  refine .obj_of_keys (l := ["conversation_id".toList, "messages".toList,
    "system_prompt".toList]) rfl (by decide) (by decide) ?_
  simp only [List.map_cons, List.map_nil, List.forall_mem_cons]
  refine ⟨.str h.conversationId, .arr (List.forall_mem_map.mpr fun msg hmsg => ?_),
    .str h.systemPrompt, fun _ h => nomatch h⟩
  exact Message.wellFormed_storedJson (h.messages msg hmsg)

/-! ### Reading what was written -/

/-- A list is read back when its elements are. -/
theorem readElems_map {α : Type} {write : α → Json} {read : Json → Option α}
    (h : ∀ a, read (write a) = some a) (l : List α) :
    readElems read (some (.arr (l.map write))) = some l := by
  rw [readElems]
  induction l with
  | nil => rfl
  | cons a l ih => rw [List.map_cons, List.mapM_cons, h a, ih]; rfl

theorem readStoredToolCall_storedJson (tc : ToolCall) :
    readStoredToolCall tc.storedJson = some tc := rfl

theorem find_toolCalls_storedJson (msg : Message) :
    readElems readStoredToolCall (msg.storedJson.find "tool_calls".toList) =
      some msg.toolCalls := by
  have hfind : msg.storedJson.find "tool_calls".toList =
      if msg.toolCalls = [] then none
      else some (.arr (msg.toolCalls.map ToolCall.storedJson)) := by
    rw [Message.storedJson, Message.storedMembers, optionalMember, optionalMember]
    split_ifs <;> rfl
  rw [hfind]
  split_ifs with hcalls
  · rw [hcalls]
    rfl
  · exact readElems_map readStoredToolCall_storedJson msg.toolCalls

/-- A member that is left out is read as the empty string. -/
theorem value_name_storedJson (msg : Message) :
    msg.storedJson.value Json.getString "name".toList [] = some msg.name := by
  rw [Message.storedJson, Message.storedMembers, optionalMember, optionalMember]
  by_cases hname : msg.name = []
  · rw [if_pos hname, hname]
    split_ifs <;> rfl
  · rw [if_neg hname]
    split_ifs <;> rfl

theorem value_toolCallId_storedJson (msg : Message) :
    msg.storedJson.value Json.getString "tool_call_id".toList [] = some msg.toolCallId := by
  rw [Message.storedJson, Message.storedMembers, optionalMember, optionalMember]
  by_cases hid : msg.toolCallId = []
  · rw [if_pos hid, hid]
    split_ifs <;> rfl
  · rw [if_neg hid]
    split_ifs <;> rfl

theorem readStoredMessage_storedJson (msg : Message) :
    readStoredMessage msg.storedJson = some msg := by
  have hrole : msg.storedJson.value Json.getString "role".toList [] = some msg.role := by
    rw [Message.storedJson, Message.storedMembers, optionalMember]
    split_ifs <;> rfl
  have hcontent : msg.storedJson.value Json.getString "content".toList [] =
      some msg.content := rfl
  rw [readStoredMessage, hrole, hcontent, value_toolCallId_storedJson, value_name_storedJson,
    find_toolCalls_storedJson]
  rfl

/-! ### The round trip -/

/-- A conversation in UTF-8 is written. -/
theorem ConversationState.serialize_eq {conv : ConversationState} (h : conv.IsUtf8) :
    conv.serialize = some (Json.dumpAt (.indented 2) 0 conv.storedJson) :=
  if_pos (wellFormed_storedJson h).utf8

/-- **Round trip of a stored conversation.** A conversation in UTF-8 is written, and what is
read from the text is the conversation. -/
theorem deserialize_serialize (conv : ConversationState) (h : conv.IsUtf8) :
    ∃ text, conv.serialize = some text ∧
      ConversationState.deserialize text = some conv := by
  refine ⟨_, ConversationState.serialize_eq h, ?_⟩
  have hparse := Json.parse_dumpAt (L := .indented 2) 0 (u := [])
    (ConversationState.wellFormed_storedJson h) rfl
  have hmessages : readElems readStoredMessage (conv.storedJson.find "messages".toList) =
      some conv.messages := readElems_map readStoredMessage_storedJson conv.messages
  have hprompt : conv.storedJson.value Json.getString "system_prompt".toList [] =
      some conv.systemPrompt := rfl
  have hid : conv.storedJson.value Json.getString "conversation_id".toList [] =
      some conv.conversationId := rfl
  rw [List.append_nil] at hparse
  simp only [ConversationState.deserialize, hparse, hprompt, hid, hmessages,
    Option.bind_eq_bind, Option.bind_some]

/-- A conversation with a call and its result. -/
def storedSample : ConversationState where
  systemPrompt := "s"
  conversationId := "c"
  messages := [toolCallsMessage [⟨"1", "t", "\x7b\x7d"⟩], toolResult "1" "t" "ok"]

theorem isUtf8_storedSample : storedSample.IsUtf8 := by
  refine ⟨by decide, by decide, List.forall_mem_cons.mpr ⟨?_, List.forall_mem_singleton.mpr ?_⟩⟩
  · refine ⟨by decide, by decide, by decide, by decide, List.forall_mem_singleton.mpr ?_⟩
    exact ⟨by decide, by decide, by decide⟩
  · exact ⟨by decide, by decide, by decide, by decide, fun _ h => nomatch h⟩

theorem deserialize_serialize_sample :
    ∃ text, storedSample.serialize = some text ∧
      ConversationState.deserialize text = some storedSample :=
  deserialize_serialize storedSample isUtf8_storedSample

end Llamaste
