import Llamaste.AgentReplies

/-!
# Which conversations can be sent

A request is written from the system prompt, the messages and the descriptions of the tools.
The serialiser throws where one of these is not UTF-8; everything else in a request is
fixed, or was parsed.

## Main results

* `isSome_buildInferenceRequest_iff`: a request is built when all its strings are UTF-8.
* `Message.IsUtf8.sendable`: a message whose strings are UTF-8 can be sent.
-/

namespace Llamaste

/-- The message can be part of a request. -/
def Message.Sendable (msg : Message) : Prop := msg.json.utf8 = true

/-- The names and descriptions of the tools are UTF-8. -/
def ToolRegistry.IsUtf8 (reg : ToolRegistry) : Prop :=
  ∀ tool ∈ reg.tools, Utf8.valid tool.name = true ∧ Utf8.valid tool.description = true

/-! ### The keys of a request -/

theorem valid_content : Utf8.valid "content".toList = true := by decide

theorem valid_role : Utf8.valid "role".toList = true := by decide

theorem valid_name : Utf8.valid "name".toList = true := by decide

theorem valid_function : Utf8.valid "function".toList = true := by decide

theorem valid_type : Utf8.valid "type".toList = true := by decide

/-- A member whose key is UTF-8 can be written when its value can. -/
theorem utf8_members_cons {k : Text} (hk : Utf8.valid k = true) (v : Json)
    (ms : List (Text × Json)) :
    (Json.obj ((k, v) :: ms)).utf8 = (v.utf8 && (Json.obj ms).utf8) := by
  rw [Json.utf8_obj, Json.utf8_obj, List.all_cons, hk, Bool.true_and]

theorem utf8_members_nil : (Json.obj []).utf8 = true := rfl

/-! ### Tools -/

theorem utf8_emptySchema : ToolRegistry.emptySchema.utf8 = true := by decide

theorem utf8_toolJson (tool : ToolDef) :
    (ToolRegistry.toolJson tool).utf8 = true ↔
      Utf8.valid tool.name = true ∧ Utf8.valid tool.description = true := by
  have hparameters : ((Json.parse tool.parameters).getD ToolRegistry.emptySchema).utf8 = true := by
    cases hparse : Json.parse tool.parameters with
    | none => exact utf8_emptySchema
    | some j => exact (Json.wellFormed_of_parse hparse).utf8
  have hdescription : Utf8.valid "description".toList = true := by decide
  have hkey : Utf8.valid "parameters".toList = true := by decide
  rw [ToolRegistry.toolJson, utf8_members_cons valid_function, utf8_members_cons hdescription,
    utf8_members_cons valid_name, utf8_members_cons hkey, utf8_members_cons valid_type,
    utf8_members_nil, Json.utf8_str, Json.utf8_str, Json.utf8_str, hparameters, valid_function,
    Bool.and_true, Bool.and_true, Bool.and_true, Bool.and_eq_true, and_comm]

/-- The tools are listed when their names and descriptions are UTF-8. -/
theorem isSome_toOpenaiToolsJson_iff {reg : ToolRegistry} :
    reg.toOpenaiToolsJson.isSome = true ↔ reg.IsUtf8 := by
  rw [ToolRegistry.toOpenaiToolsJson, Json.isSome_dump, Json.utf8_arr, List.all_eq_true]
  constructor
  · intro h tool htool
    refine (utf8_toolJson tool).mp (h _ (List.mem_map_of_mem ?_))
    exact List.mem_mergeSort.mpr htool
  · rintro h _ hjson
    obtain ⟨tool, htool, rfl⟩ := List.mem_map.mp hjson
    exact (utf8_toolJson tool).mpr (h tool (List.mem_mergeSort.mp htool))

/-! ### Messages -/

theorem utf8_toolCall_json (tc : ToolCall) : tc.json.utf8 = true ↔ tc.IsUtf8 := by
  have harguments : Utf8.valid "arguments".toList = true := by decide
  have hid : Utf8.valid "id".toList = true := by decide
  rw [ToolCall.json, utf8_members_cons valid_function, utf8_members_cons harguments,
    utf8_members_cons valid_name, utf8_members_cons hid, utf8_members_cons valid_type,
    utf8_members_nil, Json.utf8_str, Json.utf8_str, Json.utf8_str, Json.utf8_str, valid_function,
    Bool.and_true, Bool.and_true, Bool.and_true, Bool.and_eq_true, Bool.and_eq_true]
  exact ⟨fun ⟨⟨ha, hn⟩, hi⟩ => ⟨hi, hn, ha⟩, fun ⟨hi, hn, ha⟩ => ⟨⟨ha, hn⟩, hi⟩⟩

theorem valid_assistant : Utf8.valid "assistant".toList = true := by decide

theorem valid_tool : Utf8.valid "tool".toList = true := by decide

/-- A message that calls tools can be sent when the calls are UTF-8. -/
theorem sendable_toolCalls_iff {calls : List ToolCall} (hcalls : calls ≠ []) :
    (toolCallsMessage calls).Sendable ↔ ∀ tc ∈ calls, tc.IsUtf8 := by
  have hkey : Utf8.valid "tool_calls".toList = true := by decide
  have hnull : Json.null.utf8 = true := rfl
  have hrole : (toolCallsMessage calls).role = "assistant".toList := rfl
  have hcontent : (toolCallsMessage calls).toolCalls = calls := rfl
  rw [Message.Sendable, Message.json, hrole, hcontent, if_pos (And.intro rfl hcalls),
    utf8_members_cons valid_content, utf8_members_cons valid_role, utf8_members_cons hkey,
    utf8_members_nil, hnull, Json.utf8_str, valid_assistant, Json.utf8_arr, Bool.true_and,
    Bool.true_and, Bool.and_true, List.all_eq_true, List.forall_mem_map]
  exact forall₂_congr fun tc _ => utf8_toolCall_json tc

theorem tool_role_ne_assistant : ¬ "tool".toList = "assistant".toList := by decide

/-- The result of a call can be sent when it is UTF-8. -/
theorem sendable_result_iff {tc : ToolCall} (htc : tc.IsUtf8) {result : Text} :
    (toolResult tc.id tc.name result).Sendable ↔ Utf8.valid result = true := by
  have hkey : Utf8.valid "tool_call_id".toList = true := by decide
  rw [toolResult, Message.Sendable, Message.json, if_neg fun h => tool_role_ne_assistant h.1,
    if_pos rfl,
    utf8_members_cons valid_content, utf8_members_cons valid_name, utf8_members_cons valid_role,
    utf8_members_cons hkey, utf8_members_nil, Json.utf8_str, Json.utf8_str, Json.utf8_str,
    Json.utf8_str, htc.name, htc.id, valid_tool, Bool.and_true, Bool.and_true, Bool.and_true,
    Bool.and_true]

/-- All strings of a message are UTF-8. -/
structure Message.IsUtf8 (msg : Message) : Prop where
  role : Utf8.valid msg.role = true
  content : Utf8.valid msg.content = true
  toolCallId : Utf8.valid msg.toolCallId = true
  name : Utf8.valid msg.name = true
  toolCalls : ∀ tc ∈ msg.toolCalls, tc.IsUtf8

/-- All strings of a conversation are UTF-8. -/
structure ConversationState.IsUtf8 (conv : ConversationState) : Prop where
  systemPrompt : Utf8.valid conv.systemPrompt = true
  conversationId : Utf8.valid conv.conversationId = true
  messages : ∀ msg ∈ conv.messages, msg.IsUtf8

/-- A message whose strings are UTF-8 can be sent, whatever its role. -/
theorem Message.IsUtf8.sendable {msg : Message} (h : msg.IsUtf8) : msg.Sendable := by
  have hcalls : Utf8.valid "tool_calls".toList = true := by decide
  have hid : Utf8.valid "tool_call_id".toList = true := by decide
  rw [Message.Sendable, Message.json]
  split_ifs
  · have hall : (msg.toolCalls.map ToolCall.json).all Json.utf8 = true :=
      List.all_eq_true.mpr (List.forall_mem_map.mpr fun tc htc =>
        (utf8_toolCall_json tc).mpr (h.toolCalls tc htc))
    rw [utf8_members_cons valid_content, utf8_members_cons valid_role, utf8_members_cons hcalls,
      Json.utf8_str, h.role, Json.utf8_arr, hall]
    rfl
  · rw [utf8_members_cons valid_content, utf8_members_cons valid_name,
      utf8_members_cons valid_role, utf8_members_cons hid, Json.utf8_str, Json.utf8_str,
      Json.utf8_str, Json.utf8_str, h.content, h.name, h.role, h.toolCallId]
    rfl
  · rw [utf8_members_cons valid_content, utf8_members_cons valid_role, Json.utf8_str,
      Json.utf8_str, h.content, h.role]
    rfl

/-! ### Requests -/

/-- All strings of the conversation that are sent are UTF-8. -/
structure ConversationState.Sendable (conv : ConversationState) : Prop where
  systemPrompt : Utf8.valid conv.systemPrompt = true
  messages : ∀ msg ∈ conv.messages, msg.Sendable

theorem utf8_toMessagesJson_iff {conv : ConversationState} :
    conv.toMessagesJson.utf8 = true ↔ conv.Sendable := by
  have hmessages : (conv.messages.map Message.json).all Json.utf8 = true ↔
      ∀ msg ∈ conv.messages, msg.Sendable := by
    rw [List.all_eq_true, List.forall_mem_map]
    rfl
  have hsystem : Utf8.valid "system".toList = true := by decide
  rw [ConversationState.toMessagesJson, Json.utf8_arr, List.all_append, Bool.and_eq_true,
    hmessages]
  split_ifs with hprompt
  · exact ⟨fun h => ⟨by rw [hprompt]; rfl, h.2⟩, fun h => ⟨rfl, h.messages⟩⟩
  · rw [List.all_cons, List.all_nil, utf8_members_cons valid_content,
      utf8_members_cons valid_role, utf8_members_nil, Json.utf8_str, Json.utf8_str, hsystem,
      Bool.and_true, Bool.and_true, Bool.and_true]
    exact ⟨fun h => ⟨h.1, h.2⟩, fun h => ⟨h.systemPrompt, h.messages⟩⟩

/-- The members of a request that do not depend on the conversation can be written. -/
theorem utf8_request {messages : Json} {tools : List (Text × Json)}
    (htools : (Json.obj tools).utf8 = true) :
    (Json.obj ([
      ("max_tokens".toList, .int 2048),
      ("messages".toList, messages),
      ("model".toList, .str "llamaste".toList),
      ("stop".toList, .arr [.str "<|im_end|>".toList, .str "<|endoftext|>".toList,
        .str "<|im_start|>".toList]),
      ("stream".toList, .bool false),
      ("temperature".toList, requestTemperature)] ++ tools)).utf8 = messages.utf8 := by
  have hstop : (Json.arr [.str "<|im_end|>".toList, .str "<|endoftext|>".toList,
    .str "<|im_start|>".toList]).utf8 = true := by decide
  have hmodel : (Json.str "llamaste".toList).utf8 = true := by decide
  simp only [List.cons_append, List.nil_append]
  rw [utf8_members_cons (k := "max_tokens".toList) (by decide),
    utf8_members_cons (k := "messages".toList) (by decide),
    utf8_members_cons (k := "model".toList) (by decide),
    utf8_members_cons (k := "stop".toList) (by decide),
    utf8_members_cons (k := "stream".toList) (by decide),
    utf8_members_cons (k := "temperature".toList) (by decide), htools, hstop, hmodel]
  have hint : (Json.int 2048).utf8 = true := rfl
  have hbool : (Json.bool false).utf8 = true := rfl
  have hfloat : requestTemperature.utf8 = true := rfl
  rw [hint, hbool, hfloat]
  simp only [Bool.and_true, Bool.true_and]

theorem utf8_requestTools (toolsText : Text) : (Json.obj (requestTools toolsText)).utf8 = true := by
  rw [requestTools]
  split
  · rename_i tool rest hparse
    rw [utf8_members_cons (by decide), (Json.wellFormed_of_parse hparse).utf8]
    rfl
  · rfl

/-- **A request is built** when the conversation and the tools are UTF-8. -/
theorem isSome_buildInferenceRequest_iff (conv : ConversationState) (reg : ToolRegistry) :
    (buildInferenceRequest conv reg).isSome = true ↔ reg.IsUtf8 ∧ conv.Sendable := by
  rw [← isSome_toOpenaiToolsJson_iff, ← utf8_toMessagesJson_iff, buildInferenceRequest]
  cases reg.toOpenaiToolsJson with
  | none => simp
  | some toolsText =>
      rw [Option.bind_eq_bind, Option.bind_some, Json.isSome_dump,
        utf8_request (utf8_requestTools toolsText)]
      simp

end Llamaste
