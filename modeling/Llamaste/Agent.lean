import Llamaste.Lib.JsonDump

/-!
# The agent loop

A turn asks the inference engine for a reply, runs the tools that the reply calls, appends
the calls and their results to the conversation and asks again, until a reply is text or
the rounds are used up. Requests and replies are JSON, and so are the arguments of a call.

An exception is `none` where it leaves a function of the loop. The inference function and
the handlers may do anything each time they are called, so both are also given which call it
is: the round, and for a handler the position in the round.

Source: `agent.cpp`, `tools.cpp`.
-/

namespace Llamaste

/-- What the inference function or a handler throws: an exception with a text (`what()`), or
anything else. -/
inductive Thrown
  | what (text : Text)
  | other

/-! ### Tools -/

/-- `ToolDef`. -/
structure ToolDef where
  name : Text
  description : Text
  parameters : Text
  handler : ℕ × ℕ → Text → Except Thrown Text
  requiresConfirmation : Bool := false

/-- `ToolRegistry`. No two tools have the same name. -/
structure ToolRegistry where
  tools : List ToolDef := []
  nodup : (tools.map ToolDef.name).Nodup := by decide

namespace ToolRegistry

/-- `tools_.find`. -/
def find (reg : ToolRegistry) (name : Text) : Option ToolDef :=
  reg.tools.find? (·.name = name)

/-- An answer of the registry itself. -/
def errorJson (error : Text) : Json := .obj [("error".toList, .str error)]

/-- An answer that asks for confirmation. -/
def confirmJson (name : Text) : Json :=
  .obj [
    ("confirm_required".toList, .bool true),
    ("error".toList, .str ("confirmation required for tool: ".toList ++ name))]

/-- The result of a handler, or the answer to what it throws. -/
def answer : Except Thrown Text → Option Text
  | .ok result => some result
  | .error (.what text) => (errorJson ("tool execution failed: ".toList ++ text)).dump
  | .error .other => (errorJson "tool execution failed: unknown error".toList).dump

/-- `dispatch`, without confirmation. -/
def dispatch (reg : ToolRegistry) (call : ℕ × ℕ) (name arguments : Text) : Option Text :=
  match reg.find name with
  | none => (errorJson ("unknown tool: ".toList ++ name)).dump
  | some tool =>
    if tool.requiresConfirmation then (confirmJson name).dump
    else answer (tool.handler call arguments)

/-- The schema that stands in for parameters that are no JSON. -/
def emptySchema : Json :=
  .obj [("properties".toList, .obj []), ("type".toList, .str "object".toList)]

/-- A tool as the inference engine is told of it. -/
def toolJson (tool : ToolDef) : Json :=
  .obj [
    ("function".toList, .obj [
      ("description".toList, .str tool.description),
      ("name".toList, .str tool.name),
      ("parameters".toList, (Json.parse tool.parameters).getD emptySchema)]),
    ("type".toList, .str "function".toList)]

/-- `to_openai_tools_json`: all tools, by name. -/
def toOpenaiToolsJson (reg : ToolRegistry) : Option Text :=
  (Json.arr ((reg.tools.mergeSort fun a b => !decide (b.name < a.name)).map toolJson)).dump

end ToolRegistry

/-! ### Conversations -/

/-- `ToolCall`. -/
structure ToolCall where
  id : Text := []
  name : Text := []
  arguments : Text := []
  deriving DecidableEq, Repr

/-- `Message`. -/
structure Message where
  role : Text
  content : Text := []
  toolCallId : Text := []
  name : Text := []
  toolCalls : List ToolCall := []
  deriving DecidableEq, Repr

/-- `ConversationState`. -/
structure ConversationState where
  systemPrompt : Text := []
  conversationId : Text := []
  messages : List Message := []
  deriving DecidableEq, Repr

/-- The message that `add_user_message` appends. -/
def userMessage (content : Text) : Message := { role := "user".toList, content }

/-- The message that `add_assistant_message` appends. -/
def assistantMessage (content : Text) : Message := { role := "assistant".toList, content }

/-- The message that `add_assistant_tool_calls` appends. -/
def toolCallsMessage (calls : List ToolCall) : Message :=
  { role := "assistant".toList, toolCalls := calls }

/-- The message that `add_tool_result` appends. -/
def toolResult (callId name result : Text) : Message :=
  { role := "tool".toList, toolCallId := callId, name, content := result }

namespace ConversationState

/-- Every `add_` function appends one message. -/
def push (conv : ConversationState) (msg : Message) : ConversationState :=
  { conv with messages := conv.messages ++ [msg] }

/-- `add_user_message`. -/
def addUserMessage (conv : ConversationState) (content : Text) : ConversationState :=
  conv.push (userMessage content)

/-- `add_assistant_message`. -/
def addAssistantMessage (conv : ConversationState) (content : Text) : ConversationState :=
  conv.push (assistantMessage content)

/-- `add_assistant_tool_calls`. -/
def addAssistantToolCalls (conv : ConversationState) (calls : List ToolCall) :
    ConversationState :=
  conv.push (toolCallsMessage calls)

/-- `add_tool_result`. -/
def addToolResult (conv : ConversationState) (callId name result : Text) : ConversationState :=
  conv.push (toolResult callId name result)

end ConversationState

/-- A tool call in a request. -/
def ToolCall.json (tc : ToolCall) : Json :=
  .obj [
    ("function".toList, .obj [
      ("arguments".toList, .str tc.arguments),
      ("name".toList, .str tc.name)]),
    ("id".toList, .str tc.id),
    ("type".toList, .str "function".toList)]

/-- A message in a request. -/
def Message.json (msg : Message) : Json :=
  if msg.role = "assistant".toList ∧ msg.toolCalls ≠ [] then
    .obj [
      ("content".toList, .null),
      ("role".toList, .str msg.role),
      ("tool_calls".toList, .arr (msg.toolCalls.map ToolCall.json))]
  else if msg.role = "tool".toList then
    .obj [
      ("content".toList, .str msg.content),
      ("name".toList, .str msg.name),
      ("role".toList, .str msg.role),
      ("tool_call_id".toList, .str msg.toolCallId)]
  else
    .obj [("content".toList, .str msg.content), ("role".toList, .str msg.role)]

/-- `to_messages_json`: the system prompt, if there is one, and the messages. -/
def ConversationState.toMessagesJson (conv : ConversationState) : Json :=
  .arr ((if conv.systemPrompt = [] then [] else
      [.obj [("content".toList, .str conv.systemPrompt),
        ("role".toList, .str "system".toList)]]) ++
    conv.messages.map Message.json)

/-- A message that holds the results of calls may not start a conversation. -/
def Message.isTool (msg : Message) : Bool := msg.role = "tool".toList

/-- An assistant message that calls tools. -/
def Message.isToolCalls (msg : Message) : Bool :=
  msg.role = "assistant".toList && msg.toolCalls ≠ []

/-- The loop of `truncate` that removes what has lost its calls, or its place. -/
def dropOrphans : List Message → List Message
  | [] => []
  | msg :: rest =>
    if msg.isTool then dropOrphans rest
    else if msg.isToolCalls then dropOrphans (rest.dropWhile Message.isTool)
    else msg :: rest
termination_by msgs => msgs.length
decreasing_by
  · simp
  · have hle := (List.dropWhile_sublist (l := rest) Message.isTool).length_le
    simp only [List.length_cons]
    omega

/-- `truncate`. -/
def ConversationState.truncate (conv : ConversationState) (maxMessages : ℤ) :
    ConversationState :=
  let maxMessages := (max maxMessages 0).toNat
  if conv.messages.length ≤ maxMessages then
    conv
  else
    { conv with
      messages := dropOrphans (conv.messages.drop (conv.messages.length - maxMessages)) }

/-! ### Replies -/

/-- `choices[0].message` of a reply, where it has one. -/
def replyMessage (j : Json) : Option Json :=
  match j.find "choices".toList with
  | some (.arr (choice :: _)) => choice.find "message".toList
  | _ => none

/-- The arguments of a call: a string as it stands, any other value written out. -/
def parseArguments : Option Json → Option Text
  | none => some "\x7b\x7d".toList
  | some .null => some "\x7b\x7d".toList
  | some (.str s) => some s
  | some v => v.dump

/-- One entry of `tool_calls`. -/
def parseToolCall (tc : Json) : Option ToolCall := do
  let id ← tc.value Json.getString "id".toList []
  match tc.find "function".toList with
  | some (.obj members) =>
    let name ← (Json.obj members).value Json.getString "name".toList []
    let arguments ← parseArguments ((Json.obj members).find "arguments".toList)
    some { id, name, arguments }
  | _ => some { id }

/-- `parse_tool_calls`. -/
def parseToolCalls (response : Text) : Option (List ToolCall) :=
  match (Json.parse response).bind replyMessage with
  | some message =>
    match message.find "tool_calls".toList with
    | some (.arr entries) => entries.mapM parseToolCall
    | _ => some []
  | none => some []

/-- `parse_content`. -/
def parseContent (response : Text) : Option Text :=
  match (Json.parse response).bind replyMessage with
  | some message =>
    match message.find "content".toList with
    | none => some []
    | some .null => some []
    | some content => content.getString
  | none => some []

def toolCallStart : Text := "<tool_call>"
def toolCallEnd : Text := "</tool_call>"

/-- The text outside of the tagged blocks. What follows an opening tag that is never closed
is dropped. -/
def stripBlocks (text : Text) : Text :=
  match _h : Text.splitFirst toolCallStart text with
  | none => text
  | some (before, inside) =>
    match _h' : Text.afterFirst toolCallEnd inside with
    | none => before
    | some rest => before ++ stripBlocks rest
termination_by text.length
decreasing_by
  have hsplit := congrArg List.length (Text.eq_append_of_splitFirst _h)
  obtain ⟨t, ht⟩ := Text.eq_append_of_afterFirst _h'
  have hrest := congrArg List.length ht
  have hstart : toolCallStart.length = 11 := rfl
  simp only [List.length_append] at hsplit hrest
  omega

/-- Closing tags without an opening one are cut out, the first one first. -/
def stripEnds (text : Text) : Text :=
  match _h : Text.splitFirst toolCallEnd text with
  | none => text
  | some (before, after) => stripEnds (before ++ after)
termination_by text.length
decreasing_by
  have hsplit := congrArg List.length (Text.eq_append_of_splitFirst _h)
  have hend : toolCallEnd.length = 12 := rfl
  simp only [List.length_append] at hsplit ⊢
  omega

/-- `strip_tool_call_residue`. -/
def stripToolCallResidue (text : Text) : Text := Text.trim Json.isWs (stripEnds (stripBlocks text))

/-! ### The turn -/

/-- The temperature of a request, 0.7 in single precision. -/
def requestTemperature : Json := .float 699999988079071044921875 (-24)

/-- The tools of a request, where there are any. -/
def requestTools (toolsText : Text) : List (Text × Json) :=
  match Json.parse toolsText with
  | some (.arr (tool :: rest)) => [("tools".toList, Json.arr (tool :: rest))]
  | _ => []

/-- `build_inference_request`, with the defaults of its last two arguments. -/
def buildInferenceRequest (conv : ConversationState) (reg : ToolRegistry) : Option Text := do
  let toolsText ← reg.toOpenaiToolsJson
  (Json.obj ([
    ("max_tokens".toList, .int 2048),
    ("messages".toList, conv.toMessagesJson),
    ("model".toList, .str "llamaste".toList),
    ("stop".toList, .arr [.str "<|im_end|>".toList, .str "<|endoftext|>".toList,
      .str "<|im_start|>".toList]),
    ("stream".toList, .bool false),
    ("temperature".toList, requestTemperature)] ++ requestTools toolsText)).dump

/-- A long result is cut. -/
def shorten (result : Text) : Text :=
  if result.length > 4000 then result.take 4000 ++ "...(truncated)".toList else result

/-- The text that stands for a failed inference. -/
def inferenceError : Thrown → Text
  | .what text => "[Inference error: ".toList ++ text ++ "]".toList
  | .other => "[Inference error: unknown]".toList

/-- The answer to a reply of text. -/
def replyText (content : Text) : Text :=
  if stripToolCallResidue content = [] then "[No response from inference engine]".toList
  else stripToolCallResidue content

/-- The calls of a round are dispatched in order and their results appended. The loop stops
where a dispatch throws. -/
def addResults (reg : ToolRegistry) (round : ℕ) :
    ℕ → List ToolCall → ConversationState → Bool × ConversationState
  | _, [], conv => (true, conv)
  | i, tc :: rest, conv =>
    match reg.dispatch (round, i) tc.name tc.arguments with
    | none => (false, conv)
    | some result =>
      addResults reg round (i + 1) rest (conv.addToolResult tc.id tc.name (shorten result))

/-- How a round ends: the turn returns a text, it throws, or the next round follows. -/
inductive RoundEnd
  | returns (text : Text)
  | throws
  | continues
  deriving DecidableEq

/-- The round is followed by the next one when all its calls were answered. -/
def roundEnd (r : Bool × ConversationState) : RoundEnd × ConversationState :=
  (if r.1 then .continues else .throws, r.2)

theorem roundEnd_true (conv : ConversationState) : roundEnd (true, conv) = (.continues, conv) := rfl

theorem roundEnd_false (conv : ConversationState) : roundEnd (false, conv) = (.throws, conv) := rfl

/-- One round of `agent_turn`. -/
def agentRound (reg : ToolRegistry) (inferenceFn : ℕ → Except Thrown Text) (round : ℕ)
    (conv : ConversationState) : RoundEnd × ConversationState :=
  match buildInferenceRequest conv reg with
  | none => (.throws, conv)
  | some _ =>
    match inferenceFn round with
    | .error e => (.returns (inferenceError e), conv.addAssistantMessage (inferenceError e))
    | .ok response =>
      match parseToolCalls response with
      | none => (.throws, conv)
      | some [] =>
        match parseContent response with
        | none => (.throws, conv)
        | some content =>
          (.returns (replyText content), conv.addAssistantMessage (replyText content))
      | some calls => roundEnd (addResults reg round 0 calls (conv.addAssistantToolCalls calls))

/-- The text that stands for a turn without a final reply. -/
def maxRoundsText : Text :=
  "[Agent reached maximum tool call rounds without producing a final response]"

/-- The rounds that are left, from a round on. -/
def agentLoop (reg : ToolRegistry) (inferenceFn : ℕ → Except Thrown Text) :
    ℕ → ℕ → ConversationState → Option Text × ConversationState
  | 0, _, conv => (some maxRoundsText, conv)
  | n + 1, round, conv =>
    match agentRound reg inferenceFn round conv with
    | (.returns text, conv) => (some text, conv)
    | (.throws, conv) => (none, conv)
    | (.continues, conv) => agentLoop reg inferenceFn n (round + 1) conv

/-- `agent_turn`: what it returns, if it does not throw, and the conversation it leaves. -/
def agentTurn (conv : ConversationState) (reg : ToolRegistry)
    (inferenceFn : ℕ → Except Thrown Text) (maxRounds : ℤ) : Option Text × ConversationState :=
  agentLoop reg inferenceFn maxRounds.toNat 0 conv

end Llamaste
