import Llamaste.ChatPrompt
import Llamaste.QwenCalls
import Llamaste.ToolGrammar

/-!
# Inference by the engine

A request is rendered to a prompt, the engine completes it, and the text that comes back is
read for tool calls. A malformed call is asked for again under a grammar. The answer is a chat
completion. An exception is `none`. Source: `child_main.cpp`.
-/

namespace Llamaste

/-! ### Answers -/

/-- The choice of a chat completion. -/
def choiceJson (reason : Text) (message : Json) : Json :=
  .obj [("finish_reason".toList, .str reason), ("index".toList, .int 0),
    ("message".toList, message)]

/-- A chat completion with one choice. -/
def completionJson (id model : Text) (usage choice : Json) : Json :=
  .obj [("choices".toList, .arr [choice]), ("id".toList, .str id),
    ("model".toList, .str model), ("object".toList, .str "chat.completion".toList),
    ("usage".toList, usage)]

/-- The counts of tokens. -/
def usageJson (completion prompt total : ℤ) : Json :=
  .obj [("completion_tokens".toList, .int completion), ("prompt_tokens".toList, .int prompt),
    ("total_tokens".toList, .int total)]

/-- The message of an assistant that answers with text. -/
def textMessage (content : Text) : Json :=
  .obj [("content".toList, .str content), ("role".toList, .str "assistant".toList)]

/-- The message of an assistant that calls tools. -/
def callsMessage (entries : List Json) : Json :=
  .obj [("content".toList, .null), ("role".toList, .str "assistant".toList),
    ("tool_calls".toList, .arr entries)]

/-- `make_inference_error`. -/
def makeInferenceError (message : Text) : Option Text :=
  (completionJson "chatcmpl-error".toList "llamaste-error".toList (usageJson 0 0 0)
    (choiceJson "stop".toList (textMessage message))).dump

/-- The answer that holds calls. -/
def toolCallsReply (created : ℤ) (usage : Json) (entries : List Json) : Json :=
  completionJson ("chatcmpl-".toList ++ Json.dumpInt created) "llamaste".toList usage
    (choiceJson "tool_calls".toList (callsMessage entries))

/-- The answer of text. -/
def textReply (created : ℤ) (usage : Json) (content : Text) : Json :=
  completionJson ("chatcmpl-".toList ++ Json.dumpInt created) "llamaste".toList usage
    (choiceJson "stop".toList (textMessage (stripToolCallResidue content)))

/-! ### The answer without a model -/

/-- The content of the last message of the user; the messages come last one first. -/
def lastUserText : List Json → Option Text
  | [] => some []
  | m :: rest => do
    let role ← m.value Json.getString "role".toList []
    if role = "user".toList then m.value Json.getString "content".toList []
    else lastUserText rest

/-- A text that contains one of some words. -/
def Mentions (text : Text) (words : List Text) : Bool :=
  words.any fun word => (Text.afterFirst word text).isSome

/-- What the stub says to a message. -/
def stubText (user : Text) : Text :=
  if user = [] then "I'm Llamaste, your LLM operating system. How can I help?".toList
  else if Mentions user ["hello".toList, "Hello".toList, "hi".toList] then
    "Hello! I'm Llamaste, your AI operating system. ".toList ++
      "I can help you manage files, check system status, configure settings, ".toList ++
      "and more. What would you like to do?".toList
  else if Mentions user ["file".toList, "ls".toList, "dir".toList] then
    "I can help you with file operations! I have tools like ".toList ++
      "`fs.list_directory`, `fs.read_file`, and `fs.write_file`. ".toList ++
      "What path would you like me to look at? ".toList ++
      "(Note: in stub mode, tool calls are simulated.)".toList
  else if Mentions user ["system".toList, "status".toList, "info".toList] then
    "I can check the system status for you. The dashboard in the ".toList ++
      "sidebar shows real-time CPU, memory, disk, and temperature data. ".toList ++
      "You can also ask me to run specific system tools.".toList
  else
    "I understand your request. In the current Phase 1 build, ".toList ++
      "I'm running in stub mode without a real language model. ".toList ++
      "Once a model is loaded, I'll be able to give you intelligent responses ".toList ++
      "and use my 25 system tools to interact with the OS. ".toList ++
      "For now, the web UI, dashboard, and API endpoints are all functional.".toList

/-- The messages of a request, where it has a list of them. -/
def requestMessages (req : Json) : Option (List Json) :=
  match req.find "messages".toList with
  | some (.arr msgs) => some msgs
  | _ => none

/-- `stub_inference`. -/
def stubInference (request : Text) : Option Text := do
  let user ← match (Json.parse request).bind requestMessages with
    | some msgs => lastUserText msgs.reverse
    | none => some []
  (completionJson "chatcmpl-stub-001".toList "llamaste-stub".toList (usageJson 0 0 0)
    (choiceJson "stop".toList (textMessage (stubText user)))).dump

/-! ### The engine -/

/-- What an inference meets outside of the program. -/
structure Outside where
  /-- Whether a model is loaded. -/
  loaded : Bool
  /-- The answers of the engine to the request and to the retry: a status and a body. -/
  post : Text → Option (ℤ × Text)
  retryPost : Text → Option (ℤ × Text)
  /-- The time that numbers the answer. -/
  created : ℤ
  /-- A number in single precision. -/
  single : Json → Json
  /-- A number in single precision, cooled down by 0.2 to no less than 0.1. -/
  cooler : Json → Json

/-- `get<float>()` and `get<double>()`, the number left as it is written. -/
def getNumber (bools : Bool) : Json → Option Json
  | .int n => some (.int n)
  | .float m e => some (.float m e)
  | .bool b => if bools then some (.int (if b then 1 else 0)) else none
  | _ => none

/-- The body of a request to the engine. -/
def completionRequest (prompt : Text) (maxTokens : ℤ) (temperature : Json) (grammar : Text) :
    Json :=
  .obj ((if grammar = [] then [] else [("grammar".toList, Json.str grammar)]) ++
    [("n_predict".toList, .int maxTokens), ("prompt".toList, .str prompt),
      ("stop".toList, .arr [.str "<|im_end|>".toList, .str "<|endoftext|>".toList,
        .str "<|im_start|>".toList]),
      ("stream".toList, .bool false), ("temperature".toList, temperature)])

/-- The text of a completion, where it is a string. -/
def completionText (body : Text) : Option Text :=
  ((Json.parse body).bind (Json.find "content".toList)).bind Json.getString

/-- Whether the speed can be read from a completion. -/
def timingsReadable (resp : Json) : Bool :=
  match resp.find "timings".toList with
  | none => true
  | some t => (t.value (getNumber false) "predicted_per_second".toList (.int 0)).isSome

/-- The counts of tokens of a completion. A body that is no JSON counts nothing. -/
def completionUsage (body : Text) : Option Json :=
  match Json.parse body with
  | none => some (usageJson 0 0 0)
  | some resp => do
    let prompt ← resp.value Json.getInt32 "tokens_evaluated".toList 0
    let completion ← resp.value Json.getInt32 "tokens_predicted".toList 0
    if timingsReadable resp then
      some (usageJson completion prompt (CInt.toInt32 (prompt + completion)))
    else none

/-- The retry under the grammar of the tools: the text and its calls, if it has any. -/
def grammarRetry (w : Outside) (counter : ℤ) (req : Json) (prompt : Text) (maxTokens : ℤ)
    (temperature : Json) : Option (Option (Text × List Json) × ℤ) := do
  let tools ← req.value some "tools".toList (.arr [])
  let grammar := buildToolCallGbnf tools
  if grammar = [] then some (none, counter)
  else do
    let body ← (completionRequest prompt maxTokens (w.cooler temperature) grammar).dump
    match w.retryPost body with
    | some (200, answer) =>
      match completionText answer with
      | none => some (none, counter)
      | some content => do
        let (entries, counter) ← parseQwenToolCalls counter content
        if entries = [] then some (none, counter)
        else if (Json.parse answer).all timingsReadable then
          some (some (content, entries), counter)
        else none
    | _ => some (none, counter)

/-- `llama_inference` behind the cache: the answer, and whether it is text that may be kept. -/
def completeRequest (w : Outside) (counter : ℤ) (request : Text) :
    Option ((Text × Bool) × ℤ) :=
  match Json.parse request with
  | none => do
    let text ← makeInferenceError "[inference error: failed to parse request]".toList
    some ((text, false), counter)
  | some req => do
    let maxTokens ← req.value Json.getInt32 "max_tokens".toList 2048
    let temperature ← req.value (getNumber true) "temperature".toList requestTemperature
    let prompt ← match requestMessages req with
      | some msgs => buildChatmlPrompt (.arr msgs)
      | none => some ("<|im_start|>user\nhello<|im_end|>\n<|im_start|>assistant\n".toList)
    let body ← (completionRequest prompt maxTokens (w.single temperature) []).dump
    match w.post body with
    | none => do
      let text ← makeInferenceError "[inference error: llama-server unreachable]".toList
      some ((text, false), counter)
    | some (status, answer) =>
      if status ≠ 200 then do
        let text ← makeInferenceError ("[inference error: llama-server returned HTTP ".toList ++
          Json.dumpInt status ++ "]".toList)
        some ((text, false), counter)
      else do
        let content := (completionText answer).getD []
        let (entries, counter) ← parseQwenToolCalls counter content
        let (retried, counter) ←
          if entries = [] ∧ (Text.afterFirst toolCallStart content).isSome then
            grammarRetry w counter req prompt maxTokens temperature
          else some (none, counter)
        let (content, entries) := retried.getD (content, entries)
        let usage ← completionUsage answer
        if entries = [] then do
          let text ← (textReply w.created usage content).dump
          some ((text, true), counter)
        else do
          let text ← (toolCallsReply w.created usage entries).dump
          some ((text, false), counter)

end Llamaste
