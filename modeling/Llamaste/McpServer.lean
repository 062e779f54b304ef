import Llamaste.AgentReplies
import Llamaste.Lib.JsonWellFormed

/-!
# The MCP server

Requests are JSON-RPC 2.0 objects, alone or in a batch. Each names a method, some of which call
tools. An exception of a method becomes an error reply; one outside of it escapes.

Source: `mcp_server.cpp`.

## Main results

* `repliesToAll_iff`: every request gets its reply, exactly when no request of the right version
  has a method that is no string, and every tool that is called returns UTF-8.
-/

namespace Llamaste

/-- The server: its tools, the session ids that it draws, and the texts of the exceptions of the
JSON library, by the position of the request. -/
structure McpServer where
  tools : ToolRegistry
  newSession : ℕ → Text
  what : ℕ → {text : Text // Utf8.valid text = true}

/-- What a method throws: `std::invalid_argument`, or an exception of the JSON library. -/
inductive McpError
  | invalidArgument (message : Text)
  | exception

/-! ### Replies -/

/-- `rpc_result`. -/
def rpcResult (id result : Json) : Json :=
  .obj [("id".toList, id), ("jsonrpc".toList, .str "2.0".toList), ("result".toList, result)]

/-- `rpc_error`. -/
def rpcError (id : Json) (code : ℤ) (message : Text) : Json :=
  .obj [("error".toList, .obj [("code".toList, .int code), ("message".toList, .str message)]),
    ("id".toList, id), ("jsonrpc".toList, .str "2.0".toList)]

/-- A reply to the request with an id: a result or an error, and not both. -/
structure IsReply (id reply : Json) : Prop where
  version : reply.find "jsonrpc" = some (.str "2.0")
  sameId : reply.find "id" = some id
  exactlyOne : reply.contains "result" = !reply.contains "error"

theorem isReply_rpcResult (id result : Json) : IsReply id (rpcResult id result) := ⟨rfl, rfl, rfl⟩

theorem isReply_rpcError (id : Json) (code : ℤ) (message : Text) :
    IsReply id (rpcError id code message) := ⟨rfl, rfl, rfl⟩

/-! ### Methods -/

/-- The methods that the server has. -/
inductive RpcMethod
  | init
  | ping
  | toolsList
  | toolsCall
  | resourcesList
  | resourcesRead
  | resourcesTemplatesList
  | promptsList

/-- The method of a name. -/
def rpcMethod (method : Text) : Option RpcMethod :=
  if method = "initialize" then some .init
  else if method = "ping" then some .ping
  else if method = "tools/list" then some .toolsList
  else if method = "tools/call" then some .toolsCall
  else if method = "resources/list" then some .resourcesList
  else if method = "resources/read" then some .resourcesRead
  else if method = "resources/templates/list" then some .resourcesTemplatesList
  else if method = "prompts/list" then some .promptsList
  else none

/-- What `initialize` answers. -/
def initializeResult : Json :=
  .obj [
    ("capabilities".toList, .obj [("resources".toList, .obj []), ("tools".toList, .obj [])]),
    ("instructions".toList, .str ("Llamaste LLM-OS system management tools. " ++
      "Manage files, processes, network, configuration, models, and audio on a " ++
      "self-hosted AI appliance running Llamaste. " ++
      "All filesystem operations are restricted to /data/. " ++
      "Destructive operations (delete, shutdown, reboot, factory_reset) require " ++
      "setting the 'confirm' parameter to true.")),
    ("protocolVersion".toList, .str "2025-03-26".toList),
    ("serverInfo".toList, .obj [("name".toList, .str "llamaste".toList),
      ("version".toList, .str "0.5.17-beta".toList)])]

/-- `handle_initialize`, with the reads of `create_session`. -/
def handleInitialize (params : Json) : Except McpError Json :=
  match params.value some "clientInfo" (.obj []) with
  | none => .error .exception
  | some clientInfo =>
    match clientInfo.value Json.getString "name" "unknown",
        clientInfo.value Json.getString "version" [] with
    | some _, some _ => .ok initializeResult
    | _, _ => .error .exception

/-- A tool as the server lists it. -/
def mcpTool (func : Json) : Option Json := do
  let name ← func.value Json.getString "name" []
  let description ← func.value Json.getString "description" []
  let inputSchema ← func.value some "parameters" (.obj [])
  some (.obj [("description".toList, .str description), ("inputSchema".toList, inputSchema),
    ("name".toList, .str name)])

/-- `build_tools_array`. -/
def buildToolsArray (tools : ToolRegistry) : Except McpError (List Json) :=
  match tools.toOpenaiToolsJson with
  | none => .error .exception
  | some openaiJson =>
    match Json.parse openaiJson with
    | some (.arr entries) =>
      match (entries.filterMap (·.find "function")).mapM mcpTool with
      | some mcpTools => .ok mcpTools
      | none => .error .exception
    | _ => .ok []

/-- `handle_tools_list`. -/
def handleToolsList (tools : ToolRegistry) : Except McpError Json :=
  (buildToolsArray tools).map fun mcpTools => .obj [("tools".toList, .arr mcpTools)]

/-- The result of a call: the text of the tool, and whether it is an object with an error. -/
def callResult (resultStr : Text) : Json :=
  .obj [
    ("content".toList, .arr [.obj [("text".toList, .str resultStr),
      ("type".toList, .str "text".toList)]]),
    ("isError".toList, .bool (((Json.parse resultStr).map (·.contains "error")).getD false))]

/-- `handle_tools_call`. -/
def handleToolsCall (tools : ToolRegistry) (i : ℕ) (params : Json) : Except McpError Json :=
  match params.find "name" with
  | some (.str name) =>
    match ((params.find "arguments").getD (.obj [])).dump with
    | none => .error .exception
    | some args =>
      match tools.dispatch (0, i) name args with
      | none => .error .exception
      | some resultStr => .ok (callResult resultStr)
  | _ => .error (.invalidArgument "Missing required parameter: name (string)")

/-- `handle_resources_list`. -/
def handleResourcesList : Json :=
  .obj [("resources".toList, .arr [
    .obj [
      ("description".toList, .str "Current CPU, RAM, disk, model, and uptime".toList),
      ("mimeType".toList, .str "application/json".toList),
      ("name".toList, .str "System Status".toList),
      ("uri".toList, .str "llamaste://system/status".toList)],
    .obj [
      ("description".toList, .str "Full list of available Llamaste tools with schemas".toList),
      ("mimeType".toList, .str "application/json".toList),
      ("name".toList, .str "Tool Catalog".toList),
      ("uri".toList, .str "llamaste://tools/catalog".toList)]])]

/-- The contents of a resource. -/
def contentsResult (uri contentText : Text) : Json :=
  .obj [("contents".toList, .arr [.obj [("mimeType".toList, .str "application/json".toList),
    ("text".toList, .str contentText), ("uri".toList, .str uri)]])]

/-- `handle_resources_read`. -/
def handleResourcesRead (tools : ToolRegistry) (i : ℕ) (params : Json) : Except McpError Json :=
  match params.find "uri" with
  | some (.str uri) =>
    if uri = "llamaste://system/status" then
      match tools.dispatch (0, i) "system.info" "\x7b\x7d" with
      | none => .error .exception
      | some contentText => .ok (contentsResult uri contentText)
    else if uri = "llamaste://tools/catalog" then
      match tools.toOpenaiToolsJson with
      | none => .error .exception
      | some contentText => .ok (contentsResult uri contentText)
    else .error (.invalidArgument ("Unknown resource URI: ".toList ++ uri))
  | _ => .error (.invalidArgument "Missing required parameter: uri (string)")

namespace McpServer

variable (server : McpServer)

/-- The result of a method. -/
def callMethod (i : ℕ) (params : Json) : RpcMethod → Except McpError Json
  | .init => handleInitialize params
  | .ping => .ok (.obj [])
  | .toolsList => handleToolsList server.tools
  | .toolsCall => handleToolsCall server.tools i params
  | .resourcesList => .ok handleResourcesList
  | .resourcesRead => handleResourcesRead server.tools i params
  | .resourcesTemplatesList => .ok (.obj [("resourceTemplates".toList, .arr [])])
  | .promptsList => .ok (.obj [("prompts".toList, .arr [])])

/-- The reply to what a method returns or throws. -/
def answer (i : ℕ) (id : Json) : Except McpError Json → Json
  | .ok result => rpcResult id result
  | .error (.invalidArgument message) => rpcError id (-32602) message
  | .error .exception => rpcError id (-32603) ("Internal error: ".toList ++ (server.what i).1)

/-- The session that a method creates. -/
def createdSession (i : ℕ) : RpcMethod → Except McpError Json → List Text
  | .init, .ok _ => if server.newSession i = [] then [] else [server.newSession i]
  | _, _ => []

/-- `dispatch_rpc`, of the request at position `i`: the reply, and the session that is created. An
exception that escapes is `none`. -/
def dispatchRpc (i : ℕ) (request : Json) : Option (Json × List Text) :=
  let id := (request.find "id").getD .null
  let notVersion2 := some (rpcError id (-32600) "Not JSON-RPC 2.0", [])
  match request.find "jsonrpc" with
  | some (.str version) =>
    if version = "2.0" then
      let params := (request.find "params").getD (.obj [])
      match request.value Json.getString "method" [] with
      | none => none
      | some method =>
        if method = [] then some (rpcError id (-32600) "Missing 'method' field", [])
        else
          match rpcMethod method with
          | none => some (rpcError id (-32601) ("Method not found: ".toList ++ method), [])
          | some m =>
            let result := server.callMethod i params m
            some (server.answer i id result, server.createdSession i m result)
    else notVersion2
  | _ => notVersion2

/-- The loop over a batch, from position `i` on. -/
def dispatchBatch (i : ℕ) : List Json → Option (List Json × List Text)
  | [] => some ([], [])
  | rpc :: rest =>
    if rpc.contains "id" then do
      let (reply, session) ← server.dispatchRpc i rpc
      let (replies, sessions) ← dispatchBatch (i + 1) rest
      some (reply :: replies, session ++ sessions)
    else dispatchBatch (i + 1) rest

/-- A response: its status, its `Mcp-Session-Id` headers and its content. -/
structure Response where
  status : ℕ := 200
  sessionIds : List Text := []
  content : Text

/-- `handle_post`. An exception that escapes is `none`. -/
def handlePost (body : Text) : Option Response :=
  let respond (sessionIds : List Text) (j : Json) : Option Response :=
    j.dump.map fun content => { sessionIds, content }
  if body = [] then respond [] (rpcError .null (-32600) "Empty request body")
  else
    match Json.parse body with
    | none => respond [] (rpcError .null (-32700) "JSON parse error")
    | some (.arr elems) =>
      match server.dispatchBatch 0 elems with
      | none => none
      | some (replies, sessions) => respond sessions (.arr replies)
    | some (.obj ms) =>
      if (Json.obj ms).contains "id" then
        match server.dispatchRpc 0 (.obj ms) with
        | none => none
        | some (reply, session) => respond session reply
      else some { status := 202, content := [] }
    | some _ => respond [] (rpcError .null (-32600) "Expected JSON object or array")

/-! ### What is claimed -/

/-- Every request gets its reply, and nothing else does. -/
structure RepliesToAll (body : Text) : Prop where
  returns : (server.handlePost body).isSome
  single : ∀ ms id, Json.parse body = some (.obj ms) → (Json.obj ms).find "id" = some id →
    ∃ response reply, server.handlePost body = some response ∧
      reply.dump = some response.content ∧ IsReply id reply
  batch : ∀ elems, Json.parse body = some (.arr elems) →
    ∃ response replies, server.handlePost body = some response ∧
      (Json.arr replies).dump = some response.content ∧
      List.Forall₂ IsReply (elems.filterMap (·.find "id")) replies
  notification : ∀ ms, Json.parse body = some (.obj ms) → (Json.obj ms).find "id" = none →
    ∃ response, server.handlePost body = some response ∧ response.content = []

/-- The requests of a body with their positions. -/
def requests (body : Text) : List (ℕ × Json) :=
  match Json.parse body with
  | some (.arr elems) => (elems.zipIdx.filter fun e => e.1.contains "id").map fun e => (e.2, e.1)
  | some j => if j.contains "id" then [(0, j)] else []
  | none => []

/-- The tool that a method calls, with its arguments. -/
def calledTool (params : Json) : RpcMethod → Option (Text × Text)
  | .toolsCall =>
    match params.find "name" with
    | some (.str name) =>
      ((params.find "arguments").getD (.obj [])).dump.map fun args => (name, args)
    | _ => none
  | .resourcesRead =>
    match params.find "uri" with
    | some (.str uri) =>
      if uri = "llamaste://system/status" then some ("system.info", "\x7b\x7d") else none
    | _ => none
  | _ => none

/-- If a call reaches the handler of a tool and it returns, it returns UTF-8. -/
def ReturnsUtf8 (call : ℕ × ℕ) (name args : Text) : Prop :=
  ∀ tool ∈ server.tools.find name, tool.requiresConfirmation = false →
    ∀ text, tool.handler call args = .ok text → Utf8.valid text = true

/-- A request of version 2.0 has no method or one that is a string, and the tool that it calls
returns UTF-8. -/
def Answerable (i : ℕ) (request : Json) : Prop :=
  request.find "jsonrpc" = some (.str "2.0") →
    ∃ method, request.value Json.getString "method" [] = some method ∧
      ∀ m ∈ rpcMethod method, ∀ call ∈ calledTool ((request.find "params").getD (.obj [])) m,
        server.ReturnsUtf8 (0, i) call.1 call.2

/-! ### Texts of tools -/

/-- What a call answers is UTF-8 exactly when the handler that it reaches returns UTF-8. -/
theorem valid_dispatch_iff (call : ℕ × ℕ) (name args : Text) :
    (∀ text, server.tools.dispatch call name args = some text → Utf8.valid text = true) ↔
      server.ReturnsUtf8 call name args := by
  rw [ReturnsUtf8]
  simp only [ToolRegistry.dispatch]
  cases server.tools.find name with
  | none => exact iff_of_true (fun text h => Json.valid_dump h) (by rintro tool ⟨⟩)
  | some tool =>
    simp only [Option.mem_def, Option.some.injEq, forall_eq']
    cases tool.requiresConfirmation with
    | true => exact iff_of_true (fun text h => Json.valid_dump h) (by rintro ⟨⟩)
    | false =>
      simp only [Bool.false_eq_true, if_false, forall_const]
      cases tool.handler call args with
      | ok result =>
        refine ⟨fun h text heq => h text (congrArg some (Except.ok.inj heq)), ?_⟩
        exact fun h text heq => h text (congrArg Except.ok (Option.some.inj heq))
      | error e =>
        refine iff_of_true (fun text h => ?_) (by rintro text ⟨⟩)
        cases e <;> exact Json.valid_dump h

theorem utf8_callResult (resultStr : Text) :
    (callResult resultStr).utf8 = Utf8.valid resultStr := by
  have hkeys : ∀ key ∈ ["content", "text", "type", "isError"], Utf8.valid key.toList = true := by
    decide
  simp only [List.forall_mem_cons] at hkeys
  obtain ⟨hcontent, htext, htype, herror, -⟩ := hkeys
  have hbool (b : Bool) : (Json.bool b).utf8 = true := rfl
  simp only [callResult, Json.utf8_obj, Json.utf8_arr, Json.utf8_str, List.all_cons, List.all_nil,
    hcontent, htext, htype, herror, hbool, Bool.and_true, Bool.true_and]

theorem utf8_contentsResult {uri : Text} (huri : Utf8.valid uri = true) (contentText : Text) :
    (contentsResult uri contentText).utf8 = Utf8.valid contentText := by
  have hkeys : ∀ key ∈ ["contents", "mimeType", "application/json", "text", "uri"],
      Utf8.valid key.toList = true := by
    decide
  simp only [List.forall_mem_cons] at hkeys
  obtain ⟨hcontents, hmime, hjson, htext, huriKey, -⟩ := hkeys
  simp only [contentsResult, Json.utf8_obj, Json.utf8_arr, Json.utf8_str, List.all_cons,
    List.all_nil, hcontents, hmime, hjson, htext, huriKey, huri, Bool.and_true, Bool.true_and]

theorem utf8_mcpTool {func tool : Json} (hfunc : Json.WellFormed func)
    (h : mcpTool func = some tool) : tool.utf8 = true := by
  rw [mcpTool] at h
  obtain ⟨name, hname, h⟩ := Option.bind_eq_some_iff.mp h
  obtain ⟨description, hdescription, h⟩ := Option.bind_eq_some_iff.mp h
  obtain ⟨inputSchema, hschema, h⟩ := Option.bind_eq_some_iff.mp h
  obtain rfl := Option.some.inj h
  have hkeys : ∀ key ∈ ["description", "inputSchema", "name"], Utf8.valid key.toList = true := by
    decide
  simp only [List.forall_mem_cons] at hkeys
  obtain ⟨hdescriptionKey, hschemaKey, hnameKey, -⟩ := hkeys
  have hschemaUtf8 : inputSchema.utf8 = true := by
    rcases Json.value_eq_some hschema with rfl | ⟨v, hv, hschema⟩
    · rfl
    · obtain rfl := Option.some.inj hschema
      exact (hfunc.find hv).utf8
  simp only [Json.utf8_obj, Json.utf8_str, List.all_cons, List.all_nil, hdescriptionKey, hschemaKey,
    hnameKey, hfunc.valid_value rfl hdescription, hfunc.valid_value rfl hname, hschemaUtf8,
    Bool.and_true]

theorem utf8_of_handleToolsList {result : Json} (h : handleToolsList server.tools = .ok result) :
    result.utf8 = true := by
  obtain ⟨mcpTools, htools, rfl⟩ : ∃ mcpTools, buildToolsArray server.tools = .ok mcpTools ∧
      .obj [("tools".toList, .arr mcpTools)] = result := by
    rw [handleToolsList] at h
    cases htools : buildToolsArray server.tools with
    | error e =>
      rw [htools] at h
      exact nomatch h
    | ok mcpTools =>
      rw [htools] at h
      exact ⟨mcpTools, rfl, Except.ok.inj h⟩
  have hall : ∀ tool ∈ mcpTools, tool.utf8 = true := by
    rw [buildToolsArray] at htools
    split at htools
    · exact nomatch htools
    · split at htools
      · rename_i entries hparse
        split at htools
        · rename_i tools hmap
          obtain rfl := Except.ok.inj htools
          intro tool htool
          obtain ⟨func, hfunc, htool⟩ := mem_of_mapM_eq_some hmap htool
          obtain ⟨entry, hentry, hfind⟩ := List.mem_filterMap.mp hfunc
          have hwell : Json.WellFormed (.arr entries) := Json.wellFormed_of_parse hparse
          cases hwell with
          | arr hentries => exact utf8_mcpTool ((hentries entry hentry).find hfind) htool
        · exact nomatch htools
      · obtain rfl := Except.ok.inj htools
        exact fun tool h => nomatch h
  have hkey : Utf8.valid "tools".toList = true := by decide
  simp only [Json.utf8_obj, Json.utf8_arr, List.all_cons, List.all_nil, hkey, Bool.and_true,
    Bool.true_and]
  exact List.all_eq_true.mpr hall

theorem valid_toOpenaiToolsJson {text : Text} (h : server.tools.toOpenaiToolsJson = some text) :
    Utf8.valid text = true :=
  Json.valid_dump h

/-- The texts that a call can have are those of its result. -/
theorem utf8_handleToolsCall_iff {i : ℕ} {params : Json} :
    (∀ result, handleToolsCall server.tools i params = .ok result → result.utf8 = true) ↔
      ∀ call ∈ calledTool params .toolsCall, server.ReturnsUtf8 (0, i) call.1 call.2 := by
  rw [handleToolsCall, calledTool]
  cases params.find "name" with
  | none => exact iff_of_true nofun nofun
  | some v =>
    cases v with
    | str name =>
      dsimp only
      cases ((params.find "arguments").getD (.obj [])).dump with
      | none => exact iff_of_true nofun nofun
      | some args =>
        simp only [Option.map_some, Option.mem_def, Option.some.injEq, forall_eq']
        rw [← valid_dispatch_iff]
        cases server.tools.dispatch (0, i) name args with
        | none => exact iff_of_true nofun nofun
        | some resultStr =>
          simp only [Except.ok.injEq, forall_eq', utf8_callResult, Option.some.injEq]
    | _ => exact iff_of_true nofun nofun

theorem utf8_handleResourcesRead_iff {i : ℕ} {params : Json} (hparams : Json.WellFormed params) :
    (∀ result, handleResourcesRead server.tools i params = .ok result → result.utf8 = true) ↔
      ∀ call ∈ calledTool params .resourcesRead, server.ReturnsUtf8 (0, i) call.1 call.2 := by
  rw [handleResourcesRead, calledTool]
  cases hfind : params.find "uri" with
  | none => exact iff_of_true nofun nofun
  | some v =>
    cases v with
    | str uri =>
      have huri : Utf8.valid uri = true := (hparams.find hfind).valid_getString rfl
      dsimp only
      by_cases hstatus : uri = "llamaste://system/status".toList
      · rw [if_pos hstatus, if_pos hstatus]
        simp only [Option.mem_def, Option.some.injEq, forall_eq']
        rw [← valid_dispatch_iff]
        cases server.tools.dispatch (0, i) "system.info" "\x7b\x7d" with
        | none => exact iff_of_true nofun nofun
        | some contentText =>
          simp only [Except.ok.injEq, forall_eq', utf8_contentsResult huri, Option.some.injEq]
      · rw [if_neg hstatus, if_neg hstatus]
        refine iff_of_true (fun result h => ?_) nofun
        by_cases hcatalog : uri = "llamaste://tools/catalog".toList
        · rw [if_pos hcatalog] at h
          cases htext : server.tools.toOpenaiToolsJson with
          | none =>
            rw [htext] at h
            exact nomatch h
          | some contentText =>
            rw [htext] at h
            obtain rfl := Except.ok.inj h
            rw [utf8_contentsResult huri]
            exact server.valid_toOpenaiToolsJson htext
        · rw [if_neg hcatalog] at h
          exact nomatch h
    | _ => exact iff_of_true nofun nofun

/-- A result can be written exactly when the tool that was called returned UTF-8. -/
theorem utf8_callMethod_iff {i : ℕ} {params : Json} (hparams : Json.WellFormed params)
    (m : RpcMethod) : (∀ result, server.callMethod i params m = .ok result → result.utf8 = true) ↔
      ∀ call ∈ calledTool params m, server.ReturnsUtf8 (0, i) call.1 call.2 := by
  have hconst {j : Json} (hj : j.utf8 = true) :
      ∀ result, (.ok j : Except McpError Json) = .ok result → result.utf8 = true := fun result h =>
    Except.ok.inj h ▸ hj
  cases m with
  | init =>
    refine iff_of_true (fun result h => ?_) nofun
    rw [callMethod, handleInitialize] at h
    split at h
    · exact nomatch h
    · split at h
      · exact hconst (by decide +kernel) result h
      · exact nomatch h
  | ping => exact iff_of_true (hconst rfl) nofun
  | toolsList => exact iff_of_true (fun result h => server.utf8_of_handleToolsList h) nofun
  | toolsCall => exact server.utf8_handleToolsCall_iff
  | resourcesList => exact iff_of_true (hconst (by decide +kernel)) nofun
  | resourcesRead => exact server.utf8_handleResourcesRead_iff hparams
  | resourcesTemplatesList => exact iff_of_true (hconst (by decide +kernel)) nofun
  | promptsList => exact iff_of_true (hconst (by decide +kernel)) nofun

/-! ### The reply to a request -/

theorem isReply_answer (i : ℕ) (id : Json) (result : Except McpError Json) :
    IsReply id (server.answer i id result) := by
  cases result with
  | ok result => exact isReply_rpcResult id result
  | error e =>
    cases e with
    | invalidArgument message => exact isReply_rpcError id _ message
    | exception => exact isReply_rpcError id _ _

theorem dispatchRpc_of_not_version {request : Json} (i : ℕ)
    (h : request.find "jsonrpc" ≠ some (.str "2.0")) : server.dispatchRpc i request =
      some (rpcError ((request.find "id").getD .null) (-32600) "Not JSON-RPC 2.0", []) := by
  rw [dispatchRpc]
  dsimp only
  split
  · rename_i version hversion
    rw [if_neg]
    rintro rfl
    exact h hversion
  · rfl

/-- The reply to a request of version 2.0 with a method that is a string. -/
def replyTo (i : ℕ) (request : Json) (method : Text) : Json × List Text :=
  let id := (request.find "id").getD .null
  if method = [] then (rpcError id (-32600) "Missing 'method' field", [])
  else
    match rpcMethod method with
    | none => (rpcError id (-32601) ("Method not found: ".toList ++ method), [])
    | some m =>
      let result := server.callMethod i ((request.find "params").getD (.obj [])) m
      (server.answer i id result, server.createdSession i m result)

theorem dispatchRpc_of_version {request : Json} (i : ℕ)
    (h : request.find "jsonrpc" = some (.str "2.0")) : server.dispatchRpc i request =
      (request.value Json.getString "method" []).map (server.replyTo i request) := by
  rw [dispatchRpc, h]
  dsimp only
  rw [if_pos rfl]
  cases request.value Json.getString "method" [] with
  | none => rfl
  | some method =>
    simp only [Option.map_some, replyTo]
    split_ifs
    · rfl
    · cases rpcMethod method <;> rfl

theorem isReply_replyTo (i : ℕ) {request id : Json} (hid : request.find "id" = some id)
    (method : Text) : IsReply id (server.replyTo i request method).1 := by
  rw [replyTo, hid]
  dsimp only [Option.getD_some]
  split_ifs
  · exact isReply_rpcError id _ _
  · cases rpcMethod method with
    | none => exact isReply_rpcError id _ _
    | some m => exact server.isReply_answer i id _

/-- A reply is one to the request. -/
theorem isReply_dispatchRpc {i : ℕ} {request id reply : Json} {session : List Text}
    (hid : request.find "id" = some id)
    (h : server.dispatchRpc i request = some (reply, session)) : IsReply id reply := by
  by_cases hversion : request.find "jsonrpc" = some (.str "2.0")
  · rw [server.dispatchRpc_of_version i hversion] at h
    obtain ⟨method, -, hreply⟩ := Option.map_eq_some_iff.mp h
    have hfst : (server.replyTo i request method).1 = reply := by rw [hreply]
    exact hfst ▸ server.isReply_replyTo i hid method
  · rw [server.dispatchRpc_of_not_version i hversion, hid] at h
    obtain ⟨rfl, -⟩ := Prod.mk.inj (Option.some.inj h)
    exact isReply_rpcError id _ _

theorem utf8_rpcError {id : Json} (hid : id.utf8 = true) (code : ℤ) {message : Text}
    (hmessage : Utf8.valid message = true) : (rpcError id code message).utf8 = true := by
  have hkeys : ∀ key ∈ ["code", "message", "error", "id", "jsonrpc", "2.0"],
      Utf8.valid key.toList = true := by
    decide
  simp only [List.forall_mem_cons] at hkeys
  obtain ⟨hcodeKey, hmessageKey, herror, hidKey, hjsonrpc, hversion, -⟩ := hkeys
  have hcode : (Json.int code).utf8 = true := rfl
  simp only [rpcError, Json.utf8_obj, Json.utf8_str, List.all_cons, List.all_nil, hcodeKey,
    hmessageKey, herror, hidKey, hjsonrpc, hversion, hcode, hid, hmessage, Bool.and_true]

theorem utf8_rpcResult {id : Json} (hid : id.utf8 = true) (result : Json) :
    (rpcResult id result).utf8 = result.utf8 := by
  have hkeys : ∀ key ∈ ["result", "id", "jsonrpc", "2.0"], Utf8.valid key.toList = true := by
    decide
  simp only [List.forall_mem_cons] at hkeys
  obtain ⟨hresult, hidKey, hjsonrpc, hversion, -⟩ := hkeys
  simp only [rpcResult, Json.utf8_obj, Json.utf8_str, List.all_cons, List.all_nil, hresult, hidKey,
    hjsonrpc, hversion, hid, Bool.and_true, Bool.true_and]

/-- Whether a reply can be written depends on the result of the method only. -/
theorem utf8_answer_iff (i : ℕ) {id : Json} (hid : id.utf8 = true)
    {result : Except McpError Json}
    (hmessage : ∀ message, result = .error (.invalidArgument message) →
      Utf8.valid message = true) :
    (server.answer i id result).utf8 = true ↔ ∀ j, result = .ok j → j.utf8 = true := by
  cases result with
  | ok result => simp only [answer, utf8_rpcResult hid, Except.ok.injEq, forall_eq']
  | error e =>
    refine iff_of_true ?_ nofun
    cases e with
    | invalidArgument message => exact utf8_rpcError hid _ (hmessage message rfl)
    | exception =>
      exact utf8_rpcError hid _ (Utf8.valid_append (by decide) (server.what i).2)

/-- The texts of the errors of a method are UTF-8. -/
theorem valid_message {i : ℕ} {params : Json} (hparams : Json.WellFormed params) {m : RpcMethod}
    {message : Text} (h : server.callMethod i params m = .error (.invalidArgument message)) :
    Utf8.valid message = true := by
  cases m with
  | init =>
    rw [callMethod, handleInitialize] at h
    split at h
    · exact nomatch h
    · split at h <;> exact nomatch h
  | toolsList =>
    rw [callMethod, handleToolsList, buildToolsArray] at h
    split at h
    · exact nomatch h
    · split at h
      · split at h <;> exact nomatch h
      · exact nomatch h
  | toolsCall =>
    rw [callMethod, handleToolsCall] at h
    split at h
    · split at h
      · exact nomatch h
      · split at h <;> exact nomatch h
    · obtain rfl := McpError.invalidArgument.inj (Except.error.inj h)
      decide +kernel
  | resourcesRead =>
    rw [callMethod, handleResourcesRead] at h
    split at h
    · rename_i uri huri
      by_cases hstatus : uri = "llamaste://system/status".toList
      · rw [if_pos hstatus] at h
        split at h <;> exact nomatch h
      · rw [if_neg hstatus] at h
        by_cases hcatalog : uri = "llamaste://tools/catalog".toList
        · rw [if_pos hcatalog] at h
          split at h <;> exact nomatch h
        · rw [if_neg hcatalog] at h
          obtain rfl := McpError.invalidArgument.inj (Except.error.inj h)
          exact Utf8.valid_append (by decide +kernel) ((hparams.find huri).valid_getString rfl)
    · obtain rfl := McpError.invalidArgument.inj (Except.error.inj h)
      decide +kernel
  | _ => exact nomatch h

/-- A member of a well-formed value, or the value that stands in for it, is well-formed. -/
theorem wellFormed_getD {request default : Json} (hrequest : Json.WellFormed request)
    (hdefault : Json.WellFormed default) (key : Text) :
    Json.WellFormed ((request.find key).getD default) := by
  cases hfind : request.find key with
  | none => exact hdefault
  | some v => exact hrequest.find hfind

theorem utf8_replyTo_iff (i : ℕ) {request : Json} (hrequest : Json.WellFormed request)
    {method : Text} (hmethod : Utf8.valid method = true) :
    (server.replyTo i request method).1.utf8 = true ↔ ∀ m ∈ rpcMethod method,
      ∀ call ∈ calledTool ((request.find "params").getD (.obj [])) m,
        server.ReturnsUtf8 (0, i) call.1 call.2 := by
  have hid := (wellFormed_getD hrequest .null "id").utf8
  have hempty : Json.WellFormed (.obj []) :=
    .obj List.Pairwise.nil (fun _ h => nomatch h) fun _ h => nomatch h
  have hparams := wellFormed_getD hrequest hempty "params"
  rw [replyTo]
  dsimp only
  split_ifs with hnil
  · subst hnil
    exact iff_of_true (utf8_rpcError hid _ (by decide +kernel)) (fun m hm => nomatch hm)
  · cases hm : rpcMethod method with
    | none =>
      exact iff_of_true (utf8_rpcError hid _ (Utf8.valid_append (by decide) hmethod)) nofun
    | some m =>
      simp only [Option.mem_def, Option.some.injEq, forall_eq']
      rw [server.utf8_answer_iff i hid fun message => server.valid_message hparams]
      exact server.utf8_callMethod_iff hparams m

/-- A request is answered, and its reply can be written, exactly when it can be answered. -/
theorem answerable_iff {i : ℕ} {request : Json} (hrequest : Json.WellFormed request) :
    server.Answerable i request ↔ ∃ reply session,
      server.dispatchRpc i request = some (reply, session) ∧ reply.utf8 = true := by
  rw [Answerable]
  by_cases hversion : request.find "jsonrpc" = some (.str "2.0")
  · rw [server.dispatchRpc_of_version i hversion]
    have hvalid {method : Text} (h : request.value Json.getString "method" [] = some method) :
        Utf8.valid method = true := hrequest.valid_value rfl h
    constructor
    · intro h
      obtain ⟨method, hmethod, hcalls⟩ := h hversion
      refine ⟨_, _, by rw [hmethod, Option.map_some], ?_⟩
      exact (server.utf8_replyTo_iff i hrequest (hvalid hmethod)).mpr hcalls
    · rintro ⟨reply, session, hreply, hutf8⟩ -
      obtain ⟨method, hmethod, heq⟩ := Option.map_eq_some_iff.mp hreply
      refine ⟨method, hmethod, (server.utf8_replyTo_iff i hrequest (hvalid hmethod)).mp ?_⟩
      rw [heq]
      exact hutf8
  · rw [server.dispatchRpc_of_not_version i hversion]
    refine iff_of_true (fun h => absurd h hversion) ⟨_, _, rfl, ?_⟩
    exact utf8_rpcError (wellFormed_getD hrequest .null "id").utf8 _ (by decide +kernel)

/-! ### Batches -/

/-- A batch is answered, and the replies can be written, exactly when each request of it can be
answered. -/
theorem dispatchBatch_iff (i : ℕ) {elems : List Json}
    (hwell : ∀ e ∈ elems, Json.WellFormed e) :
    (∀ e ∈ elems.zipIdx i, e.1.contains "id" = true → server.Answerable e.2 e.1) ↔
      ∃ replies sessions, server.dispatchBatch i elems = some (replies, sessions) ∧
        replies.all Json.utf8 = true := by
  induction elems generalizing i with
  | nil => exact iff_of_true nofun ⟨[], [], rfl, rfl⟩
  | cons rpc rest ih =>
    rw [List.forall_mem_cons] at hwell
    rw [List.zipIdx_cons, List.forall_mem_cons, ih (i + 1) hwell.2, dispatchBatch]
    by_cases hid : rpc.contains "id" = true
    · rw [if_pos hid, server.answerable_iff hwell.1]
      constructor
      · rintro ⟨hfirst, replies, sessions, hrest, hutf8⟩
        obtain ⟨reply, session, hreply, hreplyUtf8⟩ := hfirst hid
        refine ⟨reply :: replies, session ++ sessions, ?_, ?_⟩
        · simp only [hreply, hrest, Option.bind_eq_bind, Option.bind_some]
        · rw [List.all_cons, hreplyUtf8, hutf8]
          rfl
      · rintro ⟨all, allSessions, hall, hutf8⟩
        obtain ⟨⟨reply, session⟩, hreply, hall⟩ := Option.bind_eq_some_iff.mp hall
        obtain ⟨⟨replies, sessions⟩, hrest, hall⟩ := Option.bind_eq_some_iff.mp hall
        obtain ⟨rfl, rfl⟩ := Prod.mk.inj (Option.some.inj hall)
        rw [List.all_cons, Bool.and_eq_true] at hutf8
        exact ⟨fun _ => ⟨reply, session, hreply, hutf8.1⟩, replies, sessions, hrest, hutf8.2⟩
    · rw [if_neg hid]
      exact and_iff_right fun h => absurd h hid

theorem forall₂_isReply_dispatchBatch {i : ℕ} {elems replies : List Json} {sessions : List Text}
    (h : server.dispatchBatch i elems = some (replies, sessions)) :
    List.Forall₂ IsReply (elems.filterMap (·.find "id")) replies := by
  induction elems generalizing i replies sessions with
  | nil =>
    obtain ⟨rfl, -⟩ := Prod.mk.inj (Option.some.inj h)
    exact .nil
  | cons rpc rest ih =>
    rw [dispatchBatch] at h
    cases hfind : rpc.find "id" with
    | none =>
      rw [if_neg (by rw [Json.contains, hfind]; exact nofun)] at h
      rw [List.filterMap_cons_none hfind]
      exact ih h
    | some id =>
      rw [if_pos (by rw [Json.contains, hfind]; rfl)] at h
      rw [List.filterMap_cons_some hfind]
      obtain ⟨⟨reply, session⟩, hreply, h⟩ := Option.bind_eq_some_iff.mp h
      obtain ⟨⟨rest, restSessions⟩, hrest, h⟩ := Option.bind_eq_some_iff.mp h
      obtain ⟨rfl, -⟩ := Prod.mk.inj (Option.some.inj h)
      exact .cons (server.isReply_dispatchRpc hfind hreply) (ih hrest)

/-! ### All requests -/

theorem ne_nil_of_parse {body : Text} {j : Json} (h : Json.parse body = some j) : body ≠ [] := by
  rintro rfl
  exact nomatch h

theorem handlePost_arr {body : Text} {elems : List Json}
    (hbody : Json.parse body = some (.arr elems)) :
    server.handlePost body = (server.dispatchBatch 0 elems).bind fun r =>
      (Json.arr r.1).dump.map fun content => { sessionIds := r.2, content } := by
  rw [handlePost]
  dsimp only
  rw [if_neg (ne_nil_of_parse hbody), hbody]
  dsimp only
  cases server.dispatchBatch 0 elems <;> rfl

theorem handlePost_request {body : Text} {ms : List (Text × Json)} {id : Json}
    (hbody : Json.parse body = some (.obj ms)) (hid : (Json.obj ms).find "id" = some id) :
    server.handlePost body = (server.dispatchRpc 0 (.obj ms)).bind fun r =>
      r.1.dump.map fun content => { sessionIds := r.2, content } := by
  rw [handlePost]
  dsimp only
  rw [if_neg (ne_nil_of_parse hbody), hbody]
  dsimp only
  rw [if_pos (by rw [Json.contains, hid]; rfl)]
  cases server.dispatchRpc 0 (.obj ms) <;> rfl

/-- A body without a request is answered, and an object without an id with nothing. -/
theorem repliesToAll_of_not_request {body : Text}
    (harr : ∀ elems, Json.parse body ≠ some (.arr elems))
    (hobj : ∀ ms, Json.parse body = some (.obj ms) → (Json.obj ms).find "id" = none) :
    server.RepliesToAll body := by
  have herror (code : ℤ) {message : Text} (hmessage : Utf8.valid message = true) :
      ((rpcError .null code message).dump.map fun content : Text =>
        ({ sessionIds := [], content } : Response)).isSome = true := by
    rw [Option.isSome_map, Json.isSome_dump]
    exact utf8_rpcError rfl code hmessage
  have hnone (ms : List (Text × Json)) (hbody : Json.parse body = some (.obj ms)) :
      server.handlePost body = some { status := 202, content := [] } := by
    rw [handlePost]
    dsimp only
    rw [if_neg (ne_nil_of_parse hbody), hbody]
    dsimp only
    rw [if_neg (by rw [Json.contains, hobj ms hbody]; exact nofun)]
  constructor
  · cases hbody : Json.parse body with
    | none =>
      rw [handlePost]
      dsimp only
      split_ifs
      · exact herror _ (by decide +kernel)
      · rw [hbody]
        exact herror _ (by decide +kernel)
    | some j =>
      cases j with
      | arr elems => exact absurd hbody (harr elems)
      | obj ms => rw [hnone ms hbody, Option.isSome_some]
      | _ =>
        rw [handlePost]
        dsimp only
        rw [if_neg (ne_nil_of_parse hbody), hbody]
        exact herror _ (by decide +kernel)
  · exact fun ms id hbody hid => nomatch (hobj ms hbody).symm.trans hid
  · exact fun elems hbody => absurd hbody (harr elems)
  · exact fun ms hbody _ => ⟨_, hnone ms hbody, rfl⟩

/-- A single request gets its reply exactly when it can be answered. -/
theorem repliesToAll_request_iff {body : Text} {ms : List (Text × Json)} {id : Json}
    (hbody : Json.parse body = some (.obj ms)) (hid : (Json.obj ms).find "id" = some id) :
    server.RepliesToAll body ↔ server.Answerable 0 (.obj ms) := by
  rw [server.answerable_iff (Json.wellFormed_of_parse hbody)]
  have hpost := server.handlePost_request hbody hid
  constructor
  · intro h
    obtain ⟨response, hresponse⟩ := Option.isSome_iff_exists.mp h.returns
    rw [hpost] at hresponse
    obtain ⟨⟨reply, session⟩, hreply, hdump⟩ := Option.bind_eq_some_iff.mp hresponse
    obtain ⟨content, hcontent, -⟩ := Option.map_eq_some_iff.mp hdump
    exact ⟨reply, session, hreply, by rw [← Json.isSome_dump, hcontent, Option.isSome_some]⟩
  · rintro ⟨reply, session, hreply, hutf8⟩
    obtain ⟨content, hcontent⟩ := Option.isSome_iff_exists.mp ((Json.isSome_dump reply).trans hutf8)
    have hpost' : server.handlePost body = some { sessionIds := session, content } := by
      rw [hpost, hreply, Option.bind_some, hcontent, Option.map_some]
    constructor
    · rw [hpost', Option.isSome_some]
    · intro ms' id' hbody' hid'
      obtain rfl := Json.obj.inj (Option.some.inj (hbody.symm.trans hbody'))
      exact ⟨_, reply, hpost', hcontent, server.isReply_dispatchRpc hid' hreply⟩
    · exact fun elems hbody' => nomatch hbody.symm.trans hbody'
    · intro ms' hbody' hid'
      obtain rfl := Json.obj.inj (Option.some.inj (hbody.symm.trans hbody'))
      exact nomatch hid.symm.trans hid'

/-- A batch gets its replies exactly when each request of it can be answered. -/
theorem repliesToAll_batch_iff {body : Text} {elems : List Json}
    (hbody : Json.parse body = some (.arr elems)) : server.RepliesToAll body ↔
      ∀ e ∈ elems.zipIdx, e.1.contains "id" = true → server.Answerable e.2 e.1 := by
  have hwell : ∀ e ∈ elems, Json.WellFormed e := by
    cases Json.wellFormed_of_parse hbody with
    | arr h => exact h
  rw [server.dispatchBatch_iff 0 hwell]
  have hpost := server.handlePost_arr hbody
  constructor
  · intro h
    obtain ⟨response, hresponse⟩ := Option.isSome_iff_exists.mp h.returns
    rw [hpost] at hresponse
    obtain ⟨⟨replies, sessions⟩, hreplies, hdump⟩ := Option.bind_eq_some_iff.mp hresponse
    obtain ⟨content, hcontent, -⟩ := Option.map_eq_some_iff.mp hdump
    refine ⟨replies, sessions, hreplies, ?_⟩
    rw [← Json.utf8_arr, ← Json.isSome_dump, hcontent, Option.isSome_some]
  · rintro ⟨replies, sessions, hreplies, hutf8⟩
    rw [← Json.utf8_arr, ← Json.isSome_dump] at hutf8
    obtain ⟨content, hcontent⟩ := Option.isSome_iff_exists.mp hutf8
    have hpost' : server.handlePost body = some { sessionIds := sessions, content } := by
      rw [hpost, hreplies, Option.bind_some, hcontent, Option.map_some]
    constructor
    · rw [hpost', Option.isSome_some]
    · exact fun ms id hbody' => nomatch hbody.symm.trans hbody'
    · intro elems' hbody'
      obtain rfl := Json.arr.inj (Option.some.inj (hbody.symm.trans hbody'))
      exact ⟨_, replies, hpost', hcontent, server.forall₂_isReply_dispatchBatch hreplies⟩
    · exact fun ms hbody' => nomatch hbody.symm.trans hbody'

/-- **Every request gets its reply**, exactly when each request can be answered. -/
theorem repliesToAll_iff (body : Text) : server.RepliesToAll body ↔
    ∀ request ∈ requests body, server.Answerable request.1 request.2 := by
  rw [requests]
  cases hbody : Json.parse body with
  | none =>
    refine iff_of_true (server.repliesToAll_of_not_request ?_ ?_) nofun
    · exact fun elems h => nomatch hbody.symm.trans h
    · exact fun ms h => nomatch hbody.symm.trans h
  | some j =>
    cases j with
    | arr elems =>
      rw [server.repliesToAll_batch_iff hbody]
      simp only [List.forall_mem_map, List.mem_filter, and_imp]
    | obj ms =>
      cases hid : (Json.obj ms).find "id" with
      | none =>
        have hno : ¬ (Json.obj ms).contains "id" = true := by
          rw [Json.contains, hid]
          exact nofun
        simp only [if_neg hno]
        refine iff_of_true (server.repliesToAll_of_not_request ?_ fun ms' h => ?_) nofun
        · exact fun elems h => nomatch hbody.symm.trans h
        · obtain rfl := Json.obj.inj (Option.some.inj (hbody.symm.trans h))
          exact hid
      | some id =>
        have hyes : (Json.obj ms).contains "id" = true := by
          rw [Json.contains, hid]
          rfl
        simp only [if_pos hyes, List.forall_mem_cons]
        rw [server.repliesToAll_request_iff hbody hid]
        exact (and_iff_left nofun).symm
    | _ =>
      refine iff_of_true (server.repliesToAll_of_not_request ?_ ?_) nofun
      · exact fun elems h => nomatch hbody.symm.trans h
      · exact fun ms h => nomatch hbody.symm.trans h

end McpServer

theorem nodup_names_nil : (([] : List ToolDef).map ToolDef.name).Nodup := List.nodup_nil

/-- A server without tools. -/
def sampleServer : McpServer where
  tools := { nodup := nodup_names_nil }
  newSession _ := []
  what _ := ⟨[], rfl⟩

/-- One request of a batch has a number for a method. -/
theorem not_repliesToAll :
    ¬ ∀ (server : McpServer) (body : Text), server.RepliesToAll body := by
  intro h
  let body : Text := "[\x7b\"jsonrpc\":\"2.0\",\"id\":1,\"method\":\"ping\"\x7d,".toList ++
    "\x7b\"jsonrpc\":\"2.0\",\"id\":2,\"method\":5\x7d]"
  have hposted : sampleServer.handlePost body = none := by decide +kernel
  have hreturns := (h sampleServer body).returns
  rw [hposted] at hreturns
  exact nomatch hreturns

end Llamaste
