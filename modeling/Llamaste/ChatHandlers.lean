import Mathlib
import Llamaste.AgentTurn
import Llamaste.Lib.Threads

/-!
# Chat requests

Every chat request is a thread. It finds its conversation under the lock of the map, and
then appends to it without a lock: its message, and whatever its turn appends. Each append
is atomic, and the inference and the handlers run between them. Which request appended a
message is kept beside it, so that it can be said whose replies follow whose messages.

Source: `child_main.cpp` (`get_or_create_conversation`, `handle_chat`), `agent.cpp`.

## Main results

* `chatAct_alone`: a request that runs alone does what `agentTurn` does.
* `chatsKept_of_along`: when requests on a conversation take turns, their rounds and their
  replies do not mix.
-/

namespace Llamaste

/-! ### Conversations that are shared -/

/-- A conversation with, for each message, the request that appended it. -/
structure SharedConversation where
  systemPrompt : Text
  conversationId : Text
  entries : List (Option ℕ × Message) := []

namespace SharedConversation

/-- The conversation as a turn sees it. -/
def conv (shared : SharedConversation) : ConversationState where
  systemPrompt := shared.systemPrompt
  conversationId := shared.conversationId
  messages := shared.entries.map Prod.snd

/-- Request `i` appends a message. -/
def push (shared : SharedConversation) (i : ℕ) (msg : Message) : SharedConversation :=
  { shared with entries := shared.entries ++ [(some i, msg)] }

theorem conv_push (shared : SharedConversation) (i : ℕ) (msg : Message) :
    (shared.push i msg).conv = shared.conv.push msg := by
  simp only [conv, push, ConversationState.push, List.map_append, List.map_cons, List.map_nil]

end SharedConversation

/-- `g_conversations`. -/
abbrev Conversations := Text → Option SharedConversation

/-- `get_or_create_conversation`, as far as it changes the map. -/
def getOrCreateConversation (systemPrompt id : Text) (g : Conversations) : Conversations :=
  match g id with
  | some _ => g
  | none => Function.update g id (some { systemPrompt, conversationId := id })

namespace Conversations

/-- Request `i` appends a message to a conversation, or none. -/
def append (g : Conversations) (id : Text) (i : ℕ) : Option Message → Conversations
  | none => g
  | some msg => Function.update g id ((g id).map (·.push i msg))

/-- The messages of a conversation, with who appended them. -/
def entries (g : Conversations) (id : Text) : List (Option ℕ × Message) :=
  ((g id).map SharedConversation.entries).getD []

/-- The messages of a conversation. -/
def messages (g : Conversations) (id : Text) : List Message := (g.entries id).map Prod.snd

/-- What a turn reads. -/
def read (g : Conversations) (id : Text) : ConversationState :=
  ((g id).map SharedConversation.conv).getD {}

end Conversations

/-! ### Requests -/

/-- A chat request that has a message, with what the inference function and the handlers do
for it. -/
structure ChatRequest where
  message : Text
  conversationId : Text
  systemPrompt : Text := []
  tools : ToolRegistry := {}
  inferenceFn : ℕ → Except Thrown Text

/-- Where the handler of a request stands. -/
inductive ChatStage
  | arrived
  | found
  | round (n : ℕ)
  | asked (n : ℕ)
  | dispatching (n k : ℕ) (calls : List ToolCall)
  | returned (text : Text)
  | threw
  deriving DecidableEq

/-- The rounds of a turn when the caller names no number. -/
def defaultMaxRounds : ℕ := 5

namespace ChatRequest

variable (r : ChatRequest)

/-- What a reply makes of the round: the message that it appends, and the stage behind it. -/
def onReply (n : ℕ) : Option Message × ChatStage :=
  match r.inferenceFn n with
  | .error e => (some (assistantMessage (inferenceError e)), .returned (inferenceError e))
  | .ok response =>
    match parseToolCalls response with
    | none => (none, .threw)
    | some [] =>
      match parseContent response with
      | none => (none, .threw)
      | some content => (some (assistantMessage (replyText content)), .returned (replyText content))
    | some calls => (some (toolCallsMessage calls), .dispatching n 0 calls)

/-- The dispatch of a call. -/
def onCall (n k : ℕ) (tc : ToolCall) (rest : List ToolCall) : Option Message × ChatStage :=
  match r.tools.dispatch (n, k) tc.name tc.arguments with
  | none => (none, .threw)
  | some result => (some (toolResult tc.id tc.name (shorten result)), .dispatching n (k + 1) rest)

/-- One step of a handler: the message that it appends, and the stage behind it. -/
def next (conv : ConversationState) : ChatStage → Option Message × ChatStage
  | .arrived => (none, .found)
  | .found => (some (userMessage r.message), .round 0)
  | .round n =>
    if n < defaultMaxRounds then
      if (buildInferenceRequest conv r.tools).isSome then (none, .asked n) else (none, .threw)
    else (none, .returned maxRoundsText)
  | .asked n => r.onReply n
  | .dispatching n _ [] => (none, .round (n + 1))
  | .dispatching n k (tc :: rest) => r.onCall n k tc rest
  | .returned text => (none, .returned text)
  | .threw => (none, .threw)

end ChatRequest

/-- One step of `handle_chat` for request `i`. The lock covers the first step alone. -/
def chatAct (requests : ℕ → ChatRequest) (i : ℕ) (s : Conversations × ChatStage) :
    Conversations × ChatStage :=
  let r := requests i
  let g := if s.2 = .arrived then getOrCreateConversation r.systemPrompt r.conversationId s.1
    else s.1
  let (msg, stage) := r.next (g.read r.conversationId) s.2
  (g.append r.conversationId i msg, stage)

namespace ChatStage

/-- The request has appended its message and its turn has not ended. -/
def inTurn : ChatStage → Bool
  | .round _ => true
  | .asked _ => true
  | .dispatching _ _ _ => true
  | _ => false

/-- The calls that the request is still to answer. -/
def waiting : ChatStage → List ToolCall
  | .dispatching _ _ calls => calls
  | _ => []

/-- The stage behind a turn. -/
def ofResult : Option Text → ChatStage
  | some text => .returned text
  | none => .threw

end ChatStage

/-! ### Effects on the conversations -/

section effects

variable {g : Conversations} {id : Text}

@[simp] theorem entries_getOrCreate (systemPrompt id' : Text) :
    (getOrCreateConversation systemPrompt id' g).entries id = g.entries id := by
  cases hg : g id' with
  | some shared => simp only [getOrCreateConversation, hg]
  | none =>
      by_cases hid : id = id'
      · subst hid
        simp only [getOrCreateConversation, Conversations.entries, hg, Function.update_self,
          Option.map_some, Option.map_none, Option.getD_some, Option.getD_none]
      · simp only [getOrCreateConversation, Conversations.entries, hg, Function.update_of_ne hid]

theorem isSome_getOrCreate_self (g : Conversations) (id systemPrompt : Text) :
    (getOrCreateConversation systemPrompt id g id).isSome = true := by
  cases hg : g id with
  | some shared => simp only [getOrCreateConversation, hg, Option.isSome_some]
  | none => simp only [getOrCreateConversation, hg, Function.update_self, Option.isSome_some]

theorem isSome_getOrCreate (systemPrompt id' : Text) (h : (g id).isSome = true) :
    (getOrCreateConversation systemPrompt id' g id).isSome = true := by
  by_cases hid : id = id'
  · rw [hid]
    exact isSome_getOrCreate_self g id' systemPrompt
  · cases hg : g id' with
    | some shared => simpa only [getOrCreateConversation, hg] using h
    | none => simpa only [getOrCreateConversation, hg, Function.update_of_ne hid] using h

/-- Appending to a conversation that exists. -/
theorem entries_append_self (h : (g id).isSome = true) (i : ℕ) (msg : Option Message) :
    (g.append id i msg).entries id = g.entries id ++ msg.toList.map (some i, ·) := by
  obtain ⟨shared, hshared⟩ := Option.isSome_iff_exists.mp h
  cases msg with
  | none => rw [Conversations.append, Option.toList_none, List.map_nil, List.append_nil]
  | some msg =>
      simp only [Conversations.append, Conversations.entries, Function.update_self, hshared,
        SharedConversation.push, Option.map_some, Option.getD_some, Option.toList_some,
        List.map_cons, List.map_nil]

theorem entries_append_of_ne {id' : Text} (hid : id ≠ id') (i : ℕ) (msg : Option Message) :
    (g.append id' i msg).entries id = g.entries id := by
  cases msg with
  | none => rfl
  | some msg => simp only [Conversations.append, Conversations.entries, Function.update_of_ne hid]

@[simp] theorem isSome_append (id' : Text) (i : ℕ) (msg : Option Message) :
    (g.append id' i msg id).isSome = (g id).isSome := by
  cases msg with
  | none => rfl
  | some msg =>
      rw [Conversations.append]
      by_cases hid : id = id'
      · rw [hid, Function.update_self, Option.isSome_map]
      · rw [Function.update_of_ne hid]

end effects

variable {requests : ℕ → ChatRequest}

/-- What a step of request `i` makes of the conversations, where its turn reads `conv`. -/
structure ChatStepped (requests : ℕ → ChatRequest) (i : ℕ) (g : Conversations)
    (stage : ChatStage) (conv : ConversationState) (g' : Conversations) (stage' : ChatStage) :
    Prop where
  moves : stage' = ((requests i).next conv stage).2
  entries : g'.entries (requests i).conversationId = g.entries (requests i).conversationId ++
    ((requests i).next conv stage).1.toList.map (some i, ·)
  found : (g' (requests i).conversationId).isSome = true
  kept : ∀ id, (g id).isSome = true → (g' id).isSome = true
  others : ∀ id, id ≠ (requests i).conversationId → g'.entries id = g.entries id

/-- **A step appends what `next` says**, and leaves the other conversations alone. -/
theorem chatAct_stepped (requests : ℕ → ChatRequest) (i : ℕ) (g : Conversations)
    {stage : ChatStage}
    (h : stage ≠ .arrived → (g (requests i).conversationId).isSome = true) :
    ∃ conv, ChatStepped requests i g stage conv (chatAct requests i (g, stage)).1
      (chatAct requests i (g, stage)).2 := by
  by_cases harrived : stage = .arrived
  · have hself := isSome_getOrCreate_self g (requests i).conversationId
      (requests i).systemPrompt
    simp only [chatAct, if_pos harrived]
    refine ⟨_, rfl, ?_, ?_, fun id hid => ?_, fun id hid => ?_⟩
    · rw [entries_append_self hself, entries_getOrCreate]
    · rw [isSome_append]
      exact hself
    · rw [isSome_append]
      exact isSome_getOrCreate _ _ hid
    · rw [entries_append_of_ne hid, entries_getOrCreate]
  · simp only [chatAct, if_neg harrived]
    refine ⟨_, rfl, entries_append_self (h harrived) i _, ?_, fun id hid => ?_, fun id hid => ?_⟩
    · rw [isSome_append]
      exact h harrived
    · rwa [isSome_append]
    · exact entries_append_of_ne hid i _

/-! ### A request that runs alone -/

section alone

variable {i : ℕ}

/-- What a turn reads behind an append. -/
theorem read_append {g : Conversations} {id : Text} (h : (g id).isSome = true) (i : ℕ)
    (msg : Message) : (g.append id i (some msg)).read id = (g.read id).push msg := by
  obtain ⟨shared, hshared⟩ := Option.isSome_iff_exists.mp h
  simp only [Conversations.append, Conversations.read, Function.update_self, hshared,
    Option.map_some, Option.getD_some, shared.conv_push]

/-- The request has found its conversation. -/
def Found (requests : ℕ → ChatRequest) (i : ℕ) (g : Conversations) : Prop :=
  (g (requests i).conversationId).isSome = true

/-- Steps of request `i` lead from one stage to another, and the conversation that it reads
becomes `conv`. -/
def Leads (requests : ℕ → ChatRequest) (i : ℕ) (g : Conversations) (stage : ChatStage)
    (conv : ConversationState) (stage' : ChatStage) : Prop :=
  ∃ k g', (chatAct requests i)^[k] (g, stage) = (g', stage') ∧ Found requests i g' ∧
    g'.read (requests i).conversationId = conv

theorem leads_self {g : Conversations} (hg : Found requests i g) (stage : ChatStage) :
    Leads requests i g stage (g.read (requests i).conversationId) stage :=
  ⟨0, g, rfl, hg, rfl⟩

/-- A step that appends nothing. -/
theorem Leads.silent {g : Conversations} {stage stage' stage'' : ChatStage}
    {conv : ConversationState} (h : Leads requests i g stage' conv stage'')
    (hne : stage ≠ .arrived)
    (hnext : (requests i).next (g.read (requests i).conversationId) stage = (none, stage')) :
    Leads requests i g stage conv stage'' := by
  obtain ⟨k, g', hsteps, hfound, hread⟩ := h
  refine ⟨k + 1, g', ?_, hfound, hread⟩
  rw [Function.iterate_succ_apply, ← hsteps]
  simp only [chatAct, if_neg hne, hnext]
  rfl

/-- A step that appends a message. -/
theorem Leads.appends {g : Conversations} {stage stage'' : ChatStage} {conv : ConversationState}
    (hg : Found requests i g) (msg : Message) (stage' : ChatStage) (hne : stage ≠ .arrived)
    (hnext : (requests i).next (g.read (requests i).conversationId) stage = (some msg, stage'))
    (h : ∀ g', Found requests i g' → g'.read (requests i).conversationId =
      (g.read (requests i).conversationId).push msg → Leads requests i g' stage' conv stage'') :
    Leads requests i g stage conv stage'' := by
  obtain ⟨k, g', hsteps, hfound, hread⟩ := h (g.append (requests i).conversationId i (some msg))
    (by rw [Found, isSome_append]; exact hg) (read_append hg i msg)
  refine ⟨k + 1, g', ?_, hfound, hread⟩
  rw [Function.iterate_succ_apply, ← hsteps]
  simp only [chatAct, if_neg hne, hnext]

/-- The calls of a round, from call `k` on, and what follows them. -/
theorem leads_dispatching {n k : ℕ} {calls : List ToolCall} {g : Conversations}
    (hg : Found requests i g) {conv : ConversationState} {stage : ChatStage}
    (hthrows : (addResults (requests i).tools n k calls
        (g.read (requests i).conversationId)).1 = false → stage = .threw ∧
      conv = (addResults (requests i).tools n k calls (g.read (requests i).conversationId)).2)
    (hgoes : ∀ g', Found requests i g' →
      addResults (requests i).tools n k calls (g.read (requests i).conversationId) =
        (true, g'.read (requests i).conversationId) →
      Leads requests i g' (.round (n + 1)) conv stage) :
    Leads requests i g (.dispatching n k calls) conv stage := by
  induction calls generalizing k g with
  | nil => exact (hgoes g hg rfl).silent (by rintro ⟨⟩) rfl
  | cons tc rest ih =>
      cases hdispatch : (requests i).tools.dispatch (n, k) tc.name tc.arguments with
      | none =>
          simp only [addResults, hdispatch] at hthrows
          obtain ⟨rfl, rfl⟩ := hthrows trivial
          refine (leads_self hg .threw).silent (by rintro ⟨⟩) ?_
          simp only [ChatRequest.next, ChatRequest.onCall, hdispatch]
      | some result =>
          simp only [addResults, hdispatch] at hthrows hgoes
          refine Leads.appends hg (toolResult tc.id tc.name (shorten result))
            (.dispatching n (k + 1) rest) (by rintro ⟨⟩) ?_ fun g' hg' hread => ih hg' ?_ ?_
          · simp only [ChatRequest.next, ChatRequest.onCall, hdispatch]
          · rw [hread]
            exact hthrows
          · rw [hread]
            exact hgoes

/-- From this stage on, a request does what is left of its turn. -/
def Follows (requests : ℕ → ChatRequest) (i m n : ℕ) (g : Conversations) (stage : ChatStage) :
    Prop :=
  Leads requests i g stage
    (agentLoop (requests i).tools (requests i).inferenceFn m n
      (g.read (requests i).conversationId)).2
    (.ofResult (agentLoop (requests i).tools (requests i).inferenceFn m n
      (g.read (requests i).conversationId)).1)

/-- A reply of text ends the turn with one append. -/
theorem follows_of_returns {m n : ℕ} {g : Conversations} (hg : Found requests i g) (text : Text)
    (hreply : (requests i).onReply n = (some (assistantMessage text), .returned text))
    (hround : agentRound (requests i).tools (requests i).inferenceFn n
        (g.read (requests i).conversationId) =
      (.returns text, (g.read (requests i).conversationId).addAssistantMessage text)) :
    Follows requests i (m + 1) n g (.asked n) := by
  simp only [Follows, agentLoop, hround]
  refine Leads.appends hg (assistantMessage text) (.returned text) (by rintro ⟨⟩) hreply
    fun g' hg' hread => ?_
  rw [ConversationState.addAssistantMessage, ← hread]
  exact leads_self hg' _

/-- A reply that cannot be read ends the turn. -/
theorem follows_of_throws {m n : ℕ} {g : Conversations} (hg : Found requests i g)
    (hreply : (requests i).onReply n = (none, .threw))
    (hround : agentRound (requests i).tools (requests i).inferenceFn n
        (g.read (requests i).conversationId) =
      (.throws, g.read (requests i).conversationId)) :
    Follows requests i (m + 1) n g (.asked n) := by
  simp only [Follows, agentLoop, hround]
  exact (leads_self hg .threw).silent (by rintro ⟨⟩) hreply

/-- A reply of calls, and the rounds behind it. -/
theorem follows_of_calls {m n : ℕ}
    (ih : ∀ g', Found requests i g' → Follows requests i m (n + 1) g' (.round (n + 1)))
    {g : Conversations} (hg : Found requests i g) (calls : List ToolCall)
    (hreply : (requests i).onReply n = (some (toolCallsMessage calls), .dispatching n 0 calls))
    (hround : agentRound (requests i).tools (requests i).inferenceFn n
        (g.read (requests i).conversationId) =
      roundEnd (addResults (requests i).tools n 0 calls
        ((g.read (requests i).conversationId).addAssistantToolCalls calls))) :
    Follows requests i (m + 1) n g (.asked n) := by
  refine Leads.appends hg (toolCallsMessage calls) (.dispatching n 0 calls) nofun hreply
    fun g' hg' hread => leads_dispatching hg' ?_ fun g'' hg'' hall => ?_
  · rw [hread]
    intro hstops
    simp only [agentLoop, hround, roundEnd, ConversationState.addAssistantToolCalls, hstops,
      Bool.false_eq_true, if_false]
    exact ⟨rfl, trivial⟩
  · rw [hread] at hall
    have hnext := ih g'' hg''
    simp only [Follows] at hnext
    simpa only [agentLoop, hround, roundEnd, ConversationState.addAssistantToolCalls, hall,
      if_true] using hnext

/-- The reply of a round, where a request was built. -/
theorem follows_asked {m n : ℕ}
    (ih : ∀ g', Found requests i g' → Follows requests i m (n + 1) g' (.round (n + 1)))
    {g : Conversations} (hg : Found requests i g) {request : Text}
    (hbuild : buildInferenceRequest (g.read (requests i).conversationId) (requests i).tools =
      some request) : Follows requests i (m + 1) n g (.asked n) := by
  cases hreply : (requests i).inferenceFn n with
  | error e =>
      exact follows_of_returns hg (inferenceError e) (by simp only [ChatRequest.onReply, hreply])
        (by simp only [agentRound, hbuild, hreply])
  | ok response =>
      cases hparse : parseToolCalls response with
      | none =>
          exact follows_of_throws hg (by simp only [ChatRequest.onReply, hreply, hparse])
            (by simp only [agentRound, hbuild, hreply, hparse])
      | some calls =>
          cases calls with
          | nil =>
              cases hread : parseContent response with
              | none =>
                  exact follows_of_throws hg
                    (by simp only [ChatRequest.onReply, hreply, hparse, hread])
                    (by simp only [agentRound, hbuild, hreply, hparse, hread])
              | some content =>
                  exact follows_of_returns hg (replyText content)
                    (by simp only [ChatRequest.onReply, hreply, hparse, hread])
                    (by simp only [agentRound, hbuild, hreply, hparse, hread])
          | cons tc rest =>
              exact follows_of_calls ih hg (tc :: rest)
                (by simp only [ChatRequest.onReply, hreply, hparse])
                (by simp only [agentRound, hbuild, hreply, hparse])

/-- The rounds that are left. -/
theorem follows_round {m n : ℕ} (hn : n + m = defaultMaxRounds) {g : Conversations}
    (hg : Found requests i g) : Follows requests i m n g (.round n) := by
  induction m generalizing n g with
  | zero =>
      refine (leads_self hg _).silent nofun ?_
      rw [ChatRequest.next, if_neg (by omega)]
      rfl
  | succ m ih =>
      have hask : n < defaultMaxRounds := by omega
      cases hbuild : buildInferenceRequest (g.read (requests i).conversationId)
          (requests i).tools with
      | none =>
          simp only [Follows, agentLoop, agentRound, hbuild]
          refine (leads_self hg .threw).silent nofun ?_
          simp only [ChatRequest.next, if_pos hask, hbuild, Option.isSome_none,
            Bool.false_eq_true, if_false]
      | some request =>
          refine Leads.silent (follows_asked (fun g' hg' => ih (by omega) hg') hg hbuild) nofun ?_
          simp only [ChatRequest.next, if_pos hask, hbuild, Option.isSome_some, if_true]

/-- **A request that runs alone does what `agentTurn` does** to the conversation that it
found or created, behind its message. -/
theorem chatAct_alone (requests : ℕ → ChatRequest) (i : ℕ) (g : Conversations) :
    Leads requests i g .arrived
      (agentTurn (((getOrCreateConversation (requests i).systemPrompt
          (requests i).conversationId g).read (requests i).conversationId).addUserMessage
            (requests i).message)
        (requests i).tools (requests i).inferenceFn defaultMaxRounds).2
      (.ofResult (agentTurn (((getOrCreateConversation (requests i).systemPrompt
          (requests i).conversationId g).read (requests i).conversationId).addUserMessage
            (requests i).message)
        (requests i).tools (requests i).inferenceFn defaultMaxRounds).1) := by
  have hcreated : Found requests i (getOrCreateConversation (requests i).systemPrompt
      (requests i).conversationId g) := isSome_getOrCreate_self _ _ _
  obtain ⟨k, g', hsteps, hfound, hread⟩ : Leads requests i _ .found _ _ :=
    Leads.appends hcreated (userMessage (requests i).message) (.round 0) nofun rfl
      fun g' hg' hread => by
        have hrounds := follows_round (Nat.zero_add _) hg'
        rw [Follows, hread] at hrounds
        exact hrounds
  exact ⟨k + 1, g', hsteps, hfound, hread⟩

end alone

/-! ### What a step appends -/

namespace ChatRequest

variable (r : ChatRequest) (conv : ConversationState)

theorem role_assistantMessage_ne (text : Text) : (assistantMessage text).role ≠ "user".toList :=
  user_ne_assistant.symm

/-- What a reply appends leaves the calls waiting that it makes. -/
theorem onReply_scan (n : ℕ) :
    scan [] (r.onReply n).1.toList = some (r.onReply n).2.waiting ∧
      (∀ msg ∈ (r.onReply n).1, msg.role ≠ "user".toList) ∧
      ∀ tc ∈ (r.onReply n).2.waiting, tc.IsUtf8 := by
  have htext : ∀ text, scan [] (some (assistantMessage text)).toList = some [] := fun text => rfl
  rw [onReply]
  split
  · exact ⟨htext _, by rintro _ ⟨⟩; exact role_assistantMessage_ne _, List.forall_mem_nil _⟩
  · rename_i response _
    split
    · exact ⟨rfl, by simp, List.forall_mem_nil _⟩
    · split
      · exact ⟨rfl, by simp, List.forall_mem_nil _⟩
      · exact ⟨htext _, by rintro _ ⟨⟩; exact role_assistantMessage_ne _, List.forall_mem_nil _⟩
    · rename_i calls _ hparse
      exact ⟨rfl, by rintro _ ⟨⟩; exact user_ne_assistant.symm,
        fun tc htc => isUtf8_of_mem_parseToolCalls hparse htc⟩

/-- The text that a reply returns is the one that it appends. -/
theorem onReply_returned {n : ℕ} {text : Text} :
    (r.onReply n).2 = .returned text → (r.onReply n).1 = some (assistantMessage text) := by
  rw [onReply]
  split
  · rintro ⟨⟩
    rfl
  · split
    · exact nofun
    · split
      · exact nofun
      · rintro ⟨⟩
        rfl
    · exact nofun

/-- The result of a call is the one that is waited for. -/
theorem onCall_scan {n k : ℕ} {tc : ToolCall} (rest : List ToolCall) (htc : tc.IsUtf8)
    (hgarbles : ¬ r.tools.Garbles (n, k) tc) :
    scan (tc :: rest) (r.onCall n k tc rest).1.toList = some (r.onCall n k tc rest).2.waiting ∧
      (∀ msg ∈ (r.onCall n k tc rest).1, msg.role ≠ "user".toList) ∧
      (r.onCall n k tc rest).2.waiting = rest := by
  obtain ⟨result, hresult⟩ :=
    Option.ne_none_iff_exists'.mp fun h => hgarbles ((dispatch_eq_none_iff htc).mp h)
  simp only [onCall, hresult]
  refine ⟨?_, by rintro _ ⟨⟩; exact tool_ne_user, rfl⟩
  rw [Option.toList_some, scan_cons, expect_answer (toolResult_answers tc _), Option.bind_some]
  rfl

/-- A step of a turn appends what is in place, and no user message. -/
theorem next_inTurn {stage : ChatStage} (hturn : stage.inTurn = true)
    (hgarbles : ∀ n k tc rest, stage = .dispatching n k (tc :: rest) →
      ¬ r.tools.Garbles (n, k) tc)
    (hutf8 : ∀ tc ∈ stage.waiting, tc.IsUtf8) :
    scan stage.waiting (r.next conv stage).1.toList = some (r.next conv stage).2.waiting ∧
      (∀ msg ∈ (r.next conv stage).1, msg.role ≠ "user".toList) ∧
      ∀ tc ∈ (r.next conv stage).2.waiting, tc.IsUtf8 := by
  cases stage with
  | arrived => exact absurd hturn Bool.false_ne_true
  | found => exact absurd hturn Bool.false_ne_true
  | returned text => exact absurd hturn Bool.false_ne_true
  | threw => exact absurd hturn Bool.false_ne_true
  | asked n => exact r.onReply_scan n
  | round n =>
      rw [next]
      split_ifs <;> exact ⟨rfl, by simp, List.forall_mem_nil _⟩
  | dispatching n k calls =>
      cases calls with
      | nil => exact ⟨rfl, by simp [next], List.forall_mem_nil _⟩
      | cons tc rest =>
          obtain ⟨htc, hrest⟩ := List.forall_mem_cons.mp hutf8
          obtain ⟨hscan, hrole, hwaiting⟩ := r.onCall_scan rest htc (hgarbles n k tc rest rfl)
          exact ⟨hscan, hrole, by rw [next, hwaiting]; exact hrest⟩

/-- Outside of its turn a request appends its own message only. -/
theorem next_idle {stage : ChatStage} (hturn : stage.inTurn = false) (hfound : stage ≠ .found) :
    (r.next conv stage).1 = none ∧ (r.next conv stage).2.inTurn = false := by
  cases stage with
  | found => exact absurd rfl hfound
  | arrived => exact ⟨rfl, rfl⟩
  | returned text => exact ⟨rfl, rfl⟩
  | threw => exact ⟨rfl, rfl⟩
  | round n => exact absurd hturn.symm Bool.false_ne_true
  | asked n => exact absurd hturn.symm Bool.false_ne_true
  | dispatching n k calls => exact absurd hturn.symm Bool.false_ne_true

/-- A text that is returned was appended, unless it stands for rounds that are used up. -/
theorem next_returned {stage : ChatStage} {text : Text}
    (h : (r.next conv stage).2 = .returned text) :
    stage = .returned text ∨ text = maxRoundsText ∨
      (r.next conv stage).1 = some (assistantMessage text) := by
  cases stage with
  | arrived => simp [next] at h
  | found => simp [next] at h
  | threw => simp [next] at h
  | returned text' => exact Or.inl h
  | round n =>
      by_cases hn : n < defaultMaxRounds
      · rw [next, if_pos hn] at h
        split at h <;> simp at h
      · rw [next, if_neg hn] at h
        exact Or.inr (Or.inl (ChatStage.returned.inj h).symm)
  | asked n => exact Or.inr (Or.inr (r.onReply_returned h))
  | dispatching n k calls =>
      cases calls with
      | nil => simp [next] at h
      | cons tc rest =>
          rw [next, onCall] at h
          split at h <;> simp at h

theorem waiting_of_not_inTurn {stage : ChatStage} (h : stage.inTurn = false) :
    stage.waiting = [] := by
  cases stage with
  | dispatching n k calls => exact absurd h.symm Bool.false_ne_true
  | _ => rfl

end ChatRequest

/-! ### Requests that take turns -/

/-- An assistant message that is text. -/
def Message.IsReply (msg : Message) : Prop :=
  msg.role = "assistant".toList ∧ msg.toolCalls = []

/-- The last user message of a list, with who appended it. -/
def lastUser (entries : List (Option ℕ × Message)) : Option (Option ℕ × Message) :=
  (entries.filter fun e => e.2.role = "user".toList).getLast?

/-- The last user message before a reply is that of the request that replies. -/
def RepliesFollow (requests : ℕ → ChatRequest) (entries : List (Option ℕ × Message)) : Prop :=
  ∀ front i reply after, entries = front ++ (some i, reply) :: after → reply.IsReply →
    lastUser front = some (some i, userMessage (requests i).message)

/-- What the requests are to leave of a conversation. -/
structure ChatsKept (requests : ℕ → ChatRequest) (id : Text)
    (s : Conversations × (ℕ → ChatStage)) : Prop where
  /-- Unless a request is in the middle of a round, no call lacks its result. -/
  dialogue : (∀ i, (requests i).conversationId = id → (s.2 i).waiting = []) →
    Dialogue (s.1.messages id)
  replies : RepliesFollow requests (s.1.entries id)
  /-- The text that a request returns is appended, unless its rounds were used up. -/
  appended : ∀ i text, (requests i).conversationId = id → s.2 i = .returned text →
    text = maxRoundsText ∨ (some i, assistantMessage text) ∈ s.1.entries id

/-- The request is in its turn on the conversation. -/
def Holds (requests : ℕ → ChatRequest) (id : Text) (s : Conversations × (ℕ → ChatStage))
    (i : ℕ) : Prop :=
  (requests i).conversationId = id ∧ (s.2 i).inTurn = true

/-- The step is none that mixes turns: a request appends its message when no other request is
in its turn on the conversation, and no handler throws what cannot be reported. -/
structure TakesTurns (requests : ℕ → ChatRequest) (s : Conversations × (ℕ → ChatStage))
    (i : ℕ) : Prop where
  alone : s.2 i = .found → ∀ j, ¬ Holds requests (requests i).conversationId s j
  reported : ∀ n k tc rest, s.2 i = .dispatching n k (tc :: rest) →
    ¬ (requests i).tools.Garbles (n, k) tc

/-- Whose turn it is, and what the messages say of it. -/
def TurnAt (requests : ℕ → ChatRequest) (id : Text) (s : Conversations × (ℕ → ChatStage)) :
    Prop :=
  ((∀ j, ¬ Holds requests id s j) ∧ scan [] (s.1.messages id) = some []) ∨
  ∃ j, Holds requests id s j ∧ (∀ k, Holds requests id s k → k = j) ∧
    scan [] (s.1.messages id) = some (s.2 j).waiting ∧
    (∀ tc ∈ (s.2 j).waiting, tc.IsUtf8) ∧
    lastUser (s.1.entries id) = some (some j, userMessage (requests j).message)

/-- The invariant of requests that take turns. -/
structure ChatOrder (requests : ℕ → ChatRequest) (id : Text)
    (s : Conversations × (ℕ → ChatStage)) : Prop where
  found : ∀ i, s.2 i ≠ .arrived → (s.1 (requests i).conversationId).isSome = true
  turn : TurnAt requests id s
  replies : RepliesFollow requests (s.1.entries id)
  appended : ∀ i text, (requests i).conversationId = id → s.2 i = .returned text →
    text = maxRoundsText ∨ (some i, assistantMessage text) ∈ s.1.entries id

theorem ChatOrder.chatsKept {id : Text} {s : Conversations × (ℕ → ChatStage)}
    (h : ChatOrder requests id s) : ChatsKept requests id s := by
  refine ⟨fun hidle => ?_, h.replies, h.appended⟩
  rw [dialogue_iff_scan]
  rcases h.turn with ⟨-, hscan⟩ | ⟨j, hj, -, hscan, -⟩
  · exact hscan
  · rw [hscan, hidle j hj.1]

/-! ### Appending an entry -/

theorem lastUser_append_of_ne {entries : List (Option ℕ × Message)} {e : Option ℕ × Message}
    (h : e.2.role ≠ "user".toList) : lastUser (entries ++ [e]) = lastUser entries := by
  rw [lastUser, List.filter_append, List.filter_singleton, decide_eq_false h, cond_false,
    List.append_nil, lastUser]

theorem lastUser_append_user (entries : List (Option ℕ × Message)) (i : ℕ) (text : Text) :
    lastUser (entries ++ [(some i, userMessage text)]) = some (some i, userMessage text) := by
  have hrole : (userMessage text).role = "user".toList := rfl
  rw [lastUser, List.filter_append, List.filter_singleton, decide_eq_true hrole, cond_true,
    List.getLast?_concat]

/-- A reply may be appended where the last user message is that of its request. -/
theorem RepliesFollow.append {entries : List (Option ℕ × Message)}
    (h : RepliesFollow requests entries) {i : ℕ} {msg : Message}
    (hmsg : msg.IsReply → lastUser entries = some (some i, userMessage (requests i).message)) :
    RepliesFollow requests (entries ++ [(some i, msg)]) := by
  intro front j reply after heq hreply
  rcases List.eq_nil_or_concat after with rfl | ⟨after, e, rfl⟩
  · obtain ⟨hfront, hlast⟩ := List.append_inj' heq rfl
    obtain ⟨hj, rfl⟩ := Prod.mk.inj (List.singleton_inj.mp hlast)
    obtain rfl := Option.some.inj hj
    rw [← hfront]
    exact hmsg hreply
  · rw [List.concat_eq_append, ← List.cons_append, ← List.append_assoc] at heq
    obtain ⟨hfront, -⟩ := List.append_inj' heq rfl
    exact h front j reply after hfront hreply

theorem userMessage_not_isReply (text : Text) : ¬ (userMessage text).IsReply := fun h =>
  user_ne_assistant h.1

/-! ### Runs -/

/-- A step of a request on another conversation changes nothing here. -/
theorem holds_step_of_ne {id : Text} {s : Conversations × (ℕ → ChatStage)} {i : ℕ}
    (hid : (requests i).conversationId ≠ id) (j : ℕ) :
    Holds requests id (Threads.step (chatAct requests) s i) j ↔ Holds requests id s j := by
  by_cases hij : j = i
  · subst hij
    exact iff_of_false (fun h => hid h.1) fun h => hid h.1
  · rw [Holds, Threads.step_of_ne s hij, Holds]

/-- Whose turn it is depends on the messages and on the requests in their turns. -/
theorem TurnAt.congr {id : Text} {s s' : Conversations × (ℕ → ChatStage)}
    (h : TurnAt requests id s) (hentries : s'.1.entries id = s.1.entries id)
    (hholds : ∀ j, Holds requests id s' j ↔ Holds requests id s j)
    (hstage : ∀ j, Holds requests id s j → s'.2 j = s.2 j) : TurnAt requests id s' := by
  have hmessages : s'.1.messages id = s.1.messages id := congrArg (List.map Prod.snd) hentries
  rcases h with ⟨hnone, hscan⟩ | ⟨j, hj, hone, hscan, hutf8, hlast⟩
  · exact Or.inl ⟨fun j hj => hnone j ((hholds j).mp hj), by rw [hmessages, hscan]⟩
  · refine Or.inr ⟨j, (hholds j).mpr hj, fun k hk => hone k ((hholds k).mp hk), ?_, ?_, ?_⟩
    · rw [hmessages, hscan, hstage j hj]
    · rwa [hstage j hj]
    · rw [hentries, hlast]

/-- The messages behind a step. -/
theorem messages_append {g g' : Conversations} {id : Text} {i : ℕ} (msg : Option Message)
    (h : g'.entries id = g.entries id ++ msg.toList.map (some i, ·)) :
    g'.messages id = g.messages id ++ msg.toList := by
  rw [Conversations.messages, h, List.map_append, List.map_map]
  exact congrArg _ (List.map_id _)

/-- The message that request `i` appends may be a reply only in its own turn. -/
def ReplyInTurn (requests : ℕ → ChatRequest) (i : ℕ) (entries : List (Option ℕ × Message))
    (msg : Option Message) : Prop :=
  ∀ m ∈ msg, m.IsReply → lastUser entries = some (some i, userMessage (requests i).message)

section steps

variable {s s' : Conversations × (ℕ → ChatStage)} {i : ℕ} {conv : ConversationState}

/-- A request appends its message and starts its turn. -/
theorem turnAt_found (halone : ∀ j, ¬ Holds requests (requests i).conversationId s j)
    (hturn : TurnAt requests (requests i).conversationId s)
    (hothers : ∀ j, j ≠ i → s'.2 j = s.2 j)
    (hstep : ChatStepped requests i s.1 .found conv s'.1 (s'.2 i)) :
    TurnAt requests (requests i).conversationId s' := by
  have hstage : s'.2 i = .round 0 := hstep.moves
  rcases hturn with ⟨-, hscan⟩ | ⟨j, hj, -⟩
  · refine Or.inr ⟨i, ⟨rfl, by rw [hstage]; rfl⟩, fun k hk => ?_, ?_, ?_, ?_⟩
    · by_contra hki
      exact halone k ⟨hk.1, by rw [← hothers k hki]; exact hk.2⟩
    · rw [messages_append _ hstep.entries, scan_append, hscan, hstage]
      rfl
    · rw [hstage]
      exact List.forall_mem_nil _
    · rw [hstep.entries]
      exact lastUser_append_user _ _ _
  · exact absurd hj (halone j)

/-- A request goes on with its turn, or ends it. -/
theorem turnAt_inTurn (hi : TakesTurns requests s i) (hinTurn : (s.2 i).inTurn = true)
    (hturn : TurnAt requests (requests i).conversationId s)
    (hothers : ∀ j, j ≠ i → s'.2 j = s.2 j)
    (hstep : ChatStepped requests i s.1 (s.2 i) conv s'.1 (s'.2 i)) :
    TurnAt requests (requests i).conversationId s' ∧
      lastUser (s.1.entries (requests i).conversationId) =
        some (some i, userMessage (requests i).message) := by
  rcases hturn with ⟨hnone, -⟩ | ⟨j, hj, hone, hscan, hutf8, hlast⟩
  · exact absurd ⟨rfl, hinTurn⟩ (hnone i)
  obtain rfl := hone i ⟨rfl, hinTurn⟩
  refine ⟨?_, hlast⟩
  obtain ⟨hnext, hrole, hutf8'⟩ := (requests i).next_inTurn conv hinTurn hi.reported hutf8
  rw [← hstep.moves] at hnext hutf8'
  have hscan' : scan [] (s'.1.messages (requests i).conversationId) =
      some (s'.2 i).waiting := by
    rw [messages_append _ hstep.entries, scan_append, hscan, Option.bind_some, hnext]
  have hother : ∀ k, Holds requests (requests i).conversationId s' k → k = i := by
    intro k hk
    by_contra hki
    exact hki (hone k ⟨hk.1, by rw [← hothers k hki]; exact hk.2⟩)
  cases hends : (s'.2 i).inTurn with
  | false =>
      refine Or.inl ⟨fun k hk => ?_, ?_⟩
      · obtain rfl := hother k hk
        exact Bool.false_ne_true (hends.symm.trans hk.2)
      · rw [hscan', ChatRequest.waiting_of_not_inTurn hends]
  | true =>
      refine Or.inr ⟨i, ⟨rfl, hends⟩, hother, hscan', hutf8', ?_⟩
      rw [hstep.entries, ← hlast]
      cases hmsg : ((requests i).next conv (s.2 i)).1 with
      | none => rw [Option.toList_none, List.map_nil, List.append_nil]
      | some msg => exact lastUser_append_of_ne (hrole msg hmsg)

/-- A request that is in no turn, and does not start one, appends nothing. -/
theorem turnAt_idle (hinTurn : (s.2 i).inTurn = false) (hfound : s.2 i ≠ .found)
    (hturn : TurnAt requests (requests i).conversationId s)
    (hothers : ∀ j, j ≠ i → s'.2 j = s.2 j)
    (hstep : ChatStepped requests i s.1 (s.2 i) conv s'.1 (s'.2 i)) :
    TurnAt requests (requests i).conversationId s' := by
  obtain ⟨hmsg, hends⟩ := (requests i).next_idle conv hinTurn hfound
  have hentries := hstep.entries
  rw [hmsg, Option.toList_none, List.map_nil, List.append_nil] at hentries
  rw [← hstep.moves] at hends
  have hne : ∀ j, Holds requests (requests i).conversationId s j → j ≠ i := by
    rintro _ hj rfl
    exact Bool.false_ne_true (hinTurn.symm.trans hj.2)
  have hne' : ∀ j, Holds requests (requests i).conversationId s' j → j ≠ i := by
    rintro _ hj rfl
    exact Bool.false_ne_true (hends.symm.trans hj.2)
  refine hturn.congr hentries (fun j => ⟨fun hj => ?_, fun hj => ?_⟩) fun j hj =>
    hothers j (hne j hj)
  · exact ⟨hj.1, by rw [← hothers j (hne' j hj)]; exact hj.2⟩
  · exact ⟨hj.1, by rw [hothers j (hne j hj)]; exact hj.2⟩

/-- **Whose turn it is** behind a step of a request on the conversation. -/
theorem turnAt_next (hi : TakesTurns requests s i)
    (hturn : TurnAt requests (requests i).conversationId s)
    (hothers : ∀ j, j ≠ i → s'.2 j = s.2 j)
    (hstep : ChatStepped requests i s.1 (s.2 i) conv s'.1 (s'.2 i)) :
    TurnAt requests (requests i).conversationId s' ∧
      ReplyInTurn requests i (s.1.entries (requests i).conversationId)
        ((requests i).next conv (s.2 i)).1 := by
  cases hinTurn : (s.2 i).inTurn with
  | true =>
      obtain ⟨hturn', hlast⟩ := turnAt_inTurn hi hinTurn hturn hothers hstep
      exact ⟨hturn', fun _ _ _ => hlast⟩
  | false =>
      by_cases hfound : s.2 i = .found
      · rw [hfound] at hstep ⊢
        refine ⟨turnAt_found (hi.alone hfound) hturn hothers hstep, ?_⟩
        rintro _ ⟨⟩ hreply
        exact absurd hreply (userMessage_not_isReply _)
      · refine ⟨turnAt_idle hinTurn hfound hturn hothers hstep, ?_⟩
        rw [((requests i).next_idle conv hinTurn hfound).1]
        exact nofun

end steps

/-- **One step keeps the order.** Outside of turns a request appends its message when no
other is in its turn; in its turn it appends what the scan expects. -/
theorem chatOrder_step {id : Text} {s : Conversations × (ℕ → ChatStage)} {i : ℕ}
    (hi : TakesTurns requests s i) (h : ChatOrder requests id s) :
    ChatOrder requests id (Threads.step (chatAct requests) s i) := by
  obtain ⟨conv, hstep⟩ := chatAct_stepped requests i s.1 (h.found i)
  rw [← Threads.step_self (f := chatAct requests), ← Threads.step_shared] at hstep
  have hothers : ∀ j, j ≠ i → (Threads.step (chatAct requests) s i).2 j = s.2 j :=
    fun j hj => Threads.step_of_ne s hj
  have hfound : ∀ j, (Threads.step (chatAct requests) s i).2 j ≠ .arrived →
      ((Threads.step (chatAct requests) s i).1 (requests j).conversationId).isSome = true := by
    intro j hj
    by_cases hij : j = i
    · subst hij
      exact hstep.found
    · rw [hothers j hij] at hj
      exact hstep.kept _ (h.found j hj)
  by_cases hid : (requests i).conversationId = id
  · subst hid
    obtain ⟨hturn, hreply⟩ := turnAt_next hi h.turn hothers hstep
    refine ⟨hfound, hturn, ?_, fun j text hj htext => ?_⟩
    · rw [hstep.entries]
      cases hmsg : ((requests i).next conv (s.2 i)).1 with
      | none =>
          rw [Option.toList_none, List.map_nil, List.append_nil]
          exact h.replies
      | some msg => exact h.replies.append (hreply msg hmsg)
    · rw [hstep.entries, List.mem_append]
      by_cases hji : j = i
      · subst hji
        rw [hstep.moves] at htext
        rcases (requests j).next_returned conv htext with hbefore | htext | hmsg
        · exact (h.appended j text hj hbefore).imp_right Or.inl
        · exact Or.inl htext
        · rw [hmsg]
          exact Or.inr (Or.inr (List.mem_singleton_self _))
      · rw [hothers j hji] at htext
        exact (h.appended j text hj htext).imp_right Or.inl
  · have hsame := hstep.others id (Ne.symm hid)
    refine ⟨hfound, ?_, by rw [hsame]; exact h.replies, fun j text hj htext => ?_⟩
    · refine h.turn.congr hsame (holds_step_of_ne hid) fun j hj => ?_
      exact hothers j (by rintro rfl; exact hid hj.1)
    · rw [hothers j (by rintro rfl; exact hid hj)] at htext
      rw [hsame]
      exact h.appended j text hj htext

/-- The conversation is well-formed, and none of the requests has appended to it. -/
structure Settled (entries : List (Option ℕ × Message)) : Prop where
  dialogue : Dialogue (entries.map Prod.snd)
  earlier : ∀ e ∈ entries, e.1 = none

/-- The state before the requests. -/
theorem chatOrder_start {g : Conversations} {id : Text} (hg : Settled (g.entries id)) :
    ChatOrder requests id (g, fun _ => .arrived) := by
  refine ⟨fun i hi => absurd rfl hi, Or.inl ⟨fun j hj => Bool.false_ne_true hj.2, ?_⟩, ?_, ?_⟩
  · exact dialogue_iff_scan.mp hg.dialogue
  · intro front i reply after heq
    have hmem : (some i, reply) ∈ g.entries id := by
      rw [show g.entries id = _ from heq]
      exact List.mem_append_right _ List.mem_cons_self
    exact nomatch hg.earlier _ hmem
  · exact fun i text _ h => nomatch h

/-- **Requests that take turns keep their conversations.** In every run in which a request
appends its message only when no other one is in its turn on the same conversation, and in
which no handler throws what cannot be reported, the rounds and the replies do not mix. -/
theorem chatsKept_of_along (requests : ℕ → ChatRequest) {g : Conversations}
    (hg : ∀ id, Settled (g.entries id)) {schedule : List ℕ}
    (halong : Threads.Along (chatAct requests) (TakesTurns requests)
      (g, fun _ => .arrived) schedule) (id : Text) :
    ChatsKept requests id (Threads.run (chatAct requests) (g, fun _ => .arrived) schedule) :=
  (halong.run_invariant (fun _ _ hi h => chatOrder_step hi h) (chatOrder_start (hg id))).chatsKept

/-- Requests with a text, on one conversation. The first one's reply calls a tool. -/
def twoRequests (i : ℕ) : ChatRequest where
  message := "hello".toList
  conversationId := "conv_1".toList
  inferenceFn := fun _ => if i = 0 then .ok readReply else .error .other

theorem settled_empty (id : Text) : Settled (Conversations.entries (fun _ => none) id) :=
  ⟨.nil, List.forall_mem_nil _⟩

/-- A step is none that mixes turns where it neither appends the message nor a result. -/
theorem takesTurns_of_ne {s : Conversations × (ℕ → ChatStage)} {i : ℕ} (hfound : s.2 i ≠ .found)
    (hcall : (s.2 i).waiting = []) : TakesTurns requests s i := by
  refine ⟨fun h => absurd h hfound, fun n k tc rest h => ?_⟩
  rw [h] at hcall
  exact nomatch hcall

theorem chatsKept_of_along_sample :
    Threads.Along (chatAct twoRequests) (TakesTurns twoRequests)
      (fun _ => none, fun _ => .arrived) [1, 1, 1, 1] ∧
    ChatsKept twoRequests "conv_1".toList
      (Threads.run (chatAct twoRequests) (fun _ => none, fun _ => .arrived) [1, 1, 1, 1]) := by
  have halong : Threads.Along (chatAct twoRequests) (TakesTurns twoRequests)
      (fun _ => none, fun _ => .arrived) [1, 1, 1, 1] := by
    refine ⟨takesTurns_of_ne (by decide) rfl, ⟨fun _ j hj => ?_, fun n k tc rest h => ?_⟩,
      takesTurns_of_ne (by decide +kernel) (by decide +kernel),
      takesTurns_of_ne (by decide +kernel) (by decide +kernel), trivial⟩
    · by_cases hj1 : j = 1
      · subst hj1
        exact Bool.false_ne_true hj.2
      · have hturn := hj.2
        rw [Threads.step_of_ne _ hj1] at hturn
        exact Bool.false_ne_true hturn
    · exact nomatch h
  exact ⟨halong, chatsKept_of_along twoRequests settled_empty halong _⟩

/-- The message of the second request comes between the call and its result. -/
theorem not_chatsKept : ¬ ∀ (requests : ℕ → ChatRequest) (g : Conversations),
    (∀ id, Settled (g.entries id)) → ∀ (schedule : List ℕ) (id : Text),
      ChatsKept requests id
        (Threads.run (chatAct requests) (g, fun _ => .arrived) schedule) := by
  intro h
  have hkept := h twoRequests (fun _ => none) settled_empty [0, 0, 0, 0, 1, 1, 0]
    "conv_1".toList
  have hbroken : ¬ Dialogue (Conversations.messages (Threads.run (chatAct twoRequests)
      (fun _ => none, fun _ => .arrived) [0, 0, 0, 0, 1, 1, 0]).1 "conv_1".toList) := by
    decide +kernel
  refine hbroken (hkept.dialogue fun i _ => ?_)
  by_cases hi : i ∈ [0, 0, 0, 0, 1, 1, 0]
  · have hmem : i = 0 ∨ i = 1 := by
      simp only [List.mem_cons, List.not_mem_nil, or_false] at hi
      tauto
    rcases hmem with rfl | rfl <;> decide +kernel
  · rw [Threads.run_of_not_mem _ hi]
    rfl

end Llamaste
