import Llamaste.AgentRequest
import Llamaste.Dialogue

/-!
# What a round of a turn does

A round that is reached sends a request, and its reply decides: text ends the turn, calls
are answered one after the other and the next round follows. A round throws where its
request cannot be built, where the reply is not typed as the accessors expect, or where a
handler throws what cannot be reported.

## Main results

* `agentRound_cases`: everything a round can do.
* `addResults_eq`: the results that are appended are those of the first calls, in order.
* `sendable_addResults_iff`: which results the next request can carry.
-/

namespace Llamaste

variable (reg : ToolRegistry) (inferenceFn : ℕ → Except Thrown Text)

/-- The calls of the reply in a round. -/
def roundCalls (round : ℕ) : List ToolCall :=
  match inferenceFn round with
  | .ok response => (parseToolCalls response).getD []
  | .error _ => []

/-- The reply in a round is typed as the accessors expect. -/
def RoundTyped (round : ℕ) : Prop :=
  ∀ response, inferenceFn round = .ok response →
    (∀ tc ∈ responseEntries response, EntryTyped tc) ∧
    (responseEntries response = [] → ContentTyped response)

/-- A call of the round runs a handler that throws what cannot be reported. -/
def RoundGarbled (round : ℕ) : Prop :=
  ∃ p ∈ (roundCalls inferenceFn round).zipIdx, reg.Garbles (round, p.2) p.1

/-- The call is answered, and the answer can be sent. -/
def Answered (round : ℕ) (p : ToolCall × ℕ) : Prop :=
  ∃ result, reg.dispatch (round, p.2) p.1.name p.1.arguments = some result ∧
    Utf8.valid (shorten result) = true

/-- The round has calls, and their answers can be sent. -/
def RoundPasses (round : ℕ) : Prop :=
  roundCalls inferenceFn round ≠ [] ∧
    ∀ p ∈ (roundCalls inferenceFn round).zipIdx, Answered reg round p

/-- The rounds from `start` on pass until `round` is reached, and its request is built. -/
def Reached (conv : ConversationState) (start round : ℕ) : Prop :=
  reg.IsUtf8 ∧ conv.Sendable ∧ ∀ r, start ≤ r → r < round → RoundPasses reg inferenceFn r

variable {reg inferenceFn} {conv : ConversationState} {round : ℕ}

/-- Calls of a reply were parsed, so they are UTF-8. -/
theorem isUtf8_of_mem_roundCalls {tc : ToolCall} (h : tc ∈ roundCalls inferenceFn round) :
    tc.IsUtf8 := by
  unfold roundCalls at h
  split at h
  · rename_i response _
    cases hparse : parseToolCalls response with
    | none =>
        rw [hparse] at h
        exact absurd h List.not_mem_nil
    | some calls =>
        rw [hparse] at h
        exact isUtf8_of_mem_parseToolCalls hparse h
  · exact absurd h List.not_mem_nil

/-- A call that is not garbled is answered. -/
theorem not_roundGarbled_iff :
    ¬ RoundGarbled reg inferenceFn round ↔
      ∀ p ∈ (roundCalls inferenceFn round).zipIdx,
        reg.dispatch (round, p.2) p.1.name p.1.arguments ≠ none := by
  simp only [RoundGarbled, not_exists, not_and]
  refine forall₂_congr fun p hp => not_congr (dispatch_eq_none_iff ?_).symm
  exact isUtf8_of_mem_roundCalls (List.fst_mem_of_mem_zipIdx hp)

/-! ### Appending results -/

/-- Messages appended to a conversation. -/
def ConversationState.append (conv : ConversationState) (added : List Message) :
    ConversationState :=
  { conv with messages := conv.messages ++ added }

@[simp] theorem ConversationState.append_nil (conv : ConversationState) :
    conv.append [] = conv := by
  rw [append, List.append_nil]

theorem ConversationState.append_append (conv : ConversationState) (a b : List Message) :
    (conv.append a).append b = conv.append (a ++ b) := by
  simp only [append, List.append_assoc]

theorem toolResult_answers (tc : ToolCall) (result : Text) :
    (toolResult tc.id tc.name result).Answers tc := ⟨rfl, rfl, rfl⟩

/-- **The results that are appended** are those of the calls up to one whose dispatch
throws. -/
theorem addResults_eq (reg : ToolRegistry) (round i : ℕ) (calls : List ToolCall)
    (conv : ConversationState) :
    ∃ results waiting, (addResults reg round i calls conv).2 = conv.append results ∧
      scan calls results = some waiting ∧ (∀ msg ∈ results, msg.isTool = true) ∧
      ((addResults reg round i calls conv).1 = true ↔ waiting = []) := by
  induction calls generalizing i conv with
  | nil => exact ⟨[], [], conv.append_nil.symm, rfl, List.forall_mem_nil _, by simp [addResults]⟩
  | cons tc calls ih =>
      cases hdispatch : reg.dispatch (round, i) tc.name tc.arguments with
      | none =>
          refine ⟨[], tc :: calls, ?_, rfl, List.forall_mem_nil _, ?_⟩
          · rw [addResults, hdispatch, conv.append_nil]
          · simp [addResults, hdispatch]
      | some result =>
          obtain ⟨results, waiting, hconv, hscan, htool, hall⟩ :=
            ih (i + 1) (conv.addToolResult tc.id tc.name (shorten result))
          have hstep : addResults reg round i (tc :: calls) conv =
              addResults reg round (i + 1) calls
                (conv.append [toolResult tc.id tc.name (shorten result)]) := by
            rw [addResults, hdispatch]
            rfl
          have hanswers := toolResult_answers tc (shorten result)
          refine ⟨toolResult tc.id tc.name (shorten result) :: results, waiting, ?_, ?_, ?_, ?_⟩
          · rw [hstep]
            exact hconv.trans (conv.append_append _ _)
          · rw [scan_cons, expect_answer hanswers, Option.bind_some, hscan]
          · exact List.forall_mem_cons.mpr ⟨hanswers.isTool, htool⟩
          · rw [hstep]
            exact hall

/-- All results are appended when no dispatch throws. -/
theorem fst_addResults_iff (reg : ToolRegistry) (round i : ℕ) (calls : List ToolCall)
    (conv : ConversationState) :
    (addResults reg round i calls conv).1 = true ↔
      ∀ p ∈ calls.zipIdx i, reg.dispatch (round, p.2) p.1.name p.1.arguments ≠ none := by
  induction calls generalizing i conv with
  | nil => simp [addResults]
  | cons tc calls ih =>
      rw [List.zipIdx_cons, List.forall_mem_cons]
      cases hdispatch : reg.dispatch (round, i) tc.name tc.arguments with
      | none => simp [addResults, hdispatch]
      | some result =>
          rw [addResults, hdispatch]
          exact (ih (i + 1) _).trans ⟨fun h => ⟨by simp, h⟩, fun h => h.2⟩

/-- **The next request can carry the results** when all calls are answered with what can be
sent. -/
theorem sendable_addResults_iff {calls : List ToolCall} (hcalls : ∀ tc ∈ calls, tc.IsUtf8)
    (reg : ToolRegistry) (round i : ℕ) (conv : ConversationState)
    (hall : (addResults reg round i calls conv).1 = true) :
    (addResults reg round i calls conv).2.Sendable ↔
      conv.Sendable ∧ ∀ p ∈ calls.zipIdx i, Answered reg round p := by
  induction calls generalizing i conv with
  | nil => simp [addResults]
  | cons tc calls ih =>
      have htc := hcalls tc List.mem_cons_self
      rw [List.zipIdx_cons, List.forall_mem_cons]
      cases hdispatch : reg.dispatch (round, i) tc.name tc.arguments with
      | none => simp [addResults, hdispatch] at hall
      | some result =>
          rw [addResults, hdispatch] at hall ⊢
          have hanswered : Answered reg round (tc, i) ↔ Utf8.valid (shorten result) = true := by
            simp [Answered, hdispatch]
          have hpush : (conv.addToolResult tc.id tc.name (shorten result)).Sendable ↔
              conv.Sendable ∧ Utf8.valid (shorten result) = true := by
            rw [← sendable_result_iff htc]
            constructor
            · intro h
              obtain ⟨hmessages, hlast⟩ := List.forall_mem_append.mp h.messages
              exact ⟨⟨h.systemPrompt, hmessages⟩, hlast _ (List.mem_singleton_self _)⟩
            · rintro ⟨h, hlast⟩
              refine ⟨h.systemPrompt, List.forall_mem_append.mpr ⟨h.messages, fun msg hmsg => ?_⟩⟩
              rw [List.mem_singleton.mp hmsg]
              exact hlast
          rw [ih (fun r hr => hcalls r (List.mem_cons_of_mem _ hr)) (i + 1) _ hall, hpush,
            hanswered, and_assoc]

/-! ### A round -/

/-- **Everything a round can do.** It throws without a request; it ends the turn with a text;
it throws at a reply without calls; or it throws at the calls, or answers them. -/
theorem agentRound_cases (reg : ToolRegistry) (inferenceFn : ℕ → Except Thrown Text)
    (round : ℕ) (conv : ConversationState) :
    (¬ (reg.IsUtf8 ∧ conv.Sendable) ∧
      agentRound reg inferenceFn round conv = (.throws, conv)) ∨
    ((reg.IsUtf8 ∧ conv.Sendable) ∧ roundCalls inferenceFn round = [] ∧
      RoundTyped inferenceFn round ∧ ∃ text, agentRound reg inferenceFn round conv =
        (.returns text, conv.addAssistantMessage text)) ∨
    ((reg.IsUtf8 ∧ conv.Sendable) ∧ roundCalls inferenceFn round = [] ∧
      ¬ RoundTyped inferenceFn round ∧
      agentRound reg inferenceFn round conv = (.throws, conv)) ∨
    ((reg.IsUtf8 ∧ conv.Sendable) ∧ roundCalls inferenceFn round ≠ [] ∧
      RoundTyped inferenceFn round ∧
      agentRound reg inferenceFn round conv =
        roundEnd (addResults reg round 0 (roundCalls inferenceFn round)
          (conv.addAssistantToolCalls (roundCalls inferenceFn round)))) := by
  have hrequest := isSome_buildInferenceRequest_iff conv reg
  cases hbuild : buildInferenceRequest conv reg with
  | none =>
      rw [hbuild] at hrequest
      exact Or.inl ⟨fun h => Bool.false_ne_true (hrequest.mpr h), by simp only [agentRound, hbuild]⟩
  | some request =>
      rw [hbuild] at hrequest
      refine Or.inr ?_
      have hsend := hrequest.mp rfl
      cases hreply : inferenceFn round with
      | error e =>
          have hcalls : roundCalls inferenceFn round = [] := by rw [roundCalls, hreply]
          have htyped : RoundTyped inferenceFn round := fun _ h =>
            nomatch hreply.symm.trans h
          exact Or.inl ⟨hsend, hcalls, htyped, inferenceError e,
            by simp only [agentRound, hbuild, hreply]⟩
      | ok response =>
          have hentries := isSome_parseToolCalls_iff response
          have hcontent := isSome_parseContent_iff response
          have hnil := parseToolCalls_eq_nil_iff response
          cases hparse : parseToolCalls response with
          | none =>
              rw [hparse] at hentries
              have hcalls : roundCalls inferenceFn round = [] := by
                rw [roundCalls, hreply]
                exact congrArg (·.getD []) hparse
              refine Or.inr (Or.inl ⟨hsend, hcalls, fun htyped => ?_, ?_⟩)
              · exact Bool.false_ne_true (hentries.mpr (htyped response hreply).1)
              · simp only [agentRound, hbuild, hreply, hparse]
          | some calls =>
              rw [hparse] at hentries hnil
              have hcalls : roundCalls inferenceFn round = calls := by
                rw [roundCalls, hreply]
                exact congrArg (·.getD []) hparse
              have htyped : (responseEntries response = [] → ContentTyped response) →
                  RoundTyped inferenceFn round := fun h response' hreply' => by
                obtain rfl := Except.ok.inj (hreply.symm.trans hreply')
                exact ⟨hentries.mp rfl, h⟩
              cases calls with
              | nil =>
                  cases hread : parseContent response with
                  | none =>
                      rw [hread] at hcontent
                      refine Or.inr (Or.inl ⟨hsend, hcalls, fun htyped => ?_, ?_⟩)
                      · exact Bool.false_ne_true
                          (hcontent.mpr ((htyped response hreply).2 (hnil.mp rfl)))
                      · simp only [agentRound, hbuild, hreply, hparse, hread]
                  | some content =>
                      rw [hread] at hcontent
                      exact Or.inl ⟨hsend, hcalls, htyped fun _ => hcontent.mp rfl,
                        replyText content, by simp only [agentRound, hbuild, hreply, hparse, hread]⟩
              | cons tc calls =>
                  refine Or.inr (Or.inr ⟨hsend, by rw [hcalls]; simp, htyped fun h => ?_, ?_⟩)
                  · exact nomatch Option.some.inj (hnil.mpr h)
                  · simp only [agentRound, hbuild, hreply, hparse, hcalls]

end Llamaste
