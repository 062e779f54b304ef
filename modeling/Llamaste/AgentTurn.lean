import Llamaste.AgentRounds

/-!
# A whole turn

What a turn appends to a conversation are rounds of calls with their results, and at most a
text at the end, so a well-formed conversation stays one, unless a dispatch throws between
two results. A turn returns a text unless one of the rounds that it reaches throws.

## Main results

* `agentTurn_dialogue_iff`: when a turn leaves a well-formed conversation.
* `agentTurn_isSome_iff`: when a turn does not throw.
-/

namespace Llamaste

variable {reg : ToolRegistry} {inferenceFn : ℕ → Except Thrown Text}

/-! ### Reaching a round -/

/-- A round that answers its calls leaves a conversation that can be sent when the answers
can. -/
theorem sendable_round_iff (reg : ToolRegistry) {conv : ConversationState} {round : ℕ}
    (hconv : conv.Sendable) (hcalls : roundCalls inferenceFn round ≠ [])
    (hall : (addResults reg round 0 (roundCalls inferenceFn round)
      (conv.addAssistantToolCalls (roundCalls inferenceFn round))).1 = true) :
    (addResults reg round 0 (roundCalls inferenceFn round)
        (conv.addAssistantToolCalls (roundCalls inferenceFn round))).2.Sendable ↔
      RoundPasses reg inferenceFn round := by
  have hutf8 : ∀ tc ∈ roundCalls inferenceFn round, tc.IsUtf8 := fun tc htc =>
    isUtf8_of_mem_roundCalls htc
  have hpush : (conv.addAssistantToolCalls (roundCalls inferenceFn round)).Sendable := by
    refine ⟨hconv.systemPrompt, List.forall_mem_append.mpr ⟨hconv.messages, fun msg hmsg => ?_⟩⟩
    rw [List.mem_singleton.mp hmsg]
    exact (sendable_toolCalls_iff hcalls).mpr hutf8
  rw [sendable_addResults_iff hutf8 reg round 0 _ hall]
  exact ⟨fun h => ⟨hcalls, h.2⟩, fun h => ⟨hpush, h.2⟩⟩

/-- The rounds behind one that was answered are reached from there. -/
theorem reached_succ_iff {conv conv' : ConversationState} {start round : ℕ}
    (hsend : reg.IsUtf8 ∧ conv.Sendable)
    (hnext : conv'.Sendable ↔ RoundPasses reg inferenceFn start) (hround : start < round) :
    Reached reg inferenceFn conv start round ↔ Reached reg inferenceFn conv' (start + 1) round := by
  constructor
  · rintro ⟨hreg, -, hpass⟩
    exact ⟨hreg, hnext.mpr (hpass start le_rfl hround), fun r hr => hpass r (by omega)⟩
  · rintro ⟨hreg, hconv', hpass⟩
    refine ⟨hreg, hsend.2, fun r hr hlt => ?_⟩
    rcases Nat.eq_or_lt_of_le hr with rfl | hr
    · exact hnext.mp hconv'
    · exact hpass r hr hlt

/-- No round is reached behind one without calls. -/
theorem not_reached_of_roundCalls_eq_nil {conv : ConversationState} {start round : ℕ}
    (hcalls : roundCalls inferenceFn start = []) (hround : start < round) :
    ¬ Reached reg inferenceFn conv start round := fun h =>
  (h.2.2 start le_rfl hround).1 hcalls

theorem reached_self {conv : ConversationState} {start : ℕ} (hsend : reg.IsUtf8 ∧ conv.Sendable) :
    Reached reg inferenceFn conv start start :=
  ⟨hsend.1, hsend.2, fun _ hle hlt => absurd hlt (not_lt.mpr hle)⟩

/-- What holds of the rounds from `start` on holds of the first one and of the others. -/
theorem forall_round_succ {P : ℕ → Prop} {start n : ℕ} :
    (∀ round, start ≤ round → round < start + (n + 1) → P round) ↔
      P start ∧ ∀ round, start + 1 ≤ round → round < start + 1 + n → P round := by
  constructor
  · exact fun h => ⟨h start le_rfl (by omega), fun round hle hlt => h round (by omega) (by omega)⟩
  · rintro ⟨hstart, hrest⟩ round hle hlt
    rcases Nat.eq_or_lt_of_le hle with rfl | hle
    · exact hstart
    · exact hrest round hle (by omega)

/-! ### Well-formed conversations -/

/-- What the calls of a round and their results append. -/
theorem round_append (reg : ToolRegistry) (inferenceFn : ℕ → Except Thrown Text) (round : ℕ)
    (conv : ConversationState) :
    ∃ added waiting, (addResults reg round 0 (roundCalls inferenceFn round)
        (conv.addAssistantToolCalls (roundCalls inferenceFn round))).2 = conv.append added ∧
      scan [] added = some waiting ∧ added.countP Message.isToolCalls ≤ 1 ∧
      ((addResults reg round 0 (roundCalls inferenceFn round)
        (conv.addAssistantToolCalls (roundCalls inferenceFn round))).1 = true ↔ waiting = []) := by
  obtain ⟨results, waiting, hconv, hscan, htool, hall⟩ := addResults_eq reg round 0
    (roundCalls inferenceFn round) (conv.addAssistantToolCalls (roundCalls inferenceFn round))
  refine ⟨toolCallsMessage (roundCalls inferenceFn round) :: results, waiting, ?_, ?_, ?_, hall⟩
  · exact hconv.trans (conv.append_append [toolCallsMessage _] results)
  · rw [scan_cons, expect_assistant rfl, Option.bind_some]
    exact hscan
  · have hnone : results.countP Message.isToolCalls = 0 := by
      refine List.countP_eq_zero.mpr fun msg hmsg hcalls => ?_
      have hrole := of_decide_eq_true (htool msg hmsg)
      exact tool_ne_assistant (hrole.symm.trans (Message.isToolCalls_iff.mp hcalls).1)
    rw [List.countP_cons, hnone]
    split_ifs <;> omega

/-- No round from one without calls on is reached and garbled. -/
theorem not_roundGarbled_of_nil {conv : ConversationState} {start round : ℕ}
    (hcalls : roundCalls inferenceFn start = []) (hle : start ≤ round)
    (hreach : Reached reg inferenceFn conv start round) :
    ¬ RoundGarbled reg inferenceFn round := by
  rcases Nat.eq_or_lt_of_le hle with rfl | hlt
  · rintro ⟨p, hp, -⟩
    rw [hcalls] at hp
    exact absurd hp List.not_mem_nil
  · exact absurd hreach (not_reached_of_roundCalls_eq_nil hcalls hlt)

/-- What the rounds of a turn append, and when it ends between two results. -/
theorem agentLoop_append (reg : ToolRegistry) (inferenceFn : ℕ → Except Thrown Text)
    (n start : ℕ) (conv : ConversationState) :
    ∃ added waiting, (agentLoop reg inferenceFn n start conv).2 = conv.append added ∧
      scan [] added = some waiting ∧ added.countP Message.isToolCalls ≤ n ∧
      (waiting = [] ↔ ∀ round, start ≤ round → round < start + n →
        Reached reg inferenceFn conv start round → ¬ RoundGarbled reg inferenceFn round) := by
  induction n generalizing start conv with
  | zero =>
      refine ⟨[], [], conv.append_nil.symm, rfl, by simp, ?_⟩
      exact iff_of_true rfl fun round hle hlt => absurd hlt (by omega)
  | succ n ih =>
      rcases agentRound_cases reg inferenceFn start conv with ⟨hsend, hround⟩ |
        ⟨hsend, hcalls, -, text, hround⟩ | ⟨hsend, hcalls, -, hround⟩ |
        ⟨hsend, hcalls, -, hround⟩
      · refine ⟨[], [], by rw [agentLoop, hround, conv.append_nil], rfl, by simp, ?_⟩
        exact iff_of_true rfl fun _ _ _ hreach => absurd ⟨hreach.1, hreach.2.1⟩ hsend
      · refine ⟨[assistantMessage text], [], ?_, ?_, ?_, ?_⟩
        · rw [agentLoop, hround]
          rfl
        · rw [scan_cons, expect_assistant rfl]
          rfl
        · have hnone : (assistantMessage text).isToolCalls ≠ true := fun h =>
            (Message.isToolCalls_iff.mp h).2 rfl
          rw [List.countP_cons_of_neg hnone, List.countP_nil]
          exact Nat.zero_le _
        · exact iff_of_true rfl fun _ hle _ => not_roundGarbled_of_nil hcalls hle
      · refine ⟨[], [], by rw [agentLoop, hround, conv.append_nil], rfl, by simp, ?_⟩
        exact iff_of_true rfl fun _ hle _ => not_roundGarbled_of_nil hcalls hle
      · obtain ⟨added, waiting, hconv, hscan, hblocks, hall⟩ :=
          round_append reg inferenceFn start conv
        have hok := fst_addResults_iff reg start 0 (roundCalls inferenceFn start)
          (conv.addAssistantToolCalls (roundCalls inferenceFn start))
        have hnext := sendable_round_iff reg hsend.2 hcalls
        rw [← not_roundGarbled_iff] at hok
        generalize addResults reg start 0 (roundCalls inferenceFn start)
          (conv.addAssistantToolCalls (roundCalls inferenceFn start)) = r at *
        obtain ⟨ok, conv'⟩ := r
        dsimp only at hconv hall hok hnext hround
        cases ok with
        | false =>
            rw [roundEnd_false] at hround
            refine ⟨added, waiting, by rw [agentLoop, hround, hconv], hscan,
              hblocks.trans (by omega), iff_of_false (fun h => nomatch hall.mpr h) fun h => ?_⟩
            exact nomatch hok.mpr (h start le_rfl (by omega) (reached_self hsend))
        | true =>
            rw [roundEnd_true] at hround
            obtain ⟨added', waiting', hconv', hscan', hblocks', hall'⟩ := ih (start + 1) conv'
            obtain rfl := hall.mp rfl
            refine ⟨added ++ added', waiting', ?_, ?_, ?_, ?_⟩
            · rw [agentLoop, hround, ← conv.append_append, ← hconv]
              exact hconv'
            · rw [scan_append, hscan, Option.bind_some, hscan']
            · rw [List.countP_append]
              omega
            · rw [hall', forall_round_succ]
              constructor
              · refine fun h => ⟨fun _ => hok.mp rfl, fun round hle hlt hreach => ?_⟩
                exact h round hle hlt ((reached_succ_iff hsend (hnext rfl) hle).mp hreach)
              · refine fun h round hle hlt hreach => h.2 round hle hlt ?_
                exact (reached_succ_iff hsend (hnext rfl) hle).mpr hreach

/-- What a turn is to leave: a well-formed conversation that starts with the old one and has
at most `maxRounds` blocks more. -/
structure KeepsDialogue (conv conv' : ConversationState) (maxRounds : ℤ) : Prop where
  dialogue : Dialogue conv'.messages
  append : ∃ added, conv'.messages = conv.messages ++ added ∧
    added.countP Message.isToolCalls ≤ maxRounds.toNat

theorem keepsDialogue_iff {conv : ConversationState} (hconv : Dialogue conv.messages)
    (reg : ToolRegistry) (inferenceFn : ℕ → Except Thrown Text) (maxRounds : ℤ) :
    KeepsDialogue conv (agentTurn conv reg inferenceFn maxRounds).2 maxRounds ↔
      ∀ round < maxRounds.toNat, Reached reg inferenceFn conv 0 round →
        ¬ RoundGarbled reg inferenceFn round := by
  obtain ⟨added, waiting, hadded, hscan, hblocks, hall⟩ :=
    agentLoop_append reg inferenceFn maxRounds.toNat 0 conv
  have hdialogue : Dialogue (agentTurn conv reg inferenceFn maxRounds).2.messages ↔
      waiting = [] := by
    rw [agentTurn, hadded, dialogue_iff_scan, ConversationState.append, hconv.scan_append, hscan,
      Option.some.injEq]
  have hrounds : (∀ round < maxRounds.toNat, Reached reg inferenceFn conv 0 round →
      ¬ RoundGarbled reg inferenceFn round) ↔ waiting = [] := by
    rw [hall, Nat.zero_add]
    exact ⟨fun h round _ hlt => h round hlt, fun h round hlt => h round (Nat.zero_le _) hlt⟩
  rw [hrounds, ← hdialogue]
  refine ⟨fun h => h.dialogue, fun h => ⟨h, added, ?_, hblocks⟩⟩
  rw [agentTurn, hadded, ConversationState.append]

/-- **Conversations stay well-formed** under truncation, and under a turn exactly when no
round that it reaches has a call whose handler throws what cannot be reported. -/
theorem agentTurn_dialogue_iff {conv : ConversationState} (hconv : Dialogue conv.messages)
    (reg : ToolRegistry) (inferenceFn : ℕ → Except Thrown Text) (maxRounds : ℤ) :
    (KeepsDialogue conv (agentTurn conv reg inferenceFn maxRounds).2 maxRounds ∧
      ∀ n : ℤ, Truncated conv.messages (conv.truncate n).messages n ∨
        (conv.messages.length : ℤ) ≤ max n 0 ∧ conv.truncate n = conv) ↔
      ∀ round < maxRounds.toNat, Reached reg inferenceFn conv 0 round →
        ¬ RoundGarbled reg inferenceFn round := by
  rw [keepsDialogue_iff hconv, and_iff_left (truncate_dialogue hconv)]

/-- A conversation of one user message. -/
def greeting : ConversationState where
  conversationId := "conv_1"
  messages := [{ role := "user".toList, content := "hello".toList }]

/-- A reply that calls the tool `fs.read`. -/
def readReply : Text :=
  "\x7b\"choices\":[\x7b\"message\":\x7b\"tool_calls\":[\x7b\"id\":\"call_1\"," ++
  "\"function\":\x7b\"name\":\"fs.read\"\x7d\x7d]\x7d\x7d]\x7d"

/-- A registry of one tool. Its handler throws a text that is not UTF-8. -/
def garblingRegistry : ToolRegistry where
  tools := [{
    name := "fs.read"
    description := "Read a file"
    parameters := "\x7b\x7d"
    handler := fun _ _ => .error (.what [Char.ofNat 0xFF]) }]
  nodup := by simp

theorem agentTurn_dialogue_iff_sample :
    (KeepsDialogue greeting (agentTurn greeting garblingRegistry (fun _ => .ok readReply) 5).2 5 ∧
      ∀ n : ℤ, Truncated greeting.messages (greeting.truncate n).messages n ∨
        (greeting.messages.length : ℤ) ≤ max n 0 ∧ greeting.truncate n = greeting) ↔
      ∀ round < (5 : ℤ).toNat,
        Reached garblingRegistry (fun _ => .ok readReply) greeting 0 round →
          ¬ RoundGarbled garblingRegistry (fun _ => .ok readReply) round :=
  agentTurn_dialogue_iff (by decide) garblingRegistry (fun _ => .ok readReply) 5

/-- The dispatch throws, and the call stays without its result. -/
theorem not_keepsDialogue : ¬ ∀ (conv : ConversationState) (reg : ToolRegistry)
    (inferenceFn : ℕ → Except Thrown Text) (maxRounds : ℤ), Dialogue conv.messages →
      KeepsDialogue conv (agentTurn conv reg inferenceFn maxRounds).2 maxRounds := by
  intro h
  have hkeeps := h greeting garblingRegistry (fun _ => .ok readReply) 5 (by decide)
  have hbroken : ¬ Dialogue
      (agentTurn greeting garblingRegistry (fun _ => .ok readReply) 5).2.messages := by
    decide +kernel
  exact hbroken hkeeps.dialogue

/-! ### Turns that throw -/

/-- The results of calls in the conversation can be sent. -/
def ConversationState.ResultsSendable (conv : ConversationState) : Prop :=
  ∀ msg ∈ conv.messages, msg.isTool = true → msg.Sendable

theorem ConversationState.Sendable.resultsSendable {conv : ConversationState}
    (h : conv.Sendable) : conv.ResultsSendable := fun msg hmsg _ => h.messages msg hmsg

/-- What a round appends can be sent when its results can. -/
theorem resultsSendable_round_iff (reg : ToolRegistry) {conv : ConversationState} {round : ℕ}
    (hconv : conv.Sendable) (hcalls : roundCalls inferenceFn round ≠ []) :
    (addResults reg round 0 (roundCalls inferenceFn round)
        (conv.addAssistantToolCalls (roundCalls inferenceFn round))).2.ResultsSendable ↔
      (addResults reg round 0 (roundCalls inferenceFn round)
        (conv.addAssistantToolCalls (roundCalls inferenceFn round))).2.Sendable := by
  refine ⟨fun h => ?_, fun h => h.resultsSendable⟩
  obtain ⟨results, -, hadded, -, htool, -⟩ := addResults_eq reg round 0
    (roundCalls inferenceFn round) (conv.addAssistantToolCalls (roundCalls inferenceFn round))
  rw [hadded] at h ⊢
  refine ⟨hconv.systemPrompt, List.forall_mem_append.mpr ⟨?_, fun msg hmsg => ?_⟩⟩
  · refine List.forall_mem_append.mpr ⟨hconv.messages, fun msg hmsg => ?_⟩
    rw [List.mem_singleton.mp hmsg]
    exact (sendable_toolCalls_iff hcalls).mpr fun tc htc => isUtf8_of_mem_roundCalls htc
  · exact h msg (List.mem_append_right _ hmsg) (htool msg hmsg)

theorem resultsSendable_addAssistantMessage {conv : ConversationState} (h : conv.Sendable)
    (text : Text) : (conv.addAssistantMessage text).ResultsSendable := by
  refine List.forall_mem_append.mpr ⟨h.resultsSendable, fun msg hmsg htool => ?_⟩
  rw [List.mem_singleton.mp hmsg] at htool
  exact absurd (of_decide_eq_true htool).symm tool_ne_assistant

/-- A turn returns a text, and leaves results that can be sent, when every round that it
reaches is typed, is not garbled and, if it has calls, passes. -/
theorem agentLoop_isSome_iff (n start : ℕ) (conv : ConversationState) :
    ((agentLoop reg inferenceFn n start conv).1.isSome = true ∧
        (agentLoop reg inferenceFn n start conv).2.ResultsSendable) ↔
      (if n = 0 then conv.ResultsSendable else reg.IsUtf8 ∧ conv.Sendable) ∧
      ∀ round, start ≤ round → round < start + n → Reached reg inferenceFn conv start round →
        RoundTyped inferenceFn round ∧ ¬ RoundGarbled reg inferenceFn round ∧
        (roundCalls inferenceFn round ≠ [] → RoundPasses reg inferenceFn round) := by
  induction n generalizing start conv with
  | zero =>
      rw [agentLoop, if_pos rfl]
      exact ⟨fun h => ⟨h.2, fun round hle hlt => absurd hlt (by omega)⟩, fun h => ⟨rfl, h.1⟩⟩
  | succ n ih =>
      rw [if_neg (Nat.succ_ne_zero n)]
      rcases agentRound_cases reg inferenceFn start conv with ⟨hsend, hround⟩ |
        ⟨hsend, hcalls, htyped, text, hround⟩ | ⟨hsend, -, htyped, hround⟩ |
        ⟨hsend, hcalls, htyped, hround⟩
      · rw [agentLoop, hround]
        exact iff_of_false (fun h => Bool.false_ne_true h.1) fun h => hsend h.1
      · rw [agentLoop, hround]
        refine iff_of_true ⟨rfl, resultsSendable_addAssistantMessage hsend.2 text⟩
          ⟨hsend, fun round hle _ hreach => ?_⟩
        have hgarbled := not_roundGarbled_of_nil hcalls hle hreach
        rcases Nat.eq_or_lt_of_le hle with rfl | hlt
        · exact ⟨htyped, hgarbled, fun h => absurd hcalls h⟩
        · exact absurd hreach (not_reached_of_roundCalls_eq_nil hcalls hlt)
      · rw [agentLoop, hround]
        refine iff_of_false (fun h => Bool.false_ne_true h.1) fun h => htyped ?_
        exact (h.2 start le_rfl (by omega) (reached_self hsend)).1
      · have hok := fst_addResults_iff reg start 0 (roundCalls inferenceFn start)
          (conv.addAssistantToolCalls (roundCalls inferenceFn start))
        have hnext := sendable_round_iff reg hsend.2 hcalls
        have hresults := resultsSendable_round_iff reg hsend.2 hcalls
        rw [← not_roundGarbled_iff] at hok
        generalize addResults reg start 0 (roundCalls inferenceFn start)
          (conv.addAssistantToolCalls (roundCalls inferenceFn start)) = r at *
        obtain ⟨ok, conv'⟩ := r
        dsimp only at hok hnext hresults hround
        cases ok with
        | false =>
            rw [roundEnd_false] at hround
            rw [agentLoop, hround]
            refine iff_of_false (fun h => Bool.false_ne_true h.1) fun h =>
              Bool.false_ne_true (hok.mpr ?_)
            exact (h.2 start le_rfl (by omega) (reached_self hsend)).2.1
        | true =>
            rw [roundEnd_true] at hround
            have hstep : agentLoop reg inferenceFn (n + 1) start conv =
                agentLoop reg inferenceFn n (start + 1) conv' := by rw [agentLoop, hround]
            have hpass : (if n = 0 then conv'.ResultsSendable else reg.IsUtf8 ∧ conv'.Sendable) ↔
                RoundPasses reg inferenceFn start := by
              split_ifs
              · exact hresults.trans (hnext rfl)
              · exact (and_iff_right hsend.1).trans (hnext rfl)
            rw [hstep, ih, forall_round_succ, hpass]
            constructor
            · rintro ⟨hstart, hrest⟩
              refine ⟨hsend, fun _ => ⟨htyped, hok.mp rfl, fun _ => hstart⟩,
                fun round hle hlt hreach => ?_⟩
              exact hrest round hle hlt ((reached_succ_iff hsend (hnext rfl) hle).mp hreach)
            · rintro ⟨-, hstart, hrest⟩
              refine ⟨(hstart (reached_self hsend)).2.2 hcalls, fun round hle hlt hreach => ?_⟩
              exact hrest round hle hlt ((reached_succ_iff hsend (hnext rfl) hle).mpr hreach)

theorem ConversationState.IsUtf8.sendable {conv : ConversationState} (h : conv.IsUtf8) :
    conv.Sendable :=
  ⟨h.systemPrompt, fun msg hmsg => (h.messages msg hmsg).sendable⟩

/-- The result is so long that it is cut, and the cut falls inside a character. -/
def CutsCharacter (result : Text) : Prop :=
  4000 < result.length ∧ Utf8.valid (result.take 4000) = false

/-- A call of the round is answered with a result that is cut inside a character. -/
def RoundCuts (reg : ToolRegistry) (inferenceFn : ℕ → Except Thrown Text) (round : ℕ) : Prop :=
  ∃ p ∈ (roundCalls inferenceFn round).zipIdx, ∃ result,
    reg.dispatch (round, p.2) p.1.name p.1.arguments = some result ∧ CutsCharacter result

/-- Only a cut inside a character spoils a result. -/
theorem valid_shorten_iff {result : Text} (h : Utf8.valid result = true) :
    Utf8.valid (shorten result) = true ↔ ¬ CutsCharacter result := by
  rw [shorten, CutsCharacter]
  split_ifs with hlong
  · have hmark : Utf8.valid "...(truncated)".toList = true := by decide
    rw [and_iff_right hlong, Bool.not_eq_false]
    -- the mark starts with an ASCII byte
    exact ⟨Json.validFrom_of_append_ascii Json.owes_start (by decide),
      fun hcut => Utf8.valid_append hcut hmark⟩
  · exact iff_of_true h fun hcut => hlong hcut.1

/-- A round that answers its calls passes, unless it cuts a result inside a character. -/
theorem roundPasses_iff (hreg : reg.ReturnsUtf8) {round : ℕ}
    (hgarbled : ¬ RoundGarbled reg inferenceFn round) :
    (roundCalls inferenceFn round ≠ [] → RoundPasses reg inferenceFn round) ↔
      ¬ RoundCuts reg inferenceFn round := by
  have hanswered : ∀ p ∈ (roundCalls inferenceFn round).zipIdx,
      Answered reg round p ↔ ∀ result,
        reg.dispatch (round, p.2) p.1.name p.1.arguments = some result →
          ¬ CutsCharacter result := by
    intro p hp
    obtain ⟨result, hresult⟩ :=
      Option.ne_none_iff_exists'.mp (not_roundGarbled_iff.mp hgarbled p hp)
    rw [Answered, hresult]
    simp only [Option.some.injEq, exists_eq_left', forall_eq']
    exact valid_shorten_iff (valid_dispatch hreg hresult)
  simp only [RoundCuts, not_exists, not_and]
  constructor
  · intro h p hp
    have hne : roundCalls inferenceFn round ≠ [] :=
      List.ne_nil_of_mem (List.fst_mem_of_mem_zipIdx hp)
    exact (hanswered p hp).mp ((h hne).2 p hp)
  · exact fun h hne => ⟨hne, fun p hp => (hanswered p hp).mpr (h p hp)⟩

theorem greeting_isUtf8 : greeting.IsUtf8 := by
  refine ⟨rfl, by decide, fun msg hmsg => ?_⟩
  rw [List.mem_singleton.mp hmsg]
  exact ⟨by decide, by decide, rfl, rfl, List.forall_mem_nil _⟩

theorem returnsUtf8_empty : ToolRegistry.ReturnsUtf8 {} := List.forall_mem_nil _

/-- A reply whose `tool_calls` has a number in it. -/
def mistypedReply : Text :=
  "\x7b\"choices\":[\x7b\"message\":\x7b\"tool_calls\":[1]\x7d\x7d]\x7d"

end Llamaste
