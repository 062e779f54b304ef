import Llamaste.Agent

/-!
# Well-formed message lists

The inference engine accepts a list of messages in which every assistant message that calls
tools is followed by the results of its calls, in order. `Dialogue` says so of a list, and
`scan` decides it message by message, keeping the calls that still wait for their results.

## Main results

* `dialogue_iff_scan`: a list is well-formed when the scan ends with no call waiting.
* `truncate_dialogue`: truncation leaves a well-formed list.
-/

namespace Llamaste

/-- The message holds the result of the call. -/
def Message.Answers (msg : Message) (tc : ToolCall) : Prop :=
  msg.role = "tool".toList ∧ msg.toolCallId = tc.id ∧ msg.name = tc.name

instance (msg : Message) (tc : ToolCall) : Decidable (msg.Answers tc) :=
  inferInstanceAs (Decidable (_ ∧ _ ∧ _))

/-- User messages, assistant texts, and calls with their results. -/
inductive Dialogue : List Message → Prop
  | nil : Dialogue []
  | user {msg : Message} {rest : List Message} (hrole : msg.role = "user".toList)
      (hrest : Dialogue rest) : Dialogue (msg :: rest)
  | text {msg : Message} {rest : List Message} (hrole : msg.role = "assistant".toList)
      (hcalls : msg.toolCalls = []) (hrest : Dialogue rest) : Dialogue (msg :: rest)
  | block {msg : Message} {results rest : List Message}
      (hrole : msg.role = "assistant".toList) (hcalls : msg.toolCalls ≠ [])
      (hresults : List.Forall₂ Message.Answers results msg.toolCalls) (hrest : Dialogue rest) :
      Dialogue (msg :: (results ++ rest))

/-! ### Scanning -/

/-- The calls that wait for their results behind a message, or `none` where the message is
out of place. -/
def expect : List ToolCall → Message → Option (List ToolCall)
  | [], msg =>
    if msg.role = "user".toList then some []
    else if msg.role = "assistant".toList then some msg.toolCalls
    else none
  | tc :: waiting, msg => if msg.Answers tc then some waiting else none

/-- The calls that wait behind a list of messages. -/
def scan : List ToolCall → List Message → Option (List ToolCall)
  | waiting, [] => some waiting
  | waiting, msg :: rest => (expect waiting msg).bind fun waiting => scan waiting rest

theorem scan_cons (waiting : List ToolCall) (msg : Message) (rest : List Message) :
    scan waiting (msg :: rest) = (expect waiting msg).bind fun waiting => scan waiting rest :=
  rfl

theorem scan_append (waiting : List ToolCall) (a b : List Message) :
    scan waiting (a ++ b) = (scan waiting a).bind fun waiting => scan waiting b := by
  induction a generalizing waiting with
  | nil => rfl
  | cons msg a ih =>
      rw [List.cons_append, scan_cons, scan_cons]
      cases expect waiting msg with
      | none => rfl
      | some waiting => exact ih waiting

theorem user_ne_assistant : "user".toList ≠ "assistant".toList := by decide

theorem tool_ne_user : "tool".toList ≠ "user".toList := by decide

theorem tool_ne_assistant : "tool".toList ≠ "assistant".toList := by decide

theorem expect_user {msg : Message} (h : msg.role = "user".toList) : expect [] msg = some [] :=
  if_pos h

theorem expect_assistant {msg : Message} (h : msg.role = "assistant".toList) :
    expect [] msg = some msg.toolCalls := by
  rw [expect, if_neg (by rw [h]; exact user_ne_assistant.symm), if_pos h]

theorem expect_answer {msg : Message} {tc : ToolCall} (h : msg.Answers tc)
    (waiting : List ToolCall) : expect (tc :: waiting) msg = some waiting := if_pos h

/-- A tool message is in place only where a call waits for it. -/
theorem expect_eq_some {waiting waiting' : List ToolCall} {msg : Message}
    (h : expect waiting msg = some waiting') :
    (waiting = [] ∧ msg.role = "user".toList ∧ waiting' = []) ∨
    (waiting = [] ∧ msg.role = "assistant".toList ∧ waiting' = msg.toolCalls) ∨
    ∃ tc, waiting = tc :: waiting' ∧ msg.Answers tc := by
  cases waiting with
  | nil =>
      simp only [expect] at h
      split_ifs at h with huser hassistant
      · exact Or.inl ⟨rfl, huser, (Option.some.inj h).symm⟩
      · exact Or.inr (Or.inl ⟨rfl, hassistant, (Option.some.inj h).symm⟩)
  | cons tc waiting =>
      simp only [expect] at h
      split_ifs at h with hanswers
      obtain rfl := Option.some.inj h
      exact Or.inr (Or.inr ⟨tc, rfl, hanswers⟩)

/-- Results of calls, in order, leave no call waiting. -/
theorem scan_results {results : List Message} {calls : List ToolCall}
    (h : List.Forall₂ Message.Answers results calls) (rest : List Message) :
    scan calls (results ++ rest) = scan [] rest := by
  induction h with
  | nil => rfl
  | cons hanswers _ ih =>
      rw [List.cons_append, scan_cons, expect_answer hanswers, Option.bind_some, ih]

/-- When no call is left waiting, those that waited have got their results first. -/
theorem exists_results_of_scan {waiting : List ToolCall} {msgs : List Message}
    (h : scan waiting msgs = some []) :
    ∃ results rest, msgs = results ++ rest ∧ List.Forall₂ Message.Answers results waiting ∧
      Dialogue rest := by
  induction msgs generalizing waiting with
  | nil =>
      obtain rfl := Option.some.inj h
      exact ⟨[], [], rfl, .nil, .nil⟩
  | cons msg msgs ih =>
      rw [scan_cons] at h
      obtain ⟨waiting', hexpect, hscan⟩ := Option.bind_eq_some_iff.mp h
      obtain ⟨results, rest, rfl, hresults, hrest⟩ := ih hscan
      rcases expect_eq_some hexpect with ⟨rfl, hrole, rfl⟩ | ⟨rfl, hrole, rfl⟩ | ⟨tc, rfl, hmsg⟩
      · cases hresults
        exact ⟨[], _, rfl, .nil, .user hrole hrest⟩
      · refine ⟨[], _, rfl, .nil, ?_⟩
        by_cases hcalls : msg.toolCalls = []
        · rw [hcalls] at hresults
          cases hresults
          exact .text hrole hcalls hrest
        · exact .block hrole hcalls hresults hrest
      · exact ⟨msg :: results, rest, rfl, .cons hmsg hresults, hrest⟩

/-- **A list is well-formed when the scan ends with no call waiting.** -/
theorem dialogue_iff_scan {msgs : List Message} : Dialogue msgs ↔ scan [] msgs = some [] := by
  constructor
  · intro h
    induction h with
    | nil => rfl
    | user hrole _ ih => rw [scan_cons, expect_user hrole, Option.bind_some, ih]
    | text hrole hcalls _ ih =>
        rw [scan_cons, expect_assistant hrole, hcalls, Option.bind_some, ih]
    | block hrole _ hresults _ ih =>
        rw [scan_cons, expect_assistant hrole, Option.bind_some, scan_results hresults, ih]
  · intro h
    obtain ⟨results, rest, rfl, hresults, hrest⟩ := exists_results_of_scan h
    cases hresults
    exact hrest

instance (msgs : List Message) : Decidable (Dialogue msgs) :=
  decidable_of_iff _ dialogue_iff_scan.symm

/-- Behind a well-formed list, a scan starts afresh. -/
theorem Dialogue.scan_append {msgs : List Message} (h : Dialogue msgs) (added : List Message) :
    scan [] (msgs ++ added) = scan [] added := by
  rw [Llamaste.scan_append, dialogue_iff_scan.mp h, Option.bind_some]

/-! ### Truncation -/

/-- What is left of a well-formed list still scans to its end. -/
theorem exists_scan_of_suffix {waiting : List ToolCall} {msgs rest : List Message}
    (h : scan waiting msgs = some []) (hsuffix : rest <:+ msgs) :
    ∃ waiting', scan waiting' rest = some [] := by
  obtain ⟨front, rfl⟩ := hsuffix
  rw [scan_append] at h
  obtain ⟨waiting', -, hscan⟩ := Option.bind_eq_some_iff.mp h
  exact ⟨waiting', hscan⟩

theorem Message.Answers.isTool {msg : Message} {tc : ToolCall} (h : msg.Answers tc) :
    msg.isTool = true := decide_eq_true h.1

theorem Message.isToolCalls_iff {msg : Message} :
    msg.isToolCalls = true ↔ msg.role = "assistant".toList ∧ msg.toolCalls ≠ [] := by
  simp only [Message.isToolCalls, Bool.and_eq_true, decide_eq_true_eq]

theorem dropOrphans_suffix (msgs : List Message) : dropOrphans msgs <:+ msgs := by
  fun_induction dropOrphans msgs with
  | case1 => exact List.suffix_refl _
  | case2 msg rest _ ih => exact ih.trans (List.suffix_cons msg rest)
  | case3 msg rest _ _ ih =>
      exact (ih.trans (List.dropWhile_suffix _)).trans (List.suffix_cons msg rest)
  | case4 => exact List.suffix_refl _

/-- What is left starts with neither a result nor a call. -/
theorem dropOrphans_head (msgs : List Message) :
    ∀ msg ∈ (dropOrphans msgs).head?, msg.isTool = false ∧ msg.isToolCalls = false := by
  fun_induction dropOrphans msgs with
  | case1 => exact fun _ h => nomatch h
  | case2 _ _ _ ih => exact ih
  | case3 _ _ _ _ ih => exact ih
  | case4 msg rest htool hcalls =>
      rintro _ ⟨⟩
      exact ⟨Bool.eq_false_iff.mpr htool, Bool.eq_false_iff.mpr hcalls⟩

/-- The loop removes the rest of a block that was cut. -/
theorem dropOrphans_dialogue {waiting : List ToolCall} {msgs : List Message}
    (h : scan waiting msgs = some []) : Dialogue (dropOrphans msgs) := by
  fun_induction dropOrphans msgs generalizing waiting with
  | case1 => exact .nil
  | case2 msg rest _ ih =>
      obtain ⟨waiting', hscan⟩ := exists_scan_of_suffix h (List.suffix_cons msg rest)
      exact ih hscan
  | case3 msg rest _ _ ih =>
      obtain ⟨waiting', hscan⟩ := exists_scan_of_suffix h
        ((List.dropWhile_suffix Message.isTool).trans (List.suffix_cons msg rest))
      exact ih hscan
  | case4 msg rest htool _ =>
      have hnil : waiting = [] := by
        rw [scan_cons] at h
        obtain ⟨waiting', hexpect, -⟩ := Option.bind_eq_some_iff.mp h
        rcases expect_eq_some hexpect with ⟨hnil, -⟩ | ⟨hnil, -⟩ | ⟨tc, -, hanswers⟩
        · exact hnil
        · exact hnil
        · exact absurd hanswers.isTool htool
      rw [hnil] at h
      exact dialogue_iff_scan.mpr h

/-- What a truncation to `n` messages is to leave of `old`. -/
structure Truncated (old new : List Message) (n : ℤ) : Prop where
  suffix : new <:+ old
  dialogue : Dialogue new
  length_le : (new.length : ℤ) ≤ max n 0
  head : ∀ msg ∈ new.head?, msg.isTool = false ∧ msg.isToolCalls = false

/-- **Truncation leaves a well-formed list**, or all of one that is short enough. -/
theorem truncate_dialogue {conv : ConversationState} (hconv : Dialogue conv.messages) (n : ℤ) :
    Truncated conv.messages (conv.truncate n).messages n ∨
      (conv.messages.length : ℤ) ≤ max n 0 ∧ conv.truncate n = conv := by
  rw [ConversationState.truncate]
  split_ifs with hshort
  · exact Or.inr ⟨by omega, rfl⟩
  · left
    have hsuffix := dropOrphans_suffix
      (conv.messages.drop (conv.messages.length - (max n 0).toNat))
    obtain ⟨waiting, hscan⟩ := exists_scan_of_suffix (dialogue_iff_scan.mp hconv)
      (List.drop_suffix (conv.messages.length - (max n 0).toNat) conv.messages)
    refine ⟨hsuffix.trans (List.drop_suffix _ _), dropOrphans_dialogue hscan, ?_,
      dropOrphans_head _⟩
    have hle := hsuffix.length_le
    rw [List.length_drop] at hle
    dsimp only
    omega

end Llamaste
