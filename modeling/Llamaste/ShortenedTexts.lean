import Llamaste.Agent
import Llamaste.Notifications

/-!
# Texts that are cut

The title of a conversation is the start of its first user message, and the body of a task's
notification the start of the result. Both are cut at a fixed byte, and the JSON that they are put
into later is not written if the cut is inside a character.

Source: `child_main.cpp` (`handle_conversations`, the notification stream), `scheduler.cpp`
(`Scheduler::fire_task`).

## Main results

* `shortenedTexts_iff`: when the listing and the notification can be written.
-/

namespace Llamaste

/-! ### The listing -/

/-- The first user message with a text. -/
def firstUserMessage (msgs : List Message) : Option Message :=
  msgs.find? fun msg => msg.role = "user".toList ∧ msg.content ≠ []

/-- The title of a conversation. -/
def conversationTitle (id : Text) (msgs : List Message) : Text :=
  let title : Text := match firstUserMessage msgs with
    | some msg => if 60 < msg.content.length then msg.content.take 57 ++ "..." else msg.content
    | none => []
  if title = [] then "Conversation " ++ id.take 8 else title

/-- The entry of a conversation. -/
def conversationEntry (id : Text) (conv : ConversationState) : Json :=
  .object [("id".toList, .str id), ("title".toList, .str (conversationTitle id conv.messages)),
    ("message_count".toList, .int (CInt.toInt32 conv.messages.length))]

/-- `handle_conversations`, with `g_conversations` in the order of its keys. An exception is
`none`. -/
def handleConversations (conversations : List (Text × ConversationState)) : Option Text :=
  (Json.object [("conversations".toList,
    .arr (conversations.map fun kv => conversationEntry kv.1 kv.2))]).dump

/-- The listing is written, and each title is the first user message or a part of it that ends
where a character does. -/
structure ListsConversations (conversations : List (Text × ConversationState)) : Prop where
  returns : (handleConversations conversations).isSome = true
  titles : ∀ kv ∈ conversations, ∀ msg, firstUserMessage kv.2.messages = some msg →
    conversationTitle kv.1 kv.2.messages = msg.content ∨
      ∃ start, start <+: msg.content ∧ Utf8.valid start = true ∧
        conversationTitle kv.1 kv.2.messages = start ++ "..."

/-- The texts that are cut for a conversation are not cut inside a character. -/
structure ConversationFits (id : Text) (conv : ConversationState) : Prop where
  validId : Utf8.valid id = true
  title : ∀ msg, firstUserMessage conv.messages = some msg → 60 < msg.content.length →
    ∀ c ∈ msg.content[57]?, ¬Json.IsTail c
  fallback : firstUserMessage conv.messages = none → ∀ c ∈ id[8]?, ¬Json.IsTail c

/-! ### The notification -/

/-- The result of a task. -/
def TaskResult.text : TaskResult → Text
  | .missing => "(no inference function configured)"
  | .thrown what => "Error: " ++ what
  | .returned text => text

/-- The result of a task is not cut inside a character. -/
structure TaskFits (taskId : Text) (result : TaskResult) (id : Text) : Prop where
  validTask : Utf8.valid taskId = true
  validId : Utf8.valid id = true
  body : 200 < result.text.length → ∀ c ∈ result.text[197]?, ¬Json.IsTail c

section

variable {id : Text} {conv : ConversationState}

theorem firstUserMessage_spec {msgs : List Message} {msg : Message}
    (h : firstUserMessage msgs = some msg) :
    msg ∈ msgs ∧ msg.role = "user".toList ∧ msg.content ≠ [] :=
  ⟨List.mem_of_find?_eq_some h, of_decide_eq_true (List.find?_some (p := fun msg : Message =>
    decide (msg.role = "user".toList ∧ msg.content ≠ [])) h)⟩

/-- The title of a conversation with a user message. -/
theorem conversationTitle_of_some {msg : Message} (h : firstUserMessage conv.messages = some msg) :
    conversationTitle id conv.messages =
      if 60 < msg.content.length then msg.content.take 57 ++ "..." else msg.content := by
  rw [conversationTitle, h]
  dsimp only
  split_ifs with hlong hnil hnil
  · exact absurd hnil (List.append_ne_nil_of_right_ne_nil _ (by decide))
  · rfl
  · exact absurd hnil (firstUserMessage_spec h).2.2
  · rfl

/-- A title can be written exactly when it is not cut inside a character. -/
theorem valid_conversationTitle_iff (hid : Utf8.valid id = true)
    (hmsgs : ∀ msg ∈ conv.messages, msg.role = "user".toList → Utf8.valid msg.content = true) :
    Utf8.valid (conversationTitle id conv.messages) = true ↔ ConversationFits id conv := by
  cases hfirst : firstUserMessage conv.messages with
  | none =>
      have htitle : conversationTitle id conv.messages = "Conversation " ++ id.take 8 := by
        rw [conversationTitle, hfirst]
        rfl
      rw [htitle, Utf8.valid_append_iff (by decide), Json.valid_take_iff hid]
      exact ⟨fun h => ⟨hid, fun _ hsome => absurd (hfirst.symm.trans hsome) nofun, fun _ => h⟩,
        fun h => h.fallback hfirst⟩
  | some msg =>
      obtain ⟨hmem, hrole, -⟩ := firstUserMessage_spec hfirst
      have hvalid := hmsgs msg hmem hrole
      have htitle : Utf8.valid (conversationTitle id conv.messages) = true ↔
          (60 < msg.content.length → ∀ c ∈ msg.content[57]?, ¬Json.IsTail c) := by
        rw [conversationTitle_of_some hfirst]
        split_ifs with hlong
        · rw [Json.valid_append_ascii_iff (by decide), Json.valid_take_iff hvalid]
          exact ⟨fun h _ => h, fun h => h hlong⟩
        · exact iff_of_true hvalid fun h => absurd h hlong
      rw [htitle]
      refine ⟨fun h => ⟨hid, fun msg' hsome => ?_, fun hnone => nomatch hfirst.symm.trans hnone⟩,
        fun h => h.title msg hfirst⟩
      rw [← Option.some.inj (hfirst.symm.trans hsome)]
      exact h

theorem utf8_conversationEntry : (conversationEntry id conv).utf8 = true ↔
    Utf8.valid id = true ∧ Utf8.valid (conversationTitle id conv.messages) = true := by
  have hnodup : ["id".toList, "title".toList, "message_count".toList].Nodup := by decide
  have hkeys : ∀ key ∈ ["id".toList, "title".toList, "message_count".toList],
      Utf8.valid key = true := by decide
  rw [conversationEntry, Json.utf8_object]
  rotate_left
  · exact hnodup
  · exact hkeys
  simp only [List.map_cons, List.map_nil, List.forall_mem_cons, Json.utf8_str, List.not_mem_nil,
    false_imp_iff, implies_true, and_true]
  exact and_congr_right fun _ => and_iff_left rfl

end

/-- **The conversations are listed** exactly when no text is cut inside a character. -/
theorem listsConversations_iff {conversations : List (Text × ConversationState)}
    (hmsgs : ∀ kv ∈ conversations, ∀ msg ∈ kv.2.messages, msg.role = "user".toList →
      Utf8.valid msg.content = true) :
    ListsConversations conversations ↔ ∀ kv ∈ conversations, ConversationFits kv.1 kv.2 := by
  have hkey : ∀ key ∈ ["conversations".toList], Utf8.valid key = true := by decide
  have hreturns : (handleConversations conversations).isSome = true ↔
      ∀ kv ∈ conversations, ConversationFits kv.1 kv.2 := by
    rw [handleConversations, Json.isSome_dump, Json.utf8_object]
    rotate_left
    · exact List.pairwise_singleton _ _
    · exact hkey
    simp only [List.map_cons, List.map_nil, List.forall_mem_cons, List.not_mem_nil, false_imp_iff,
      implies_true, and_true, Json.utf8_arr, List.all_eq_true, List.forall_mem_map,
      utf8_conversationEntry]
    refine forall₂_congr fun kv hkv => ?_
    by_cases hid : Utf8.valid kv.1 = true
    · rw [and_iff_right hid, valid_conversationTitle_iff hid (hmsgs kv hkv)]
    · exact iff_of_false (fun h => hid h.1) fun h => hid h.validId
  refine ⟨fun h => hreturns.mp h.returns, fun h => ⟨hreturns.mpr h, fun kv hkv msg hfirst => ?_⟩⟩
  obtain ⟨hmem, hrole, -⟩ := firstUserMessage_spec hfirst
  have hvalid := hmsgs kv hkv msg hmem hrole
  rw [conversationTitle_of_some hfirst]
  by_cases hlong : 60 < msg.content.length
  · rw [if_pos hlong]
    exact Or.inr ⟨_, List.take_prefix _ _,
      (Json.valid_take_iff hvalid 57).mpr ((h kv hkv).title msg hfirst hlong), rfl⟩
  · exact Or.inl (if_neg hlong)

/-- **The notification of a task is written** exactly when its result is not cut inside a
character. -/
theorem isSome_line_taskNotification_iff {taskId id : Text} {result : TaskResult} {time : ℤ}
    (hresult : Utf8.valid result.text = true) :
    (taskNotification taskId result id time).line.isSome = true ↔ TaskFits taskId result id := by
  have hnotif : taskNotification taskId result id time =
      { id, type := "scheduled", title := "Scheduled: " ++ taskId
        body := if 200 < result.text.length then result.text.take 197 ++ "..." else result.text
        time } := by cases result <;> rfl
  have hbody : Utf8.valid (if 200 < result.text.length then result.text.take 197 ++ "..."
      else result.text) = true ↔
        (200 < result.text.length → ∀ c ∈ result.text[197]?, ¬Json.IsTail c) := by
    split_ifs with hlong
    · rw [Json.valid_append_ascii_iff (by decide), Json.valid_take_iff hresult]
      exact ⟨fun h _ => h, fun h => h hlong⟩
    · exact iff_of_true hresult fun h => absurd h hlong
  have htype : Utf8.valid "scheduled".toList = true := by decide
  rw [Notification.isSome_line_iff, hnotif, Notification.IsUtf8]
  simp only [List.forall_mem_cons, List.not_mem_nil, false_imp_iff, implies_true, and_true, hbody,
    htype, Utf8.valid_append_iff (show Utf8.valid "Scheduled: ".toList = true by decide)]
  exact ⟨fun h => ⟨h.2.2, h.2.1, h.1⟩, fun h => ⟨h.body, h.validId, h.validTask⟩⟩

/-- **Texts that are cut can be written** exactly when none is cut inside a character. -/
theorem shortenedTexts_iff {conversations : List (Text × ConversationState)}
    (hmsgs : ∀ kv ∈ conversations, ∀ msg ∈ kv.2.messages, msg.role = "user".toList →
      Utf8.valid msg.content = true) {taskId id : Text} {result : TaskResult} {time : ℤ}
    (hresult : Utf8.valid result.text = true) :
    ListsConversations conversations ∧
        (taskNotification taskId result id time).line.isSome = true ↔
      (∀ kv ∈ conversations, ConversationFits kv.1 kv.2) ∧ TaskFits taskId result id :=
  and_congr (listsConversations_iff hmsgs) (isSome_line_taskNotification_iff hresult)

/-- A message of 63 bytes with a character of two bytes from byte 56 on. -/
def accentedConversations : List (Text × ConversationState) :=
  [("conv_1_0", { conversationId := "conv_1_0", messages := [userMessage
    (List.replicate 56 'a' ++ "\u00c3\u00a9" ++ List.replicate 5 'b')] })]

theorem shortenedTexts_accentedConversations :
    ListsConversations accentedConversations ∧
        (taskNotification "a1" (.returned "done") "b2" 0).line.isSome = true ↔
      (∀ kv ∈ accentedConversations, ConversationFits kv.1 kv.2) ∧
        TaskFits "a1" (.returned "done") "b2" :=
  shortenedTexts_iff (by decide +kernel) (by decide)

/-- A title is cut inside a character, and no conversation is listed. -/
theorem not_shortenedTexts : ¬∀ (conversations : List (Text × ConversationState))
    (taskId id : Text) (result : TaskResult) (time : ℤ),
    (∀ kv ∈ conversations, Utf8.valid kv.1 = true ∧ ∀ msg ∈ kv.2.messages,
      msg.role = "user".toList → Utf8.valid msg.content = true) →
    Utf8.valid taskId = true → Utf8.valid id = true → Utf8.valid result.text = true →
      ListsConversations conversations ∧
        (taskNotification taskId result id time).line.isSome = true := fun h =>
  absurd (h accentedConversations "a1" "b2" (.returned "done") 0 (by decide +kernel) (by decide)
    (by decide) (by decide)).1.returns (by decide +kernel)

end Llamaste
