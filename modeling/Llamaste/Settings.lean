import Mathlib
import Llamaste.AgentReplies
import Llamaste.Lib.JsonDump
import Llamaste.ModelOverride

/-!
# The store of settings

A setting is written as the content of a file, and read back, by two requests, as the first line of
it. A third request for every setting lists the files that are there, beside the defaults.

Source: `tools_config.cpp` (`handle_config_get`, `handle_config_set`, `handle_config_list`).

## Main results

* `readsBack_iff`: the settings that are read back as they were saved.
-/

namespace Llamaste

/-! ### What is stored -/

/-- The directory of the settings: whether it is there, and what is read at the names in it, which
is nothing where a name is that of a directory. -/
structure ConfigStore where
  isDir : Bool
  files : ConfigFiles
  finite : {name | (files name).isSome = true}.Finite
  empty : isDir = false → ∀ name, files name = none
  dot : files "." = none
  dotdot : files ".." = none

namespace ConfigStore

/-- What is read at `key_to_path(key)`. -/
def read (s : ConfigStore) (key : Text) : Option Text :=
  if key = "." ∨ key = ".." then (if s.isDir then some [] else none) else s.files key

/-- What `readdir` goes through, in some order. -/
def Lists (s : ConfigStore) (names : List Text) : Prop :=
  ∀ name, name ∈ names ↔ name = "." ∨ name = ".." ∨ (s.files name).isSome = true

end ConfigStore

/-- `std::getline`, from the start of a file. -/
def firstLine (text : Text) : Text := text.takeWhile (· ≠ '\n')

/-- A default. -/
structure ConfigDefault where
  key : Text
  value : Text
  description : Text

/-- `defaults`. -/
def configDefaults : List ConfigDefault :=
  [⟨"system.hostname", "llamaste", "System hostname"⟩,
    ⟨"system.timezone", "UTC", "System timezone"⟩,
    ⟨"model.path", "", "Override model path (empty = auto-select by RAM)"⟩,
    ⟨"model.context_size", "2048", "LLM context window size"⟩,
    ⟨"model.temperature", "0.7", "LLM sampling temperature"⟩,
    ⟨"model.max_tokens", "512", "Maximum tokens per response"⟩,
    ⟨"server.port", "8080", "HTTP server port"⟩,
    ⟨"server.host", "0.0.0.0", "HTTP server bind address"⟩,
    ⟨"ui.theme", "dark", "Web UI theme (dark/light)"⟩,
    ⟨"log.level", "info", "Logging level (debug/info/warn/error)"⟩,
    ⟨"privacy.retention_days", "90", "Conversation retention in days"⟩]

/-! ### `config.get` -/

/-- A setting that is read from its file. -/
def userReply (key value : Text) : Json :=
  .obj [("key".toList, .str key), ("source".toList, .str "user".toList),
    ("value".toList, .str value)]

/-- The document for a valid key. -/
def configGet (s : ConfigStore) (key : Text) : Json :=
  match s.read key with
  | some text => userReply key (firstLine text)
  | none =>
    match configDefaults.find? fun d => d.key = key with
    | some d =>
      .obj [("description".toList, .str d.description), ("key".toList, .str key),
        ("source".toList, .str "default".toList), ("value".toList, .str d.value)]
    | none =>
      .obj [("key".toList, .str key), ("source".toList, .str "not_found".toList),
        ("value".toList, .null)]

/-- `handle_config_get`. An exception is `none`. -/
def handleConfigGet (s : ConfigStore) (args : Text) : Option Text :=
  let refuse (message : Text) := (ToolRegistry.errorJson message).dump
  match Json.parse args with
  | none => refuse "invalid JSON arguments"
  | some j =>
    match j.value Json.getString "key" [] with
    | none => none
    | some key =>
      if key = [] then refuse "key is required"
      else if validateKey key = false then
        refuse "invalid key: only alphanumeric, dots, dashes, underscores allowed"
      else (configGet s key).dump

/-! ### `config.list` -/

/-- The entry of a default. -/
def defaultEntry (s : ConfigStore) (d : ConfigDefault) : Json :=
  let read := s.read d.key
  .obj [("default_value".toList, .str d.value), ("description".toList, .str d.description),
    ("key".toList, .str d.key),
    ("source".toList, .str (if read.isSome then "user".toList else "default".toList)),
    ("value".toList, .str ((read.map firstLine).getD d.value))]

/-- The entry of a name in the directory. -/
def userEntry (s : ConfigStore) (name : Text) : Option Json :=
  if name = "." ∨ name = ".." ∨ validateKey name = false ∨
    (configDefaults.any fun d => d.key = name) = true then none
  else (s.read name).map fun text => userReply name (firstLine text)

/-- The entries that are listed, in the order of `readdir`. -/
def configEntries (s : ConfigStore) (names : List Text) : List Json :=
  configDefaults.map (defaultEntry s) ++ (if s.isDir then names else []).filterMap (userEntry s)

def listReply (entries : List Json) : Json :=
  .obj [("config".toList, .arr entries), ("count".toList, .int entries.length)]

/-- `handle_config_list`. An exception is `none`. -/
def handleConfigList (s : ConfigStore) (names : List Text) : Option Text :=
  (listReply (configEntries s names)).dump

/-! ### Settings that are read back -/

/-- The key that the arguments of a request ask for. -/
def requestedKey (args : Text) : Option Text :=
  (Json.parse args).bind fun j => j.value Json.getString "key" []

/-- The value that is to be stored. -/
def requestedJson (args : Text) : Option Json := (Json.parse args).bind fun j => j.find "value"

/-- The text that is to be stored for it. -/
def requestedValue (args : Text) : Option Text := (requestedJson args).bind settingText

/-- What `config.set` makes of a store: its files change, and the directory may be made. -/
structure ConfigSet (ops : ConfigOps) (s : ConfigStore) (args : Text) (s' : ConfigStore) :
    Prop where
  files : s'.files = (handleConfigSet ops s.files args).1
  isDir : s.isDir = true → s'.isDir = true

/-- The reply says that the setting is saved. -/
def SaysSaved (reply : Option Text) : Prop :=
  ∃ text j, reply = some text ∧ Json.parse text = some j ∧ j.find "saved" = some (.bool true)

/-- A setting is read back: it is answered and listed with its value, and all others are answered as
they were. -/
structure ReadsBack (s s' : ConfigStore) (key value : Text) : Prop where
  got : ∀ args, requestedKey args = some key → ∃ text, handleConfigGet s' args = some text ∧
    Json.parse text = some (userReply key value)
  listed : ∀ names, s'.Lists names → ∃ entries text, handleConfigList s' names = some text ∧
    (listReply entries).dump = some text ∧ (∃ e ∈ entries, e.find "key" = some (.str key)) ∧
      ∀ e ∈ entries, e.find "key" = some (.str key) → e.find "value" = some (.str value)
  others : ∀ args other, requestedKey args = some other → other ≠ key →
    handleConfigGet s' args = handleConfigGet s args

/-- The value is no string of several lines and all of its text is written, the directory was there
before, and what is read of the other settings can be listed. -/
structure ConfigFits (ops : ConfigOps) (s : ConfigStore) (args key value : Text) : Prop where
  oneLine : ∀ text, requestedJson args = some (.str text) → '\n' ∉ text
  whole : value.length ≤ ops.written
  isDir : s.isDir = true
  others : ∀ name text, s.files name = some text → validateKey name = true → name ≠ key →
    Utf8.valid (firstLine text) = true

/-! ### What is written -/

theorem valid_of_validateKey {key : Text} (h : validateKey key = true) : Utf8.valid key = true := by
  rw [validateKey, Bool.and_eq_true, List.all_eq_true] at h
  refine Utf8.valid_of_ascii fun c hc => ?_
  have hchar := h.2 c hc
  simp only [Bool.or_eq_true, decide_eq_true_eq] at hchar
  rcases hchar with ((hchar | rfl) | rfl) | rfl
  · exact Text.ascii_of_isAlphanum hchar
  · decide
  · decide
  · decide

theorem wellFormed_userReply {key value : Text} (hkey : Utf8.valid key = true)
    (hvalue : Utf8.valid value = true) : Json.WellFormed (userReply key value) := by
  refine .obj_of_keys (l := ["key".toList, "source".toList, "value".toList]) rfl (by decide)
    (by decide) ?_
  simp only [List.map_cons, List.map_nil, List.forall_mem_cons]
  exact ⟨.str hkey, .str (by decide), .str hvalue, fun _ h => nomatch h⟩

/-- An error is no answer that a setting is saved. -/
theorem not_saysSaved_errorJson (message : Text) :
    ¬SaysSaved (ToolRegistry.errorJson message).dump := by
  rintro ⟨text, j, htext, hj, hsaved⟩
  have hvalid : (ToolRegistry.errorJson message).utf8 = true := by
    rw [← Json.isSome_dump, htext, Option.isSome_some]
  have hmessage : Utf8.valid message = true :=
    (@utf8_errorJson_iff [] rfl message).mp hvalid
  have hwell : Json.WellFormed (ToolRegistry.errorJson message) :=
    .obj_of_keys (l := ["error".toList]) rfl (by decide) (by decide) fun v hv => by
      obtain rfl := List.mem_singleton.mp hv
      exact .str hmessage
  obtain ⟨text', htext', hparse⟩ := exists_dump hwell
  obtain rfl := Option.some.inj (htext.symm.trans htext')
  obtain rfl := Option.some.inj (hj.symm.trans hparse)
  exact nomatch hsaved

/-- A setting that is saved has a valid key, and the value, or the start of it, is in its file. -/
theorem files_of_saysSaved {ops : ConfigOps} {files : ConfigFiles} {args key value : Text}
    (hkey : requestedKey args = some key) (hvalue : requestedValue args = some value)
    (hsaved : SaysSaved (handleConfigSet ops files args).2) :
    validateKey key = true ∧ Utf8.valid value = true ∧
      (handleConfigSet ops files args).1 =
        Function.update files key (some (value.take ops.written)) := by
  obtain ⟨j, hj, hkey⟩ := Option.bind_eq_some_iff.mp hkey
  obtain ⟨v, hv, hvalue⟩ := Option.bind_eq_some_iff.mp hvalue
  rw [requestedJson, hj, Option.bind_some] at hv
  rw [handleConfigSet] at hsaved ⊢
  simp only [hj, hkey, hv, hvalue] at hsaved ⊢
  by_cases hnil : key = []
  · rw [if_pos hnil] at hsaved
    dsimp only at hsaved
    exact (not_saysSaved_errorJson _ hsaved).elim
  rw [if_neg hnil] at hsaved ⊢
  cases hvalid : validateKey key with
  | false =>
      rw [hvalid, if_pos rfl] at hsaved
      dsimp only at hsaved
      exact (not_saysSaved_errorJson _ hsaved).elim
  | true =>
      rw [hvalid, if_neg Bool.noConfusion] at hsaved
      rw [if_neg Bool.noConfusion]
      by_cases hlong : value.length > 4096
      · rw [if_pos hlong] at hsaved
        dsimp only at hsaved
        exact (not_saysSaved_errorJson _ hsaved).elim
      rw [if_neg hlong] at hsaved ⊢
      cases hdir : ops.ensureConfigDir with
      | false =>
          rw [hdir, if_pos rfl] at hsaved
          dsimp only at hsaved
          exact (not_saysSaved_errorJson _ hsaved).elim
      | true =>
          rw [hdir, if_neg Bool.noConfusion] at hsaved
          rw [if_neg Bool.noConfusion]
          cases hopen : ops.openError with
          | some error =>
              rw [hopen] at hsaved
              dsimp only at hsaved
              exact (not_saysSaved_errorJson _ hsaved).elim
          | none =>
              rw [hopen] at hsaved
              dsimp only at hsaved
              obtain ⟨text, -, htext, -⟩ := hsaved
              have hutf8 : (savedReply key value).utf8 = true := by
                rw [← Json.isSome_dump, htext, Option.isSome_some]
              refine ⟨rfl, ?_, rfl⟩
              rw [savedReply, Json.utf8_obj, List.all_eq_true] at hutf8
              exact (Bool.and_eq_true_iff.mp (hutf8 ("value".toList, .str value) (by simp))).2

/-! ### What is read -/

theorem ConfigStore.ne_dot {s : ConfigStore} {name text : Text} (h : s.files name = some text) :
    ¬(name = "." ∨ name = "..") := by
  rintro (rfl | rfl)
  · exact nomatch h.symm.trans s.dot
  · exact nomatch h.symm.trans s.dotdot

theorem ConfigStore.read_of_files {s : ConfigStore} {name text : Text}
    (h : s.files name = some text) : s.read name = some text := by
  rw [read, if_neg (s.ne_dot h), h]

theorem ConfigStore.isDir_of_files {s : ConfigStore} {name text : Text}
    (h : s.files name = some text) : s.isDir = true := by
  cases hdir : s.isDir with
  | false => exact nomatch h.symm.trans (s.empty hdir name)
  | true => rfl

/-- What stands in a directory can be listed. -/
theorem ConfigStore.exists_lists (s : ConfigStore) : ∃ names, s.Lists names := by
  refine ⟨"." :: ".." :: s.finite.toFinset.toList, fun name => ?_⟩
  rw [List.mem_cons, List.mem_cons, Finset.mem_toList, Set.Finite.mem_toFinset]
  rfl

/-- The answer to a request depends on what is read of its setting only. -/
theorem handleConfigGet_congr {s s' : ConfigStore} {args key : Text}
    (hkey : requestedKey args = some key) (hread : s'.read key = s.read key) :
    handleConfigGet s' args = handleConfigGet s args := by
  obtain ⟨j, hj, hkey⟩ := Option.bind_eq_some_iff.mp hkey
  have hget : configGet s' key = configGet s key := by rw [configGet, configGet, hread]
  simp only [handleConfigGet, hj, hkey, hget]

theorem handleConfigGet_of_valid {s : ConfigStore} {args key : Text}
    (hkey : requestedKey args = some key) (hvalid : validateKey key = true) :
    handleConfigGet s args = (configGet s key).dump := by
  obtain ⟨j, hj, hkey⟩ := Option.bind_eq_some_iff.mp hkey
  have hne : key ≠ [] := by
    rintro rfl
    exact nomatch hvalid
  simp only [handleConfigGet, hj, hkey]
  rw [if_neg hne, if_neg (by rw [hvalid]; exact Bool.noConfusion)]

/-! ### What is listed -/

/-- The keys and texts of the defaults are such as can be stored and listed. -/
theorem configDefaults_valid : ∀ d ∈ configDefaults, validateKey d.key = true ∧
    Utf8.valid d.value = true ∧ Utf8.valid d.description = true := by
  decide +kernel

theorem configDefaults_plain : ∀ d ∈ configDefaults, ¬(d.key = "." ∨ d.key = "..") := by
  decide +kernel

theorem utf8_userReply_iff {key value : Text} (hkey : Utf8.valid key = true) :
    (userReply key value).utf8 = true ↔ Utf8.valid value = true := by
  have hkeys : ∀ key ∈ ["key".toList, "source".toList, "value".toList], Utf8.valid key = true := by
    decide
  have huser : Utf8.valid "user".toList = true := by decide
  rw [userReply]
  refine Iff.trans (Json.utf8_obj_iff hkeys) ?_
  simp only [List.map_cons, List.map_nil, List.forall_mem_cons, Json.utf8_str]
  exact ⟨fun h => h.2.2.1, fun h => ⟨hkey, huser, h, fun _ hmem => nomatch hmem⟩⟩

theorem utf8_defaultEntry_iff {s : ConfigStore} {d : ConfigDefault} (hd : d ∈ configDefaults) :
    (defaultEntry s d).utf8 = true ↔
      ∀ text, s.read d.key = some text → Utf8.valid (firstLine text) = true := by
  obtain ⟨hkey, hvalue, hdescription⟩ := configDefaults_valid d hd
  have hkeys : ∀ key ∈ ["default_value".toList, "description".toList, "key".toList,
      "source".toList, "value".toList], Utf8.valid key = true := by decide
  have hsource (b : Bool) :
      Utf8.valid (if b then "user".toList else "default".toList) = true := by
    cases b <;> decide
  rw [defaultEntry]
  refine Iff.trans (Json.utf8_obj_iff hkeys) ?_
  simp only [List.map_cons, List.map_nil, List.forall_mem_cons, Json.utf8_str]
  cases s.read d.key with
  | none =>
      exact ⟨fun _ _ h => (nomatch h), fun _ => ⟨hvalue, hdescription, valid_of_validateKey hkey,
        hsource false, hvalue, fun _ hmem => nomatch hmem⟩⟩
  | some text =>
      constructor
      · rintro ⟨-, -, -, -, h, -⟩ text' htext
        obtain rfl := Option.some.inj htext
        exact h
      · exact fun h => ⟨hvalue, hdescription, valid_of_validateKey hkey, hsource true, h text rfl,
          fun _ hmem => nomatch hmem⟩

theorem userEntry_eq_some_iff {s : ConfigStore} {name : Text} {e : Json} :
    userEntry s name = some e ↔ validateKey name = true ∧ (∀ d ∈ configDefaults, d.key ≠ name) ∧
      ∃ text, s.files name = some text ∧ userReply name (firstLine text) = e := by
  rw [userEntry]
  by_cases hskip : name = "." ∨ name = ".." ∨ validateKey name = false ∨
    (configDefaults.any fun d => d.key = name) = true
  · rw [if_pos hskip]
    refine iff_of_false nofun ?_
    rintro ⟨hvalid, hnot, text, htext, -⟩
    rcases hskip with h | h | h | h
    · exact s.ne_dot htext (.inl h)
    · exact s.ne_dot htext (.inr h)
    · exact nomatch hvalid.symm.trans h
    · obtain ⟨d, hd, hkey⟩ := List.any_eq_true.mp h
      exact hnot d hd (of_decide_eq_true hkey)
  · rw [if_neg hskip]
    simp only [not_or, Bool.not_eq_false, List.any_eq_true, decide_eq_true_eq, not_exists,
      not_and] at hskip
    obtain ⟨hdot, hdotdot, hvalid, hnot⟩ := hskip
    rw [ConfigStore.read, if_neg (not_or.mpr ⟨hdot, hdotdot⟩), Option.map_eq_some_iff]
    exact ⟨fun h => ⟨hvalid, hnot, h⟩, fun h => h.2.2⟩

/-- The entries are those of the defaults and of the other settings in the directory. -/
theorem mem_configEntries {s : ConfigStore} {names : List Text} (h : s.Lists names) {e : Json} :
    e ∈ configEntries s names ↔ (∃ d ∈ configDefaults, defaultEntry s d = e) ∨
      ∃ name, validateKey name = true ∧ (∀ d ∈ configDefaults, d.key ≠ name) ∧
        ∃ text, s.files name = some text ∧ userReply name (firstLine text) = e := by
  rw [configEntries, List.mem_append, List.mem_map, List.mem_filterMap]
  refine or_congr_right ?_
  simp only [userEntry_eq_some_iff]
  constructor
  · rintro ⟨name, -, hentry⟩
    exact ⟨name, hentry⟩
  · rintro ⟨name, hvalid, hnot, text, htext, rfl⟩
    refine ⟨name, ?_, hvalid, hnot, text, htext, rfl⟩
    rw [if_pos (s.isDir_of_files htext), h, htext]
    exact .inr (.inr rfl)

/-- The settings can be listed exactly when what is read of each of them is UTF-8. -/
theorem utf8_configEntries_iff {s : ConfigStore} {names : List Text} (h : s.Lists names) :
    (listReply (configEntries s names)).utf8 = true ↔ ∀ name text, s.files name = some text →
      validateKey name = true → Utf8.valid (firstLine text) = true := by
  have hkeys : ∀ key ∈ ["config".toList, "count".toList], Utf8.valid key = true := by decide
  have hentries : (listReply (configEntries s names)).utf8 = true ↔
      ∀ e ∈ configEntries s names, e.utf8 = true := by
    rw [listReply]
    refine Iff.trans (Json.utf8_obj_iff hkeys) ?_
    simp only [List.map_cons, List.map_nil, List.forall_mem_cons, Json.utf8_arr, List.all_eq_true]
    exact ⟨fun h => h.1, fun h => ⟨h, rfl, fun _ hmem => nomatch hmem⟩⟩
  rw [hentries]
  constructor
  · intro hall name text htext hvalid
    by_cases hdefault : ∃ d ∈ configDefaults, d.key = name
    · obtain ⟨d, hd, rfl⟩ := hdefault
      exact (utf8_defaultEntry_iff hd).mp
        (hall _ ((mem_configEntries h).mpr (.inl ⟨d, hd, rfl⟩))) text (s.read_of_files htext)
    · exact (utf8_userReply_iff (valid_of_validateKey hvalid)).mp
        (hall _ ((mem_configEntries h).mpr (.inr ⟨name, hvalid,
          fun d hd hkey => hdefault ⟨d, hd, hkey⟩, text, htext, rfl⟩)))
  · intro hall e he
    rcases (mem_configEntries h).mp he with ⟨d, hd, rfl⟩ | ⟨name, hvalid, -, text, htext, rfl⟩
    · refine (utf8_defaultEntry_iff hd).mpr fun text htext => ?_
      have hplain : ¬(d.key = "." ∨ d.key = "..") := configDefaults_plain d hd
      rw [ConfigStore.read, if_neg hplain] at htext
      exact hall d.key text htext (configDefaults_valid d hd).1
    · exact (utf8_userReply_iff (valid_of_validateKey hvalid)).mpr (hall name text htext hvalid)

/-! ### A setting that is saved -/

/-- Only a string can be stored in several lines. -/
theorem newline_notMem_iff {args value : Text} (h : requestedValue args = some value) :
    '\n' ∉ value ↔ ∀ text, requestedJson args = some (.str text) → '\n' ∉ text := by
  obtain ⟨v, hv, hvalue⟩ := Option.bind_eq_some_iff.mp h
  rw [hv]
  cases v with
  | str s =>
      obtain rfl := Option.some.inj hvalue
      constructor
      · intro hline text htext
        obtain rfl := Json.str.inj (Option.some.inj htext)
        exact hline
      · exact fun hline => hline s rfl
  | _ =>
      refine iff_of_true ?_ (by rintro text ⟨⟩)
      change Json.dump _ = _ at hvalue
      rw [Json.dump] at hvalue
      split_ifs at hvalue
      obtain rfl := Option.some.inj hvalue
      exact Json.newline_notMem_dumpAt 0 _

theorem firstLine_take_eq_iff {value : Text} {n : ℕ} :
    firstLine (value.take n) = value ↔ '\n' ∉ value ∧ value.length ≤ n := by
  constructor
  · intro h
    have hle : value.length ≤ (value.take n).length := by
      conv_lhs => rw [← h]
      exact (List.takeWhile_prefix _).length_le
    have htake : value.take n = value := by
      rw [List.length_take] at hle
      exact List.take_of_length_le (by omega)
    rw [htake] at h
    refine ⟨fun hmem => ?_, by rw [← htake]; exact List.length_take_le n value⟩
    exact of_decide_eq_true (List.takeWhile_eq_self_iff.mp h '\n' hmem) rfl
  · rintro ⟨hline, hlen⟩
    rw [List.take_of_length_le hlen]
    exact List.takeWhile_eq_self_iff.mpr fun c hc => decide_eq_true fun hnl => hline (hnl ▸ hc)

section

variable {ops : ConfigOps} {s s' : ConfigStore} {args key value : Text}

/-- What the store is after a setting was saved. -/
structure Saved (ops : ConfigOps) (s s' : ConfigStore) (key value : Text) : Prop where
  validKey : validateKey key = true
  validValue : Utf8.valid value = true
  plain : ¬(key = "." ∨ key = "..")
  files : s'.files = Function.update s.files key (some (value.take ops.written))
  isDir : s'.isDir = true

theorem saved_of_saysSaved (hset : ConfigSet ops s args s') (hkey : requestedKey args = some key)
    (hvalue : requestedValue args = some value)
    (hsaved : SaysSaved (handleConfigSet ops s.files args).2) : Saved ops s s' key value := by
  obtain ⟨hvalidKey, hvalidValue, hfiles⟩ := files_of_saysSaved hkey hvalue hsaved
  rw [← hset.files] at hfiles
  have hfile : s'.files key = some (value.take ops.written) := by
    rw [hfiles, Function.update_self]
  exact ⟨hvalidKey, hvalidValue, s'.ne_dot hfile, hfiles, s'.isDir_of_files hfile⟩

namespace Saved

theorem read_self (h : Saved ops s s' key value) :
    s'.read key = some (value.take ops.written) := by
  rw [ConfigStore.read, if_neg h.plain, h.files, Function.update_self]

/-- What is read at other names is as it was, unless the directory was made. -/
theorem read_other (h : Saved ops s s' key value) (hdir : s.isDir = true) {other : Text}
    (hne : other ≠ key) : s'.read other = s.read other := by
  rw [ConfigStore.read, ConfigStore.read, h.isDir, hdir, h.files, Function.update_of_ne hne]

theorem got_iff (h : Saved ops s s' key value) (hkey : requestedKey args = some key) :
    (∃ text, handleConfigGet s' args = some text ∧
      Json.parse text = some (userReply key value)) ↔
        '\n' ∉ value ∧ value.length ≤ ops.written := by
  have hget : configGet s' key = userReply key (firstLine (value.take ops.written)) := by
    rw [configGet, h.read_self]
  rw [handleConfigGet_of_valid hkey h.validKey, hget, ← firstLine_take_eq_iff]
  have hvalidKey := valid_of_validateKey h.validKey
  constructor
  · rintro ⟨text, hdump, hparse⟩
    have hvalid : Utf8.valid (firstLine (value.take ops.written)) = true := by
      rw [← utf8_userReply_iff hvalidKey, ← Json.isSome_dump, hdump, Option.isSome_some]
    obtain ⟨text', hdump', hparse'⟩ := exists_dump (wellFormed_userReply hvalidKey hvalid)
    obtain rfl := Option.some.inj (hdump.symm.trans hdump')
    have hreply := congrArg (fun j => j.find "value") (Option.some.inj (hparse'.symm.trans hparse))
    exact Json.str.inj (Option.some.inj hreply)
  · intro hline
    rw [hline]
    exact exists_dump (wellFormed_userReply hvalidKey h.validValue)

/-- What is listed under the key is the first line of what was written. -/
theorem find_value_of_mem (h : Saved ops s s' key value) {names : List Text}
    (hnames : s'.Lists names) {e : Json} (he : e ∈ configEntries s' names)
    (hkey : e.find "key" = some (.str key)) :
    e.find "value" = some (.str (firstLine (value.take ops.written))) := by
  rcases (mem_configEntries hnames).mp he with ⟨d, -, rfl⟩ | ⟨name, -, -, text, htext, rfl⟩
  · have hd : d.key = key := Json.str.inj (Option.some.inj hkey)
    change some (Json.str (((s'.read d.key).map firstLine).getD d.value)) = _
    rw [hd, h.read_self]
    rfl
  · have hname : name = key := Json.str.inj (Option.some.inj hkey)
    subst hname
    have hread := (s'.read_of_files htext).symm.trans h.read_self
    obtain rfl := Option.some.inj hread
    rfl

theorem exists_mem (h : Saved ops s s' key value) {names : List Text} (hnames : s'.Lists names) :
    ∃ e ∈ configEntries s' names, e.find "key" = some (.str key) := by
  by_cases hdefault : ∃ d ∈ configDefaults, d.key = key
  · obtain ⟨d, hd, rfl⟩ := hdefault
    exact ⟨defaultEntry s' d, (mem_configEntries hnames).mpr (.inl ⟨d, hd, rfl⟩), rfl⟩
  · refine ⟨userReply key (firstLine (value.take ops.written)),
      (mem_configEntries hnames).mpr (.inr ⟨key, h.validKey, fun d hd hkey =>
        hdefault ⟨d, hd, hkey⟩, value.take ops.written, ?_, rfl⟩), rfl⟩
    rw [h.files, Function.update_self]

/-- If the value is read back, the settings can be listed exactly when the others can. -/
theorem utf8_listReply_iff (h : Saved ops s s' key value)
    (hline : firstLine (value.take ops.written) = value) {names : List Text}
    (hnames : s'.Lists names) : (listReply (configEntries s' names)).utf8 = true ↔
      ∀ name text, s.files name = some text → validateKey name = true → name ≠ key →
        Utf8.valid (firstLine text) = true := by
  rw [utf8_configEntries_iff hnames, h.files]
  refine forall₂_congr fun name text => ?_
  by_cases hname : name = key
  · subst hname
    rw [Function.update_self]
    refine iff_of_true (fun htext _ => ?_) fun _ _ hne => absurd rfl hne
    obtain rfl := Option.some.inj htext
    rw [hline]
    exact h.validValue
  · rw [Function.update_of_ne hname]
    exact ⟨fun hvalid htext hkey _ => hvalid htext hkey,
      fun hvalid htext hkey => hvalid htext hkey hname⟩

/-- A directory that is made for the setting is read as one of the other settings. -/
theorem isDir_of_others (h : Saved ops s s' key value)
    (hothers : ∀ args other, requestedKey args = some other → other ≠ key →
      handleConfigGet s' args = handleConfigGet s args) : s.isDir = true := by
  let args : Text := "\x7b\"key\":\".\"\x7d"
  have hkey : requestedKey args = some "." := by decide +kernel
  have hvalid : validateKey "." = true := by decide
  have heq := hothers args "." hkey fun hdot => h.plain (.inl hdot.symm)
  rw [handleConfigGet_of_valid hkey hvalid, handleConfigGet_of_valid hkey hvalid] at heq
  cases hdir : s.isDir with
  | true => rfl
  | false =>
      have hread : s.read "." = none := by
        rw [ConfigStore.read, if_pos (.inl rfl), hdir]
        rfl
      have hread' : s'.read "." = some [] := by
        rw [ConfigStore.read, if_pos (.inl rfl), h.isDir]
        rfl
      simp only [configGet, hread, hread'] at heq
      exact absurd heq (by decide +kernel)

end Saved

end

/-- **A setting that is saved is read back** exactly when it is one line that is written in full,
into a directory that was there, beside settings that can be listed. -/
theorem readsBack_iff {ops : ConfigOps} {s s' : ConfigStore} {args key value : Text}
    (hset : ConfigSet ops s args s') (hkey : requestedKey args = some key)
    (hvalue : requestedValue args = some value)
    (hsaved : SaysSaved (handleConfigSet ops s.files args).2) :
    ReadsBack s s' key value ↔ ConfigFits ops s args key value := by
  have h := saved_of_saysSaved hset hkey hvalue hsaved
  constructor
  · intro hback
    obtain ⟨hone, hwhole⟩ := (h.got_iff hkey).mp (hback.got args hkey)
    refine ⟨(newline_notMem_iff hvalue).mp hone, hwhole, h.isDir_of_others hback.others, ?_⟩
    obtain ⟨names, hnames⟩ := s'.exists_lists
    obtain ⟨entries, text, htext, -⟩ := hback.listed names hnames
    refine (h.utf8_listReply_iff (firstLine_take_eq_iff.mpr ⟨hone, hwhole⟩) hnames).mp ?_
    rw [← Json.isSome_dump]
    exact Option.isSome_iff_exists.mpr ⟨text, htext⟩
  · intro hfits
    have hone := (newline_notMem_iff hvalue).mpr hfits.oneLine
    have hline := firstLine_take_eq_iff.mpr ⟨hone, hfits.whole⟩
    refine ⟨fun args' hkey' => (h.got_iff hkey').mpr ⟨hone, hfits.whole⟩,
      fun names hnames => ?_, fun args' other hother hne =>
        handleConfigGet_congr hother (h.read_other hfits.isDir hne)⟩
    have hutf8 := (h.utf8_listReply_iff hline hnames).mpr hfits.others
    rw [← Json.isSome_dump] at hutf8
    obtain ⟨text, htext⟩ := Option.isSome_iff_exists.mp hutf8
    refine ⟨configEntries s' names, text, htext, htext, h.exists_mem hnames, fun e he hekey => ?_⟩
    rw [h.find_value_of_mem hnames he hekey, hline]

/-- A store in which one file is written. -/
def ConfigStore.write (s : ConfigStore) (name text : Text) (h : ¬(name = "." ∨ name = "..")) :
    ConfigStore where
  isDir := true
  files := Function.update s.files name (some text)
  finite := by
    refine (s.finite.insert name).subset fun other hother => ?_
    rw [Set.mem_insert_iff, or_iff_not_imp_left]
    intro hne
    rwa [Set.mem_ofPred_eq, Function.update_of_ne hne] at hother
  empty := nofun
  dot := by rw [Function.update_of_ne fun heq => h (.inl heq.symm), s.dot]
  dotdot := by rw [Function.update_of_ne fun heq => h (.inr heq.symm), s.dotdot]

/-- The directory without a setting in it. -/
def emptyStore : ConfigStore where
  isDir := true
  files _ := none
  finite := Set.finite_empty.subset fun _ h => absurd h Bool.false_ne_true
  empty _ _ := rfl
  dot := rfl
  dotdot := rfl

theorem saysSaved_savedReply {key value : Text} (hkey : Utf8.valid key = true)
    (hvalue : Utf8.valid value = true) : SaysSaved (savedReply key value).dump := by
  have hwell : Json.WellFormed (savedReply key value) := by
    refine .obj_of_keys (l := ["key".toList, "saved".toList, "value".toList]) rfl (by decide)
      (by decide) ?_
    simp only [List.map_cons, List.map_nil, List.forall_mem_cons]
    exact ⟨.str hkey, .bool true, .str hvalue, fun _ h => nomatch h⟩
  obtain ⟨text, htext, hparse⟩ := exists_dump hwell
  exact ⟨text, _, htext, hparse, rfl⟩

/-- A theme is read back. -/
theorem readsBack_theme : ReadsBack emptyStore
    (emptyStore.write "ui.theme" "light" (by decide)) "ui.theme" "light" := by
  let ops : ConfigOps := ⟨true, none, 4096⟩
  let args : Text := "\x7b\"key\":\"ui.theme\",\"value\":\"light\"\x7d"
  have hreply : (handleConfigSet ops emptyStore.files args).2 =
      (savedReply "ui.theme" "light").dump := by decide +kernel
  have hkey : requestedKey args = some "ui.theme" := by decide +kernel
  have hvalue : requestedValue args = some "light" := by decide +kernel
  have hsaved : SaysSaved (handleConfigSet ops emptyStore.files args).2 := by
    rw [hreply]
    exact saysSaved_savedReply (by decide) (by decide)
  have hset : ConfigSet ops emptyStore args
      (emptyStore.write "ui.theme" "light" (by decide)) :=
    ⟨(files_of_saysSaved hkey hvalue hsaved).2.2.symm, fun _ => rfl⟩
  exact (readsBack_iff hset hkey hvalue hsaved).mpr
    ⟨(newline_notMem_iff hvalue).mp (by decide), by decide, rfl, fun _ _ h => nomatch h⟩

/-- A value of two lines is saved, and its first line is read back. -/
theorem not_readsBack : ¬∀ (ops : ConfigOps) (s s' : ConfigStore) (args key value : Text),
    ConfigSet ops s args s' → requestedKey args = some key → requestedValue args = some value →
      SaysSaved (handleConfigSet ops s.files args).2 → ReadsBack s s' key value := fun h => by
  let ops : ConfigOps := ⟨true, none, 4096⟩
  let args : Text := "\x7b\"key\":\"ui.theme\",\"value\":\"dark\\nblue\"\x7d"
  have hreply : (handleConfigSet ops emptyStore.files args).2 =
      (savedReply "ui.theme" "dark\nblue").dump := by decide +kernel
  have hkey : requestedKey args = some "ui.theme" := by decide +kernel
  have hvalue : requestedValue args = some "dark\nblue" := by decide +kernel
  have hsaved : SaysSaved (handleConfigSet ops emptyStore.files args).2 := by
    rw [hreply]
    exact saysSaved_savedReply (by decide) (by decide)
  have hset : ConfigSet ops emptyStore args
      (emptyStore.write "ui.theme" "dark\nblue" (by decide)) :=
    ⟨(files_of_saysSaved hkey hvalue hsaved).2.2.symm, fun _ => rfl⟩
  have hback := h ops emptyStore _ args _ _ hset hkey hvalue hsaved
  obtain ⟨text, htext, hparse⟩ := hback.got args hkey
  have hread : (handleConfigGet (emptyStore.write "ui.theme" "dark\nblue" (by decide)) args) =
      (userReply "ui.theme" "dark").dump := by decide +kernel
  have hwell : Json.WellFormed (userReply "ui.theme" "dark") :=
    wellFormed_userReply (by decide) (by decide)
  obtain ⟨text', htext', hparse'⟩ := exists_dump hwell
  obtain rfl := Option.some.inj (htext'.symm.trans (hread.symm.trans htext))
  have hvalues := congrArg (fun j => j.find "value") (Option.some.inj (hparse'.symm.trans hparse))
  exact absurd (Json.str.inj (Option.some.inj hvalues)) (by decide)

end Llamaste
