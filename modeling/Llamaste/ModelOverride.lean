import Llamaste.Agent
import Llamaste.Lib.JsonWellFormed

/-!
# The model override

A request selects the model of the next boot. Its path goes through the store of settings, one
file a key, and is read back at boot by a reader with a buffer of its own.

Source: `child_main.cpp` (`POST /llamaste/model/select`), `tools_config.cpp`
(`handle_config_set`), `main.cpp` (`read_config`, `select_model`).

## Main results

* `selectionBooted_iff`: a model that is selected is booted, exactly when the store succeeds and
  the path, if it can be that of a file, fits the buffer and does not end in a blank.
-/

namespace Llamaste

/-! ### The store of settings -/

/-- The files of the settings, by key. -/
abbrev ConfigFiles := Text → Option Text

/-- How the file operations of `config.set` end: whether the directory is there, the error of
the open, and how many bytes reach the file. -/
structure ConfigOps where
  ensureConfigDir : Bool
  openError : Option Text
  written : ℕ

/-- `validate_key`. -/
def validateKey (key : Text) : Bool :=
  !key.isEmpty && decide (key.length ≤ 128) &&
    key.all fun c => c.isAlphanum || c = '.' || c = '-' || c = '_'

/-- The text that is stored for a value. -/
def settingText : Json → Option Text
  | .str s => some s
  | j => j.dump

/-- The reply to a setting that is saved. -/
def savedReply (key value : Text) : Json :=
  .obj [("key".toList, .str key), ("saved".toList, .bool true), ("value".toList, .str value)]

/-- `handle_config_set`: the files that it leaves, and its reply. An exception is `none`. -/
def handleConfigSet (ops : ConfigOps) (files : ConfigFiles) (args : Text) :
    ConfigFiles × Option Text :=
  let refuse (message : Text) := (files, (ToolRegistry.errorJson message).dump)
  match Json.parse args with
  | none => refuse "invalid JSON arguments"
  | some j =>
    match j.value Json.getString "key" [] with
    | none => (files, none)
    | some key =>
      if key = [] then refuse "key is required"
      else if validateKey key = false then
        refuse "invalid key: only alphanumeric, dots, dashes, underscores allowed"
      else
        match j.find "value" with
        | none => refuse "value is required"
        | some v =>
          match settingText v with
          | none => (files, none)
          | some value =>
            if value.length > 4096 then refuse "value too long (max 4096 bytes)"
            else if ops.ensureConfigDir = false then refuse "cannot create config directory"
            else
              match ops.openError with
              | some error =>
                refuse ("cannot write config: ".toList ++ key ++ " (".toList ++ error ++ [')'])
              | none =>
                -- the result of the write is not checked
                (Function.update files key (some (value.take ops.written)),
                  (savedReply key value).dump)

/-- All of the value reaches the file. -/
structure ConfigOps.Stores (ops : ConfigOps) (value : Text) : Prop where
  short : value.length ≤ 4096
  dir : ops.ensureConfigDir = true
  opened : ops.openError = none
  whole : value.length ≤ ops.written

/-! ### The request -/

/-- Where the models are. -/
def modelsDir : Text := "/data/models/"

/-- The arguments of the call of `config.set`. -/
def setModelPath (path : Text) : Json :=
  .obj [("key".toList, .str "model.path".toList), ("value".toList, .str path)]

/-- The message to a path that is selected. -/
def selectedMessage (path : Text) : Text :=
  if path = [] then "Model override cleared. Auto-select will be used on next boot."
  else "Model selected. Reboot to load: ".toList ++ path

/-- The reply to a path that is selected. -/
def selectedReply (path : Text) : Json :=
  .obj [("message".toList, .str (selectedMessage path)), ("model_path".toList, .str path),
    ("status".toList, .str "ok".toList)]

/-- `POST /llamaste/model/select`: the files that it leaves, and the status and text of its reply.
An exception is `none`. -/
def postModelSelect (ops : ConfigOps) (files : ConfigFiles) (body : Text) :
    ConfigFiles × Option (ℕ × Text) :=
  let needsPath : Text := "\x7b\"error\":\"JSON body with 'path' required\"\x7d"
  let notUnder : Text := "\x7b\"error\":\"Model path must be under /data/models/\"\x7d"
  match Json.parse body with
  | none => (files, some (400, needsPath))
  | some j =>
    if j.contains "path" = false then (files, some (400, needsPath))
    else
      match j.value Json.getString "path" [] with
      | none => (files, none)
      | some path =>
        if path ≠ [] ∧ modelsDir.isPrefixOf path = false then (files, some (400, notUnder))
        else
          match (setModelPath path).dump with
          | none => (files, none)
          | some args =>
            -- the reply of `config.set` is dropped
            ((handleConfigSet ops files args).1,
              (selectedReply path).dump.map fun text => (200, text))

/-- The path that a request selects. -/
def selectedPath (body : Text) : Option Text :=
  match (Json.parse body).bind (·.find "path") with
  | some (.str path) => if path = [] ∨ modelsDir.isPrefixOf path then some path else none
  | _ => none

/-! ### The boot -/

/-- `ModelCandidate`. -/
structure ModelCandidate where
  name : Text
  filename : Text
  requiredMb : ℤ

/-- `MODELS`. -/
def bootModels : List ModelCandidate :=
  [⟨"Qwen2.5-32B-Instruct", "qwen2.5-32b-instruct-q4_k_m-00001-of-00005.gguf", 22000⟩,
    ⟨"Qwen2.5-14B-Instruct", "qwen2.5-14b-instruct-q4_k_m-00001-of-00003.gguf", 11000⟩,
    ⟨"Qwen2.5-7B-Instruct", "qwen2.5-7b-instruct-q4_k_m-00001-of-00002.gguf", 6500⟩,
    ⟨"Qwen2.5-3B-Instruct", "qwen2.5-3b-instruct-q4_k_m.gguf", 4000⟩,
    ⟨"Qwen2.5-1.5B-Instruct", "qwen2.5-1.5b-instruct-q4_k_m.gguf", 2500⟩,
    ⟨"Qwen2.5-0.5B-Instruct", "qwen2.5-0.5b-instruct-q4_k_m.gguf", 1500⟩]

/-- The file of a candidate. -/
def ModelCandidate.path (m : ModelCandidate) : Text := modelsDir ++ m.filename

/-- A text can be the path of a file: it has no zero byte, and it and its components are not too
long for the kernel. -/
def IsPath (path : Text) : Prop :=
  Char.ofNat 0 ∉ path ∧ path.length ≤ 4095 ∧ ∀ name ∈ path.splitOn '/', name.length ≤ 255

instance (path : Text) : Decidable (IsPath path) := inferInstanceAs (Decidable (_ ∧ _ ∧ _))

/-- The files that can be read at a boot. -/
structure BootFiles where
  readable : Text → Bool
  isPath : ∀ path, readable path = true → IsPath path

/-- What the reader cuts at the end. -/
def isTrailing (c : Char) : Bool := c = '\n' || c = '\r' || c = ' '

/-- `read_config`: what the reader finds in a file. -/
def readConfig : Option Text → Text
  | none => []
  | some content => (content.take 511).rdropWhile isTrailing

/-- `select_model`. -/
def selectModel (availableMb : ℤ) (boot : BootFiles) (files : ConfigFiles) : Text :=
  let auto := match bootModels.find? fun m =>
      decide (m.requiredMb ≤ availableMb) && boot.readable m.path with
    | some m => m.path
    | none => []
  let override := readConfig (files "model.path")
  if override ≠ [] ∧ boot.readable (Text.cStr override) then override else auto

/-! ### What is stored -/

/-- A written value is read back. -/
theorem exists_dump {j : Json} (hj : Json.WellFormed j) :
    ∃ text, j.dump = some text ∧ Json.parse text = some j := by
  refine ⟨Json.dumpAt .compact 0 j, ?_, ?_⟩
  · rw [Json.dump, if_pos hj.utf8]
  · have h := Json.parse_dumpAt (L := .compact) 0 hj (u := []) rfl
    rwa [List.append_nil] at h

theorem wellFormed_setModelPath {path : Text} (h : Utf8.valid path = true) :
    Json.WellFormed (setModelPath path) := by
  refine .obj_of_keys (l := ["key".toList, "value".toList]) rfl (by decide) (by decide) ?_
  simp only [List.map_cons, List.map_nil, List.forall_mem_cons]
  exact ⟨.str (by decide), .str h, fun _ hv => nomatch hv⟩

theorem valid_selectedMessage {path : Text} (h : Utf8.valid path = true) :
    Utf8.valid (selectedMessage path) = true := by
  rw [selectedMessage]
  split_ifs
  · decide +kernel
  · exact Utf8.valid_append (by decide +kernel) h

theorem wellFormed_selectedReply {path : Text} (h : Utf8.valid path = true) :
    Json.WellFormed (selectedReply path) := by
  refine .obj_of_keys (l := ["message".toList, "model_path".toList, "status".toList]) rfl
    (by decide) (by decide) ?_
  simp only [List.map_cons, List.map_nil, List.forall_mem_cons]
  exact ⟨.str (valid_selectedMessage h), .str h, .str (by decide), fun _ hv => nomatch hv⟩

/-- The setting of the model is written if the value is short enough and the file is opened. -/
theorem handleConfigSet_modelPath {ops : ConfigOps} {files : ConfigFiles} {args path : Text}
    (hargs : Json.parse args = some (setModelPath path)) :
    (handleConfigSet ops files args).1 =
      if path.length ≤ 4096 ∧ ops.ensureConfigDir = true ∧ ops.openError = none then
        Function.update files "model.path".toList (some (path.take ops.written))
      else files := by
  have hkey : (setModelPath path).value Json.getString "key" [] = some "model.path".toList := rfl
  have hvalue : (setModelPath path).find "value" = some (.str path) := rfl
  have hvalid : validateKey "model.path" = true := by decide
  have hne : "model.path".toList ≠ [] := by decide
  rw [handleConfigSet, hargs]
  simp only [hkey, hvalue, settingText]
  rw [if_neg hne, if_neg (by rw [hvalid]; exact Bool.noConfusion)]
  by_cases hlen : path.length ≤ 4096
  · rw [if_neg (Nat.not_lt.mpr hlen)]
    cases hdir : ops.ensureConfigDir with
    | false => rw [if_pos rfl, if_neg fun h => nomatch h.2.1]
    | true =>
      rw [if_neg Bool.noConfusion]
      cases hopen : ops.openError with
      | none => rw [if_pos ⟨hlen, rfl, rfl⟩]
      | some error => rw [if_neg fun h => nomatch h.2.2]
  · rw [if_pos (Nat.lt_of_not_le hlen), if_neg fun h => hlen h.1]

/-! ### What is answered -/

/-- The reply says that a path is selected. -/
def AnswersOk (reply : Option (ℕ × Text)) (path : Text) : Prop :=
  ∃ text j, reply = some (200, text) ∧ Json.parse text = some j ∧
    j.find "status" = some (.str "ok") ∧ j.find "model_path" = some (.str path)

/-- A path that is selected is passed to `config.set`, and the reply is ok. -/
theorem postModelSelect_of_selected {body path : Text} (h : selectedPath body = some path)
    (ops : ConfigOps) (files : ConfigFiles) :
    ∃ args text, Json.parse args = some (setModelPath path) ∧
      Json.parse text = some (selectedReply path) ∧
      postModelSelect ops files body = ((handleConfigSet ops files args).1, some (200, text)) := by
  rw [selectedPath] at h
  cases hj : Json.parse body with
  | none =>
    rw [hj] at h
    exact nomatch h
  | some j =>
    rw [hj, Option.bind_some] at h
    split at h
    · rename_i found hfound
      split_ifs at h with hunder
      obtain rfl := Option.some.inj h
      have hvalid := ((Json.wellFormed_of_parse hj).find hfound).valid_getString rfl
      obtain ⟨args, hargs, hparse⟩ := exists_dump (wellFormed_setModelPath hvalid)
      obtain ⟨text, htext, hparse'⟩ := exists_dump (wellFormed_selectedReply hvalid)
      have hcontains : j.contains "path" = true := by rw [Json.contains, hfound, Option.isSome_some]
      have hvalue : j.value Json.getString "path" [] = some found := Json.value_of_find hfound
      have hnot : ¬ (found ≠ [] ∧ modelsDir.isPrefixOf found = false) := by
        rintro ⟨hne, hout⟩
        rcases hunder with hnil | hunder
        · exact hne hnil
        · exact Bool.noConfusion (hunder.symm.trans hout)
      refine ⟨args, text, hparse, hparse', ?_⟩
      rw [postModelSelect, hj]
      simp only [hcontains, hvalue, hargs, htext, Option.map_some]
      rw [if_neg Bool.noConfusion, if_neg hnot]
    · exact nomatch h

/-- Any other request is refused. -/
theorem postModelSelect_of_not_selected {body : Text} (h : selectedPath body = none)
    (ops : ConfigOps) (files : ConfigFiles) :
    (postModelSelect ops files body).1 = files ∧
      ∀ text, (postModelSelect ops files body).2 ≠ some (200, text) := by
  have hrefused (text text' : Text) : some (400, text) ≠ some (200, text') := fun h =>
    absurd (Prod.mk.inj (Option.some.inj h)).1 (by decide)
  rw [selectedPath] at h
  rw [postModelSelect]
  cases hj : Json.parse body with
  | none => exact ⟨rfl, hrefused _⟩
  | some j =>
    rw [hj, Option.bind_some] at h
    cases hfound : j.find "path" with
    | none =>
      have hcontains : j.contains "path" = false := by
        rw [Json.contains, hfound, Option.isSome_none]
      simp only [hcontains, if_true]
      exact ⟨trivial, hrefused _⟩
    | some v =>
      have hcontains : j.contains "path" = true := by rw [Json.contains, hfound, Option.isSome_some]
      have hvalue : j.value Json.getString "path" [] = v.getString := Json.value_of_find hfound
      simp only [hcontains, hvalue]
      rw [if_neg Bool.noConfusion]
      cases v with
      | str path =>
        rw [hfound] at h
        have hnot : ¬ (path = [] ∨ modelsDir.isPrefixOf path = true) := fun hok =>
          nomatch (if_pos hok).symm.trans h
        simp only [Json.getString]
        rw [if_pos ⟨fun hnil => hnot (.inl hnil), Bool.eq_false_iff.mpr fun hp => hnot (.inr hp)⟩]
        exact ⟨rfl, hrefused _⟩
      | _ => exact ⟨rfl, fun text => nofun⟩

theorem answersOk_iff {ops : ConfigOps} {files : ConfigFiles} {body path : Text} :
    AnswersOk (postModelSelect ops files body).2 path ↔ selectedPath body = some path := by
  constructor
  · rintro ⟨text, j, hreply, hj, -, hpath⟩
    cases hselected : selectedPath body with
    | none => exact absurd hreply ((postModelSelect_of_not_selected hselected ops files).2 text)
    | some selected =>
      obtain ⟨args, text', -, htext', hpost⟩ := postModelSelect_of_selected hselected ops files
      rw [hpost] at hreply
      obtain ⟨-, rfl⟩ := Prod.mk.inj (Option.some.inj hreply)
      obtain rfl := Option.some.inj (hj.symm.trans htext')
      have hfound : (selectedReply selected).find "model_path" = some (.str selected) := rfl
      exact congrArg some (Json.str.inj (Option.some.inj (hfound.symm.trans hpath)))
  · intro h
    obtain ⟨args, text, -, htext, hpost⟩ := postModelSelect_of_selected h ops files
    exact ⟨text, _, by rw [hpost], htext, rfl, rfl⟩

/-! ### What is booted -/

/-- The reader finds a text whole exactly when it fits the buffer and does not end in a blank. -/
theorem readConfig_eq_self_iff (path : Text) : readConfig (some path) = path ↔
    path.length ≤ 511 ∧ ∀ c ∈ path.getLast?, isTrailing c = false := by
  constructor
  · intro h
    have hle := (List.rdropWhile_prefix isTrailing (path.take 511)).length_le
    have hlen : path.length ≤ 511 := by
      have hread : ((path.take 511).rdropWhile isTrailing).length = path.length :=
        congrArg List.length h
      rw [List.length_take] at hle
      omega
    refine ⟨hlen, fun c hc => ?_⟩
    rw [readConfig, List.take_of_length_le hlen, List.rdropWhile_eq_self_iff] at h
    obtain ⟨hne, rfl⟩ := List.mem_getLast?_eq_getLast hc
    exact Bool.eq_false_iff.mpr (h hne)
  · rintro ⟨hlen, hlast⟩
    rw [readConfig, List.take_of_length_le hlen, List.rdropWhile_eq_self_iff]
    intro hne
    exact Bool.eq_false_iff.mp (hlast _ (List.getLast?_eq_some_getLast hne))

/-- The candidates of the automatic choice can be set as an override. -/
theorem readConfig_bootModels : ∀ m ∈ bootModels, readConfig (some m.path) = m.path := by
  decide +kernel

theorem selectModel_of_readConfig_nil {files : ConfigFiles}
    (h : readConfig (files "model.path") = []) (availableMb : ℤ) (boot : BootFiles) :
    selectModel availableMb boot files =
      selectModel availableMb boot (Function.update files "model.path".toList none) := by
  have hnone : readConfig (Function.update files "model.path".toList none "model.path") = [] := by
    rw [Function.update_self]
    rfl
  rw [selectModel, selectModel, h, hnone]

/-- A path that the reader finds whole is booted if it can be read. -/
theorem selectModel_of_readConfig_eq {files : ConfigFiles} {path : Text}
    (h : readConfig (files "model.path") = path) (hne : path ≠ []) (availableMb : ℤ)
    {boot : BootFiles} (hreadable : boot.readable path = true) :
    selectModel availableMb boot files = path := by
  have hcStr : Text.cStr path = path := Text.cStr_eq_self (boot.isPath path hreadable).1
  rw [selectModel, h]
  exact if_pos ⟨hne, by rw [hcStr]; exact hreadable⟩

/-- A path that the reader does not find whole is not booted, even if it is all that can be
read. -/
theorem selectModel_ne_of_readConfig_ne {files : ConfigFiles} {path : Text}
    (hstored : files "model.path" = some path) (h : readConfig (some path) ≠ path)
    (availableMb : ℤ) {boot : BootFiles} (honly : ∀ p, boot.readable p = true → p = path) :
    selectModel availableMb boot files ≠ path := by
  rw [selectModel, hstored]
  intro heq
  by_cases hover : readConfig (some path) ≠ [] ∧
      boot.readable (Text.cStr (readConfig (some path))) = true
  · exact h ((if_pos hover).symm.trans heq)
  · have hauto := (if_neg hover).symm.trans heq
    cases hfind : bootModels.find? fun m =>
        decide (m.requiredMb ≤ availableMb) && boot.readable m.path with
    | none =>
      simp only [hfind] at hauto
      subst hauto
      exact h rfl
    | some m =>
      simp only [hfind] at hauto
      subst hauto
      exact h (readConfig_bootModels m (List.mem_of_find?_eq_some hfind))

/-! ### The selected model -/

/-- **The model that is selected is booted**: a path is booted where it can be read, no path
leaves the choice to the boot, and a setting that is not stored is not answered with ok. -/
structure SelectionBooted (ops : ConfigOps) (files : ConfigFiles) (body : Text) : Prop where
  selected : ∀ path, AnswersOk (postModelSelect ops files body).2 path → path ≠ [] →
    ∀ availableMb (boot : BootFiles), boot.readable path = true →
      selectModel availableMb boot (postModelSelect ops files body).1 = path
  cleared : AnswersOk (postModelSelect ops files body).2 [] → ∀ availableMb boot,
    selectModel availableMb boot (postModelSelect ops files body).1 =
      selectModel availableMb boot
        (Function.update (postModelSelect ops files body).1 "model.path".toList none)
  stored : ∀ path, AnswersOk (postModelSelect ops files body).2 path → ops.Stores path

/-- The file of the setting after a path was stored. -/
theorem modelPath_of_stores {ops : ConfigOps} {body path : Text}
    (h : selectedPath body = some path) (hstores : ops.Stores path) (files : ConfigFiles) :
    (postModelSelect ops files body).1 "model.path" = some path := by
  obtain ⟨args, text, hargs, -, hpost⟩ := postModelSelect_of_selected h ops files
  rw [hpost]
  rw [handleConfigSet_modelPath hargs, if_pos ⟨hstores.short, hstores.dir, hstores.opened⟩,
    Function.update_self, List.take_of_length_le hstores.whole]

/-- The boot at which one file can be read. -/
def onlyReadable (path : Text) (h : IsPath path) : BootFiles where
  readable p := decide (p = path)
  isPath _ hp := of_decide_eq_true hp ▸ h

/-- **A model that is selected is booted** exactly when its path is stored and, if it can be that of
a file, fits the buffer of the reader and does not end in a blank. -/
theorem selectionBooted_iff (ops : ConfigOps) (files : ConfigFiles) (body : Text) :
    SelectionBooted ops files body ↔ ∀ path, selectedPath body = some path →
      ops.Stores path ∧ (IsPath path →
        path.length ≤ 511 ∧ ∀ c ∈ path.getLast?, isTrailing c = false) := by
  constructor
  · intro h path hpath
    have hstores := h.stored path (answersOk_iff.mpr hpath)
    refine ⟨hstores, fun hisPath => (readConfig_eq_self_iff path).mp ?_⟩
    by_contra hne
    have hnil : path ≠ [] := by
      rintro rfl
      exact hne rfl
    exact selectModel_ne_of_readConfig_ne (modelPath_of_stores hpath hstores files) hne 0
      (fun p hp => of_decide_eq_true hp)
      (h.selected path (answersOk_iff.mpr hpath) hnil 0 (onlyReadable path hisPath)
        (decide_eq_true rfl))
  · intro h
    refine ⟨fun path hok hne availableMb boot hreadable => ?_, fun hok => ?_, fun path hok => ?_⟩
    · have hpath := answersOk_iff.mp hok
      obtain ⟨hstores, hread⟩ := h path hpath
      have hwhole := (readConfig_eq_self_iff path).mpr (hread (boot.isPath path hreadable))
      refine selectModel_of_readConfig_eq ?_ hne availableMb hreadable
      rw [modelPath_of_stores hpath hstores files, hwhole]
    · have hpath := answersOk_iff.mp hok
      refine selectModel_of_readConfig_nil ?_
      rw [modelPath_of_stores hpath (h [] hpath).1 files]
      rfl
    · exact (h path (answersOk_iff.mp hok)).1

/-- A model is selected while the settings cannot be written. -/
theorem not_selectionBooted : ¬ ∀ ops files body, SelectionBooted ops files body := by
  intro h
  let ops : ConfigOps := ⟨true, some "Read-only file system", 0⟩
  let body : Text := "\x7b\"path\":\"/data/models/a.gguf\"\x7d"
  have hselected : selectedPath body = some "/data/models/a.gguf" := by decide +kernel
  have hbooted := h ops (fun _ => none) body
  exact Option.some_ne_none _ (hbooted.stored _ (answersOk_iff.mpr hselected)).opened

end Llamaste
