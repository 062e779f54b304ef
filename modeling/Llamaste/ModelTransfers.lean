import Llamaste.DataPath
import Llamaste.ModelFiles
import Llamaste.ModelOverride

/-!
# Model transfers

A model is fetched from a repository or from a URL, or copied from a USB drive. The names of its
files come from the request, and each is a text behind `/data/models/`; whether they are checked
depends on the entry that the request takes.

A path that is opened for writing or renamed to has to be one that a file can have. What the calls
find otherwise is left open.

Source: `tools_model_download.cpp`, `child_main.cpp` (`POST /llamaste/model/download-tier`).

## Main results

* `writesInModels_iff`: only the requests for a tier can write outside `/data/models`, and do so
  exactly when they name a file there.
-/

namespace Llamaste

open Text (cStr)

/-! ### Places -/

/-- Where an absolute path leads, if it meets no links. -/
def pathPlace (path : Text) : List Text := (path.splitOn '/').foldl pushSegment []

/-- The place of the models. -/
def modelsPlace : List Text := ["data", "models"]

/-- A path of a direct child of `/data/models`. -/
def InModels (path : Text) : Prop := ∃ name, pathPlace path = modelsPlace ++ [name]

/-- A name that a directory can have an entry under. -/
def IsEntryName (name : Text) : Prop := name ≠ [] ∧ name ≠ "." ∧ name ≠ ".."

/-- A path that a file can have: it ends in a name, and not at a directory on the way to the
models. -/
structure CanBeFile (path : Text) : Prop where
  isPath : IsPath path
  named : ∀ name ∈ (path.splitOn '/').getLast?, IsEntryName name
  below : ¬ pathPlace path <+: modelsPlace

/-! ### The transfer of one file -/

/-- A change of a file, by the paths that are passed on. -/
inductive FileOp
  | openWrite (path : Text)
  | rename (old new : Text)
  | unlink (path : Text)

/-- The path that is written to. -/
def FileOp.target : FileOp → Text
  | openWrite path => path
  | rename _ new => new
  | unlink path => path

/-- How `curl_easy_perform` ends. -/
inductive CurlEnd
  | error (code : ℤ) (error : {text : Text // text ≠ []}) (received : ℕ)
  | done (httpCode speed : ℕ)

/-- What the calls of `download_single_file` find. -/
structure FileTransfer where
  readable : Text → Bool
  size : Text → ℕ
  opens : Text → Bool
  inits : Bool
  curl : CurlEnd
  /-- The error of a rename to a path, if it fails. -/
  renameError : Text → Option Text
  canOpen : ∀ path, opens path = true → CanBeFile path
  canRename : ∀ path, renameError path = none → CanBeFile path

/-- `download_single_file`: the changes that it makes, and how it ends. -/
def downloadSingleFile (t : FileTransfer) (filename : Text) : List FileOp × DownloadReply :=
  let destPath := modelsDir ++ filename
  let partPath := destPath ++ ".part"
  if t.readable (cStr destPath) then ([], .alreadyExists destPath)
  else
    let existing := t.size (cStr partPath)
    if t.opens (cStr partPath) = false then ([], .cannotWrite)
    else if t.inits = false then ([.openWrite (cStr partPath)], .cannotInit)
    else
      match t.curl with
      | .error code error received =>
        ([.openWrite (cStr partPath)], .curlError code error partPath (received + existing))
      | .done httpCode speed =>
        if 400 ≤ httpCode then
          ([.openWrite (cStr partPath), .unlink (cStr partPath)], .httpError httpCode)
        else
          match t.renameError (cStr destPath) with
          | some reason => ([.openWrite (cStr partPath)], .renameError reason)
          | none =>
            ([.openWrite (cStr partPath), .rename (cStr partPath) (cStr destPath)],
              .success destPath filename (t.size (cStr destPath)) speed)

/-- `download_single_file_direct`: it differs in the URL only, and in that its reply to status 404
has no message. -/
def downloadSingleFileDirect (t : FileTransfer) (filename : Text) : List FileOp × Json :=
  let (ops, reply) := downloadSingleFile t filename
  match reply with
  | .httpError code => (ops, .object [("status".toList, .str "error"),
      ("http_code".toList, .int code), ("error".toList, .str ("HTTP error " ++ Text.ofNat code))])
  | reply => (ops, reply.json)

/-- The shards are fetched in turn, up to the first that fails: the changes, and the sizes, or the
shard that failed and how. -/
def downloadShards (t : ℤ → FileTransfer) (shard : ShardInfo) :
    List ℤ → List FileOp × Except (ℤ × DownloadReply) (List DownloadReply)
  | [] => ([], .ok [])
  | i :: rest =>
    let (ops, reply) := downloadSingleFile (t i) (buildShardFilename shard.base i shard.totalShards)
    if reply.failed then (ops, .error (i, reply))
    else
      let (ops', result) := downloadShards t shard rest
      (ops ++ ops', result.map (reply :: ·))

/-- The numbers of the shards. -/
def shardNumbers (total : ℤ) : List ℤ := (List.range total.toNat).map fun i => (i : ℤ) + 1

/-! ### The requests -/

/-- What a request finds: how the program was built, whether a download is active, which models are
there, what each file meets, and the USB drives. -/
structure TransferWorld where
  haveLibcurl : Bool
  active : Bool
  present : Text → Bool
  file : ℤ → FileTransfer
  /-- `find_usb_partitions`. -/
  partitions : List Text
  /-- The model files on a device with their sizes, if it can be mounted. -/
  usbFiles : Text → Option (List (Text × ℕ))
  freeMb : ℕ
  usbReads : Bool
  usbOpens : Text → Bool
  copied : ℕ
  canOpen : ∀ path, usbOpens path = true → CanBeFile path

/-- The worker that `start_async_download` starts, as far as it changes files. -/
def downloadWorker (w : TransferWorld) (filename : Text) (shard : ShardInfo) : List FileOp :=
  if w.haveLibcurl = false then []
  else if 1 < shard.totalShards then
    (downloadShards w.file shard (shardNumbers shard.totalShards)).1
  else (downloadSingleFile (w.file 1) filename).1

/-- `start_async_download`: the changes of its worker, and the result. An exception is `none`. -/
def startAsyncDownload (w : TransferWorld) (filename : Text) : List FileOp × Option Bool :=
  if w.active then ([], some false)
  else
    match parseShardFilename filename with
    | none => ([], none)
    | some shard => (downloadWorker w filename shard, some true)

/-- `POST /llamaste/model/download-tier`. -/
def postDownloadTier (w : TransferWorld) (body : Text) : List FileOp × Option Json :=
  match Json.parse body with
  | none => ([], some (ToolRegistry.errorJson "invalid JSON"))
  | some j =>
    match j.value Json.getString "repo_id" [], j.value Json.getString "filename" [],
        j.value Json.getString "name" [] with
    | some repoId, some filename, some modelName =>
      if repoId = [] ∨ filename = [] then
        ([], some (ToolRegistry.errorJson "repo_id and filename required"))
      else
        let (ops, started) := startAsyncDownload w filename
        (ops, started.map fun started =>
          if started then
            .object [("status".toList, .str "started"), ("model_name".toList, .str modelName)]
          else .object [("status".toList, .str "busy"),
            ("message".toList, .str "A download is already in progress.")])
    | _, _, _ => ([], none)

/-- `validate_repo_id`. -/
def validateRepoId (repoId : Text) : Bool :=
  repoId.contains '/' && (Text.afterFirst ".." repoId).isNone &&
    decide (repoId.idxOf '/' ≠ 0) && decide (repoId.idxOf '/' ≠ repoId.length - 1)

/-- An error with a status. -/
def statusError (error : Text) : Json :=
  .object [("status".toList, .str "error"), ("error".toList, .str error)]

/-- `r[key] = value`, on an object. -/
def withMember (key : Text) (value : Json) : Json → Json
  | .obj ms => .obj (Json.insertMember key value ms)
  | r => r

/-- A success is told to the user. -/
def withMessage (message : Text) (r : Json) : Json :=
  if r.value Json.getString "status" [] = some "success".toList then
    withMember "message" (.str message) r
  else r

/-- The part of `handle_model_download` for a URL. -/
def modelDownloadDirect (w : TransferWorld) (j : Json) (url : Text) : List FileOp × Option Json :=
  match j.value Json.getString "filename" [] with
  | none => ([], none)
  | some given =>
    let filename :=
      if given = [] then ((Text.rfind "/" url).map fun slash => url.drop (slash + 1)).getD []
      else given
    if filename = [] ∨ validateGgufFilename filename = false then
      ([], some (ToolRegistry.errorJson
        "Cannot determine filename from URL. Provide 'filename' parameter."))
    else if w.haveLibcurl then
      let (ops, r) := downloadSingleFileDirect (w.file 1) filename
      (ops, some (withMessage "Model downloaded from direct URL. Restart to load it." r))
    else ([], some (statusError "Download requires libcurl. Not available in host builds."))

/-- All files of a model are there. -/
def allPresent (w : TransferWorld) (filename : Text) (shard : ShardInfo) : Bool :=
  if 1 < shard.totalShards then
    (shardNumbers shard.totalShards).all fun i =>
      w.present (cStr (modelsDir ++ buildShardFilename shard.base i shard.totalShards))
  else w.present (cStr (modelsDir ++ filename))

/-- The reply to a download of shards. -/
def shardsReply (filename : Text) (total : ℤ) :
    Except (ℤ × DownloadReply) (List DownloadReply) → Json
  | .error (i, r) =>
    withMember "message" (.str ("Failed on shard " ++ Text.ofNat i.toNat ++ "/" ++
        Text.ofNat total.toNat ++ ". Retry will resume."))
      (withMember "total_shards" (.int total) (withMember "shard" (.int i) r.json))
  | .ok rs =>
    let bytes : ℕ := (rs.map DownloadReply.sizeBytes).sum % 2 ^ 64
    .object [("status".toList, .str "success"), ("path".toList, .str (modelsDir ++ filename)),
      ("filename".toList, .str filename), ("shards".toList, .int total),
      ("total_size_bytes".toList, .int bytes),
      ("total_size_human".toList, .str (formatBytes bytes)),
      ("message".toList, .str ("All " ++ Text.ofNat total.toNat ++
        " shards downloaded. Restart to load model."))]

/-- The part of `handle_model_download` for a repository. -/
def modelDownloadRepo (w : TransferWorld) (repoId filename : Text) : List FileOp × Option Json :=
  if repoId = [] ∨ filename = [] then
    ([], some (ToolRegistry.errorJson "Required parameters: repo_id and filename, OR url"))
  else if validateRepoId repoId = false then
    ([], some (ToolRegistry.errorJson "Invalid repo_id format"))
  else if validateGgufFilename filename = false then
    ([], some (ToolRegistry.errorJson "Invalid filename. Must end with .gguf, no path components."))
  else
    match parseShardFilename filename with
    | none => ([], none)
    | some shard =>
      if allPresent w filename shard then
        ([], some (.object [("status".toList, .str "already_exists"),
          ("path".toList, .str (modelsDir ++ filename)),
          ("message".toList, .str "Model already downloaded")]))
      else if w.haveLibcurl = false then
        ([], some (statusError
          "Download requires HTTPS support (libcurl). Not available in host builds."))
      else if 1 < shard.totalShards then
        let (ops, result) := downloadShards w.file shard (shardNumbers shard.totalShards)
        (ops, some (shardsReply filename shard.totalShards result))
      else
        let (ops, r) := downloadSingleFile (w.file 1) filename
        (ops, some (withMessage "Model downloaded successfully. Restart to load it." r.json))

/-- `handle_model_download`. -/
def handleModelDownload (w : TransferWorld) (args : Text) : List FileOp × Option Json :=
  match Json.parse args with
  | none => ([], some (ToolRegistry.errorJson "Invalid JSON arguments"))
  | some j =>
    match j.value Json.getString "url" [] with
    | none => ([], none)
    | some url =>
      if url ≠ [] then modelDownloadDirect w j url
      else
        match j.value Json.getString "repo_id" [], j.value Json.getString "filename" [] with
        | some repoId, some filename => modelDownloadRepo w repoId filename
        | _, _ => ([], none)

/-- A file of a USB drive as it is listed; its path starts with the 8 bytes of the mount point. -/
def usbFileJson (device : Text) (file : Text × ℕ) : Json :=
  .object [("device".toList, .str device), ("usb_path".toList, .str (file.1.drop 8)),
    ("filename".toList, .str (file.1.drop ((Text.rfind "/" file.1).elim 0 (· + 1)))),
    ("size_bytes".toList, .int file.2), ("size_human".toList, .str (formatBytes file.2))]

/-- The action `scan` of `handle_model_usb_import`. -/
def usbScan (w : TransferWorld) : Json :=
  if w.partitions = [] then
    ToolRegistry.errorJson "No USB drives detected. Insert a USB drive and try again."
  else
    let files := w.partitions.flatMap fun device =>
      ((w.usbFiles device).getD []).map (usbFileJson device)
    .object [("devices_found".toList, .int w.partitions.length), ("gguf_files".toList, .arr files),
      ("count".toList, .int files.length), ("message".toList, .str (
        if files = [] then "No GGUF files found on USB drives."
        else "Found " ++ Text.ofNat files.length ++
          " GGUF file(s). Use action='import' with device and filename to copy."))]

/-- The action `import` of `handle_model_usb_import`. -/
def usbImport (w : TransferWorld) (device filename : Text) : List FileOp × Option Json :=
  if device = [] ∨ filename = [] then
    ([], some (ToolRegistry.errorJson "Import requires 'device' and 'filename' parameters"))
  else if validateGgufFilename filename = false then
    ([], some (ToolRegistry.errorJson "Invalid GGUF filename"))
  else
    match w.usbFiles device with
    | none => ([], some (ToolRegistry.errorJson "Failed to mount USB device"))
    | some files =>
      match files.find? fun file => (Text.afterFirst filename file.1).isSome with
      | none => ([], some (ToolRegistry.errorJson
          ("File '" ++ filename ++ "' not found on " ++ device)))
      | some (_, size) =>
        let needMb := size / (1024 * 1024) + 100
        if w.freeMb < needMb then
          ([], some (ToolRegistry.errorJson ("Not enough disk space. Need " ++ Text.ofNat needMb ++
            " MB, have " ++ Text.ofNat w.freeMb ++ " MB")))
        else
          let dest := modelsDir ++ filename
          let ops := if w.usbOpens (cStr dest) then [FileOp.openWrite (cStr dest)] else []
          if w.usbReads = false ∨ w.usbOpens (cStr dest) = false then
            (ops, some (ToolRegistry.errorJson "Failed to open source or destination file"))
          else
            (ops, some (.object [("status".toList, .str "success"), ("path".toList, .str dest),
              ("filename".toList, .str filename), ("size_bytes".toList, .int w.copied),
              ("size_human".toList, .str (formatBytes w.copied)),
              ("message".toList, .str "Model imported from USB. Restart to load it.")]))

/-- `handle_model_usb_import`. -/
def handleModelUsbImport (w : TransferWorld) (args : Text) : List FileOp × Option Json :=
  let j := (Json.parse args).getD .null
  match if j.isObject then j.value Json.getString "action" "scan" else some "scan".toList with
  | none => ([], none)
  | some action =>
    if action = "scan" then ([], some (usbScan w))
    else if action = "import" then
      match j.value Json.getString "device" [], j.value Json.getString "filename" [] with
      | some device, some filename => usbImport w device filename
      | _, _ => ([], none)
    else ([], some (ToolRegistry.errorJson "Unknown action. Use 'scan' or 'import'."))

/-- The requests that transfer models. -/
inductive TransferRequest
  | downloadTier (body : Text)
  | modelDownload (args : Text)
  | usbImport (args : Text)

/-- The changes that a request makes. -/
def TransferRequest.fileOps (w : TransferWorld) : TransferRequest → List FileOp
  | downloadTier body => (postDownloadTier w body).1
  | modelDownload args => (handleModelDownload w args).1
  | usbImport args => (handleModelUsbImport w args).1

/-- **A request writes only into `/data/models`**, whatever it finds. -/
def TransferRequest.WritesInModels (req : TransferRequest) : Prop :=
  ∀ w, ∀ op ∈ req.fileOps w, InModels op.target

/-! ### The condition -/

/-- The names of the files of a model. -/
def modelFiles (filename : Text) (shard : ShardInfo) : List Text :=
  if 1 < shard.totalShards then
    (shardNumbers shard.totalShards).map (buildShardFilename shard.base · shard.totalShards)
  else [filename]

/-- The model that a request for a tier asks for, with what its name says of shards. -/
def tierModel (body : Text) : Option (Text × ShardInfo) :=
  match Json.parse body with
  | none => none
  | some j =>
    match j.value Json.getString "repo_id" [], j.value Json.getString "filename" [],
        j.value Json.getString "name" [] with
    | some repoId, some filename, some _ =>
      if repoId = [] ∨ filename = [] then none
      else (parseShardFilename filename).map fun shard => (filename, shard)
    | _, _, _ => none

/-- The path that is opened for a name. -/
def partPath (name : Text) : Text := cStr (modelsDir ++ name ++ ".part")

/-- The file that is opened for a name is a direct child of `/data/models`, if there can be one. -/
def StaysInModels (name : Text) : Prop := CanBeFile (partPath name) → InModels (partPath name)

/-- The files of a request for a tier stay in `/data/models`. -/
def TransferRequest.Stays : TransferRequest → Prop
  | downloadTier body => ∀ model ∈ tierModel body, ∀ name ∈ modelFiles model.1 model.2,
      StaysInModels name
  | _ => True

/-! ### Where a path leads -/

theorem pathPlace_child (dir : Text) {name : Text} (h : '/' ∉ name) :
    pathPlace (dir ++ '/' :: name) = pushSegment (pathPlace dir) name := by
  rw [pathPlace, List.splitOn_append_cons_self, List.splitOn_eq_singleton h, List.foldl_append]
  rfl

theorem getLast?_splitOn_child (dir : Text) {name : Text} (h : '/' ∉ name) :
    ((dir ++ '/' :: name).splitOn '/').getLast? = some name := by
  rw [List.splitOn_append_cons_self, List.splitOn_eq_singleton h, List.getLast?_concat]

/-- A name is added behind the place of a directory. -/
theorem pushSegment_of_isEntryName {name : Text} (h : IsEntryName name) (place : List Text) :
    pushSegment place name = place ++ [name] := by
  rw [pushSegment, if_neg (not_or.mpr ⟨h.1, h.2.1⟩), if_neg h.2.2]

/-- A file has the place of its directory and its name. -/
theorem CanBeFile.pathPlace_child {dir name : Text} (h : CanBeFile (dir ++ '/' :: name))
    (hname : '/' ∉ name) : pathPlace (dir ++ '/' :: name) = pathPlace dir ++ [name] := by
  rw [Llamaste.pathPlace_child dir hname]
  exact pushSegment_of_isEntryName (h.named name (getLast?_splitOn_child dir hname)) _

theorem cStr_modelsDir (name : Text) : cStr (modelsDir ++ name) = modelsDir ++ cStr name :=
  List.takeWhile_append_of_pos (by decide)

theorem modelsDir_append (name : Text) : modelsDir ++ name = "/data/models".toList ++ '/' :: name :=
  rfl

/-- A name without a slash is that of a direct child. -/
theorem inModels_of_name {name : Text} (hname : '/' ∉ name) (h : CanBeFile (modelsDir ++ name)) :
    InModels (modelsDir ++ name) := by
  rw [modelsDir_append] at h ⊢
  exact ⟨name, h.pathPlace_child hname⟩

theorem not_mem_cStr {c : Char} {s : Text} (h : c ∉ s) : c ∉ cStr s := fun hc =>
  h (List.takeWhile_subset _ hc)

theorem staysInModels_of_name {name : Text} (h : '/' ∉ name) : StaysInModels name := by
  intro hfile
  rw [partPath, List.append_assoc, cStr_modelsDir] at hfile ⊢
  refine inModels_of_name (not_mem_cStr fun hmem => ?_) hfile
  rcases List.mem_append.mp hmem with hmem | hmem
  · exact h hmem
  · exact absurd hmem (by decide)

/-- If the part file is in the models, so is the file. -/
theorem inModels_dest {name : Text} (hpart : InModels (partPath name))
    (hpartFile : CanBeFile (partPath name)) (hfile : CanBeFile (cStr (modelsDir ++ name))) :
    InModels (cStr (modelsDir ++ name)) := by
  by_cases hzero : Char.ofNat 0 ∈ modelsDir ++ name
  · -- both paths end at the zero byte
    obtain ⟨before, after, hsplit, hbefore⟩ := List.eq_append_cons_of_mem hzero
    rw [partPath, hsplit, List.append_assoc, List.cons_append, Text.cStr_append hbefore] at hpart
    rw [hsplit, Text.cStr_append hbefore]
    exact hpart
  · have hzero' : Char.ofNat 0 ∉ modelsDir ++ name ++ ".part" := fun hmem =>
      (List.mem_append.mp hmem).elim hzero (by decide)
    rw [partPath, Text.cStr_eq_self hzero'] at hpart hpartFile
    rw [Text.cStr_eq_self hzero] at hfile ⊢
    have hslash : '/' ∈ modelsDir ++ name := List.mem_append_left _ (by decide)
    obtain ⟨dir, last, hdir, hlast⟩ := Text.exists_last hslash
    have hlast' : '/' ∉ last ++ ".part" := fun hmem =>
      (List.mem_append.mp hmem).elim hlast (by decide)
    rw [hdir] at hfile ⊢
    rw [hdir, List.append_assoc, List.cons_append] at hpart hpartFile
    obtain ⟨child, hchild⟩ := hpart
    rw [hpartFile.pathPlace_child hlast'] at hchild
    exact ⟨last, by rw [hfile.pathPlace_child hlast, (List.append_inj' hchild rfl).1]⟩

/-! ### What a transfer writes -/

/-- Every change of a transfer is to the part file or to the file, and can be made. -/
theorem target_downloadSingleFile {t : FileTransfer} {name : Text} {op : FileOp}
    (h : op ∈ (downloadSingleFile t name).1) : CanBeFile (partPath name) ∧
      (op.target = partPath name ∨
        op.target = cStr (modelsDir ++ name) ∧ CanBeFile (cStr (modelsDir ++ name))) := by
  rw [downloadSingleFile] at h
  dsimp only at h
  by_cases hreadable : t.readable (cStr (modelsDir ++ name)) = true
  · rw [if_pos hreadable] at h
    exact nomatch h
  rw [if_neg hreadable] at h
  by_cases hopens : t.opens (partPath name) = false
  · rw [← partPath, if_pos hopens] at h
    exact nomatch h
  have hpart : CanBeFile (partPath name) := t.canOpen _ (Bool.not_eq_false _ ▸ hopens)
  rw [← partPath, if_neg hopens] at h
  refine ⟨hpart, ?_⟩
  by_cases hinits : t.inits = false
  · rw [if_pos hinits] at h
    obtain rfl := List.mem_singleton.mp h
    exact .inl rfl
  rw [if_neg hinits] at h
  cases hcurl : t.curl with
  | error code error received =>
    rw [hcurl] at h
    obtain rfl := List.mem_singleton.mp h
    exact .inl rfl
  | done httpCode speed =>
    simp only [hcurl] at h
    by_cases hcode : 400 ≤ httpCode
    · rw [if_pos hcode] at h
      rcases List.mem_cons.mp h with rfl | h
      · exact .inl rfl
      · obtain rfl := List.mem_singleton.mp h
        exact .inl rfl
    · rw [if_neg hcode] at h
      cases hrename : t.renameError (cStr (modelsDir ++ name)) with
      | some reason =>
        rw [hrename] at h
        obtain rfl := List.mem_singleton.mp h
        exact .inl rfl
      | none =>
        rw [hrename] at h
        rcases List.mem_cons.mp h with rfl | h
        · exact .inl rfl
        · obtain rfl := List.mem_singleton.mp h
          exact .inr ⟨rfl, t.canRename _ hrename⟩

theorem inModels_downloadSingleFile {t : FileTransfer} {name : Text} (hstays : StaysInModels name)
    {op : FileOp} (h : op ∈ (downloadSingleFile t name).1) : InModels op.target := by
  obtain ⟨hpart, htarget | ⟨htarget, hfile⟩⟩ := target_downloadSingleFile h
  · rw [htarget]
    exact hstays hpart
  · rw [htarget]
    exact inModels_dest (hstays hpart) hpart hfile

/-- Every change of a download of shards is one of the transfer of a shard. -/
theorem mem_downloadShards {t : ℤ → FileTransfer} {shard : ShardInfo} {numbers : List ℤ}
    {op : FileOp} (h : op ∈ (downloadShards t shard numbers).1) :
    ∃ i ∈ numbers,
      op ∈ (downloadSingleFile (t i) (buildShardFilename shard.base i shard.totalShards)).1 := by
  induction numbers with
  | nil => exact nomatch h
  | cons i rest ih =>
    rw [downloadShards] at h
    dsimp only at h
    split_ifs at h with hfailed
    · exact ⟨i, List.mem_cons_self, h⟩
    · rcases List.mem_append.mp h with h | h
      · exact ⟨i, List.mem_cons_self, h⟩
      · obtain ⟨j, hj, hop⟩ := ih h
        exact ⟨j, List.mem_cons_of_mem _ hj, hop⟩

/-- The changes of a shard are made if no other shard fails. -/
theorem subset_downloadShards {t : ℤ → FileTransfer} {shard : ShardInfo} {numbers : List ℤ} {i : ℤ}
    (hi : i ∈ numbers) (hothers : ∀ j ≠ i, (downloadSingleFile (t j)
      (buildShardFilename shard.base j shard.totalShards)).2.failed = false) :
    (downloadSingleFile (t i) (buildShardFilename shard.base i shard.totalShards)).1 ⊆
      (downloadShards t shard numbers).1 := by
  induction numbers with
  | nil => exact nomatch hi
  | cons j rest ih =>
    rw [downloadShards]
    dsimp only
    by_cases hij : j = i
    · subst hij
      split_ifs
      · exact List.Subset.refl _
      · exact List.subset_append_left _ _
    · have hrest : i ∈ rest := (List.mem_cons.mp hi).resolve_left fun h => hij h.symm
      rw [if_neg (Bool.not_eq_true _ ▸ hothers j hij)]
      exact List.Subset.trans (ih hrest) (List.subset_append_right _ _)

theorem inModels_downloadWorker {w : TransferWorld} {filename : Text} {shard : ShardInfo}
    (hstays : ∀ name ∈ modelFiles filename shard, StaysInModels name) {op : FileOp}
    (h : op ∈ downloadWorker w filename shard) : InModels op.target := by
  rw [downloadWorker] at h
  rw [modelFiles] at hstays
  by_cases hlibcurl : w.haveLibcurl = false
  · rw [if_pos hlibcurl] at h
    exact nomatch h
  rw [if_neg hlibcurl] at h
  split_ifs at h hstays with hshards
  · obtain ⟨i, hi, hop⟩ := mem_downloadShards h
    exact inModels_downloadSingleFile (hstays _ (List.mem_map_of_mem hi)) hop
  · exact inModels_downloadSingleFile (hstays _ (List.mem_singleton_self _)) h

/-! ### Names that are checked -/

theorem slash_not_mem_of_validate {filename : Text} (h : validateGgufFilename filename = true) :
    '/' ∉ filename := by
  simp only [validateGgufFilename, Bool.and_eq_true, Bool.not_eq_true'] at h
  have hno : filename.contains '/' = false := h.1.2
  simpa using hno

/-- The base of a sharded name starts the name. -/
theorem base_initial {filename : Text} {shard : ShardInfo}
    (h : parseShardFilename filename = some shard) : shard.base <+: filename := by
  have hself : some { base := filename } = some shard → shard.base <+: filename := by
    rintro ⟨⟩
    exact List.prefix_rfl
  rw [parseShardFilename] at h
  split at h
  · exact hself h
  · rename_i ofPos hof
    by_cases hstart : ofPos < 6
    · rw [if_pos hstart] at h
      exact hself h
    rw [if_neg hstart] at h
    split at h
    · exact hself h
    · rename_i dotPos hdot
      by_cases hdots : dotPos ≤ ofPos + 4
      · rw [if_pos hdots] at h
        exact hself h
      rw [if_neg hdots] at h
      split at h
      · exact hself h
      · rename_i dashPos hdash
        dsimp only at h
        split_ifs at h
        · obtain ⟨num, -, h⟩ := Option.bind_eq_some_iff.mp h
          obtain ⟨total, -, h⟩ := Option.bind_eq_some_iff.mp h
          obtain rfl := Option.some.inj h
          exact List.take_prefix _ _
        · exact hself h

theorem slash_not_mem_padFive (n : ℤ) : '/' ∉ padFive n := by
  intro hmem
  rcases List.mem_append.mp hmem with hmem | hmem
  · rcases List.mem_append.mp hmem with hmem | hmem
    · split_ifs at hmem
      · exact absurd hmem (by decide)
      · exact nomatch hmem
    · exact absurd (List.eq_of_mem_replicate hmem) (by decide)
  · exact absurd (Text.isDigit_toDigits _ hmem) (by decide)

theorem slash_not_mem_modelFiles {filename : Text} {shard : ShardInfo} (hslash : '/' ∉ filename)
    (h : parseShardFilename filename = some shard) :
    ∀ name ∈ modelFiles filename shard, '/' ∉ name := by
  have hbase : '/' ∉ shard.base := fun hmem => hslash ((base_initial h).subset hmem)
  intro name hname
  rw [modelFiles] at hname
  split_ifs at hname with hshards
  · obtain ⟨i, -, rfl⟩ := List.mem_map.mp hname
    simp only [buildShardFilename, List.mem_append, not_or]
    exact ⟨⟨⟨⟨⟨hbase, by decide⟩, slash_not_mem_padFive i⟩, by decide⟩, slash_not_mem_padFive _⟩,
      by decide⟩
  · rw [List.mem_singleton.mp hname]
    exact hslash

/-! ### The requests that check the name -/

theorem fst_downloadSingleFileDirect (t : FileTransfer) (filename : Text) :
    (downloadSingleFileDirect t filename).1 = (downloadSingleFile t filename).1 := by
  rw [downloadSingleFileDirect]
  cases hreply : (downloadSingleFile t filename).2 <;> simp only [hreply]

theorem inModels_modelDownloadDirect {w : TransferWorld} {j : Json} {url : Text} {op : FileOp}
    (h : op ∈ (modelDownloadDirect w j url).1) : InModels op.target := by
  rw [modelDownloadDirect] at h
  split at h
  · exact nomatch h
  · rename_i given hgiven
    dsimp only at h
    generalize (if given = [] then _ else given) = filename at h
    split_ifs at h with hname hlibcurl
    · exact nomatch h
    · rw [fst_downloadSingleFileDirect] at h
      have hvalid := Bool.not_eq_false _ ▸ (not_or.mp hname).2
      exact inModels_downloadSingleFile (staysInModels_of_name (slash_not_mem_of_validate hvalid)) h
    · exact nomatch h

/-- A request for a repository changes what a worker for its file would change, if its name is
valid. -/
theorem modelDownloadRepo_subset {w : TransferWorld} {repoId filename : Text} {op : FileOp}
    (h : op ∈ (modelDownloadRepo w repoId filename).1) :
    validateGgufFilename filename = true ∧ ∃ shard, parseShardFilename filename = some shard ∧
      op ∈ downloadWorker w filename shard := by
  rw [modelDownloadRepo] at h
  by_cases hnil : repoId = [] ∨ filename = []
  · rw [if_pos hnil] at h
    exact nomatch h
  rw [if_neg hnil] at h
  by_cases hrepo : validateRepoId repoId = false
  · rw [if_pos hrepo] at h
    exact nomatch h
  rw [if_neg hrepo] at h
  by_cases hname : validateGgufFilename filename = false
  · rw [if_pos hname] at h
    exact nomatch h
  rw [if_neg hname] at h
  refine ⟨Bool.not_eq_false _ ▸ hname, ?_⟩
  cases hshard : parseShardFilename filename with
  | none =>
    rw [hshard] at h
    exact nomatch h
  | some shard =>
    refine ⟨shard, rfl, ?_⟩
    simp only [hshard] at h
    by_cases hpresent : allPresent w filename shard = true
    · rw [if_pos hpresent] at h
      exact nomatch h
    rw [if_neg hpresent] at h
    rw [downloadWorker]
    split_ifs at h ⊢
    · exact nomatch h
    · exact h
    · exact h

theorem inModels_modelDownload {w : TransferWorld} {args : Text} {op : FileOp}
    (h : op ∈ (handleModelDownload w args).1) : InModels op.target := by
  rw [handleModelDownload] at h
  split at h
  · exact nomatch h
  · split at h
    · exact nomatch h
    · split_ifs at h with hurl
      · exact inModels_modelDownloadDirect h
      · split at h
        · obtain ⟨hvalid, shard, hshard, hop⟩ := modelDownloadRepo_subset h
          refine inModels_downloadWorker (fun name hname => staysInModels_of_name ?_) hop
          exact slash_not_mem_modelFiles (slash_not_mem_of_validate hvalid) hshard name hname
        · exact nomatch h

theorem inModels_usbImport {w : TransferWorld} {device filename : Text} {op : FileOp}
    (h : op ∈ (usbImport w device filename).1) : InModels op.target := by
  rw [usbImport] at h
  by_cases hnil : device = [] ∨ filename = []
  · rw [if_pos hnil] at h
    exact nomatch h
  rw [if_neg hnil] at h
  by_cases hname : validateGgufFilename filename = false
  · rw [if_pos hname] at h
    exact nomatch h
  rw [if_neg hname] at h
  split at h
  · exact nomatch h
  · split at h
    · exact nomatch h
    · rename_i size hfound
      dsimp only at h
      by_cases hspace : w.freeMb < size / (1024 * 1024) + 100
      · rw [if_pos hspace] at h
        exact nomatch h
      rw [if_neg hspace] at h
      -- the destination is opened even if the source is not
      have hop : op ∈ if w.usbOpens (cStr (modelsDir ++ filename)) then
          [FileOp.openWrite (cStr (modelsDir ++ filename))] else [] := by
        split_ifs at h ⊢ <;> exact h
      split_ifs at hop with hopens
      · obtain rfl := List.mem_singleton.mp hop
        have hfile := w.canOpen _ hopens
        have hslash := slash_not_mem_of_validate (Bool.not_eq_false _ ▸ hname)
        rw [cStr_modelsDir] at hfile
        rw [FileOp.target, cStr_modelsDir]
        exact inModels_of_name (not_mem_cStr hslash) hfile
      · exact nomatch hop

theorem inModels_modelUsbImport {w : TransferWorld} {args : Text} {op : FileOp}
    (h : op ∈ (handleModelUsbImport w args).1) : InModels op.target := by
  rw [handleModelUsbImport] at h
  split at h
  · exact nomatch h
  · split_ifs at h with hscan himport
    · exact nomatch h
    · split at h
      · exact inModels_usbImport h
      · exact nomatch h
    · exact nomatch h

/-! ### The requests for a tier -/

/-- A request for a tier changes what the worker for its model changes. -/
theorem fst_postDownloadTier (w : TransferWorld) (body : Text) : (postDownloadTier w body).1 =
    if w.active then []
    else ((tierModel body).map fun model => downloadWorker w model.1 model.2).getD [] := by
  have hnone : [] = if w.active then ([] : List FileOp) else [] := (ite_self _).symm
  rw [postDownloadTier, tierModel]
  cases Json.parse body with
  | none => exact hnone
  | some j =>
    dsimp only
    cases j.value Json.getString "repo_id" [] with
    | none => exact hnone
    | some repoId =>
      cases j.value Json.getString "filename" [] with
      | none => exact hnone
      | some filename =>
        cases j.value Json.getString "name" [] with
        | none => exact hnone
        | some modelName =>
          dsimp only
          by_cases hnil : repoId = [] ∨ filename = []
          · rw [if_pos hnil, if_pos hnil]
            exact hnone
          · rw [if_neg hnil, if_neg hnil, startAsyncDownload]
            by_cases hactive : w.active = true
            · rw [if_pos hactive, if_pos hactive]
            · rw [if_neg hactive, if_neg hactive]
              cases parseShardFilename filename <;> rfl

/-! ### All requests -/

theorem canBeFile_of_false (path : Text) (h : false = true) : CanBeFile path :=
  absurd h Bool.false_ne_true

theorem canBeFile_of_some_eq_none (path : Text) (h : (some [] : Option Text) = none) :
    CanBeFile path :=
  absurd h (Option.some_ne_none [])

/-- The transfers of files of which one opens its part file, and the others are there. -/
def oneOpens (i : ℤ) (part : Text) (h : CanBeFile part) (j : ℤ) : FileTransfer where
  readable _ := decide (j ≠ i)
  size _ := 0
  opens path := decide (path = part)
  inits := false
  curl := .done 200 0
  renameError _ := some []
  canOpen _ hp := of_decide_eq_true hp ▸ h
  canRename := canBeFile_of_some_eq_none

/-- What a request meets where only one file can be opened. -/
def oneOpensWorld (i : ℤ) (part : Text) (h : CanBeFile part) : TransferWorld where
  haveLibcurl := true
  active := false
  present _ := false
  file := oneOpens i part h
  partitions := []
  usbFiles _ := none
  freeMb := 0
  usbReads := false
  usbOpens _ := false
  copied := 0
  canOpen := canBeFile_of_false

theorem openWrite_mem_oneOpens (i : ℤ) {name : Text} (h : CanBeFile (partPath name)) :
    .openWrite (partPath name) ∈ (downloadSingleFile (oneOpens i _ h i) name).1 := by
  have hreadable : ¬ (oneOpens i _ h i).readable (cStr (modelsDir ++ name)) = true := fun hno =>
    of_decide_eq_true hno rfl
  have hopens : (oneOpens i _ h i).opens (partPath name) = true := decide_eq_true rfl
  have hinits : (oneOpens i _ h i).inits = false := rfl
  rw [downloadSingleFile]
  dsimp only
  rw [if_neg hreadable, ← partPath, if_neg (by rw [hopens]; exact nofun), if_pos hinits]
  exact List.mem_singleton_self _

theorem not_failed_oneOpens {i j : ℤ} (hij : j ≠ i) (name : Text) {part : Text}
    (h : CanBeFile part) : (downloadSingleFile (oneOpens i part h j) name).2.failed = false := by
  have hreadable : (oneOpens i part h j).readable (cStr (modelsDir ++ name)) = true :=
    decide_eq_true hij
  rw [downloadSingleFile]
  dsimp only
  rw [if_pos hreadable]
  exact DownloadReply.failed_eq _

/-- Any file of a model can be the one that is opened. -/
theorem exists_openWrite {filename name : Text} {shard : ShardInfo}
    (hname : name ∈ modelFiles filename shard) (h : CanBeFile (partPath name)) :
    ∃ w, w.active = false ∧ .openWrite (partPath name) ∈ downloadWorker w filename shard := by
  rw [modelFiles] at hname
  split_ifs at hname with hshards
  · obtain ⟨i, hi, rfl⟩ := List.mem_map.mp hname
    refine ⟨oneOpensWorld i _ h, rfl, ?_⟩
    rw [downloadWorker, if_neg Bool.noConfusion, if_pos hshards]
    exact subset_downloadShards hi (fun j hij => not_failed_oneOpens hij _ h)
      (openWrite_mem_oneOpens i h)
  · obtain rfl := List.mem_singleton.mp hname
    refine ⟨oneOpensWorld 1 _ h, rfl, ?_⟩
    rw [downloadWorker, if_neg Bool.noConfusion, if_neg hshards]
    exact openWrite_mem_oneOpens 1 h

/-- **A request writes only into `/data/models`**, exactly if it is for a tier only with names that
stay there. -/
theorem writesInModels_iff (req : TransferRequest) : req.WritesInModels ↔ req.Stays := by
  cases req with
  | downloadTier body =>
    constructor
    · intro h model hmodel name hname hfile
      obtain ⟨w, hactive, hop⟩ := exists_openWrite hname hfile
      refine h w (.openWrite (partPath name)) ?_
      rw [TransferRequest.fileOps, fst_postDownloadTier, if_neg (by rw [hactive]; exact nofun),
        Option.mem_def.mp hmodel]
      exact hop
    · intro h w op hop
      rw [TransferRequest.fileOps, fst_postDownloadTier] at hop
      split_ifs at hop
      · exact nomatch hop
      · cases hmodel : tierModel body with
        | none =>
          rw [hmodel] at hop
          exact nomatch hop
        | some model =>
          rw [hmodel] at hop
          exact inModels_downloadWorker (h model hmodel) hop
  | modelDownload args => exact iff_of_true (fun w op hop => inModels_modelDownload hop) trivial
  | usbImport args => exact iff_of_true (fun w op hop => inModels_modelUsbImport hop) trivial

/-- A request for a tier names a file of another directory. -/
theorem not_writesInModels : ¬ ∀ req : TransferRequest, req.WritesInModels := by
  intro h
  let filename : Text := "../llamaste/auth"
  let body : Text := "\x7b\"repo_id\":\"a/b\",\"filename\":\"../llamaste/auth\"\x7d"
  have hmodel : tierModel body = some (filename, { base := filename }) := by decide +kernel
  have hplace : pathPlace (partPath filename) = ["data", "llamaste", "auth.part"] := by
    decide +kernel
  have hlast : ((partPath filename).splitOn '/').getLast? = some "auth.part" := by decide +kernel
  have hfile : CanBeFile (partPath filename) := by
    refine ⟨by decide +kernel, ?_, by rw [hplace]; decide⟩
    rw [hlast]
    rintro name ⟨⟩
    exact ⟨by decide, by decide, by decide⟩
  have hstays := (writesInModels_iff (.downloadTier body)).mp (h _) _ hmodel
  obtain ⟨name, hname⟩ := hstays filename (List.mem_singleton_self _) hfile
  rw [hplace] at hname
  exact absurd (List.cons.inj (List.cons.inj hname).2).1 (by decide)

end Llamaste
