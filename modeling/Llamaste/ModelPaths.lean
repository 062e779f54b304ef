import Llamaste.ModelTransfers
import Llamaste.ShardNames

/-!
# The path that a download reports

A download looks for the shards of a model, and fetches them, under names that it builds from the
base and the number of shards, but reports the path of the name that was asked for. A download from
a URL fetches the file of that name only.

Source: `tools_model_download.cpp` (`handle_model_download`).

## Main results

* `reportsFiles_iff`: the requests whose reports can be relied on.
-/

namespace Llamaste

open Text (cStr)

/-! ### What is claimed -/

/-- A reply says that a model is there, at a path. -/
structure SaysThere (reply : Json) (path : Text) : Prop where
  status : reply.find "status" = some (.str "success") ∨
    reply.find "status" = some (.str "already_exists")
  path : reply.find "path" = some (.str path)

/-- The file with this path is there, and if its name is that of a shard, all shards are. -/
structure ModelThere (there : Text → Prop) (path : Text) : Prop where
  file : there (cStr path)
  shards : ∀ filename shard, path = modelsDir ++ filename →
    parseShardFilename filename = some shard → ∀ i ∈ shardNumbers shard.totalShards,
      there (cStr (modelsDir ++ buildShardFilename shard.base i shard.totalShards))

/-- The files that were there are still there in the end, and so is every file that a transfer has
reported. -/
structure TransfersReal (w : TransferWorld) (there : Text → Prop) : Prop where
  present : ∀ path, w.present path = true → there path
  fetched : ∀ i filename, (downloadSingleFile (w.file i) filename).2.isError = false →
    there (cStr (modelsDir ++ filename))

/-- What a request reports is there, whatever it finds. -/
def ReportsFiles (args : Text) : Prop :=
  ∀ w there, TransfersReal w there → ∀ reply path, (handleModelDownload w args).2 = some reply →
    SaysThere reply path → ModelThere there path

/-! ### The condition -/

/-- The valid name that a request with a URL asks for. -/
def requestedDirect (j : Json) (url : Text) : Option Text :=
  match j.value Json.getString "filename" [] with
  | none => none
  | some given =>
    let filename :=
      if given = [] then ((Text.rfind "/" url).map fun slash => url.drop (slash + 1)).getD []
      else given
    if filename = [] ∨ validateGgufFilename filename = false then none else some filename

/-- The valid name that a request for a repository asks for. -/
def requestedRepo (j : Json) : Option Text :=
  match j.value Json.getString "repo_id" [], j.value Json.getString "filename" [] with
  | some repoId, some filename =>
    if repoId = [] ∨ filename = [] ∨ validateRepoId repoId = false ∨
      validateGgufFilename filename = false then none else some filename
  | _, _ => none

/-- The valid name that a request asks for, and whether it gives a URL for it. -/
def requestedFile (args : Text) : Option (Bool × Text) :=
  match Json.parse args with
  | none => none
  | some j =>
    match j.value Json.getString "url" [] with
    | none => none
    | some url =>
      if url ≠ [] then (requestedDirect j url).map (true, ·)
      else (requestedRepo j).map (false, ·)

/-- A name of a shard is one of the names that are built for the shards of its model; of a download
from a URL it is the only one. -/
def NamesItself (direct : Bool) (filename : Text) (shard : ShardInfo) : Prop :=
  if direct then ∀ i ∈ shardNumbers shard.totalShards,
    cStr (buildShardFilename shard.base i shard.totalShards) = cStr filename
  else 0 < shard.totalShards → ∃ i ∈ shardNumbers shard.totalShards,
    cStr (buildShardFilename shard.base i shard.totalShards) = cStr filename

/-! ### The replies -/

theorem find_withMember (key other : Text) (value r : Json) (hr : r.isObject = true) :
    (withMember key value r).find other = if other = key then some value else r.find other := by
  cases r with
  | obj ms => exact Json.lookup_insertMember key other value ms
  | _ => exact nomatch hr

theorem isObject_downloadReply (r : DownloadReply) : r.json.isObject = true := by
  cases r <;> rfl

theorem isObject_downloadSingleFileDirect (t : FileTransfer) (filename : Text) :
    (downloadSingleFileDirect t filename).2.isObject = true := by
  rw [downloadSingleFileDirect]
  cases hreply : (downloadSingleFile t filename).2 with
  | httpError code =>
      simp only [hreply]
      rfl
  | _ =>
      simp only [hreply]
      exact isObject_downloadReply _

/-- A message changes neither the status nor the path. -/
theorem find_withMessage (message : Text) {r : Json} (hr : r.isObject = true) {key : Text}
    (hkey : key ≠ "message") : (withMessage message r).find key = r.find key := by
  rw [withMessage]
  split_ifs
  · rw [find_withMember _ _ _ _ hr, if_neg hkey]
  · rfl

/-- The file that a transfer has reported, if it has not failed. -/
def DownloadReply.path : DownloadReply → Option Text
  | alreadyExists path => some path
  | success path _ _ _ => some path
  | _ => none

theorem find_path (r : DownloadReply) : r.json.find "path" = r.path.map .str := by
  cases r with
  | httpError code =>
      rw [DownloadReply.json]
      by_cases h : code = 404
      · rw [if_pos h]
        rfl
      · rw [if_neg h]
        rfl
  | _ => rfl

theorem path_downloadSingleFile {t : FileTransfer} {filename path : Text}
    (h : (downloadSingleFile t filename).2.path = some path) :
    path = modelsDir ++ filename ∧ (downloadSingleFile t filename).2.isError = false := by
  rw [downloadSingleFile] at h ⊢
  dsimp only at h ⊢
  split_ifs at h ⊢
  · exact ⟨(Option.some.inj h).symm, rfl⟩
  · cases h
  · cases h
  · cases hcurl : t.curl with
    | error code error received =>
        rw [hcurl] at h
        cases h
    | done httpCode speed =>
        rw [hcurl] at h
        dsimp only at h ⊢
        split_ifs at h ⊢
        · cases h
        · cases hrename : t.renameError (cStr (modelsDir ++ filename)) with
          | some reason =>
              rw [hrename] at h
              cases h
          | none =>
              rw [hrename] at h
              exact ⟨(Option.some.inj h).symm, rfl⟩

/-- The reply to the transfer of one file says that it is there only if it is. -/
theorem there_of_downloadSingleFile {w : TransferWorld} {there : Text → Prop}
    (hreal : TransfersReal w there) {i : ℤ} {filename path : Text}
    (h : (downloadSingleFile (w.file i) filename).2.json.find "path" = some (.str path)) :
    path = modelsDir ++ filename ∧ there (cStr path) := by
  rw [find_path] at h
  obtain ⟨path', hpath, heq⟩ := Option.map_eq_some_iff.mp h
  obtain rfl := Json.str.inj heq
  obtain ⟨rfl, hok⟩ := path_downloadSingleFile hpath
  exact ⟨rfl, hreal.fetched i filename hok⟩

/-- An error does not say that a model is there. -/
theorem not_saysThere_errorJson (error path : Text) :
    ¬SaysThere (ToolRegistry.errorJson error) path := fun h => nomatch h.path

theorem not_saysThere_statusError (error path : Text) : ¬SaysThere (statusError error) path :=
  fun h => nomatch h.path

/-- With all shards fetched, they are all there. -/
theorem there_of_downloadShards {w : TransferWorld} {there : Text → Prop}
    (hreal : TransfersReal w there) {shard : ShardInfo} {numbers : List ℤ}
    {rs : List DownloadReply} (h : (downloadShards w.file shard numbers).2 = .ok rs) :
    ∀ i ∈ numbers, there (cStr (modelsDir ++
      buildShardFilename shard.base i shard.totalShards)) := by
  induction numbers generalizing rs with
  | nil => rintro _ ⟨⟩
  | cons i rest ih =>
      rw [downloadShards] at h
      dsimp only at h
      split_ifs at h with hfailed
      cases hrest : (downloadShards w.file shard rest).2 with
      | error e =>
          rw [hrest] at h
          cases h
      | ok rs' =>
          rw [DownloadReply.failed_eq] at hfailed
          exact List.forall_mem_cons.mpr
            ⟨hreal.fetched i _ (Bool.eq_false_iff.mpr hfailed), ih hrest⟩

/-- A shard that was not fetched is an error. -/
theorem isError_of_downloadShards {t : ℤ → FileTransfer} {shard : ShardInfo} {numbers : List ℤ}
    {i : ℤ} {r : DownloadReply} (h : (downloadShards t shard numbers).2 = .error (i, r)) :
    r.isError = true := by
  induction numbers with
  | nil => cases h
  | cons j rest ih =>
      rw [downloadShards] at h
      dsimp only at h
      split_ifs at h with hfailed
      · obtain ⟨-, rfl⟩ := Prod.mk.inj (Except.error.inj h)
        rwa [DownloadReply.failed_eq] at hfailed
      · cases hrest : (downloadShards t shard rest).2 with
        | ok rs =>
            rw [hrest] at h
            cases h
        | error e =>
            rw [hrest] at h
            exact ih (hrest.trans h)

/-- The reply for shards says that they are there only if they are. -/
theorem there_of_shardsReply {w : TransferWorld} {there : Text → Prop}
    (hreal : TransfersReal w there) {shard : ShardInfo} {filename path : Text}
    (h : SaysThere (shardsReply filename shard.totalShards
      (downloadShards w.file shard (shardNumbers shard.totalShards)).2) path) :
    path = modelsDir ++ filename ∧ ∀ i ∈ shardNumbers shard.totalShards,
      there (cStr (modelsDir ++ buildShardFilename shard.base i shard.totalShards)) := by
  cases hresult : (downloadShards w.file shard (shardNumbers shard.totalShards)).2 with
  | ok rs =>
      rw [hresult] at h
      exact ⟨(Json.str.inj (Option.some.inj h.path)).symm, there_of_downloadShards hreal hresult⟩
  | error e =>
      obtain ⟨i, r⟩ := e
      rw [hresult] at h
      have hobj : ∀ {key value r}, Json.isObject r = true →
          (withMember key value r).isObject = true := by
        intro key value r hr
        cases r with
        | obj ms => rfl
        | _ => exact nomatch hr
      have hr := isObject_downloadReply r
      have hstatus : (shardsReply filename shard.totalShards (.error (i, r))).find "status" =
          some (.str "error") := by
        rw [shardsReply, find_withMember _ _ _ _ (hobj (hobj hr)), if_neg (by decide),
          find_withMember _ _ _ _ (hobj hr), if_neg (by decide), find_withMember _ _ _ _ hr,
          if_neg (by decide), r.find_status,
          (r.status_eq_error_iff).mpr (isError_of_downloadShards hresult)]
      rcases h.status with h | h
      · exact absurd (Json.str.inj (Option.some.inj (hstatus.symm.trans h))) (by decide)
      · exact absurd (Json.str.inj (Option.some.inj (hstatus.symm.trans h))) (by decide)

/-- What the reply of a download from a repository relies on: all shards, or the only file. -/
def ReliedOn (there : Text → Prop) (filename : Text) (shard : ShardInfo) : Prop :=
  if 1 < shard.totalShards then ∀ i ∈ shardNumbers shard.totalShards,
    there (cStr (modelsDir ++ buildShardFilename shard.base i shard.totalShards))
  else there (cStr (modelsDir ++ filename))

theorem reliedOn_of_allPresent {w : TransferWorld} {there : Text → Prop}
    (hreal : TransfersReal w there) {filename : Text} {shard : ShardInfo}
    (h : allPresent w filename shard = true) : ReliedOn there filename shard := by
  rw [allPresent] at h
  rw [ReliedOn]
  split_ifs at h ⊢
  · exact fun i hi => hreal.present _ (List.all_eq_true.mp h i hi)
  · exact hreal.present _ h

theorem reliedOn_of_modelDownloadRepo {w : TransferWorld} {there : Text → Prop}
    (hreal : TransfersReal w there) {repoId filename path : Text} {reply : Json}
    (h : (modelDownloadRepo w repoId filename).2 = some reply) (hreported : SaysThere reply path) :
    ¬(repoId = [] ∨ filename = [] ∨ validateRepoId repoId = false ∨
      validateGgufFilename filename = false) ∧ path = modelsDir ++ filename ∧
      ∃ shard, parseShardFilename filename = some shard ∧ ReliedOn there filename shard := by
  rw [modelDownloadRepo] at h
  by_cases hnil : repoId = [] ∨ filename = []
  · rw [if_pos hnil] at h
    exact absurd (Option.some.inj h ▸ hreported) (not_saysThere_errorJson _ _)
  by_cases hrepo : validateRepoId repoId = false
  · rw [if_neg hnil, if_pos hrepo] at h
    exact absurd (Option.some.inj h ▸ hreported) (not_saysThere_errorJson _ _)
  by_cases hname : validateGgufFilename filename = false
  · rw [if_neg hnil, if_neg hrepo, if_pos hname] at h
    exact absurd (Option.some.inj h ▸ hreported) (not_saysThere_errorJson _ _)
  rw [if_neg hnil, if_neg hrepo, if_neg hname] at h
  rw [not_or] at hnil
  refine ⟨fun hbad => ?_, ?_⟩
  · rcases hbad with hbad | hbad | hbad | hbad
    exacts [hnil.1 hbad, hnil.2 hbad, hrepo hbad, hname hbad]
  cases hshard : parseShardFilename filename with
  | none =>
      rw [hshard] at h
      cases h
  | some shard =>
      rw [hshard] at h
      dsimp only at h
      split_ifs at h with hpresent hlibcurl hshards
      · obtain rfl := Option.some.inj h
        exact ⟨(Json.str.inj (Option.some.inj hreported.path)).symm, shard, rfl,
          reliedOn_of_allPresent hreal hpresent⟩
      · exact absurd (Option.some.inj h ▸ hreported) (not_saysThere_statusError _ _)
      · obtain rfl := Option.some.inj h
        obtain ⟨hpath, hthere⟩ := there_of_shardsReply hreal hreported
        exact ⟨hpath, shard, rfl, by rwa [ReliedOn, if_pos hshards]⟩
      · obtain rfl := Option.some.inj h
        have hfind := hreported.path
        rw [find_withMessage _ (isObject_downloadReply _) (by decide)] at hfind
        obtain ⟨rfl, hthere⟩ := there_of_downloadSingleFile hreal hfind
        exact ⟨rfl, shard, rfl, by rwa [ReliedOn, if_neg hshards]⟩

/-- The reply of a download from a URL relies on its file. -/
theorem there_of_direct {w : TransferWorld} {there : Text → Prop} (hreal : TransfersReal w there)
    {filename path : Text} (h : (downloadSingleFileDirect (w.file 1) filename).2.find "path" =
      some (.str path)) : path = modelsDir ++ filename ∧ there (cStr path) := by
  rw [downloadSingleFileDirect] at h
  cases hreply : (downloadSingleFile (w.file 1) filename).2 with
  | httpError code =>
      simp only [hreply] at h
      cases h
  | _ =>
      simp only [hreply] at h
      rw [← hreply] at h
      exact there_of_downloadSingleFile hreal h

/-! ### The requests -/

/-- What a valid name with a URL is answered. -/
theorem saysThere_of_direct {w : TransferWorld} {there : Text → Prop}
    (hreal : TransfersReal w there) {j : Json} {url path : Text} {reply : Json}
    (h : (modelDownloadDirect w j url).2 = some reply) (hreported : SaysThere reply path) :
    ∃ filename, requestedDirect j url = some filename ∧ path = modelsDir ++ filename ∧
      there (cStr path) := by
  rw [modelDownloadDirect] at h
  rw [requestedDirect]
  cases hgiven : j.value Json.getString "filename" [] with
  | none =>
      rw [hgiven] at h
      cases h
  | some given =>
      rw [hgiven] at h
      dsimp only at h ⊢
      generalize (if given = [] then _ else given) = filename at h ⊢
      by_cases hname : filename = [] ∨ validateGgufFilename filename = false
      · rw [if_pos hname] at h
        exact absurd (Option.some.inj h ▸ hreported) (not_saysThere_errorJson _ _)
      rw [if_neg hname] at h ⊢
      split_ifs at h
      · obtain rfl := Option.some.inj h
        have hfind := hreported.path
        rw [find_withMessage _ (isObject_downloadSingleFileDirect _ _) (by decide)] at hfind
        exact ⟨filename, rfl, there_of_direct hreal hfind⟩
      · exact absurd (Option.some.inj h ▸ hreported) (not_saysThere_statusError _ _)

theorem requestedRepo_eq_some_iff {j : Json} {filename : Text} :
    requestedRepo j = some filename ↔ ∃ repoId,
      j.value Json.getString "repo_id" [] = some repoId ∧
        j.value Json.getString "filename" [] = some filename ∧
          ¬(repoId = [] ∨ filename = [] ∨ validateRepoId repoId = false ∨
            validateGgufFilename filename = false) := by
  rw [requestedRepo]
  cases j.value Json.getString "repo_id" [] with
  | none => exact iff_of_false nofun fun ⟨_, h, _⟩ => nomatch h
  | some repoId =>
      cases j.value Json.getString "filename" [] with
      | none => exact iff_of_false nofun fun ⟨_, _, h, _⟩ => nomatch h
      | some given =>
          dsimp only
          split_ifs with hbad
          · refine iff_of_false nofun ?_
            rintro ⟨_, ⟨⟩, ⟨⟩, hvalid⟩
            exact hvalid hbad
          · constructor
            · rintro ⟨⟩
              exact ⟨repoId, rfl, rfl, hbad⟩
            · rintro ⟨_, ⟨⟩, ⟨⟩, -⟩
              rfl

/-- What a valid name is answered. -/
theorem saysThere_of_requestedFile {w : TransferWorld} {there : Text → Prop}
    (hreal : TransfersReal w there) {args path : Text} {reply : Json}
    (h : (handleModelDownload w args).2 = some reply) (hreported : SaysThere reply path) :
    ∃ direct filename, requestedFile args = some (direct, filename) ∧
      path = modelsDir ++ filename ∧ if direct then there (cStr path) else
        ∃ shard, parseShardFilename filename = some shard ∧ ReliedOn there filename shard := by
  rw [handleModelDownload] at h
  rw [requestedFile]
  cases hargs : Json.parse args with
  | none =>
      rw [hargs] at h
      exact absurd (Option.some.inj h ▸ hreported) (not_saysThere_errorJson _ _)
  | some j =>
      rw [hargs] at h
      dsimp only at h ⊢
      cases hurl : j.value Json.getString "url" [] with
      | none =>
          rw [hurl] at h
          cases h
      | some url =>
          rw [hurl] at h
          dsimp only at h ⊢
          by_cases hdirect : url ≠ []
          · rw [if_pos hdirect] at h ⊢
            obtain ⟨filename, hfile, hpath, hthere⟩ := saysThere_of_direct hreal h hreported
            exact ⟨true, filename, by rw [hfile]; rfl, hpath, hthere⟩
          · rw [if_neg hdirect] at h ⊢
            cases hrepoId : j.value Json.getString "repo_id" [] with
            | none =>
                rw [hrepoId] at h
                cases h
            | some repoId =>
                cases hfilename : j.value Json.getString "filename" [] with
                | none =>
                    rw [hrepoId, hfilename] at h
                    cases h
                | some filename =>
                    rw [hrepoId, hfilename] at h
                    obtain ⟨hvalid, hpath, hshard⟩ :=
                      reliedOn_of_modelDownloadRepo hreal h hreported
                    have hfile := requestedRepo_eq_some_iff.mpr ⟨repoId, hrepoId, hfilename, hvalid⟩
                    exact ⟨false, filename, by rw [hfile]; rfl, hpath, hshard⟩

/-- What a request for a file holds. -/
theorem requestedFile_spec {args filename : Text} {direct : Bool}
    (h : requestedFile args = some (direct, filename)) : ∃ j url, Json.parse args = some j ∧
      j.value Json.getString "url" [] = some url ∧ if direct then
        url ≠ [] ∧ requestedDirect j url = some filename
      else url = [] ∧ requestedRepo j = some filename := by
  rw [requestedFile] at h
  cases hargs : Json.parse args with
  | none =>
      rw [hargs] at h
      cases h
  | some j =>
      rw [hargs] at h
      dsimp only at h
      cases hurl : j.value Json.getString "url" [] with
      | none =>
          rw [hurl] at h
          cases h
      | some url =>
          rw [hurl] at h
          dsimp only at h
          refine ⟨j, url, rfl, hurl, ?_⟩
          split_ifs at h with hdirect
          · obtain ⟨_, hfile, heq⟩ := Option.map_eq_some_iff.mp h
            obtain ⟨rfl, rfl⟩ := Prod.mk.inj heq
            exact ⟨hdirect, hfile⟩
          · obtain ⟨_, hfile, heq⟩ := Option.map_eq_some_iff.mp h
            obtain ⟨rfl, rfl⟩ := Prod.mk.inj heq
            exact ⟨not_not.mp hdirect, hfile⟩

theorem handleModelDownload_repo {args filename : Text}
    (h : requestedFile args = some (false, filename)) : ∃ repoId,
      ¬(repoId = [] ∨ filename = [] ∨ validateRepoId repoId = false ∨
        validateGgufFilename filename = false) ∧
      ∀ w, handleModelDownload w args = modelDownloadRepo w repoId filename := by
  obtain ⟨j, url, hargs, hurl, hnil, hfile⟩ := requestedFile_spec h
  obtain ⟨repoId, hrepoId, hgiven, hvalid⟩ := requestedRepo_eq_some_iff.mp hfile
  refine ⟨repoId, hvalid, fun w => ?_⟩
  rw [handleModelDownload, hargs]
  simp only [hurl, if_neg (not_not.mpr hnil), hrepoId, hgiven]

theorem modelDownloadDirect_of_requested {j : Json} {url filename : Text}
    (h : requestedDirect j url = some filename) {w : TransferWorld}
    (hlibcurl : w.haveLibcurl = true) : (modelDownloadDirect w j url).2 =
      some (withMessage "Model downloaded from direct URL. Restart to load it."
        (downloadSingleFileDirect (w.file 1) filename).2) := by
  rw [requestedDirect] at h
  rw [modelDownloadDirect]
  cases hgiven : j.value Json.getString "filename" [] with
  | none =>
      rw [hgiven] at h
      cases h
  | some given =>
      rw [hgiven] at h
      dsimp only at h ⊢
      generalize (if given = [] then _ else given) = filename' at h ⊢
      split_ifs at h with hbad
      obtain rfl := Option.some.inj h
      rw [if_neg hbad, if_pos hlibcurl]

theorem handleModelDownload_direct {args filename : Text}
    (h : requestedFile args = some (true, filename)) {w : TransferWorld}
    (hlibcurl : w.haveLibcurl = true) : (handleModelDownload w args).2 =
      some (withMessage "Model downloaded from direct URL. Restart to load it."
        (downloadSingleFileDirect (w.file 1) filename).2) := by
  obtain ⟨j, url, hargs, hurl, hne, hfile⟩ := requestedFile_spec h
  rw [handleModelDownload, hargs]
  simp only [hurl, if_pos hne]
  exact modelDownloadDirect_of_requested hfile hlibcurl

/-! ### When the reports can be relied on -/

/-- A world in which just some files are there. -/
def presentWorld (files : List Text) : TransferWorld where
  haveLibcurl := true
  active := false
  present path := decide (path ∈ files)
  file _ :=
    { readable := fun path => decide (path ∈ files), size := fun _ => 0, opens := fun _ => false,
      inits := false, curl := .done 200 0, renameError := fun _ => some [],
      canOpen := canBeFile_of_false, canRename := canBeFile_of_some_eq_none }
  partitions := []
  usbFiles _ := none
  freeMb := 0
  usbReads := false
  usbOpens _ := false
  copied := 0
  canOpen := canBeFile_of_false

theorem downloadSingleFile_presentWorld (files : List Text) (i : ℤ) (filename : Text) :
    (downloadSingleFile ((presentWorld files).file i) filename).2 =
      if cStr (modelsDir ++ filename) ∈ files then .alreadyExists (modelsDir ++ filename)
      else .cannotWrite := by
  have hopens : ((presentWorld files).file i).opens (cStr (modelsDir ++ filename ++ ".part")) =
      false := rfl
  rw [downloadSingleFile]
  dsimp only
  by_cases h : cStr (modelsDir ++ filename) ∈ files
  · have hreadable : ((presentWorld files).file i).readable (cStr (modelsDir ++ filename)) = true :=
      decide_eq_true h
    rw [if_pos hreadable, if_pos h]
  · have hreadable :
        ¬((presentWorld files).file i).readable (cStr (modelsDir ++ filename)) = true :=
      fun hr => h (of_decide_eq_true hr)
    rw [if_neg hreadable, if_pos hopens, if_neg h]

theorem transfersReal_presentWorld (files : List Text) :
    TransfersReal (presentWorld files) (· ∈ files) where
  present _ h := of_decide_eq_true h
  fetched i filename h := by
    rw [downloadSingleFile_presentWorld] at h
    split_ifs at h with hmem
    · exact hmem
    · exact nomatch h

theorem cStr_modelsDir_inj {a b : Text} (h : cStr (modelsDir ++ a) = cStr (modelsDir ++ b)) :
    cStr a = cStr b := by
  rw [cStr_modelsDir, cStr_modelsDir] at h
  exact List.append_cancel_left h

theorem mem_shardNumbers {total i : ℤ} : i ∈ shardNumbers total ↔ 1 ≤ i ∧ i ≤ total := by
  simp only [shardNumbers, List.mem_map, List.pure_def, List.bind_eq_flatMap, List.mem_flatMap,
    List.mem_singleton, List.mem_range]
  constructor
  · rintro ⟨_, ⟨n, hlt, rfl⟩, rfl⟩
    omega
  · exact fun h => ⟨i - 1, ⟨(i - 1).toNat, by omega, by omega⟩, by omega⟩

/-- A report for a URL is made when its file is there. -/
theorem namesItself_of_direct {args filename : Text} {shard : ShardInfo}
    (hreports : ReportsFiles args) (hfile : requestedFile args = some (true, filename))
    (hshard : parseShardFilename filename = some shard) : NamesItself true filename shard := by
  have hreply : (downloadSingleFileDirect ((presentWorld [cStr (modelsDir ++ filename)]).file 1)
      filename).2 = (DownloadReply.alreadyExists (modelsDir ++ filename)).json := by
    have hsingle := downloadSingleFile_presentWorld [cStr (modelsDir ++ filename)] 1 filename
    rw [if_pos List.mem_cons_self] at hsingle
    rw [downloadSingleFileDirect]
    simp only [hsingle]
  have hthere := hreports _ _ (transfersReal_presentWorld [cStr (modelsDir ++ filename)]) _
    (modelsDir ++ filename) (handleModelDownload_direct hfile rfl)
    (by rw [hreply]; exact ⟨Or.inr rfl, rfl⟩)
  rw [NamesItself, if_pos rfl]
  intro i hi
  exact cStr_modelsDir_inj (List.mem_singleton.mp (hthere.shards filename shard rfl hshard i hi))

/-- A request for files that are all there. -/
theorem modelDownloadRepo_of_allPresent {w : TransferWorld} {repoId filename : Text}
    {shard : ShardInfo} (hvalid : ¬(repoId = [] ∨ filename = [] ∨ validateRepoId repoId = false ∨
      validateGgufFilename filename = false))
    (hshard : parseShardFilename filename = some shard)
    (hpresent : allPresent w filename shard = true) :
    (modelDownloadRepo w repoId filename).2 = some (.object [
      ("status".toList, .str "already_exists"), ("path".toList, .str (modelsDir ++ filename)),
      ("message".toList, .str "Model already downloaded")]) := by
  simp only [not_or] at hvalid
  rw [modelDownloadRepo, if_neg (not_or.mpr ⟨hvalid.1, hvalid.2.1⟩), if_neg hvalid.2.2.1,
    if_neg hvalid.2.2.2, hshard]
  dsimp only
  rw [if_pos hpresent]

/-- A report for a repository is made when all files are there that it relies on. -/
theorem namesItself_of_repo {args filename : Text} {shard : ShardInfo}
    (hreports : ReportsFiles args) (hfile : requestedFile args = some (false, filename))
    (hshard : parseShardFilename filename = some shard) : NamesItself false filename shard := by
  obtain ⟨repoId, hvalid, hhandle⟩ := handleModelDownload_repo hfile
  let files := (modelFiles filename shard).map fun name => cStr (modelsDir ++ name)
  have hpresent : allPresent (presentWorld files) filename shard = true := by
    dsimp only [files]
    rw [allPresent, modelFiles]
    split_ifs
    · rw [List.all_eq_true]
      exact fun i hi => decide_eq_true (List.mem_map_of_mem (List.mem_map_of_mem hi))
    · exact decide_eq_true List.mem_cons_self
  have hreply := modelDownloadRepo_of_allPresent hvalid hshard hpresent
  rw [← hhandle] at hreply
  have hthere := hreports _ _ (transfersReal_presentWorld files) _ (modelsDir ++ filename) hreply
    ⟨Or.inr rfl, rfl⟩
  rw [NamesItself, if_neg Bool.false_ne_true]
  intro htotal
  by_cases hshards : 1 < shard.totalShards
  · obtain ⟨name, hname, heq⟩ := List.mem_map.mp hthere.file
    rw [modelFiles, if_pos hshards] at hname
    obtain ⟨i, hi, rfl⟩ := List.mem_map.mp hname
    exact ⟨i, hi, cStr_modelsDir_inj heq⟩
  · have hone : 1 ∈ shardNumbers shard.totalShards := mem_shardNumbers.mpr ⟨Int.le_refl 1, htotal⟩
    obtain ⟨name, hname, heq⟩ := List.mem_map.mp
      (hthere.shards filename shard rfl hshard 1 hone)
    rw [modelFiles, if_neg hshards, List.mem_singleton] at hname
    exact ⟨1, hone, by rw [← hname]; exact (cStr_modelsDir_inj heq).symm⟩

/-- What a report relies on makes it true if the name is itself that of a shard. -/
theorem modelThere_of_namesItself {there : Text → Prop} {direct : Bool} {filename : Text}
    (hthere : if direct then there (cStr (modelsDir ++ filename)) else
      ∃ shard, parseShardFilename filename = some shard ∧ ReliedOn there filename shard)
    (hnames : ∀ shard, parseShardFilename filename = some shard →
      NamesItself direct filename shard) : ModelThere there (modelsDir ++ filename) := by
  have hsame {name : Text} (h : cStr name = cStr filename) :
      cStr (modelsDir ++ name) = cStr (modelsDir ++ filename) := by
    rw [cStr_modelsDir, cStr_modelsDir, h]
  cases direct with
  | true =>
      rw [if_pos rfl] at hthere
      refine ⟨hthere, fun name shard hname hshard i hi => ?_⟩
      obtain rfl := List.append_cancel_left hname
      have hall := hnames shard hshard
      rw [NamesItself, if_pos rfl] at hall
      rwa [hsame (hall i hi)]
  | false =>
      rw [if_neg Bool.false_ne_true] at hthere
      obtain ⟨shard, hshard, hrelied⟩ := hthere
      have hone := hnames shard hshard
      rw [NamesItself, if_neg Bool.false_ne_true] at hone
      rw [ReliedOn] at hrelied
      by_cases hshards : 1 < shard.totalShards
      · rw [if_pos hshards] at hrelied
        obtain ⟨i, hi, heq⟩ := hone (by omega)
        refine ⟨hsame heq ▸ hrelied i hi, fun name shard' hname hshard' => ?_⟩
        obtain rfl := List.append_cancel_left hname
        obtain rfl := Option.some.inj (hshard.symm.trans hshard')
        exact hrelied
      · rw [if_neg hshards] at hrelied
        refine ⟨hrelied, fun name shard' hname hshard' j hj => ?_⟩
        obtain rfl := List.append_cancel_left hname
        obtain rfl := Option.some.inj (hshard.symm.trans hshard')
        have hj := mem_shardNumbers.mp hj
        obtain ⟨i, hi, heq⟩ := hone (by omega)
        have hi := mem_shardNumbers.mp hi
        obtain rfl : i = j := by omega
        rwa [hsame heq]

/-- **A report can be relied on** exactly when the name that is asked for is itself one of the names
that are built for the shards of its model, and for a URL the only one. -/
theorem reportsFiles_iff (args : Text) : ReportsFiles args ↔
    ∀ direct filename shard, requestedFile args = some (direct, filename) →
      parseShardFilename filename = some shard → NamesItself direct filename shard := by
  constructor
  · intro hreports direct filename shard hfile hshard
    cases direct with
    | true => exact namesItself_of_direct hreports hfile hshard
    | false => exact namesItself_of_repo hreports hfile hshard
  · intro hnames w there hreal reply path hreply hreported
    obtain ⟨direct, filename, hfile, rfl, hthere⟩ :=
      saysThere_of_requestedFile hreal hreply hreported
    refine modelThere_of_namesItself hthere fun shard hshard =>
      hnames direct filename shard hfile hshard

/-- The shards are looked for under other names than the one that is reported. -/
theorem not_reportsFiles : ¬∀ args, ReportsFiles args := fun h => by
  have hnames : NamesItself false "model-1-of-2.gguf" ⟨"model", 1, 2⟩ := namesItself_of_repo
    (h "\x7b\"repo_id\":\"org/repo\",\"filename\":\"model-1-of-2.gguf\"\x7d")
    (by decide +kernel) (by decide +kernel)
  rw [NamesItself, if_neg Bool.false_ne_true] at hnames
  exact absurd (hnames (by decide)) (by decide +kernel)

end Llamaste
