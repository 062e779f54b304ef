import Mathlib
import Llamaste.Lib.Threads
import Llamaste.ModelFiles

/-!
# The background download

A call tests that no download is active, sets `active`, resets the record, parses the name, and
starts a worker, which fetches the file or its shards one after the other. Calls come from any
number of threads, and the test and the setting are separate steps. An exception in a worker ends
the process. Source: `tools_model_download.cpp`.

## Main results

* `downloadTold_of_along`: when calls come to the test one at a time, their names can be parsed,
  their workers can be started and no download of a single file answers with an error, the next
  download can be started when none runs, and the record tells how the last one ended.
* `not_downloadTold`: a number of shards that is no `int` leaves `active` set.
* `not_downloadTold_single`: the error of a single file is not reported.
-/

namespace Llamaste

/-! ### Calls and workers -/

/-- What `download_single_file` does: what its callback has stored last, if it is called, and what
it answers. -/
structure DownloadAnswer where
  progress : Option (ℕ × ℕ) := none
  reply : DownloadReply

/-- A call, what the downloads of its worker do (an exception is `none`), and whether its worker
can be started. -/
structure DownloadCall where
  filename : Text
  modelName : Text
  fetch : Text → Option DownloadAnswer
  spawns : Bool

/-- `GlobalDownloadState`, and whether the process has ended. A text of a result is kept as the
value that it is the dump of. -/
structure DownloadState where
  down : Bool := false
  active : Bool := false
  finished : Bool := false
  currentFileDownloaded : ℕ := 0
  currentFileTotal : ℕ := 0
  currentShard : ℤ := 0
  totalShards : ℤ := 0
  completedBytes : ℕ := 0
  modelName : Text := []
  filename : Text := []
  result : Option Json := none
  error : Text := []

/-- What `get_download_progress` returns; `result` is a member only when finished, and `error`
only when there is one. -/
structure DownloadProgress where
  active : Bool
  finished : Bool
  currentShard : ℤ
  totalShards : ℤ
  currentFileBytes : ℕ
  currentFileTotal : ℕ
  completedBytes : ℕ
  totalDownloadedBytes : ℕ
  totalDownloadedHuman : Text
  modelName : Text
  filename : Text
  result : Option (Option Json)
  error : Option Text

/-- `get_download_progress`. -/
def getDownloadProgress (g : DownloadState) : DownloadProgress :=
  let total := (g.completedBytes + g.currentFileDownloaded) % 2 ^ 64
  { active := g.active
    finished := g.finished
    currentShard := g.currentShard
    totalShards := g.totalShards
    currentFileBytes := g.currentFileDownloaded
    currentFileTotal := g.currentFileTotal
    completedBytes := g.completedBytes
    totalDownloadedBytes := total
    totalDownloadedHuman := formatBytes total
    modelName := g.modelName
    filename := g.filename
    result := if g.finished then some g.result else none
    error := if g.error = [] then none else some g.error }

/-- Where a call stands, and its worker after it. -/
inductive DownloadPc
  | waiting
  | refused
  | admitted
  | marked
  | lowered
  | named
  | thrown
  | parsed (shard : ShardInfo)
  | unavailable
  | sharding (shard : ShardInfo) (i : ℤ) (totalBytes : ℕ)
  | single
  | stored
  | finishing
  | ended
  deriving DecidableEq

namespace DownloadPc

/-- The worker runs. -/
def working : DownloadPc → Bool
  | unavailable | sharding _ _ _ | single | stored | finishing => true
  | _ => false

/-- The call is in progress past the test, or its worker runs. -/
def busy : DownloadPc → Bool
  | admitted | marked | lowered | named | parsed _ => true
  | pc => pc.working

/-- The call has not passed the test, or its worker has ended. -/
def outside : DownloadPc → Bool
  | waiting | refused | ended => true
  | _ => false

end DownloadPc

namespace DownloadState

/-- `finished` and the counters are reset. -/
def lower (g : DownloadState) : DownloadState :=
  { g with
    finished := false, currentFileDownloaded := 0, currentFileTotal := 0, currentShard := 0
    totalShards := 0, completedBytes := 0 }

/-- The names are set and the texts cleared. -/
def rename (g : DownloadState) (call : DownloadCall) : DownloadState :=
  { g with modelName := call.modelName, filename := call.filename, result := none, error := [] }

/-- What the callback of a download has stored. -/
def progressed (g : DownloadState) (a : DownloadAnswer) : DownloadState :=
  match a.progress with
  | some (downloaded, total) =>
      { g with currentFileDownloaded := downloaded, currentFileTotal := total }
  | none => g

/-- A result and the text of its error are stored. -/
def store (g : DownloadState) (result : Json) (error : Text) : DownloadState :=
  { g with result := some result, error }

/-- An exception leaves a thread. -/
def terminate (g : DownloadState) : DownloadState := { g with down := true }

end DownloadState

/-- The result when all shards are there. -/
def allShards (shards : ℤ) (totalBytes : ℕ) : Json :=
  .object [("status".toList, .str "success"), ("shards".toList, .int shards),
    ("total_size_bytes".toList, .int totalBytes),
    ("total_size_human".toList, .str (formatBytes totalBytes)),
    ("message".toList, .str "All shards downloaded. Restart to load model.")]

/-- The result of a build without `libcurl`. -/
def withoutLibcurl : Json :=
  .object [("status".toList, .str "error"), ("error".toList, .str "libcurl not available")]

/-- The worker of a call for shards, at shard `i`. -/
def shardStep (call : DownloadCall) (g : DownloadState) (shard : ShardInfo) (i : ℤ)
    (totalBytes : ℕ) : DownloadState × DownloadPc :=
  if i ≤ shard.totalShards then
    let g := { g with currentShard := i, currentFileDownloaded := 0, currentFileTotal := 0 }
    match call.fetch (buildShardFilename shard.base i shard.totalShards) with
    | none => (g.terminate, .ended)
    | some a =>
      let g := g.progressed a
      if a.reply.failed then (g.store a.reply.json a.reply.error, .stored)
      else
        let totalBytes := (totalBytes + a.reply.sizeBytes) % 2 ^ 64
        ({ g with completedBytes := totalBytes }, .sharding shard (i + 1) totalBytes)
  else (g.store (allShards shard.totalShards totalBytes) g.error, .stored)

/-- The worker of a call for a single file. -/
def singleStep (call : DownloadCall) (g : DownloadState) : DownloadState × DownloadPc :=
  let g := { g with currentShard := 1, totalShards := 1 }
  match call.fetch call.filename with
  | none => (g.terminate, .ended)
  | some a => ((g.progressed a).store a.reply.json g.error, .stored)

variable (haveLibcurl : Bool)

/-- One step of `start_async_download`, and then of its worker. -/
def downloadMove (call : DownloadCall) (g : DownloadState) :
    DownloadPc → DownloadState × DownloadPc
  | .waiting => if g.active then (g, .refused) else (g, .admitted)
  | .admitted => ({ g with active := true }, .marked)
  | .marked => (g.lower, .lowered)
  | .lowered => (g.rename call, .named)
  | .named =>
    match parseShardFilename call.filename with
    | none => (g, .thrown)
    | some shard =>
      ({ g with totalShards := if 1 < shard.totalShards then shard.totalShards else 1 },
        .parsed shard)
  | .parsed shard =>
    if call.spawns then
      if haveLibcurl then
        if 1 < shard.totalShards then (g, .sharding shard 1 0) else (g, .single)
      else (g, .unavailable)
    else (g, .thrown)
  | .unavailable => (g.store withoutLibcurl "libcurl not available", .stored)
  | .sharding shard i totalBytes => shardStep call g shard i totalBytes
  | .single => singleStep call g
  | .stored => ({ g with finished := true }, .finishing)
  | .finishing => ({ g with active := false }, .ended)
  | pc => (g, pc)

variable {ι : Type*} (calls : ι → DownloadCall)

/-- One step of a thread. -/
def downloadAct (i : ι) (s : DownloadState × DownloadPc) : DownloadState × DownloadPc :=
  if s.1.down then s else downloadMove haveLibcurl (calls i) s.1 s.2

/-- Before the first call. -/
def downloadStart : DownloadState × (ι → DownloadPc) := ({}, fun _ => .waiting)

/-- The stored result has status `error`. -/
def DownloadState.Failed (g : DownloadState) : Prop :=
  ∃ result, g.result = some result ∧ result.find "status" = some (.str "error")

/-- At most one worker runs; when none runs and no call is in progress, `active` is false and the
next call passes the test; and when finished, an error is reported exactly when the result is
one. -/
structure DownloadTold (s : DownloadState × (ι → DownloadPc)) : Prop where
  one : ∀ i j, (s.2 i).working = true → (s.2 j).working = true → i = j
  free : (∀ i, (s.2 i).busy = false) → s.1.active = false
  starts : (∀ i, (s.2 i).busy = false) → ∀ i,
    downloadAct haveLibcurl calls i (s.1, .waiting) = (s.1, .admitted)
  told : s.1.finished = true → ((getDownloadProgress s.1).error.isSome = true ↔ s.1.Failed)

/-- What the next step of a call needs: it comes to the test when no other one is between the test
and setting `active`; its name can be parsed; its worker can be started; and the download of a
single file is no error. -/
def ReliableAt (s : DownloadState × (ι → DownloadPc)) (call : DownloadCall) : DownloadPc → Prop
  | .waiting => ∀ j, s.2 j ≠ .admitted
  | .named => (parseShardFilename call.filename).isSome = true
  | .parsed _ => call.spawns = true
  | .single => ∀ a ∈ call.fetch call.filename, a.reply.isError = false
  | _ => True

/-- Every step of a call is reliable. -/
def Reliable (s : DownloadState × (ι → DownloadPc)) (i : ι) : Prop :=
  ReliableAt s (calls i) (s.2 i)

instance [Fintype ι] (s : DownloadState × (ι → DownloadPc)) (call : DownloadCall) :
    ∀ pc, Decidable (ReliableAt s call pc)
  | .waiting => inferInstanceAs (Decidable (∀ j, s.2 j ≠ .admitted))
  | .named => inferInstanceAs (Decidable (_ = true))
  | .parsed _ => inferInstanceAs (Decidable (_ = true))
  | .single => inferInstanceAs (Decidable (∀ a ∈ call.fetch call.filename, _))
  | .refused | .admitted | .marked | .lowered | .thrown | .unavailable | .sharding _ _ _ | .stored
  | .finishing | .ended => isTrue trivial

instance [Fintype ι] (s : DownloadState × (ι → DownloadPc)) (i : ι) :
    Decidable (Reliable calls s i) :=
  inferInstanceAs (Decidable (ReliableAt s (calls i) (s.2 i)))

/-! ### One download at a time -/

namespace DownloadState

/-- There is an error text exactly when the stored result is an error. -/
def Matches (g : DownloadState) : Prop := g.error ≠ [] ↔ g.Failed

/-- The record, once finished, tells how the download ended. -/
def Tells (g : DownloadState) : Prop := g.finished = true → g.Matches

theorem isSome_error_iff (g : DownloadState) :
    (getDownloadProgress g).error.isSome = true ↔ g.error ≠ [] := by
  rw [getDownloadProgress]
  by_cases h : g.error = []
  · rw [if_pos h]
    exact iff_of_false nofun (not_not_intro h)
  · rw [if_neg h]
    exact iff_of_true rfl h

theorem failed_store_iff {g : DownloadState} {r : DownloadReply} {error : Text} :
    (g.store r.json error).Failed ↔ r.isError = true := by
  rw [← DownloadReply.status_eq_error_iff]
  constructor
  · rintro ⟨result, hresult, hstatus⟩
    obtain rfl : r.json = result := Option.some.inj hresult
    rw [r.find_status] at hstatus
    exact Json.str.inj (Option.some.inj hstatus)
  · intro h
    exact ⟨r.json, rfl, h ▸ r.find_status⟩

/-- What is stored for a failed shard. -/
theorem matches_store_error {g : DownloadState} {r : DownloadReply} (h : r.isError = true) :
    (g.store r.json r.error).Matches :=
  iff_of_true (DownloadReply.error_ne_nil h) (failed_store_iff.mpr h)

/-- What is stored for a single file that is there. -/
theorem matches_store_single {g : DownloadState} {r : DownloadReply} (h : r.isError = false) :
    (g.store r.json []).Matches := by
  refine iff_of_false (not_not_intro rfl) fun hfailed => ?_
  rw [failed_store_iff, h] at hfailed
  exact nomatch hfailed

theorem matches_store_allShards (g : DownloadState) (shards : ℤ) (totalBytes : ℕ) :
    (g.store (allShards shards totalBytes) []).Matches := by
  refine iff_of_false (not_not_intro rfl) ?_
  rintro ⟨result, hresult, hstatus⟩
  obtain rfl : allShards shards totalBytes = result := Option.some.inj hresult
  have hne : "success".toList = "error".toList := Json.str.inj (Option.some.inj hstatus)
  exact absurd hne (by decide)

theorem matches_store_withoutLibcurl (g : DownloadState) :
    (g.store withoutLibcurl "libcurl not available").Matches :=
  iff_of_true (List.cons_ne_nil _ _) ⟨withoutLibcurl, rfl, rfl⟩

/-- No download is active, and the record is in order. -/
def Idle (g : DownloadState) : Prop := g.down = true ∨ (g.active = false ∧ g.Tells)

/-- What the record is while one call is past the test, or its worker runs. -/
def OwnedBy (g : DownloadState) (pc : DownloadPc) : Prop :=
  g.down = false ∧ match pc with
  | .admitted => g.active = false ∧ g.Tells
  | .marked => g.active = true ∧ g.Tells
  | .lowered => g.active = true ∧ g.finished = false
  | .named | .parsed _ | .unavailable | .sharding _ _ _ | .single =>
      g.active = true ∧ g.finished = false ∧ g.error = []
  | .stored => g.active = true ∧ g.finished = false ∧ g.Matches
  | .finishing => g.active = true ∧ g.Matches
  | _ => False

theorem progressed_eq (g : DownloadState) (a : DownloadAnswer) :
    (g.progressed a).down = g.down ∧ (g.progressed a).active = g.active ∧
      (g.progressed a).finished = g.finished ∧ (g.progressed a).error = g.error := by
  rw [progressed]
  split <;> exact ⟨rfl, rfl, rfl, rfl⟩

end DownloadState

variable {haveLibcurl calls}

/-- Where a worker is left: it goes on, or the process has ended. -/
def DownloadState.LeftBy (g : DownloadState) (pc : DownloadPc) : Prop :=
  (g.Idle ∧ pc.outside = true) ∨ g.OwnedBy pc

theorem DownloadState.leftBy_terminate (g : DownloadState) : g.terminate.LeftBy .ended :=
  .inl ⟨.inl rfl, rfl⟩

theorem leftBy_shardStep {call : DownloadCall} {g : DownloadState} {shard : ShardInfo} {i : ℤ}
    {totalBytes : ℕ} (h : g.OwnedBy (.sharding shard i totalBytes)) :
    (shardStep call g shard i totalBytes).1.LeftBy (shardStep call g shard i totalBytes).2 := by
  obtain ⟨hup, hactive, hfinished, herror⟩ := h
  rw [shardStep]
  split_ifs with hi
  · dsimp only
    cases hfetch : call.fetch (buildShardFilename shard.base i shard.totalShards) with
    | none => exact DownloadState.leftBy_terminate _
    | some a =>
      dsimp only
      obtain ⟨hup', hactive', hfinished', herror'⟩ := DownloadState.progressed_eq
        { g with currentShard := i, currentFileDownloaded := 0, currentFileTotal := 0 } a
      rw [DownloadReply.failed_eq]
      split_ifs with hreply
      · exact .inr ⟨hup'.trans hup, hactive'.trans hactive, hfinished'.trans hfinished,
          DownloadState.matches_store_error hreply⟩
      · exact .inr ⟨hup'.trans hup, hactive'.trans hactive, hfinished'.trans hfinished,
          herror'.trans herror⟩
  · refine .inr ⟨hup, hactive, hfinished, ?_⟩
    rw [herror]
    exact DownloadState.matches_store_allShards g _ _

theorem leftBy_singleStep {call : DownloadCall} {g : DownloadState} (h : g.OwnedBy .single)
    (hreply : ∀ a ∈ call.fetch call.filename, a.reply.isError = false) :
    (singleStep call g).1.LeftBy (singleStep call g).2 := by
  obtain ⟨hup, hactive, hfinished, herror⟩ := h
  rw [singleStep]
  dsimp only
  cases hfetch : call.fetch call.filename with
  | none => exact DownloadState.leftBy_terminate _
  | some a =>
    obtain ⟨hup', hactive', hfinished', -⟩ :=
      DownloadState.progressed_eq { g with currentShard := 1, totalShards := 1 } a
    refine .inr ⟨hup'.trans hup, hactive'.trans hactive, hfinished'.trans hfinished, ?_⟩
    rw [herror]
    exact DownloadState.matches_store_single (hreply a hfetch)

/-- The call that is past the test goes on with the record in its hands. -/
theorem leftBy_downloadMove {s : DownloadState × (ι → DownloadPc)} {i : ι}
    (hreliable : Reliable calls s i) (h : s.1.OwnedBy (s.2 i)) :
    (downloadMove haveLibcurl (calls i) s.1 (s.2 i)).1.LeftBy
      (downloadMove haveLibcurl (calls i) s.1 (s.2 i)).2 := by
  rw [Reliable] at hreliable
  generalize s.2 i = pc at h hreliable
  cases pc with
  | admitted => exact .inr ⟨h.1, rfl, h.2.2⟩
  | marked => exact .inr ⟨h.1, h.2.1, rfl⟩
  | lowered => exact .inr ⟨h.1, h.2.1, h.2.2, rfl⟩
  | named =>
    obtain ⟨shard, hshard⟩ := Option.isSome_iff_exists.mp hreliable
    rw [downloadMove, hshard]
    exact .inr h
  | parsed shard =>
    have hspawns : (calls i).spawns = true := hreliable
    rw [downloadMove, if_pos hspawns]
    split_ifs
    · exact .inr h
    · exact .inr h
    · exact .inr h
  | unavailable => exact .inr ⟨h.1, h.2.1, h.2.2.1, DownloadState.matches_store_withoutLibcurl _⟩
  | sharding shard j totalBytes => exact leftBy_shardStep h
  | single => exact leftBy_singleStep h hreliable
  | stored => exact .inr ⟨h.1, h.2.1, h.2.2.2⟩
  | finishing => exact .inl ⟨.inr ⟨rfl, fun _ => h.2.2⟩, rfl⟩
  | _ => exact h.2.elim

/-- A call that has not passed the test stays there, or passes it because nothing is active. -/
theorem downloadMove_outside (haveLibcurl : Bool) (call : DownloadCall) {g : DownloadState}
    {pc : DownloadPc} (h : pc.outside = true) :
    (downloadMove haveLibcurl call g pc).1 = g ∧
      ((downloadMove haveLibcurl call g pc).2.outside = true ∨
        pc = .waiting ∧ g.active = false ∧
          (downloadMove haveLibcurl call g pc).2 = .admitted) := by
  cases pc with
  | waiting =>
    rw [downloadMove]
    cases g.active with
    | true => exact ⟨rfl, .inl rfl⟩
    | false => exact ⟨rfl, .inr ⟨rfl, rfl, rfl⟩⟩
  | refused => exact ⟨rfl, .inl rfl⟩
  | ended => exact ⟨rfl, .inl rfl⟩
  | _ => exact nomatch h

/-- Past the test, and once `active` is set, it stays set. -/
theorem DownloadState.OwnedBy.active {g : DownloadState} {pc : DownloadPc} (h : g.OwnedBy pc)
    (hne : pc ≠ .admitted) : g.active = true := by
  cases pc with
  | admitted => exact absurd rfl hne
  | waiting => exact h.2.elim
  | refused => exact h.2.elim
  | thrown => exact h.2.elim
  | ended => exact h.2.elim
  | _ => exact h.2.1

/-- Either no call is past the test, or one is. -/
def DownloadPhase : DownloadState × (ι → DownloadPc) → Prop :=
  Threads.OneOwner DownloadState.Idle (·.outside = true)
    fun _ => DownloadState.OwnedBy

variable [DecidableEq ι]

theorem DownloadPhase.step {s : DownloadState × (ι → DownloadPc)} {i : ι}
    (hreliable : Reliable calls s i) (h : DownloadPhase s) :
    DownloadPhase (Threads.step (downloadAct haveLibcurl calls) s i) := by
  refine Threads.OneOwner.step h (fun hidle hout => ?_) (fun howned => ?_)
    fun k hki howned hout => ?_
  · rw [downloadAct]
    split_ifs with hdown
    · exact .inl ⟨hidle, hout⟩
    · obtain ⟨hactive, htells⟩ := hidle.resolve_left hdown
      obtain ⟨hsame, hpc | ⟨-, -, hpc⟩⟩ :=
        downloadMove_outside haveLibcurl (calls i) (g := s.1) hout
      · rw [hsame]
        exact .inl ⟨hidle, hpc⟩
      · rw [hsame, hpc]
        exact .inr ⟨Bool.eq_false_iff.mpr hdown, hactive, htells⟩
  · rw [downloadAct, if_neg (Bool.eq_false_iff.mp howned.1)]
    exact leftBy_downloadMove hreliable howned
  · rw [downloadAct, if_neg (Bool.eq_false_iff.mp howned.1)]
    rw [Reliable] at hreliable
    obtain ⟨hsame, hpc | ⟨hwaiting, hactive, -⟩⟩ :=
      downloadMove_outside haveLibcurl (calls i) (g := s.1) hout
    · rw [hsame]
      exact ⟨hpc, howned⟩
    · rw [hwaiting] at hreliable
      rw [howned.active (hreliable k)] at hactive
      exact nomatch hactive

/-! ### What the record tells -/

theorem DownloadPc.not_outside_of_working {pc : DownloadPc} (h : pc.working = true) :
    ¬ pc.outside = true := by
  cases pc <;> first | exact Bool.false_ne_true | exact nomatch h

namespace DownloadPhase

variable {s : DownloadState × (ι → DownloadPc)}

omit [DecidableEq ι]

theorem active_eq_false (h : DownloadPhase s) (hup : s.1.down = false)
    (hbusy : ∀ i, (s.2 i).busy = false) : s.1.active = false := by
  have hidle : s.1.Idle := by
    refine Threads.OneOwner.free h fun k howned => ?_
    have hk := hbusy k
    generalize s.2 k = pc at howned hk
    cases pc with
    | waiting => exact howned.2
    | refused => exact howned.2
    | thrown => exact howned.2
    | ended => exact howned.2
    | _ => exact nomatch hk
  exact (hidle.resolve_left (Bool.eq_false_iff.mp hup)).1

theorem tells (h : DownloadPhase s) (hup : s.1.down = false) : s.1.Tells := by
  intro hfinished
  rcases h with ⟨hidle, -⟩ | ⟨k, -, howned⟩
  · exact (hidle.resolve_left (Bool.eq_false_iff.mp hup)).2 hfinished
  · have hbusy : ∀ {P : Prop}, s.1.finished = false ∧ P → s.1.Matches := by
      rintro P ⟨hrunning, -⟩
      rw [hrunning] at hfinished
      exact nomatch hfinished
    generalize s.2 k = pc at howned
    cases pc with
    | admitted => exact howned.2.2 hfinished
    | marked => exact howned.2.2 hfinished
    | lowered => exact hbusy ⟨howned.2.2, trivial⟩
    | finishing => exact howned.2.2
    | waiting => exact howned.2.elim
    | refused => exact howned.2.elim
    | thrown => exact howned.2.elim
    | ended => exact howned.2.elim
    | _ => exact hbusy howned.2.2

end DownloadPhase

/-- **The background download can be retried and tells its outcome**, as long as the calls are
reliable and the process has not ended. -/
theorem downloadTold_of_along (haveLibcurl : Bool) (calls : ι → DownloadCall) {schedule : List ι}
    (h : Threads.Along (downloadAct haveLibcurl calls) (Reliable calls) downloadStart schedule)
    (hup : (Threads.run (downloadAct haveLibcurl calls) downloadStart schedule).1.down = false) :
    DownloadTold haveLibcurl calls
      (Threads.run (downloadAct haveLibcurl calls) downloadStart schedule) := by
  have hphase :
      DownloadPhase (Threads.run (downloadAct haveLibcurl calls) downloadStart schedule) :=
    h.run_invariant (I := DownloadPhase) (fun _ _ hreliable hs => hs.step hreliable)
      (.inl ⟨.inr ⟨rfl, fun hfinished => absurd hfinished Bool.false_ne_true⟩, fun _ => rfl⟩)
  refine ⟨fun i j hi hj => ?_, hphase.active_eq_false hup, fun hidle i => ?_, fun hfinished => ?_⟩
  · exact Threads.OneOwner.eq hphase (DownloadPc.not_outside_of_working hi)
      (DownloadPc.not_outside_of_working hj)
  · rw [downloadAct, if_neg (Bool.eq_false_iff.mp hup), downloadMove,
      hphase.active_eq_false hup hidle]
    rfl
  · rw [DownloadState.isSome_error_iff]
    exact hphase.tells hup hfinished

/-- A call for a model in two shards, of which the second is not there, and one for a file. -/
def sampleDownloads (second : Bool) : DownloadCall where
  filename := if second then "model-q4.gguf" else "model-q4-00001-of-00002.gguf"
  modelName := "model"
  fetch name := some (if name = "model-q4-00002-of-00002.gguf" then ⟨some (9, 9), .httpError 404⟩
    else ⟨some (1024, 1024), .success ("/data/models/" ++ name) name 1024 500⟩)
  spawns := true

/-- The call for the shards, and the call for the file after it. -/
def sampleSchedule : List Bool := List.replicate 11 false ++ List.replicate 10 true

theorem downloadTold_sampleDownloads :
    DownloadTold true sampleDownloads
      (Threads.run (downloadAct true sampleDownloads) downloadStart sampleSchedule) :=
  downloadTold_of_along true sampleDownloads (by decide +kernel) (by decide +kernel)

/-- The number of shards is no `int`: the call ends in an exception, and `active` stays set. -/
theorem not_downloadTold :
    ¬ ∀ (calls : Unit → DownloadCall) (schedule : List Unit),
      (Threads.run (downloadAct true calls) downloadStart schedule).1.down = false →
      DownloadTold true calls (Threads.run (downloadAct true calls) downloadStart schedule) := by
  intro h
  have htold := h (fun _ => { filename := "model-1-of-99999999999.gguf", modelName := "model"
                              fetch := fun _ => none, spawns := true })
    (List.replicate 5 ()) (by decide +kernel)
  exact absurd (htold.free (by decide +kernel)) (by decide +kernel)

/-- A file that is not there: the result is an error, and none is reported. -/
theorem not_downloadTold_single :
    ¬ ∀ (calls : Unit → DownloadCall) (schedule : List Unit),
      (Threads.run (downloadAct true calls) downloadStart schedule).1.down = false →
      DownloadTold true calls (Threads.run (downloadAct true calls) downloadStart schedule) := by
  intro h
  have htold := h (fun _ => { filename := "model.gguf", modelName := "model"
                              fetch := fun _ => some ⟨none, .httpError 404⟩, spawns := true })
    (List.replicate 9 ()) (by decide +kernel)
  have herror := (htold.told (by decide +kernel)).mpr ⟨_, rfl, rfl⟩
  exact absurd herror (by decide +kernel)

end Llamaste
