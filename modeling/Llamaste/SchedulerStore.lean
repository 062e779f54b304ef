import Llamaste.Scheduler

/-!
# The schedule file

What is left of the tasks when they are saved and loaded again. The file holds 64-bit
times, and they are read at the type of their defaults, which is 32-bit. Source:
`scheduler.cpp`, persistence.

## Main results

* `loadTasks_saveText`: what is loaded after a save.
* `loadTasks_saveTasks_iff`: the tasks come back exactly when their times fit 32 bits.
-/

namespace Llamaste

/-- A task that can be written: its strings are UTF-8, and its numbers have the types of
their fields. -/
structure ScheduledTask.Writable (t : ScheduledTask) : Prop where
  id : Utf8.valid t.id = true
  prompt : Utf8.valid t.prompt = true
  cron : Utf8.valid t.cron = true
  atTime : CInt.FitsInt64 t.atTime
  everySeconds : CInt.FitsInt32 t.everySeconds
  created : CInt.FitsInt64 t.created
  lastRun : CInt.FitsInt64 t.lastRun

/-- The document of a task, its members in order. -/
theorem ScheduledTask.toJson_eq (t : ScheduledTask) :
    t.toJson = .obj [("at", .int t.atTime), ("created", .int t.created), ("cron", .str t.cron),
      ("enabled", .bool t.enabled), ("every_seconds", .int t.everySeconds), ("id", .str t.id),
      ("last_run", .int t.lastRun), ("once", .bool t.once), ("prompt", .str t.prompt)] := rfl

theorem fitsInteger_of_fitsInt64 {n : ℤ} (h : CInt.FitsInt64 n) : Json.FitsInteger n := by
  simp only [CInt.FitsInt64] at h
  simp only [Json.FitsInteger]
  omega

theorem ScheduledTask.wellFormed_toJson {t : ScheduledTask} (h : t.Writable) :
    Json.WellFormed t.toJson := by
  rw [toJson_eq]
  refine .obj_of_keys (l := ["at", "created", "cron", "enabled", "every_seconds", "id",
    "last_run", "once", "prompt"]) rfl (by decide +kernel) (by decide +kernel) ?_
  simp only [List.map_cons, List.map_nil, List.forall_mem_cons]
  exact ⟨.int (fitsInteger_of_fitsInt64 h.atTime), .int (fitsInteger_of_fitsInt64 h.created),
    .str h.cron, .bool _, .int (fitsInteger_of_fitsInt64 h.everySeconds.fitsInt64), .str h.id,
    .int (fitsInteger_of_fitsInt64 h.lastRun), .bool _, .str h.prompt, fun _ h => nomatch h⟩

/-! ### Loading what was saved -/

/-- A task as it is read from its document: times are cut to 32 bits. -/
def ScheduledTask.read (t : ScheduledTask) : ScheduledTask :=
  { t with
    atTime := CInt.toInt32 t.atTime
    created := CInt.toInt32 t.created
    lastRun := CInt.toInt32 t.lastRun
    nextRun := 0 }

/-- What a save and a load at a time leave of a task. -/
def ScheduledTask.reload (now : ℤ) (t : ScheduledTask) : Option ScheduledTask :=
  if t.id = [] ∨ t.prompt = [] then none
  else some { t.read with nextRun := loadedNextRun t.read now }

theorem readTask_toJson {t : ScheduledTask} (h : t.Writable) : readTask t.toJson = some t.read := by
  have hread : readTask t.toJson =
      some { t.read with everySeconds := CInt.toInt32 t.everySeconds } := rfl
  rw [hread, CInt.toInt32_eq_self_iff.mpr h.everySeconds]
  rfl

theorem loadElems_map_toJson (now : ℤ) {tasks : List ScheduledTask}
    (h : ∀ t ∈ tasks, t.Writable) (acc : List ScheduledTask) :
    loadElems now acc (tasks.map ScheduledTask.toJson) =
      .ok (acc ++ tasks.filterMap (ScheduledTask.reload now)) := by
  induction tasks generalizing acc with
  | nil => simp [loadElems]
  | cons t tasks ih =>
      have hread := readTask_toJson (h t List.mem_cons_self)
      have hrest := ih fun u hu => h u (List.mem_cons_of_mem t hu)
      rw [List.map_cons, loadElems, hread]
      by_cases hskip : t.id = [] ∨ t.prompt = []
      · have hreload : t.reload now = none := if_pos hskip
        rw [List.filterMap_cons_none hreload]
        simp only [ScheduledTask.read, if_pos hskip, hrest]
      · have hreload : t.reload now = some { t.read with nextRun := loadedNextRun t.read now } :=
          if_neg hskip
        rw [List.filterMap_cons_some hreload, List.append_cons, ← hrest]
        exact if_neg hskip

/-- **What is loaded after a save.** -/
theorem loadTasks_saveText (now : ℤ) {tasks : List ScheduledTask}
    (h : ∀ t ∈ tasks, t.Writable) :
    loadTasks (some (saveText tasks)) now =
      .ok (tasks.filterMap (ScheduledTask.reload now)) := by
  have hwf : Json.WellFormed (.arr (tasks.map ScheduledTask.toJson)) := by
    refine .arr fun j hj => ?_
    obtain ⟨t, ht, rfl⟩ := List.mem_map.mp hj
    exact ScheduledTask.wellFormed_toJson (h t ht)
  have hparse := @Json.parse_dumpAt (Json.Layout.indented 2) _ 0 [] hwf rfl
  rw [List.append_nil] at hparse
  simp only [loadTasks, saveText, Option.bind_some, hparse, loadElems_map_toJson now h,
    List.nil_append]

/-! ### The round trip -/

/-- The fields of a task that the file keeps. -/
def ScheduledTask.saved (t : ScheduledTask) : ScheduledTask := { t with nextRun := 0 }

/-- A save that succeeds followed by a load at a time gives back the tasks, in order, with
all the fields that the file keeps. -/
def RoundTrips (s : Scheduler) (o : TempRename) (now : ℤ) : Prop :=
  (loadTasks (saveTasks o s).disk now).map (List.map ScheduledTask.saved) =
    .ok (s.tasks.map ScheduledTask.saved)

instance (s : Scheduler) (o : TempRename) (now : ℤ) : Decidable (RoundTrips s o now) :=
  inferInstanceAs (Decidable (_ = _))

/-- A save that succeeds leaves the text of the tasks. -/
theorem disk_saveTasks {o : TempRename} (hlands : o.Lands) (hcut : o.cut = none)
    (s : Scheduler) : (saveTasks o s).disk = some (saveText s.tasks) := by
  rw [saveTasks, TempRename.checked, if_pos ⟨hlands, hcut⟩]

/-- A task comes back with its fields exactly when its times fit 32 bits. -/
theorem saved_read_iff {t : ScheduledTask} :
    t.read = t.saved ↔
      CInt.FitsInt32 t.atTime ∧ CInt.FitsInt32 t.created ∧ CInt.FitsInt32 t.lastRun := by
  simp only [ScheduledTask.read, ScheduledTask.saved, ScheduledTask.mk.injEq, true_and,
    and_true, CInt.toInt32_eq_self_iff]

/-- **Round trip of the schedule file.** The tasks come back with their fields exactly when
their times fit 32 bits. -/
theorem loadTasks_saveTasks_iff (s : Scheduler) (now : ℤ) {o : TempRename}
    (hlands : o.Lands) (hcut : o.cut = none) (hwritable : ∀ t ∈ s.tasks, t.Writable)
    (hid : ∀ t ∈ s.tasks, t.id ≠ []) (hprompt : ∀ t ∈ s.tasks, t.prompt ≠ []) :
    RoundTrips s o now ↔ ∀ t ∈ s.tasks,
      CInt.FitsInt32 t.atTime ∧ CInt.FitsInt32 t.created ∧ CInt.FitsInt32 t.lastRun := by
  have hload : s.tasks.filterMap (ScheduledTask.reload now) =
      s.tasks.map fun t => { t.read with nextRun := loadedNextRun t.read now } := by
    rw [← List.filterMap_eq_map]
    refine List.filterMap_congr fun t ht => ?_
    exact if_neg (not_or_intro (hid t ht) (hprompt t ht))
  have hmap : (loadTasks (saveTasks o s).disk now).map (List.map ScheduledTask.saved) =
      .ok (s.tasks.map ScheduledTask.read) := by
    rw [disk_saveTasks hlands hcut, loadTasks_saveText now hwritable, hload]
    simp only [Except.map, List.map_map]
    rfl
  rw [RoundTrips, hmap, Except.ok.injEq, List.map_inj_left]
  exact forall₂_congr fun t _ => saved_read_iff

/-- A task for a day in 2038. -/
def lateTask : ScheduledTask := { id := "0", prompt := "p", atTime := 2 ^ 31 }

theorem writable_lateTask : lateTask.Writable := by
  constructor <;> decide

theorem loadTasks_saveTasks_sample :
    RoundTrips ⟨[lateTask], none, .idle⟩ ⟨true, none, true⟩ 0 ↔ ∀ t ∈ [lateTask],
      CInt.FitsInt32 t.atTime ∧ CInt.FitsInt32 t.created ∧ CInt.FitsInt32 t.lastRun :=
  loadTasks_saveTasks_iff _ 0 (by decide) rfl (by simpa using writable_lateTask)
    (by simp [lateTask]) (by simp [lateTask])

/-- That task does not come back. -/
theorem not_loadTasks_saveTasks :
    ¬ ∀ (s : Scheduler) (now : ℤ) (o : TempRename), o.Lands → o.cut = none →
      (∀ t ∈ s.tasks, t.Writable) → (∀ t ∈ s.tasks, t.id ≠ []) →
      (∀ t ∈ s.tasks, t.prompt ≠ []) → RoundTrips s o now := by
  intro h
  have hlate := h ⟨[lateTask], none, .idle⟩ 0 ⟨true, none, true⟩ (by decide) rfl
    (by simpa using writable_lateTask) (by simp [lateTask]) (by simp [lateTask])
  exact absurd hlate (by decide +kernel)

end Llamaste
