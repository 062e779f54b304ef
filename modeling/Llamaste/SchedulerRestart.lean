import Mathlib
import Llamaste.SchedulerCheck
import Llamaste.SchedulerStore

/-!
# A restart of the scheduler

The next run of a task is not saved; it is computed again when the tasks are loaded, from
the fields that are. What the requests and the checks had computed comes back only where
both agree. Source: `scheduler.cpp`, `load_tasks`, `check_tasks`, `create_task`,
`update_task`.

## Main results

* `sound_run`: what holds of all tasks in every run.
* `restartKeeps_iff`: when a restart keeps the schedule.
-/

namespace Llamaste

/-! ### Lists of tasks -/

section

variable {id : Text} {u v : ScheduledTask} {tasks due : List ScheduledTask} {now : ℤ}

theorem eq_or_mem_of_mem_setTask (h : u ∈ setTask id v tasks) : u = v ∨ u ∈ tasks := by
  induction tasks with
  | nil => exact nomatch h
  | cons t tasks ih =>
      rw [setTask_cons] at h
      split_ifs at h
      · exact (List.mem_cons.mp h).imp_right (List.mem_cons_of_mem t)
      · rcases List.mem_cons.mp h with rfl | h
        · exact Or.inr List.mem_cons_self
        · exact (ih h).imp_right (List.mem_cons_of_mem t)

theorem ids_setTask (hv : v.id = id) :
    (setTask id v tasks).map (·.id) = tasks.map (·.id) := by
  induction tasks with
  | nil => rfl
  | cons t tasks ih =>
      rw [setTask_cons]
      split_ifs with ht
      · rw [List.map_cons, List.map_cons, hv, ht]
      · rw [List.map_cons, List.map_cons, ih]

/-- The write-back adds no id. -/
theorem ids_settledTasks :
    ((settledTasks now due tasks).map (·.id)).Sublist (tasks.map (·.id)) := by
  have herase : ∀ (ids : List Text) (tasks : List ScheduledTask),
      (ids.foldl (fun tasks id => eraseTask id tasks) tasks).Sublist tasks := by
    intro ids
    induction ids with
    | nil => exact fun tasks => List.Sublist.refl tasks
    | cons k ids ih => exact fun tasks => (ih _).trans List.eraseP_sublist
  have hsettle : ∀ (acc : List ScheduledTask × List Text),
      (due.foldl (settleTask now) acc).1.map (·.id) = acc.1.map (·.id) := by
    induction due with
    | nil => exact fun acc => rfl
    | cons d due ih =>
        intro acc
        rw [List.foldl_cons, ih]
        cases hd : findTask d.id acc.1 with
        | none => simp only [settleTask, hd]
        | some t =>
            simp only [settleTask, hd]
            exact ids_setTask (by rw [id_firedTask, id_of_findTask hd])
  have h := (herase (due.foldl (settleTask now) (tasks, [])).2
    (due.foldl (settleTask now) (tasks, [])).1).map (·.id)
  rwa [hsettle] at h

/-- What settling preserves of a task holds of all tasks after the write-back. -/
theorem forall_settledTasks (now : ℤ) {P : ScheduledTask → Prop}
    (hfired : ∀ t, P t → P (firedTask t now)) (h : ∀ t ∈ tasks, P t) :
    ∀ t ∈ settledTasks now due tasks, P t := by
  have hsettle : ∀ (acc : List ScheduledTask × List Text), (∀ t ∈ acc.1, P t) →
      ∀ t ∈ (due.foldl (settleTask now) acc).1, P t := by
    induction due with
    | nil => exact fun acc hacc => hacc
    | cons d due ih =>
        intro acc hacc
        rw [List.foldl_cons]
        refine ih _ ?_
        cases hd : findTask d.id acc.1 with
        | none => simpa only [settleTask, hd] using hacc
        | some t =>
            simp only [settleTask, hd]
            intro u hu
            rcases eq_or_mem_of_mem_setTask hu with rfl | hu
            · exact hfired t (hacc t (List.mem_of_find?_eq_some hd))
            · exact hacc u hu
  have herase : ∀ (ids : List Text) (tasks : List ScheduledTask), (∀ t ∈ tasks, P t) →
      ∀ t ∈ ids.foldl (fun tasks id => eraseTask id tasks) tasks, P t := by
    intro ids
    induction ids with
    | nil => exact fun tasks htasks => htasks
    | cons k ids ih =>
        exact fun tasks htasks => ih _ fun t ht => htasks t (List.mem_of_mem_eraseP ht)
  exact herase _ _ (hsettle _ h)

end

/-! ### What holds of all tasks -/

/-- A task as it is at a time: it can be written, and goes by its cron expression if it has
one. -/
structure ScheduledTask.Sound (clock : ℤ) (t : ScheduledTask) : Prop where
  writable : t.Writable
  id : t.id ≠ []
  cron : t.cron ≠ [] → ∃ since ≤ clock, t.nextRun = computeNextCron t.cron since

theorem ScheduledTask.Sound.later {clock now : ℤ} {t : ScheduledTask} (h : t.Sound clock)
    (hle : clock ≤ now) : t.Sound now where
  writable := h.writable
  id := h.id
  cron := fun hcron =>
    let ⟨since, hsince, hnext⟩ := h.cron hcron
    ⟨since, hsince.trans hle, hnext⟩

/-- The requested next run goes by the cron expression. -/
theorem requestedNextRun_of_cron {t : ScheduledTask} (h : t.cron ≠ []) (now : ℤ) :
    requestedNextRun t now = computeNextCron t.cron now := if_pos h

theorem ScheduledTask.Sound.firedTask {now : ℤ} {t : ScheduledTask} (h : t.Sound now)
    (hnow : CInt.FitsInt64 now) : (firedTask t now).Sound now := by
  have hw : ({ t with lastRun := now } : ScheduledTask).Writable :=
    { h.writable with lastRun := hnow }
  simp only [Llamaste.firedTask]
  split_ifs with honce hcron hevery
  · exact ⟨hw, h.id, h.cron⟩
  · exact ⟨{ hw with }, h.id, fun _ => ⟨now, le_rfl, rfl⟩⟩
  · exact ⟨{ hw with }, h.id, fun hne => absurd hne hcron⟩
  · exact ⟨{ hw with }, h.id, fun hne => absurd hne hcron⟩

/-- The parameters that a creation takes can be written. -/
theorem writable_createParams {params : Json} {p : ScheduledTask} (hparams : Json.WellFormed params)
    (h : createParams params = some (.ok p)) : p.Writable := by
  simp only [createParams, Option.bind_eq_bind, Option.bind_eq_some_iff, Option.pure_def] at h
  obtain ⟨prompt, hprompt, h⟩ := h
  split_ifs at h
  · exact nomatch h
  simp only [Option.bind_eq_some_iff] at h
  obtain ⟨cron, hcron, atTime, hat, every, hevery, once, honce, h⟩ := h
  split_ifs at h
  · exact nomatch h
  simp only [Option.bind_eq_some_iff] at h
  obtain ⟨enabled, henabled, h⟩ := h
  obtain rfl : _ = p := by simpa using h
  exact {
    id := rfl
    prompt := hparams.valid_value rfl hprompt
    cron := hparams.valid_value rfl hcron
    atTime := Json.fitsInt64_value (by decide) hat
    everySeconds := Json.fitsInt32_value (by decide) hevery
    created := (by decide : CInt.FitsInt64 0)
    lastRun := (by decide : CInt.FitsInt64 0) }

/-- An update keeps a task writable, whether it returns or throws. -/
theorem writable_updateFields {params : Json} {t : ScheduledTask}
    (hparams : Json.WellFormed params) (ht : t.Writable) :
    Check.Ends ScheduledTask.Writable (updateFields params t) :=
  ends_updateFields ht
    (fun _ _ _ h hv ha => { h with prompt := (hparams.find hv).valid_getString ha })
    (fun _ _ h => { h with }) (fun _ _ h => { h with })
    (fun _ _ _ h hv ha => { h with cron := (hparams.find hv).valid_getString ha })
    (fun _ _ _ h _ ha => { h with atTime := Json.fitsInt64_getInt64 ha })
    (fun _ _ _ h _ ha => { h with everySeconds := Json.fitsInt32_getInt32 ha })

/-- The assignments leave the next run, and without a parameter for it the cron expression. -/
theorem cron_updateFields (params : Json) (t : ScheduledTask) :
    Check.Ends (fun u => u.nextRun = t.nextRun ∧ (scheduleChanged params = false → u.cron = t.cron))
      (updateFields params t) := by
  refine ends_updateFields ⟨rfl, fun _ => rfl⟩ (fun _ _ _ h _ _ => h) (fun _ _ h => h)
    (fun _ _ h => h) (fun u v a h hv _ => ⟨h.1, fun hsame => ?_⟩) (fun _ _ _ h _ _ => h)
    (fun _ _ _ h _ _ => h)
  have hcontains : params.contains "cron" = true := by rw [Json.contains, hv, Option.isSome_some]
  rw [scheduleChanged, hcontains, Bool.true_or] at hsame
  exact nomatch hsame

/-- An update that returns keeps a task sound. -/
theorem ScheduledTask.Sound.updatedTask {params : Json} {now : ℤ} {t u : ScheduledTask}
    (hparams : Json.WellFormed params) (ht : t.Sound now)
    (hu : updatedTask params now t = .ok u) : u.Sound now := by
  have hid := ends_id_updatedTask params now t
  have hwritable := writable_updateFields hparams ht.writable
  have hcron := cron_updateFields params t
  rw [hu] at hid
  cases hv : updateFields params t with
  | error v =>
      rw [Llamaste.updatedTask, hv] at hu
      cases hu
  | ok v =>
      rw [hv] at hwritable hcron
      rw [Llamaste.updatedTask, hv] at hu
      obtain rfl := Except.ok.inj hu
      split_ifs at hid ⊢ with hchanged
      · exact ⟨{ hwritable with }, by rw [hid]; exact ht.id,
          fun hne => ⟨now, le_rfl, requestedNextRun_of_cron hne now⟩⟩
      · obtain ⟨hnext, hsame⟩ := hcron
        have hsame := hsame (by simpa using hchanged)
        refine ⟨hwritable, by rw [hid]; exact ht.id, fun hne => ?_⟩
        rw [hsame] at hne
        rw [hnext, hsame]
        exact ht.cron hne

/-- An update that throws keeps a task sound unless it has stored another cron expression. -/
theorem ScheduledTask.Sound.thrown {params : Json} {now : ℤ} {t u : ScheduledTask}
    (hparams : Json.WellFormed params) (ht : t.Sound now)
    (hu : Llamaste.updatedTask params now t = .error u) (hcron : u.cron ≠ [] → u.cron = t.cron) :
    u.Sound now := by
  have hid := ends_id_updatedTask params now t
  have hwritable := writable_updateFields hparams ht.writable
  have hnext := cron_updateFields params t
  rw [hu] at hid
  cases hv : updateFields params t with
  | ok v =>
      rw [Llamaste.updatedTask, hv] at hu
      cases hu
  | error v =>
      rw [hv] at hwritable hnext
      rw [Llamaste.updatedTask, hv] at hu
      obtain rfl := Except.error.inj hu
      refine ⟨hwritable, by rw [hid]; exact ht.id, fun hne => ?_⟩
      rw [hnext.1, hcron hne]
      exact ht.cron (hcron hne ▸ hne)

/-! ### Runs -/

/-- The clock readings of a step, in order. -/
def SchedulerEvent.readings : SchedulerEvent → List ℤ
  | .create _ _ created now _ => [created, now]
  | .update _ _ now _ => [now]
  | .delete _ _ | .fire => []
  | .collect now => [now]
  | .settle now _ => [now]

/-- What requests bring: parameters that were read from JSON, and ids that are not in use. -/
def SchedulerEvent.Valid (s : Scheduler) : SchedulerEvent → Prop
  | .create params id _ _ _ => Json.WellFormed params ∧ Utf8.valid id = true ∧ id ≠ [] ∧
      id ∉ s.tasks.map (·.id)
  | .update _ params _ _ => Json.WellFormed params
  | _ => True

/-- An update does not store another cron expression and then throw. -/
def SchedulerEvent.Clean (s : Scheduler) : SchedulerEvent → Prop
  | .update id params now _ => ∀ t u, findTask id s.tasks = some t →
      updatedTask params now t = .error u → u.cron ≠ [] → u.cron = t.cron
  | _ => True

/-- A run of the scheduler from its start, up to a time: the clock does not go back. -/
structure SchedulerRun (s : Scheduler) (es : List SchedulerEvent) (now : ℤ) : Prop where
  tasks : s.tasks = []
  valid : Machine.Along schedulerStep SchedulerEvent.Valid s es
  clock : (0 :: es.flatMap SchedulerEvent.readings ++ [now]).Pairwise (· ≤ ·)
  fits : ∀ r ∈ es.flatMap SchedulerEvent.readings, CInt.FitsInt64 r

/-- Readings of a clock that does not go back lie between the one before and the last of
them. -/
theorem exists_last_reading {c : ℤ} {l r : List ℤ} (h : (c :: l ++ r).Pairwise (· ≤ ·)) :
    ∃ m, c ≤ m ∧ (∀ x ∈ l, c ≤ x ∧ x ≤ m) ∧ (m :: r).Pairwise (· ≤ ·) := by
  induction l generalizing c with
  | nil => exact ⟨c, le_rfl, by simp, h⟩
  | cons x l ih =>
      obtain ⟨hc, hrest⟩ := List.pairwise_cons.mp h
      obtain ⟨m, hm, hl, hr⟩ := ih hrest
      have hcx : c ≤ x := hc x (by simp)
      refine ⟨m, hcx.trans hm, fun y hy => ?_, hr⟩
      rcases List.mem_cons.mp hy with rfl | hy
      · exact ⟨hcx, hm⟩
      · exact ⟨hcx.trans (hl y hy).1, (hl y hy).2⟩

/-- All tasks are sound at a time, and no two have the same id. -/
structure SoundTasks (clock : ℤ) (tasks : List ScheduledTask) : Prop where
  sound : ∀ t ∈ tasks, t.Sound clock
  nodup : (tasks.map (·.id)).Nodup

/-- A step keeps the tasks sound. -/
theorem SoundTasks.step {s : Scheduler} {e : SchedulerEvent} {clock now : ℤ}
    (hs : SoundTasks clock s.tasks) (hvalid : e.Valid s) (hclean : e.Clean s)
    (hreadings : ∀ r ∈ e.readings, clock ≤ r ∧ r ≤ now ∧ CInt.FitsInt64 r) (hle : clock ≤ now) :
    SoundTasks now (schedulerStep s e).2.tasks := by
  have hlater : SoundTasks now s.tasks := ⟨fun t ht => (hs.sound t ht).later hle, hs.nodup⟩
  cases e with
  | create params id created at' o =>
      obtain ⟨hparams, hid, hne, hfresh⟩ := hvalid
      have hcreated := hreadings created (by simp [SchedulerEvent.readings])
      have hnow := hreadings at' (by simp [SchedulerEvent.readings])
      rcases tasks_createTask params id created at' o s with h | ⟨p, hp, h⟩
      · exact h ▸ hlater
      · have hw := writable_createParams hparams hp
        have htask : ScheduledTask.Sound now { p with
            id, created, lastRun := 0, nextRun := requestedNextRun p at' } :=
          ⟨{ hw with
              id := hid, created := hcreated.2.2, lastRun := (by decide : CInt.FitsInt64 0) }, hne,
            fun hcron => ⟨at', hnow.2.1, requestedNextRun_of_cron hcron at'⟩⟩
        refine (congrArg (SoundTasks now) h).mpr ⟨fun t ht => ?_, ?_⟩
        · rcases List.mem_append.mp ht with ht | ht
          · exact hlater.sound t ht
          · exact List.mem_singleton.mp ht ▸ htask
        · rw [List.map_append, List.nodup_append]
          refine ⟨hs.nodup, by simp, fun a ha b hb => ?_⟩
          rintro rfl
          obtain rfl : a = id := by simpa using hb
          exact hfresh ha
  | update id params at' o =>
      have hnow := hreadings at' (by simp [SchedulerEvent.readings])
      rcases tasks_updateTask id params at' o s with
        h | ⟨t, u, ht, hu, hupdate, h⟩
      · exact h ▸ hlater
      · have htsound := (hs.sound t (List.mem_of_find?_eq_some ht)).later hnow.1
        have husound : u.Sound at' := by
          rcases hupdate with hok | herror
          · exact htsound.updatedTask hvalid hok
          · exact htsound.thrown hvalid herror (hclean t u ht herror)
        refine (congrArg (SoundTasks now) h).mpr ⟨fun v hv => ?_, ?_⟩
        · rcases eq_or_mem_of_mem_setTask hv with rfl | hv
          · exact husound.later hnow.2.1
          · exact hlater.sound v hv
        · rw [ids_setTask hu]
          exact hs.nodup
  | delete id o =>
      refine (congrArg (SoundTasks now) (tasks_deleteTask _ o s)).mpr ⟨fun t ht => ?_, ?_⟩
      · exact hlater.sound t (List.mem_of_mem_eraseP ht)
      · exact hs.nodup.sublist (List.eraseP_sublist.map _)
  | collect at' =>
      refine (congrArg (SoundTasks now) ?_).mpr hlater
      cases hcheck : s.check with
      | idle => simp only [schedulerStep, hcheck, tasks_collectDue]
      | firing due rest => simp only [schedulerStep, hcheck]
  | fire => exact (congrArg (SoundTasks now) (tasks_fireNext s)).mpr hlater
  | settle at' o =>
      have hnow := hreadings at' (by simp [SchedulerEvent.readings])
      rcases tasks_settle at' o s with h | ⟨due, h⟩
      · exact (congrArg (SoundTasks now) h).mpr hlater
      · refine (congrArg (SoundTasks now) h).mpr ⟨fun t ht => ?_, ?_⟩
        · refine ScheduledTask.Sound.later (forall_settledTasks at'
            (fun t ht => ScheduledTask.Sound.firedTask ht hnow.2.2) (fun t ht => ?_) t ht) hnow.2.1
          exact (hs.sound t ht).later hnow.1
        · exact hs.nodup.sublist ids_settledTasks

/-- **All tasks are sound** after every run. -/
theorem SoundTasks.run {s : Scheduler} {es : List SchedulerEvent} {clock now : ℤ}
    (hs : SoundTasks clock s.tasks) (hvalid : Machine.Along schedulerStep SchedulerEvent.Valid s es)
    (hclean : Machine.Along schedulerStep SchedulerEvent.Clean s es)
    (hclock : (clock :: es.flatMap SchedulerEvent.readings ++ [now]).Pairwise (· ≤ ·))
    (hfits : ∀ r ∈ es.flatMap SchedulerEvent.readings, CInt.FitsInt64 r) :
    SoundTasks now (Machine.final schedulerStep s es).tasks := by
  induction es generalizing s clock with
  | nil =>
      have hle : clock ≤ now := by simpa using hclock
      exact ⟨fun t ht => (hs.sound t ht).later hle, hs.nodup⟩
  | cons e es ih =>
      rw [List.flatMap_cons] at hclock hfits
      rw [List.cons_append, List.append_assoc, ← List.cons_append] at hclock
      obtain ⟨m, hm, hreadings, hrest⟩ := exists_last_reading hclock
      refine ih (hs.step hvalid.1 hclean.1 (fun r hr => ?_) hm) hvalid.2 hclean.2 hrest
        fun r hr => hfits r (List.mem_append_right _ hr)
      exact ⟨(hreadings r hr).1, (hreadings r hr).2, hfits r (List.mem_append_left _ hr)⟩

/-! ### The restart -/

/-- A save that succeeds and a load at a time keep the schedule: a task that was to run
later is to run at the same time, and one that was never to run is not due. -/
def RestartKeeps (s : Scheduler) (o : TempRename) (now : ℤ) : Prop :=
  ∃ loaded, loadTasks (saveTasks o s).disk now = .ok loaded ∧
    ∀ t ∈ s.tasks, t.enabled = true →
      (now < t.nextRun → ∃ u ∈ loaded, u.id = t.id ∧ u.nextRun = t.nextRun) ∧
      (t.nextRun = 0 → ∀ u ∈ loaded, u.id = t.id → ¬ u.Due now)

/-- The next run of a task without a cron expression is the one that its fields give at a
time, its times read at 32 bits. -/
def RunsByFields (t : ScheduledTask) (now : ℤ) : Prop :=
  (0 < CInt.toInt32 t.atTime ∧ t.nextRun = CInt.toInt32 t.atTime) ∨
    (CInt.toInt32 t.atTime ≤ 0 ∧ 0 < t.everySeconds ∧
      ((CInt.toInt32 t.lastRun ≤ 0 ∧ t.nextRun = now + t.everySeconds) ∨
        (0 < CInt.toInt32 t.lastRun ∧
          t.nextRun = max (CInt.toInt32 t.lastRun + t.everySeconds) (now + 1))))

/-- The tasks whose schedule survives a restart at a time: a task that is to run later has
a prompt and goes by its cron expression or by its fields, and one that is never to run
has no time in the past to run at, unless it has a cron expression or no prompt. -/
structure SurvivesRestart (t : ScheduledTask) (now : ℤ) : Prop where
  later : now < t.nextRun → t.prompt ≠ [] ∧ (t.cron ≠ [] ∨ RunsByFields t now)
  never : t.nextRun = 0 → t.prompt = [] ∨ t.cron ≠ [] ∨
    ¬ (0 < CInt.toInt32 t.atTime ∧ CInt.toInt32 t.atTime ≤ now)

/-- The next run that is computed on loading, of a task without a cron expression. -/
theorem loadedNextRun_read_iff {t : ScheduledTask} {now : ℤ} (hcron : t.cron = [])
    (hnow : 0 ≤ now) (hnext : now < t.nextRun) :
    loadedNextRun t.read now = t.nextRun ↔ RunsByFields t now := by
  have hread : t.read.cron = [] := hcron
  simp only [loadedNextRun, hread, ne_eq, not_true_eq_false, if_false, RunsByFields]
  simp only [ScheduledTask.read]
  split_ifs <;> omega

/-- A loaded task is due only by a time in the past. -/
theorem due_loaded_iff (t : ScheduledTask) (now : ℤ) :
    (0 < loadedNextRun t.read now ∧ loadedNextRun t.read now ≤ now) ↔
      t.cron = [] ∧ 0 < CInt.toInt32 t.atTime ∧ CInt.toInt32 t.atTime ≤ now := by
  by_cases hcron : t.cron = []
  · have hread : t.read.cron = [] := hcron
    simp only [loadedNextRun, hread, hcron, ne_eq, not_true_eq_false, if_false, true_and]
    simp only [ScheduledTask.read]
    split_ifs <;> omega
  · have hread : t.read.cron ≠ [] := hcron
    rw [loadedNextRun, if_pos hread]
    have hcomputed := computeNextCron_eq_zero_or t.read.cron now
    simp only [hcron, false_and, iff_false]
    omega

/-- A cron task that is to run later is to run then after a restart, too. -/
theorem ScheduledTask.Sound.loadedNextRun {t : ScheduledTask} {now : ℤ} (ht : t.Sound now)
    (hnow : 0 ≤ now) (hcron : t.cron ≠ []) (hnext : now < t.nextRun) :
    loadedNextRun t.read now = t.nextRun := by
  obtain ⟨since, hsince, hcomputed⟩ := ht.cron hcron
  have hread : t.read.cron ≠ [] := hcron
  rw [Llamaste.loadedNextRun, if_pos hread, hcomputed]
  exact computeNextCron_later hsince hnow (hcomputed ▸ hnext)

/-- **A restart of sound tasks keeps the schedule** exactly when each enabled task
survives it. -/
theorem SoundTasks.keeps_iff {s : Scheduler} {now : ℤ} {o : TempRename}
    (hs : SoundTasks now s.tasks) (hnow : 0 ≤ now) (hlands : o.Lands) (hcut : o.cut = none) :
    RestartKeeps s o now ↔ ∀ t ∈ s.tasks, t.enabled = true → SurvivesRestart t now := by
  have hload : loadTasks (saveTasks o s).disk now =
      .ok (s.tasks.filterMap (ScheduledTask.reload now)) := by
    rw [disk_saveTasks hlands hcut]
    exact loadTasks_saveText now fun t ht => (hs.sound t ht).writable
  have hreload : ∀ t ∈ s.tasks, ∀ u,
      (u ∈ s.tasks.filterMap (ScheduledTask.reload now) ∧ u.id = t.id) ↔
        t.prompt ≠ [] ∧ u = { t.read with nextRun := loadedNextRun t.read now } := by
    intro t ht u
    have hid := (hs.sound t ht).id
    rw [List.mem_filterMap]
    constructor
    · rintro ⟨⟨t', ht', hu⟩, hsame⟩
      rw [ScheduledTask.reload] at hu
      split_ifs at hu with hskip
      obtain rfl := Option.some.inj hu
      obtain rfl := List.inj_on_of_nodup_map hs.nodup ht' ht hsame
      exact ⟨fun hprompt => hskip (Or.inr hprompt), rfl⟩
    · rintro ⟨hprompt, rfl⟩
      exact ⟨⟨t, ht, if_neg (not_or_intro hid hprompt)⟩, rfl⟩
  have htask : ∀ t ∈ s.tasks, t.enabled = true →
      (((now < t.nextRun → ∃ u ∈ s.tasks.filterMap (ScheduledTask.reload now),
          u.id = t.id ∧ u.nextRun = t.nextRun) ∧
        (t.nextRun = 0 → ∀ u ∈ s.tasks.filterMap (ScheduledTask.reload now),
          u.id = t.id → ¬ u.Due now)) ↔ SurvivesRestart t now) := by
    intro t ht henabled
    have hlater : now < t.nextRun → ((∃ u ∈ s.tasks.filterMap (ScheduledTask.reload now),
        u.id = t.id ∧ u.nextRun = t.nextRun) ↔
          t.prompt ≠ [] ∧ (t.cron ≠ [] ∨ RunsByFields t now)) := by
      intro hnext
      have hfound : (∃ u ∈ s.tasks.filterMap (ScheduledTask.reload now),
          u.id = t.id ∧ u.nextRun = t.nextRun) ↔
            t.prompt ≠ [] ∧ loadedNextRun t.read now = t.nextRun := by
        constructor
        · rintro ⟨u, hu, hid, hsame⟩
          obtain ⟨hprompt, rfl⟩ := (hreload t ht u).mp ⟨hu, hid⟩
          exact ⟨hprompt, hsame⟩
        · rintro ⟨hprompt, hsame⟩
          obtain ⟨hu, hid⟩ := (hreload t ht _).mpr ⟨hprompt, rfl⟩
          exact ⟨_, hu, hid, hsame⟩
      rw [hfound]
      refine and_congr_right fun _ => ?_
      by_cases hcron : t.cron = []
      · rw [loadedNextRun_read_iff hcron hnow hnext]
        simp [hcron]
      · exact iff_of_true ((hs.sound t ht).loadedNextRun hnow hcron hnext) (Or.inl hcron)
    have hnever : (∀ u ∈ s.tasks.filterMap (ScheduledTask.reload now), u.id = t.id → ¬ u.Due now) ↔
        t.prompt = [] ∨ t.cron ≠ [] ∨
          ¬ (0 < CInt.toInt32 t.atTime ∧ CInt.toInt32 t.atTime ≤ now) := by
      have hdue := due_loaded_iff t now
      constructor
      · intro hall
        by_contra hcontra
        simp only [not_or, not_not] at hcontra
        obtain ⟨hprompt, hcron, hat⟩ := hcontra
        obtain ⟨hu, hid⟩ := (hreload t ht _).mpr ⟨hprompt, rfl⟩
        exact hall _ hu hid ⟨henabled, hdue.mpr ⟨hcron, hat⟩⟩
      · rintro hor u hu hid ⟨-, hu'⟩
        obtain ⟨hprompt, rfl⟩ := (hreload t ht u).mp ⟨hu, hid⟩
        obtain ⟨hcron, hat⟩ := hdue.mp hu'
        rcases hor with h | h | h
        · exact hprompt h
        · exact h hcron
        · exact h hat
    constructor
    · rintro ⟨hl, hn⟩
      exact ⟨fun hnext => (hlater hnext).mp (hl hnext), fun hzero => hnever.mp (hn hzero)⟩
    · rintro ⟨hl, hn⟩
      exact ⟨fun hnext => (hlater hnext).mpr (hl hnext), fun hzero => hnever.mpr (hn hzero)⟩
  constructor
  · rintro ⟨loaded, hloaded, hkeeps⟩ t ht henabled
    obtain rfl := Except.ok.inj (hload.symm.trans hloaded)
    exact (htask t ht henabled).mp (hkeeps t ht henabled)
  · intro hsurvives
    exact ⟨_, hload, fun t ht henabled => (htask t ht henabled).mpr (hsurvives t ht henabled)⟩

/-- **A restart keeps the schedule** of a run in which no update stores another cron
expression and throws, exactly when each enabled task survives it. -/
theorem restartKeeps_iff {s : Scheduler} {es : List SchedulerEvent} {now : ℤ} {o : TempRename}
    (hrun : SchedulerRun s es now) (hclean : Machine.Along schedulerStep SchedulerEvent.Clean s es)
    (hlands : o.Lands) (hcut : o.cut = none) :
    RestartKeeps (Machine.final schedulerStep s es) o now ↔
      ∀ t ∈ (Machine.final schedulerStep s es).tasks, t.enabled = true → SurvivesRestart t now := by
  have hstart : SoundTasks 0 s.tasks := by
    rw [hrun.tasks]
    exact ⟨by simp, List.nodup_nil⟩
  have hnow : 0 ≤ now := (List.pairwise_cons.mp hrun.clock).1 now (by simp)
  exact (hstart.run hrun.valid hclean hrun.clock hrun.fits).keeps_iff hnow hlands hcut

/-! ### An interval that starts over -/

/-- An hourly task is created. -/
def hourlyRun : List SchedulerEvent :=
  [.create (.obj [("every_seconds", .int 3600), ("prompt", .str "p")]) "0" 1000 1000
    ⟨true, none, true⟩]

theorem schedulerRun_hourlyRun : SchedulerRun ⟨[], none, .idle⟩ hourlyRun 2000 where
  tasks := rfl
  valid := by
    have hjson : Json.WellFormed (.obj [("every_seconds", .int 3600), ("prompt", .str "p")]) :=
      .obj_of_keys (l := ["every_seconds", "prompt"]) rfl (by decide) (by decide) (by
        simp only [List.map_cons, List.map_nil, List.forall_mem_cons]
        exact ⟨.int (by decide), .str rfl, fun _ h => nomatch h⟩)
    exact ⟨⟨hjson, rfl, by decide, by simp⟩, trivial⟩
  clock := by decide
  fits := by decide

theorem restartKeeps_iff_sample :
    RestartKeeps (Machine.final schedulerStep ⟨[], none, .idle⟩ hourlyRun) ⟨true, none, true⟩ 2000 ↔
      ∀ t ∈ (Machine.final schedulerStep ⟨[], none, .idle⟩ hourlyRun).tasks, t.enabled = true →
        SurvivesRestart t 2000 :=
  restartKeeps_iff schedulerRun_hourlyRun ⟨trivial, trivial⟩ (by decide) rfl

/-- A restart before its first run postpones it. -/
theorem not_restartKeeps :
    ¬ ∀ (s : Scheduler) (es : List SchedulerEvent) (now : ℤ) (o : TempRename),
      SchedulerRun s es now → o.Lands → o.cut = none →
        RestartKeeps (Machine.final schedulerStep s es) o now := by
  intro h
  have hkeeps := h _ _ _ ⟨true, none, true⟩ schedulerRun_hourlyRun (by decide) rfl
  have hsound : SoundTasks 2000 (Machine.final schedulerStep ⟨[], none, .idle⟩ hourlyRun).tasks :=
    SoundTasks.run (⟨by simp, List.nodup_nil⟩ : SoundTasks 0 [])
      schedulerRun_hourlyRun.valid ⟨trivial, trivial⟩ schedulerRun_hourlyRun.clock
      schedulerRun_hourlyRun.fits
  have hsurvives := (hsound.keeps_iff (by decide) (by decide) rfl).mp hkeeps
    { id := "0", prompt := "p", everySeconds := 3600, created := 1000, nextRun := 4600 }
    (List.mem_singleton.mpr rfl) rfl
  exact absurd (hsurvives.later (by decide)) (by simp [RunsByFields, CInt.toInt32])

end Llamaste
