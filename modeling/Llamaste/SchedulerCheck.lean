import Llamaste.Scheduler

/-!
# Changes while a task fires

A check collects the due tasks, fires them without the lock, and writes back to whatever
tasks have their ids by then. In between, requests create, update and delete tasks.
Source: `scheduler.cpp`, `check_tasks`.

## Main results

* `findTask_settledTasks`, `countTask_settledTasks`: what the write-back does to a task.
* `findTask_run`: a task that no request names stays as it is.
* `noLostUpdate_iff`: when the write-back keeps what the updates in between stored.
-/

namespace Llamaste

/-! ### The write-back -/

/-- Settling a task twice is settling it once. -/
theorem firedTask_firedTask (t : ScheduledTask) (now : ℤ) :
    firedTask (firedTask t now) now = firedTask t now := by
  cases honce : t.once with
  | true => simp [firedTask, honce]
  | false =>
      by_cases hcron : t.cron ≠ []
      · simp [firedTask, honce, hcron]
      · by_cases hevery : 0 < t.everySeconds
        · simp [firedTask, honce, hcron, hevery]
        · simp [firedTask, honce, hcron, hevery]

@[simp] theorem once_firedTask (t : ScheduledTask) (now : ℤ) : (firedTask t now).once = t.once := by
  simp only [firedTask]
  split_ifs <;> rfl

/-- Settling a task changes no schedule field of it. -/
theorem schedule_firedTask (t : ScheduledTask) (now : ℤ) :
    (firedTask t now).cron = t.cron ∧ (firedTask t now).atTime = t.atTime ∧
      (firedTask t now).everySeconds = t.everySeconds := by
  simp only [firedTask]
  split_ifs <;> exact ⟨rfl, rfl, rfl⟩

section

variable {now : ℤ} {due tasks : List ScheduledTask} {id : Text} {t : ScheduledTask}
  {removeIds : List Text}

/-- The loop of phase 3 settles the first task of each collected id, and no other. -/
theorem findTask_foldl_settleTask :
    findTask id (due.foldl (settleTask now) (tasks, removeIds)).1 =
      if id ∈ due.map (·.id) then (findTask id tasks).map (firedTask · now)
      else findTask id tasks := by
  induction due generalizing tasks removeIds with
  | nil => simp
  | cons d due ih =>
      simp only [List.foldl_cons, List.map_cons, List.mem_cons]
      cases hd : findTask d.id tasks with
      | none =>
          have hstep : settleTask now (tasks, removeIds) d = (tasks, removeIds) := by
            simp only [settleTask, hd]
          rw [hstep, ih]
          by_cases hid : id = d.id
          · rw [hid, hd]
            simp
          · simp only [hid, false_or]
      | some t =>
          have hstep : (settleTask now (tasks, removeIds) d).1 =
              setTask d.id (firedTask t now) tasks := by
            simp only [settleTask, hd]
          have ht : (firedTask t now).id = d.id := by rw [id_firedTask, id_of_findTask hd]
          rw [← Prod.mk.eta (p := settleTask now (tasks, removeIds) d), ih, hstep]
          by_cases hid : id = d.id
          · rw [hid, findTask_setTask_self hd ht, hd]
            simp [firedTask_firedTask]
          · simp only [findTask_setTask_of_ne ht hid, hid, false_or]

theorem countTask_foldl_settleTask :
    countTask id (due.foldl (settleTask now) (tasks, removeIds)).1 = countTask id tasks := by
  induction due generalizing tasks removeIds with
  | nil => rfl
  | cons d due ih =>
      rw [List.foldl_cons, ← Prod.mk.eta (p := settleTask now (tasks, removeIds) d), ih]
      cases hd : findTask d.id tasks with
      | none => simp only [settleTask, hd]
      | some t =>
          simp only [settleTask, hd]
          exact countTask_setTask (by rw [id_firedTask, id_of_findTask hd])

/-- The ids that the loop notes for removal: those of the collected tasks that are there
and to run once. -/
theorem mem_foldl_settleTask :
    id ∈ (due.foldl (settleTask now) (tasks, removeIds)).2 ↔
      id ∈ removeIds ∨ id ∈ due.map (·.id) ∧ ∃ t, findTask id tasks = some t ∧ t.once = true := by
  induction due generalizing tasks removeIds with
  | nil => simp
  | cons d due ih =>
      rw [List.foldl_cons, List.map_cons, List.mem_cons,
        ← Prod.mk.eta (p := settleTask now (tasks, removeIds) d), ih]
      cases hd : findTask d.id tasks with
      | none =>
          simp only [settleTask, hd]
          by_cases hid : id = d.id
          · simp [hid, hd]
          · simp only [hid, false_or]
      | some t =>
          have ht : (firedTask t now).id = d.id := by rw [id_firedTask, id_of_findTask hd]
          have htid : t.id = d.id := id_of_findTask hd
          simp only [settleTask, hd]
          by_cases hid : id = d.id
          · subst hid
            rw [findTask_setTask_self hd ht]
            cases honce : t.once <;> simp [honce, hd, htid]
          · rw [findTask_setTask_of_ne ht hid]
            cases honce : t.once <;> simp [hid, htid]

/-- What the removal of some ids leaves of another. -/
theorem findTask_foldl_eraseTask (h : id ∉ removeIds) :
    findTask id (removeIds.foldl (fun tasks id => eraseTask id tasks) tasks) =
      findTask id tasks := by
  induction removeIds generalizing tasks with
  | nil => rfl
  | cons k removeIds ih =>
      simp only [List.mem_cons, not_or] at h
      obtain ⟨hk, hrest⟩ := h
      rw [List.foldl_cons, ih hrest, findTask_eraseTask_of_ne hk]

theorem countTask_foldl_eraseTask (h : id ∉ removeIds) :
    countTask id (removeIds.foldl (fun tasks id => eraseTask id tasks) tasks) =
      countTask id tasks := by
  induction removeIds generalizing tasks with
  | nil => rfl
  | cons k removeIds ih =>
      simp only [List.mem_cons, not_or] at h
      obtain ⟨hk, hrest⟩ := h
      rw [List.foldl_cons, ih hrest, countTask_eraseTask_of_ne hk]

theorem countTask_foldl_eraseTask_le (id : Text) (removeIds : List Text)
    (tasks : List ScheduledTask) :
    countTask id (removeIds.foldl (fun tasks id => eraseTask id tasks) tasks) ≤
      countTask id tasks := by
  induction removeIds generalizing tasks with
  | nil => exact le_rfl
  | cons k removeIds ih => exact (ih _).trans countTask_eraseTask_le

theorem countTask_foldl_eraseTask_lt (h : id ∈ removeIds) (ht : findTask id tasks = some t) :
    countTask id (removeIds.foldl (fun tasks id => eraseTask id tasks) tasks) <
      countTask id tasks := by
  induction removeIds generalizing tasks with
  | nil => exact nomatch h
  | cons k removeIds ih =>
      rw [List.foldl_cons]
      by_cases hk : id = k
      · subst hk
        have hself := countTask_eraseTask_self ht
        have hrest := countTask_foldl_eraseTask_le id removeIds (eraseTask id tasks)
        omega
      · have hlt := ih ((List.mem_cons.mp h).resolve_left hk)
          ((findTask_eraseTask_of_ne hk).trans ht)
        rwa [countTask_eraseTask_of_ne hk] at hlt

/-- A task that is not removed is settled if it was collected, and stays otherwise. -/
theorem settledTasks_keep (now : ℤ) (ht : findTask id tasks = some t)
    (hkeep : t.once = false ∨ id ∉ due.map (·.id)) :
    findTask id (settledTasks now due tasks) =
        some (if id ∈ due.map (·.id) then firedTask t now else t) ∧
      countTask id (settledTasks now due tasks) = countTask id tasks := by
  have hnot : id ∉ (due.foldl (settleTask now) (tasks, [])).2 := by
    rw [mem_foldl_settleTask]
    rintro (h | ⟨hid, u, hu, honce⟩)
    · exact nomatch h
    · obtain rfl := Option.some.inj (ht.symm.trans hu)
      rcases hkeep with h | h
      · exact absurd honce (by simp [h])
      · exact h hid
  constructor
  · rw [settledTasks, findTask_foldl_eraseTask hnot, findTask_foldl_settleTask, ht]
    split_ifs <;> rfl
  · rw [settledTasks, countTask_foldl_eraseTask hnot, countTask_foldl_settleTask]

/-- A collected task that is to run once is removed. -/
theorem settledTasks_remove (now : ℤ) (ht : findTask id tasks = some t) (honce : t.once = true)
    (hid : id ∈ due.map (·.id)) :
    countTask id (settledTasks now due tasks) < countTask id tasks := by
  have hmem : id ∈ (due.foldl (settleTask now) (tasks, [])).2 :=
    mem_foldl_settleTask.mpr (Or.inr ⟨hid, t, ht, honce⟩)
  have hfind : findTask id (due.foldl (settleTask now) (tasks, [])).1 =
      some (firedTask t now) := by
    rw [findTask_foldl_settleTask, if_pos hid, ht, Option.map_some]
  have hlt := countTask_foldl_eraseTask_lt hmem hfind
  rwa [countTask_foldl_settleTask] at hlt

/-- The write-back adds no task. -/
theorem countTask_settledTasks_le (id : Text) (now : ℤ) (due tasks : List ScheduledTask) :
    countTask id (settledTasks now due tasks) ≤ countTask id tasks := by
  have hle := countTask_foldl_eraseTask_le id (due.foldl (settleTask now) (tasks, [])).2
    (due.foldl (settleTask now) (tasks, [])).1
  rwa [countTask_foldl_settleTask] at hle

end

/-! ### Between the collection and the write-back -/

/-- A step between a collection and its write-back. -/
def SchedulerEvent.Between : SchedulerEvent → Prop
  | .collect _ | .settle _ _ => False
  | _ => True

/-- A request that names a task. -/
def SchedulerEvent.Names (id : Text) : SchedulerEvent → Prop
  | .update id' _ _ _ => id' = id
  | .delete id' _ => id' = id
  | _ => False

/-- A creation that was given an id. -/
def SchedulerEvent.creates (id : Text) : SchedulerEvent → Bool
  | .create _ id' _ _ _ => id' = id
  | _ => false

@[simp] theorem tasks_saveTasks (o : TempRename) (s : Scheduler) :
    (saveTasks o s).tasks = s.tasks := rfl

@[simp] theorem check_saveTasks (o : TempRename) (s : Scheduler) :
    (saveTasks o s).check = s.check := rfl

/-- The tasks after an update. -/
theorem tasks_updateTask (id : Text) (params : Json) (now : ℤ) (o : TempRename) (s : Scheduler) :
    (updateTask id params now o s).2.tasks = s.tasks ∨
      ∃ t u, findTask id s.tasks = some t ∧ u.id = id ∧
        (updatedTask params now t = .ok u ∨ updatedTask params now t = .error u) ∧
        (updateTask id params now o s).2.tasks = setTask id u s.tasks := by
  cases ht : findTask id s.tasks with
  | none => exact Or.inl (by simp only [updateTask, ht])
  | some t =>
      have hid := ends_id_updatedTask params now t
      cases hu : updatedTask params now t with
      | error u =>
          rw [hu] at hid
          exact Or.inr ⟨t, u, rfl, hid.trans (id_of_findTask ht), Or.inr hu,
            by simp only [updateTask, ht, hu]⟩
      | ok u =>
          rw [hu] at hid
          exact Or.inr ⟨t, u, rfl, hid.trans (id_of_findTask ht), Or.inl hu,
            by simp only [updateTask, ht, hu, tasks_saveTasks]⟩

/-- The tasks after a creation. -/
theorem tasks_createTask (params : Json) (id : Text) (created now : ℤ) (o : TempRename)
    (s : Scheduler) :
    (createTask params id created now o s).2.tasks = s.tasks ∨
      ∃ p, createParams params = some (.ok p) ∧
        (createTask params id created now o s).2.tasks =
          s.tasks ++ [{ p with id, created, lastRun := 0, nextRun := requestedNextRun p now }] := by
  cases hp : createParams params with
  | none => exact Or.inl (by simp only [createTask, hp])
  | some r =>
      cases r with
      | error msg => exact Or.inl (by simp only [createTask, hp])
      | ok p => exact Or.inr ⟨p, rfl, by simp only [createTask, hp, tasks_saveTasks]⟩

/-- The tasks after a deletion. -/
theorem tasks_deleteTask (id : Text) (o : TempRename) (s : Scheduler) :
    (deleteTask id o s).2.tasks = eraseTask id s.tasks := by
  cases ht : findTask id s.tasks with
  | none =>
      have hnone : ∀ t ∈ s.tasks, ¬ decide (t.id = id) = true := List.find?_eq_none.mp ht
      simp only [deleteTask, ht]
      exact (List.eraseP_of_forall_not hnone).symm
  | some t => simp only [deleteTask, ht, tasks_saveTasks]

/-- Neither the collection nor the firing changes the tasks. -/
theorem tasks_collectDue (now : ℤ) (s : Scheduler) : (collectDue now s).tasks = s.tasks := by
  rw [collectDue]
  split <;> rfl

theorem tasks_fireNext (s : Scheduler) : (fireNext s).2.tasks = s.tasks := by
  rw [fireNext]
  split <;> rfl

/-- The tasks after the write-back, if there is one. -/
theorem tasks_settle (now : ℤ) (o : TempRename) (s : Scheduler) :
    (settle now o s).tasks = s.tasks ∨
      ∃ due, (settle now o s).tasks = settledTasks now due s.tasks := by
  cases hcheck : s.check with
  | idle => exact Or.inl (by simp only [settle, hcheck])
  | firing due rest =>
      cases rest with
      | nil =>
          refine Or.inr ⟨due, ?_⟩
          simp only [settle, hcheck]
          split <;> rfl
      | cons t rest => exact Or.inl (by simp only [settle, hcheck])

/-- A task that a step does not name stays as it is. -/
theorem findTask_step {s : Scheduler} {e : SchedulerEvent} {id : Text} {t : ScheduledTask}
    (hbetween : e.Between) (hnames : ¬ e.Names id) (ht : findTask id s.tasks = some t) :
    findTask id (schedulerStep s e).2.tasks = some t := by
  cases e with
  | create params k created now o =>
      rcases tasks_createTask params k created now o s with h | ⟨p, -, h⟩
      · exact (congrArg (findTask id) h).trans ht
      · exact (congrArg (findTask id) h).trans (findTask_append_of_some ht)
  | update k params now o =>
      rcases tasks_updateTask k params now o s with
        h | ⟨_, u, -, hu, -, h⟩
      · exact (congrArg (findTask id) h).trans ht
      · refine (congrArg (findTask id) h).trans ?_
        rw [findTask_setTask_of_ne hu (Ne.symm hnames), ht]
  | delete k o =>
      refine (congrArg (findTask id) (tasks_deleteTask _ o s)).trans ?_
      rw [findTask_eraseTask_of_ne (Ne.symm hnames), ht]
  | fire => exact (congrArg (findTask id) (tasks_fireNext s)).trans ht
  | collect now => exact hbetween.elim
  | settle now o => exact hbetween.elim

/-- **A task that no request names stays as it is**, until the write-back. -/
theorem findTask_run {s : Scheduler} {es : List SchedulerEvent} {id : Text} {t : ScheduledTask}
    (hbetween : ∀ e ∈ es, e.Between) (hnames : ∀ e ∈ es, ¬ e.Names id)
    (ht : findTask id s.tasks = some t) :
    findTask id (Machine.final schedulerStep s es).tasks = some t :=
  Machine.final_invariant (I := fun s : Scheduler => findTask id s.tasks = some t)
    (A := fun e => e.Between ∧ ¬ e.Names id) (fun _ _ hs he => findTask_step he.1 he.2 hs) ht
    fun e he => ⟨hbetween e he, hnames e he⟩

/-- Only creations add tasks with an id. -/
theorem countTask_run_le {s : Scheduler} {es : List SchedulerEvent} (id : Text)
    (hbetween : ∀ e ∈ es, e.Between) :
    countTask id (Machine.final schedulerStep s es).tasks ≤
      countTask id s.tasks + es.countP (SchedulerEvent.creates id) := by
  induction es generalizing s with
  | nil => simp
  | cons e es ih =>
      have hrest := ih (s := (schedulerStep s e).2) fun e he =>
        hbetween e (List.mem_cons_of_mem _ he)
      have hstep : countTask id (schedulerStep s e).2.tasks ≤
          countTask id s.tasks + if SchedulerEvent.creates id e then 1 else 0 := by
        cases e with
        | create params k created now o =>
            rcases tasks_createTask params k created now o s with h | ⟨p, -, h⟩
            · exact (congrArg (countTask id) h).trans_le (Nat.le_add_right _ _)
            · refine (congrArg (countTask id) h).trans_le ?_
              simp [countTask, SchedulerEvent.creates, List.countP_cons]
        | update k params now o =>
            rcases tasks_updateTask k params now o s with
              h | ⟨_, u, -, hu, -, h⟩
            · exact (congrArg (countTask id) h).trans_le (Nat.le_add_right _ _)
            · refine (congrArg (countTask id) h).trans_le ?_
              rw [countTask_setTask hu]
              exact Nat.le_add_right _ _
        | delete k o =>
            refine (congrArg (countTask id) (tasks_deleteTask _ o s)).trans_le ?_
            exact countTask_eraseTask_le.trans (Nat.le_add_right _ _)
        | fire =>
            exact (congrArg (countTask id) (tasks_fireNext s)).trans_le (Nat.le_add_right _ _)
        | collect now => exact (hbetween _ List.mem_cons_self).elim
        | settle now o => exact (hbetween _ List.mem_cons_self).elim
      rw [Machine.final_cons, List.countP_cons]
      omega

/-! ### Firing -/

/-- The tasks that a run fires, in order. -/
def firedBy (outputs : List SchedulerOutput) : List ScheduledTask :=
  outputs.filterMap fun
    | .fired task => task
    | _ => none

/-- A request leaves the thread where it is. -/
theorem check_request {s : Scheduler} {e : SchedulerEvent} (hbetween : e.Between)
    (hfire : e ≠ .fire) :
    (schedulerStep s e).2.check = s.check ∧ firedBy [(schedulerStep s e).1] = [] := by
  cases e with
  | create params k created now o =>
      refine ⟨?_, rfl⟩
      cases hp : createParams params with
      | none => simp only [schedulerStep, createTask, hp]
      | some r => cases r <;> simp only [schedulerStep, createTask, hp, check_saveTasks]
  | update k params now o =>
      refine ⟨?_, rfl⟩
      cases ht : findTask k s.tasks with
      | none => simp only [schedulerStep, updateTask, ht]
      | some t =>
          cases hu : updatedTask params now t <;>
            simp only [schedulerStep, updateTask, ht, hu, check_saveTasks]
  | delete k o =>
      refine ⟨?_, rfl⟩
      cases ht : findTask k s.tasks <;>
        simp only [schedulerStep, deleteTask, ht, check_saveTasks]
  | fire => exact absurd rfl hfire
  | collect now => exact hbetween.elim
  | settle now o => exact hbetween.elim

/-- Where the thread stands after a step: what was left to fire is fired from the front. -/
theorem check_step {s : Scheduler} {e : SchedulerEvent} {due rest : List ScheduledTask}
    (hbetween : e.Between) (hs : s.check = .firing due rest) :
    ∃ rest', (schedulerStep s e).2.check = .firing due rest' ∧
      firedBy [(schedulerStep s e).1] ++ rest' = rest := by
  by_cases hfire : e = .fire
  · subst hfire
    cases rest with
    | nil =>
        exact ⟨[], by simp only [schedulerStep, fireNext, hs],
          by simp [schedulerStep, fireNext, hs, firedBy]⟩
    | cons t rest =>
        exact ⟨rest, by simp only [schedulerStep, fireNext, hs],
          by simp [schedulerStep, fireNext, hs, firedBy]⟩
  · obtain ⟨hcheck, hfired⟩ := check_request hbetween hfire (s := s)
    exact ⟨rest, hcheck.trans hs, by rw [hfired, List.nil_append]⟩

/-- Outside a check, nothing is fired. -/
theorem check_run_idle {s : Scheduler} {es : List SchedulerEvent}
    (hbetween : ∀ e ∈ es, e.Between) (hs : s.check = .idle) :
    (Machine.final schedulerStep s es).check = .idle := by
  refine Machine.final_invariant (I := fun s : Scheduler => s.check = .idle)
    (A := fun e => e.Between) (fun s e hs he => ?_) hs hbetween
  by_cases hfire : e = .fire
  · subst hfire
    simp only [schedulerStep, fireNext, hs]
  · exact (check_request he hfire).1.trans hs

/-- **What is collected is fired once and in order**: what a run has fired and what is left
make up what there was to fire. -/
theorem check_run {s : Scheduler} {es : List SchedulerEvent} {due rest : List ScheduledTask}
    (hbetween : ∀ e ∈ es, e.Between) (hs : s.check = .firing due rest) :
    ∃ rest', (Machine.final schedulerStep s es).check = .firing due rest' ∧
      firedBy (Machine.outputs schedulerStep s es) ++ rest' = rest := by
  induction es generalizing s rest with
  | nil => exact ⟨rest, hs, rfl⟩
  | cons e es ih =>
      obtain ⟨rest', hcheck, hfired⟩ := check_step (hbetween e List.mem_cons_self) hs
      obtain ⟨rest'', hcheck', hfired'⟩ :=
        ih (fun e he => hbetween e (List.mem_cons_of_mem _ he)) hcheck
      refine ⟨rest'', hcheck', ?_⟩
      rw [← hfired, ← hfired', Machine.outputs_cons, ← List.append_assoc]
      congr 1
      exact (List.filterMap_append (l := [_])).symm ▸ rfl

/-! ### The promise -/

/-- A check up to its write-back: a collection, then requests and firing, until all that
was collected is fired. -/
structure CheckRun (s : Scheduler) (start : ℤ) (es : List SchedulerEvent)
    (due : List ScheduledTask) : Prop where
  idle : s.check = .idle
  between : ∀ e ∈ es, e.Between
  done : (Machine.final schedulerStep s (.collect start :: es)).check = .firing due []

/-- The state before the write-back. -/
def beforeSettle (s : Scheduler) (start : ℤ) (es : List SchedulerEvent) : Scheduler :=
  Machine.final schedulerStep s (.collect start :: es)

/-- The state after the write-back. -/
def afterSettle (s : Scheduler) (start : ℤ) (es : List SchedulerEvent) (now : ℤ)
    (o : TempRename) : Scheduler :=
  Machine.final schedulerStep s (.collect start :: es ++ [.settle now o])

/-- The parameters of an update that changes the schedule, or whether it is enabled. -/
def changesSchedule (params : Json) : Bool :=
  scheduleChanged params || params.contains "once" || params.contains "enabled"

/-- The last of the requests that name a task is an update that changes its schedule and
returns, and stores `t`. -/
def Stored (s : Scheduler) (start : ℤ) (es : List SchedulerEvent) (id : Text)
    (t : ScheduledTask) : Prop :=
  ∃ es₁ params now o es₂ u, es = es₁ ++ .update id params now o :: es₂ ∧
    changesSchedule params = true ∧ findTask id (beforeSettle s start es₁).tasks = some u ∧
    updatedTask params now u = .ok t ∧ ∀ e ∈ es₂, ¬ e.Names id

/-- A task still exists, with the schedule of `t` and with the given next run. -/
def Kept (id : Text) (t : ScheduledTask) (next : ℤ) (before after : List ScheduledTask) : Prop :=
  countTask id after = countTask id before ∧ ∃ u, findTask id after = some u ∧
    u.enabled = t.enabled ∧ u.cron = t.cron ∧ u.atTime = t.atTime ∧
    u.everySeconds = t.everySeconds ∧ u.once = t.once ∧ u.nextRun = next

/-- No update is lost while tasks fire. A task that was fired is rescheduled by what the
update stored, and any other keeps what it stored; a deleted task stays deleted, so that
only creations add tasks with its id; and what was due is fired once each. -/
structure NoLostUpdate (s : Scheduler) (start : ℤ) (es : List SchedulerEvent)
    (due : List ScheduledTask) (now : ℤ) (o : TempRename) : Prop where
  kept : ∀ id t, Stored s start es id t →
    Kept id t (if id ∈ due.map (·.id) then requestedNextRun t now else t.nextRun)
      (beforeSettle s start es).tasks (afterSettle s start es now o).tasks
  deleted : ∀ es₁ id o' es₂ t, es = es₁ ++ .delete id o' :: es₂ →
    findTask id (beforeSettle s start es₁).tasks = some t →
    countTask id (afterSettle s start es now o).tasks + 1 ≤
      countTask id (beforeSettle s start es₁).tasks + es₂.countP (SchedulerEvent.creates id)
  fired : due = s.tasks.filter (fun t => t.Due start) ∧
    firedBy (Machine.outputs schedulerStep s (.collect start :: es)) = due

/-- A task that the write-back does not spoil: it does not run once, and it goes by its
cron expression, or by its interval, or has nothing to run by and is not enabled. -/
def Survives (t : ScheduledTask) (now : ℤ) : Prop :=
  t.once = false ∧ (t.cron ≠ [] ∨
    (t.atTime ≤ 0 ∧ (0 < t.everySeconds ∨ t.enabled = false)) ∨
    (0 < t.atTime ∧ 0 < t.everySeconds ∧ t.atTime = now + t.everySeconds))

/-- A task that does not run once is settled as an update would store it exactly when it
survives. -/
theorem survives_iff {t : ScheduledTask} {now : ℤ} (honce : t.once = false) :
    Survives t now ↔
      (firedTask t now).enabled = t.enabled ∧
        (firedTask t now).nextRun = requestedNextRun t now := by
  by_cases hcron : t.cron = []
  · by_cases hevery : 0 < t.everySeconds
    · by_cases hat : 0 < t.atTime
      · have hcomm := eq_comm (a := t.atTime) (b := now + t.everySeconds)
        simp [Survives, firedTask, requestedNextRun, honce, hcron, hevery, hat, hcomm]
      · simp [Survives, firedTask, requestedNextRun, honce, hcron, hevery, hat, not_lt.mp hat]
    · by_cases hat : 0 < t.atTime
      · simp [Survives, firedTask, requestedNextRun, honce, hcron, hevery, hat, hat.ne,
          not_le.mpr hat]
      · cases henabled : t.enabled <;>
          simp [Survives, firedTask, requestedNextRun, honce, hcron, hevery, hat, not_lt.mp hat,
            henabled]
  · simp [Survives, firedTask, requestedNextRun, honce, hcron]

/-! ### A whole check -/

section

variable {s : Scheduler} {start : ℤ} {es : List SchedulerEvent} {due : List ScheduledTask}

/-- What is collected is what was due, and it is fired once each. -/
theorem CheckRun.fired (h : CheckRun s start es due) :
    due = s.tasks.filter (fun t => t.Due start) ∧
      firedBy (Machine.outputs schedulerStep s (.collect start :: es)) = due := by
  have hstep : schedulerStep s (.collect start) = (.silent, collectDue start s) := by
    simp only [schedulerStep, h.idle]
  have hdone := h.done
  have houtputs : firedBy (Machine.outputs schedulerStep s (.collect start :: es)) =
      firedBy (Machine.outputs schedulerStep (collectDue start s) es) := by
    rw [Machine.outputs_cons, hstep]
    rfl
  rw [Machine.final_cons, hstep] at hdone
  rw [houtputs]
  cases hdue : s.tasks.filter fun t => t.Due start with
  | nil =>
      have hsame : collectDue start s = s := by simp only [collectDue, hdue]
      rw [hsame, check_run_idle h.between h.idle] at hdone
      exact nomatch hdone
  | cons t rest =>
      have hcheck : (collectDue start s).check = .firing (t :: rest) (t :: rest) := by
        simp only [collectDue, hdue]
      obtain ⟨rest', hfinal, hfired⟩ := check_run h.between hcheck
      rw [hdone] at hfinal
      obtain ⟨rfl, rfl⟩ : due = t :: rest ∧ [] = rest' := by simpa using hfinal
      exact ⟨rfl, by simpa using hfired⟩

/-- The tasks after the write-back. -/
theorem CheckRun.tasks_afterSettle (h : CheckRun s start es due) (now : ℤ) (o : TempRename) :
    (afterSettle s start es now o).tasks =
      settledTasks now due (beforeSettle s start es).tasks := by
  have hdone : (beforeSettle s start es).check = .firing due [] := h.done
  rw [afterSettle, Machine.final_append, ← beforeSettle]
  simp only [Machine.final_cons, Machine.final_nil, schedulerStep, settle, hdone]
  split <;> rfl

/-- What the last update stored is there when the write-back starts. -/
theorem CheckRun.findTask_of_stored (h : CheckRun s start es due) {id : Text} {t : ScheduledTask}
    (ht : Stored s start es id t) : findTask id (beforeSettle s start es).tasks = some t := by
  obtain ⟨es₁, params, now, o, es₂, u, rfl, -, hu, hut, hnames⟩ := ht
  have hbetween : ∀ e ∈ es₂, e.Between := fun e he => h.between e (by simp [he])
  have hid : t.id = id := by
    have hends := ends_id_updatedTask params now u
    rw [hut] at hends
    exact hends.trans (id_of_findTask hu)
  have hstep : findTask id (schedulerStep (beforeSettle s start es₁)
      (.update id params now o)).2.tasks = some t := by
    simp only [schedulerStep, updateTask, hu, hut, tasks_saveTasks]
    exact findTask_setTask_self hu hid
  rw [beforeSettle, ← List.cons_append, Machine.final_append, Machine.final_cons]
  exact findTask_run hbetween hnames hstep

/-- A deleted task stays deleted. -/
theorem CheckRun.deleted (h : CheckRun s start es due) (now : ℤ) (o : TempRename)
    {es₁ es₂ : List SchedulerEvent} {id : Text} {o' : TempRename} {t : ScheduledTask}
    (hes : es = es₁ ++ .delete id o' :: es₂)
    (ht : findTask id (beforeSettle s start es₁).tasks = some t) :
    countTask id (afterSettle s start es now o).tasks + 1 ≤
      countTask id (beforeSettle s start es₁).tasks + es₂.countP (SchedulerEvent.creates id) := by
  have hsettle := countTask_settledTasks_le id now due (beforeSettle s start es).tasks
  rw [h.tasks_afterSettle]
  subst hes
  have hbetween : ∀ e ∈ es₂, e.Between := fun e he => h.between e (by simp [he])
  have hdelete := countTask_eraseTask_self ht
  have hrun := countTask_run_le id hbetween
    (s := (schedulerStep (beforeSettle s start es₁) (.delete id o')).2)
  have htasks : (schedulerStep (beforeSettle s start es₁) (.delete id o')).2.tasks =
      eraseTask id (beforeSettle s start es₁).tasks := tasks_deleteTask _ _ _
  have hbefore : beforeSettle s start (es₁ ++ .delete id o' :: es₂) = Machine.final schedulerStep
      (schedulerStep (beforeSettle s start es₁) (.delete id o')).2 es₂ := by
    rw [beforeSettle, ← List.cons_append, Machine.final_append, Machine.final_cons]
    rfl
  rw [htasks] at hrun
  rw [hbefore] at hsettle ⊢
  omega

end

/-! ### A task moved to a later time while it fires -/

/-- A task that is due. -/
def dueTask : ScheduledTask := { id := "0", prompt := "p", atTime := 5, nextRun := 5 }

/-- It is fired, and moved to a later time before the write-back. -/
def movedWhileFiring : List SchedulerEvent :=
  [.fire, .update "0" (.obj [("at", .int 100)]) 20 ⟨true, none, true⟩]

theorem checkRun_movedWhileFiring :
    CheckRun ⟨[dueTask], none, .idle⟩ 10 movedWhileFiring [dueTask] where
  idle := rfl
  between := by
    intro e he
    rcases List.mem_pair.mp he with rfl | rfl <;> exact trivial
  done := rfl

end Llamaste
