import Llamaste.Cron
import Llamaste.Lib.Check
import Llamaste.Lib.JsonWellFormed
import Llamaste.Lib.Machine
import Llamaste.Lib.TempRename

/-!
# Scheduled tasks

The scheduler keeps a list of tasks and saves it to `schedules.json` after each change.
Requests create, update and delete tasks; one background thread collects the tasks that
are due, fires them without the lock, and writes back what has become of them. Every step
under the lock is one event here, so a run of the machine is an interleaving of requests
with the thread. Source: `scheduler.cpp`.

## Main results

* `findTask_setTask_of_ne`, `findTask_eraseTask_of_ne`: what is done to one task leaves the
  others as they are.
* `id_updatedTask`, `id_firedTask`: a task keeps its id.
-/

namespace Llamaste

/-- `ScheduledTask`. -/
structure ScheduledTask where
  id : Text := []
  enabled : Bool := true
  prompt : Text := []
  cron : Text := []
  atTime : ℤ := 0
  everySeconds : ℤ := 0
  once : Bool := false
  created : ℤ := 0
  lastRun : ℤ := 0
  nextRun : ℤ := 0
  deriving DecidableEq, Repr

/-- Where the background thread stands in `check_tasks`: not in it, or firing the tasks
that it collected, of which some are left. -/
inductive Check
  | idle
  | firing (due rest : List ScheduledTask)

/-- A `Scheduler`: the tasks, the content of `schedules.json` if it exists, and the
background thread. -/
structure Scheduler where
  tasks : List ScheduledTask
  disk : Option Text
  check : Check

/-! ### Persistence -/

/-- The JSON document of a task. -/
def ScheduledTask.toJson (t : ScheduledTask) : Json :=
  Json.object [("id", .str t.id), ("enabled", .bool t.enabled), ("prompt", .str t.prompt),
    ("cron", .str t.cron), ("at", .int t.atTime), ("every_seconds", .int t.everySeconds),
    ("once", .bool t.once), ("created", .int t.created), ("last_run", .int t.lastRun)]

/-- What `save_tasks` writes. -/
def saveText (tasks : List ScheduledTask) : Text :=
  Json.dumpAt (Json.Layout.indented 2) 0 (.arr (tasks.map ScheduledTask.toJson))

/-- `save_tasks`. -/
def saveTasks (o : TempRename) (s : Scheduler) : Scheduler :=
  { s with disk := (o.checked (saveText s.tasks) s.disk).2 }

/-- The fields that `load_tasks` reads of an element; a type error is `none`. -/
def readTask (j : Json) : Option ScheduledTask := do
  let id ← j.value Json.getString "id" []
  let enabled ← j.value Json.getBool "enabled" true
  let prompt ← j.value Json.getString "prompt" []
  let cron ← j.value Json.getString "cron" []
  let atTime ← j.value Json.getInt32 "at" 0
  let everySeconds ← j.value Json.getInt32 "every_seconds" 0
  let once ← j.value Json.getBool "once" false
  let created ← j.value Json.getInt32 "created" 0
  let lastRun ← j.value Json.getInt32 "last_run" 0
  return { id, enabled, prompt, cron, atTime, everySeconds, once, created, lastRun }

/-- The `next_run` that `load_tasks` computes. -/
def loadedNextRun (t : ScheduledTask) (now : ℤ) : ℤ :=
  if t.cron ≠ [] then computeNextCron t.cron now
  else if 0 < t.atTime then t.atTime
  else if 0 < t.everySeconds then
    if 0 < t.lastRun then
      if t.lastRun + t.everySeconds ≤ now then now + 1 else t.lastRun + t.everySeconds
    else now + t.everySeconds
  else 0

/-- The loop of `load_tasks` over the elements of the document, with the tasks so far. A
type error leaves the loop with these. -/
def loadElems (now : ℤ) (tasks : List ScheduledTask) :
    List Json → Except (List ScheduledTask) (List ScheduledTask)
  | [] => .ok tasks
  | j :: js =>
      match readTask j with
      | none => .error tasks
      | some t =>
          if t.id = [] ∨ t.prompt = [] then loadElems now tasks js
          else loadElems now (tasks ++ [{ t with nextRun := loadedNextRun t now }]) js

/-- `load_tasks` at a time, from the content of `schedules.json`. -/
def loadTasks (disk : Option Text) (now : ℤ) :
    Except (List ScheduledTask) (List ScheduledTask) :=
  match disk.bind Json.parse with
  | some (.arr elems) => loadElems now [] elems
  | _ => .ok []

/-! ### Requests -/

/-- `find_if` for a task id. -/
def findTask (id : Text) (tasks : List ScheduledTask) : Option ScheduledTask :=
  tasks.find? fun t => t.id = id

/-- Assign the task that `find_if` finds. -/
def setTask (id : Text) (t : ScheduledTask) (tasks : List ScheduledTask) :
    List ScheduledTask :=
  tasks.replaceF fun u => if u.id = id then some t else none

/-- Erase the task that `find_if` finds. -/
def eraseTask (id : Text) (tasks : List ScheduledTask) : List ScheduledTask :=
  tasks.eraseP fun t => t.id = id

/-- `json_error`. -/
def jsonError (msg : Text) : Json := Json.object [("error", .str msg)]

/-- The `next_run` that `create_task` and `update_task` compute. -/
def requestedNextRun (t : ScheduledTask) (now : ℤ) : ℤ :=
  if t.cron ≠ [] then computeNextCron t.cron now
  else if 0 < t.atTime then t.atTime
  else if 0 < t.everySeconds then now + t.everySeconds
  else 0

/-- The parameters that `create_task` reads, up to its checks: a type error is `none`, and
a failed check an error text. -/
def createParams (params : Json) : Option (Except Text ScheduledTask) := do
  let prompt ← params.value Json.getString "prompt" []
  if prompt = [] then return .error "prompt is required"
  let cron ← params.value Json.getString "cron" []
  let atTime ← params.value Json.getInt64 "at" 0
  let everySeconds ← params.value Json.getInt32 "every_seconds" 0
  let once ← params.value Json.getBool "once" false
  if cron = [] ∧ atTime = 0 ∧ everySeconds = 0 then
    return .error "one of cron, at, or every_seconds is required"
  let enabled ← params.value Json.getBool "enabled" true
  return .ok { enabled, prompt, cron, atTime, everySeconds, once }

/-- `create_task`, with the id that `generate_id` gives, and the times at which the
creation and the next run are taken: its answer, or nothing if it throws. -/
def createTask (params : Json) (id : Text) (created now : ℤ) (o : TempRename)
    (s : Scheduler) : Option Json × Scheduler :=
  match createParams params with
  | none => (none, s)
  | some (.error msg) => (some (jsonError msg), s)
  | some (.ok p) =>
      let task := { p with id, created, lastRun := 0, nextRun := requestedNextRun p now }
      (some (Json.object [("id", .str task.id), ("enabled", .bool task.enabled),
        ("prompt", .str task.prompt), ("cron", .str task.cron), ("at", .int task.atTime),
        ("every_seconds", .int task.everySeconds), ("once", .bool task.once),
        ("created", .int task.created), ("next_run", .int task.nextRun)]),
       saveTasks o { s with tasks := s.tasks ++ [task] })

/-- `delete_task`. -/
def deleteTask (id : Text) (o : TempRename) (s : Scheduler) : Json × Scheduler :=
  match findTask id s.tasks with
  | none => (jsonError ("task not found: " ++ id), s)
  | some _ =>
      (Json.object [("deleted", .bool true), ("id", .str id)],
       saveTasks o { s with tasks := eraseTask id s.tasks })

/-- One field of `update_task`: a parameter that is there is assigned, and a type error
stops with the task as it is. -/
def updateField {α : Type} (get : Json → Option α) (params : Json) (key : Text)
    (set : ScheduledTask → α → ScheduledTask) (t : ScheduledTask) :
    Except ScheduledTask ScheduledTask :=
  match params.find key with
  | none => .ok t
  | some v =>
      match get v with
      | none => .error t
      | some a => .ok (set t a)

/-- The assignments of `update_task`, in order. -/
def updateFields (params : Json) (t : ScheduledTask) : Except ScheduledTask ScheduledTask := do
  let t ← updateField Json.getString params "prompt" (fun t a => { t with prompt := a }) t
  let t ← updateField Json.getBool params "enabled" (fun t a => { t with enabled := a }) t
  let t ← updateField Json.getBool params "once" (fun t a => { t with once := a }) t
  let t ← updateField Json.getString params "cron" (fun t a => { t with cron := a }) t
  let t ← updateField Json.getInt64 params "at" (fun t a => { t with atTime := a }) t
  updateField Json.getInt32 params "every_seconds" (fun t a => { t with everySeconds := a }) t

/-- `schedule_changed`. -/
def scheduleChanged (params : Json) : Bool :=
  params.contains "cron" || params.contains "at" || params.contains "every_seconds"

/-- What `update_task` makes of the task it finds: it stores the task and returns, or
throws and leaves the task as far as it got. -/
def updatedTask (params : Json) (now : ℤ) (t : ScheduledTask) :
    Except ScheduledTask ScheduledTask :=
  (updateFields params t).map fun t =>
    if scheduleChanged params then { t with nextRun := requestedNextRun t now } else t

/-- `update_task`: its answer, or nothing if it throws. -/
def updateTask (id : Text) (params : Json) (now : ℤ) (o : TempRename) (s : Scheduler) :
    Option Json × Scheduler :=
  match findTask id s.tasks with
  | none => (some (jsonError ("task not found: " ++ id)), s)
  | some t =>
      match updatedTask params now t with
      | .error t => (none, { s with tasks := setTask id t s.tasks })
      | .ok t =>
          (some (Json.object [("id", .str t.id), ("enabled", .bool t.enabled),
            ("prompt", .str t.prompt), ("cron", .str t.cron), ("at", .int t.atTime),
            ("every_seconds", .int t.everySeconds), ("once", .bool t.once),
            ("created", .int t.created), ("last_run", .int t.lastRun),
            ("next_run", .int t.nextRun)]),
           saveTasks o { s with tasks := setTask id t s.tasks })

/-! ### The background thread -/

/-- A task that `check_tasks` collects. -/
def ScheduledTask.Due (t : ScheduledTask) (now : ℤ) : Prop :=
  t.enabled = true ∧ 0 < t.nextRun ∧ t.nextRun ≤ now

instance (t : ScheduledTask) (now : ℤ) : Decidable (t.Due now) :=
  inferInstanceAs (Decidable (_ ∧ _))

/-- Phase 1 of `check_tasks`: collect the tasks that are due. -/
def collectDue (now : ℤ) (s : Scheduler) : Scheduler :=
  match s.tasks.filter fun t => t.Due now with
  | [] => s
  | due => { s with check := .firing due due }

/-- Phase 2 of `check_tasks`: fire the next of the collected tasks. -/
def fireNext (s : Scheduler) : Option ScheduledTask × Scheduler :=
  match s.check with
  | .firing due (t :: rest) => (some t, { s with check := .firing due rest })
  | _ => (none, s)

/-- What is assigned to a task that was fired and is still there. -/
def firedTask (t : ScheduledTask) (now : ℤ) : ScheduledTask :=
  if t.once then { t with lastRun := now }
  else if t.cron ≠ [] then { t with lastRun := now, nextRun := computeNextCron t.cron now }
  else if 0 < t.everySeconds then { t with lastRun := now, nextRun := now + t.everySeconds }
  else { t with lastRun := now, nextRun := 0, enabled := false }

/-- One round of the loop of phase 3, on the tasks and `remove_ids`. -/
def settleTask (now : ℤ) (acc : List ScheduledTask × List Text) (d : ScheduledTask) :
    List ScheduledTask × List Text :=
  match findTask d.id acc.1 with
  | none => acc
  | some t =>
      (setTask d.id (firedTask t now) acc.1, if t.once then acc.2 ++ [t.id] else acc.2)

/-- The tasks after phase 3. -/
def settledTasks (now : ℤ) (due tasks : List ScheduledTask) : List ScheduledTask :=
  let (tasks, removeIds) := due.foldl (settleTask now) (tasks, [])
  removeIds.foldl (fun tasks id => eraseTask id tasks) tasks

/-- Phase 3 of `check_tasks`, once all collected tasks are fired: write back. -/
def settle (now : ℤ) (o : TempRename) (s : Scheduler) : Scheduler :=
  match s.check with
  | .firing due [] =>
      let settled := { s with tasks := settledTasks now due s.tasks, check := .idle }
      if due.any fun d => (findTask d.id s.tasks).isSome then saveTasks o settled else settled
  | _ => s

/-! ### The machine -/

/-- A step under the lock: a request, or a phase of `check_tasks`. -/
inductive SchedulerEvent
  | create (params : Json) (id : Text) (created now : ℤ) (o : TempRename)
  | update (id : Text) (params : Json) (now : ℤ) (o : TempRename)
  | delete (id : Text) (o : TempRename)
  | collect (now : ℤ)
  | fire
  | settle (now : ℤ) (o : TempRename)

/-- What a step answers: a reply to a request (none if it throws), or the task it fires. -/
inductive SchedulerOutput
  | reply (answer : Option Json)
  | fired (task : Option ScheduledTask)
  | silent

/-- One step. The thread collects only after it has written back what it collected. -/
def schedulerStep (s : Scheduler) : SchedulerEvent → SchedulerOutput × Scheduler
  | .create params id created now o =>
      let (answer, s) := createTask params id created now o s
      (.reply answer, s)
  | .update id params now o =>
      let (answer, s) := updateTask id params now o s
      (.reply answer, s)
  | .delete id o =>
      let (answer, s) := deleteTask id o s
      (.reply (some answer), s)
  | .collect now =>
      match s.check with
      | .idle => (.silent, collectDue now s)
      | .firing _ _ => (.silent, s)
  | .fire =>
      let (task, s) := fireNext s
      (.fired task, s)
  | .settle now o => (.silent, settle now o s)

/-! ### The task list -/

/-- The number of tasks with an id. -/
def countTask (id : Text) (tasks : List ScheduledTask) : ℕ :=
  tasks.countP fun t => t.id = id

section

variable {id k : Text} {t u : ScheduledTask} {tasks : List ScheduledTask}

theorem findTask_cons :
    findTask id (t :: tasks) = if t.id = id then some t else findTask id tasks := by
  by_cases h : t.id = id <;> simp [findTask, h]

theorem setTask_cons :
    setTask id u (t :: tasks) = if t.id = id then u :: tasks else t :: setTask id u tasks := by
  by_cases h : t.id = id <;> simp [setTask, h]

theorem eraseTask_cons :
    eraseTask id (t :: tasks) = if t.id = id then tasks else t :: eraseTask id tasks := by
  by_cases h : t.id = id <;> simp [eraseTask, h]

theorem countTask_cons :
    countTask id (t :: tasks) = countTask id tasks + if t.id = id then 1 else 0 := by
  by_cases h : t.id = id <;> simp [countTask, h]

theorem findTask_append_of_some {rest : List ScheduledTask} (h : findTask id tasks = some t) :
    findTask id (tasks ++ rest) = some t := by
  rw [findTask, List.find?_append]
  exact Option.or_of_isSome (Option.isSome_of_eq_some h) ▸ h

/-- What is found has the id it was looked for by. -/
theorem id_of_findTask (h : findTask id tasks = some t) : t.id = id := by
  simpa using List.find?_some h

theorem findTask_setTask_self (h : findTask id tasks = some t) (hu : u.id = id) :
    findTask id (setTask id u tasks) = some u := by
  induction tasks with
  | nil => exact nomatch h
  | cons v tasks ih =>
      rw [findTask_cons] at h
      rw [setTask_cons]
      split_ifs at h ⊢ with hv
      · rw [findTask_cons, if_pos hu]
      · rw [findTask_cons, if_neg hv, ih h]

theorem findTask_setTask_of_ne (hu : u.id = id) (hk : k ≠ id) :
    findTask k (setTask id u tasks) = findTask k tasks := by
  induction tasks with
  | nil => rfl
  | cons v tasks ih =>
      rw [setTask_cons]
      split_ifs with hv
      · rw [findTask_cons, findTask_cons, if_neg (by rw [hu]; exact hk.symm),
          if_neg (by rw [hv]; exact hk.symm)]
      · rw [findTask_cons, findTask_cons, ih]

theorem countTask_setTask (hu : u.id = id) :
    countTask k (setTask id u tasks) = countTask k tasks := by
  induction tasks with
  | nil => rfl
  | cons v tasks ih =>
      rw [setTask_cons]
      split_ifs with hv
      · rw [countTask_cons, countTask_cons, hu, hv]
      · rw [countTask_cons, countTask_cons, ih]

theorem findTask_eraseTask_of_ne (hk : k ≠ id) :
    findTask k (eraseTask id tasks) = findTask k tasks := by
  induction tasks with
  | nil => rfl
  | cons v tasks ih =>
      rw [eraseTask_cons]
      split_ifs with hv
      · rw [findTask_cons, if_neg (by rw [hv]; exact hk.symm)]
      · rw [findTask_cons, findTask_cons, ih]

theorem countTask_eraseTask_of_ne (hk : k ≠ id) :
    countTask k (eraseTask id tasks) = countTask k tasks := by
  induction tasks with
  | nil => rfl
  | cons v tasks ih =>
      rw [eraseTask_cons]
      split_ifs with hv
      · rw [countTask_cons, if_neg (by rw [hv]; exact hk.symm), add_zero]
      · rw [countTask_cons, countTask_cons, ih]

/-- Erasing a task leaves one less with its id. -/
theorem countTask_eraseTask_self (h : findTask id tasks = some t) :
    countTask id (eraseTask id tasks) + 1 = countTask id tasks := by
  induction tasks with
  | nil => exact nomatch h
  | cons v tasks ih =>
      rw [findTask_cons] at h
      rw [eraseTask_cons]
      split_ifs at h ⊢ with hv
      · rw [countTask_cons, if_pos hv]
      · rw [countTask_cons, countTask_cons, if_neg hv, add_zero, add_zero, ih h]

theorem countTask_eraseTask_le : countTask k (eraseTask id tasks) ≤ countTask k tasks :=
  List.Sublist.countP_le List.eraseP_sublist

end

/-! ### A task keeps its id -/

theorem ends_updateField {α : Type} {P : ScheduledTask → Prop} {get : Json → Option α}
    {params : Json} {key : Text} {set : ScheduledTask → α → ScheduledTask} {t : ScheduledTask}
    (ht : P t) (hset : ∀ v a, params.find key = some v → get v = some a → P (set t a)) :
    Check.Ends P (updateField get params key set t) := by
  cases hv : params.find key with
  | none =>
      rw [updateField, hv]
      exact ht
  | some v =>
      cases ha : get v with
      | none =>
          simp only [updateField, hv, ha]
          exact ht
      | some a =>
          simp only [updateField, hv, ha]
          exact hset v a hv ha

/-- What all assignments of `update_task` preserve. -/
theorem ends_updateFields {P : ScheduledTask → Prop} {params : Json} {t : ScheduledTask}
    (ht : P t)
    (hprompt : ∀ t v a, P t → params.find "prompt" = some v → v.getString = some a →
      P { t with prompt := a })
    (henabled : ∀ t a, P t → P { t with enabled := a })
    (honce : ∀ t a, P t → P { t with once := a })
    (hcron : ∀ t v a, P t → params.find "cron" = some v → v.getString = some a →
      P { t with cron := a })
    (hat : ∀ t v a, P t → params.find "at" = some v → v.getInt64 = some a →
      P { t with atTime := a })
    (hevery : ∀ t v a, P t → params.find "every_seconds" = some v → v.getInt32 = some a →
      P { t with everySeconds := a }) :
    Check.Ends P (updateFields params t) := by
  refine (ends_updateField ht fun v a hv ha => hprompt _ v a ht hv ha).bind fun t ht => ?_
  refine (ends_updateField ht fun _ a _ _ => henabled _ a ht).bind fun t ht => ?_
  refine (ends_updateField ht fun _ a _ _ => honce _ a ht).bind fun t ht => ?_
  refine (ends_updateField ht fun v a hv ha => hcron _ v a ht hv ha).bind fun t ht => ?_
  refine (ends_updateField ht fun v a hv ha => hat _ v a ht hv ha).bind fun t ht => ?_
  exact ends_updateField ht fun v a hv ha => hevery _ v a ht hv ha

/-- An update keeps the id, whether it returns or throws. -/
theorem ends_id_updatedTask (params : Json) (now : ℤ) (t : ScheduledTask) :
    Check.Ends (fun u => u.id = t.id) (updatedTask params now t) := by
  have hfields : Check.Ends (fun u => u.id = t.id) (updateFields params t) :=
    ends_updateFields rfl (fun _ _ _ h _ _ => h) (fun _ _ h => h) (fun _ _ h => h)
      (fun _ _ _ h _ _ => h) (fun _ _ _ h _ _ => h) (fun _ _ _ h _ _ => h)
  rw [updatedTask]
  cases hupdate : updateFields params t with
  | error u =>
      rw [hupdate] at hfields
      exact hfields
  | ok u =>
      rw [hupdate] at hfields
      simp only [Except.map, Check.Ends]
      split_ifs
      · exact hfields
      · exact hfields

@[simp] theorem id_firedTask (t : ScheduledTask) (now : ℤ) : (firedTask t now).id = t.id := by
  simp only [firedTask]
  split_ifs <;> rfl

end Llamaste
