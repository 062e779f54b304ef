import Llamaste.Lib.FieldUpdate
import Llamaste.Scheduler

/-!
# Requests and files that the scheduler cannot read

A parameter of the wrong type ends an update where it is read, and an element of the wrong type
ends the loading of the schedule file. Source: `scheduler.cpp`.

## Main results

* `updateTask_aborts_iff`: an update that throws leaves the scheduler as it was exactly when no
  parameter before the first one of a wrong type changes the task.
* `setDataDir_iff`: loading returns with the usable elements exactly when every element can be
  read.
-/

namespace Llamaste

/-! ### Updates -/

/-- An update that does not return the updated task changes nothing. -/
def AllOrNothing (id : Text) (params : Json) (now : ℤ) (o : TempRename) (s : Scheduler) : Prop :=
  (findTask id s.tasks = none ∨ (updateTask id params now o s).1 = none) →
    (updateTask id params now o s).2 = s

/-- How a JSON object is read for a field of a task. -/
def taskField {α : Type} [DecidableEq α] (read : Json → Option α) (key : Text)
    (get : ScheduledTask → α) (set : ScheduledTask → α → ScheduledTask)
    (set_get : ∀ t, set t (get t) = t) (get_set : ∀ t a, get (set t a) = a) :
    FieldUpdate ScheduledTask Json where
  α := α
  decEq := inferInstance
  read params := (params.find key).map read
  get := get
  set := set
  set_get := set_get
  get_set := get_set

/-- The fields that `update_task` assigns, in the order in which it reads them. -/
def updatedFields : List (FieldUpdate ScheduledTask Json) :=
  [taskField Json.getString "prompt" ScheduledTask.prompt (fun t a => { t with prompt := a })
      (fun _ => rfl) fun _ _ => rfl,
    taskField Json.getBool "enabled" ScheduledTask.enabled (fun t a => { t with enabled := a })
      (fun _ => rfl) fun _ _ => rfl,
    taskField Json.getBool "once" ScheduledTask.once (fun t a => { t with once := a })
      (fun _ => rfl) fun _ _ => rfl,
    taskField Json.getString "cron" ScheduledTask.cron (fun t a => { t with cron := a })
      (fun _ => rfl) fun _ _ => rfl,
    taskField Json.getInt64 "at" ScheduledTask.atTime (fun t a => { t with atTime := a })
      (fun _ => rfl) fun _ _ => rfl,
    taskField Json.getInt32 "every_seconds" ScheduledTask.everySeconds
      (fun t a => { t with everySeconds := a }) (fun _ => rfl) fun _ _ => rfl]

/-- What the parameters are to the fields of a task, in order. -/
def updateStatuses (params : Json) (t : ScheduledTask) : List FieldUpdate.Status :=
  updatedFields.map fun F => F.status params t

/-- No parameter is of a wrong type, or none before the first such one brings another value. -/
def KeptUpToError (statuses : List FieldUpdate.Status) : Prop :=
  .unreadable ∈ statuses → .changed ∉ statuses.takeWhile (· ≠ .unreadable)

instance (statuses : List FieldUpdate.Status) : Decidable (KeptUpToError statuses) :=
  inferInstanceAs (Decidable (_ → _))

theorem pairwise_updatedFields : updatedFields.Pairwise FieldUpdate.Independent := by
  simp only [updatedFields, List.pairwise_cons, List.forall_mem_cons, List.not_mem_nil,
    false_imp_iff, implies_true, and_true, List.Pairwise.nil]
  refine ⟨⟨?_, ?_, ?_, ?_, ?_⟩, ⟨?_, ?_, ?_, ?_⟩, ⟨?_, ?_, ?_⟩, ⟨?_, ?_⟩, ?_⟩ <;>
    exact ⟨fun _ _ => rfl, fun _ _ => rfl⟩

theorem assign_taskField {α : Type} [DecidableEq α] {read : Json → Option α} {key : Text}
    {get : ScheduledTask → α} {set : ScheduledTask → α → ScheduledTask}
    {set_get : ∀ t, set t (get t) = t} {get_set : ∀ t a, get (set t a) = a} (params : Json)
    (t : ScheduledTask) :
    (taskField read key get set set_get get_set).assign params t =
      updateField read params key set t := by
  rw [FieldUpdate.assign, updateField]
  cases hfind : params.find key with
  | none => simp only [taskField, hfind, Option.map_none]
  | some v => cases hread : read v <;> simp only [taskField, hfind, hread, Option.map_some]

theorem updateFields_eq (params : Json) (t : ScheduledTask) :
    updateFields params t = FieldUpdate.assignAll params updatedFields t := by
  have hnil : FieldUpdate.assignAll params ([] : List (FieldUpdate ScheduledTask Json)) =
      Except.ok := rfl
  have hcons : ∀ (F : FieldUpdate ScheduledTask Json) Fs, FieldUpdate.assignAll params (F :: Fs) =
      fun t => F.assign params t >>= FieldUpdate.assignAll params Fs := fun _ _ => rfl
  have hok : ∀ x : Except ScheduledTask ScheduledTask, x >>= Except.ok = x := by
    rintro (_ | _) <;> rfl
  simp only [updateFields, updatedFields, hcons, hnil, hok, assign_taskField]

/-- What `update_task` stores in place of a task is the task exactly when nothing is changed. -/
theorem setTask_eq_self_iff {id : Text} {t u : ScheduledTask} {tasks : List ScheduledTask}
    (h : findTask id tasks = some t) : setTask id u tasks = tasks ↔ u = t := by
  induction tasks with
  | nil => exact nomatch h
  | cons v tasks ih =>
    rw [findTask_cons] at h
    rw [setTask_cons]
    split_ifs at h ⊢ with hv
    · obtain rfl : v = t := Option.some.inj h
      exact ⟨fun heq => (List.cons.inj heq).1, fun heq => by rw [heq]⟩
    · rw [← ih h]
      exact ⟨fun heq => (List.cons.inj heq).2, fun heq => by rw [heq]⟩

/-- **An update that throws** leaves the scheduler as it was exactly when no parameter before the
first one of a wrong type brings another value than the task has. -/
theorem updateTask_aborts_iff (id : Text) (params : Json) (now : ℤ) (o : TempRename)
    (s : Scheduler) :
    AllOrNothing id params now o s ↔
      ∀ t, findTask id s.tasks = some t → KeptUpToError (updateStatuses params t) := by
  cases hfind : findTask id s.tasks with
  | none =>
    refine iff_of_true (fun _ => ?_) (by rintro t ⟨⟩)
    rw [updateTask, hfind]
  | some t =>
    obtain ⟨hstops, hsame⟩ := FieldUpdate.error_iff pairwise_updatedFields params t
    rw [← updateFields_eq] at hstops hsame
    simp only [AllOrNothing, hfind, Option.some.injEq, forall_eq', reduceCtorEq, false_or]
    cases hfields : updateFields params t with
    | ok u =>
      have hall : .unreadable ∉ updateStatuses params t := by
        intro hmem
        obtain ⟨v, hv⟩ := hstops.mpr hmem
        rw [hfields] at hv
        cases hv
      refine iff_of_true (fun hthrown => ?_) fun hmem => absurd hmem hall
      simp only [updateTask, hfind, updatedTask, hfields] at hthrown
      cases hthrown
    | error u =>
      have hmem := hstops.mp ⟨u, hfields⟩
      have hupdate : updateTask id params now o s =
          (none, { s with tasks := setTask id u s.tasks }) := by
        simp only [updateTask, hfind, updatedTask, hfields]
        rfl
      rw [hupdate]
      constructor
      · intro h _
        have htasks : setTask id u s.tasks = s.tasks := congrArg Scheduler.tasks (h rfl)
        exact (hsame u hfields).mp ((setTask_eq_self_iff hfind).mp htasks)
      · intro h _
        have hut : u = t := (hsame u hfields).mpr (h hmem)
        rw [(setTask_eq_self_iff hfind).mpr hut]

/-- An update of a task that sets a prompt and then reads a text for a Boolean. -/
def thrownUpdate : Json := .object [("prompt", .str "new"), ("enabled", .str "yes")]

/-- The new prompt is stored, and no task is returned. -/
theorem not_updateTask_aborts :
    ¬ ∀ (id : Text) (params : Json) (now : ℤ) (o : TempRename) (s : Scheduler),
      AllOrNothing id params now o s := by
  intro h
  have hsame := h "0" thrownUpdate 0 ⟨true, none, true⟩
    ⟨[{ id := "0", prompt := "p" }], none, .idle⟩ (.inr rfl)
  exact absurd (congrArg Scheduler.tasks hsame) (by decide +kernel)

/-! ### Loading -/

/-- `set_data_dir` at a time, for a directory whose `schedules.json` has the given content if it
can be read: whether it returns. -/
def setDataDir (disk : Option Text) (now : ℤ) (s : Scheduler) : Bool × Scheduler :=
  match loadTasks disk now with
  | .ok tasks => (true, { s with tasks, disk })
  | .error tasks => (false, { s with tasks, disk })

/-- The elements of the schedule file. -/
def storedElems (disk : Option Text) : List Json :=
  match disk.bind Json.parse with
  | some (.arr elems) => elems
  | _ => []

/-- The task of an element, unless it cannot be read or has no id or prompt. -/
def usableTask (now : ℤ) (j : Json) : Option ScheduledTask := do
  let t ← readTask j
  if t.id = [] ∨ t.prompt = [] then none else some { t with nextRun := loadedNextRun t now }

/-- Loading returns, with the usable elements in the order of the file. -/
def Loads (disk : Option Text) (now : ℤ) (s : Scheduler) : Prop :=
  setDataDir disk now s =
    (true, { s with tasks := (storedElems disk).filterMap (usableTask now), disk })

/-- A member is absent or has its type. -/
def MemberTyped {α : Type} (get : Json → Option α) (j : Json) (key : Text) : Prop :=
  ∀ v, j.find key = some v → (get v).isSome = true

/-- An object whose members for a task have their types. -/
structure Readable (j : Json) : Prop where
  object : j.isObject = true
  id : MemberTyped Json.getString j "id"
  enabled : MemberTyped Json.getBool j "enabled"
  prompt : MemberTyped Json.getString j "prompt"
  cron : MemberTyped Json.getString j "cron"
  atTime : MemberTyped Json.getInt32 j "at"
  everySeconds : MemberTyped Json.getInt32 j "every_seconds"
  once : MemberTyped Json.getBool j "once"
  created : MemberTyped Json.getInt32 j "created"
  lastRun : MemberTyped Json.getInt32 j "last_run"

theorem isSome_value_iff {α : Type} {get : Json → Option α} {j : Json} {key : Text} {default : α} :
    (j.value get key default).isSome = true ↔ j.isObject = true ∧ MemberTyped get j key := by
  cases j with
  | obj ms =>
    rw [Json.value, MemberTyped, Json.find]
    cases ms.lookup key with
    | none => exact iff_of_true rfl ⟨rfl, by rintro v ⟨⟩⟩
    | some v => exact ⟨fun h => ⟨rfl, fun _ hv => Option.some.inj hv ▸ h⟩, fun h => h.2 v rfl⟩
  | _ => exact iff_of_false (by rintro ⟨⟩) fun h => absurd h.1 Bool.false_ne_true

/-- A read at the head of others that is made whatever they are. -/
theorem isSome_bind_iff {α β : Type} {x : Option α} {f : α → Option β} {P : Prop}
    (h : ∀ a, (f a).isSome = true ↔ P) : (x >>= f).isSome = true ↔ x.isSome = true ∧ P := by
  cases x with
  | none => exact iff_of_false nofun nofun
  | some a => exact (h a).trans (iff_and_self.mpr fun _ => rfl)

/-- Exactly the objects whose members have their types can be read. -/
theorem isSome_readTask_iff {j : Json} : (readTask j).isSome = true ↔ Readable j := by
  have hread : (readTask j).isSome = true ↔
      (j.value Json.getString "id" []).isSome = true ∧
      (j.value Json.getBool "enabled" true).isSome = true ∧
      (j.value Json.getString "prompt" []).isSome = true ∧
      (j.value Json.getString "cron" []).isSome = true ∧
      (j.value Json.getInt32 "at" 0).isSome = true ∧
      (j.value Json.getInt32 "every_seconds" 0).isSome = true ∧
      (j.value Json.getBool "once" false).isSome = true ∧
      (j.value Json.getInt32 "created" 0).isSome = true ∧
      (j.value Json.getInt32 "last_run" 0).isSome = true ∧ True := by
    rw [readTask]
    repeat refine isSome_bind_iff fun _ => ?_
    exact iff_of_true rfl trivial
  rw [hread]
  simp only [isSome_value_iff]
  constructor
  · rintro ⟨⟨hobject, hid⟩, ⟨-, henabled⟩, ⟨-, hprompt⟩, ⟨-, hcron⟩, ⟨-, hat⟩, ⟨-, hevery⟩,
      ⟨-, honce⟩, ⟨-, hcreated⟩, ⟨-, hlastRun⟩, -⟩
    exact ⟨hobject, hid, henabled, hprompt, hcron, hat, hevery, honce, hcreated, hlastRun⟩
  · rintro ⟨hobject, hid, henabled, hprompt, hcron, hat, hevery, honce, hcreated, hlastRun⟩
    exact ⟨⟨hobject, hid⟩, ⟨hobject, henabled⟩, ⟨hobject, hprompt⟩, ⟨hobject, hcron⟩,
      ⟨hobject, hat⟩, ⟨hobject, hevery⟩, ⟨hobject, honce⟩, ⟨hobject, hcreated⟩,
      ⟨hobject, hlastRun⟩, trivial⟩

/-- The loop over the elements comes to its end exactly when all of them can be read. -/
theorem loadElems_eq_ok_iff (now : ℤ) (elems : List Json) (acc : List ScheduledTask) :
    loadElems now acc elems = .ok (acc ++ elems.filterMap (usableTask now)) ↔
      ∀ j ∈ elems, Readable j := by
  induction elems generalizing acc with
  | nil => exact iff_of_true (by rw [loadElems, List.filterMap_nil, List.append_nil]) nofun
  | cons j elems ih =>
    rw [List.forall_mem_cons, ← isSome_readTask_iff, loadElems]
    cases hread : readTask j with
    | none => exact iff_of_false nofun fun h => nomatch h.1
    | some t =>
      dsimp only
      have husable : usableTask now j =
          if t.id = [] ∨ t.prompt = [] then none
          else some { t with nextRun := loadedNextRun t now } := by
        rw [usableTask, hread]
        rfl
      split_ifs at husable ⊢ with hskip
      · rw [List.filterMap_cons_none husable, ih acc]
        exact (and_iff_right rfl).symm
      · have hrest := ih (acc ++ [{ t with nextRun := loadedNextRun t now }])
        rw [List.append_assoc, List.singleton_append] at hrest
        rw [List.filterMap_cons_some husable, hrest]
        exact (and_iff_right rfl).symm

theorem loadTasks_eq (disk : Option Text) (now : ℤ) :
    loadTasks disk now = loadElems now [] (storedElems disk) := by
  rw [loadTasks, storedElems]
  cases disk.bind Json.parse with
  | none => rfl
  | some doc => cases doc <;> rfl

/-- **Loading** returns with the usable elements exactly when the file is no array, or every
element is an object whose members have their types. -/
theorem setDataDir_iff (disk : Option Text) (now : ℤ) (s : Scheduler) :
    Loads disk now s ↔ ∀ j ∈ storedElems disk, Readable j := by
  have hload := loadElems_eq_ok_iff now (storedElems disk) []
  rw [List.nil_append] at hload
  rw [← hload, Loads, setDataDir, loadTasks_eq]
  cases loadElems now [] (storedElems disk) with
  | error tasks =>
    exact iff_of_false (fun h => Bool.false_ne_true (congrArg Prod.fst h)) (fun h => nomatch h)
  | ok tasks =>
    constructor
    · intro h
      exact congrArg Except.ok (congrArg (fun result => result.2.tasks) h)
    · intro h
      rw [Except.ok.inj h]

/-- A task, an array element that is a number, and another task. -/
def brokenSchedules : Text :=
  "[\x7b\"id\":\"0\",\"prompt\":\"p\"\x7d, 5, \x7b\"id\":\"1\",\"prompt\":\"q\"\x7d]"

/-- Loading throws at the number. -/
theorem not_setDataDir :
    ¬ ∀ (disk : Option Text) (now : ℤ) (s : Scheduler), Loads disk now s := by
  intro h
  have hloads := h (some brokenSchedules) 0 ⟨[], none, .idle⟩
  exact absurd (congrArg Prod.fst hloads) (by decide +kernel)

end Llamaste
