import Mathlib
import Llamaste.LlamaServerSingle

/-!
# A dead server is noticed

The heartbeat starts a server when none is loaded and no pid is known, and its watchdog
makes both so when the pid that is known is that of no process. A server whose monitor has
given up, or that never had one, is in neither state when it is gone, and no heartbeat
brings it back.

## Main results

* `heartbeat_restarts`: what the heartbeat does about a server that it notices to be gone.
* `noticed_of_along`: when a server is never left without a thread that looks after it, a
  dead one is noticed.
-/

namespace Llamaste

/-- One pass of the watchdog. -/
def watchdog (g : Engine) : Engine :=
  if g.modelLoaded = true ∧ g.pid ≠ 0 ∧ g.pid ∉ g.processes then
    { g with pid := 0, modelLoaded := false }
  else g

/-- The recovery branch starts a server, now or behind a pass of the watchdog. -/
structure Noticed (g : Engine) : Prop where
  pid : (watchdog g).pid = 0
  modelLoaded : (watchdog g).modelLoaded = false

namespace LlamaStage

/-- The thread is between its decision to start a server and the end of that attempt. -/
def attempting : LlamaStage → Bool
  | monitorReaped r => r + 1 < maxRetries
  | monitorSpawn _ => true
  | monitorHealth _ => true
  | monitorUp => true
  | callbackWait _ => true
  | callbackClear => true
  | callbackModel => true
  | callbackSpawn _ => true
  | callbackHealth _ => true
  | callbackUp => true
  | callbackMonitor => true
  | stuckLoad => true
  | stuckWait _ => true
  | stuckClear => true
  | beatSpawn => true
  | beatHealth => true
  | beatUp => true
  | beatMonitor => true
  | _ => false

/-- A monitor that waits for the process, or is about to. -/
def watches (p : ℕ) : LlamaStage → Bool
  | monitorLoad _ => true
  | monitorWait _ q => q = p
  | _ => false

/-- The thread looks after the server `p`: it is in an attempt of its own, or watches `p`. -/
def guards (p : ℕ) (stage : LlamaStage) : Bool := stage.attempting || stage.watches p

end LlamaStage

/-- No thread is in an attempt, and no monitor is about to wait for a server that has exited,
which is how a monitor comes to decide. -/
def Quiet (s : LlamaState) : Prop :=
  ∀ j, (s.threads j).attempting = false ∧
    (s.engine.pid ∈ s.engine.exited → (s.threads j).watches s.engine.pid = false)

/-! ### The heartbeat -/

/-- A step of the heartbeat while the file of the model is readable. -/
def heartbeat (x : Engine × LlamaStage) : Engine × LlamaStage :=
  x.2.next x.1 { readable := true }

/-- The heartbeat, left to itself, goes on to start a server. -/
def Restarts (g : Engine) : Prop :=
  ∃ n, Nat.iterate heartbeat n (g, .beat) = (watchdog g, .beatSpawn)

/-- **A server that is noticed to be gone is started again** by the next heartbeat. -/
theorem heartbeat_restarts {g : Engine} (h : Noticed g) : Restarts g := by
  obtain ⟨hpid, hloaded⟩ := h
  by_cases hgone : g.modelLoaded = true ∧ g.pid ≠ 0 ∧ g.pid ∉ g.processes
  · rw [Restarts, watchdog, if_pos hgone]
    refine ⟨6, ?_⟩
    simp only [Function.iterate_succ, Function.iterate_zero, Function.comp_apply, id_eq,
      heartbeat, LlamaStage.next, hgone.1, hgone.2.1, hgone.2.2, if_true, if_false, ne_eq,
      not_false_eq_true, Bool.false_eq_true, and_self]
  · rw [watchdog, if_neg hgone] at hpid hloaded
    rw [Restarts, watchdog, if_neg hgone]
    refine ⟨3, ?_⟩
    simp only [Function.iterate_succ, Function.iterate_zero, Function.comp_apply, id_eq,
      heartbeat, LlamaStage.next, hpid, hloaded, if_true, if_false, Bool.false_eq_true, and_self]

/-- A server that is gone is noticed, once the threads have come to rest. -/
def DeadNoticed (s : LlamaState) : Prop :=
  s.engine.alive = ∅ → Quiet s → Noticed s.engine ∧ Restarts s.engine

/-! ### Runs in which a server is looked after -/

/-- The step leaves no server unattended. A monitor does not give up for good, and where it
fails to start a server the pid is cleared already; a server is not called loaded where the
pid is cleared, nor the pid cleared where it is called loaded; and no server exits, or is
given up after it exited, unless another thread looks after it (`guarded`). -/
def LlamaStage.KeepsWatch (g : Engine) (a : Answer) (guarded : Prop) : LlamaStage → Prop
  | .monitorWait r p => p ∈ g.exited → r + 1 < maxRetries
  | .monitorSpawn _ => (g.spawnLlamaServer a.started).1 = false → g.pid = 0
  | .monitorUp => g.pid ≠ 0
  | .callbackUp => g.pid ≠ 0
  | .beatUp => g.pid ≠ 0
  | .stuckClear => g.modelLoaded = false
  | .callbackHealth rpc => a.healthy = false → rpc = false → g.pid ∈ g.exited → guarded
  | .beatHealth => a.healthy = false → g.pid ∈ g.exited → guarded
  | .pollKill p => p ∈ g.alive → guarded
  | _ => True

/-- The event leaves no server unattended. -/
def KeepsWatch (s : LlamaState) : LlamaEvent → Prop
  | .exit p => p ∈ s.engine.alive → ∃ j, (s.threads j).guards s.engine.pid = true
  | .topology _ => True
  | .step i a => SpawnsAlone s (.step i a) ∧
      (s.threads i).KeepsWatch s.engine a
        (∃ j, j ≠ i ∧ (s.threads j).guards s.engine.pid = true)

namespace LlamaStage

/-- A monitor has retries left. -/
def hasRetries : LlamaStage → Bool
  | monitorLoad r => r < maxRetries
  | monitorWait r _ => r < maxRetries
  | monitorReaped r => r + 1 < maxRetries
  | monitorSpawn r => r < maxRetries
  | monitorHealth r => r < maxRetries
  | _ => true

/-- The process that the pid names was waited for, and the pid is still to be replaced. -/
def holdsStale : LlamaStage → Bool
  | monitorReaped _ => true
  | monitorSpawn _ => true
  | callbackClear => true
  | stuckClear => true
  | _ => false

/-- The pid is cleared. -/
def foundCleared : LlamaStage → Bool
  | callbackModel => true
  | callbackSpawn _ => true
  | beatSpawn => true
  | _ => false

theorem committed_of_foundCleared {stage : LlamaStage} (h : stage.foundCleared = true) :
    stage.committed = some 0 := by
  cases stage <;> first | rfl | exact nomatch h

theorem attempting_of_holdsStale {stage : LlamaStage} (h : stage.holdsStale = true)
    (hretries : stage.hasRetries = true) : stage.attempting = true := by
  cases stage <;> first | rfl | exact hretries | exact nomatch h

end LlamaStage

/-- What one thread sees of a server that is looked after, where `stale` says that another
thread is to replace a stale pid and `guarded` that another one looks after the server. -/
structure Attended (g : Engine) (stage : LlamaStage) (stale guarded : Prop) : Prop where
  retries : stage.hasRetries = true
  known : g.pid ≠ 0 → g.pid ∈ g.processes ∨ stage.holdsStale = true ∨ stale
  guarded : g.pid ∈ g.exited → stage.guards g.pid = true ∨ guarded
  cleared : stage.foundCleared = true → g.pid = 0
  unloaded : g.pid = 0 → g.modelLoaded = false

theorem LlamaStage.guards_of_attempting (stage : LlamaStage) (h : stage.attempting = true)
    (p : ℕ) : stage.guards p = true := by
  rw [guards, h, Bool.true_or]

namespace Attended

variable {g : Engine} {stage stage' : LlamaStage} {stale guarded : Prop}

/-- A step that leaves the pid and the processes. -/
theorem moves (h : Attended g stage stale guarded) {modelLoaded : Bool}
    (hretries : stage'.hasRetries = true)
    (hstale : stage.holdsStale = true → stage'.holdsStale = true)
    (hguards : g.pid ∈ g.exited → stage.guards g.pid = true →
      stage'.guards g.pid = true ∨ guarded)
    (hcleared : stage'.foundCleared = true → g.pid = 0)
    (hunloaded : g.pid = 0 → modelLoaded = false) :
    Attended { g with modelLoaded } stage' stale guarded where
  retries := hretries
  known hpid := (h.known hpid).imp_right (Or.imp_left hstale)
  guarded hexited := (h.guarded hexited).elim (hguards hexited) Or.inr
  cleared := hcleared
  unloaded := hunloaded

/-- A thread that is no guard goes to any stage that the pid allows. -/
theorem silent (h : Attended g stage stale guarded)
    (hretries : stage'.hasRetries = true) (hstale : stage.holdsStale = false)
    (hguards : stage.guards g.pid = false) (hcleared : stage'.foundCleared = true → g.pid = 0) :
    Attended g stage' stale guarded :=
  h.moves hretries (fun ht => absurd (hstale.symm.trans ht) Bool.false_ne_true)
    (fun _ ht => absurd (hguards.symm.trans ht) Bool.false_ne_true) hcleared h.unloaded

/-- A thread goes to a stage of an attempt. -/
theorem attempts (h : Attended g stage stale guarded)
    (hretries : stage'.hasRetries = true) (hstale : stage.holdsStale = false)
    (hattempting : stage'.attempting = true)
    (hcleared : stage'.foundCleared = true → g.pid = 0) :
    Attended g stage' stale guarded :=
  h.moves hretries (fun ht => absurd (hstale.symm.trans ht) Bool.false_ne_true)
    (fun _ _ => Or.inl (stage'.guards_of_attempting hattempting _)) hcleared h.unloaded

/-- The pid is cleared, and the server is not called loaded. -/
theorem of_pid_eq_zero (hzero : 0 ∉ g.processes) (hpid : g.pid = 0)
    (hunloaded : g.modelLoaded = false) (hretries : stage'.hasRetries = true) :
    Attended g stage' stale guarded where
  retries := hretries
  known hne := absurd hpid hne
  guarded hexited := absurd (Engine.mem_processes.mpr (Or.inr (hpid ▸ hexited))) hzero
  cleared _ := hpid
  unloaded _ := hunloaded

/-- A callback waits for the server. -/
theorem waits (h : Attended g stage stale guarded) {after : LlamaStage} (p : ℕ)
    (hattempting : after.attempting = true) (hstale : after.holdsStale = true)
    (hretries : after.hasRetries = true) (hcleared : after.foundCleared = false) :
    Attended (g.waitpid p).2 (LlamaStage.waits stage after after (g.waitpid p).1) stale
      guarded := by
  rcases Engine.waitpid_cases g p with ⟨-, hwait⟩ | ⟨-, -, hwait⟩ | ⟨-, hwait⟩
  · rw [hwait]
    exact h
  · rw [hwait]
    exact ⟨hretries, fun _ => Or.inr (Or.inl hstale),
      fun _ => Or.inl (after.guards_of_attempting hattempting _),
      fun ht => absurd (hcleared.symm.trans ht) Bool.false_ne_true, h.unloaded⟩
  · rw [hwait]
    exact ⟨hretries, fun _ => Or.inr (Or.inl hstale),
      fun _ => Or.inl (after.guards_of_attempting hattempting _),
      fun ht => absurd (hcleared.symm.trans ht) Bool.false_ne_true, h.unloaded⟩

/-- A monitor waits for the server. -/
theorem monitorWaits {r p : ℕ} (h : Attended g (.monitorWait r p) stale guarded)
    (hallowed : p ∈ g.exited → r + 1 < maxRetries) (a : Answer) :
    Attended (LlamaStage.next g a (.monitorWait r p)).1
      (LlamaStage.next g a (.monitorWait r p)).2 stale guarded := by
  have hno {P : Prop} : false = true → P := Bool.false_ne_true.elim
  simp only [LlamaStage.next]
  rcases Engine.waitpid_cases g p with ⟨-, hwait⟩ | ⟨-, hexited, hwait⟩ | ⟨hgone, hwait⟩
  · rw [hwait]
    exact h
  · rw [hwait]
    have hleft : decide (r + 1 < maxRetries) = true := decide_eq_true (hallowed hexited)
    exact ⟨hleft, fun _ => Or.inr (Or.inl rfl),
      fun _ => Or.inl ((LlamaStage.monitorReaped r).guards_of_attempting hleft _), hno,
      h.unloaded⟩
  · rw [hwait]
    refine h.moves rfl hno (fun hexited ht => ?_) hno h.unloaded
    obtain rfl := of_decide_eq_true ht
    exact absurd (Engine.mem_processes.mpr (Or.inr hexited)) hgone

/-- A thread starts a server, or fails to where the pid is cleared. -/
theorem spawns (h : Attended g stage stale guarded) (hzero : 0 ∉ g.processes)
    (started : Option ℕ) {failed : LlamaStage}
    (hfails : (g.spawnLlamaServer started).1 = false → g.pid = 0)
    (hretries : stage'.hasRetries = true) (hcleared : stage'.foundCleared = false)
    (hretries' : failed.hasRetries = true) :
    Attended (g.spawnLlamaServer started).2
      (if (g.spawnLlamaServer started).1 then stage' else failed) stale guarded := by
  rcases g.spawnLlamaServer_cases started with ⟨q, hq, hfresh, hspawn⟩ | hspawn
  · rw [hspawn, if_pos rfl]
    refine ⟨hretries, fun _ => Or.inl ?_, fun hexited => ?_,
      fun ht => absurd (hcleared.symm.trans ht) Bool.false_ne_true, fun hpid => absurd hpid hq⟩
    · exact Engine.mem_processes.mpr (Or.inl (Finset.mem_insert_self q g.alive))
    · exact absurd (Engine.mem_processes.mpr (Or.inr hexited) : q ∈ g.processes) hfresh
  · have hpid := hfails (congrArg Prod.fst hspawn)
    rw [hspawn, if_neg Bool.false_ne_true]
    exact of_pid_eq_zero hzero hpid (h.unloaded hpid) hretries'

/-- The server exits, and another thread looks after it. -/
theorem exit (h : Attended g stage stale guarded) {p : ℕ}
    (hguarded : p ∈ g.alive → stage.guards g.pid = true ∨ guarded) :
    Attended (g.exit p) stage stale guarded where
  retries := h.retries
  known hpid := by
    rw [Engine.exit_pid] at hpid ⊢
    rw [Engine.processes_exit]
    exact h.known hpid
  guarded hexited := by
    rw [Engine.exit_pid] at hexited ⊢
    rw [Engine.exit] at hexited
    split_ifs at hexited with halive
    · exact hguarded halive
    · exact h.guarded hexited
  cleared ht := by
    rw [Engine.exit_pid]
    exact h.cleared ht
  unloaded hpid := by
    rw [Engine.exit_pid] at hpid
    rw [Engine.exit_modelLoaded]
    exact h.unloaded hpid

end Attended

/-- **A step leaves the server attended to**, when it is one that keeps watch. A thread that
starts a monitor leaves it as the guard. -/
theorem next_attended {g : Engine} {stage : LlamaStage} {stale guarded : Prop}
    (hzero : 0 ∉ g.processes) {a : Answer} (hallowed : stage.KeepsWatch g a guarded)
    (hmonitor : stage.startsMonitor = true → guarded) (h : Attended g stage stale guarded) :
    Attended (stage.next g a).1 (stage.next g a).2 stale guarded := by
  have hno {P : Prop} : false = true → P := Bool.false_ne_true.elim
  cases stage with
  | idle => exact h
  | monitorLoad r =>
      rw [LlamaStage.next]
      split_ifs with hr
      · have hwatches : (LlamaStage.monitorWait r g.pid).guards g.pid = true :=
          Bool.or_eq_true_iff.mpr (Or.inr (decide_eq_true rfl))
        exact h.moves h.retries hno (fun _ _ => Or.inl hwatches) hno
          h.unloaded
      · have hpid : g.pid = 0 := by
          by_contra hne
          exact hr ⟨of_decide_eq_true h.retries, hne⟩
        exact .of_pid_eq_zero hzero hpid (h.unloaded hpid) rfl
  | monitorWait r p => exact h.monitorWaits hallowed a
  | monitorReaped r =>
      rw [LlamaStage.next, if_pos (of_decide_eq_true h.retries)]
      exact h.moves h.retries (fun _ => rfl) (fun _ _ => Or.inl rfl) hno fun _ => rfl
  | monitorSpawn r => exact h.spawns hzero a.started hallowed h.retries rfl h.retries
  | monitorHealth r =>
      rw [LlamaStage.next]
      split_ifs
      · exact h.attempts rfl rfl rfl hno
      · exact h.moves h.retries hno (fun _ _ => Or.inl rfl) hno h.unloaded
  | monitorUp =>
      exact h.moves rfl hno (fun _ _ => Or.inl rfl) hno
        fun hpid => absurd hpid hallowed
  | callbackLoad =>
      rw [LlamaStage.next]
      split_ifs with hpid
      · exact h.attempts rfl rfl rfl hno
      · exact h.attempts rfl rfl rfl fun _ => not_not.mp hpid
  | callbackWait p => exact h.waits p rfl rfl rfl rfl
  | callbackClear => exact .of_pid_eq_zero hzero rfl rfl rfl
  | callbackModel =>
      have hpid := h.cleared rfl
      refine .of_pid_eq_zero hzero hpid (h.unloaded hpid) ?_
      rw [LlamaStage.next]
      cases a.model <;> rfl
  | callbackSpawn rpc => exact h.spawns hzero a.started (fun _ => h.cleared rfl) rfl rfl rfl
  | callbackHealth rpc =>
      rw [LlamaStage.next]
      split_ifs with hhealthy hrpc
      · exact h.attempts rfl rfl rfl hno
      · exact h.attempts rfl rfl rfl hno
      · exact h.moves rfl hno
          (fun hexited _ => Or.inr (hallowed (Bool.eq_false_iff.mpr hhealthy)
            (Bool.eq_false_iff.mpr hrpc) hexited)) hno h.unloaded
  | callbackUp =>
      exact h.moves rfl hno (fun _ _ => Or.inl rfl) hno
        fun hpid => absurd hpid hallowed
  | callbackMonitor =>
      exact h.moves rfl hno (fun _ _ => Or.inr (hmonitor rfl)) hno h.unloaded
  | stuckLoad =>
      rw [LlamaStage.next]
      split_ifs with hpid
      · exact h.attempts rfl rfl rfl hno
      · exact h.attempts rfl rfl rfl fun _ => not_not.mp hpid
  | stuckWait p => exact h.waits p rfl rfl rfl rfl
  | stuckClear => exact .of_pid_eq_zero hzero rfl hallowed rfl
  | beat =>
      rw [LlamaStage.next]
      split_ifs <;> exact h.silent rfl rfl rfl hno
  | beatLoad =>
      rw [LlamaStage.next]
      split_ifs <;> exact h.silent rfl rfl rfl hno
  | beatProbe p =>
      rw [LlamaStage.next]
      split_ifs <;> exact h.silent rfl rfl rfl hno
  | beatClear => exact .of_pid_eq_zero hzero rfl rfl rfl
  | beatCheck =>
      rw [LlamaStage.next]
      split_ifs <;> exact h.silent rfl rfl rfl hno
  | beatCheckPid =>
      rw [LlamaStage.next]
      split_ifs with hpid
      · exact h.silent rfl rfl rfl fun _ => hpid.1
      · exact h.silent rfl rfl rfl hno
  | beatSpawn => exact h.spawns hzero a.started (fun _ => h.cleared rfl) rfl rfl rfl
  | beatHealth =>
      rw [LlamaStage.next]
      split_ifs with hhealthy
      · exact h.attempts rfl rfl rfl hno
      · exact h.moves rfl hno
          (fun hexited _ => Or.inr (hallowed (Bool.eq_false_iff.mpr hhealthy) hexited)) hno
          h.unloaded
  | beatUp =>
      exact h.moves rfl hno (fun _ _ => Or.inl rfl) hno
        fun hpid => absurd hpid hallowed
  | beatMonitor =>
      exact h.moves rfl hno (fun _ _ => Or.inr (hmonitor rfl)) hno h.unloaded
  | poll fails =>
      rw [LlamaStage.next]
      split_ifs <;> exact h.silent rfl rfl rfl hno
  | pollProbe fails =>
      rw [LlamaStage.next]
      split_ifs <;> exact h.silent rfl rfl rfl hno
  | pollLoad => exact h.silent rfl rfl rfl hno
  | pollKill p =>
      have hidle : Attended g (.poll 0) stale guarded := h.silent rfl rfl rfl hno
      exact hidle.exit fun halive => Or.inr (hallowed halive)

/-- What a step does to the pid. -/
theorem pid_next (g : Engine) (stage : LlamaStage) (a : Answer) :
    (stage.next g a).1.pid = g.pid ∨ (stage.next g a).1.pid = 0 ∨
      stage.spawns = true ∧ (g.spawnLlamaServer a.started).1 = true ∧
        (stage.next g a).1.pid ∉ (stage.next g a).1.exited := by
  have hspawn : (g.spawnLlamaServer a.started).2.pid = g.pid ∨
      (g.spawnLlamaServer a.started).1 = true ∧
        (g.spawnLlamaServer a.started).2.pid ∉ (g.spawnLlamaServer a.started).2.exited := by
    rcases g.spawnLlamaServer_cases a.started with ⟨q, -, hfresh, h⟩ | h
    · refine Or.inr ⟨congrArg Prod.fst h, fun hexited => ?_⟩
      rw [h] at hexited
      exact absurd (Engine.mem_processes.mpr (Or.inr hexited) : q ∈ g.processes) hfresh
    · exact Or.inl (by rw [h])
  cases stage with
  | monitorSpawn r => exact hspawn.imp_right fun h => Or.inr ⟨rfl, h⟩
  | callbackSpawn rpc => exact hspawn.imp_right fun h => Or.inr ⟨rfl, h⟩
  | beatSpawn => exact hspawn.imp_right fun h => Or.inr ⟨rfl, h⟩
  | monitorWait r p => exact Or.inl (g.pid_waitpid p)
  | callbackWait p => exact Or.inl (g.pid_waitpid p)
  | stuckWait p => exact Or.inl (g.pid_waitpid p)
  | pollKill p => exact Or.inl Engine.exit_pid
  | callbackClear => exact Or.inr (Or.inl rfl)
  | stuckClear => exact Or.inr (Or.inl rfl)
  | beatClear => exact Or.inr (Or.inl rfl)
  | _ => exact Or.inl rfl

/-! ### Runs -/

/-- Some thread looks after the server, or is to replace it. -/
structure LookedAfter (s : LlamaState) : Prop where
  single : Single s
  retries : ∀ j, (s.threads j).hasRetries = true
  known : s.engine.pid ≠ 0 →
    s.engine.pid ∈ s.engine.processes ∨ ∃ j, (s.threads j).holdsStale = true
  guarded : s.engine.pid ∈ s.engine.exited → ∃ j, (s.threads j).guards s.engine.pid = true
  cleared : ∀ j, (s.threads j).foundCleared = true → s.engine.pid = 0
  unloaded : s.engine.pid = 0 → s.engine.modelLoaded = false

/-- **A dead server is noticed** in a state in which it was looked after. -/
theorem LookedAfter.noticed {s : LlamaState} (h : LookedAfter s) : DeadNoticed s := by
  intro hdead hquiet
  have hpid : s.engine.pid = 0 := by
    by_contra hne
    rcases h.known hne with hprocess | ⟨j, hj⟩
    · have hexited : s.engine.pid ∈ s.engine.exited := by
        rcases Engine.mem_processes.mp hprocess with halive | hexited
        · rw [hdead] at halive
          exact absurd halive (Finset.notMem_empty _)
        · exact hexited
      obtain ⟨j, hj⟩ := h.guarded hexited
      rcases Bool.or_eq_true_iff.mp hj with hj | hj
      · exact Bool.false_ne_true ((hquiet j).1.symm.trans hj)
      · exact Bool.false_ne_true (((hquiet j).2 hexited).symm.trans hj)
    · have hattempting := LlamaStage.attempting_of_holdsStale hj (h.retries j)
      exact Bool.false_ne_true ((hquiet j).1.symm.trans hattempting)
  have hwatchdog : watchdog s.engine = s.engine := if_neg fun hgone => hgone.2.1 hpid
  have hnoticed : Noticed s.engine :=
    ⟨by rw [hwatchdog, hpid], by rw [hwatchdog, h.unloaded hpid]⟩
  exact ⟨hnoticed, heartbeat_restarts hnoticed⟩

/-- Of all threads it is one, or one of the others. -/
theorem exists_self_or_other {P : ℕ → Prop} (i : ℕ) (h : ∃ j, P j) :
    P i ∨ ∃ j, j ≠ i ∧ P j := by
  obtain ⟨j, hj⟩ := h
  by_cases hji : j = i
  · exact Or.inl (hji ▸ hj)
  · exact Or.inr ⟨j, hji, hj⟩

namespace LlamaStage.Left

variable {stage stage' : LlamaStage}

theorem holdsStale (h : stage.Left stage') (ht : stage.holdsStale = true) :
    stage'.holdsStale = true := by
  rcases h with rfl | ⟨rfl, -⟩
  · exact ht
  · exact nomatch ht

theorem guards (h : stage.Left stage') {p : ℕ} (ht : stage.guards p = true) :
    stage'.guards p = true := by
  rcases h with rfl | ⟨rfl, -⟩
  · exact ht
  · exact nomatch ht

theorem hasRetries (h : stage.Left stage') (ht : stage.hasRetries = true) :
    stage'.hasRetries = true := by
  rcases h with rfl | ⟨-, rfl | rfl⟩
  · exact ht
  · rfl
  · rfl

theorem foundCleared (h : stage.Left stage') (ht : stage'.foundCleared = true) :
    stage.foundCleared = true := by
  rcases h with rfl | ⟨-, rfl | rfl⟩
  · exact ht
  · exact nomatch ht
  · exact nomatch ht

end LlamaStage.Left

/-- A step that keeps watch does so whoever the other guard is. -/
theorem LlamaStage.KeepsWatch.mono {g : Engine} {a : Answer} {stage : LlamaStage} {P Q : Prop}
    (h : stage.KeepsWatch g a P) (hPQ : P → Q) : stage.KeepsWatch g a Q := by
  cases stage with
  | callbackHealth rpc => exact fun hhealthy hrpc hexited => hPQ (h hhealthy hrpc hexited)
  | beatHealth => exact fun hhealthy hexited => hPQ (h hhealthy hexited)
  | pollKill p => exact fun halive => hPQ (h halive)
  | _ => exact h

/-- The step of a thread leaves the server looked after. -/
theorem lookedAfter_stepped {s s' : LlamaState} {i : ℕ} {a : Answer}
    (halone : SpawnsAlone s (.step i a))
    (hallowed : (s.threads i).KeepsWatch s.engine a
      (∃ j, j ≠ i ∧ (s.threads j).guards s.engine.pid = true))
    (h : LookedAfter s) (hstep : Stepped s i a s') (hsingle : Single s') : LookedAfter s' := by
  have hself : Attended s.engine (s.threads i)
      (∃ j, j ≠ i ∧ (s'.threads j).holdsStale = true)
      (∃ j, j ≠ i ∧ (s'.threads j).guards s.engine.pid = true) := by
    refine ⟨h.retries i, fun hpid => ?_, fun hexited => ?_, h.cleared i, h.unloaded⟩
    · exact (h.known hpid).imp_right fun hstale => (exists_self_or_other i hstale).imp_right
        fun ⟨j, hji, hj⟩ => ⟨j, hji, (hstep.others j hji).holdsStale hj⟩
    · exact (exists_self_or_other i (h.guarded hexited)).imp_right
        fun ⟨j, hji, hj⟩ => ⟨j, hji, (hstep.others j hji).guards hj⟩
  have hnext := next_attended h.single.nonzero
    (hallowed.mono fun ⟨j, hji, hj⟩ => ⟨j, hji, (hstep.others j hji).guards hj⟩)
    (fun hstarts => (hstep.monitor hstarts).imp fun k hk => ⟨hk.1, by rw [hk.2]; rfl⟩) hself
  have hpid := pid_next s.engine (s.threads i) a
  rw [← hstep.engine, ← hstep.self] at hnext
  rw [← hstep.engine] at hpid
  refine ⟨hsingle, fun j => ?_, fun hne => ?_, fun hexited => ?_, fun j hj => ?_, hnext.unloaded⟩
  · by_cases hji : j = i
    · subst hji
      exact hnext.retries
    · exact (hstep.others j hji).hasRetries (h.retries j)
  · exact (hnext.known hne).imp_right fun hstale =>
      hstale.elim (fun hi => ⟨i, hi⟩) fun ⟨j, _, hj⟩ => ⟨j, hj⟩
  · rcases hpid with hsame | hzero | ⟨-, -, hfresh⟩
    · rcases hnext.guarded hexited with hi | ⟨j, -, hj⟩
      · exact ⟨i, hi⟩
      · exact ⟨j, by rw [hsame]; exact hj⟩
    · exact absurd (Engine.mem_processes.mpr (Or.inr (hzero ▸ hexited))) hsingle.nonzero
    · exact absurd hexited hfresh
  · by_cases hji : j = i
    · subst hji
      exact hnext.cleared hj
    · have hcleared := (hstep.others j hji).foundCleared hj
      rcases hpid with hsame | hzero | ⟨hspawns, hstarted, -⟩
      · rw [hsame]
        exact h.cleared j hcleared
      · exact hzero
      · have hcommitted := LlamaStage.committed_of_foundCleared hcleared
        exact nomatch (halone hspawns hstarted j hji).symm.trans hcommitted

/-- **Each event leaves the server looked after**, when it is one that keeps watch. -/
theorem lookedAfter_llamaStep {s : LlamaState} {e : LlamaEvent} (he : KeepsWatch s e)
    (h : LookedAfter s) : LookedAfter (llamaStep s e).2 := by
  cases e with
  | exit p =>
      have hsingle := single_llamaStep (e := .exit p) trivial h.single
      refine ⟨hsingle, h.retries, fun hpid => ?_, fun hexited => ?_, fun j hj => ?_,
        fun hpid => ?_⟩
      all_goals simp only [llamaStep, Engine.exit_pid, Engine.processes_exit,
        Engine.exit_modelLoaded] at *
      · exact h.known hpid
      · rw [Engine.exit] at hexited
        split_ifs at hexited with halive
        · exact he halive
        · exact h.guarded hexited
      · exact h.cleared j hj
      · exact h.unloaded hpid
  | topology i =>
      have hsingle := single_llamaStep (e := .topology i) trivial h.single
      obtain ⟨hengine, hleft⟩ := llamaStep_topology s i
      refine ⟨hsingle, fun j => (hleft j).hasRetries (h.retries j), ?_, ?_, fun j hj => ?_, ?_⟩
      · rw [hengine]
        exact fun hpid => (h.known hpid).imp_right <|
          Exists.imp fun j hj => (hleft j).holdsStale hj
      · rw [hengine]
        exact fun hexited => (h.guarded hexited).imp fun j hj => (hleft j).guards hj
      · rw [hengine]
        exact h.cleared j ((hleft j).foundCleared hj)
      · rw [hengine]
        exact h.unloaded
  | step i a =>
      have hsingle := single_llamaStep he.1 h.single
      rcases llamaStep_step s i a with hstep | hstep
      · exact lookedAfter_stepped he.1 he.2 h hstep hsingle
      · rw [hstep]
        exact h

/-- The state behind the start of the system. -/
theorem lookedAfter_bootState {p : ℕ} (hp : p ≠ 0) (modelLoaded : Bool) :
    LookedAfter (bootState p modelLoaded) := by
  refine ⟨single_bootState hp modelLoaded, fun j => ?_, fun _ => Or.inl ?_, fun hexited => ?_,
    fun j hj => ?_, fun hpid => absurd hpid hp⟩
  · rcases j with _ | _ | _ | j <;> rfl
  · exact Engine.mem_processes.mpr (Or.inl (Finset.mem_singleton_self p))
  · exact absurd hexited (Finset.notMem_empty _)
  · rcases j with _ | _ | _ | j <;> exact nomatch hj

/-- **A dead server is noticed, however it died.** In every run whose events keep watch over
the server, a heartbeat starts another one in each state in which it is gone and the threads
have come to rest. -/
theorem noticed_of_along {p : ℕ} (hp : p ≠ 0) (modelLoaded : Bool) {events : List LlamaEvent}
    (halong : Machine.Along llamaStep KeepsWatch (bootState p modelLoaded) events) :
    DeadNoticed (llamaRun (bootState p modelLoaded) events) :=
  (halong.final_invariant (fun _ _ he h => lookedAfter_llamaStep he h)
    (lookedAfter_bootState hp modelLoaded)).noticed

/-- The callback waits for the server that it has killed, and finds no model. -/
def noModelRun : List LlamaEvent :=
  [.topology 3, .step 3 {}, .exit 10, .step 3 {}, .step 3 {}, .step 3 {}]

theorem noticed_of_along_sample :
    Machine.Along llamaStep KeepsWatch (bootState 10 true) noModelRun ∧
    DeadNoticed (llamaRun (bootState 10 true) noModelRun) := by
  have halong : Machine.Along llamaStep KeepsWatch (bootState 10 true) noModelRun :=
    ⟨trivial, ⟨(fun h => nomatch h), trivial⟩, fun _ => ⟨3, rfl⟩,
      ⟨(fun h => nomatch h), trivial⟩, ⟨(fun h => nomatch h), trivial⟩,
      ⟨(fun h => nomatch h), trivial⟩, trivial⟩
  exact ⟨halong, noticed_of_along (by decide) true halong⟩

/-- The server crashes three times before it is found healthy, and its monitor gives up. -/
def crashRun : List LlamaEvent :=
  [.step 2 {}, .exit 10, .step 2 {}, .step 2 {}, .step 2 { started := some 11 }, .step 2 {},
    .step 2 {}, .exit 11, .step 2 {}, .step 2 {}, .step 2 { started := some 12 }, .step 2 {},
    .step 2 {}, .exit 12, .step 2 {}, .step 2 {}]

/-- The threads have come to rest, and no process is left. -/
theorem crashRun_quiet : Quiet (llamaRun (bootState 10 true) crashRun) := by
  have hexited : (llamaRun (bootState 10 true) crashRun).engine.exited = ∅ := by decide +kernel
  intro j
  refine ⟨?_, fun h => absurd h (by rw [hexited]; exact Finset.notMem_empty _)⟩
  by_cases hj : j = 0 ∨ j = 2
  · rcases hj with rfl | rfl <;> decide +kernel
  · obtain ⟨hzero, htwo⟩ := not_or.mp hj
    rw [llamaRun_threads (by simp [crashRun, LlamaEvent.spares, hzero, htwo])]
    rcases j with _ | _ | _ | j <;> rfl

/-- The pid of the last server stays, and no heartbeat starts another one. -/
theorem not_deadNoticed : ¬ ∀ (p : ℕ) (modelLoaded : Bool) (events : List LlamaEvent), p ≠ 0 →
    DeadNoticed (llamaRun (bootState p modelLoaded) events) := by
  intro h
  have hdead : (llamaRun (bootState 10 true) crashRun).engine.alive = ∅ := by decide +kernel
  have hnoticed := (h 10 true crashRun (by decide) hdead crashRun_quiet).1.pid
  have hstale : (watchdog (llamaRun (bootState 10 true) crashRun).engine).pid = 12 := by
    decide +kernel
  omega

end Llamaste
