import Llamaste.LlamaServer

/-!
# At most one server

A thread that has found its server gone, or is about to replace it, goes on to start another
one whatever the other threads do. Two threads that do so at once leave two servers, and one
that clears the pid of a server that another has just started loses it.

## Main results

* `oneServer_of_along`: when servers are started by one thread at a time, there is at most
  one, and `g_llama_pid` is its pid.
-/

namespace Llamaste

/-- At most one server is alive, and the threads know its pid. -/
structure OneServer (g : Engine) : Prop where
  card_le : g.alive.card ≤ 1
  pid_eq : ∀ p ∈ g.alive, g.pid = p

namespace LlamaStage

/-- A thread that goes on to start a server or to clear the pid: the process that it takes to
be the only one till then, or `0` where it takes it that there is none. -/
def committed : LlamaStage → Option ℕ
  | monitorReaped r => if r + 1 < maxRetries then some 0 else none
  | monitorSpawn _ => some 0
  | callbackWait p => some p
  | callbackClear => some 0
  | callbackModel => some 0
  | callbackSpawn _ => some 0
  | stuckWait p => some p
  | stuckClear => some 0
  | beatProbe p => some p
  | beatClear => some 0
  | beatSpawn => some 0
  | _ => none

/-- The next step of the thread starts a server. -/
def spawns : LlamaStage → Bool
  | monitorSpawn _ => true
  | callbackSpawn _ => true
  | beatSpawn => true
  | _ => false

end LlamaStage

/-- Where the event starts a server, no other thread is about to start one or to clear the
pid. -/
def SpawnsAlone (s : LlamaState) : LlamaEvent → Prop
  | .step i a => (s.threads i).spawns = true →
      (s.engine.spawnLlamaServer a.started).1 = true →
      ∀ j, j ≠ i → (s.threads j).committed = none
  | _ => True

/-- No process is left but `p`. -/
def Engine.Only (g : Engine) (p : ℕ) : Prop := ∀ q ∈ g.processes, q = p

/-- The processes that are left are the one that `g_llama_pid` names, and what a thread is
committed to is true. -/
structure Single (s : LlamaState) : Prop where
  nonzero : 0 ∉ s.engine.processes
  pid : s.engine.Only s.engine.pid
  committed : ∀ j p, (s.threads j).committed = some p → s.engine.Only p

theorem Single.oneServer {s : LlamaState} (h : Single s) : OneServer s.engine := by
  have halive : ∀ p ∈ s.engine.alive, p = s.engine.pid := fun p hp =>
    h.pid p (Engine.mem_processes.mpr (Or.inl hp))
  refine ⟨Finset.card_le_one.mpr fun p hp q hq => ?_, fun p hp => (halive p hp).symm⟩
  rw [halive p hp, halive q hq]

namespace Engine

variable {g g' : Engine}

theorem Only.mono {p : ℕ} (h : g.Only p) (hsub : g'.processes ⊆ g.processes) : g'.Only p :=
  fun q hq => h q (hsub hq)

/-- Where no process is left but one without a pid, none is left. -/
theorem Only.none (h : g.Only 0) (hzero : 0 ∉ g.processes) (q : ℕ) : q ∉ g.processes :=
  fun hq => hzero (h q hq ▸ hq)

theorem processes_waitpid_subset (g : Engine) (p : ℕ) :
    (g.waitpid p).2.processes ⊆ g.processes := by
  rcases waitpid_cases g p with ⟨-, h⟩ | ⟨-, -, h⟩ | ⟨-, h⟩
  · rw [h]
  · rw [h]
    exact Finset.union_subset_union_right (Finset.erase_subset p _)
  · rw [h]

@[simp] theorem pid_waitpid (g : Engine) (p : ℕ) : (g.waitpid p).2.pid = g.pid := by
  rcases waitpid_cases g p with ⟨-, h⟩ | ⟨-, -, h⟩ | ⟨-, h⟩ <;> rw [h]

/-- Behind a wait for the only process no process is left. -/
theorem Only.waitpid {p : ℕ} (h : g.Only p) (hreturns : (g.waitpid p).1 ≠ .blocks) :
    (g.waitpid p).2.Only 0 := by
  rcases waitpid_cases g p with ⟨-, hwait⟩ | ⟨halive, -, hwait⟩ | ⟨hgone, hwait⟩
  · exact absurd (congrArg Prod.fst hwait) hreturns
  · intro q hq
    rw [hwait, mem_processes] at hq
    rcases hq with hq | hq
    · exact absurd (h q (mem_processes.mpr (Or.inl hq)) ▸ hq) halive
    · exact absurd (h q (mem_processes.mpr (Or.inr (Finset.mem_of_mem_erase hq))))
        (Finset.ne_of_mem_erase hq)
  · intro q hq
    rw [hwait] at hq
    exact absurd (h q hq ▸ hq) hgone

end Engine

/-! ### One step -/

/-- What a step leaves to the thread that takes it. -/
structure Keeps (g : Engine) (stage : LlamaStage) : Prop where
  nonzero : 0 ∉ g.processes
  pid : g.Only g.pid
  committed : ∀ p, stage.committed = some p → g.Only p

namespace Keeps

variable {g : Engine} {stage : LlamaStage}

/-- The thread goes to a stage that is not committed. -/
theorem uncommitted (h : Keeps g stage) {stage' : LlamaStage} (hstage : stage'.committed = none)
    (modelLoaded : Bool) : Keeps { g with modelLoaded } stage' :=
  ⟨h.nonzero, h.pid, fun _ hp => nomatch hstage.symm.trans hp⟩

/-- The thread commits itself to what the shared pid says, or to what it was committed to. -/
theorem commits (h : Keeps g stage) {stage' : LlamaStage} {p : ℕ}
    (hstage : stage'.committed = some p) (hp : g.pid = p ∨ stage.committed = some p)
    (modelLoaded : Bool) : Keeps { g with modelLoaded } stage' := by
  refine ⟨h.nonzero, h.pid, fun q hq => ?_⟩
  obtain rfl := Option.some.inj (hstage.symm.trans hq)
  rcases hp with rfl | hp
  · exact h.pid
  · exact h.committed p hp

/-- The thread clears the pid of a server that is gone. -/
theorem clears (h : Keeps g stage) {stage' : LlamaStage} (hgone : stage.committed = some 0)
    (hstage : stage'.committed = none ∨ stage'.committed = some 0) (modelLoaded : Bool) :
    Keeps { g with pid := 0, modelLoaded } stage' := by
  have hnone := h.committed 0 hgone
  refine ⟨h.nonzero, hnone, fun q hq => ?_⟩
  rcases hstage with hstage | hstage
  · exact nomatch hstage.symm.trans hq
  · obtain rfl := Option.some.inj (hstage.symm.trans hq)
    exact hnone

/-- The thread waits for the process that it takes to be the only one. -/
theorem waits (h : Keeps g stage) {p : ℕ} (hstage : stage.committed = some p)
    {reaped noChild : LlamaStage} (hreaped : reaped.committed = some 0)
    (hnoChild : noChild.committed = some 0) :
    Keeps (g.waitpid p).2 (LlamaStage.waits stage reaped noChild (g.waitpid p).1) := by
  have hsub := Engine.processes_waitpid_subset g p
  refine ⟨fun hzero => h.nonzero (hsub hzero), ?_, fun q hq => ?_⟩
  · rw [Engine.pid_waitpid]
    exact h.pid.mono hsub
  · have honly := (h.committed p hstage).waitpid
    cases hwait : (g.waitpid p).1 with
    | blocks =>
        rw [hwait] at hq
        exact (h.committed q hq).mono hsub
    | reaped =>
        rw [hwait] at hq honly
        obtain rfl := Option.some.inj (hreaped.symm.trans hq)
        exact honly nofun
    | noChild =>
        rw [hwait] at hq honly
        obtain rfl := Option.some.inj (hnoChild.symm.trans hq)
        exact honly nofun

/-- A monitor that waits is not committed; what it has waited for was the only process. -/
theorem monitorWaits {r p : ℕ} (h : Keeps g (.monitorWait r p)) (a : Answer) :
    Keeps (LlamaStage.next g a (.monitorWait r p)).1
      (LlamaStage.next g a (.monitorWait r p)).2 := by
  have hsub := Engine.processes_waitpid_subset g p
  refine ⟨fun hzero => h.nonzero (hsub hzero), ?_, fun q hq => ?_⟩
  · rw [LlamaStage.next, Engine.pid_waitpid]
    exact h.pid.mono hsub
  · rcases Engine.waitpid_cases g p with ⟨-, hwait⟩ | ⟨-, hexited, hwait⟩ | ⟨-, hwait⟩
    · simp only [LlamaStage.next, hwait] at hq
      exact nomatch hq
    · have hp := h.pid p (Engine.mem_processes.mpr (Or.inr hexited))
      have honly := h.pid.waitpid (p := g.pid) (by rw [← hp, hwait]; exact nofun)
      rw [← hp] at honly
      simp only [LlamaStage.next, hwait, LlamaStage.waits, LlamaStage.committed] at hq
      split_ifs at hq
      obtain rfl := Option.some.inj hq
      exact honly
    · simp only [LlamaStage.next, hwait] at hq
      exact nomatch hq

/-- A thread that takes it that there is no server starts one. -/
theorem spawns (h : Keeps g stage) (hstage : stage.committed = some 0) (started : Option ℕ)
    {stage' failed : LlamaStage} (hstage' : stage'.committed = none)
    (hfailed : failed.committed = none) :
    Keeps (g.spawnLlamaServer started).2
      (if (g.spawnLlamaServer started).1 then stage' else failed) := by
  rcases g.spawnLlamaServer_cases started with ⟨q, hq, -, hspawn⟩ | hspawn
  · rw [hspawn, if_pos rfl]
    have hnone := (h.committed 0 hstage).none h.nonzero
    have honly : ∀ p ∈ insert q g.alive ∪ g.exited, p = q := by
      intro p hp
      rcases Finset.mem_union.mp hp with hp | hp
      · exact (Finset.mem_insert.mp hp).resolve_right fun hp =>
          hnone p (Engine.mem_processes.mpr (Or.inl hp))
      · exact absurd (Engine.mem_processes.mpr (Or.inr hp)) (hnone p)
    exact ⟨fun hzero => hq (honly 0 hzero).symm, honly,
      fun _ hp => nomatch hstage'.symm.trans hp⟩
  · rw [hspawn, if_neg Bool.false_ne_true]
    exact h.uncommitted hfailed g.modelLoaded

end Keeps

/-- **A step keeps what its thread relies on.** -/
theorem next_keeps {g : Engine} {stage : LlamaStage} (h : Keeps g stage) (a : Answer) :
    Keeps (stage.next g a).1 (stage.next g a).2 := by
  cases stage with
  | idle => exact h
  | monitorLoad r =>
      rw [LlamaStage.next]
      split_ifs
      · exact h.uncommitted rfl _
      · exact h.uncommitted rfl _
  | monitorWait r p => exact h.monitorWaits a
  | monitorReaped r =>
      rw [LlamaStage.next]
      split_ifs with hr
      · exact h.commits rfl (Or.inr (if_pos hr)) _
      · exact h.uncommitted rfl _
  | monitorSpawn r => exact h.spawns rfl a.started rfl rfl
  | monitorHealth r =>
      rw [LlamaStage.next]
      split_ifs <;> exact h.uncommitted rfl _
  | monitorUp => exact h.uncommitted rfl _
  | callbackLoad =>
      rw [LlamaStage.next]
      split_ifs with hpid
      · exact h.commits rfl (Or.inl rfl) _
      · exact h.commits rfl (Or.inl (not_not.mp hpid)) _
  | callbackWait p => exact h.waits rfl rfl rfl
  | callbackClear => exact h.clears rfl (Or.inr rfl) _
  | callbackModel =>
      rw [LlamaStage.next]
      cases a.model with
      | none => exact h.uncommitted rfl _
      | some rpc => exact h.commits rfl (Or.inr rfl) _
  | callbackSpawn rpc => exact h.spawns rfl a.started rfl rfl
  | callbackHealth rpc =>
      rw [LlamaStage.next]
      split_ifs <;> exact h.uncommitted rfl _
  | callbackUp => exact h.uncommitted rfl _
  | callbackMonitor => exact h.uncommitted rfl _
  | stuckLoad =>
      rw [LlamaStage.next]
      split_ifs with hpid
      · exact h.commits rfl (Or.inl rfl) _
      · exact h.commits rfl (Or.inl (not_not.mp hpid)) _
  | stuckWait p => exact h.waits rfl rfl rfl
  | stuckClear => exact h.clears rfl (Or.inr rfl) _
  | beat =>
      rw [LlamaStage.next]
      split_ifs <;> exact h.uncommitted rfl _
  | beatLoad =>
      rw [LlamaStage.next]
      split_ifs
      · exact h.commits rfl (Or.inl rfl) _
      · exact h.uncommitted rfl _
  | beatProbe p =>
      rw [LlamaStage.next]
      split_ifs with hp
      · exact h.uncommitted rfl _
      · refine ⟨h.nonzero, h.pid, fun q _ r hr => ?_⟩
        exact absurd (h.committed p rfl r hr ▸ hr) hp
  | beatClear => exact h.clears rfl (Or.inl rfl) _
  | beatCheck =>
      rw [LlamaStage.next]
      split_ifs <;> exact h.uncommitted rfl _
  | beatCheckPid =>
      rw [LlamaStage.next]
      split_ifs with hpid
      · exact h.commits rfl (Or.inl hpid.1) _
      · exact h.uncommitted rfl _
  | beatSpawn => exact h.spawns rfl a.started rfl rfl
  | beatHealth =>
      rw [LlamaStage.next]
      split_ifs <;> exact h.uncommitted rfl _
  | beatUp => exact h.uncommitted rfl _
  | beatMonitor => exact h.uncommitted rfl _
  | poll fails =>
      rw [LlamaStage.next]
      split_ifs <;> exact h.uncommitted rfl _
  | pollProbe fails =>
      rw [LlamaStage.next]
      split_ifs <;> exact h.uncommitted rfl _
  | pollLoad => exact h.uncommitted rfl _
  | pollKill p =>
      refine ⟨?_, ?_, nofun⟩
      · rw [LlamaStage.next, Engine.processes_exit]
        exact h.nonzero
      · rw [LlamaStage.next, Engine.exit_pid]
        exact fun q hq => h.pid q (by rwa [Engine.processes_exit] at hq)

/-- Only a thread that starts a server adds a process. -/
theorem processes_next (g : Engine) (stage : LlamaStage) (a : Answer) :
    (stage.next g a).1.processes ⊆ g.processes ∨
      stage.spawns = true ∧ (g.spawnLlamaServer a.started).1 = true := by
  have hspawn : (g.spawnLlamaServer a.started).2.processes ⊆ g.processes ∨
      (g.spawnLlamaServer a.started).1 = true := by
    rcases g.spawnLlamaServer_cases a.started with ⟨q, -, -, h⟩ | h
    · exact Or.inr (congrArg Prod.fst h)
    · exact Or.inl (by rw [h])
  cases stage with
  | monitorSpawn r => exact hspawn.imp_right fun h => ⟨rfl, h⟩
  | callbackSpawn rpc => exact hspawn.imp_right fun h => ⟨rfl, h⟩
  | beatSpawn => exact hspawn.imp_right fun h => ⟨rfl, h⟩
  | monitorWait r p => exact Or.inl (g.processes_waitpid_subset p)
  | callbackWait p => exact Or.inl (g.processes_waitpid_subset p)
  | stuckWait p => exact Or.inl (g.processes_waitpid_subset p)
  | pollKill p => exact Or.inl (by rw [LlamaStage.next, Engine.processes_exit])
  | _ => exact Or.inl subset_rfl

/-! ### Runs -/

/-- Threads that are started are not committed. -/
theorem LlamaStage.Left.committed {stage stage' : LlamaStage} (h : stage.Left stage') {p : ℕ}
    (hp : stage'.committed = some p) : stage.committed = some p := by
  rcases h with rfl | ⟨-, rfl | rfl⟩
  · exact hp
  · exact nomatch hp
  · exact nomatch hp

/-- **Each event keeps the server single**, when servers are started by one thread at a
time. -/
theorem single_llamaStep {s : LlamaState} {e : LlamaEvent} (he : SpawnsAlone s e)
    (h : Single s) : Single (llamaStep s e).2 := by
  cases e with
  | exit p =>
      refine ⟨?_, ?_, fun j q hj => ?_⟩
      · simpa only [llamaStep, Engine.processes_exit] using h.nonzero
      · simpa only [llamaStep, Engine.Only, Engine.processes_exit, Engine.exit_pid] using h.pid
      · simpa only [llamaStep, Engine.Only, Engine.processes_exit] using h.committed j q hj
  | topology i =>
      obtain ⟨hengine, hleft⟩ := llamaStep_topology s i
      refine ⟨by rw [hengine]; exact h.nonzero, by rw [hengine]; exact h.pid, fun j p hj => ?_⟩
      rw [hengine]
      exact h.committed j p ((hleft j).committed hj)
  | step i a =>
      rcases llamaStep_step s i a with hstep | hstep
      · have hkeeps := next_keeps ⟨h.nonzero, h.pid, h.committed i⟩ a
        rw [← hstep.engine] at hkeeps
        refine ⟨hkeeps.nonzero, hkeeps.pid, fun j p hj => ?_⟩
        by_cases hji : j = i
        · subst hji
          rw [hstep.self] at hj
          exact hkeeps.committed p hj
        · have hp := (hstep.others j hji).committed hj
          rcases processes_next s.engine (s.threads i) a with hsub | ⟨hspawns, hstarted⟩
          · rw [← hstep.engine] at hsub
            exact (h.committed j p hp).mono hsub
          · exact absurd ((he hspawns hstarted j hji).symm.trans hp) (Option.some_ne_none p).symm
      · rw [hstep]
        exact h

/-- The state behind the start of the system. -/
theorem single_bootState {p : ℕ} (hp : p ≠ 0) (modelLoaded : Bool) :
    Single (bootState p modelLoaded) := by
  have honly : (bootState p modelLoaded).engine.Only p := by
    intro q hq
    rcases Engine.mem_processes.mp hq with hq | hq
    · exact Finset.mem_singleton.mp hq
    · exact absurd hq (Finset.notMem_empty q)
  refine ⟨fun hzero => hp (honly 0 hzero).symm, honly, fun j q hj => ?_⟩
  rcases j with _ | _ | _ | j <;> exact nomatch hj

/-- **At most one server.** In every run in which a server is started only while no other
thread is about to start one or to clear the pid, at most one server is alive, and
`g_llama_pid` is its pid. -/
theorem oneServer_of_along {p : ℕ} (hp : p ≠ 0) (modelLoaded : Bool) {events : List LlamaEvent}
    (halong : Machine.Along llamaStep SpawnsAlone (bootState p modelLoaded) events) :
    OneServer (llamaRun (bootState p modelLoaded) events).engine :=
  (halong.final_invariant (fun _ _ he h => single_llamaStep he h)
    (single_bootState hp modelLoaded)).oneServer

/-- The server exits, and the monitor waits for it and is about to start another one. -/
def reapedRun : List LlamaEvent := [.step 2 {}, .exit 10, .step 2 {}, .step 2 {}]

/-- The threads but the monitor have not moved. -/
theorem reapedRun_threads {j : ℕ} (hj : j ≠ 2) :
    (llamaRun (bootState 10 true) reapedRun).threads j = (bootState 10 true).threads j := by
  by_cases hzero : j = 0
  · rw [hzero]
    rfl
  · exact llamaRun_threads (by simp [reapedRun, LlamaEvent.spares, hj, hzero])

theorem oneServer_of_along_sample :
    Machine.Along llamaStep SpawnsAlone (bootState 10 true)
      (reapedRun ++ [.step 2 { started := some 11 }]) ∧
    OneServer (llamaRun (bootState 10 true) (reapedRun ++ [.step 2 { started := some 11 }])).engine
    := by
  have halong : Machine.Along llamaStep SpawnsAlone (bootState 10 true)
      (reapedRun ++ [.step 2 { started := some 11 }]) := by
    refine ⟨(fun h => nomatch h), trivial, (fun h => nomatch h), (fun h => nomatch h),
      fun _ _ j hj => ?_, trivial⟩
    have hstays := reapedRun_threads hj
    rw [llamaRun] at hstays
    rcases j with _ | _ | _ | j
    · exact congrArg LlamaStage.committed hstays
    · exact congrArg LlamaStage.committed hstays
    · exact absurd rfl hj
    · exact congrArg LlamaStage.committed hstays
  exact ⟨halong, oneServer_of_along (by decide) true halong⟩

/-- While the monitor sleeps before it starts another server, the callback starts one. -/
def raceRun : List LlamaEvent :=
  reapedRun ++ [.topology 3, .step 3 {}, .step 3 {}, .step 3 {}, .step 3 { model := some true },
    .step 3 { started := some 11 }, .step 2 { started := some 12 }]

/-- Two servers are alive. -/
theorem not_oneServer : ¬ ∀ (p : ℕ) (modelLoaded : Bool) (events : List LlamaEvent), p ≠ 0 →
    OneServer (llamaRun (bootState p modelLoaded) events).engine := by
  intro h
  have hone := (h 10 true raceRun (by decide)).card_le
  have htwo : (llamaRun (bootState 10 true) raceRun).engine.alive.card = 2 := by decide +kernel
  omega

end Llamaste
