import Mathlib
import Llamaste.Lib.Machine

/-!
# The inference server

One inference server is to run, and four kinds of threads look after it: monitors that wait
for it to exit and start another, callbacks that replace it when the cluster changes, the
heartbeat that starts one when there is none, and the poller that kills one that hangs. They
share the pid of the server and whether it is loaded. Every load and every store, every
system call and every wait is a step of its own; the stores that clear both variables are
one step, and so are the start of a process and the store of its pid, under one lock.

A process that has exited stays until it is waited for. A signal makes a process exit at some
later step, as any process may.

Source: `child_main.cpp` (`spawn_llama_server`, `wait_for_llama_server`,
`llama_monitor_thread`, `llama_health_poll_thread`, the topology change callback and the
heartbeat thread in `child_main`).
-/

namespace Llamaste

/-- The server processes, and what the threads share. -/
structure Engine where
  /-- `g_llama_pid`. -/
  pid : ℕ := 0
  /-- `g_model_loaded`. -/
  modelLoaded : Bool := false
  alive : Finset ℕ := ∅
  /-- The processes that have exited and were not waited for. -/
  exited : Finset ℕ := ∅

namespace Engine

/-- The processes that a signal or a wait finds. -/
def processes (g : Engine) : Finset ℕ := g.alive ∪ g.exited

/-- A process exits. -/
def exit (g : Engine) (p : ℕ) : Engine :=
  if p ∈ g.alive then { g with alive := g.alive.erase p, exited := insert p g.exited } else g

/-- What `waitpid` comes to. -/
inductive Waited
  | blocks
  | reaped
  | noChild
  deriving DecidableEq

/-- `waitpid` on one process. -/
def waitpid (g : Engine) (p : ℕ) : Waited × Engine :=
  if p ∈ g.alive then (.blocks, g)
  else if p ∈ g.exited then (.reaped, { g with exited := g.exited.erase p })
  else (.noChild, g)

/-- `spawn_llama_server`: the process that is started has a pid that no other one has. -/
def spawnLlamaServer (g : Engine) (started : Option ℕ) : Bool × Engine :=
  match started with
  | some q =>
    if q = 0 ∨ q ∈ g.processes then (false, g)
    else (true, { g with pid := q, alive := insert q g.alive })
  | none => (false, g)

end Engine

/-- What a step is told from outside: the process that is started, if one is, whether the
server answers that it is healthy, the model that is found and whether there are RPC
endpoints for it, whether the file of the model is readable, and the thread that becomes the
new monitor. -/
structure Answer where
  started : Option ℕ := none
  healthy : Bool := false
  model : Option Bool := none
  readable : Bool := false
  monitor : ℕ := 0

/-- Where a thread stands. -/
inductive LlamaStage
  /-- A thread that is not started, or has ended. -/
  | idle
  -- `llama_monitor_thread`, with `retries`
  | monitorLoad (retries : ℕ)
  | monitorWait (retries pid : ℕ)
  | monitorReaped (retries : ℕ)
  | monitorSpawn (retries : ℕ)
  | monitorHealth (retries : ℕ)
  | monitorUp
  -- the topology change callback
  | callbackLoad
  | callbackWait (pid : ℕ)
  | callbackClear
  | callbackModel
  | callbackSpawn (rpc : Bool)
  | callbackHealth (rpc : Bool)
  | callbackUp
  | callbackMonitor
  -- its fallback without RPC endpoints
  | stuckLoad
  | stuckWait (pid : ℕ)
  | stuckClear
  -- the heartbeat: watchdog and recovery
  | beat
  | beatLoad
  | beatProbe (pid : ℕ)
  | beatClear
  | beatCheck
  | beatCheckPid
  | beatSpawn
  | beatHealth
  | beatUp
  | beatMonitor
  -- `llama_health_poll_thread`, with `consecutive_fails`
  | poll (fails : ℕ)
  | pollProbe (fails : ℕ)
  | pollLoad
  | pollKill (pid : ℕ)
  deriving DecidableEq

/-- `max_retries`. -/
def maxRetries : ℕ := 3

/-- `FAIL_THRESHOLD`. -/
def failThreshold : ℕ := 3

namespace LlamaStage

/-- Where a `waitpid` leads. -/
def waits (stage reaped noChild : LlamaStage) : Engine.Waited → LlamaStage
  | .blocks => stage
  | .reaped => reaped
  | .noChild => noChild

/-- One step of a thread. -/
def next (g : Engine) (a : Answer) : LlamaStage → Engine × LlamaStage
  | idle => (g, idle)
  | monitorLoad r =>
    (g, if r < maxRetries ∧ g.pid ≠ 0 then monitorWait r g.pid else idle)
  | monitorWait r p =>
    ((g.waitpid p).2, waits (monitorWait r p) (monitorReaped r) idle (g.waitpid p).1)
  | monitorReaped r =>
    ({ g with modelLoaded := false }, if r + 1 < maxRetries then monitorSpawn (r + 1) else idle)
  | monitorSpawn r =>
    ((g.spawnLlamaServer a.started).2,
      if (g.spawnLlamaServer a.started).1 then monitorHealth r else monitorLoad r)
  | monitorHealth r => (g, if a.healthy then monitorUp else monitorLoad r)
  | monitorUp => ({ g with modelLoaded := true }, monitorLoad 0)
  | callbackLoad => (g, if g.pid ≠ 0 then callbackWait g.pid else callbackModel)
  | callbackWait p =>
    ((g.waitpid p).2, waits (callbackWait p) callbackClear callbackClear (g.waitpid p).1)
  | callbackClear => ({ g with pid := 0, modelLoaded := false }, callbackModel)
  | callbackModel => (g, a.model.elim idle callbackSpawn)
  | callbackSpawn rpc =>
    ((g.spawnLlamaServer a.started).2,
      if (g.spawnLlamaServer a.started).1 then callbackHealth rpc else idle)
  | callbackHealth rpc =>
    (g, if a.healthy then callbackUp else if rpc then stuckLoad else idle)
  | callbackUp => ({ g with modelLoaded := true }, callbackMonitor)
  | callbackMonitor => (g, idle)
  | stuckLoad => (g, if g.pid ≠ 0 then stuckWait g.pid else callbackSpawn false)
  | stuckWait p =>
    ((g.waitpid p).2, waits (stuckWait p) stuckClear stuckClear (g.waitpid p).1)
  | stuckClear => ({ g with pid := 0 }, callbackSpawn false)
  | beat => (g, if g.modelLoaded then beatLoad else beatCheck)
  | beatLoad => (g, if g.pid ≠ 0 then beatProbe g.pid else beatCheck)
  | beatProbe p => (g, if p ∈ g.processes then beatCheck else beatClear)
  | beatClear => ({ g with pid := 0, modelLoaded := false }, beatCheck)
  | beatCheck => (g, if g.modelLoaded then beat else beatCheckPid)
  | beatCheckPid => (g, if g.pid = 0 ∧ a.readable = true then beatSpawn else beat)
  | beatSpawn =>
    ((g.spawnLlamaServer a.started).2,
      if (g.spawnLlamaServer a.started).1 then beatHealth else beat)
  | beatHealth => (g, if a.healthy then beatUp else beat)
  | beatUp => ({ g with modelLoaded := true }, beatMonitor)
  | beatMonitor => (g, beat)
  | poll fails => (g, if g.modelLoaded then pollProbe fails else poll 0)
  | pollProbe fails =>
    (g, if a.healthy then poll 0
      else if fails + 1 < failThreshold then poll (fails + 1) else pollLoad)
  | pollLoad => (g, pollKill g.pid)
  | pollKill p => (g.exit p, poll 0)

/-- The thread starts a monitor. -/
def startsMonitor : LlamaStage → Bool
  | callbackMonitor => true
  | beatMonitor => true
  | _ => false

end LlamaStage

/-- The server and its threads. -/
structure LlamaState where
  engine : Engine
  threads : ℕ → LlamaStage

/-- What happens: a process exits, the topology of the cluster changes and a thread calls the
callback, or a thread takes its next step. -/
inductive LlamaEvent
  | exit (p : ℕ)
  | topology (i : ℕ)
  | step (i : ℕ) (a : Answer)

/-- The state behind an event. A thread that is to be started is one that is idle. -/
def llamaStep (s : LlamaState) : LlamaEvent → Unit × LlamaState
  | .exit p => ((), { s with engine := s.engine.exit p })
  | .topology i =>
    ((), if s.threads i = .idle then
        { s with threads := Function.update s.threads i .callbackLoad } else s)
  | .step i a =>
    let (g, stage) := (s.threads i).next s.engine a
    ((), if (s.threads i).startsMonitor = true then
        if s.threads a.monitor = .idle then
          { engine := g
            threads := Function.update (Function.update s.threads a.monitor (.monitorLoad 0)) i
              stage }
        else s
      else { engine := g, threads := Function.update s.threads i stage })

/-- The state behind the start of the system: a server that a monitor looks after, whether it
was found healthy or not. -/
def bootState (p : ℕ) (modelLoaded : Bool) : LlamaState where
  engine := { pid := p, modelLoaded, alive := {p} }
  threads
    | 0 => .beat
    | 1 => .poll 0
    | 2 => .monitorLoad 0
    | _ => .idle

/-- The state behind a run. -/
def llamaRun (s : LlamaState) (events : List LlamaEvent) : LlamaState :=
  Machine.final llamaStep s events

/-! ### What the system calls do -/

namespace Engine

variable {g : Engine} {p q : ℕ}

theorem mem_processes : q ∈ g.processes ↔ q ∈ g.alive ∨ q ∈ g.exited := Finset.mem_union

@[simp] theorem exit_pid : (g.exit p).pid = g.pid := by
  rw [exit]
  split_ifs <;> rfl

@[simp] theorem exit_modelLoaded : (g.exit p).modelLoaded = g.modelLoaded := by
  rw [exit]
  split_ifs <;> rfl

@[simp] theorem processes_exit : (g.exit p).processes = g.processes := by
  rw [exit]
  split_ifs with halive
  · ext q
    simp only [processes, Finset.mem_union, Finset.mem_erase, Finset.mem_insert]
    by_cases hq : q = p
    · subst hq
      simp [halive]
    · simp [hq]
  · rfl

/-- A wait that blocks changes nothing, and one that returns leaves no such process. -/
theorem waitpid_cases (g : Engine) (p : ℕ) :
    (p ∈ g.alive ∧ g.waitpid p = (.blocks, g)) ∨
    (p ∉ g.alive ∧ p ∈ g.exited ∧
      g.waitpid p = (.reaped, { g with exited := g.exited.erase p })) ∨
    (p ∉ g.processes ∧ g.waitpid p = (.noChild, g)) := by
  rw [waitpid, mem_processes]
  split_ifs with halive hexited
  · exact Or.inl ⟨halive, rfl⟩
  · exact Or.inr (Or.inl ⟨halive, hexited, rfl⟩)
  · exact Or.inr (Or.inr ⟨fun h => h.elim halive hexited, rfl⟩)

/-- A server is started with a fresh pid, or nothing changes. -/
theorem spawnLlamaServer_cases (g : Engine) (started : Option ℕ) :
    (∃ q, q ≠ 0 ∧ q ∉ g.processes ∧ g.spawnLlamaServer started =
      (true, { g with pid := q, alive := insert q g.alive })) ∨
    g.spawnLlamaServer started = (false, g) := by
  cases started with
  | none => exact Or.inr rfl
  | some q =>
      rw [spawnLlamaServer]
      split_ifs with hused
      · exact Or.inr rfl
      · exact Or.inl ⟨q, fun h => hused (Or.inl h), fun h => hused (Or.inr h), rfl⟩

end Engine

/-! ### What an event does to the threads -/

/-- What another thread's step leaves of a stage: it stays, or a thread that was idle is
started. -/
def LlamaStage.Left (stage stage' : LlamaStage) : Prop :=
  stage' = stage ∨ stage = .idle ∧ (stage' = .monitorLoad 0 ∨ stage' = .callbackLoad)

/-- A change of the topology may start a callback. -/
theorem llamaStep_topology (s : LlamaState) (i : ℕ) :
    (llamaStep s (.topology i)).2.engine = s.engine ∧
      ∀ j, (s.threads j).Left ((llamaStep s (.topology i)).2.threads j) := by
  rw [llamaStep]
  split_ifs with hidle
  · refine ⟨rfl, fun j => ?_⟩
    by_cases hji : j = i
    · subst hji
      exact Or.inr ⟨hidle, Or.inr (Function.update_self ..)⟩
    · exact Or.inl (Function.update_of_ne hji ..)
  · exact ⟨rfl, fun j => Or.inl rfl⟩

/-- What the step of a thread does. -/
structure Stepped (s : LlamaState) (i : ℕ) (a : Answer) (s' : LlamaState) : Prop where
  engine : s'.engine = ((s.threads i).next s.engine a).1
  self : s'.threads i = ((s.threads i).next s.engine a).2
  others : ∀ j, j ≠ i → (s.threads j).Left (s'.threads j)
  /-- A thread that starts a monitor has started one. -/
  monitor : (s.threads i).startsMonitor = true → ∃ k, k ≠ i ∧ s'.threads k = .monitorLoad 0

/-- **A thread steps**, or there is no idle thread for the monitor that it starts. -/
theorem llamaStep_step (s : LlamaState) (i : ℕ) (a : Answer) :
    Stepped s i a (llamaStep s (.step i a)).2 ∨ (llamaStep s (.step i a)).2 = s := by
  simp only [llamaStep]
  split_ifs with hstarts hidle
  · have hne : a.monitor ≠ i := by
      intro heq
      rw [← heq, hidle] at hstarts
      exact Bool.false_ne_true hstarts
    refine Or.inl ⟨rfl, Function.update_self .., fun j hji => ?_, fun _ => ?_⟩
    · dsimp only
      rw [Function.update_of_ne hji]
      by_cases hj : j = a.monitor
      · subst hj
        exact Or.inr ⟨hidle, Or.inl (Function.update_self ..)⟩
      · exact Or.inl (Function.update_of_ne hj ..)
    · refine ⟨a.monitor, hne, ?_⟩
      dsimp only
      rw [Function.update_of_ne hne, Function.update_self]
  · exact Or.inr rfl
  · exact Or.inl ⟨rfl, Function.update_self .., fun j hji => Or.inl (Function.update_of_ne hji ..),
      fun h => absurd h hstarts⟩

/-- The event neither is a step of thread `j` nor may start it. -/
def LlamaEvent.spares (j : ℕ) : LlamaEvent → Bool
  | exit _ => true
  | topology i => j ≠ i
  | step i a => j ≠ i ∧ j ≠ a.monitor

/-- A thread that does not step and is not started stays where it is. -/
theorem llamaRun_threads {s : LlamaState} {j : ℕ} {events : List LlamaEvent}
    (h : ∀ e ∈ events, e.spares j = true) : (llamaRun s events).threads j = s.threads j := by
  induction events generalizing s with
  | nil => rfl
  | cons e events ih =>
      obtain ⟨he, hrest⟩ := List.forall_mem_cons.mp h
      rw [llamaRun, Machine.final_cons]
      refine (ih hrest).trans ?_
      cases e with
      | exit p => rfl
      | topology i =>
          rw [llamaStep]
          split_ifs
          · exact Function.update_of_ne (of_decide_eq_true he) ..
          · rfl
      | step i a =>
          obtain ⟨hi, ha⟩ := of_decide_eq_true he
          simp only [llamaStep]
          split_ifs
          · dsimp only
            rw [Function.update_of_ne hi, Function.update_of_ne ha]
          · rfl
          · exact Function.update_of_ne hi ..

end Llamaste
