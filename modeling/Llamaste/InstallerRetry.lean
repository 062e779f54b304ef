import Mathlib
import Llamaste.Installer
import Llamaste.Lib.JsonText
import Llamaste.Lib.Threads

/-!
# Installing again

A request to install parses its arguments, tests that no installation is running, resets the
progress record, sets `running` and starts a worker, which ends with an error or with success.
Requests and workers take turns in any order. Source: `tools_install.cpp`.

## Main results

* `retryable_iff`: when one request at a time goes from the test to setting `running`, the
  installer can be used again exactly as long as no worker has ended.
* `not_retryable`: no worker resets `running` when it ends.
-/

namespace Llamaste

/-! ### Requests and workers -/

/-- The flags of the progress record. -/
structure InstallFlags where
  running : Bool := false
  finished : Bool := false
  success : Bool := false
  error : Text := []
  deriving DecidableEq

/-- What a request brings: its arguments, and what the system answers to its worker. -/
structure InstallCall where
  args : Text
  env : InstallerEnv

/-- The device that a request asks for with confirmation, or the error of its answer. An
exception is `none`. -/
def installRequest (args : Text) : Option (Except Text Text) :=
  match Json.parse args with
  | none => some (.error "Missing required parameter: device")
  | some params =>
    match params.find "device" with
    | none => some (.error "Missing required parameter: device")
    | some member => do
      let device ← member.getString
      let confirm ← params.value Json.getBool "confirm" false
      return if confirm then .ok device
        else .error ("Installation requires confirm: true. WARNING: This will erase ALL data on "
          ++ device)

/-- Where a request stands, and its worker after it. -/
inductive InstallPc
  | waiting
  | thrown
  | refused (error : Text)
  | admitted (device : Text)
  | cleared (device : Text)
  | announced (device : Text)
  | executing (device : Text)
  | decided
  | ended
  deriving DecidableEq

namespace InstallPc

/-- The request has passed the test and not set `running`. -/
def starting : InstallPc → Bool
  | admitted _ | cleared _ => true
  | _ => false

/-- The worker executes. -/
def working : InstallPc → Bool
  | executing _ | decided => true
  | _ => false

/-- A worker executes for the request, or the request is about to start one. -/
def busy : InstallPc → Bool
  | admitted _ | cleared _ | announced _ | executing _ | decided => true
  | _ => false

/-- The request has not passed the test. -/
def outside : InstallPc → Bool
  | waiting | thrown | refused _ => true
  | _ => false

end InstallPc

namespace InstallFlags

/-- `reset`. -/
def reset (_ : InstallFlags) : InstallFlags := {}

/-- What a worker sets before `finished`. -/
def decide (g : InstallFlags) (result : InstallProgress) : InstallFlags :=
  match result.error with
  | some error => { g with error }
  | none => { g with success := true }

end InstallFlags

variable {ι : Type*} (calls : ι → InstallCall)

/-- One step of `handle_install_to_disk`, and then of `install_worker`. -/
def installAct (i : ι) : InstallFlags × InstallPc → InstallFlags × InstallPc
  | (g, .waiting) =>
    match installRequest (calls i).args with
    | none => (g, .thrown)
    | some (.error error) => (g, .refused error)
    | some (.ok device) =>
      if g.running then (g, .refused "Installation already in progress") else (g, .admitted device)
  | (g, .admitted device) => (g.reset, .cleared device)
  | (g, .cleared device) => ({ g with running := true }, .announced device)
  | (g, .announced device) => (g, .executing device)
  | (g, .executing device) => (g.decide (installWorker (calls i).env device), .decided)
  | (g, .decided) => ({ g with finished := true }, .ended)
  | s => s

/-- Before the first request. -/
def installStart : InstallFlags × (ι → InstallPc) := ({}, fun _ => .waiting)

/-- At most one worker executes, and when none does, the flags tell how the last one has ended. -/
structure OneWorker (s : InstallFlags × (ι → InstallPc)) : Prop where
  one : ∀ i j, (s.2 i).working = true → (s.2 j).working = true → i = j
  tells : (∀ i, (s.2 i).busy = false) → ∀ i, s.2 i = .ended →
    s.1.finished = true ∧ (s.1.success = true ↔ s.1.error = [])

/-- Besides, when no worker executes, `running` is false and a confirmed request passes the
test. -/
structure Retryable (s : InstallFlags × (ι → InstallPc)) : Prop extends OneWorker s where
  free : (∀ i, (s.2 i).busy = false) → s.1.running = false
  starts : (∀ i, (s.2 i).busy = false) → ∀ i device,
    installRequest (calls i).args = some (.ok device) →
      installAct calls i (s.1, .waiting) = (s.1, .admitted device)

/-- A request does not come to the test while another one has passed it and not set `running`. -/
def InTurn (s : InstallFlags × (ι → InstallPc)) (i : ι) : Prop :=
  s.2 i = .waiting → ∀ j, (s.2 j).starting = false

instance [Fintype ι] (s : InstallFlags × (ι → InstallPc)) (i : ι) : Decidable (InTurn s i) :=
  inferInstanceAs (Decidable (_ → ∀ _, _))

/-! ### One worker at a time -/

/-- What the flags are while one request is past the test. -/
def InstallFlags.OwnedBy (g : InstallFlags) : InstallPc → Prop
  | .admitted _ => g.running = false
  | .cleared _ => g = {}
  | .announced _ | .executing _ => g = { running := true }
  | .decided => g.running = true ∧ (g.success = true ↔ g.error = [])
  | .ended => g.running = true ∧ g.finished = true ∧ (g.success = true ↔ g.error = [])
  | _ => False

/-- Either no request is past the test, or one is. -/
def InstallPhase : InstallFlags × (ι → InstallPc) → Prop :=
  Threads.OneOwner (·.running = false) (·.outside = true)
    fun _ => InstallFlags.OwnedBy

theorem InstallError.text_ne_nil (e : InstallError) : e.text ≠ [] := by
  cases e with
  | copy e => cases e <;> exact List.cons_ne_nil _ _
  | _ => exact List.cons_ne_nil _ _

/-- A worker ends with success exactly when it has no error, and an error has a text. -/
theorem installWorker_error_ne_nil {env : InstallerEnv} {device error : Text}
    (h : (installWorker env device).error = some error) : error ≠ [] := by
  rw [installWorker] at h
  split at h
  · obtain rfl := Option.some.inj h
    exact InstallError.text_ne_nil _
  · split at h
    · obtain rfl := Option.some.inj h
      exact InstallError.text_ne_nil _
    · cases h

/-- The outcome of a worker that began with the flags cleared. -/
theorem ownedBy_decide (env : InstallerEnv) (device : Text) :
    (InstallFlags.decide { running := true } (installWorker env device)).OwnedBy .decided := by
  rw [InstallFlags.decide]
  cases herror : (installWorker env device).error with
  | none => exact ⟨rfl, iff_of_true rfl rfl⟩
  | some error =>
    exact ⟨rfl, iff_of_false Bool.false_ne_true (installWorker_error_ne_nil herror)⟩

variable {calls}

/-- A request that has not passed the test stays there, or passes it because nothing runs. -/
theorem installAct_outside (calls : ι → InstallCall) {i : ι} {g : InstallFlags} {pc : InstallPc}
    (h : pc.outside = true) :
    (installAct calls i (g, pc)).1 = g ∧
      ((installAct calls i (g, pc)).2.outside = true ∨
        pc = .waiting ∧ g.running = false ∧
          ∃ device, (installAct calls i (g, pc)).2 = .admitted device) := by
  cases pc with
  | waiting =>
    rw [installAct]
    split
    · exact ⟨rfl, .inl rfl⟩
    · exact ⟨rfl, .inl rfl⟩
    · rename_i device _
      cases hrunning : g.running with
      | true => exact ⟨rfl, .inl rfl⟩
      | false => exact ⟨rfl, .inr ⟨rfl, rfl, device, rfl⟩⟩
  | thrown => exact ⟨rfl, .inl rfl⟩
  | refused error => exact ⟨rfl, .inl rfl⟩
  | _ => exact nomatch h

/-- The request that is past the test goes on with the flags in its hands. -/
theorem ownedBy_installAct {i : ι} {g : InstallFlags} {pc : InstallPc} (h : g.OwnedBy pc) :
    (installAct calls i (g, pc)).1.OwnedBy (installAct calls i (g, pc)).2 := by
  cases pc with
  | admitted device => exact rfl
  | cleared device =>
    obtain rfl : g = {} := h
    exact rfl
  | announced device => exact h
  | executing device =>
    obtain rfl : g = { running := true } := h
    exact ownedBy_decide _ _
  | decided => exact ⟨h.1, rfl, h.2⟩
  | ended => exact h
  | _ => exact h.elim

/-- Outside the stretch from the test to setting `running`, the owner has set it. -/
theorem InstallFlags.OwnedBy.running {g : InstallFlags} {pc : InstallPc} (h : g.OwnedBy pc)
    (hstarting : pc.starting = false) : g.running = true := by
  cases pc with
  | announced device =>
    obtain rfl : g = { running := true } := h
    rfl
  | executing device =>
    obtain rfl : g = { running := true } := h
    rfl
  | decided => exact h.1
  | ended => exact h.1
  | admitted device => exact nomatch hstarting
  | cleared device => exact nomatch hstarting
  | _ => exact h.elim

variable [DecidableEq ι]

theorem InstallPhase.step {s : InstallFlags × (ι → InstallPc)} {i : ι} (hturn : InTurn s i)
    (h : InstallPhase s) : InstallPhase (Threads.step (installAct calls) s i) := by
  refine Threads.OneOwner.step h (fun hrunning hout => ?_)
    (fun howned => .inr (ownedBy_installAct howned)) fun k _ howned hout => ?_
  · obtain ⟨hflags, hpc | ⟨-, -, device, hpc⟩⟩ := installAct_outside calls hout
    · exact .inl ⟨hflags ▸ hrunning, hpc⟩
    · right
      rw [hflags, hpc]
      exact hrunning
  · obtain ⟨hflags, hpc | ⟨hwaiting, hrunning, -⟩⟩ := installAct_outside calls hout
    · refine ⟨hpc, ?_⟩
      rw [hflags]
      exact howned
    · have hset := howned.running (hturn hwaiting k)
      rw [hrunning] at hset
      exact nomatch hset

theorem installPhase_of_along {schedule : List ι}
    (h : Threads.Along (installAct calls) InTurn installStart schedule) :
    InstallPhase (Threads.run (installAct calls) installStart schedule) :=
  h.run_invariant (I := InstallPhase) (fun _ _ hturn hs => hs.step hturn)
    (.inl ⟨rfl, fun _ => rfl⟩)

/-! ### When the installer can be used again -/

theorem InstallPc.working_of_outside {pc : InstallPc} (h : pc.outside = true) :
    pc.working = false := by
  cases pc <;> first | rfl | exact nomatch h

theorem InstallPc.busy_of_outside {pc : InstallPc} (h : pc.outside = true) : pc.busy = false := by
  cases pc <;> first | rfl | exact nomatch h

theorem InstallPc.ne_ended_of_outside {pc : InstallPc} (h : pc.outside = true) :
    pc ≠ .ended := by
  rintro rfl
  exact nomatch h

namespace InstallPhase

variable {s : InstallFlags × (ι → InstallPc)}

omit [DecidableEq ι]

/-- Once a worker has ended, every other request is outside, and `running` is still set. -/
theorem of_ended (h : InstallPhase s) {i : ι} (hi : s.2 i = .ended) :
    s.1.OwnedBy .ended ∧ ∀ j, (s.2 j).busy = false := by
  obtain ⟨howned, hout⟩ := Threads.OneOwner.owns h fun hout =>
    InstallPc.ne_ended_of_outside hout hi
  rw [hi] at howned
  refine ⟨howned, fun j => ?_⟩
  by_cases hji : j = i
  · rw [hji, hi]
    rfl
  · exact InstallPc.busy_of_outside (hout j hji)

theorem one (h : InstallPhase s) {i j : ι} (hi : (s.2 i).working = true)
    (hj : (s.2 j).working = true) : i = j := by
  refine Threads.OneOwner.eq h (fun hout => ?_) fun hout => ?_
  · rw [InstallPc.working_of_outside hout] at hi
    exact nomatch hi
  · rw [InstallPc.working_of_outside hout] at hj
    exact nomatch hj

theorem oneWorker (h : InstallPhase s) : OneWorker s :=
  ⟨fun _ _ => h.one, fun _ _ hi => (h.of_ended hi).1.2⟩

theorem free (h : InstallPhase s) (hended : ∀ i, s.2 i ≠ .ended)
    (hbusy : ∀ i, (s.2 i).busy = false) : s.1.running = false := by
  refine Threads.OneOwner.free h fun k howned => ?_
  have hk := hbusy k
  have hne := hended k
  cases hpc : s.2 k with
  | ended => exact hne hpc
  | waiting => exact (hpc ▸ howned : s.1.OwnedBy .waiting).elim
  | thrown => exact (hpc ▸ howned : s.1.OwnedBy .thrown).elim
  | refused error => exact (hpc ▸ howned : s.1.OwnedBy (.refused error)).elim
  | _ => exact nomatch hpc ▸ hk

end InstallPhase

/-- **The installer can be used again** exactly as long as no worker has ended. Throughout, at
most one worker executes, and the flags tell how it ended. -/
theorem retryable_iff (calls : ι → InstallCall) {schedule : List ι}
    (h : Threads.Along (installAct calls) InTurn installStart schedule) :
    OneWorker (Threads.run (installAct calls) installStart schedule) ∧
      (Retryable calls (Threads.run (installAct calls) installStart schedule) ↔
        ∀ i, (Threads.run (installAct calls) installStart schedule).2 i ≠ .ended) := by
  have hphase := installPhase_of_along h
  refine ⟨hphase.oneWorker, fun hretry i hi => ?_, fun hended => ?_⟩
  · obtain ⟨hflags, hidle⟩ := hphase.of_ended hi
    have hrunning := hflags.1
    rw [hretry.free hidle] at hrunning
    exact nomatch hrunning
  · refine ⟨hphase.oneWorker, hphase.free hended, fun hidle i device hrequest => ?_⟩
    rw [installAct, hrequest, hphase.free hended hidle]
    rfl

/-- Two confirmed requests for a disk on a machine without an installation image. -/
def sampleInstallCalls (_ : Bool) : InstallCall where
  args := "\x7b\"device\":\"/dev/sda\",\"confirm\":true\x7d"
  env := { cmdline := none, mounts := none, present := (· = "/dev/sda"), diskSize := .ok (2 ^ 40)
           haveLzma := true, copy := none, mountsData := true }

/-- The second request comes while the worker of the first one executes. -/
theorem retryable_sampleInstallCalls :
    Retryable sampleInstallCalls (Threads.run (installAct sampleInstallCalls) installStart
      [false, false, false, false, true, false]) := by
  refine (retryable_iff sampleInstallCalls ?_).2.mpr ?_
  · refine ⟨?_, ?_, ?_, ?_, ?_, ?_, trivial⟩ <;> decide +kernel
  · decide +kernel

/-- The worker ends without an image, and `running` stays set. -/
theorem not_retryable :
    ¬ ∀ (calls : Bool → InstallCall) (schedule : List Bool),
      Retryable calls (Threads.run (installAct calls) installStart schedule) := by
  intro h
  have hfree := (h sampleInstallCalls [false, false, false, false, false, false]).free
    (by decide +kernel)
  exact absurd hfree (by decide +kernel)

end Llamaste
