import Llamaste.Auth

/-!
# The device lock

What a run of password changes, settings changes and restarts keeps of an accepted
password. The promise is tracked next to the device: the password that was accepted
last, and the password that the last complete save carried. A save that is cut short and
still renamed ends the promise on disk until the next complete one.

## Main results

* `locked_after_restart`: the password of the last complete save opens the device after a
  restart, and exactly the documents that do not read as a finished setup leave it open.
* `not_locked_after_restart`: a save cut short, or an empty `device.json`, opens it.
-/

namespace Llamaste

/-! ### Runs -/

/-- What happens to a device. Saves carry their outcome, a password its random bytes. -/
inductive AuthEvent
  | setPassword (password : Text) (salt : Option (Vector UInt8 16))
      (random : Option (Vector UInt8 10)) (o : TempRename)
  | setTimeout (seconds : ℤ) (o : TempRename)
  | restart

/-- What is promised of a device: the password accepted last, and the password of the
last complete save, if one is known. -/
structure Lock where
  current : Option Text := none
  saved : Option Text := none

namespace Lock

/-- A save that lands carries the current password if it is complete, and nothing that is
known otherwise. -/
def save (o : TempRename) (l : Lock) : Lock :=
  if o.Lands then { l with saved := if o.cut = none then l.current else none } else l

/-- The promise after an event, given whether a password was accepted. -/
def after (l : Lock) (e : AuthEvent) (accepted : Bool) : Lock :=
  match e with
  | .setPassword password _ _ o =>
      if accepted then save o { l with current := some password } else l
  | .setTimeout _ o => l.save o
  | .restart => { l with current := l.saved }

end Lock

section

variable (core : KeySchedule)

/-- One event on a device: whether a password was accepted, and the device after it. -/
def authStep (d : Device) : AuthEvent → Bool × Device
  | .setPassword password salt random o => setDevicePassword core password salt random o d
  | .setTimeout seconds o => (false, setSessionTimeout seconds o d)
  | .restart => (false, Device.start d.disk)

/-- One event on a device and on what is promised of it. -/
def watchedStep (s : Device × Lock) (e : AuthEvent) : Bool × (Device × Lock) :=
  let (accepted, d) := authStep core s.1 e
  (accepted, (d, s.2.after e accepted))

/-- A configuration that is set up and opens with a password. -/
structure AuthConfig.Accepts (c : AuthConfig) (password : Text) : Prop where
  setupComplete : c.setupComplete = true
  verifies : verifyDevicePassword core c password = true

/-- A device keeps a promise: the current password opens it, and the saved one opens the
configuration that was saved in full. -/
structure Device.Keeps (d : Device) (l : Lock) : Prop where
  writable : d.config.Writable
  current : ∀ p, l.current = some p → d.config.Accepts core p
  saved : ∀ p, l.saved = some p →
    ∃ c : AuthConfig, c.Writable ∧ c.Accepts core p ∧ d.disk = some c.text

end

variable {core : KeySchedule}

/-! ### What each operation keeps -/

/-- A save keeps the promise, whatever becomes of it. -/
theorem Device.Keeps.save {d : Device} {l : Lock} (h : d.Keeps core l) (o : TempRename) :
    (saveConfig o d).Keeps core (l.save o) := by
  by_cases hlands : o.Lands
  · refine ⟨h.writable, ?_, ?_⟩
    · simp only [Lock.save, if_pos hlands]
      exact h.current
    · intro p hp
      simp only [Lock.save, if_pos hlands] at hp
      cases hcut : o.cut with
      | none =>
          rw [if_pos hcut] at hp
          exact ⟨d.config, h.writable, h.current p hp, TempRename.unchecked_of_lands hlands hcut⟩
      | some k =>
          rw [if_neg (hcut ▸ Option.some_ne_none k)] at hp
          cases hp
  · have hdisk : saveConfig o d = d := by
      rw [saveConfig, TempRename.unchecked_of_not_lands hlands]
    rw [hdisk, Lock.save, if_neg hlands]
    exact h

/-- A new API key is ASCII. -/
theorem valid_generateApiKey (random : Option (Vector UInt8 10)) :
    Utf8.valid (generateApiKey random) = true := by
  have hhead : ∀ c ∈ ("llm-" : Text), c.toNat < 0x80 := Text.forall_of_all (by decide)
  refine Utf8.valid_of_ascii fun c hc => ?_
  rcases List.mem_append.mp hc with hc | hc
  · exact hhead c hc
  · cases random with
    | none => cases hc
    | some bytes =>
        obtain ⟨b, -, hb⟩ := List.mem_flatMap.mp hc
        exact Text.hexByte_ascii b c hb

/-- The hash of an accepted password is ASCII. -/
theorem valid_of_hashPassword {password hash : Text} {salt : Option (Vector UInt8 16)}
    (h : hashPassword core password salt = some hash) : Utf8.valid hash = true := by
  obtain ⟨hpassword, -, salt', -, rfl⟩ := hashPassword_eq_some_iff.mp h
  have hhead : ∀ c ∈ ("$2b$12$" : Text), c.toNat < 0x80 := Text.forall_of_all (by decide)
  have hhash : bcryptHash core password 12 (some salt') = "$2b$12$" ++
      (base64Encode salt'.toList ++ bcryptDigest core password salt' 12) :=
    bcryptHash_eq core hpassword 12 salt'
  rw [hhash]
  refine Utf8.valid_of_ascii fun c hc => ?_
  rcases List.mem_append.mp hc with hc | hc
  · exact hhead c hc
  · rcases List.mem_append.mp hc with hc | hc
    · exact (isPlain_base64Encode _ c hc).2
    · exact (isPlain_base64Encode _ c hc).2

/-- A configuration that can be written can be written after a new password. -/
theorem AuthConfig.Writable.store {c : AuthConfig} (hc : c.Writable) {hash : Text}
    (hhash : Utf8.valid hash = true) (random : Option (Vector UInt8 10)) :
    (storePassword hash random c).Writable := by
  refine ⟨hhash, ?_, hc.deviceName, hc.timeout⟩
  simp only [storePassword]
  split
  · exact valid_generateApiKey random
  · exact hc.apiKey

/-- A new configuration that opens with the current password takes the place of the old
one. -/
theorem Device.Keeps.configure {d : Device} {l : Lock} (h : d.Keeps core l)
    {c : AuthConfig} {q : Option Text} (hconfig : c.Writable)
    (hcurrent : ∀ p, q = some p → c.Accepts core p) :
    Device.Keeps core { d with config := c } { l with current := q } :=
  ⟨hconfig, hcurrent, h.saved⟩

/-- Every event keeps the promise. -/
theorem Device.Keeps.step {d : Device} {l : Lock} (h : d.Keeps core l) (e : AuthEvent) :
    Device.Keeps core (authStep core d e).2 (l.after e (authStep core d e).1) := by
  cases e with
  | setPassword password salt random o =>
      cases hhash : hashPassword core password salt with
      | none =>
          simp only [authStep, setDevicePassword, hhash]
          exact h
      | some hash =>
          have hwritable := h.writable.store (valid_of_hashPassword hhash) random
          simp only [authStep, setDevicePassword, hhash]
          refine (h.configure (q := some password) hwritable ?_).save o
          rintro p ⟨⟩
          exact ⟨rfl, verifyDevicePassword_of_hash hhash rfl⟩
  | setTimeout seconds o =>
      have hwritable : AuthConfig.Writable { d.config with
          sessionTimeoutSeconds := min (max seconds 60) 31536000 } := by
        refine { h.writable with timeout := ?_ }
        simp only [CInt.FitsInt32]
        omega
      exact (h.configure hwritable fun p hp =>
        ⟨(h.current p hp).setupComplete, (h.current p hp).verifies⟩).save o
  | restart =>
      refine h.configure (writable_loadConfig d.disk) fun p hp => ?_
      obtain ⟨c, hwritable, haccepts, hdisk⟩ := h.saved p hp
      rw [hdisk, loadConfig_text hwritable]
      exact haccepts

/-- Every run keeps the promise, from any `device.json`. -/
theorem keeps_final (disk : Option Text) (events : List AuthEvent) :
    let s : Device × Lock := Machine.final (watchedStep core) (Device.start disk, {}) events
    s.1.Keeps core s.2 := by
  refine Machine.final_invariant (I := fun s : Device × Lock => s.1.Keeps core s.2)
    (A := fun _ => True) (fun s e h _ => h.step e) ?_ fun _ _ => trivial
  exact ⟨writable_loadConfig disk, fun _ h => (nomatch h), fun _ h => (nomatch h)⟩

/-! ### Documents that open the device -/

/-- A `device.json` that reads as a finished setup: a document whose fields have the types
they are read at, and whose `setup_complete` is true. -/
def ReadsComplete (content : Text) : Prop :=
  ∃ j, Json.parsePrefix content = some j ∧
    (j.value Json.getString "password_hash" []).isSome ∧
    (j.value Json.getString "api_key" []).isSome ∧
    (j.value Json.getString "device_name" "llamaste").isSome ∧
    (j.value Json.getInt32 "session_timeout_seconds" 604800).isSome ∧
    j.value Json.getBool "setup_complete" false = some true

/-- The setup flag after reading the fields: set exactly when none stops the reading. -/
theorem AuthConfig.setupComplete_readFields (j : Json) :
    (match AuthConfig.readFields {} j with
      | .ok c => c
      | .error c => c.startFresh).setupComplete = true ↔
      (j.value Json.getString "password_hash" []).isSome ∧
      (j.value Json.getString "api_key" []).isSome ∧
      (j.value Json.getString "device_name" "llamaste").isSome ∧
      (j.value Json.getInt32 "session_timeout_seconds" 604800).isSome ∧
      j.value Json.getBool "setup_complete" false = some true := by
  rw [AuthConfig.readFields]
  cases j.value Json.getString "password_hash" [] with
  | none => simp [AuthConfig.assign, AuthConfig.startFresh, bind, Except.bind]
  | some a =>
  cases j.value Json.getString "api_key" [] with
  | none => simp [AuthConfig.assign, AuthConfig.startFresh, bind, Except.bind]
  | some b =>
  cases j.value Json.getString "device_name" "llamaste" with
  | none => simp [AuthConfig.assign, AuthConfig.startFresh, bind, Except.bind]
  | some c =>
  cases j.value Json.getInt32 "session_timeout_seconds" 604800 with
  | none => simp [AuthConfig.assign, AuthConfig.startFresh, bind, Except.bind]
  | some d =>
  cases j.value Json.getBool "setup_complete" false with
  | none => simp [AuthConfig.assign, AuthConfig.startFresh, bind, Except.bind]
  | some e => simp [AuthConfig.assign, bind, Except.bind]

theorem setupComplete_loadConfig_iff (content : Text) :
    (loadConfig (some content)).setupComplete = true ↔ ReadsComplete content := by
  rw [ReadsComplete]
  cases hparse : Json.parsePrefix content with
  | none => simp [loadConfig, hparse, AuthConfig.startFresh]
  | some j =>
      simp only [loadConfig, hparse, Option.some.injEq, exists_eq_left']
      exact AuthConfig.setupComplete_readFields j

/-- Every request is let through exactly before the setup. -/
theorem isAuthenticated_all_iff (c : AuthConfig) :
    (∀ validSession bearer, isAuthenticated c validSession bearer = true) ↔
      ¬ c.setupComplete = true := by
  constructor
  · intro h hcomplete
    have := h false []
    simp [isAuthenticated, hcomplete, verifyApiKey] at this
  · intro h validSession bearer
    simp [isAuthenticated, h]

/-! ### The lock -/

/-- **A locked device stays locked.** In every run of password changes, settings changes
and restarts, from any `device.json`, the password of the last complete save opens the
device that a restart loads; and among the documents exactly those that do not read as a
finished setup are treated as a first boot, in which every request is let through. -/
theorem locked_after_restart (core : KeySchedule) :
    (∀ disk events p,
      let s : Device × Lock := Machine.final (watchedStep core) (Device.start disk, {}) events
      s.2.saved = some p → (loadConfig s.1.disk).Accepts core p) ∧
    ∀ content, (∀ validSession bearer,
      isAuthenticated (loadConfig (some content)) validSession bearer = true) ↔
        ¬ ReadsComplete content := by
  constructor
  · intro disk events p s hp
    obtain ⟨c, hwritable, haccepts, hdisk⟩ := (keeps_final disk events).saved p hp
    rw [hdisk, loadConfig_text hwritable]
    exact haccepts
  · intro content
    rw [isAuthenticated_all_iff, setupComplete_loadConfig_iff]

/-! ### A sample -/

/-- The password is set with one save outcome, and the device restarts. -/
def sampleRun (o : TempRename) : List AuthEvent :=
  [.setPassword "pass" (some sampleSalt) (some (Vector.replicate 10 7)) o, .restart]

/-- A saved password opens the device after a restart. -/
theorem locked_after_restart_sample :
    AuthConfig.Accepts sampleKeySchedule (loadConfig (Machine.final
      (watchedStep sampleKeySchedule) (Device.start none, {})
      (sampleRun ⟨true, none, true⟩)).1.disk) "pass" :=
  (locked_after_restart sampleKeySchedule).1 none (sampleRun ⟨true, none, true⟩) "pass"
    (by decide +kernel)

/-- A password is accepted, its save is cut short at once and renamed: after the restart
the device is not set up. The same holds of any device whose `device.json` is empty. -/
theorem not_locked_after_restart :
    Machine.outputs (authStep sampleKeySchedule) (Device.start none)
        (sampleRun ⟨true, some 0, true⟩) = [true, false] ∧
      (loadConfig (Machine.final (authStep sampleKeySchedule) (Device.start none)
        (sampleRun ⟨true, some 0, true⟩)).disk).setupComplete = false ∧
      isAuthenticated (loadConfig (some [])) false [] = true := by
  decide +kernel

end Llamaste
