import Llamaste.Auth
import Llamaste.Lib.Threads

/-!
# First-boot setup

Requests to set the device password on a device that is not set up yet, each handled by a
thread of its own: the check whether the setup is complete, the hashing, the store under
the lock, the save, the creation of a session and the answer are separate steps. The hash
of a password takes a quarter of a second and is computed outside the lock. Source:
`child_main.cpp`, `auth.cpp`.

## Main results

* `setup_once_iff`: exactly one request sets the device up if and only if one request
  makes its check, its hash and its store before another makes its check.
* `not_setup_once`: two requests that interleave both succeed.
-/

namespace Llamaste

/-! ### The handler -/

/-- A request to `/llamaste/auth/setup`: its body, the random bytes that its handler gets
for the salt, for an API key and for the session token, and the outcome of its save. -/
structure SetupRequest where
  body : Text
  salt : Option (Vector UInt8 16)
  keyBytes : Option (Vector UInt8 10)
  tokenBytes : Option (Vector UInt8 16)
  save : TempRename

/-- The answer to such a request. -/
inductive SetupResponse
  | error (status : ℕ) (message : Text)
  | success (session apiKey : Text)
  deriving DecidableEq

/-- Where the handler of a request stands. -/
inductive SetupPc
  | arrived
  | checked (password : Text)
  | hashed (hash : Text)
  | stored
  | saved
  | welcomed (session : Text)
  | answered (response : SetupResponse)
  deriving DecidableEq

/-- What the handlers share: the device, and the tokens of its sessions. -/
structure Server where
  device : Device
  sessions : List Text := []

namespace SetupRequest

variable (r : SetupRequest)

/-- The check of the setup, and of the body behind it. A body without a string for a
password is an exception, which the server answers. -/
def check (c : AuthConfig) : SetupPc :=
  if c.setupComplete then .answered (.error 403 "Setup already complete")
  else
    match Json.parse r.body with
    | none => .answered (.error 400 "Invalid JSON")
    | some body =>
        match body.value Json.getString "password" [] with
        | none => .answered (.error 500 "Error")
        | some password =>
            if password.length < 4 then
              .answered (.error 400 "Password must be at least 4 characters")
            else .checked password

/-- The hashing of the password. -/
def hash (core : KeySchedule) (password : Text) : SetupPc :=
  match hashPassword core password r.salt with
  | none => .answered (.error 500 "Failed to set password")
  | some hash => .hashed hash

end SetupRequest

/-- `create_session`. -/
def createSession (token : Text) (server : Server) : Server :=
  { server with sessions := server.sessions.insert token }

section

variable (core : KeySchedule)

/-- One step of the handler of a request. -/
def SetupRequest.step (r : SetupRequest) : Server × SetupPc → Server × SetupPc
  | (server, .arrived) => (server, r.check server.device.config)
  | (server, .checked password) => (server, r.hash core password)
  | (server, .hashed hash) =>
      ({ server with device.config := storePassword hash r.keyBytes server.device.config }, .stored)
  | (server, .stored) => ({ server with device := saveConfig r.save server.device }, .saved)
  | (server, .saved) =>
      (createSession (generateToken r.tokenBytes) server, .welcomed (generateToken r.tokenBytes))
  | (server, .welcomed session) =>
      (server, .answered (.success session server.device.config.apiKey))
  | (server, .answered response) => (server, .answered response)

/-- A handler with nobody between its steps sets the password like
`set_device_password`. -/
theorem SetupRequest.step_eq_setDevicePassword (r : SetupRequest) (server : Server)
    {password hash : Text} (h : hashPassword core password r.salt = some hash) :
    (r.step core (r.step core (r.step core (server, .checked password)))).1.device =
      (setDevicePassword core password r.salt r.keyBytes r.save server.device).2 := by
  simp only [step, SetupRequest.hash, h, setDevicePassword]

end

/-- A request with a valid password. -/
structure ValidSetup extends SetupRequest where
  document : Json
  password : Text
  parses : Json.parse body = some document
  reads : document.value Json.getString "password" [] = some password
  four_le : 4 ≤ password.length
  le_seventyTwo : password.length ≤ 72

section

variable {core : KeySchedule} {ι : Type} [DecidableEq ι]

/-- Every handler takes its steps on the server. -/
def setupAct (core : KeySchedule) (reqs : ι → ValidSetup) (i : ι) :
    Server × SetupPc → Server × SetupPc :=
  (reqs i).step core

/-- The server and the handlers after a schedule, from requests that have just arrived. -/
def setupRun (core : KeySchedule) (reqs : ι → ValidSetup) (server : Server)
    (schedule : List ι) : Server × (ι → SetupPc) :=
  Threads.run (setupAct core reqs) (server, fun _ => .arrived) schedule

/-- The setup happened once: one request has a session and the API key, every other one an
error, and the password of the first opens the device. -/
def SetupOnce (core : KeySchedule) (reqs : ι → ValidSetup) (s : Server × (ι → SetupPc)) :
    Prop :=
  ∃ i, (∃ session ∈ s.1.sessions, session ≠ [] ∧
      s.2 i = .answered (.success session s.1.device.config.apiKey)) ∧
    verifyApiKey s.1.device.config s.1.device.config.apiKey = true ∧
    (∀ j ≠ i, ∃ status message, s.2 j = .answered (.error status message)) ∧
    verifyDevicePassword core s.1.device.config (reqs i).password = true

/-! ### Steps of one handler -/

namespace ValidSetup

variable (r : ValidSetup)

theorem check_of_complete {c : AuthConfig} (h : c.setupComplete = true) :
    r.check c = .answered (.error 403 "Setup already complete") := if_pos h

theorem check_of_not_complete {c : AuthConfig} (h : c.setupComplete = false) :
    r.check c = .checked r.password := by
  have hlength : ¬ r.password.length < 4 := by
    have := r.four_le
    omega
  simp only [SetupRequest.check, h, r.parses, r.reads, if_neg hlength, Bool.false_eq_true,
    if_false]

/-- With random bytes for a salt the password is hashed. -/
theorem hashPassword_isSome (core : KeySchedule) (h : r.salt.isSome) :
    ∃ hash, hashPassword core r.password r.salt = some hash := by
  obtain ⟨salt, hsalt⟩ := Option.isSome_iff_exists.mp h
  have hne : r.password ≠ [] := by
    intro hnil
    have := r.four_le
    simp [hnil] at this
  exact ⟨_, hashPassword_eq_some_iff.mpr ⟨hne, r.le_seventyTwo, salt, hsalt, rfl⟩⟩

end ValidSetup

/-- How far a handler is. -/
def SetupPc.rank : SetupPc → ℕ
  | .arrived => 0
  | .checked _ => 1
  | .hashed _ => 2
  | .stored => 3
  | .saved => 4
  | .welcomed _ => 5
  | .answered _ => 6

/-- Every step brings a handler closer to its answer. -/
theorem SetupRequest.rank_step (r : SetupRequest) (server : Server) (pc : SetupPc) :
    min 6 (pc.rank + 1) ≤ (r.step core (server, pc)).2.rank := by
  have hcheck : ∀ c, 1 ≤ (r.check c).rank := by
    intro c
    rw [SetupRequest.check]
    repeat' split
    all_goals simp [SetupPc.rank]
  have hhash : ∀ password, 2 ≤ (r.hash core password).rank := by
    intro password
    rw [SetupRequest.hash]
    split
    · simp [SetupPc.rank]
    · exact Nat.le_refl _
  cases pc with
  | arrived => exact hcheck _
  | checked password => exact hhash password
  | hashed hash => exact Nat.le_refl _
  | stored => exact Nat.le_refl _
  | saved => exact Nat.le_refl _
  | welcomed session => exact Nat.le_refl _
  | answered response => exact Nat.le_refl _

/-- A handler without random bytes for a salt: it does not get beyond the hashing. -/
inductive SetupPc.Harmless : SetupPc → Prop
  | arrived : Harmless .arrived
  | checked (password : Text) : Harmless (.checked password)
  | refused (status : ℕ) (message : Text) : Harmless (.answered (.error status message))

/-- Such a handler leaves the server alone. -/
theorem SetupRequest.harmless_step {r : SetupRequest} (hsalt : r.salt = none)
    (server : Server) {pc : SetupPc} (h : pc.Harmless) :
    (r.step core (server, pc)).1 = server ∧ (r.step core (server, pc)).2.Harmless := by
  cases h with
  | arrived =>
      refine ⟨rfl, ?_⟩
      simp only [step, check]
      repeat' split
      all_goals constructor
  | checked password =>
      refine ⟨rfl, ?_⟩
      have hnone : hashPassword core password r.salt = none := by
        refine Option.eq_none_iff_forall_ne_some.mpr fun hash hhash => ?_
        obtain ⟨-, -, salt, hsome, -⟩ := hashPassword_eq_some_iff.mp hhash
        exact absurd (hsalt.symm.trans hsome) (by simp)
      simp only [step, SetupRequest.hash, hnone]
      constructor
  | refused status message => exact ⟨rfl, .refused status message⟩

/-- A handler behind its check, with a password that will be hashed: it will succeed. -/
inductive SetupPc.Admitted (password : Text) : SetupPc → Prop
  | checked : Admitted password (.checked password)
  | hashed (hash : Text) : Admitted password (.hashed hash)
  | stored : Admitted password .stored
  | saved : Admitted password .saved
  | welcomed (session : Text) : Admitted password (.welcomed session)
  | succeeded (session apiKey : Text) : Admitted password (.answered (.success session apiKey))

/-- Nothing stops an admitted handler any more. -/
theorem ValidSetup.admitted_step {r : ValidSetup} (hsalt : r.salt.isSome) (server : Server)
    {pc : SetupPc} (h : pc.Admitted r.password) :
    (r.step core (server, pc)).2.Admitted r.password := by
  cases h with
  | checked =>
      obtain ⟨hash, hhash⟩ := r.hashPassword_isSome core hsalt
      simp only [SetupRequest.step, SetupRequest.hash, hhash]
      exact .hashed hash
  | hashed hash => exact .stored
  | stored => exact .saved
  | saved => exact .welcomed _
  | welcomed session => exact .succeeded session _
  | succeeded session apiKey => exact .succeeded session apiKey

/-- A handler that makes its check before any store is admitted, and the server is as it
was. -/
theorem ValidSetup.step_arrived (r : ValidSetup) {server : Server}
    (h : server.device.config.setupComplete = false) :
    r.step core (server, .arrived) = (server, .checked r.password) := by
  simp only [SetupRequest.step, r.check_of_not_complete h]

/-! ### The handler that wins -/

variable {reqs : ι → ValidSetup} {server : Server}

/-- A handler whose store was the first, with the session that it creates. -/
inductive SetupPc.Winning (server : Server) (session : Text) : SetupPc → Prop
  | stored : Winning server session .stored
  | saved : Winning server session .saved
  | welcomed (h : session ∈ server.sessions) : Winning server session (.welcomed session)
  | succeeded (h : session ∈ server.sessions) :
      Winning server session (.answered (.success session server.device.config.apiKey))

/-- Request `i` has set the device up, and nobody else will. -/
structure Won (core : KeySchedule) (reqs : ι → ValidSetup) (i : ι)
    (s : Server × (ι → SetupPc)) : Prop where
  complete : s.1.device.config.setupComplete = true
  hash : hashPassword core (reqs i).password (reqs i).salt =
    some s.1.device.config.passwordHash
  apiKey : s.1.device.config.apiKey ≠ []
  others : ∀ j ≠ i, s.2 j = .arrived ∨ ∃ status message, s.2 j = .answered (.error status message)
  winner : (s.2 i).Winning s.1 (generateToken (reqs i).tokenBytes)

/-- What a winning handler leaves unchanged of the configuration. -/
theorem SetupRequest.winning_step (core : KeySchedule) (r : SetupRequest) {server : Server}
    {pc : SetupPc} (h : pc.Winning server (generateToken r.tokenBytes)) :
    (r.step core (server, pc)).1.device.config = server.device.config ∧
      (r.step core (server, pc)).2.Winning (r.step core (server, pc)).1
        (generateToken r.tokenBytes) := by
  cases h with
  | stored => exact ⟨rfl, .saved⟩
  | saved => exact ⟨rfl, .welcomed List.mem_insert_self⟩
  | welcomed h => exact ⟨rfl, .succeeded h⟩
  | succeeded h => exact ⟨rfl, .succeeded h⟩

/-- A won setup stays won, whoever steps next. -/
theorem Won.step {i : ι} {s : Server × (ι → SetupPc)} (h : Won core reqs i s) (j : ι) :
    Won core reqs i (Threads.step (setupAct core reqs) s j) := by
  by_cases hji : j = i
  · subst hji
    obtain ⟨hconfig, hwinning⟩ := (reqs j).winning_step core h.winner
    refine ⟨?_, ?_, ?_, fun k hk => ?_, ?_⟩
    · exact (congrArg AuthConfig.setupComplete hconfig).trans h.complete
    · rw [h.hash]
      exact congrArg (fun c => some (AuthConfig.passwordHash c)) hconfig.symm
    · exact fun hnil => h.apiKey ((congrArg AuthConfig.apiKey hconfig).symm.trans hnil)
    · rw [Threads.step_of_ne s hk]
      exact h.others k hk
    · rw [Threads.step_self]
      exact hwinning
  · have hact : (setupAct core reqs j (s.1, s.2 j)).1 = s.1 ∧ ∃ status message,
        (setupAct core reqs j (s.1, s.2 j)).2 = .answered (.error status message) := by
      rcases h.others j hji with hj | ⟨status, message, hj⟩
      · rw [hj]
        exact ⟨rfl, _, _, (reqs j).check_of_complete h.complete⟩
      · rw [hj]
        exact ⟨rfl, status, message, rfl⟩
    have hshared : (Threads.step (setupAct core reqs) s j).1 = s.1 := hact.1
    refine ⟨hshared ▸ h.complete, hshared ▸ h.hash, hshared ▸ h.apiKey, fun k hk => ?_, ?_⟩
    · by_cases hkj : k = j
      · subst hkj
        rw [Threads.step_self]
        exact Or.inr hact.2
      · rw [Threads.step_of_ne s hkj]
        exact h.others k hk
    · rw [Threads.step_of_ne s (Ne.symm hji), hshared]
      exact h.winner

/-! ### The first steps -/

/-- The check of a request on an open device. -/
theorem step_of_arrived {s : Server × (ι → SetupPc)} {i : ι}
    (hopen : s.1.device.config.setupComplete = false) (hi : s.2 i = .arrived) :
    Threads.step (setupAct core reqs) s i =
      (s.1, Function.update s.2 i (.checked (reqs i).password)) := by
  simp only [Threads.step, setupAct, hi, (reqs i).step_arrived hopen]

/-- The hashing of its password. -/
theorem step_of_checked (core : KeySchedule) {s : Server × (ι → SetupPc)} {i : ι}
    (hsalt : (reqs i).salt.isSome) (hi : s.2 i = .checked (reqs i).password) :
    ∃ hash, hashPassword core (reqs i).password (reqs i).salt = some hash ∧
      Threads.step (setupAct core reqs) s i = (s.1, Function.update s.2 i (.hashed hash)) := by
  obtain ⟨hash, hhash⟩ := (reqs i).hashPassword_isSome core hsalt
  refine ⟨hash, hhash, ?_⟩
  simp only [Threads.step, setupAct, hi, SetupRequest.step, SetupRequest.hash, hhash]

/-- A request that makes its check, its hash and its store before any other wins. -/
theorem won_of_first {i : ι} (hopen : server.device.config.setupComplete = false)
    (hsalt : (reqs i).salt.isSome) :
    Won core reqs i (setupRun core reqs server [i, i, i]) := by
  obtain ⟨hash, hhash, hstep⟩ := step_of_checked core
    (s := (server, Function.update (fun _ => .arrived) i (.checked (reqs i).password))) hsalt
    (by simp)
  rw [setupRun, Threads.run_cons, step_of_arrived hopen rfl, Threads.run_cons, hstep,
    Threads.run_cons, Threads.run_nil]
  simp only [Threads.step, setupAct, Function.update_self, SetupRequest.step,
    Function.update_idem]
  refine ⟨rfl, hhash, ?_, fun j hj => Or.inl (by simp [hj]), ?_⟩
  · simp only [storePassword]
    split
    · exact List.cons_ne_nil _ _
    · assumption
  · dsimp only
    rw [Function.update_self]
    exact .stored

/-- Otherwise the first three steps let two requests past the check. -/
theorem two_admitted (core : KeySchedule) (hopen : server.device.config.setupComplete = false)
    {i j k : ι} (hsalt : ∀ l ∈ [i, j, k], (reqs l).salt.isSome) (hdiff : ¬ (j = i ∧ k = i)) :
    ∃ l, l ≠ i ∧ l ∈ [i, j, k] ∧ ∀ m, m = i ∨ m = l →
      ((setupRun core reqs server [i, j, k]).2 m).Admitted (reqs m).password := by
  rw [setupRun, Threads.run_cons, step_of_arrived hopen rfl]
  by_cases hji : j = i
  · subst hji
    have hki : k ≠ j := fun h => hdiff ⟨rfl, h⟩
    obtain ⟨hash, -, hstep⟩ := step_of_checked core
      (s := (server, Function.update (fun _ => .arrived) j (.checked (reqs j).password)))
      (hsalt j (by simp)) (by simp)
    refine ⟨k, hki, by simp, fun m hm => ?_⟩
    rw [Threads.run_cons, hstep, Function.update_idem, Threads.run_cons,
      step_of_arrived hopen (by simp [hki]), Threads.run_nil]
    rcases hm with rfl | rfl
    · dsimp only
      rw [Function.update_of_ne (Ne.symm hki), Function.update_self]
      exact .hashed hash
    · dsimp only
      rw [Function.update_self]
      exact .checked
  · refine ⟨j, hji, by simp, fun m hm => ?_⟩
    rw [Threads.run_cons, step_of_arrived hopen (by simp [hji])]
    have hsalt' : (reqs m).salt.isSome := by
      rcases hm with rfl | rfl
      · exact hsalt m (by simp)
      · exact hsalt m (by simp)
    refine Threads.run_stays (f := setupAct core reqs)
      (fun g l hl => (reqs m).admitted_step hsalt' g hl) ?_ [k]
    rcases hm with rfl | rfl
    · dsimp only
      rw [Function.update_of_ne (Ne.symm hji), Function.update_self]
      exact .checked
    · dsimp only
      rw [Function.update_self]
      exact .checked

/-! ### Whole schedules -/

/-- The handlers that get random bytes for a salt. -/
def salted (reqs : ι → ValidSetup) (schedule : List ι) : List ι :=
  schedule.filter fun i => (reqs i).salt.isSome

/-- The others make no difference to the server and to these. -/
theorem setupRun_salted (core : KeySchedule) (reqs : ι → ValidSetup) (server : Server)
    (schedule : List ι) :
    (setupRun core reqs server schedule).1 =
        (setupRun core reqs server (salted reqs schedule)).1 ∧
      ∀ i, (reqs i).salt.isSome → (setupRun core reqs server schedule).2 i =
        (setupRun core reqs server (salted reqs schedule)).2 i :=
  Threads.run_filter (Q := SetupPc.Harmless)
    (fun _ g _ hi hl => SetupRequest.harmless_step (by simpa using hi) g hl)
    (fun _ _ => .arrived) schedule

/-- A handler with six steps in a schedule has answered. -/
theorem rank_of_count (core : KeySchedule) (reqs : ι → ValidSetup) (s : Server × (ι → SetupPc))
    {i : ι} {schedule : List ι}
    (h : 6 ≤ schedule.count i) :
    6 ≤ ((Threads.run (setupAct core reqs) s schedule).2 i).rank := by
  have := Threads.run_progress (f := setupAct core reqs) (m := SetupPc.rank) (n := 6)
    (fun i g l => (reqs i).rank_step g l) s i schedule
  omega

/-- A request whose password cannot be hashed is answered with an error. -/
theorem refused_of_not_salted (core : KeySchedule) (server : Server) {i : ι}
    {schedule : List ι} (hdone : 6 ≤ schedule.count i)
    (hsalt : ¬ (reqs i).salt.isSome) :
    ∃ status message,
      (setupRun core reqs server schedule).2 i = .answered (.error status message) := by
  have hharmless := Threads.run_stays (f := setupAct core reqs) (P := SetupPc.Harmless)
    (s := (server, fun _ => .arrived))
    (fun g l hl => (SetupRequest.harmless_step (Option.not_isSome_iff_eq_none.mp hsalt) g hl).2)
    .arrived schedule
  have hrank := rank_of_count core reqs (server, fun _ => .arrived) hdone
  rw [setupRun]
  generalize (Threads.run (setupAct core reqs) _ schedule).2 i = pc at hharmless hrank
  cases hharmless with
  | refused status message => exact ⟨status, message, rfl⟩
  | _ => simp [SetupPc.rank] at hrank

/-- An admitted handler that is done has succeeded. -/
theorem succeeded_of_admitted {i : ι} (hsalt : (reqs i).salt.isSome)
    {s : Server × (ι → SetupPc)} (h : (s.2 i).Admitted (reqs i).password) {schedule : List ι}
    (hdone : 6 ≤ ((Threads.run (setupAct core reqs) s schedule).2 i).rank) :
    ∃ session apiKey,
      (Threads.run (setupAct core reqs) s schedule).2 i = .answered (.success session apiKey) := by
  have hadmitted := Threads.run_stays (f := setupAct core reqs)
    (fun g l hl => (reqs i).admitted_step hsalt g hl) h schedule
  generalize (Threads.run (setupAct core reqs) s schedule).2 i = pc at hadmitted hdone
  cases hadmitted with
  | succeeded session apiKey => exact ⟨session, apiKey, rfl⟩
  | _ => simp [SetupPc.rank] at hdone

/-- A request with the first three steps wins. -/
theorem won_of_take (core : KeySchedule) {i : ι} {schedule : List ι}
    (hopen : server.device.config.setupComplete = false)
    (htake : (salted reqs schedule).take 3 = [i, i, i]) :
    (reqs i).salt.isSome ∧
      Won core reqs i (setupRun core reqs server (salted reqs schedule)) := by
  have hsalt : (reqs i).salt.isSome := by
    have hmem : i ∈ salted reqs schedule := List.mem_of_mem_take (htake ▸ List.mem_cons_self)
    exact (List.mem_filter.mp hmem).2
  refine ⟨hsalt, ?_⟩
  rw [← List.take_append_drop 3 (salted reqs schedule), htake, setupRun, Threads.run_append]
  exact Threads.run_invariant (I := Won core reqs i) (fun _ j h => h.step j)
    (won_of_first hopen hsalt) _

omit [DecidableEq ι] in
/-- The winner has succeeded when it has answered, and the others have not. -/
theorem Won.answers {i : ι} {s : Server × (ι → SetupPc)} (h : Won core reqs i s)
    (hi : 6 ≤ (s.2 i).rank) :
    (generateToken (reqs i).tokenBytes ∈ s.1.sessions ∧
      s.2 i = .answered (.success (generateToken (reqs i).tokenBytes) s.1.device.config.apiKey)) ∧
      ∀ j ≠ i, 6 ≤ (s.2 j).rank → ∃ status message, s.2 j = .answered (.error status message) := by
  constructor
  · have hwinner := h.winner
    generalize s.2 i = pc at hwinner hi
    cases hwinner with
    | succeeded hmem => exact ⟨hmem, rfl⟩
    | _ => simp [SetupPc.rank] at hi
  · intro j hj hrank
    refine (h.others j hj).resolve_left fun harrived => ?_
    simp [harrived, SetupPc.rank] at hrank

/-- A device accepts its own API key. -/
theorem verifyApiKey_self {c : AuthConfig} (h : c.apiKey ≠ []) :
    verifyApiKey c c.apiKey = true := by
  simp [verifyApiKey, h]

/-- Random bytes make a token, and nothing else does. -/
theorem generateToken_ne_nil_iff {random : Option (Vector UInt8 16)} :
    generateToken random ≠ [] ↔ random.isSome := by
  cases random with
  | none => simp [generateToken]
  | some bytes =>
      refine iff_of_true (fun hnil => ?_) rfl
      have hempty : ∀ b : UInt8, b ∉ bytes := by
        simpa [generateToken, List.flatMap_eq_nil_iff, Text.hexByte] using hnil
      exact hempty bytes[0] (by simp)

/-- When one request takes the first three steps and gets a token, the setup happens
once. -/
theorem setupOnce_of_take {i : ι} {schedule : List ι}
    (hopen : server.device.config.setupComplete = false) (hdone : ∀ j, 6 ≤ schedule.count j)
    (htake : (salted reqs schedule).take 3 = [i, i, i]) (htoken : (reqs i).tokenBytes.isSome) :
    SetupOnce core reqs (setupRun core reqs server schedule) := by
  obtain ⟨hsalt, hwon⟩ := won_of_take core hopen htake
  obtain ⟨hshared, hlocal⟩ := setupRun_salted core reqs server schedule
  have hrank : ∀ j, 6 ≤ ((setupRun core reqs server schedule).2 j).rank := fun j =>
    rank_of_count core reqs _ (hdone j)
  have hi := hlocal i hsalt
  obtain ⟨⟨hmem, hanswer⟩, hothers⟩ := hwon.answers (hi ▸ hrank i)
  refine ⟨i, ⟨_, hshared ▸ hmem, generateToken_ne_nil_iff.mpr htoken, ?_⟩, ?_, ?_, ?_⟩
  · rw [hi, hanswer, hshared]
  · exact verifyApiKey_self (hshared ▸ hwon.apiKey)
  · intro j hj
    by_cases hjsalt : (reqs j).salt.isSome
    · rw [hlocal j hjsalt]
      exact hothers j hj (hlocal j hjsalt ▸ hrank j)
    · exact refused_of_not_salted core server (hdone j) hjsalt
  · rw [hshared]
    exact verifyDevicePassword_of_hash hwon.hash rfl

/-- When all requests are answered and only one of them with success, that one took the
first three steps and got a token. -/
theorem take_of_succeeded {i : ι} {session apiKey : Text} {schedule : List ι}
    (hopen : server.device.config.setupComplete = false) (hdone : ∀ j, 6 ≤ schedule.count j)
    (hi : (setupRun core reqs server schedule).2 i = .answered (.success session apiKey))
    (hunique : ∀ j session' apiKey', (setupRun core reqs server schedule).2 j =
      .answered (.success session' apiKey') → j = i) :
    (salted reqs schedule).take 3 = [i, i, i] ∧ session = generateToken (reqs i).tokenBytes := by
  obtain ⟨-, hlocal⟩ := setupRun_salted core reqs server schedule
  have hrank : ∀ j, 6 ≤ ((setupRun core reqs server schedule).2 j).rank := fun j =>
    rank_of_count core reqs _ (hdone j)
  have hsalt : (reqs i).salt.isSome := by
    by_contra hsalt
    obtain ⟨status, message, herror⟩ :=
      refused_of_not_salted core server (hdone i) hsalt
    rw [hi] at herror
    cases herror
  obtain ⟨a, b, c, rest, hfirst⟩ : ∃ a b c rest, salted reqs schedule = a :: b :: c :: rest := by
    have hcount : 6 ≤ (salted reqs schedule).count i := by
      rw [salted, List.count_filter (p := fun i => (reqs i).salt.isSome) hsalt]
      exact hdone i
    match salted reqs schedule, hcount.trans List.count_le_length with
    | a :: b :: c :: rest, _ => exact ⟨a, b, c, rest, rfl⟩
  have hmember : ∀ l ∈ [a, b, c], (reqs l).salt.isSome := by
    intro l hl
    have : l ∈ salted reqs schedule := by
      rw [hfirst]
      exact List.mem_append_left rest hl
    exact (List.mem_filter.mp this).2
  by_cases hsame : b = a ∧ c = a
  · have htake : (salted reqs schedule).take 3 = [a, a, a] := by
      rw [hfirst, hsame.1, hsame.2]
      rfl
    obtain ⟨ha, hwon⟩ := won_of_take core hopen htake
    obtain ⟨-, hanswer⟩ := (hwon.answers (hlocal a ha ▸ hrank a)).1
    obtain rfl := hunique a _ _ ((hlocal a ha).trans hanswer)
    rw [← hlocal a ha, hi] at hanswer
    exact ⟨htake, (SetupResponse.success.inj (SetupPc.answered.inj hanswer)).1⟩
  · -- two requests passed the check, so both succeed
    obtain ⟨l, hla, hl, hadmitted⟩ := two_admitted core hopen hmember hsame
    have hsucceeded : ∀ m, m = a ∨ m = l → m = i := by
      intro m hm
      have hm' : (reqs m).salt.isSome := by
        rcases hm with rfl | rfl
        · exact hmember m List.mem_cons_self
        · exact hmember m hl
      have hrun : setupRun core reqs server (salted reqs schedule) =
          Threads.run (setupAct core reqs) (setupRun core reqs server [a, b, c]) rest := by
        rw [hfirst]
        rfl
      have hdone' := hrank m
      rw [hlocal m hm', hrun] at hdone'
      obtain ⟨session', apiKey', hm⟩ := succeeded_of_admitted hm' (hadmitted m hm) hdone'
      exact hunique m session' apiKey' (by rw [hlocal m hm', hrun, hm])
    exact absurd ((hsucceeded l (Or.inr rfl)).trans (hsucceeded a (Or.inl rfl)).symm) hla

/-- **First-boot setup happens once, or not.** On a device that is not set up, in every
interleaving of requests with valid passwords that are all answered, exactly one succeeds
and keeps the device if and only if, among the requests whose password can be hashed, one
makes its check, its hash and its store before any other makes its check, and a session
token can be made for it. -/
theorem setup_once_iff (core : KeySchedule) (reqs : ι → ValidSetup) (server : Server)
    (hopen : server.device.config.setupComplete = false) (schedule : List ι)
    (hdone : ∀ i, 6 ≤ schedule.count i) :
    SetupOnce core reqs (setupRun core reqs server schedule) ↔
      ∃ i, (salted reqs schedule).take 3 = [i, i, i] ∧ (reqs i).tokenBytes.isSome := by
  constructor
  · rintro ⟨i, ⟨session, -, hne, hi⟩, -, hothers, -⟩
    obtain ⟨htake, rfl⟩ := take_of_succeeded hopen hdone hi fun j session' apiKey' hj => by
      by_contra hji
      obtain ⟨status, message, herror⟩ := hothers j hji
      rw [hj] at herror
      cases herror
    exact ⟨i, htake, generateToken_ne_nil_iff.mp hne⟩
  · rintro ⟨i, htake, htoken⟩
    exact setupOnce_of_take hopen hdone htake htoken

end

/-! ### Two requests -/

/-- A request that sends a body and gets the same random bytes as every other. -/
def sampleRequest (body : Text) : SetupRequest :=
  { body, salt := some sampleSalt, keyBytes := some (Vector.replicate 10 7),
    tokenBytes := some (Vector.replicate 16 7), save := ⟨true, none, true⟩ }

/-- A request with a body that holds a valid password. -/
def sampleSetup (body password : Text) (hparse : (Json.parse body).isSome)
    (hreads : ((Json.parse body).get hparse).value Json.getString "password" [] = some password)
    (hlength : 4 ≤ password.length ∧ password.length ≤ 72) : ValidSetup :=
  { sampleRequest body with
    document := (Json.parse body).get hparse, password, parses := (Option.some_get _).symm,
    reads := hreads, four_le := hlength.1, le_seventyTwo := hlength.2 }

/-- Two requests, with the passwords "pass" and "word". -/
def sampleRequests (first : Bool) : ValidSetup :=
  bif first then
    sampleSetup "\x7b\"password\":\"pass\"\x7d" "pass" (by decide +kernel) (by decide +kernel)
      (by decide)
  else
    sampleSetup "\x7b\"password\":\"word\"\x7d" "word" (by decide +kernel) (by decide +kernel)
      (by decide)

/-- One after the other, the first request sets the device up. -/
theorem setup_once_sample :
    SetupOnce sampleKeySchedule sampleRequests (setupRun sampleKeySchedule sampleRequests
      ⟨Device.start none, []⟩ (List.replicate 6 true ++ List.replicate 6 false)) :=
  (setup_once_iff sampleKeySchedule sampleRequests ⟨Device.start none, []⟩ rfl
    (List.replicate 6 true ++ List.replicate 6 false) (by decide)).mpr ⟨true, by decide, rfl⟩

/-- Step by step in turn, both requests are answered with success. -/
theorem not_setup_once :
    ¬ SetupOnce sampleKeySchedule sampleRequests (setupRun sampleKeySchedule sampleRequests
      ⟨Device.start none, []⟩ (List.replicate 6 [true, false]).flatten) := by
  have hboth : ∀ b, (setupRun sampleKeySchedule sampleRequests ⟨Device.start none, []⟩
      (List.replicate 6 [true, false]).flatten).2 b =
        .answered (.success (generateToken (some (Vector.replicate 16 7)))
          (generateApiKey (some (Vector.replicate 10 7)))) := by
    decide +kernel
  rintro ⟨i, -, -, hothers, -⟩
  obtain ⟨status, message, herror⟩ := hothers (!i) (by cases i <;> decide)
  rw [hboth] at herror
  cases herror

end Llamaste
