import Mathlib
import Llamaste.Auth

/-!
# The login rate limit

Login requests, each handled by a thread of its own: the look at the failures of the client
address, the check of the password and the record of a failure are separate steps, and the
check takes a quarter of a second. In between the housekeeping thread forgets old failures
and other requests change the configuration. Times are nanoseconds of a clock that does not
go back; failed checks and recorded failures are also kept as a history, which the code
does not read. Source: `child_main.cpp`, `auth.cpp`.

## Main results

* `limitHolds_of_along`: no five-and-one checks fail within the cooldown when nobody is let in
  beside requests that could exhaust the limit.
* `not_limitHolds`: six requests that look before the first failure is recorded all get their
  check.
-/

namespace Llamaste

/-! ### The limiter -/

/-- `LoginAttempt`. -/
structure LoginAttempt where
  failures : ℕ := 0
  lastFailure : ℤ := 0

/-- `login_attempts_`. -/
abbrev LoginAttempts := Text → Option LoginAttempt

/-- `MAX_FAILURES`. -/
def maxFailures : ℕ := 5

/-- `COOLDOWN_SECONDS`, in nanoseconds. -/
def cooldown : ℤ := 30 * 10 ^ 9

/-- `record_failed_login`: whether the address is now limited, and the attempts. -/
def recordFailedLogin (now : ℤ) (ip : Text) (attempts : LoginAttempts) :
    Bool × LoginAttempts :=
  let attempt := (attempts ip).getD {}
  let failures := if cooldown < now - attempt.lastFailure then 0 else attempt.failures
  (maxFailures ≤ failures + 1, Function.update attempts ip (some ⟨failures + 1, now⟩))

/-- `is_rate_limited`. -/
def isRateLimited (now : ℤ) (ip : Text) (attempts : LoginAttempts) : Bool :=
  match attempts ip with
  | none => false
  | some attempt => maxFailures ≤ attempt.failures && now - attempt.lastFailure < cooldown

/-- What `expire_sessions` does to the attempts. -/
def expireAttempts (now : ℤ) (attempts : LoginAttempts) : LoginAttempts := fun ip =>
  (attempts ip).filter fun attempt => now - attempt.lastFailure ≤ cooldown * 10

/-! ### The handler -/

/-- A request to `/llamaste/auth/login`. -/
structure LoginRequest where
  remoteAddr : Text
  body : Text

/-- The answer to such a request. -/
inductive LoginResponse
  | error (status : ℕ) (message : Text)
  | success
  deriving DecidableEq

/-- Where the handler of a request stands. -/
inductive LoginPc
  | arrived
  | admitted (password : Text)
  | failed
  | answered (response : LoginResponse)
  deriving DecidableEq

/-- The password of a request that is not limited. A body without a string for a password is
an exception, which the server answers. -/
def LoginRequest.passLimit (r : LoginRequest) : LoginPc :=
  match Json.parse r.body with
  | none => .answered (.error 400 "Invalid JSON")
  | some body =>
    match body.value Json.getString "password" [] with
    | none => .answered (.error 500 "Error")
    | some password => .admitted password

/-- The text that answers a failed check. -/
def wrongPasswordText (limited : Bool) : Text :=
  if limited then "Too many failed attempts. Locked for 30 seconds." else "Invalid password"

variable {ι : Type}

/-- What the handlers share, where each of them stands, and the history of failed checks and
of recorded failures. -/
structure LoginServer (ι : Type) where
  clock : ℤ
  config : AuthConfig
  attempts : LoginAttempts := fun _ => none
  pcs : ι → LoginPc := fun _ => .arrived
  failedChecks : List (Text × ℤ) := []
  records : List (Text × ℤ) := []

/-- What happens: a handler takes its next step, the housekeeping thread runs, or another
request changes the configuration. -/
inductive LoginEvent (ι : Type)
  | request (i : ι) (now : ℤ)
  | expireSessions (now : ℤ)
  | configure (config : AuthConfig)

section

variable [DecidableEq ι]

namespace LoginServer

/-- A handler moves on. -/
def goto (s : LoginServer ι) (i : ι) (pc : LoginPc) : LoginServer ι :=
  { s with pcs := Function.update s.pcs i pc }

/-- One step of the handler of a request. -/
def handle (core : KeySchedule) (r : LoginRequest) (i : ι) (now : ℤ) (s : LoginServer ι) :
    LoginServer ι :=
  match s.pcs i with
  | .arrived =>
    if isRateLimited now r.remoteAddr s.attempts then
      s.goto i (.answered (.error 429 "Too many failed attempts. Try again in 30 seconds."))
    else s.goto i r.passLimit
  | .admitted password =>
    if verifyDevicePassword core s.config password then s.goto i (.answered .success)
    else { s.goto i .failed with failedChecks := (r.remoteAddr, now) :: s.failedChecks }
  | .failed =>
    let (limited, attempts) := recordFailedLogin now r.remoteAddr s.attempts
    { s.goto i (.answered (.error 401 (wrongPasswordText limited))) with
      attempts
      records := (r.remoteAddr, now) :: s.records }
  | .answered _ => s

end LoginServer

/-- One event. -/
def loginStep (core : KeySchedule) (reqs : ι → LoginRequest) (s : LoginServer ι) :
    LoginEvent ι → Unit × LoginServer ι
  | .request i now => ((), { s.handle core (reqs i) i now with clock := now })
  | .expireSessions now =>
    ((), { s with attempts := expireAttempts now s.attempts, clock := now })
  | .configure config => ((), { s with config })

end

/-! ### The limit -/

/-- How many entries of a history an address has after a time. -/
def countSince (log : List (Text × ℤ)) (ip : Text) (t : ℤ) : ℕ :=
  log.countP fun e => e.1 = ip && t < e.2

/-- At most `MAX_FAILURES` checks for an address fail within any window of the length of the
cooldown. -/
def LimitHolds (s : LoginServer ι) : Prop :=
  ∀ ip start, s.failedChecks.countP
    (fun e => e.1 = ip && start ≤ e.2 && e.2 < start + cooldown) ≤ maxFailures

/-- The clock does not go back. -/
def OnTime (s : LoginServer ι) : LoginEvent ι → Prop
  | .request _ now => s.clock ≤ now
  | .expireSessions now => s.clock ≤ now
  | .configure _ => True

/-- The request has been let in and is not answered. -/
def LoginPc.inFlight : LoginPc → Bool
  | .admitted _ => true
  | .failed => true
  | _ => false

section

variable [Fintype ι]

/-- How many requests of an address stand where `p` says. -/
def countPcs (reqs : ι → LoginRequest) (p : LoginPc → Bool) (pcs : ι → LoginPc) (ip : Text) : ℕ :=
  (Finset.univ.filter fun i => (reqs i).remoteAddr = ip ∧ p (pcs i) = true).card

/-- A request that is let in is alone, or the failures of its address within the cooldown and
the requests of its address that are in flight are fewer than `MAX_FAILURES`. -/
def LetsInAlone (reqs : ι → LoginRequest) (s : LoginServer ι) : LoginEvent ι → Prop
  | .request i now =>
    s.pcs i = .arrived → isRateLimited now (reqs i).remoteAddr s.attempts = false →
      countPcs reqs LoginPc.inFlight s.pcs (reqs i).remoteAddr = 0 ∨
      countSince s.records (reqs i).remoteAddr (now - cooldown) +
        countPcs reqs LoginPc.inFlight s.pcs (reqs i).remoteAddr < maxFailures
  | _ => True

instance (s : LoginServer ι) : ∀ e, Decidable (OnTime s e)
  | .request _ now => inferInstanceAs (Decidable (s.clock ≤ now))
  | .expireSessions now => inferInstanceAs (Decidable (s.clock ≤ now))
  | .configure _ => isTrue trivial

instance (reqs : ι → LoginRequest) (s : LoginServer ι) : ∀ e, Decidable (LetsInAlone reqs s e)
  | .request _ _ => inferInstanceAs (Decidable (_ → _ → _ ∨ _))
  | .expireSessions _ => isTrue trivial
  | .configure _ => isTrue trivial

/-! ### Counting -/

section

variable {log : List (Text × ℤ)} {ip : Text}

theorem countSince_cons (addr : Text) (now t : ℤ) :
    countSince ((addr, now) :: log) ip t =
      countSince log ip t + if addr = ip ∧ t < now then 1 else 0 := by
  simp [countSince, List.countP_cons]

/-- A later start counts less. -/
theorem countSince_mono {t t' : ℤ} (h : t ≤ t') : countSince log ip t' ≤ countSince log ip t := by
  refine List.countP_mono_left fun e _ he => ?_
  simp only [Bool.and_eq_true, decide_eq_true_eq] at he ⊢
  exact ⟨he.1, h.trans_lt he.2⟩

/-- Nothing happened after the last entry. -/
theorem countSince_eq_zero {t : ℤ} (h : ∀ e ∈ log, e.1 = ip → e.2 ≤ t) :
    countSince log ip t = 0 := by
  refine List.countP_eq_zero.mpr fun e he hcount => ?_
  simp only [Bool.and_eq_true, decide_eq_true_eq] at hcount
  exact absurd (h e he hcount.1) (not_le.mpr hcount.2)

end

/-- A handler that moves is counted where it was no longer, and where it is now. -/
theorem countPcs_update [DecidableEq ι] (reqs : ι → LoginRequest) (p : LoginPc → Bool)
    (pcs : ι → LoginPc) (i : ι) (pc : LoginPc) (ip : Text) :
    countPcs reqs p (Function.update pcs i pc) ip +
        (if (reqs i).remoteAddr = ip ∧ p (pcs i) = true then 1 else 0) =
      countPcs reqs p pcs ip + if (reqs i).remoteAddr = ip ∧ p pc = true then 1 else 0 := by
  have hrest : ∑ j ∈ Finset.univ.erase i,
        (if (reqs j).remoteAddr = ip ∧ p (Function.update pcs i pc j) = true then 1 else 0) =
      ∑ j ∈ Finset.univ.erase i, if (reqs j).remoteAddr = ip ∧ p (pcs j) = true then 1 else 0 := by
    refine Finset.sum_congr rfl fun j hj => ?_
    rw [Function.update_of_ne (Finset.ne_of_mem_erase hj)]
  simp only [countPcs, Finset.card_filter]
  rw [← Finset.add_sum_erase _ _ (Finset.mem_univ i), hrest, Function.update_self,
    ← Finset.add_sum_erase _ (fun j => if (reqs j).remoteAddr = ip ∧ p (pcs j) = true then 1 else 0)
      (Finset.mem_univ i)]
  omega

/-! ### The invariant -/

/-- The handler has failed its check and not recorded it yet. -/
def LoginPc.isFailed : LoginPc → Bool
  | .failed => true
  | _ => false

theorem countPcs_isFailed_le (reqs : ι → LoginRequest) (pcs : ι → LoginPc) (ip : Text) :
    countPcs reqs LoginPc.isFailed pcs ip ≤ countPcs reqs LoginPc.inFlight pcs ip := by
  refine Finset.card_le_card (Finset.monotone_filter_right _ fun i _ h => ⟨h.1, ?_⟩)
  cases hpc : pcs i with
  | failed => rfl
  | _ => simp [hpc, LoginPc.isFailed] at h

/-- What every step keeps. -/
structure LoginInv (reqs : ι → LoginRequest) (s : LoginServer ι) : Prop where
  /-- No entry of a history is ahead of the clock. -/
  checked : ∀ e ∈ s.failedChecks, e.2 ≤ s.clock
  recorded : ∀ e ∈ s.records, e.2 ≤ s.clock
  /-- A failed check is recorded later, or waits for its record. -/
  waits : ∀ ip t, countSince s.failedChecks ip t ≤
    countSince s.records ip t + countPcs reqs LoginPc.isFailed s.pcs ip
  /-- The counter of an address covers the failures up to a cooldown before the last. -/
  past : ∀ ip attempt, s.attempts ip = some attempt → attempt.lastFailure ≤ s.clock
  last : ∀ ip attempt, s.attempts ip = some attempt →
    ∀ e ∈ s.records, e.1 = ip → e.2 ≤ attempt.lastFailure
  counts : ∀ ip attempt, s.attempts ip = some attempt →
    countSince s.records ip (attempt.lastFailure - cooldown) ≤ attempt.failures
  /-- An address without a counter has no failure within the cooldown. -/
  forgotten : ∀ ip, s.attempts ip = none → countSince s.records ip (s.clock - cooldown) = 0
  /-- The failures within the cooldown and the requests in flight keep to the limit. -/
  bounded : ∀ ip, countSince s.records ip (s.clock - cooldown) +
    countPcs reqs LoginPc.inFlight s.pcs ip ≤ maxFailures
  limit : LimitHolds s

variable {reqs : ι → LoginRequest} {s : LoginServer ι} {core : KeySchedule} {i : ι} {now : ℤ}

/-- Time passes. -/
theorem LoginInv.advance (h : LoginInv reqs s) (hnow : s.clock ≤ now) :
    LoginInv reqs { s with clock := now } where
  checked e he := (h.checked e he).trans hnow
  recorded e he := (h.recorded e he).trans hnow
  waits := h.waits
  past ip attempt hattempt := (h.past ip attempt hattempt).trans hnow
  last := h.last
  counts := h.counts
  forgotten ip hip := Nat.eq_zero_of_le_zero (h.forgotten ip hip ▸ countSince_mono (by
    change s.clock - cooldown ≤ now - cooldown
    omega))
  bounded ip := by
    have hlater : countSince s.records ip (now - cooldown) ≤
        countSince s.records ip (s.clock - cooldown) := countSince_mono (by omega)
    exact (Nat.add_le_add_right hlater _).trans (h.bounded ip)
  limit := h.limit

/-- An address that is not limited has fewer failures within the cooldown than the limit. -/
theorem LoginInv.countSince_lt (h : LoginInv reqs s) {ip : Text}
    (hfree : isRateLimited s.clock ip s.attempts = false) :
    countSince s.records ip (s.clock - cooldown) < maxFailures := by
  cases hattempt : s.attempts ip with
  | none =>
    rw [h.forgotten ip hattempt]
    decide
  | some attempt =>
    have hcounts := h.counts ip attempt hattempt
    simp only [isRateLimited, hattempt, Bool.and_eq_false_iff, decide_eq_false_iff_not] at hfree
    rcases hfree with hfew | hold
    · have hlater : countSince s.records ip (s.clock - cooldown) ≤
          countSince s.records ip (attempt.lastFailure - cooldown) := countSince_mono (by
        have := h.past ip attempt hattempt
        omega)
      omega
    · have hzero : countSince s.records ip (s.clock - cooldown) = 0 := countSince_eq_zero
        fun e he hip => (h.last ip attempt hattempt e he hip).trans (by omega)
      rw [hzero]
      decide

variable [DecidableEq ι]

/-- A handler moves on without a check that failed or a record. -/
theorem LoginInv.goto (h : LoginInv reqs s) (i : ι) {pc : LoginPc} (hpc : pc.isFailed = false)
    (hwas : (s.pcs i).isFailed = false)
    (hbounded : ∀ ip, countSince s.records ip (s.clock - cooldown) +
      countPcs reqs LoginPc.inFlight (Function.update s.pcs i pc) ip ≤ maxFailures) :
    LoginInv reqs (s.goto i pc) where
  checked := h.checked
  recorded := h.recorded
  waits ip t := by
    have hcount := countPcs_update reqs LoginPc.isFailed s.pcs i pc ip
    rw [hpc, hwas, if_neg (by simp)] at hcount
    have hwaits := h.waits ip t
    simp only [LoginServer.goto]
    omega
  past := h.past
  last := h.last
  counts := h.counts
  forgotten := h.forgotten
  bounded := hbounded
  limit := h.limit

/-- An answer takes a request out of flight. -/
theorem LoginInv.answer (h : LoginInv reqs s) (i : ι) (response : LoginResponse)
    (hwas : (s.pcs i).isFailed = false) : LoginInv reqs (s.goto i (.answered response)) := by
  refine h.goto i rfl hwas fun ip => ?_
  have hcount := countPcs_update reqs LoginPc.inFlight s.pcs i (.answered response) ip
  rw [if_neg (show ¬ ((reqs i).remoteAddr = ip ∧
    LoginPc.inFlight (.answered response) = true) by simp [LoginPc.inFlight])] at hcount
  have hbounded := h.bounded ip
  omega

/-- A request is let in. -/
theorem LoginInv.letIn (h : LoginInv reqs s) (hpc : s.pcs i = .arrived)
    (hfree : isRateLimited s.clock (reqs i).remoteAddr s.attempts = false)
    (halone : countPcs reqs LoginPc.inFlight s.pcs (reqs i).remoteAddr = 0 ∨
      countSince s.records (reqs i).remoteAddr (s.clock - cooldown) +
        countPcs reqs LoginPc.inFlight s.pcs (reqs i).remoteAddr < maxFailures) :
    LoginInv reqs (s.goto i (reqs i).passLimit) := by
  have hadmit : (reqs i).passLimit.isFailed = false := by
    rw [LoginRequest.passLimit]
    split
    · rfl
    · split <;> rfl
  refine h.goto i hadmit (by rw [hpc]; rfl) fun ip => ?_
  have hcount := countPcs_update reqs LoginPc.inFlight s.pcs i (reqs i).passLimit ip
  rw [if_neg (show ¬ ((reqs i).remoteAddr = ip ∧ (s.pcs i).inFlight = true) by
    simp [hpc, LoginPc.inFlight])] at hcount
  have hbounded := h.bounded ip
  by_cases hip : (reqs i).remoteAddr = ip
  · subst hip
    have hlt := h.countSince_lt hfree
    have hone : (if (reqs i).remoteAddr = (reqs i).remoteAddr ∧ (reqs i).passLimit.inFlight = true
      then 1 else 0) ≤ 1 := by split <;> decide
    rcases halone with hzero | halone
    · omega
    · omega
  · rw [if_neg fun h => hip h.1] at hcount
    omega

/-- A check fails. -/
theorem LoginInv.fail (h : LoginInv reqs s) {password : Text}
    (hpc : s.pcs i = .admitted password) :
    LoginInv reqs { s.goto i .failed with
      failedChecks := ((reqs i).remoteAddr, s.clock) :: s.failedChecks } := by
  have hflight : ∀ ip, countPcs reqs LoginPc.inFlight (Function.update s.pcs i .failed) ip =
      countPcs reqs LoginPc.inFlight s.pcs ip := by
    intro ip
    have hcount := countPcs_update reqs LoginPc.inFlight s.pcs i .failed ip
    simp only [hpc, LoginPc.inFlight] at hcount
    omega
  have hwaits : ∀ ip t, countSince (((reqs i).remoteAddr, s.clock) :: s.failedChecks) ip t ≤
      countSince s.records ip t +
        countPcs reqs LoginPc.isFailed (Function.update s.pcs i .failed) ip := by
    intro ip t
    have hcount := countPcs_update reqs LoginPc.isFailed s.pcs i .failed ip
    have hwas := h.waits ip t
    rw [countSince_cons]
    simp only [hpc, LoginPc.isFailed, Bool.false_eq_true, and_false, if_false, and_true]
      at hcount
    by_cases hip : (reqs i).remoteAddr = ip
    · rw [if_pos hip] at hcount
      have hone : (if (reqs i).remoteAddr = ip ∧ t < s.clock then 1 else 0) ≤ 1 := by
        split <;> decide
      omega
    · rw [if_neg hip] at hcount
      rw [if_neg fun h => hip h.1]
      omega
  refine ⟨?_, h.recorded, hwaits, h.past, h.last, h.counts, h.forgotten, fun ip => ?_,
    fun ip start => ?_⟩
  · exact List.forall_mem_cons.mpr ⟨le_rfl, h.checked⟩
  · exact (congrArg _ (hflight ip)).trans_le (h.bounded ip)
  · by_cases hstart : s.clock < start + cooldown
    · -- the window ends after now: its checks are of the last cooldown
      have hwindow := hwaits ip (start - 1)
      have hrecent : countSince s.records ip (start - 1) ≤
          countSince s.records ip (s.clock - cooldown) := countSince_mono (by omega)
      have hle := countPcs_isFailed_le reqs (Function.update s.pcs i .failed) ip
      have hbounded := h.bounded ip
      rw [hflight ip] at hle
      refine le_trans (List.countP_mono_left fun e _ he => ?_) (hwindow.trans (by omega))
      simp only [Bool.and_eq_true, decide_eq_true_eq] at he ⊢
      exact ⟨he.1.1, by omega⟩
    · have hlimit := h.limit ip start
      simp only [List.countP_cons]
      rw [if_neg (by simp [hstart])]
      exact hlimit

omit [DecidableEq ι] in
/-- The counter of an address has not lost a failure within the cooldown. -/
theorem LoginInv.countSince_le (h : LoginInv reqs s) (ip : Text) :
    countSince s.records ip (s.clock - cooldown) ≤
      if cooldown < s.clock - ((s.attempts ip).getD {}).lastFailure then 0
      else ((s.attempts ip).getD {}).failures := by
  cases hattempt : s.attempts ip with
  | none =>
    rw [h.forgotten ip hattempt]
    exact Nat.zero_le _
  | some attempt =>
    rw [Option.getD_some]
    split_ifs with hidle
    · refine Nat.le_zero.mpr (countSince_eq_zero fun e he hip => ?_)
      exact (h.last ip attempt hattempt e he hip).trans (by omega)
    · have hpast := h.past ip attempt hattempt
      exact (countSince_mono (by omega)).trans (h.counts ip attempt hattempt)

/-- A failure is recorded. -/
theorem LoginInv.record (h : LoginInv reqs s) (hpc : s.pcs i = .failed)
    (response : LoginResponse) :
    LoginInv reqs { s.goto i (.answered response) with
      attempts := (recordFailedLogin s.clock (reqs i).remoteAddr s.attempts).2
      records := ((reqs i).remoteAddr, s.clock) :: s.records } := by
  have hfailed : ∀ ip, countPcs reqs LoginPc.isFailed s.pcs ip =
      countPcs reqs LoginPc.isFailed (Function.update s.pcs i (.answered response)) ip +
        if (reqs i).remoteAddr = ip then 1 else 0 := by
    intro ip
    have hcount := countPcs_update reqs LoginPc.isFailed s.pcs i (.answered response) ip
    simp only [hpc, LoginPc.isFailed, and_true, Bool.false_eq_true, and_false, if_false]
      at hcount
    omega
  have hflight : ∀ ip, countPcs reqs LoginPc.inFlight s.pcs ip =
      countPcs reqs LoginPc.inFlight (Function.update s.pcs i (.answered response)) ip +
        if (reqs i).remoteAddr = ip then 1 else 0 := by
    intro ip
    have hcount := countPcs_update reqs LoginPc.inFlight s.pcs i (.answered response) ip
    simp only [hpc, LoginPc.inFlight, and_true, Bool.false_eq_true, and_false, if_false]
      at hcount
    omega
  have hother : ∀ {ip : Text}, ip ≠ (reqs i).remoteAddr → ∀ t,
      countSince (((reqs i).remoteAddr, s.clock) :: s.records) ip t =
        countSince s.records ip t := by
    intro ip hip t
    rw [countSince_cons, if_neg fun h => hip h.1.symm, Nat.add_zero]
  have hattempts : ∀ {ip : Text}, ip ≠ (reqs i).remoteAddr →
      (recordFailedLogin s.clock (reqs i).remoteAddr s.attempts).2 ip = s.attempts ip :=
    fun hip => Function.update_of_ne hip ..
  have hown : (recordFailedLogin s.clock (reqs i).remoteAddr s.attempts).2 (reqs i).remoteAddr =
      some ⟨(if cooldown < s.clock - ((s.attempts (reqs i).remoteAddr).getD {}).lastFailure then 0
        else ((s.attempts (reqs i).remoteAddr).getD {}).failures) + 1, s.clock⟩ :=
    Function.update_self ..
  refine ⟨h.checked, List.forall_mem_cons.mpr ⟨le_rfl, h.recorded⟩, fun ip t => ?_,
    fun ip attempt hattempt => ?_, fun ip attempt hattempt => ?_,
    fun ip attempt hattempt => ?_, fun ip hnone => ?_, fun ip => ?_, h.limit⟩
  · have hwaits := h.waits ip t
    have hpending := hfailed ip
    simp only [LoginServer.goto, countSince_cons]
    by_cases ht : t < s.clock
    · simp only [ht, and_true]
      omega
    · -- no check is ahead of the clock
      have hzero : countSince s.failedChecks ip t = 0 := countSince_eq_zero
        fun e he _ => (h.checked e he).trans (not_lt.mp ht)
      omega
  · by_cases hip : ip = (reqs i).remoteAddr
    · subst hip
      obtain rfl := Option.some.inj (hown.symm.trans hattempt)
      exact le_rfl
    · exact h.past ip attempt ((hattempts hip).symm.trans hattempt)
  · by_cases hip : ip = (reqs i).remoteAddr
    · subst hip
      obtain rfl := Option.some.inj (hown.symm.trans hattempt)
      exact List.forall_mem_cons.mpr ⟨fun _ => le_rfl, fun e he _ => h.recorded e he⟩
    · have hlast := h.last ip attempt ((hattempts hip).symm.trans hattempt)
      exact List.forall_mem_cons.mpr ⟨fun heq => absurd heq.symm hip, hlast⟩
  · by_cases hip : ip = (reqs i).remoteAddr
    · subst hip
      obtain rfl := Option.some.inj (hown.symm.trans hattempt)
      have hone : countSince (((reqs i).remoteAddr, s.clock) :: s.records) (reqs i).remoteAddr
          (s.clock - cooldown) =
            countSince s.records (reqs i).remoteAddr (s.clock - cooldown) + 1 := by
        have hpos : 0 < cooldown := by decide
        rw [countSince_cons, if_pos ⟨rfl, by omega⟩]
      exact hone.trans_le (Nat.add_le_add_right (h.countSince_le _) 1)
    · have hcounts := h.counts ip attempt ((hattempts hip).symm.trans hattempt)
      exact (hother hip _).trans_le hcounts
  · by_cases hip : ip = (reqs i).remoteAddr
    · subst hip
      exact absurd (hown.symm.trans hnone) (by simp)
    · exact (hother hip _).trans (h.forgotten ip ((hattempts hip).symm.trans hnone))
  · have hbounded := h.bounded ip
    have hpending := hflight ip
    simp only [LoginServer.goto, countSince_cons]
    have hone : (if (reqs i).remoteAddr = ip ∧ s.clock - cooldown < s.clock then 1 else 0) ≤
        if (reqs i).remoteAddr = ip then 1 else 0 := by
      by_cases hip : (reqs i).remoteAddr = ip
      · rw [if_pos hip]
        split <;> decide
      · rw [if_neg fun h => hip h.1]
        exact Nat.zero_le _
    omega

omit [DecidableEq ι] in
/-- Old failures are forgotten. -/
theorem LoginInv.expire (h : LoginInv reqs s) :
    LoginInv reqs { s with attempts := expireAttempts s.clock s.attempts } where
  checked := h.checked
  recorded := h.recorded
  waits := h.waits
  past ip attempt hattempt := h.past ip attempt (Option.filter_eq_some_iff.mp hattempt).1
  last ip attempt hattempt := h.last ip attempt (Option.filter_eq_some_iff.mp hattempt).1
  counts ip attempt hattempt := h.counts ip attempt (Option.filter_eq_some_iff.mp hattempt).1
  forgotten ip hnone := by
    cases hattempt : s.attempts ip with
    | none => exact h.forgotten ip hattempt
    | some attempt =>
      -- a counter that is dropped is ten cooldowns old
      have hold : ¬ s.clock - attempt.lastFailure ≤ cooldown * 10 := by
        simpa [expireAttempts, hattempt] using hnone
      refine countSince_eq_zero fun e he hip => ?_
      have hlast := h.last ip attempt hattempt e he hip
      have hpos : 0 < cooldown := by decide
      change e.2 ≤ s.clock - cooldown
      omega
  bounded := h.bounded
  limit := h.limit

/-! ### Runs -/

/-- A handler steps at the time of the clock. -/
theorem LoginInv.handle (core : KeySchedule) (h : LoginInv reqs s)
    (halone : LetsInAlone reqs s (.request i s.clock)) :
    LoginInv reqs (s.handle core (reqs i) i s.clock) := by
  rw [LoginServer.handle]
  cases hpc : s.pcs i with
  | arrived =>
    simp only
    split_ifs with hlimited
    · exact h.answer i _ (by rw [hpc]; rfl)
    · have hfree := Bool.eq_false_iff.mpr hlimited
      exact h.letIn hpc hfree (halone hpc hfree)
  | admitted password =>
    simp only
    split_ifs
    · exact h.answer i _ (by rw [hpc]; rfl)
    · exact h.fail hpc
  | failed => exact h.record hpc _
  | answered response => exact h

omit [Fintype ι] in
/-- The clock is read, not changed, by a step. -/
theorem LoginServer.handle_clock (r : LoginRequest) (now : ℤ) (s : LoginServer ι) :
    { s.handle core r i now with clock := now } =
      ({ s with clock := now } : LoginServer ι).handle core r i now := by
  cases hpc : s.pcs i with
  | arrived =>
    simp only [handle, hpc]
    split_ifs <;> rfl
  | admitted password =>
    simp only [handle, hpc]
    split_ifs <;> rfl
  | failed => simp only [handle, hpc, goto]
  | answered response => simp only [handle, hpc]

/-- Every event that lets nobody in beside too many keeps the invariant. -/
theorem loginInv_step (e : LoginEvent ι) (hok : OnTime s e ∧ LetsInAlone reqs s e)
    (h : LoginInv reqs s) : LoginInv reqs (loginStep core reqs s e).2 := by
  cases e with
  | request i now =>
    have hlater := (h.advance hok.1).handle core hok.2
    rw [← LoginServer.handle_clock] at hlater
    exact hlater
  | expireSessions now => exact (h.advance hok.1).expire
  | configure config => exact { h with }

omit [DecidableEq ι] in
theorem countPcs_arrived (reqs : ι → LoginRequest) (p : LoginPc → Bool) (hp : p .arrived = false)
    (ip : Text) : countPcs reqs p (fun _ => .arrived) ip = 0 := by
  rw [countPcs, Finset.card_eq_zero, Finset.filter_eq_empty_iff]
  rintro i - ⟨-, h⟩
  exact absurd (hp.symm.trans h) (by decide)

omit [DecidableEq ι] in
/-- A server that has just started. -/
theorem loginInv_start (reqs : ι → LoginRequest) (clock : ℤ) (config : AuthConfig) :
    LoginInv reqs { clock, config } where
  checked _ he := nomatch he
  recorded _ he := nomatch he
  waits _ _ := Nat.zero_le _
  past _ _ hattempt := nomatch hattempt
  last _ _ _ _ he := nomatch he
  counts _ _ hattempt := nomatch hattempt
  forgotten _ _ := rfl
  bounded ip := by
    rw [countPcs_arrived reqs LoginPc.inFlight rfl]
    exact Nat.zero_le _
  limit _ _ := Nat.zero_le _

/-- **The login rate limit** holds in every run in which a request is let in only alone, or
where the failures of its address within the cooldown and its requests in flight leave room
for it. -/
theorem limitHolds_of_along (core : KeySchedule) (reqs : ι → LoginRequest) (clock : ℤ)
    (config : AuthConfig) (es : List (LoginEvent ι))
    (hes : Machine.Along (loginStep core reqs) (fun s e => OnTime s e ∧ LetsInAlone reqs s e)
      { clock, config } es) :
    LimitHolds (Machine.final (loginStep core reqs) { clock, config } es) :=
  (Machine.Along.final_invariant (fun _ e hok h => loginInv_step e hok h) hes
    (loginInv_start reqs clock config)).limit

/-- Two requests without a password, one behind the other. -/
theorem limitHolds_of_along_sample :
    LimitHolds (Machine.final (loginStep sampleKeySchedule fun _ : Fin 2 => ⟨"a", "\x7b\x7d"⟩)
      { clock := 0, config := {} }
      [.request 0 0, .request 0 0, .request 0 1, .request 1 1, .request 1 1, .request 1 2]) :=
  limitHolds_of_along _ _ _ _ _ (by decide)

end

/-- Six requests from one address. -/
def sixRequests : Fin 6 → LoginRequest := fun _ => ⟨"a", "\x7b\x7d"⟩

/-- All six look before the first of them is checked. -/
def sixLooks : List (LoginEvent (Fin 6)) :=
  (List.finRange 6).map (.request · 0) ++ (List.finRange 6).map (.request · 1)

/-- Then all six checks fail. -/
theorem not_limitHolds :
    ¬ ∀ (core : KeySchedule) (reqs : Fin 6 → LoginRequest) (clock : ℤ) (config : AuthConfig)
      (es : List (LoginEvent (Fin 6))),
      Machine.Along (loginStep core reqs) OnTime { clock, config } es →
      LimitHolds (Machine.final (loginStep core reqs) { clock, config } es) := by
  intro h
  have hlimit := h sampleKeySchedule sixRequests 0 {} sixLooks (by decide) "a" 0
  exact absurd hlimit (by decide)

end Llamaste
