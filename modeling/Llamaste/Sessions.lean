import Llamaste.Auth
import Llamaste.SessionCookie

/-!
# Sessions

The manager keeps a table of sessions with the time of their last use. A session ends when it
is invalidated or has not been used for the timeout; a sweep deletes what has ended. Times are
nanoseconds of a clock that does not go back. Source: `auth.cpp`.

## Main results

* `live_step`: what an event does to the sessions that have not ended.
* `endedSessions`: an ended session stays ended, and sweeps make no difference, in runs in which
  no event takes up a session that has ended and is still in the table.
-/

namespace Llamaste

/-! ### The table -/

/-- `Session`. -/
structure Session where
  created : ℤ
  lastSeen : ℤ

/-- The session has been used within the timeout. -/
def Session.inTime (timeout now : ℤ) (session : Session) : Bool :=
  now - session.lastSeen < timeout

/-- The timeout of a device, in nanoseconds. -/
def Device.timeout (d : Device) : ℤ := d.config.sessionTimeoutSeconds * 10 ^ 9

/-- The sessions of an `AuthManager`, and the time of the last event. -/
structure AuthSessions where
  device : Device
  clock : ℤ
  sessions : Text → Option Session := fun _ => none

namespace AuthSessions

/-- `create_session`, with the token that was generated. -/
def createSession (now : ℤ) (token : Text) (s : AuthSessions) : AuthSessions :=
  { s with sessions := Function.update s.sessions token (some ⟨now, now⟩) }

/-- `is_valid_session`. -/
def isValidSession (now : ℤ) (token : Text) (s : AuthSessions) : Bool :=
  token ≠ [] && (s.sessions token).any (Session.inTime s.device.timeout now)

/-- `touch_session`. -/
def touchSession (now : ℤ) (token : Text) (s : AuthSessions) : AuthSessions :=
  if token = [] then s
  else
    { s with
      sessions := Function.update s.sessions token
        ((s.sessions token).map fun session => { session with lastSeen := now }) }

/-- `expire_sessions`, as far as the sessions go. -/
def expireSessions (now : ℤ) (s : AuthSessions) : AuthSessions :=
  { s with
    sessions := fun token =>
      (s.sessions token).filter fun session => !(s.device.timeout ≤ now - session.lastSeen) }

/-- `invalidate_session`. -/
def invalidateSession (token : Text) (s : AuthSessions) : AuthSessions :=
  { s with sessions := Function.update s.sessions token none }

/-- `is_authenticated`; a session is touched a little later than it is checked. -/
def isAuthenticated (now touched : ℤ) (req : Request) (s : AuthSessions) : Bool × AuthSessions :=
  let sid := extractSessionCookie req
  let valid := s.isValidSession now sid
  (Llamaste.isAuthenticated s.device.config valid (extractBearerToken req),
    if s.device.config.setupComplete && valid then s.touchSession touched sid else s)

end AuthSessions

/-! ### Runs -/

/-- A call of the manager: with the random bytes of a token, with the time at which a session
is touched, or with the outcome of a save. -/
inductive SessionCall
  | createSession (random : Option (Vector UInt8 16))
  | isValidSession (token : Text)
  | isAuthenticated (req : Request) (touched : ℤ)
  | touchSession (token : Text)
  | invalidateSession (token : Text)
  | setSessionTimeout (seconds : ℤ) (save : TempRename)
  | expireSessions

/-- A call, and when it is made. -/
structure SessionEvent where
  time : ℤ
  call : SessionCall

namespace SessionEvent

/-- When the call is done. -/
def done (e : SessionEvent) : ℤ :=
  match e.call with
  | .isAuthenticated _ touched => touched
  | _ => e.time

/-- The token that the call issues. -/
def issued (e : SessionEvent) : Option Text :=
  match e.call with
  | .createSession random => some (generateToken random)
  | _ => none

/-- The call is no sweep. -/
def noSweep (e : SessionEvent) : Bool :=
  match e.call with
  | .expireSessions => false
  | _ => true

end SessionEvent

namespace AuthSessions

/-- What a call answers, if it answers yes or no, and the sessions after it. -/
def answer (s : AuthSessions) (e : SessionEvent) : Option Bool × AuthSessions :=
  match e.call with
  | .createSession random => (none, s.createSession e.time (generateToken random))
  | .isValidSession token => (some (s.isValidSession e.time token), s)
  | .isAuthenticated req touched =>
    (some (s.isAuthenticated e.time touched req).1, (s.isAuthenticated e.time touched req).2)
  | .touchSession token => (none, s.touchSession e.time token)
  | .invalidateSession token => (none, s.invalidateSession token)
  | .setSessionTimeout seconds save =>
    (none, { s with device := setSessionTimeout seconds save s.device })
  | .expireSessions => (none, s.expireSessions e.time)

/-- One event. -/
def step (s : AuthSessions) (e : SessionEvent) : Option Bool × AuthSessions :=
  ((s.answer e).1, { (s.answer e).2 with clock := e.done })

/-- The clock does not go back. -/
def OnTime (s : AuthSessions) (e : SessionEvent) : Prop := s.clock ≤ e.time ∧ e.time ≤ e.done

instance (s : AuthSessions) (e : SessionEvent) : Decidable (s.OnTime e) :=
  inferInstanceAs (Decidable (_ ∧ _))

/-- The table holds a session for the token that has ended. -/
def HasEnded (now : ℤ) (token : Text) (s : AuthSessions) : Prop :=
  token ≠ [] ∧ ∃ session, s.sessions token = some session ∧
    s.device.timeout ≤ now - session.lastSeen

/-- The event takes up a session that has ended: it touches it, or the new timeout makes it
valid. -/
def Revives (s : AuthSessions) (e : SessionEvent) : Prop :=
  match e.call with
  | .touchSession token => s.HasEnded e.time token
  | .setSessionTimeout seconds save => ∃ token, s.HasEnded e.time token ∧
      ∃ session, s.sessions token = some session ∧
        e.time - session.lastSeen < (setSessionTimeout seconds save s.device).timeout
  | _ => False

/-- The answers of a run, in order. -/
def answers (s : AuthSessions) (es : List SessionEvent) : List Bool :=
  (Machine.outputs step s es).reduceOption

/-- No event of the run takes up a session that has ended. -/
def NoRevival (s : AuthSessions) (es : List SessionEvent) : Prop :=
  Machine.Along step (fun s e => ¬ s.Revives e) s es

/-- The clock does not go back in the run, and no token is issued twice. -/
structure Admissible (s : AuthSessions) (es : List SessionEvent) : Prop where
  onTime : Machine.Along step OnTime s es
  fresh : (es.filterMap SessionEvent.issued).Nodup

/-- A session that has ended at some moment after its token was issued is not valid at any
later moment of the run. -/
def EndedStaysEnded (s : AuthSessions) (es : List SessionEvent) : Prop :=
  ∀ before create middle after rest token now now',
    es = before ++ create :: (middle ++ (after ++ rest)) → create.issued = some token →
    (Machine.final step s (before ++ create :: middle)).clock ≤ now →
    (∀ e ∈ after.head?, now ≤ e.time) → now ≤ now' →
    (Machine.final step s (before ++ create :: (middle ++ after))).clock ≤ now' →
    (Machine.final step s (before ++ create :: middle)).isValidSession now token = false →
    (Machine.final step s (before ++ create :: (middle ++ after))).isValidSession now' token = false

end AuthSessions

/-! ### What has not ended -/

/-- A session that is in time was so before. -/
theorem Session.inTime_of_le {session : Session} {timeout now now' : ℤ} (h : now ≤ now')
    (hin : session.inTime timeout now' = true) : session.inTime timeout now = true := by
  simp only [inTime, decide_eq_true_eq] at hin ⊢
  omega

/-- What a call does to the session for a token, unless the session has ended. -/
def SessionEvent.onSession (e : SessionEvent) (setupComplete : Bool) (token : Text)
    (session : Option Session) : Option Session :=
  match e.call with
  | .createSession random =>
    if token = generateToken random then some ⟨e.time, e.time⟩ else session
  | .isAuthenticated req touched =>
    if setupComplete = true ∧ token = extractSessionCookie req then
      session.map fun session => { session with lastSeen := touched }
    else session
  | .touchSession token' =>
    if token = token' then session.map fun session => { session with lastSeen := e.time }
    else session
  | .invalidateSession token' => if token = token' then none else session
  | _ => session

namespace AuthSessions

variable {s s' : AuthSessions} {e : SessionEvent} {token : Text} {now now' : ℤ}

/-- The session for a token, unless it has ended. -/
def live (now : ℤ) (s : AuthSessions) (token : Text) : Option Session :=
  if token = [] then none else (s.sessions token).filter (Session.inTime s.device.timeout now)

theorem live_nil : s.live now [] = none := if_pos rfl

theorem live_of_ne (h : token ≠ []) :
    s.live now token = (s.sessions token).filter (Session.inTime s.device.timeout now) := if_neg h

/-- A session is valid until it has ended. -/
theorem isValidSession_eq : s.isValidSession now token = (s.live now token).isSome := by
  by_cases htoken : token = []
  · rw [htoken, live_nil, isValidSession]
    rfl
  · rw [live_of_ne htoken, Option.isSome_filter, isValidSession, decide_eq_true htoken,
      Bool.true_and]

/-- Sessions end as time goes by. -/
theorem filter_inTime_filter {timeout : ℤ} (h : now ≤ now') (session : Option Session) :
    (session.filter (Session.inTime timeout now)).filter (Session.inTime timeout now') =
      session.filter (Session.inTime timeout now') := by
  rw [Option.filter_filter]
  congr 1
  funext session
  by_cases hin : session.inTime timeout now' = true
  · rw [hin, Session.inTime_of_le h hin]
    rfl
  · rw [Bool.eq_false_iff.mpr hin, Bool.and_false]

theorem live_of_le (h : now ≤ now') :
    s.live now' token = (s.live now token).filter (Session.inTime s.device.timeout now') := by
  by_cases htoken : token = []
  · rw [htoken, live_nil, live_nil]
    rfl
  · rw [live_of_ne htoken, live_of_ne htoken, filter_inTime_filter h]

theorem live_eq_none_of_le (h : now ≤ now') (hnone : s.live now token = none) :
    s.live now' token = none := by
  rw [live_of_le h, hnone]
  rfl

/-- A session that is not changed ends as time goes by. -/
theorem live_of_unchanged (hdevice : s'.device = s.device)
    (hsession : s'.sessions token = s.sessions token) (h : now ≤ now') :
    s'.live now' token = (s.live now token).filter (Session.inTime s'.device.timeout now') := by
  rw [hdevice, ← live_of_le h, live, live, hdevice, hsession]

/-- A session of the table that is not live has ended. -/
theorem hasEnded_of_live (htoken : token ≠ []) {session : Session}
    (hsession : s.sessions token = some session) (hnone : s.live now token = none) :
    s.HasEnded now token := by
  refine ⟨htoken, session, hsession, ?_⟩
  rw [live_of_ne htoken, hsession, Option.filter_some_eq_none] at hnone
  simpa [Session.inTime] using hnone

/-- A session that has not ended is the one of the table. -/
theorem sessions_of_not_hasEnded (h : ¬ s.HasEnded now token) (htoken : token ≠ []) :
    s.sessions token = s.live now token := by
  cases hsession : s.sessions token with
  | none => rw [live_of_ne htoken, hsession, Option.filter_none]
  | some session =>
    cases hlive : s.live now token with
    | none => exact absurd (hasEnded_of_live htoken hsession hlive) h
    | some live =>
      rw [live_of_ne htoken, hsession] at hlive
      exact Option.eq_some_of_filter_eq_some hlive

/-- The session for a token that is valid is the one of the table. -/
theorem sessions_of_isValidSession (h : s.isValidSession now token = true) :
    s.sessions token = s.live now token := by
  rw [isValidSession_eq] at h
  obtain ⟨session, hlive⟩ := Option.isSome_iff_exists.mp h
  have htoken : token ≠ [] := fun hnil => by
    rw [hnil, live_nil] at hlive
    cases hlive
  rw [hlive]
  rw [live_of_ne htoken] at hlive
  exact Option.eq_some_of_filter_eq_some hlive

theorem sessions_touchSession (htoken : token ≠ []) (token' : Text) :
    (s.touchSession now token').sessions token =
      if token = token' then (s.sessions token).map fun session => { session with lastSeen := now }
      else s.sessions token := by
  rw [touchSession]
  by_cases hnil : token' = []
  · rw [if_pos hnil, if_neg (hnil ▸ htoken)]
  · rw [if_neg hnil]
    by_cases heq : token = token'
    · rw [if_pos heq, heq]
      exact Function.update_self ..
    · rw [if_neg heq]
      exact Function.update_of_ne heq ..

theorem device_touchSession (token' : Text) : (s.touchSession now token').device = s.device := by
  rw [touchSession]
  split <;> rfl

theorem isAuthenticated_of_valid {req : Request} {touched : ℤ}
    (h : s.device.config.setupComplete = true ∧
      s.isValidSession now (extractSessionCookie req) = true) :
    (s.isAuthenticated now touched req).2 = s.touchSession touched (extractSessionCookie req) :=
  if_pos (Bool.and_eq_true_iff.mpr h)

theorem isAuthenticated_of_not_valid {req : Request} {touched : ℤ}
    (h : ¬ (s.device.config.setupComplete = true ∧
      s.isValidSession now (extractSessionCookie req) = true)) :
    (s.isAuthenticated now touched req).2 = s :=
  if_neg (mt Bool.and_eq_true_iff.mp h)

/-- **What an event does** to the sessions that have not ended, when it takes up none that
has. -/
theorem live_step (hrevives : ¬ s.Revives e) (htime : e.time ≤ now) (htoken : token ≠ []) :
    (s.step e).2.live now token =
      (e.onSession s.device.config.setupComplete token (s.live e.time token)).filter
        (Session.inTime (s.step e).2.device.timeout now) := by
  obtain ⟨time, call⟩ := e
  cases call with
  | createSession random =>
    by_cases heq : token = generateToken random
    · rw [live_of_ne htoken]
      simp only [step, answer, createSession, SessionEvent.onSession, if_pos heq]
      rw [heq, Function.update_self]
    · simp only [SessionEvent.onSession, if_neg heq]
      exact live_of_unchanged rfl (Function.update_of_ne heq ..) htime
  | isValidSession token' => exact live_of_le htime
  | isAuthenticated req touched =>
    have hstep : (s.step ⟨time, .isAuthenticated req touched⟩).2 =
        { (s.isAuthenticated time touched req).2 with clock := touched } := rfl
    rw [hstep]
    by_cases hvalid : s.device.config.setupComplete = true ∧
        s.isValidSession time (extractSessionCookie req) = true
    · rw [isAuthenticated_of_valid hvalid]
      by_cases heq : token = extractSessionCookie req
      · subst heq
        rw [live_of_ne htoken]
        simp only [SessionEvent.onSession, if_pos, hvalid.1, and_self, device_touchSession,
          sessions_touchSession htoken, sessions_of_isValidSession hvalid.2]
      · simp only [SessionEvent.onSession, heq, and_false, if_false]
        refine live_of_unchanged (device_touchSession _) ?_ htime
        exact (sessions_touchSession htoken _).trans (if_neg heq)
    · rw [isAuthenticated_of_not_valid hvalid]
      simp only [SessionEvent.onSession]
      split
      · next h =>
        -- the session has ended, and nothing is touched
        have hnone : s.live time token = none := by
          rw [h.2, ← Option.not_isSome_iff_eq_none, ← isValidSession_eq]
          exact fun hv => hvalid ⟨h.1, hv⟩
        rw [hnone]
        exact live_eq_none_of_le htime hnone
      · exact live_of_le htime
  | touchSession token' =>
    by_cases heq : token = token'
    · subst heq
      have hsessions : s.sessions token = s.live time token :=
        sessions_of_not_hasEnded hrevives htoken
      rw [live_of_ne htoken]
      simp only [step, answer, SessionEvent.onSession, if_pos, device_touchSession,
        sessions_touchSession htoken, hsessions]
    · simp only [SessionEvent.onSession, if_neg heq]
      refine live_of_unchanged (device_touchSession token') ?_ htime
      exact (sessions_touchSession htoken token').trans (if_neg heq)
  | invalidateSession token' =>
    by_cases heq : token = token'
    · rw [live_of_ne htoken]
      simp only [step, answer, invalidateSession, SessionEvent.onSession, if_pos heq]
      rw [heq, Function.update_self]
    · simp only [SessionEvent.onSession, if_neg heq]
      exact live_of_unchanged rfl (Function.update_of_ne heq ..) htime
  | setSessionTimeout seconds save =>
    cases hlive : s.live time token with
    | some session =>
      have hsession := hlive
      rw [live_of_ne htoken] at hsession ⊢
      rw [show (s.step ⟨time, .setSessionTimeout seconds save⟩).2.sessions = s.sessions from rfl,
        Option.eq_some_of_filter_eq_some hsession]
      rfl
    | none =>
      -- the new timeout does not bring it back
      rw [live_of_ne htoken]
      refine Option.filter_eq_none_iff.mpr fun session hsession hin => hrevives ?_
      exact ⟨token, hasEnded_of_live htoken hsession hlive, session, hsession,
        of_decide_eq_true (Session.inTime_of_le htime hin)⟩
  | expireSessions =>
    have hsweep : (s.step ⟨time, .expireSessions⟩).2.sessions token = s.live time token := by
      rw [live_of_ne htoken]
      refine congrArg (Option.filter · (s.sessions token)) (funext fun session => ?_)
      rw [Session.inTime, ← decide_not]
      exact decide_eq_decide.mpr Int.not_le
    rw [live_of_ne htoken, hsweep]
    rfl

/-! ### Ended sessions -/

theorem clock_le_final {es : List SessionEvent} (h : Machine.Along step OnTime s es) :
    s.clock ≤ (Machine.final step s es).clock := by
  induction es generalizing s with
  | nil => exact Int.le_refl _
  | cons e es ih => exact Int.le_trans (Int.le_trans h.1.1 h.1.2) (ih h.2)

/-- An event that does not issue the token leaves a session that has ended as it is. -/
theorem live_step_eq_none (hrevives : ¬ s.Revives e) (hissued : e.issued ≠ some token)
    (hnone : s.live e.time token = none) (htime : e.time ≤ now) :
    (s.step e).2.live now token = none := by
  by_cases htoken : token = []
  · rw [htoken, live_nil]
  have hentry : e.onSession s.device.config.setupComplete token none = none := by
    obtain ⟨time, call⟩ := e
    cases call with
    | createSession random =>
      exact if_neg fun heq : token = generateToken random => hissued (heq ▸ rfl)
    | isValidSession _ | setSessionTimeout _ _ | expireSessions => rfl
    | isAuthenticated _ _ | touchSession _ | invalidateSession _ => exact ite_self none
  rw [live_step hrevives htime htoken, hnone, hentry]
  rfl

/-- A session that has ended stays so in a run that does not issue its token. -/
theorem live_final_eq_none {es : List SessionEvent} (htime : Machine.Along step OnTime s es)
    (hrevival : s.NoRevival es) (hissued : ∀ e ∈ es, e.issued ≠ some token)
    (hnone : s.live now token = none) (hnext : ∀ e ∈ es.head?, now ≤ e.time) (hle : now ≤ now')
    (hclock : (Machine.final step s es).clock ≤ now') :
    (Machine.final step s es).live now' token = none := by
  induction es generalizing s now with
  | nil => exact live_eq_none_of_le hle hnone
  | cons e es ih =>
    have hstep : (s.step e).2.live e.done token = none :=
      live_step_eq_none hrevival.1 (hissued e List.mem_cons_self)
        (live_eq_none_of_le (hnext e rfl) hnone) htime.1.2
    have hhead : ∀ e' ∈ es.head?, e.done ≤ e'.time := by
      intro e' he'
      cases es with
      | nil => cases he'
      | cons e'' es =>
        obtain rfl := Option.some.inj he'
        exact htime.2.1.1
    exact ih htime.2 hrevival.2 (fun e' he' => hissued e' (List.mem_cons_of_mem e he')) hstep
      hhead (Int.le_trans (clock_le_final htime.2) hclock) hclock

theorem endedStaysEnded_of_noRevival {es : List SessionEvent} (hes : s.Admissible es)
    (hrevival : s.NoRevival es) : s.EndedStaysEnded es := by
  rintro before create middle after rest token now now' rfl htoken hclock hnext hle hclock' hended
  have hsplit : before ++ create :: (middle ++ (after ++ rest)) =
      (before ++ create :: middle) ++ (after ++ rest) := by simp
  have hfinal : before ++ create :: (middle ++ after) =
      (before ++ create :: middle) ++ after := by simp
  have htime := (Machine.along_append.mp (Machine.along_append.mp (hsplit ▸ hes.onTime)).2).1
  have hrevives := (Machine.along_append.mp (Machine.along_append.mp (hsplit ▸ hrevival)).2).1
  have hfresh : ∀ e ∈ after, e.issued ≠ some token := by
    intro e he hissued
    have hnodup := hes.fresh
    rw [List.filterMap_append, List.filterMap_cons_some htoken] at hnodup
    refine (List.nodup_cons.mp (List.nodup_append.mp hnodup).2.1).1 ?_
    exact List.mem_filterMap.mpr ⟨e, by simp [he], hissued⟩
  rw [isValidSession_eq, Option.isSome_eq_false_iff, Option.isNone_iff_eq_none] at hended ⊢
  rw [hfinal, Machine.final_append] at hclock' ⊢
  exact live_final_eq_none htime hrevives hfresh hended hnext hle hclock'

/-! ### Sweeps -/

/-- The devices agree, and the sessions that have not ended. -/
structure Agree (s s' : AuthSessions) : Prop where
  device : s'.device = s.device
  live : ∀ now, s.clock ≤ now → s'.clock ≤ now → s'.live now = s.live now

theorem Agree.refl (s : AuthSessions) : Agree s s := ⟨rfl, fun _ _ _ => rfl⟩

theorem Agree.symm (h : Agree s s') : Agree s' s where
  device := h.device.symm
  live now hs hs' := (h.live now hs' hs).symm

/-- A sweep makes no difference. -/
theorem Agree.sweep (h : Agree s s') (htime : s.OnTime e) (hsweep : e.noSweep = false) :
    Agree (s.step e).2 s' := by
  obtain ⟨time, call⟩ := e
  cases call with
  | expireSessions =>
    refine ⟨h.device, fun now hnow hnow' => ?_⟩
    rw [h.live now (Int.le_trans htime.1 hnow) hnow']
    funext token
    by_cases htoken : token = []
    · rw [htoken, live_nil, live_nil]
    · rw [live_step id hnow htoken]
      exact live_of_le hnow
  | _ => cases hsweep

theorem device_step : (s.step e).2.device = match e.call with
    | .setSessionTimeout seconds save => setSessionTimeout seconds save s.device
    | _ => s.device := by
  obtain ⟨time, call⟩ := e
  cases call with
  | isAuthenticated req touched =>
    change (s.isAuthenticated time touched req).2.device = s.device
    rw [isAuthenticated]
    dsimp only
    split
    · exact device_touchSession _
    · rfl
  | touchSession token => exact device_touchSession token
  | _ => rfl

/-- The same event gets the same answer. -/
theorem Agree.answer (h : Agree s s') (htime : s.OnTime e) (htime' : s'.OnTime e) :
    (s'.step e).1 = (s.step e).1 := by
  have hvalid : ∀ token, s'.isValidSession e.time token = s.isValidSession e.time token := by
    intro token
    rw [isValidSession_eq, isValidSession_eq, h.live e.time htime.1 htime'.1]
  obtain ⟨time, call⟩ := e
  cases call with
  | isValidSession token => exact congrArg some (hvalid token)
  | isAuthenticated req touched =>
    simp only [AuthSessions.step, AuthSessions.answer, isAuthenticated, h.device, hvalid]
  | _ => rfl

/-- The same event makes the same difference. -/
theorem Agree.step (h : Agree s s') (htime : s.OnTime e) (htime' : s'.OnTime e)
    (hrevives : ¬ s.Revives e) (hrevives' : ¬ s'.Revives e) :
    Agree (s.step e).2 (s'.step e).2 := by
  have hdevice : (s'.step e).2.device = (s.step e).2.device := by
    rw [device_step, device_step, h.device]
  refine ⟨hdevice, fun now hnow _ => ?_⟩
  have hle : e.time ≤ now := Int.le_trans htime.2 hnow
  funext token
  by_cases htoken : token = []
  · rw [htoken, live_nil, live_nil]
  · rw [live_step hrevives hle htoken, live_step hrevives' hle htoken, hdevice, h.device,
      h.live e.time htime.1 htime'.1]

theorem answers_cons (es : List SessionEvent) :
    s.answers (e :: es) = (s.step e).1.toList ++ (s.step e).2.answers es := by
  rw [answers, Machine.outputs_cons]
  cases (s.step e).1 with
  | none => rfl
  | some b => rfl

theorem answers_sweep (hsweep : e.noSweep = false) (es : List SessionEvent) :
    s.answers (e :: es) = (s.step e).2.answers es := by
  rw [answers_cons]
  obtain ⟨time, call⟩ := e
  cases call with
  | expireSessions => rfl
  | _ => cases hsweep

/-- Runs that differ in their sweeps get the same answers from states that agree. -/
theorem Agree.answers (h : Agree s s') {es es' : List SessionEvent}
    (htime : Machine.Along AuthSessions.step OnTime s es)
    (htime' : Machine.Along AuthSessions.step OnTime s' es') (hrevival : s.NoRevival es)
    (hrevival' : s'.NoRevival es')
    (heq : es.filter SessionEvent.noSweep = es'.filter SessionEvent.noSweep) :
    s.answers es = s'.answers es' := by
  -- sweeps are taken off the front of either run
  induction es generalizing s s' es' with
  | nil =>
    induction es' generalizing s' with
    | nil => rfl
    | cons e' es' ih =>
      by_cases hsweep' : e'.noSweep = false
      · rw [answers_sweep hsweep']
        rw [List.filter_cons_of_neg (by simp [hsweep'])] at heq
        exact ih (h.symm.sweep htime'.1 hsweep').symm htime'.2 hrevival'.2 heq
      · rw [List.filter_cons_of_pos (by simpa using hsweep')] at heq
        cases heq
  | cons e es ih =>
    by_cases hsweep : e.noSweep = false
    · rw [answers_sweep hsweep]
      rw [List.filter_cons_of_neg (by simp [hsweep])] at heq
      exact ih (h.sweep htime.1 hsweep) htime.2 htime' hrevival.2 hrevival' heq
    · rw [List.filter_cons_of_pos (by simpa using hsweep)] at heq
      induction es' generalizing s' with
      | nil => cases heq
      | cons e' es' ih' =>
        by_cases hsweep' : e'.noSweep = false
        · rw [answers_sweep hsweep']
          rw [List.filter_cons_of_neg (by simp [hsweep'])] at heq
          exact ih' (h.symm.sweep htime'.1 hsweep').symm htime'.2 hrevival'.2 heq
        · rw [List.filter_cons_of_pos (by simpa using hsweep')] at heq
          obtain ⟨rfl, htail⟩ := List.cons.inj heq
          rw [answers_cons, answers_cons, h.answer htime.1 htime'.1]
          exact congrArg _ (ih (h.step htime.1 htime'.1 hrevival.1 hrevival'.1) htime.2 htime'.2
            hrevival.2 hrevival'.2 htail)

/-! ### Runs -/

/-- The sessions of a manager that has just been started. -/
def start (d : Device) (now : ℤ) : AuthSessions := { device := d, clock := now }

/-- **Ended sessions stay ended**, and how often they are swept makes no difference to the
answers, in runs in which no event takes up a session that has ended. -/
theorem endedSessions (d : Device) (now : ℤ) :
    (∀ es, (start d now).Admissible es → (start d now).NoRevival es →
      (start d now).EndedStaysEnded es) ∧
    ∀ es es', (start d now).Admissible es → (start d now).Admissible es' →
      (start d now).NoRevival es → (start d now).NoRevival es' →
      es.filter SessionEvent.noSweep = es'.filter SessionEvent.noSweep →
      (start d now).answers es = (start d now).answers es' := by
  refine ⟨fun es hes hrevival => endedStaysEnded_of_noRevival hes hrevival, ?_⟩
  intro es es' hes hes' hrevival hrevival' heq
  exact (Agree.refl _).answers hes.onTime hes'.onTime hrevival hrevival' heq

/-- A session that is valid is touched before it has ended. -/
theorem not_hasEnded_of_isValidSession (h : s.isValidSession now token = true) :
    ¬ s.HasEnded now token := by
  rintro ⟨htoken, session, hsession, hended⟩
  rw [isValidSession_eq, live_of_ne htoken, hsession, Option.isSome_filter, Option.any_some,
    Session.inTime, decide_eq_true_eq] at h
  exact absurd h (Int.not_lt.mpr hended)

/-- A timeout that is not raised takes up no session. -/
theorem not_revives_of_timeout_le {time seconds : ℤ} {save : TempRename}
    (h : (setSessionTimeout seconds save s.device).timeout ≤ s.device.timeout) :
    ¬ s.Revives ⟨time, .setSessionTimeout seconds save⟩ := by
  rintro ⟨token, ⟨-, session, hsession, hended⟩, session', hsession', hrevived⟩
  obtain rfl := Option.some.inj (hsession.symm.trans hsession')
  exact absurd (Int.lt_of_lt_of_le hrevived h) (Int.not_lt.mpr hended)

/-- The random bytes of a token. -/
def sampleBytes : Option (Vector UInt8 16) := some (Vector.replicate 16 7)

/-- A session that is used, swept past, and ended by a shorter timeout. -/
def sampleCalls : List SessionEvent :=
  [⟨0, .createSession sampleBytes⟩, ⟨10, .isValidSession (generateToken sampleBytes)⟩,
    ⟨20, .touchSession (generateToken sampleBytes)⟩, ⟨30, .expireSessions⟩,
    ⟨100 * 10 ^ 9, .setSessionTimeout 60 ⟨true, none, true⟩⟩, ⟨101 * 10 ^ 9, .expireSessions⟩,
    ⟨102 * 10 ^ 9, .isValidSession (generateToken sampleBytes)⟩]

theorem admissible_sampleCalls : (start (Device.start none) 0).Admissible sampleCalls ∧
    (start (Device.start none) 0).Admissible (sampleCalls.filter SessionEvent.noSweep) :=
  ⟨⟨by decide +kernel, by decide +kernel⟩, by decide +kernel, by decide +kernel⟩

theorem noRevival_sampleCalls : (start (Device.start none) 0).NoRevival sampleCalls ∧
    (start (Device.start none) 0).NoRevival (sampleCalls.filter SessionEvent.noSweep) := by
  refine ⟨⟨id, id, ?_, id, ?_, id, id, trivial⟩, id, id, ?_, ?_, id, trivial⟩
  · exact not_hasEnded_of_isValidSession (by decide +kernel)
  · exact not_revives_of_timeout_le (by decide +kernel)
  · exact not_hasEnded_of_isValidSession (by decide +kernel)
  · exact not_revives_of_timeout_le (by decide +kernel)

theorem endedSessions_sample :
    (start (Device.start none) 0).EndedStaysEnded sampleCalls ∧
      (start (Device.start none) 0).answers sampleCalls =
        (start (Device.start none) 0).answers (sampleCalls.filter SessionEvent.noSweep) :=
  ⟨(endedSessions (Device.start none) 0).1 sampleCalls admissible_sampleCalls.1
      noRevival_sampleCalls.1,
    (endedSessions (Device.start none) 0).2 sampleCalls _ admissible_sampleCalls.1
      admissible_sampleCalls.2 noRevival_sampleCalls.1 noRevival_sampleCalls.2 rfl⟩

/-- The end of a session that is not used, with the timeout of a fresh device. -/
def sampleEnd : ℤ := 604800 * 10 ^ 9

/-- A session ends, and then the timeout is raised. -/
def raisedTimeout : List SessionEvent :=
  [⟨0, .createSession sampleBytes⟩, ⟨sampleEnd, .setSessionTimeout 1000000 ⟨true, none, true⟩⟩]

/-- A session ends, and then it is touched. -/
def touchedLate : List SessionEvent :=
  [⟨0, .createSession sampleBytes⟩, ⟨sampleEnd, .touchSession (generateToken sampleBytes)⟩,
    ⟨sampleEnd, .isValidSession (generateToken sampleBytes)⟩]

/-- The same, with a sweep before the touch. -/
def sweptInTime : List SessionEvent :=
  [⟨0, .createSession sampleBytes⟩, ⟨sampleEnd, .expireSessions⟩,
    ⟨sampleEnd, .touchSession (generateToken sampleBytes)⟩,
    ⟨sampleEnd, .isValidSession (generateToken sampleBytes)⟩]

/-- A session comes back when the timeout is raised, and a sweep changes an answer. -/
theorem not_endedSessions :
    ¬ ((∀ es, (start (Device.start none) 0).Admissible es →
        (start (Device.start none) 0).EndedStaysEnded es) ∨
      ∀ es es', (start (Device.start none) 0).Admissible es →
        (start (Device.start none) 0).Admissible es' →
        es.filter SessionEvent.noSweep = es'.filter SessionEvent.noSweep →
        (start (Device.start none) 0).answers es = (start (Device.start none) 0).answers es') := by
  rintro (h | h)
  · have hback := h raisedTimeout ⟨by decide +kernel, by decide +kernel⟩ []
      ⟨0, .createSession sampleBytes⟩ [] raisedTimeout.tail [] (generateToken sampleBytes)
      sampleEnd sampleEnd rfl rfl (by decide +kernel) (by decide +kernel) (by decide +kernel)
      (by decide +kernel) (by decide +kernel)
    exact absurd hback (by decide +kernel)
  · have hsame := h touchedLate sweptInTime ⟨by decide +kernel, by decide +kernel⟩
      ⟨by decide +kernel, by decide +kernel⟩ rfl
    exact absurd hsame (by decide +kernel)

end AuthSessions

end Llamaste
