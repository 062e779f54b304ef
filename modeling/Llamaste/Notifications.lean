import Llamaste.Lib.JsonDump
import Llamaste.Lib.Machine

/-!
# Notifications

Tasks and other parts of the system queue notifications. Any number of connections stream them:
each takes the whole queue for itself, writes what it took one notification after the other, and
ends with the first write that fails. Queued notifications are numbered in the order of the
queue. Source: `scheduler.cpp`, `child_main.cpp`.

## Main results

* `notificationsKept_of_along`: as long as no write of a notification fails, every notification
  is in the queue, on its way in an open connection, or written to one connection.
-/

namespace Llamaste

/-! ### Notifications -/

structure Notification where
  id : Text
  type : Text
  title : Text
  body : Text
  time : ℤ
  deriving DecidableEq

/-- The line of a notification in the stream. An exception is `none`. -/
def Notification.line (n : Notification) : Option Text :=
  (Json.obj [("body".toList, .str n.body), ("id".toList, .str n.id), ("time".toList, .int n.time),
    ("title".toList, .str n.title), ("type".toList, .str n.type)]).dump.map
    fun data => "data: " ++ data ++ "\n\n"

/-- All texts of the notification are UTF-8. -/
def Notification.IsUtf8 (n : Notification) : Prop :=
  ∀ s ∈ [n.body, n.id, n.title, n.type], Utf8.valid s = true

instance (n : Notification) : Decidable n.IsUtf8 := List.decidableBAll _ _

theorem Notification.isSome_line_iff (n : Notification) : n.line.isSome = true ↔ n.IsUtf8 := by
  have hkeys : ∀ key ∈ ["body".toList, "id".toList, "time".toList, "title".toList, "type".toList],
      Utf8.valid key = true := by decide
  have htime : (Json.int n.time).utf8 = true := by simp [Json.utf8]
  rw [line, Option.isSome_map, Json.isSome_dump, IsUtf8]
  simp only [List.forall_mem_cons, List.not_mem_nil, false_imp_iff, implies_true, and_true] at hkeys
  simp only [Json.utf8_obj, List.all_cons, List.all_nil, Json.utf8_str, htime, hkeys,
    Bool.and_eq_true, true_and, and_true, List.forall_mem_cons, List.not_mem_nil, false_imp_iff,
    implies_true]

/-- How the inference for a task ends; `missing` when there is no inference function. -/
inductive TaskResult
  | missing
  | thrown (what : Text)
  | returned (text : Text)

/-- `fire_task`: the notification of a task. -/
def taskNotification (taskId : Text) (result : TaskResult) (id : Text) (time : ℤ) : Notification :=
  let result := match result with
    | .missing => "(no inference function configured)".toList
    | .thrown what => "Error: ".toList ++ what
    | .returned text => text
  { id, type := "scheduled", title := "Scheduled: " ++ taskId
    body := if 200 < result.length then result.take 197 ++ "..." else result
    time }

/-! ### Connections -/

/-- Where a connection stands: before it takes the queue, or with what it has not written of it,
or at its end. -/
inductive StreamPc
  | polling
  | sending (rest : List (ℕ × Notification))
  | closed
  deriving DecidableEq

/-- What the connection has taken and not written. -/
def StreamPc.held : StreamPc → List (ℕ × Notification)
  | .sending rest => rest
  | _ => []

/-- The queue, the connections in the order in which they were opened, the number of
notifications that were queued so far, and the connections and notifications of the writes that
succeeded. -/
structure NotifyState where
  queue : List (ℕ × Notification) := []
  conns : List StreamPc := []
  queued : ℕ := 0
  written : List (ℕ × ℕ) := []

/-- What can happen. A connection that goes on finds the server running or not, is due for a
heartbeat or not, and its write, if it comes to one, succeeds or fails. -/
inductive NotifyEvent
  | fireTask (taskId : Text) (result : TaskResult) (id : Text) (time : ℤ)
  | pushNotification (notif : Notification)
  | connect
  | goOn (conn : ℕ) (running due writes : Bool)

namespace NotifyState

/-- `pending_notifications_.push_back`. -/
def push (s : NotifyState) (notif : Notification) : NotifyState :=
  { s with queue := s.queue ++ [(s.queued, notif)], queued := s.queued + 1 }

/-- The connection moves on. -/
def goto (s : NotifyState) (conn : ℕ) (pc : StreamPc) : NotifyState :=
  { s with conns := s.conns.set conn pc }

/-- `drain_notifications`: the whole queue goes to the connection. -/
def drain (s : NotifyState) (conn : ℕ) : NotifyState :=
  { s with queue := [], conns := s.conns.set conn (.sending s.queue) }

/-- The connection has written a notification. -/
def wrote (s : NotifyState) (conn number : ℕ) (rest : List (ℕ × Notification)) : NotifyState :=
  { s with conns := s.conns.set conn (.sending rest), written := s.written ++ [(conn, number)] }

/-- An exception in a connection ends the process, and the queue is in its memory. -/
def crash (s : NotifyState) : NotifyState :=
  { s with queue := [], conns := s.conns.map fun _ => .closed }

/-- One step of a connection's loop. -/
def goOn (s : NotifyState) (conn : ℕ) (running due writes : Bool) : NotifyState :=
  match s.conns[conn]? with
  | some .polling =>
    if running then s.drain conn else s.goto conn .closed
  | some (.sending ((number, notif) :: rest)) =>
    match notif.line with
    | none => s.crash
    | some _ =>
      if writes then s.wrote conn number rest else s.goto conn .closed
  | some (.sending []) =>
    if due && !writes then s.goto conn .closed else s.goto conn .polling
  | _ => s

/-- The notifications on their way in open connections. -/
def inFlight (s : NotifyState) : List ℕ := s.conns.flatMap fun pc => pc.held.map Prod.fst

end NotifyState

def notifyStep (s : NotifyState) : NotifyEvent → Unit × NotifyState
  | .fireTask taskId result id time => ((), s.push (taskNotification taskId result id time))
  | .pushNotification notif => ((), s.push notif)
  | .connect => ((), { s with conns := s.conns ++ [.polling] })
  | .goOn conn running due writes => ((), s.goOn conn running due writes)

/-- Every notification is in one place: in the queue, on its way, or written once. When none is
on its way, it is in the queue or has been written once. -/
structure NotificationsKept (s : NotifyState) : Prop where
  place : ∀ k < s.queued, (s.queue.map Prod.fst).count k + s.inFlight.count k +
    (s.written.map Prod.snd).count k = 1
  settled : s.inFlight = [] → ∀ k < s.queued,
    k ∈ s.queue.map Prod.fst ∨ (s.written.map Prod.snd).count k = 1

/-- A client leaves only while its connection has nothing to write but heartbeats, and what is to
be written is UTF-8. -/
def Undisturbed (s : NotifyState) : NotifyEvent → Prop
  | .goOn conn _ _ writes => ∀ number notif rest,
      s.conns[conn]? = some (.sending ((number, notif) :: rest)) → notif.IsUtf8 ∧ writes = true
  | _ => True

/-! ### No step loses a notification -/

namespace NotifyState

/-- How often a number stands in the queue, on the way, and among the written ones. -/
def places (s : NotifyState) (k : ℕ) : ℕ :=
  (s.queue.map Prod.fst).count k + s.inFlight.count k + (s.written.map Prod.snd).count k

/-- A connection that moves on changes what is on the way by what it holds. -/
theorem count_inFlight_goto {s : NotifyState} {conn : ℕ} {pc : StreamPc}
    (h : s.conns[conn]? = some pc) (pc' : StreamPc) (k : ℕ) :
    (s.goto conn pc').inFlight.count k + (pc.held.map Prod.fst).count k =
      s.inFlight.count k + (pc'.held.map Prod.fst).count k := by
  obtain ⟨hlt, hget⟩ := List.getElem?_eq_some_iff.mp h
  obtain ⟨before, after, hconns, -, hset⟩ := @List.exists_of_set _ _ pc' _ hlt
  rw [inFlight, inFlight, goto, hset, hconns, hget]
  simp only [List.flatMap_append, List.flatMap_cons, List.count_append]
  omega

/-- Numbers are given out in order, and each number stands in one place. -/
def Counted (s : NotifyState) : Prop := ∀ k, s.places k = if k < s.queued then 1 else 0

theorem Counted.push {s : NotifyState} (h : s.Counted) (notif : Notification) :
    (s.push notif).Counted := by
  intro k
  have hk := h k
  have hnew : (s.push notif).places k = s.places k + if s.queued = k then 1 else 0 := by
    simp only [places, NotifyState.push, inFlight, List.map_append, List.map_cons, List.map_nil,
      List.count_append, List.count_singleton, beq_iff_eq]
    omega
  rw [hnew, hk, show (s.push notif).queued = s.queued + 1 from rfl]
  split_ifs <;> omega

theorem Counted.goto {s : NotifyState} (h : s.Counted) {conn : ℕ} {pc pc' : StreamPc}
    (hpc : s.conns[conn]? = some pc) (hheld : pc.held = pc'.held) :
    (s.goto conn pc').Counted := by
  intro k
  have hcount := count_inFlight_goto hpc pc' k
  have hk := h k
  rw [hheld] at hcount
  rw [places] at hk ⊢
  rw [show (s.goto conn pc').queued = s.queued from rfl, ← hk]
  exact congrArg₂ _ (congrArg₂ _ rfl (by omega)) rfl

/-- The whole queue goes to one connection. -/
theorem Counted.drain {s : NotifyState} (h : s.Counted) {conn : ℕ}
    (hpc : s.conns[conn]? = some .polling) : (s.drain conn).Counted := by
  intro k
  have hcount := count_inFlight_goto hpc (.sending s.queue) k
  have hplaces : (s.drain conn).places k = (s.goto conn (.sending s.queue)).inFlight.count k +
      (s.written.map Prod.snd).count k := congrArg (· + _) (Nat.zero_add _)
  have hk := h k
  simp only [places, StreamPc.held, List.map_nil, List.count_nil] at hk hcount
  rw [hplaces, show (s.drain conn).queued = s.queued from rfl, ← hk]
  omega

/-- What is written leaves the connection. -/
theorem Counted.wrote {s : NotifyState} (h : s.Counted) {conn number : ℕ} {notif : Notification}
    {rest : List (ℕ × Notification)}
    (hpc : s.conns[conn]? = some (.sending ((number, notif) :: rest))) :
    (s.wrote conn number rest).Counted := by
  intro k
  have hcount := count_inFlight_goto hpc (.sending rest) k
  have hplaces : (s.wrote conn number rest).places k = (s.queue.map Prod.fst).count k +
      (s.goto conn (.sending rest)).inFlight.count k +
      ((s.written ++ [(conn, number)]).map Prod.snd).count k := rfl
  have hk := h k
  simp only [places] at hk
  simp only [StreamPc.held, List.map_cons, List.count_cons] at hcount
  rw [hplaces, show (s.wrote conn number rest).queued = s.queued from rfl, ← hk, List.map_append,
    List.count_append, List.map_singleton, List.count_singleton]
  dsimp only
  omega

/-- A step of a connection whose client is there for what it takes. -/
theorem Counted.goOn {s : NotifyState} (h : s.Counted) {conn : ℕ} {running due writes : Bool}
    (hundisturbed : Undisturbed s (.goOn conn running due writes)) :
    (s.goOn conn running due writes).Counted := by
  rw [NotifyState.goOn]
  split
  · rename_i hpc
    split_ifs
    · exact h.drain hpc
    · exact h.goto hpc rfl
  · rename_i number notif rest hpc
    obtain ⟨hutf8, rfl⟩ := hundisturbed _ _ _ hpc
    obtain ⟨line, hline⟩ := Option.isSome_iff_exists.mp (notif.isSome_line_iff.mpr hutf8)
    rw [hline]
    exact h.wrote hpc
  · rename_i hpc
    split_ifs
    · exact h.goto hpc rfl
    · exact h.goto hpc rfl
  · exact h

theorem Counted.step {s : NotifyState} (h : s.Counted) {e : NotifyEvent}
    (hundisturbed : Undisturbed s e) : (notifyStep s e).2.Counted := by
  cases e with
  | fireTask taskId result id time => exact h.push _
  | pushNotification notif => exact h.push notif
  | connect =>
    intro k
    have hk := h k
    have hplaces : (notifyStep s .connect).2.places k = s.places k := by
      simp [places, notifyStep, inFlight, StreamPc.held]
    rw [hplaces, hk]
    rfl
  | goOn conn running due writes => exact h.goOn hundisturbed

end NotifyState

/-- **No notification is lost** in a run in which no write of a notification fails. -/
theorem notificationsKept_of_along {es : List NotifyEvent}
    (h : Machine.Along notifyStep Undisturbed {} es) :
    NotificationsKept (Machine.final notifyStep {} es) := by
  have hcounted : (Machine.final notifyStep {} es).Counted :=
    h.final_invariant (I := NotifyState.Counted) (fun _ _ hundisturbed hs => hs.step hundisturbed)
      fun k => rfl
  have hplace : ∀ k < (Machine.final notifyStep {} es).queued,
      (Machine.final notifyStep {} es).places k = 1 := by
    intro k hk
    rw [hcounted k, if_pos hk]
  refine ⟨hplace, fun hflight k hk => ?_⟩
  have hone := hplace k hk
  rw [NotifyState.places, hflight, List.count_nil, Nat.add_zero] at hone
  rw [← List.count_pos_iff]
  omega

/-- A notification. -/
def sampleNotification : Notification :=
  { id := "1", type := "cluster", title := "Model upgrade ready", body := "", time := 0 }

/-- A client takes a notification, and then a heartbeat fails. -/
def heartbeatLost : List NotifyEvent :=
  [.pushNotification sampleNotification, .connect, .goOn 0 true false true,
    .goOn 0 true false true, .goOn 0 true true false, .fireTask "a" .missing "2" 5]

theorem notificationsKept_heartbeatLost :
    NotificationsKept (Machine.final notifyStep {} heartbeatLost) := by
  refine notificationsKept_of_along ⟨trivial, trivial, ?_, ?_, ?_, trivial, trivial⟩
  · rintro number notif rest ⟨⟩
  · rintro number notif rest ⟨⟩
    exact ⟨by decide, rfl⟩
  · rintro number notif rest ⟨⟩

/-- A client is gone before its first notification is written. -/
theorem not_notificationsKept :
    ¬ ∀ es, NotificationsKept (Machine.final notifyStep {} es) := by
  intro h
  have hplace := (h [.pushNotification sampleNotification, .connect, .goOn 0 true false true,
    .goOn 0 true false false]).place 0 (by decide)
  exact absurd hplace (by decide)

end Llamaste
