import Llamaste.Wifi

/-!
# Connecting to a Wi-Fi network

A network is looked for in the list of configured ones and added when it is not there; then it
is selected, and the state is polled until the connection stands. Every command may be answered,
refused or left without a reply. Source: `wifi.cpp`.

## Main results

* `connect_of_created`: what a call does that adds a network.
* `leavesNoTrace_iff`: a failed call leaves the networks as they were unless it added one and was
  refused before the polls.
-/

namespace Llamaste

/-! ### The daemon -/

/-- A configured network: what has been set of it. -/
structure WpaNetwork where
  ssid : Option Text := none
  psk : Option Text := none
  keyMgmtNone : Bool := false
  deriving DecidableEq

/-- The networks of `wpa_supplicant` by their ids, and the one that was selected. -/
structure WpaState where
  networks : List (ℤ × WpaNetwork)
  selected : Option ℤ := none

/-- A `wpa_supplicant`, with the id that it gives to the next network, and with the two columns
that its list shows behind each SSID. -/
structure WpaDaemon extends WpaState where
  nextId : ℤ
  columns : ℤ → Text × Text := fun _ => ("any".toList, [])
  ids_nodup : (networks.map Prod.fst).Nodup
  nextId_int : 0 ≤ nextId ∧ nextId < 2 ^ 31
  nextId_fresh : ∀ n ∈ networks, n.1 ≠ nextId

/-- What becomes of a command: it is carried out, it is refused, or no reply comes. -/
inductive Outcome
  | ok
  | fail
  | lost (done : Bool)
  deriving DecidableEq

/-- The command is carried out. -/
def Outcome.done : Outcome → Bool
  | .ok => true
  | .fail => false
  | .lost done => done

/-- Two digits in hexadecimal make a character. -/
def unhex : Text → Text
  | a :: b :: s =>
    Char.ofNat (16 * "0123456789abcdef".toList.idxOf a + "0123456789abcdef".toList.idxOf b) ::
      unhex s
  | _ => []

namespace WpaState

/-- The network with an id. -/
def find (s : WpaState) (id : ℤ) : Option WpaNetwork :=
  (s.networks.find? (·.1 = id)).map Prod.snd

/-- A network is added. -/
def add (s : WpaState) (id : ℤ) : WpaState := { s with networks := s.networks ++ [(id, {})] }

/-- Something of a network is set. -/
def set (s : WpaState) (id : ℤ) (change : WpaNetwork → WpaNetwork) : WpaState :=
  { s with networks := s.networks.map fun n => if n.1 = id then (n.1, change n.2) else n }

/-- What a command does that is carried out, where quoted text is read by `unquote`. The hint for
a BSSID is not part of the state. -/
def carryOut (unquote : Text → Text) (s : WpaState) : WpaCommand → WpaState
  | .setSsid id hex => s.set id fun n => { n with ssid := some (unhex hex) }
  | .setKeyMgmtNone id => s.set id fun n => { n with keyMgmtNone := true }
  | .setPsk id escaped => s.set id fun n => { n with psk := some (unquote escaped) }
  | .selectNetwork id => { s with selected := some id }
  | .removeNetwork id => { s with networks := s.networks.filter (·.1 ≠ id) }
  | _ => s

/-- The network that a command is about is configured. -/
def Knows (s : WpaState) : WpaCommand → Prop
  | .setSsid id _ | .setKeyMgmtNone id | .setPsk id _ | .setBssidAny id | .selectNetwork id
  | .removeNetwork id => ∃ n ∈ s.networks, n.1 = id
  | _ => True

instance (s : WpaState) : ∀ cmd, Decidable (s.Knows cmd)
  | .setSsid _ _ | .setKeyMgmtNone _ | .setPsk _ _ | .setBssidAny _ | .selectNetwork _
  | .removeNetwork _ => inferInstanceAs (Decidable (∃ n ∈ _, _))
  | .listNetworks | .addNetwork | .status | .saveConfig => isTrue trivial

/-- The reply to a command and the state after it. A command about a network that is not
configured is refused. -/
def answer (unquote : Text → Text) (s : WpaState) (cmd : WpaCommand) (o : Outcome) :
    Text × WpaState :=
  (match o with
    | .ok => if s.Knows cmd then "OK\n".toList else "FAIL\n".toList
    | .fail => "FAIL\n".toList
    | .lost _ => [],
  if o.done = true ∧ s.Knows cmd then s.carryOut unquote cmd else s)

end WpaState

namespace WpaDaemon

/-- The reply to `ADD_NETWORK` and the state after it. -/
def answerAdd (d : WpaDaemon) (o : Outcome) : Text × WpaState :=
  (match o with
    | .ok => Json.dumpInt d.nextId ++ "\n".toList
    | .fail => "FAIL\n".toList
    | .lost _ => [],
  if o.done = true then d.toWpaState.add d.nextId else d.toWpaState)

/-- A network in the list. -/
def listLine (d : WpaDaemon) (n : ℤ × WpaNetwork) : Text :=
  Json.dumpInt n.1 ++ '\t' :: n.2.ssid.getD [] ++ '\t' :: (d.columns n.1).1 ++
    '\t' :: (d.columns n.1).2 ++ "\n".toList

/-- The list of networks. -/
def listing (d : WpaDaemon) : Text :=
  "network id / ssid / bssid / flags\n".toList ++ d.networks.flatMap d.listLine

/-- The reply to `LIST_NETWORKS`. -/
def answerList (d : WpaDaemon) : Outcome → Text
  | .ok => d.listing
  | .fail => "FAIL\n".toList
  | .lost _ => []

end WpaDaemon

/-- What a call meets: whether there is an interface and a daemon, what becomes of the commands,
and the replies to `STATUS` that come before the deadline. -/
structure Replies where
  hasWifi : Bool := true
  running : Bool := true
  list : Outcome := .ok
  add : Outcome := .ok
  ssid : Outcome := .ok
  credentials : Outcome := .ok
  bssid : Outcome := .ok
  select : Outcome := .ok
  status : List Text
  remove : Outcome := .ok
  save : Outcome := .ok

/-! ### The call -/

/-- What is received of a reply. Only the replies to `LIST_NETWORKS` and `STATUS` may be longer
than the buffer. -/
def received (reply : Text) : Text := reply.take 65535

/-- The reply is `OK`. -/
def IsOk (reply : Text) : Prop := strTrim reply = "OK".toList

instance (reply : Text) : Decidable (IsOk reply) := inferInstanceAs (Decidable (_ = _))

/-- The id of a saved network in a list, or -1. -/
def savedId (ssid listed : Text) : ℤ :=
  ((parseListNetworks (received listed)).find? (·.ssid = ssid)).elim (-1) WiFiNetwork.networkId

/-- The state that a reply to `STATUS` names first. -/
def wpaState (reply : Text) : Option Text :=
  (Text.lines (received reply)).findSome? fun line =>
    match Text.splitFirst ['='] line with
    | some (key, value) =>
      if strTrim key = "wpa_state".toList then some (strTrim value) else none
    | none => none

/-- The polls: the last state, up to the first `COMPLETED`. -/
def pollState : List Text → Text → Text
  | [], last => last
  | reply :: rest, last =>
    if (wpaState reply).getD last = "COMPLETED".toList then (wpaState reply).getD last
    else pollState rest ((wpaState reply).getD last)

section

variable (unquote : Text → Text)

/-- The passphrase is set, or that there is none. -/
def setCredentials (psk : Text) (id : ℤ) (s : WpaState) (r : Replies) :
    Except Text Unit × WpaState :=
  if psk = [] then
    let (reply, s) := s.answer unquote (.setKeyMgmtNone id) r.credentials
    (if IsOk reply then .ok () else .error "SET_NETWORK key_mgmt failed".toList, s)
  else
    let (reply, s) := s.answer unquote (.setPsk id (pskEsc psk)) r.credentials
    (if IsOk reply then .ok () else .error "SET_NETWORK psk failed".toList, s)

/-- A network is added and set up: its id, or an error. -/
def createNetwork (ssid psk : Text) (d : WpaDaemon) (r : Replies) :
    Except Text ℤ × WpaState :=
  let (reply, s) := d.answerAdd r.add
  if strTrim reply = "FAIL".toList then (.error "ADD_NETWORK failed".toList, s)
  else
    match Strto.stoi (strTrim reply) with
    | none => (.error ("ADD_NETWORK unexpected reply: ".toList ++ strTrim reply), s)
    | some id =>
      let (reply, s) := s.answer unquote (.setSsid id (ssid.flatMap hexChar)) r.ssid
      if IsOk reply then
        let (set, s) := setCredentials unquote psk id s r
        (set.map fun _ => id, s)
      else (.error "SET_NETWORK ssid failed".toList, s)

/-- A network is selected, and the state polled: an error, or the empty text. -/
def selectAndPoll (created : Bool) (id : ℤ) (s : WpaState) (r : Replies) : Text × WpaState :=
  let (_, s) := s.answer unquote (.setBssidAny id) r.bssid
  let (reply, s) := s.answer unquote (.selectNetwork id) r.select
  if IsOk reply then
    let last := pollState r.status []
    if last = "COMPLETED".toList then ([], (s.answer unquote .saveConfig r.save).2)
    else
      ("Connection failed (state: ".toList ++ last ++ ")".toList,
        if created then (s.answer unquote (.removeNetwork id) r.remove).2 else s)
  else ("SELECT_NETWORK failed".toList, s)

/-- `connect`: an error, or the empty text. -/
def connect (ssid psk : Text) (d : WpaDaemon) (r : Replies) : Text × WpaState :=
  if !r.hasWifi then ("No WiFi interface".toList, d.toWpaState)
  else if !r.running then ("wpa_supplicant not running".toList, d.toWpaState)
  else
    let id := savedId ssid (d.answerList r.list)
    if id < 0 then
      match createNetwork unquote ssid psk d r with
      | (.error e, s) => (e, s)
      | (.ok id, s) => selectAndPoll unquote true id s r
    else selectAndPoll unquote false id d.toWpaState r

/-! ### Replies -/

variable {unquote}

/-- A command is answered by `OK` when it is carried out on a network that is configured. -/
theorem isOk_answer_iff {s : WpaState} {cmd : WpaCommand} {o : Outcome} :
    IsOk (s.answer unquote cmd o).1 ↔ o = .ok ∧ s.Knows cmd := by
  have hok : IsOk "OK\n".toList := by decide
  have hfail : ¬ IsOk "FAIL\n".toList := by decide
  have hlost : ¬ IsOk [] := by decide
  cases o with
  | ok =>
    by_cases hknows : s.Knows cmd
    · exact iff_of_true (by simpa only [WpaState.answer, if_pos hknows] using hok) ⟨rfl, hknows⟩
    · exact iff_of_false (by simpa only [WpaState.answer, if_neg hknows] using hfail)
        fun h => hknows h.2
  | fail => exact iff_of_false hfail (by rintro ⟨⟨⟩, -⟩)
  | lost done => exact iff_of_false hlost (by rintro ⟨⟨⟩, -⟩)

theorem answer_of_done {s : WpaState} {cmd : WpaCommand} {o : Outcome} (hdone : o.done = true)
    (hknows : s.Knows cmd) : (s.answer unquote cmd o).2 = s.carryOut unquote cmd :=
  if_pos ⟨hdone, hknows⟩

/-- A command that changes nothing, whatever becomes of it. -/
theorem answer_of_carryOut (unquote : Text → Text) (s : WpaState) {cmd : WpaCommand} (o : Outcome)
    (h : s.carryOut unquote cmd = s) : (s.answer unquote cmd o).2 = s := by
  simp only [WpaState.answer, h, ite_self]

theorem networks_answer_select {s : WpaState} {id : ℤ} {o : Outcome} :
    (s.answer unquote (.selectNetwork id) o).2.networks = s.networks := by
  simp only [WpaState.answer, WpaState.carryOut]
  split <;> rfl

theorem networks_answer_remove (unquote : Text → Text) (s : WpaState) {id : ℤ}
    (h : ∃ n ∈ s.networks, n.1 = id) :
    (s.answer unquote (.removeNetwork id) .ok).2.networks = s.networks.filter (·.1 ≠ id) :=
  congrArg WpaState.networks (if_pos ⟨rfl, h⟩)

/-- A line is trimmed to its text. -/
theorem strTrim_line {s : Text} (h : ∀ c ∈ s, Json.isWs c = false) :
    strTrim (s ++ "\n".toList) = s := by
  cases s with
  | nil => rfl
  | cons c s =>
    have hdrop : (c :: s ++ "\n".toList).dropWhile Json.isWs = c :: s ++ "\n".toList := by
      rw [List.cons_append, List.dropWhile_cons_of_neg]
      rw [h c List.mem_cons_self]
      exact Bool.false_ne_true
    rw [strTrim, Text.trim, hdrop, Text.rdropWhile_append_of_pos (by decide),
      List.rdropWhile_eq_self_iff]
    intro hne
    rw [h _ (List.getLast_mem hne)]
    exact Bool.false_ne_true

theorem isWs_dumpInt (n : ℤ) : ∀ c ∈ Json.dumpInt n, Json.isWs c = false := by
  intro c hc
  refine Bool.eq_false_iff.mpr fun hblank => ?_
  simp only [Json.isWs, Bool.or_eq_true, decide_eq_true_eq, or_assoc] at hblank
  rcases hblank with rfl | rfl | rfl | rfl <;>
    rcases (Strto.numeral_dumpInt n).mem _ hc with h | h | h <;> exact absurd h (by decide)

/-! ### The added network -/

namespace WpaDaemon

/-- The state with the added network. -/
def withNew (d : WpaDaemon) (n : WpaNetwork) : WpaState :=
  { d.toWpaState with networks := d.networks ++ [(d.nextId, n)] }

/-- The added network is the one with its id. -/
theorem withNew_knows (d : WpaDaemon) (n : WpaNetwork) :
    ∃ m ∈ (d.withNew n).networks, m.1 = d.nextId :=
  ⟨_, List.mem_concat_self, rfl⟩

theorem withNew_ne (d : WpaDaemon) (n : WpaNetwork) : (d.withNew n).networks ≠ d.networks :=
  fun h => List.cons_ne_nil _ _ (List.append_right_eq_self.mp h)

/-- Only the added network is set. -/
theorem set_withNew (d : WpaDaemon) (n : WpaNetwork) (change : WpaNetwork → WpaNetwork) :
    (d.withNew n).set d.nextId change = d.withNew (change n) := by
  have hrest : d.networks.map (fun m => if m.1 = d.nextId then (m.1, change m.2) else m) =
      d.networks := by
    refine (List.map_congr_left fun m hm => ?_).trans (List.map_id _)
    exact if_neg (d.nextId_fresh m hm)
  simp only [withNew, WpaState.set, List.map_append, hrest, List.map_singleton, if_true]

/-- Only the added network is removed. -/
theorem remove_withNew (d : WpaDaemon) (n : WpaNetwork) :
    (d.withNew n).networks.filter (·.1 ≠ d.nextId) = d.networks := by
  have hrest : d.networks.filter (·.1 ≠ d.nextId) = d.networks :=
    List.filter_eq_self.mpr fun m hm => decide_eq_true (d.nextId_fresh m hm)
  rw [withNew, List.filter_append, hrest]
  simp

end WpaDaemon

/-- The part of an added network that holds the passphrase. -/
def withPsk (unquote : Text → Text) (psk : Text) (n : WpaNetwork) : WpaNetwork :=
  if psk = [] then { n with keyMgmtNone := true } else { n with psk := some (unquote (pskEsc psk)) }

/-- What is set of an added network. -/
def configured (unquote : Text → Text) (ssid psk : Text) : WpaNetwork :=
  withPsk unquote psk { ssid := some (unhex (ssid.flatMap hexChar)) }

section

variable {d : WpaDaemon} {r : Replies} {ssid psk : Text}

/-- A command that sets something of the added network. -/
theorem answer_withNew (unquote : Text → Text) (n : WpaNetwork) (cmd : WpaCommand)
    (change : WpaNetwork → WpaNetwork) (o : Outcome) (hknows : (d.withNew n).Knows cmd)
    (hset : (d.withNew n).carryOut unquote cmd = (d.withNew n).set d.nextId change) :
    (IsOk ((d.withNew n).answer unquote cmd o).1 ↔ o = .ok) ∧
      ((d.withNew n).answer unquote cmd o).2 =
        d.withNew (if o.done = true then change n else n) := by
  refine ⟨isOk_answer_iff.trans (and_iff_left hknows), ?_⟩
  rw [d.set_withNew] at hset
  simp only [WpaState.answer, hset, hknows, and_true]
  split <;> rfl

/-- The passphrase of the added network is set, or an error reported. -/
theorem setCredentials_withNew (unquote : Text → Text) (psk : Text) (d : WpaDaemon) (r : Replies)
    (n : WpaNetwork) : ∃ e, e ≠ [] ∧
    setCredentials unquote psk d.nextId (d.withNew n) r =
      (if r.credentials = .ok then .ok () else .error e,
        d.withNew (if r.credentials.done = true then withPsk unquote psk n else n)) := by
  by_cases hpsk : psk = []
  · obtain ⟨hok, hstate⟩ := answer_withNew unquote n (.setKeyMgmtNone d.nextId)
      (fun n => { n with keyMgmtNone := true }) r.credentials (d.withNew_knows n) rfl
    refine ⟨"SET_NETWORK key_mgmt failed".toList, by simp, ?_⟩
    simp only [setCredentials, withPsk, if_pos hpsk, hok, hstate]
  · obtain ⟨hok, hstate⟩ := answer_withNew unquote n (.setPsk d.nextId (pskEsc psk))
      (fun n => { n with psk := some (unquote (pskEsc psk)) }) r.credentials (d.withNew_knows n) rfl
    refine ⟨"SET_NETWORK psk failed".toList, by simp, ?_⟩
    simp only [setCredentials, withPsk, if_neg hpsk, hok, hstate]

/-- Without a reply that holds a number there is an error. -/
theorem createNetwork_of_ne_ok (unquote : Text → Text) (ssid psk : Text) (d : WpaDaemon)
    (hadd : r.add ≠ .ok) : ∃ e, e ≠ [] ∧
    createNetwork unquote ssid psk d r =
      (.error e, if r.add.done = true then d.withNew {} else d.toWpaState) := by
  cases hout : r.add with
  | ok => exact absurd hout hadd
  | fail =>
    refine ⟨"ADD_NETWORK failed".toList, by simp, ?_⟩
    have htrim : strTrim "FAIL\n".toList = "FAIL".toList := by decide
    simp only [createNetwork, WpaDaemon.answerAdd, hout, htrim, if_true]
    rfl
  | lost done =>
    have htrim : strTrim [] = [] := rfl
    have hread : Strto.stoi [] = none := by decide
    refine ⟨"ADD_NETWORK unexpected reply: ".toList ++ [], by simp, ?_⟩
    simp only [createNetwork, WpaDaemon.answerAdd, hout, htrim, hread]
    rfl

/-- What is done with a network that is added. -/
theorem createNetwork_of_ok (unquote : Text → Text) (hadd : r.add = .ok) :
    createNetwork unquote ssid psk d r =
      if r.ssid = .ok then
        let (set, s) := setCredentials unquote psk d.nextId
          (d.withNew { ssid := some (unhex (ssid.flatMap hexChar)) }) r
        (set.map fun _ => d.nextId, s)
      else
        (.error "SET_NETWORK ssid failed".toList,
          d.withNew (if r.ssid.done = true then { ssid := some (unhex (ssid.flatMap hexChar)) }
            else {})) := by
  have htrim := strTrim_line (isWs_dumpInt d.nextId)
  have hread : Strto.stoi (Json.dumpInt d.nextId) = some d.nextId :=
    Strto.stoi_dumpInt ⟨by have := d.nextId_int.1; omega, d.nextId_int.2⟩
  have hne : Json.dumpInt d.nextId ≠ "FAIL".toList := fun h => by
    have hnone : Strto.stoi "FAIL".toList = none := by decide
    rw [h, hnone] at hread
    cases hread
  have hadded : d.toWpaState.add d.nextId = d.withNew {} := rfl
  obtain ⟨hok, hstate⟩ := answer_withNew unquote {} (.setSsid d.nextId (ssid.flatMap hexChar))
    (fun n => { n with ssid := some (unhex (ssid.flatMap hexChar)) }) r.ssid
    (d.withNew_knows {}) rfl
  simp only [createNetwork, WpaDaemon.answerAdd, hadd, Outcome.done, if_true, htrim, if_neg hne,
    hread, hadded, hok, hstate]
  split
  · next hssid => rw [hssid]; rfl
  · rfl

theorem createNetwork_configured (unquote : Text → Text) (hadd : r.add = .ok)
    (hssid : r.ssid = .ok) (hcred : r.credentials = .ok) :
    createNetwork unquote ssid psk d r =
      (.ok d.nextId, d.withNew (configured unquote ssid psk)) := by
  obtain ⟨e, -, hset⟩ := setCredentials_withNew unquote psk d r
      { ssid := some (unhex (ssid.flatMap hexChar)) }
  rw [createNetwork_of_ok unquote hadd, if_pos hssid, hset]
  simp only [hcred, Outcome.done, if_true]
  rfl

/-- A network that is added and not set up is left behind. -/
theorem createNetwork_leftBehind (unquote : Text → Text) (hadd : r.add = .ok)
    (h : ¬ (r.ssid = .ok ∧ r.credentials = .ok)) :
    ∃ e n, e ≠ [] ∧ createNetwork unquote ssid psk d r = (.error e, d.withNew n) := by
  rw [createNetwork_of_ok unquote hadd]
  by_cases hssid : r.ssid = .ok
  · obtain ⟨e, he, hset⟩ := setCredentials_withNew unquote psk d r
      { ssid := some (unhex (ssid.flatMap hexChar)) }
    rw [if_pos hssid, hset, if_neg fun hcred => h ⟨hssid, hcred⟩]
    exact ⟨e, _, he, rfl⟩
  · exact ⟨_, _, by simp, if_neg hssid⟩

/-! ### The selection -/

/-- A network that is not configured, or is refused. -/
theorem selectAndPoll_of_refused (unquote : Text → Text) (created : Bool) {id : ℤ} {s : WpaState}
    (h : ¬ (r.select = .ok ∧ ∃ n ∈ s.networks, n.1 = id)) :
    (selectAndPoll unquote created id s r).1 ≠ [] ∧
      (selectAndPoll unquote created id s r).2.networks = s.networks := by
  have hhint : (s.answer unquote (.setBssidAny id) r.bssid).2 = s :=
    answer_of_carryOut unquote s r.bssid rfl
  have hnot : ¬ IsOk (s.answer unquote (.selectNetwork id) r.select).1 := fun hok =>
    h (isOk_answer_iff.mp hok)
  simp only [selectAndPoll, hhint, if_neg hnot]
  exact ⟨by simp, networks_answer_select⟩

/-- A network that is selected. -/
theorem selectAndPoll_of_ok (unquote : Text → Text) (created : Bool) {id : ℤ} {s : WpaState}
    (hselect : r.select = .ok) (hknows : ∃ n ∈ s.networks, n.1 = id) :
    ∃ e, e ≠ [] ∧ selectAndPoll unquote created id s r =
      if pollState r.status [] = "COMPLETED".toList then ([], { s with selected := some id })
      else (e, if created then
        (({ s with selected := some id } : WpaState).answer unquote (.removeNetwork id) r.remove).2
        else { s with selected := some id }) := by
  have hhint : (s.answer unquote (.setBssidAny id) r.bssid).2 = s :=
    answer_of_carryOut unquote s r.bssid rfl
  have hok : IsOk (s.answer unquote (.selectNetwork id) r.select).1 :=
    isOk_answer_iff.mpr ⟨hselect, hknows⟩
  have hstate : (s.answer unquote (.selectNetwork id) r.select).2 =
      { s with selected := some id } := answer_of_done (by rw [hselect]; rfl) hknows
  refine ⟨"Connection failed (state: ".toList ++ pollState r.status [] ++ ")".toList, by simp, ?_⟩
  have hsave : (WpaState.answer unquote _ .saveConfig r.save).2 = _ :=
    answer_of_carryOut unquote { s with selected := some id } r.save rfl
  simp only [selectAndPoll, hhint, if_pos hok, hstate, hsave]

/-- A saved network that is selected stays, and so do the others. -/
theorem networks_selectAndPoll (unquote : Text → Text) (id : ℤ) (s : WpaState) :
    (selectAndPoll unquote false id s r).2.networks = s.networks := by
  by_cases h : r.select = .ok ∧ ∃ n ∈ s.networks, n.1 = id
  · obtain ⟨e, -, hpoll⟩ := selectAndPoll_of_ok unquote false h.1 h.2
    rw [hpoll]
    split <;> rfl
  · exact (selectAndPoll_of_refused unquote false h).2

/-! ### A failed call -/

/-- A call that fails leaves the configured networks as they were. -/
def LeavesNoTrace (unquote : Text → Text) (ssid psk : Text) (d : WpaDaemon) (r : Replies) : Prop :=
  (connect unquote ssid psk d r).1 ≠ [] →
    (connect unquote ssid psk d r).2.networks = d.networks

/-- No saved network is found, and one is added. -/
structure Adds (ssid : Text) (d : WpaDaemon) (r : Replies) : Prop where
  hasWifi : r.hasWifi = true
  running : r.running = true
  notSaved : savedId ssid (d.answerList r.list) < 0
  added : r.add.done = true

/-- The commands up to the polls are answered by `OK`. -/
structure SetUp (r : Replies) : Prop where
  add : r.add = .ok
  ssid : r.ssid = .ok
  credentials : r.credentials = .ok
  select : r.select = .ok

theorem connect_of_notSaved (hwifi : r.hasWifi = true) (hrunning : r.running = true)
    (hnot : savedId ssid (d.answerList r.list) < 0) :
    connect unquote ssid psk d r =
      match createNetwork unquote ssid psk d r with
      | (.error e, s) => (e, s)
      | (.ok id, s) => selectAndPoll unquote true id s r := by
  simp only [connect, hwifi, hrunning, Bool.not_true, Bool.false_eq_true, if_false, if_pos hnot]

theorem connect_of_saved (hwifi : r.hasWifi = true) (hrunning : r.running = true)
    (hsaved : 0 ≤ savedId ssid (d.answerList r.list)) :
    connect unquote ssid psk d r =
      selectAndPoll unquote false (savedId ssid (d.answerList r.list)) d.toWpaState r := by
  simp only [connect, hwifi, hrunning, Bool.not_true, Bool.false_eq_true, if_false,
    if_neg (Int.not_lt.mpr hsaved)]

/-- Without an added network the networks stay as they are. -/
theorem networks_of_not_adds (h : ¬ Adds ssid d r) :
    (connect unquote ssid psk d r).2.networks = d.networks := by
  by_cases hwifi : r.hasWifi = true
  swap
  · simp only [connect, hwifi, Bool.not_false, if_true]
  by_cases hrunning : r.running = true
  swap
  · simp only [connect, hwifi, hrunning, Bool.not_false, Bool.not_true, Bool.false_eq_true,
      if_false, if_true]
  rcases Int.lt_or_le (savedId ssid (d.answerList r.list)) 0 with hnot | hsaved
  swap
  · rw [connect_of_saved hwifi hrunning hsaved, networks_selectAndPoll]
  · have hadd : ¬ r.add.done = true := fun hadd => h ⟨hwifi, hrunning, hnot, hadd⟩
    obtain ⟨e, -, hcreate⟩ := createNetwork_of_ne_ok unquote ssid psk d fun hok =>
      hadd (by rw [hok]; rfl)
    rw [connect_of_notSaved hwifi hrunning hnot, hcreate, if_neg hadd]

/-- An added network that is set up is removed again when the connection does not stand. -/
theorem leavesNoTrace_of_setUp (h : Adds ssid d r) (hset : SetUp r) (hremove : r.remove = .ok) :
    LeavesNoTrace unquote ssid psk d r := by
  rw [LeavesNoTrace, connect_of_notSaved h.hasWifi h.running h.notSaved,
    createNetwork_configured unquote hset.add hset.ssid hset.credentials]
  have hknows := d.withNew_knows (configured unquote ssid psk)
  obtain ⟨e, -, hpoll⟩ := selectAndPoll_of_ok unquote true hset.select hknows
  have hgone := networks_answer_remove unquote
    { d.withNew (configured unquote ssid psk) with selected := some d.nextId } hknows
  dsimp only
  rw [hpoll]
  split
  · exact fun hne => absurd rfl hne
  · intro _
    rw [if_pos rfl, hremove]
    exact hgone.trans (d.remove_withNew _)

/-- An added network that is not set up stays. -/
theorem not_leavesNoTrace_of_adds (h : Adds ssid d r) (hset : ¬ SetUp r) :
    ¬ LeavesNoTrace unquote ssid psk d r := by
  have hleft : ∃ e n, e ≠ [] ∧ (connect unquote ssid psk d r).1 = e ∧
      (connect unquote ssid psk d r).2.networks = (d.withNew n).networks := by
    rw [connect_of_notSaved h.hasWifi h.running h.notSaved]
    by_cases hadd : r.add = .ok
    swap
    · obtain ⟨e, he, hcreate⟩ := createNetwork_of_ne_ok unquote ssid psk d hadd
      rw [hcreate, if_pos h.added]
      exact ⟨e, _, he, rfl, rfl⟩
    by_cases hconf : r.ssid = .ok ∧ r.credentials = .ok
    · rw [createNetwork_configured unquote hadd hconf.1 hconf.2]
      have hrefused := selectAndPoll_of_refused unquote true fun hsel :
          r.select = .ok ∧ ∃ n ∈ (d.withNew (configured unquote ssid psk)).networks,
            n.1 = d.nextId => hset ⟨hadd, hconf.1, hconf.2, hsel.1⟩
      exact ⟨_, _, hrefused.1, rfl, hrefused.2⟩
    · obtain ⟨e, n, he, hcreate⟩ := createNetwork_leftBehind unquote hadd hconf
      rw [hcreate]
      exact ⟨e, n, he, rfl, rfl⟩
  obtain ⟨e, n, he, hfst, hsnd⟩ := hleft
  exact fun hno => d.withNew_ne n (hsnd.symm.trans (hno (hfst ▸ he)))

/-- **A failed call leaves the networks as they were unless it added one and was refused before
the polls.** -/
theorem leavesNoTrace_iff (unquote : Text → Text) (ssid psk : Text) (d : WpaDaemon)
    (hremove : r.remove = .ok) :
    LeavesNoTrace unquote ssid psk d r ↔ (Adds ssid d r → SetUp r) := by
  by_cases hadds : Adds ssid d r
  · by_cases hset : SetUp r
    · exact iff_of_true (leavesNoTrace_of_setUp hadds hset hremove) fun _ => hset
    · exact iff_of_false (not_leavesNoTrace_of_adds hadds hset) fun h => hset (h hadds)
  · exact iff_of_true (fun _ => networks_of_not_adds hadds) fun h => absurd h hadds

end

/-- A daemon without networks. -/
def noNetworks : WpaDaemon where
  networks := []
  nextId := 0
  ids_nodup := List.nodup_nil
  nextId_int := by decide
  nextId_fresh := by simp

/-- A wrong passphrase: the connection does not stand. -/
theorem leavesNoTrace_wrongKey :
    LeavesNoTrace id "home".toList "pass phrase".toList noNetworks
      { status := ["wpa_state=4WAY_HANDSHAKE\n".toList] } :=
  (leavesNoTrace_iff id _ _ _ rfl).mpr fun _ => ⟨rfl, rfl, rfl, rfl⟩

/-- A passphrase that is refused. -/
theorem not_leavesNoTrace : ¬ ∀ (unquote : Text → Text) (ssid psk : Text) (d : WpaDaemon)
    (r : Replies), r.remove = .ok → LeavesNoTrace unquote ssid psk d r := fun h => by
  have hno := h id "home".toList "short".toList noNetworks
    { status := [], credentials := .fail } rfl
  rw [LeavesNoTrace] at hno
  revert hno
  decide +kernel

end

end Llamaste
