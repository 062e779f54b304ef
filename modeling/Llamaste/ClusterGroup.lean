import Llamaste.Lib.JsonDump
import Llamaste.Lib.Machine
import Llamaste.PeerIntake

/-!
# The cluster group

The group of a node is the first line of a file. The child reads it when it starts, and again for
every announcement and for every peer that it finds. A request changes the file at once: it removes
it, or empties it and then writes the new name, and answers whatever became of that.

Requests run in threads of their own, so that the operations of several on the file are interleaved
with each other and with the heartbeats. Each operation, and each reading of the file, is one event.

Source: `child_main.cpp` (`cluster_id`, mDNS start-up, cluster heartbeat, `POST
/llamaste/cluster/config`).

## Main results

* `groupWaits_iff`: the runs in which a change waits for the next start and is there then.
-/

namespace Llamaste

/-! ### The file -/

/-- White space as it is trimmed. -/
def isGroupSpace (c : Char) : Bool := c = ' ' || c = '\t' || c = '\r' || c = '\n'

/-- `cluster_id`: nothing if there is no file. -/
def clusterId : Option Text → Text
  | none => []
  | some text =>
    let id := Text.trim isGroupSpace (text.takeWhile (· ≠ '\n'))
    if id = [] then "default" else id

/-- The characters of a group name. -/
def isGroupChar (c : Char) : Bool := c.isAlphanum || c = '-' || c = '_'

/-! ### Requests -/

/-- How a request fails. -/
inductive GroupRefusal
  | error (status : ℕ) (text : Text)
  | threw

/-- What a request is answered. -/
inductive GroupReply
  | refused (refusal : GroupRefusal)
  | changed (group : Text)

/-- The body of the answer to a request that was accepted. -/
def groupChanged (group : Text) : Json :=
  .object [("group".toList, .str group), ("enabled".toList, .bool (decide (group ≠ []))),
    ("reboot_required".toList, .bool true),
    ("note".toList, .str "Reboot to apply the cluster change.")]

/-- What a request asks for: a group, nothing for none, if it is accepted. -/
def requestedGroup (body : Text) : Except GroupRefusal Text :=
  match Json.parse body with
  | none => .error (.error 400 "invalid JSON body")
  | some args =>
    match args.value Json.getString "group" [] with
    | none => .error .threw
    | some group =>
      let group := Text.trim isGroupSpace group
      if group ≠ [] ∧ ¬(group.length ≤ 63 ∧ group.all isGroupChar = true) then
        .error (.error 400 "group must be <=63 chars of [A-Za-z0-9_-]")
      else .ok group

/-- Where a request stands: before it starts, with the file open for its group, or with the file
behind it. -/
inductive GroupHandler
  | idle
  | opened (fd : ℕ) (group : Text)
  | finished (reply : GroupReply)

/-! ### Runs -/

/-- What a heartbeat announces beside the group. -/
structure RpcInfo where
  ramMb : ℤ
  cores : ℤ
  rpcPort : ℤ
  model : Text

/-- `rpc_txt`. -/
def rpcTxt (info : RpcInfo) (group : Text) : List Text :=
  ["ram=" ++ Json.dumpInt info.ramMb, "cores=" ++ Json.dumpInt info.cores,
    "rpc_port=" ++ Json.dumpInt info.rpcPort,
    "model=" ++ (if info.model = [] then "none".toList else info.model), "cluster=" ++ group]

/-- What stays the same in a run: the addresses of the node, and whether mDNS could be started. -/
structure GroupEnv where
  selfIp : Text
  locals : List Text
  mdnsStarts : Bool

/-- The file by its inode, the contents of inodes, and the requests. -/
structure GroupState where
  path : Option ℕ
  contents : ℕ → Text
  next : ℕ
  handlers : ℕ → GroupHandler

/-- What can happen: a request comes in and opens or removes the file, with success or not; it
writes the first bytes of its group and closes the file; it is answered; the heartbeat announces the
service or goes through a service that it has found. -/
inductive GroupEvent
  | post (r : ℕ) (body : Text) (succeeds : Bool)
  | write (r : ℕ) (k : ℕ)
  | answer (r : ℕ)
  | announce (info : RpcInfo)
  | discover (d : DiscoveredService)

/-- What is seen of it. -/
inductive GroupOutput
  | silent
  | answered (reply : GroupReply)
  | announced (txt : List Text)
  | matched (group : Text) (added : Except (List PeerInfo) (List PeerInfo))

namespace GroupState

/-- The file at the start of the child. -/
def ofFile (file : Option Text) : GroupState where
  path := file.map fun _ => 0
  contents _ := file.getD []
  next := 1
  handlers _ := .idle

def file (s : GroupState) : Option Text := s.path.map s.contents

def setHandler (s : GroupState) (r : ℕ) (handler : GroupHandler) : GroupState :=
  { s with handlers := Function.update s.handlers r handler }

/-- `std::ofstream f(path, std::ios::trunc)`, where it succeeds. -/
def openTrunc (s : GroupState) (r : ℕ) (group : Text) : GroupState :=
  let fd := s.path.getD s.next
  { path := some fd, contents := Function.update s.contents fd [], next := max s.next (fd + 1)
    handlers := Function.update s.handlers r (.opened fd group) }

/-- `unlink(path)`, where it succeeds. -/
def removed (s : GroupState) : GroupState := { s with path := none }

/-- A request comes in. -/
def post (s : GroupState) (r : ℕ) (body : Text) (succeeds : Bool) : GroupState :=
  match requestedGroup body with
  | .error refusal => s.setHandler r (.finished (.refused refusal))
  | .ok [] => (if succeeds then s.removed else s).setHandler r (.finished (.changed []))
  | .ok group =>
    if succeeds then s.openTrunc r group
    else s.setHandler r (.finished (.refused (.error 500 "could not write cluster config")))

/-- The first bytes of the group are written over the start of the file. -/
def write (s : GroupState) (r fd : ℕ) (group : Text) (k : ℕ) : GroupState :=
  { s with
    contents := Function.update s.contents fd
      (group.take k ++ (s.contents fd).drop (group.take k).length)
    handlers := Function.update s.handlers r (.finished (.changed group)) }

end GroupState

/-- The child was started in a group, and its mDNS responder runs. -/
def mdnsStarted (env : GroupEnv) (start : Option Text) : Bool :=
  env.mdnsStarts && decide (clusterId start ≠ [])

/-- A service gets as far as the comparison of the groups. -/
def comparesGroup (env : GroupEnv) (d : DiscoveredService) : Bool :=
  decide (d.Remote env.selfIp env.locals) && (readPeer d).any fun peer => peer.1.ramMb ≠ 0

/-- One event of a child that was started with this file. -/
def clusterGroupStep (env : GroupEnv) (start : Option Text) (s : GroupState) :
    GroupEvent → GroupOutput × GroupState
  | .post r body succeeds =>
    match s.handlers r with
    | .idle => (.silent, s.post r body succeeds)
    | _ => (.silent, s)
  | .write r k =>
    match s.handlers r with
    | .opened fd group => (.silent, s.write r fd group k)
    | _ => (.silent, s)
  | .answer r =>
    match s.handlers r with
    | .finished reply => (.answered reply, s.setHandler r .idle)
    | _ => (.silent, s)
  | .announce info =>
    if mdnsStarted env start then (.announced (rpcTxt info (clusterId s.file)), s) else (.silent, s)
  | .discover d =>
    if mdnsStarted env start && comparesGroup env d then
      (.matched (clusterId s.file)
        (intakeLoop env.selfIp env.locals (clusterId s.file) [] [d]), s)
    else (.silent, s)

/-! ### A change that waits -/

/-- The group that an answer says is set. -/
def GroupOutput.changed : GroupOutput → Option Text
  | .answered (.changed group) => some group
  | _ => none

section

variable (env : GroupEnv) (start : Option Text) (es : List GroupEvent)

def groupOutputs : List GroupOutput :=
  Machine.outputs (clusterGroupStep env start) (.ofFile start) es

/-- The file after the events. -/
def groupFile : Option Text := (Machine.final (clusterGroupStep env start) (.ofFile start) es).file

/-- The group of the last request that was answered with one. -/
def lastChanged : Option Text :=
  ((groupOutputs env start es).filterMap GroupOutput.changed).getLast?

/-- In the run the group is the one that was read at the start, and after the next start it is the
one of the last answer. -/
structure GroupWaits : Prop where
  announced : ∀ txt, .announced txt ∈ groupOutputs env start es →
    advertised "cluster" txt = some (clusterId start)
  matched : ∀ group added, .matched group added ∈ groupOutputs env start es →
    group = clusterId start
  next : ∀ group, lastChanged env start es = some group →
    clusterId (groupFile env start es) = group

/-- The file stands for the group: there is none, or an empty one for the default group, or one
with the name in full. -/
def FileHolds (file : Option Text) (group : Text) : Prop :=
  (file = none ∧ group = []) ∨ (file = some [] ∧ group = "default") ∨
    (file = some group ∧ group ≠ [])

/-- The file is read for an event. -/
def GroupEvent.Reads : GroupEvent → Prop
  | .announce _ => True
  | .discover d => comparesGroup env d = true
  | _ => False

/-- Where the file is read, it is as it was at the start or stands for the group of the start; and
in the end it stands for the group of the last answer. -/
structure GroupFits : Prop where
  reads : mdnsStarted env start = true → ∀ before e after, es = before ++ e :: after →
    e.Reads env → groupFile env start before = start ∨
      FileHolds (groupFile env start before) (clusterId start)
  last : ∀ group, lastChanged env start es = some group →
    FileHolds (groupFile env start es) group

end

/-! ### The file as it is read -/

/-- A text of characters of a group. -/
def IsGroupText (text : Text) : Prop := ∀ c ∈ text, isGroupChar c = true

theorem isGroupSpace_of_isGroupChar {c : Char} (h : isGroupChar c = true) :
    isGroupSpace c = false := by
  rw [isGroupSpace, Bool.eq_false_iff]
  intro hspace
  simp only [Bool.or_eq_true, decide_eq_true_eq, or_assoc] at hspace
  rcases hspace with rfl | rfl | rfl | rfl <;> exact absurd h (by decide)

theorem clusterId_of_isGroupText {text : Text} (h : IsGroupText text) :
    clusterId (some text) = if text = [] then "default".toList else text := by
  have hline : text.takeWhile (· ≠ '\n') = text := by
    refine List.takeWhile_eq_self_iff.mpr fun c hc => decide_eq_true fun hnl => ?_
    subst hnl
    exact absurd (h _ hc) (by decide)
  have htrim : Text.trim isGroupSpace text = text := Text.trim_eq_self fun c hc =>
    isGroupSpace_of_isGroupChar (h c (hc.elim List.mem_of_mem_head? List.mem_of_mem_getLast?))
  rw [clusterId, hline, htrim]

/-- A file of a request is read as a group exactly when it stands for it. -/
theorem clusterId_eq_iff {file : Option Text} (h : ∀ text ∈ file, IsGroupText text) (group : Text) :
    clusterId file = group ↔ FileHolds file group := by
  cases file with
  | none => simp [clusterId, FileHolds, eq_comm]
  | some text =>
      rw [clusterId_of_isGroupText (h text rfl), FileHolds]
      by_cases hnil : text = []
      · subst hnil
        rw [if_pos rfl]
        constructor
        · exact fun h => Or.inr (Or.inl ⟨rfl, h.symm⟩)
        · rintro (⟨h, -⟩ | ⟨-, h⟩ | ⟨h, hne⟩)
          · cases h
          · exact h.symm
          · exact absurd (Option.some.inj h).symm hne
      · rw [if_neg hnil]
        constructor
        · rintro rfl
          exact Or.inr (Or.inr ⟨rfl, hnil⟩)
        · rintro (⟨h, -⟩ | ⟨h, -⟩ | ⟨h, -⟩)
          · cases h
          · exact absurd (Option.some.inj h) hnil
          · exact Option.some.inj h

/-- No file is read as the group that there is none of. -/
theorem clusterId_eq_nil_iff (file : Option Text) : clusterId file = [] ↔ FileHolds file [] := by
  cases file with
  | none => exact iff_of_true rfl (Or.inl ⟨rfl, rfl⟩)
  | some text =>
      refine iff_of_false (fun h => ?_) (by simp [FileHolds])
      rw [clusterId] at h
      split_ifs at h with hid
      · exact absurd h (by decide)
      · exact hid h

/-! ### What the requests leave -/

/-- What holds of a run: open files and a file that a request has changed have the characters of
groups; as long as none has, there is no request with a group that has the file open or behind
it. -/
structure GroupInv (start : Option Text) (s : GroupState) (last : Option Text) : Prop where
  opened : ∀ r fd group, s.handlers r = .opened fd group →
    IsGroupText (s.contents fd) ∧ IsGroupText group
  file : (∀ text ∈ s.file, IsGroupText text) ∨
    s.file = start ∧ (∀ r fd group, s.handlers r ≠ .opened fd group) ∧
      (∀ r group, s.handlers r = .finished (.changed group) → group = []) ∧
      ∀ group ∈ last, group = []

theorem isGroupText_of_requestedGroup {body group : Text} (h : requestedGroup body = .ok group) :
    IsGroupText group := by
  rw [requestedGroup] at h
  cases hparse : Json.parse body with
  | none =>
      rw [hparse] at h
      exact nomatch h
  | some args =>
      rw [hparse] at h
      dsimp only at h
      cases hvalue : args.value Json.getString "group" [] with
      | none =>
          rw [hvalue] at h
          exact nomatch h
      | some value =>
          rw [hvalue] at h
          dsimp only at h
          split_ifs at h with hbad
          obtain rfl := Except.ok.inj h
          by_cases hnil : Text.trim isGroupSpace value = []
          · rw [hnil]
            exact fun _ hc => nomatch hc
          · have hgood := not_not.mp (not_and.mp hbad hnil)
            exact List.all_eq_true.mp hgood.2

/-- The answer to a request that is accepted can be written. -/
theorem utf8_groupChanged {body group : Text} (h : requestedGroup body = .ok group) :
    (groupChanged group).utf8 = true := by
  have hgroup : Utf8.valid group = true := by
    refine Utf8.valid_of_ascii fun c hc => ?_
    have hchar := isGroupText_of_requestedGroup h c hc
    simp only [isGroupChar, Bool.or_eq_true, decide_eq_true_eq] at hchar
    rcases hchar with (hchar | rfl) | rfl
    · exact Text.ascii_of_isAlphanum hchar
    · decide
    · decide
  have hkeys : (["group", "enabled", "reboot_required", "note"].map String.toList).Nodup ∧
      ∀ key ∈ ["group", "enabled", "reboot_required", "note"].map String.toList,
        Utf8.valid key = true := by decide
  rw [groupChanged]
  refine (Json.utf8_object ?_ ?_).mpr ?_
  · exact hkeys.1
  · exact hkeys.2
  simp only [List.map_cons, List.map_nil, List.forall_mem_cons]
  exact ⟨hgroup, rfl, rfl, by decide, List.forall_mem_nil _⟩

namespace GroupInv

variable {start last : Option Text} {s : GroupState}

theorem ofFile (start : Option Text) : GroupInv start (.ofFile start) none where
  opened _ _ _ := nofun
  file := Or.inr ⟨by cases start <;> rfl, fun _ _ _ => nofun, fun _ _ => nofun, nofun⟩

/-- A handler that is done with the file. -/
theorem setHandler (h : GroupInv start s last) (r : ℕ) {handler : GroupHandler}
    (hopened : ∀ fd group, handler ≠ .opened fd group)
    (hchanged : ∀ group, handler = .finished (.changed group) →
      group = [] ∨ ∀ text ∈ s.file, IsGroupText text) :
    GroupInv start (s.setHandler r handler) last where
  opened r' fd group hr' := by
    rw [GroupState.setHandler] at hr'
    dsimp only at hr'
    by_cases heq : r' = r
    · rw [heq, Function.update_self] at hr'
      exact absurd hr' (hopened fd group)
    · rw [Function.update_of_ne heq] at hr'
      exact h.opened r' fd group hr'
  file := by
    rcases h.file with htext | ⟨hstart, hnone, hnil, hlast⟩
    · exact Or.inl htext
    · by_cases htext : ∀ text ∈ s.file, IsGroupText text
      · exact Or.inl htext
      refine Or.inr ⟨hstart, fun r' fd group => ?_, fun r' group => ?_, hlast⟩
      · rw [GroupState.setHandler]
        dsimp only
        by_cases heq : r' = r
        · rw [heq, Function.update_self]
          exact hopened fd group
        · rw [Function.update_of_ne heq]
          exact hnone r' fd group
      · rw [GroupState.setHandler]
        dsimp only
        by_cases heq : r' = r
        · rw [heq, Function.update_self]
          exact fun hg => (hchanged group hg).resolve_right htext
        · rw [Function.update_of_ne heq]
          exact hnil r' group

theorem openTrunc (h : GroupInv start s last) (r : ℕ) {group : Text} (hgroup : IsGroupText group) :
    GroupInv start (s.openTrunc r group) last where
  opened r' fd group' hr' := by
    rw [GroupState.openTrunc] at hr' ⊢
    dsimp only at hr' ⊢
    have hcontents : ∀ fd', IsGroupText (s.contents fd') → IsGroupText
        (Function.update s.contents (s.path.getD s.next) [] fd') := fun fd' htext => by
      by_cases hfd : fd' = s.path.getD s.next
      · rw [hfd, Function.update_self]
        exact nofun
      · rwa [Function.update_of_ne hfd]
    by_cases heq : r' = r
    · rw [heq, Function.update_self] at hr'
      obtain ⟨rfl, rfl⟩ := GroupHandler.opened.inj hr'
      rw [Function.update_self]
      exact ⟨nofun, hgroup⟩
    · rw [Function.update_of_ne heq] at hr'
      exact ⟨hcontents fd (h.opened r' fd group' hr').1, (h.opened r' fd group' hr').2⟩
  file := by
    refine Or.inl fun text htext => ?_
    rw [GroupState.openTrunc, GroupState.file] at htext
    dsimp only [Option.map_some] at htext
    rw [Function.update_self, Option.mem_some_iff] at htext
    rw [← htext]
    exact nofun

theorem removed (h : GroupInv start s last) : GroupInv start s.removed last where
  opened := h.opened
  file := Or.inl nofun

theorem write (h : GroupInv start s last) {r fd : ℕ} {group : Text}
    (hr : s.handlers r = .opened fd group) (k : ℕ) :
    GroupInv start (s.write r fd group k) last := by
  obtain ⟨hcontents, hgroup⟩ := h.opened r fd group hr
  have hnew : IsGroupText (group.take k ++ (s.contents fd).drop (group.take k).length) := by
    intro c hc
    rcases List.mem_append.mp hc with hc | hc
    · exact hgroup c (List.mem_of_mem_take hc)
    · exact hcontents c (List.mem_of_mem_drop hc)
  have hupdate {i : ℕ} (hi : IsGroupText (s.contents i)) :
      IsGroupText ((s.write r fd group k).contents i) := by
    rw [GroupState.write]
    dsimp only
    by_cases hfd : i = fd
    · rw [hfd, Function.update_self]
      exact hnew
    · rwa [Function.update_of_ne hfd]
  refine ⟨fun r' fd' group' hr' => ?_, Or.inl fun text htext => ?_⟩
  · rw [GroupState.write] at hr'
    dsimp only at hr'
    by_cases heq : r' = r
    · rw [heq, Function.update_self] at hr'
      exact nomatch hr'
    · rw [Function.update_of_ne heq] at hr'
      exact ⟨hupdate (h.opened r' fd' group' hr').1, (h.opened r' fd' group' hr').2⟩
  · have htexts := h.file.resolve_right fun hfile => hfile.2.1 r fd group hr
    obtain ⟨i, hi, rfl⟩ := Option.map_eq_some_iff.mp htext
    exact hupdate (htexts _ (Option.map_eq_some_iff.mpr ⟨i, hi, rfl⟩))

/-- A request that comes in. -/
theorem post (h : GroupInv start s last) (r : ℕ) (body : Text) (succeeds : Bool) :
    GroupInv start (s.post r body succeeds) last := by
  rw [GroupState.post]
  cases hgroup : requestedGroup body with
  | error refusal => exact h.setHandler r (fun _ _ => nofun) fun _ => nofun
  | ok group =>
      cases group with
      | nil =>
          refine GroupInv.setHandler ?_ r (fun _ _ => nofun) fun group hg => ?_
          · split_ifs
            · exact h.removed
            · exact h
          · exact Or.inl (GroupReply.changed.inj (GroupHandler.finished.inj hg)).symm
      | cons c group =>
          dsimp only
          split_ifs
          · exact h.openTrunc r (isGroupText_of_requestedGroup hgroup)
          · exact h.setHandler r (fun _ _ => nofun) fun _ => nofun

/-- A request that is answered. -/
theorem answer (h : GroupInv start s last) {r : ℕ} {reply : GroupReply}
    (hr : s.handlers r = .finished reply) :
    GroupInv start (s.setHandler r .idle) ((GroupOutput.answered reply).changed.or last) := by
  have hidle : GroupInv start (s.setHandler r .idle) last :=
    h.setHandler r (fun _ _ => nofun) fun _ => nofun
  refine ⟨hidle.opened, ?_⟩
  rcases h.file with htext | ⟨-, -, hnil, -⟩
  · exact Or.inl htext
  · refine hidle.file.imp_right fun ⟨hstart, hopened, hfinished, hlast⟩ =>
      ⟨hstart, hopened, hfinished, ?_⟩
    cases reply with
    | refused refusal => exact hlast
    | changed group =>
        intro g hg
        rw [← Option.some.inj hg]
        exact hnil r group hr

/-- One event keeps the invariant, with the group of its answer if it has one. -/
theorem step {env : GroupEnv} (h : GroupInv start s last) (e : GroupEvent) :
    GroupInv start (clusterGroupStep env start s e).2
      ((clusterGroupStep env start s e).1.changed.or last) := by
  cases e with
  | post r body succeeds =>
      rw [clusterGroupStep]
      cases s.handlers r with
      | idle => exact h.post r body succeeds
      | _ => exact h
  | write r k =>
      rw [clusterGroupStep]
      cases hr : s.handlers r with
      | opened fd group => exact h.write hr k
      | _ => exact h
  | answer r =>
      rw [clusterGroupStep]
      cases hr : s.handlers r with
      | finished reply => exact h.answer hr
      | _ => exact h
  | announce info =>
      rw [clusterGroupStep]
      split_ifs <;> exact h
  | discover d =>
      rw [clusterGroupStep]
      split_ifs <;> exact h

end GroupInv

section

variable {env : GroupEnv} {start : Option Text} {es : List GroupEvent}

theorem lastChanged_concat (e : GroupEvent) : lastChanged env start (es ++ [e]) =
    (clusterGroupStep env start (Machine.final (clusterGroupStep env start) (.ofFile start) es)
      e).1.changed.or (lastChanged env start es) := by
  rw [lastChanged, groupOutputs, Machine.outputs_append, List.filterMap_append]
  cases hchanged : (clusterGroupStep env start
      (Machine.final (clusterGroupStep env start) (.ofFile start) es) e).1.changed with
  | none =>
      rw [Machine.outputs_cons, List.filterMap_cons_none hchanged]
      exact congrArg List.getLast? (List.append_nil _)
  | some group =>
      rw [Machine.outputs_cons, List.filterMap_cons_some hchanged]
      exact List.getLast?_concat

/-- The invariant holds after every run. -/
theorem groupInv_final (env : GroupEnv) (start : Option Text) (es : List GroupEvent) :
    GroupInv start (Machine.final (clusterGroupStep env start) (.ofFile start) es)
      (lastChanged env start es) := by
  induction es using List.reverseRecOn with
  | nil => exact GroupInv.ofFile start
  | append_singleton es e ih =>
      rw [lastChanged_concat, Machine.final_append]
      exact ih.step e

/-- What a run leaves: a file with the characters of groups, or the one of the start and no group
that was set. -/
theorem groupFile_cases (env : GroupEnv) (start : Option Text) (es : List GroupEvent) :
    (∀ text ∈ groupFile env start es, IsGroupText text) ∨
      groupFile env start es = start ∧ ∀ group ∈ lastChanged env start es, group = [] :=
  (groupInv_final env start es).file.imp_right fun h => ⟨h.1, h.2.2.2⟩

/-- The file is read as the group of the start exactly when it is as it was or stands for it. -/
theorem clusterId_groupFile_iff : clusterId (groupFile env start es) = clusterId start ↔
    groupFile env start es = start ∨ FileHolds (groupFile env start es) (clusterId start) := by
  rcases groupFile_cases env start es with htext | ⟨hstart, -⟩
  · rw [clusterId_eq_iff htext]
    refine (or_iff_right_of_imp fun hsame => ?_).symm
    rw [← clusterId_eq_iff htext]
    exact congrArg clusterId hsame
  · exact iff_of_true (congrArg clusterId hstart) (Or.inl hstart)

/-- The file is read as the group of the last answer exactly when it stands for it. -/
theorem clusterId_last_iff {group : Text} (hlast : lastChanged env start es = some group) :
    clusterId (groupFile env start es) = group ↔ FileHolds (groupFile env start es) group := by
  rcases groupFile_cases env start es with htext | ⟨-, hnil⟩
  · exact clusterId_eq_iff htext group
  · rw [hnil group hlast]
    exact clusterId_eq_nil_iff _

/-- What is announced to others. -/
theorem advertised_rpcTxt (info : RpcInfo) (group : Text) :
    advertised "cluster" (rpcTxt info group) = some group := by
  have hrecord : recordValue "cluster" ("cluster=" ++ group : Text) = some group := by
    rw [recordValue, txtRecord, if_pos]
    · rfl
    · exact List.mem_append_left _ (by decide)
  rw [rpcTxt, show ∀ a b c d e : Text, [a, b, c, d, e] = [a, b, c, d] ++ [e] from fun _ _ _ _ _ =>
    rfl, advertised_append, hrecord]
  rfl

/-- What a step announces. -/
theorem announced_of_step {s : GroupState} {e : GroupEvent} {txt : List Text}
    (h : (clusterGroupStep env start s e).1 = .announced txt) : mdnsStarted env start = true ∧
      e.Reads env ∧ ∃ info, txt = rpcTxt info (clusterId s.file) := by
  cases e with
  | announce info =>
      rw [clusterGroupStep] at h
      split_ifs at h with hstarted
      exact ⟨hstarted, trivial, info, (GroupOutput.announced.inj h).symm⟩
  | discover d =>
      rw [clusterGroupStep] at h
      split_ifs at h
  | _ r =>
      rw [clusterGroupStep] at h
      cases hr : s.handlers r <;> rw [hr] at h <;> exact nomatch h

/-- What a step matches against. -/
theorem matched_of_step {s : GroupState} {e : GroupEvent} {group : Text}
    {added : Except (List PeerInfo) (List PeerInfo)}
    (h : (clusterGroupStep env start s e).1 = .matched group added) : mdnsStarted env start = true ∧
      e.Reads env ∧ group = clusterId s.file := by
  cases e with
  | announce info =>
      rw [clusterGroupStep] at h
      split_ifs at h
  | discover d =>
      rw [clusterGroupStep] at h
      split_ifs at h with hreads
      obtain ⟨hstarted, hcompares⟩ := Bool.and_eq_true_iff.mp hreads
      exact ⟨hstarted, hcompares, (GroupOutput.matched.inj h).1.symm⟩
  | _ r =>
      rw [clusterGroupStep] at h
      cases hr : s.handlers r <;> rw [hr] at h <;> exact nomatch h

/-- A heartbeat that reads the file gives out what it has read. -/
theorem exists_output_of_reads (hstarted : mdnsStarted env start = true)
    {before after : List GroupEvent} {e : GroupEvent} (hes : es = before ++ e :: after)
    (hreads : e.Reads env) :
    (∃ info, .announced (rpcTxt info (clusterId (groupFile env start before))) ∈
        groupOutputs env start es) ∨
      ∃ added, .matched (clusterId (groupFile env start before)) added ∈
        groupOutputs env start es := by
  cases e with
  | announce info =>
      refine Or.inl ⟨info, Machine.mem_outputs_iff.mpr ⟨before, _, after, hes, ?_⟩⟩
      rw [clusterGroupStep, if_pos hstarted]
      rfl
  | discover d =>
      refine Or.inr ⟨intakeLoop env.selfIp env.locals
        (clusterId (groupFile env start before)) [] [d],
        Machine.mem_outputs_iff.mpr ⟨before, _, after, hes, ?_⟩⟩
      rw [clusterGroupStep, if_pos (Bool.and_eq_true_iff.mpr ⟨hstarted, hreads⟩)]
      rfl
  | _ => exact absurd hreads id

end

/-- **A change of the group waits for the next start, and is there then,** exactly when no heartbeat
reads a file that a request has changed to another group, and the file that is left stands for the
group of the last answer. -/
theorem groupWaits_iff (env : GroupEnv) (start : Option Text) (es : List GroupEvent) :
    GroupWaits env start es ↔ GroupFits env start es := by
  constructor
  · refine fun h => ⟨fun hstarted before e after hes hreads => ?_, fun group hlast =>
      (clusterId_last_iff hlast).mp (h.next group hlast)⟩
    rw [← clusterId_groupFile_iff]
    rcases exists_output_of_reads hstarted hes hreads with ⟨info, hout⟩ | ⟨added, hout⟩
    · have hannounced := h.announced _ hout
      rw [advertised_rpcTxt] at hannounced
      exact Option.some.inj hannounced
    · exact h.matched _ _ hout
  · refine fun h => ⟨fun txt hout => ?_, fun group added hout => ?_, fun group hlast =>
      (clusterId_last_iff hlast).mpr (h.last group hlast)⟩
    · obtain ⟨before, e, after, hes, hstep⟩ := Machine.mem_outputs_iff.mp hout
      obtain ⟨hstarted, hreads, info, rfl⟩ := announced_of_step hstep
      rw [advertised_rpcTxt]
      exact congrArg some (clusterId_groupFile_iff.mpr (h.reads hstarted before e after hes hreads))
    · obtain ⟨before, e, after, hes, hstep⟩ := Machine.mem_outputs_iff.mp hout
      obtain ⟨hstarted, hreads, rfl⟩ := matched_of_step hstep
      exact clusterId_groupFile_iff.mpr (h.reads hstarted before e after hes hreads)

/-- A request changes the group of a running node. -/
def groupRenamed : List GroupEvent :=
  [.post 0 "\x7b\"group\": \"office\"\x7d" true, .write 0 6, .answer 0]

/-- The next heartbeat announces the new group. -/
theorem not_groupWaits : ¬∀ env start es, GroupWaits env start es := fun h => by
  let env : GroupEnv := { selfIp := "10.0.0.2", locals := [], mdnsStarts := true }
  let info : RpcInfo := { ramMb := 8000, cores := 4, rpcPort := 50052, model := [] }
  have hstarted : mdnsStarted env (some "lab".toList) = true := by decide +kernel
  have hfile : groupFile env (some "lab".toList) groupRenamed = some "office".toList := by
    decide +kernel
  have hout := (h env (some "lab".toList) (groupRenamed ++ [.announce info])).announced
    (rpcTxt info (clusterId (groupFile env (some "lab".toList) groupRenamed)))
    (Machine.mem_outputs_iff.mpr ⟨groupRenamed, .announce info, [], rfl, by
      rw [clusterGroupStep, if_pos hstarted]
      rfl⟩)
  rw [advertised_rpcTxt, hfile] at hout
  exact absurd hout (by decide +kernel)

end Llamaste
