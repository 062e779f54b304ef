import Llamaste.Cluster

/-!
# Topology changes

The topology callback restarts the inference server with the endpoints of the cluster. An election
calls it when the role of the node changes, and the removal of a peer calls it too. Next to the
manager, a watch keeps what was elected last, which peer endpoints were there at the last call, and
whether a new endpoint was added since. Source: `cluster.cpp`.

## Main results

* `announced_along_iff`: all elections of a run announce what has changed exactly when none of
  them elects another node, or finds a new endpoint as the coordinator, in an unchanged role.
-/

namespace Llamaste

/-- An address and a port. -/
def PeerInfo.place (p : PeerInfo) : Text × UInt16 := (p.ip, p.rpcPort)

namespace ClusterManager

/-- `set_self_info`. -/
def setSelfInfo (self : PeerInfo) (m : ClusterManager) : ClusterManager := { m with self }

/-- The endpoints of the peers. -/
def places (m : ClusterManager) : List (Text × UInt16) := m.peers.map PeerInfo.place

end ClusterManager

/-- What happens to a manager with a callback installed. -/
inductive TopologyEvent
  | setSelfInfo (self : PeerInfo)
  | call (e : ClusterEvent)

/-- A manager, the endpoint that was elected last, the peer endpoints at the last call of the
callback, and whether an endpoint was added since. -/
structure TopologyWatch where
  manager : ClusterManager := { topologyCb := true }
  elected : Option (Text × UInt16) := none
  told : Option (List (Text × UInt16)) := none
  grown : Bool := false

namespace TopologyWatch

/-- The watch after a call that calls the callback or not. -/
def afterCall (w : TopologyWatch) (m : ClusterManager) (called : Bool) : TopologyWatch :=
  if called then { w with manager := m, told := some m.places, grown := false }
  else { w with manager := m }

/-- One event, with whether the callback is called. -/
def step (w : TopologyWatch) : TopologyEvent → Bool × TopologyWatch
  | .setSelfInfo self => (false, { w with manager := w.manager.setSelfInfo self })
  | .call (.addPeer peer now) =>
    (false, { w with
      manager := w.manager.addPeer peer now
      grown := w.grown || !w.manager.places.contains peer.place })
  | .call (.expirePeers timeoutSeconds now) =>
    let (called, m) := w.manager.expirePeers timeoutSeconds now
    (called, w.afterCall m called)
  | .call .runElection =>
    let (called, m) := w.manager.runElection
    (called, { w.afterCall m called with elected := some m.coordinator.place })

/-- The peer endpoints are others than at the last call of the callback. -/
def Moved (w : TopologyWatch) : Prop :=
  ∃ told, w.told = some told ∧ ¬ ∀ place, place ∈ told ↔ place ∈ w.manager.places

/-- An election calls the callback if it elects another endpoint than the last one, or if the node
is the coordinator after it and its peer endpoints are others than at the last call. -/
def Announced (w : TopologyWatch) : TopologyEvent → Prop
  | .call .runElection =>
    (∀ place, w.elected = some place → place ≠ w.manager.runElection.2.coordinator.place →
      w.manager.runElection.1 = true) ∧
    (w.manager.runElection.2.state = .coordinator → w.Moved → w.manager.runElection.1 = true)
  | _ => True

/-- An election that leaves the role as it is finds the endpoint elected that was elected before,
and as the coordinator no endpoint that was added since the last call. -/
def Steady (w : TopologyWatch) : TopologyEvent → Prop
  | .call .runElection =>
    let winner := electCoordinator w.manager.self w.manager.peers
    match w.manager.state with
    | .standalone => w.manager.peers ≠ [] ∨ w.elected = none ∨ w.elected = some winner.place
    | .coordinator => w.manager.peers = [] ∨ winner.ip ≠ w.manager.self.ip ∨
        (w.elected = some winner.place ∧ w.grown = false)
    | .worker => w.manager.peers = [] ∨ winner.ip = w.manager.self.ip ∨
        w.elected = some winner.place
    | .discovering => True
  | _ => True

/-! ### What the watch knows -/

/-- The callback is installed; a role other than the first one was told; and an endpoint was added
exactly when there are others than at the last call. -/
structure Sound (w : TopologyWatch) : Prop where
  installed : w.manager.topologyCb = true
  role : w.manager.state ≠ .discovering
  elected : w.manager.state ≠ .standalone → w.elected ≠ none
  told : w.manager.state ≠ .standalone → w.told ≠ none
  stays : ∀ told, w.told = some told → told ⊆ w.manager.places
  grown : ∀ told, w.told = some told → (w.grown = false ↔ w.manager.places ⊆ told)

theorem Sound.start : Sound {} :=
  ⟨rfl, nofun, fun h => absurd rfl h, fun h => absurd rfl h, nofun, nofun⟩

/-- A peer that is known is replaced, another one is added. -/
theorem places_addPeer (m : ClusterManager) (peer : PeerInfo) (now : ℤ) :
    (m.addPeer peer now).places =
      if peer.place ∈ m.places then m.places else m.places ++ [peer.place] := by
  have hsame : ∀ p : PeerInfo, (p.ip = peer.ip ∧ p.rpcPort = peer.rpcPort) ↔
      p.place = peer.place := fun p => Prod.mk.injEq .. ▸ Iff.rfl
  have hmem : (m.peers.any fun p => p.ip = peer.ip ∧ p.rpcPort = peer.rpcPort) = true ↔
      peer.place ∈ m.places := by
    simp only [List.any_eq_true, decide_eq_true_eq, hsame, ClusterManager.places, List.mem_map]
  have hreplace : ∀ peers : List PeerInfo,
      (peers.replaceF fun p => if p.ip = peer.ip ∧ p.rpcPort = peer.rpcPort then
        some { peer with lastSeen := now } else none).map PeerInfo.place =
          peers.map PeerInfo.place := by
    intro peers
    induction peers with
    | nil => rfl
    | cons p peers ih =>
      by_cases hp : p.ip = peer.ip ∧ p.rpcPort = peer.rpcPort
      · simp only [List.replaceF_cons, if_pos hp, List.map_cons, (hsame p).mp hp]
        rfl
      · simp only [List.replaceF_cons, if_neg hp, List.map_cons, ih]
  rw [ClusterManager.addPeer]
  split_ifs with hany hplace hplace
  · exact hreplace m.peers
  · exact absurd (hmem.mp hany) hplace
  · exact absurd (hmem.mpr hplace) hany
  · rw [ClusterManager.places, List.map_append]
    rfl

/-- A role after an election. -/
theorem state_runElection (m : ClusterManager) : m.runElection.2.state =
    if m.peers = [] then .standalone
    else if (electCoordinator m.self m.peers).ip = m.self.ip then .coordinator else .worker := rfl

theorem runElection_fst {m : ClusterManager} (h : m.topologyCb = true) :
    m.runElection.1 = true ↔ m.runElection.2.state ≠ m.state := by
  rw [ClusterManager.runElection, h, Bool.and_true]
  exact decide_eq_true_iff

/-- What is known after a call that calls the callback. -/
theorem Sound.afterCall_true {w : TopologyWatch} {m : ClusterManager}
    (hcb : m.topologyCb = true) (hrole : m.state ≠ .discovering)
    (helected : m.state ≠ .standalone → w.elected ≠ none) : (w.afterCall m true).Sound := by
  refine ⟨hcb, hrole, helected, fun _ => Option.some_ne_none _, fun told htold => ?_,
    fun told htold => ?_⟩
  · obtain rfl := Option.some.inj htold
    exact List.Subset.refl _
  · obtain rfl := Option.some.inj htold
    exact iff_of_true rfl (List.Subset.refl _)

/-- What is known after a call that leaves the peer endpoints. -/
theorem Sound.afterCall_false {w : TopologyWatch} (h : w.Sound) {m : ClusterManager}
    (hcb : m.topologyCb = true) (hstate : m.state = w.manager.state)
    (hplaces : m.places = w.manager.places) : (w.afterCall m false).Sound := by
  refine ⟨hcb, ?_, ?_, ?_, ?_, ?_⟩
  · exact hstate ▸ h.role
  · exact hstate ▸ h.elected
  · exact hstate ▸ h.told
  · exact hplaces ▸ h.stays
  · exact hplaces ▸ h.grown

theorem Sound.expirePeers {w : TopologyWatch} (h : w.Sound) (timeoutSeconds now : ℤ) :
    (w.step (.call (.expirePeers timeoutSeconds now))).2.Sound := by
  have hcalled : (w.manager.expirePeers timeoutSeconds now).1 =
      w.manager.peers.any fun p => ClusterManager.Expired timeoutSeconds now p := by
    rw [ClusterManager.expirePeers, h.installed, Bool.and_true]
  rw [step]
  dsimp only
  cases hexpired : w.manager.peers.any fun p => ClusterManager.Expired timeoutSeconds now p with
  | true =>
    rw [hcalled, hexpired]
    exact Sound.afterCall_true h.installed h.role h.elected
  | false =>
    rw [hcalled, hexpired]
    refine h.afterCall_false h.installed rfl ?_
    rw [List.any_eq_false] at hexpired
    have hkeep : w.manager.peers.filter (fun p => ¬ ClusterManager.Expired timeoutSeconds now p) =
        w.manager.peers := by
      refine List.filter_eq_self.mpr fun p hp => ?_
      simpa using hexpired p hp
    exact congrArg (List.map PeerInfo.place) hkeep

theorem Sound.runElection {w : TopologyWatch} (h : w.Sound) :
    (w.step (.call .runElection)).2.Sound := by
  have hwatch : ∀ m called place, { w.afterCall m called with elected := some place } =
      ({ w with elected := some place } : TopologyWatch).afterCall m called := by
    intro m called place
    cases called <;> rfl
  have helected : ({ w with elected := some w.manager.runElection.2.coordinator.place } :
      TopologyWatch).Sound := { h with elected := fun _ => Option.some_ne_none _ }
  rw [step]
  dsimp only
  rw [hwatch]
  cases hcalled : w.manager.runElection.1 with
  | true =>
    refine Sound.afterCall_true h.installed ?_ fun _ => Option.some_ne_none _
    rw [state_runElection]
    split_ifs <;> exact nofun
  | false =>
    refine helected.afterCall_false h.installed ?_ rfl
    by_contra hstate
    rw [(runElection_fst h.installed).mpr hstate] at hcalled
    exact nomatch hcalled

theorem Sound.addPeer {w : TopologyWatch} (h : w.Sound) (peer : PeerInfo) (now : ℤ) :
    (w.step (.call (.addPeer peer now))).2.Sound := by
  have hplaces := places_addPeer w.manager peer now
  have hrest : (w.manager.addPeer peer now).topologyCb = w.manager.topologyCb ∧
      (w.manager.addPeer peer now).state = w.manager.state := by
    rw [ClusterManager.addPeer]
    split_ifs <;> exact ⟨rfl, rfl⟩
  obtain ⟨hcb, hstate⟩ := hrest
  refine ⟨hcb.trans h.installed, ?_, ?_, ?_, fun told htold => ?_, fun told htold => ?_⟩
  · exact hstate ▸ h.role
  · exact hstate ▸ h.elected
  · exact hstate ▸ h.told
  · have hstays := h.stays told htold
    show told ⊆ (w.manager.addPeer peer now).places
    rw [hplaces]
    split_ifs
    · exact hstays
    · exact List.subset_append_of_subset_left _ hstays
  · have hgrown := h.grown told htold
    show (w.grown || !w.manager.places.contains peer.place) = false ↔
      (w.manager.addPeer peer now).places ⊆ told
    rw [hplaces]
    split_ifs with hplace
    · simpa [hplace] using hgrown
    · refine iff_of_false (by simp [hplace]) fun hsub => hplace ?_
      exact h.stays told htold (hsub (List.mem_append_right _ (List.mem_singleton_self _)))

theorem Sound.step {w : TopologyWatch} (h : w.Sound) (e : TopologyEvent) : (w.step e).2.Sound := by
  cases e with
  | setSelfInfo self => exact { h with }
  | call e =>
    cases e with
    | addPeer peer now => exact h.addPeer peer now
    | expirePeers timeoutSeconds now => exact h.expirePeers timeoutSeconds now
    | runElection => exact h.runElection

/-! ### What elections announce -/

/-- As long as the role was told, the endpoints are others exactly when one was added. -/
theorem Sound.moved_iff {w : TopologyWatch} (h : w.Sound) (hstate : w.manager.state ≠ .standalone) :
    w.Moved ↔ w.grown = true := by
  obtain ⟨told, htold⟩ := Option.ne_none_iff_exists'.mp (h.told hstate)
  have hgrown := h.grown told htold
  have hstays := h.stays told htold
  rw [← Bool.not_eq_false, hgrown, Moved]
  constructor
  · rintro ⟨told', htold', hne⟩ hsub
    obtain rfl := Option.some.inj (htold.symm.trans htold')
    exact hne fun place => ⟨fun hp => hstays hp, fun hp => hsub hp⟩
  · exact fun hsub => ⟨told, htold, fun hall => hsub fun place hp => (hall place).mpr hp⟩

/-- An election that changes the role announces everything. -/
theorem Sound.announced_of_changed {w : TopologyWatch} (h : w.Sound)
    (hchanged : w.manager.runElection.2.state ≠ w.manager.state) :
    w.Announced (.call .runElection) := by
  have hcalled := (runElection_fst h.installed).mpr hchanged
  exact ⟨fun _ _ _ => hcalled, fun _ _ => hcalled⟩

/-- An election that leaves the role announces nothing. -/
theorem Sound.announced_iff_of_same {w : TopologyWatch} (h : w.Sound)
    (hsame : w.manager.runElection.2.state = w.manager.state) :
    w.Announced (.call .runElection) ↔
      (w.elected = none ∨
        w.elected = some (electCoordinator w.manager.self w.manager.peers).place) ∧
        (w.manager.state = .coordinator → ¬ w.Moved) := by
  have hcalled : ¬ w.manager.runElection.1 = true := fun hcalled =>
    (runElection_fst h.installed).mp hcalled hsame
  have hwinner : w.manager.runElection.2.coordinator =
      electCoordinator w.manager.self w.manager.peers := rfl
  rw [Announced, hsame, hwinner]
  refine and_congr ?_ (imp_congr_right fun _ => ⟨fun hmoved hm => hcalled (hmoved hm),
    fun hmoved hm => absurd hm hmoved⟩)
  cases w.elected with
  | none => exact iff_of_true nofun (.inl rfl)
  | some place =>
    constructor
    · intro hplace
      right
      by_contra hne
      exact hcalled (hplace place rfl fun heq => hne (congrArg some heq))
    · rintro (hnone | hsome) place' hplace' hne
      · exact nomatch hnone
      · exact absurd (Option.some.inj (hplace'.symm.trans hsome)) hne

/-- An election announces what has changed exactly when it is steady. -/
theorem Sound.announced_iff {w : TopologyWatch} (h : w.Sound) (e : TopologyEvent) :
    w.Announced e ↔ w.Steady e := by
  cases e with
  | setSelfInfo self => exact Iff.rfl
  | call e =>
    cases e with
    | addPeer peer now => exact Iff.rfl
    | expirePeers timeoutSeconds now => exact Iff.rfl
    | runElection =>
      have hchanged := h.announced_of_changed
      have hsame := h.announced_iff_of_same
      have hmoved := h.moved_iff
      have helected := h.elected
      have hrole := h.role
      rw [state_runElection] at hchanged hsame
      rw [Steady]
      generalize electCoordinator w.manager.self w.manager.peers = winner at hchanged hsame ⊢
      by_cases hpeers : w.manager.peers = []
      · rw [if_pos hpeers] at hchanged hsame
        cases hstate : w.manager.state with
        | discovering => exact absurd hstate hrole
        | standalone =>
          rw [hstate] at hsame
          rw [hsame rfl]
          simp [hpeers]
        | coordinator =>
          rw [hstate] at hchanged
          exact iff_of_true (hchanged nofun) (.inl hpeers)
        | worker =>
          rw [hstate] at hchanged
          exact iff_of_true (hchanged nofun) (.inl hpeers)
      · rw [if_neg hpeers] at hchanged hsame
        cases hstate : w.manager.state with
        | discovering => exact absurd hstate hrole
        | standalone =>
          rw [hstate] at hchanged
          refine iff_of_true (hchanged ?_) (.inl hpeers)
          split_ifs <;> exact nofun
        | coordinator =>
          rw [hstate] at hchanged hsame hmoved helected
          by_cases hip : winner.ip = w.manager.self.ip
          · rw [if_pos hip] at hsame
            rw [hsame rfl, hmoved nofun]
            have hne := helected nofun
            simp [hpeers, hip, hne]
          · rw [if_neg hip] at hchanged
            exact iff_of_true (hchanged nofun) (.inr (.inl hip))
        | worker =>
          rw [hstate] at hchanged hsame helected
          by_cases hip : winner.ip = w.manager.self.ip
          · rw [if_pos hip] at hchanged
            exact iff_of_true (hchanged nofun) (.inr (.inl hip))
          · rw [if_neg hip] at hsame
            rw [hsame rfl]
            have hne := helected nofun
            simp [hpeers, hip, hne]

/-- **Topology changes are announced** in all elections of a run exactly when all of them are
steady. -/
theorem announced_along_iff (es : List TopologyEvent) :
    Machine.Along step Announced {} es ↔ Machine.Along step Steady {} es :=
  Machine.Along.congr (I := Sound) (fun _ e h => h.step e) (fun _ e h => h.announced_iff e)
    Sound.start es

/-- A second peer joins a coordinator. -/
def secondPeer : List TopologyEvent :=
  [.setSelfInfo { ip := "10.0.0.1", ramMb := 65536, cpuCores := 16 },
    .call (.addPeer { ip := "10.0.0.2", ramMb := 8192, cpuCores := 4 } 0), .call .runElection,
    .call (.addPeer { ip := "10.0.0.3", ramMb := 8192, cpuCores := 4 } 0), .call .runElection]

/-- The server is not told of it. -/
theorem not_announced_along : ¬ ∀ es, Machine.Along step Announced {} es := by
  intro h
  obtain ⟨-, -, -, -, hlast, -⟩ := h secondPeer
  have hmoved := hlast.2 (by decide +kernel) ⟨[("10.0.0.2".toList, 50052)], by decide +kernel, ?_⟩
  · exact absurd hmoved (by decide +kernel)
  · intro hall
    have hthird := (hall ("10.0.0.3".toList, 50052)).mpr (by decide +kernel)
    exact absurd hthird (by decide)

end TopologyWatch

end Llamaste
