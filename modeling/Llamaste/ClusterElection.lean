import Mathlib
import Llamaste.Cluster
import Llamaste.Lib.RunningBest

/-!
# Election of a coordinator

Each node scans its own list of peers, starting with itself, and keeps the best score; the
smaller address wins a tie. The scan is a running best by score and address, so nodes that
know the same of each other elect the same one. Source: `cluster.cpp`, election.

## Main results

* `electCoordinator_eq_scan`: the election is a running best.
* `runElection_agrees`: nodes that know the same of each other agree.
-/

namespace Llamaste

/-- What the election goes by: the score, and for equal scores the smaller address. -/
def electionRank (p : PeerInfo) : ℤ ×ₗ Textᵒᵈ := toLex (electionScore p, OrderDual.toDual p.ip)

theorem electionRank_lt_iff {p q : PeerInfo} :
    electionRank p < electionRank q ↔
      electionScore q > electionScore p ∨ (electionScore q = electionScore p ∧ q.ip < p.ip) := by
  rw [electionRank, electionRank, Prod.Lex.toLex_lt_toLex]
  exact or_congr_right (and_congr_left fun _ => eq_comm)

/-- **The election is a running best.** -/
theorem electCoordinator_eq_scan (self : PeerInfo) (peers : List PeerInfo) :
    electCoordinator self peers = RunningBest.scan electionRank self peers := by
  rw [electCoordinator]
  induction peers generalizing self with
  | nil => rfl
  | cons p peers ih =>
      rw [List.foldl_cons, RunningBest.scan_cons, ← ih]
      have hround : electRound (self, electionScore self) p =
          if electionRank self < electionRank p then (p, electionScore p)
          else (self, electionScore self) := by
        simp only [electRound, electionRank_lt_iff]
      rw [hround]
      split_ifs <;> rfl

/-- What nodes must agree on about a node. -/
def PeerInfo.electionKey (p : PeerInfo) : Text × UInt32 × UInt32 := (p.ip, p.ramMb, p.cpuCores)

/-- The rank of a node depends on nothing else. -/
theorem electionRank_of_key {p q : PeerInfo} (h : p.electionKey = q.electionKey) :
    electionRank p = electionRank q := by
  obtain ⟨hip, hram, hcores⟩ : p.ip = q.ip ∧ p.ramMb = q.ramMb ∧ p.cpuCores = q.cpuCores := by
    simpa [PeerInfo.electionKey] using h
  simp only [electionRank, electionScore, hip, hram, hcores]

theorem ip_of_electionRank {p q : PeerInfo} (h : electionRank p = electionRank q) : p.ip = q.ip :=
  OrderDual.toDual.injective (Prod.mk.inj (toLex.injective h)).2

/-- At least two nodes with distinct addresses, of which each knows all others, with their
memory and cores, in an order of its own. -/
structure MutuallyKnown (nodes : List ClusterManager) : Prop where
  two : 2 ≤ nodes.length
  distinct : (nodes.map fun m => m.self.ip).Nodup
  known : ∀ m ∈ nodes,
    (m.nodes.map PeerInfo.electionKey).Perm (nodes.map fun m => m.self.electionKey)

section

variable {nodes : List ClusterManager} {m n : ClusterManager}

/-- All nodes elect a node of the same rank. -/
theorem MutuallyKnown.rank_eq (h : MutuallyKnown nodes) (hm : m ∈ nodes) (hn : n ∈ nodes) :
    electionRank (electCoordinator m.self m.peers) =
      electionRank (electCoordinator n.self n.peers) := by
  have hkeys : ∃ f : Text × UInt32 × UInt32 → ℤ ×ₗ Textᵒᵈ,
      ∀ p : PeerInfo, f p.electionKey = electionRank p :=
    ⟨fun k => electionRank { ip := k.1, ramMb := k.2.1, cpuCores := k.2.2 },
      fun p => electionRank_of_key rfl⟩
  obtain ⟨f, hf⟩ := hkeys
  have hranks : ∀ l : List PeerInfo, (l.map PeerInfo.electionKey).map f = l.map electionRank := by
    intro l
    rw [List.map_map]
    exact List.map_congr_left fun p _ => hf p
  have hperm := ((h.known m hm).trans (h.known n hn).symm).map f
  rw [hranks, hranks] at hperm
  rw [electCoordinator_eq_scan, electCoordinator_eq_scan]
  exact RunningBest.rank_scan_eq hperm

/-- A node elects one of the nodes. -/
theorem MutuallyKnown.exists_winner (h : MutuallyKnown nodes) (hm : m ∈ nodes) :
    ∃ winner ∈ nodes, (electCoordinator m.self m.peers).ip = winner.self.ip := by
  have hmem : electCoordinator m.self m.peers ∈ m.nodes := by
    rw [electCoordinator_eq_scan]
    exact RunningBest.scan_mem _ _
  have hkey := (h.known m hm).subset (List.mem_map_of_mem hmem)
  obtain ⟨winner, hwinner, hsame⟩ := List.mem_map.mp hkey
  exact ⟨winner, hwinner, congrArg Prod.fst hsame.symm⟩

/-- A node that knows others has peers. -/
theorem MutuallyKnown.peers_ne_nil (h : MutuallyKnown nodes) (hm : m ∈ nodes) : m.peers ≠ [] := by
  intro hnil
  have hlength := (h.known m hm).length_eq
  rw [List.length_map, List.length_map, ClusterManager.nodes, hnil] at hlength
  have htwo := h.two
  rw [← hlength] at htwo
  exact absurd htwo (by simp)

/-- A node knows no two nodes with the same address. -/
theorem MutuallyKnown.nodup_ips (h : MutuallyKnown nodes) (hm : m ∈ nodes) :
    (m.nodes.map PeerInfo.ip).Nodup := by
  have hips := (h.known m hm).map Prod.fst
  rw [List.map_map, List.map_map] at hips
  exact (hips.nodup_iff).mpr h.distinct

/-- The order of the peers does not matter. -/
theorem MutuallyKnown.elect_perm (h : MutuallyKnown nodes) (hm : m ∈ nodes)
    {peers : List PeerInfo} (hperm : peers.Perm m.peers) :
    electCoordinator m.self peers = electCoordinator m.self m.peers := by
  have hnodes : (m.self :: peers).Perm m.nodes := hperm.cons m.self
  have hrank : electionRank (electCoordinator m.self peers) =
      electionRank (electCoordinator m.self m.peers) := by
    rw [electCoordinator_eq_scan, electCoordinator_eq_scan]
    exact RunningBest.rank_scan_eq (hnodes.map electionRank)
  have hmem : electCoordinator m.self peers ∈ m.nodes := by
    rw [electCoordinator_eq_scan]
    exact hnodes.subset (RunningBest.scan_mem _ _)
  have hmem' : electCoordinator m.self m.peers ∈ m.nodes := by
    rw [electCoordinator_eq_scan]
    exact RunningBest.scan_mem _ _
  exact List.inj_on_of_nodup_map (h.nodup_ips hm) hmem hmem' (ip_of_electionRank hrank)

end

/-- **Nodes that know the same of each other agree.** All of them name the same
coordinator; that node alone takes its role, and all others are workers. The order in
which a node stores its peers does not change its choice. -/
theorem runElection_agrees {nodes : List ClusterManager} (h : MutuallyKnown nodes) :
    ∃ winner ∈ nodes, ∀ m ∈ nodes,
      m.runElection.2.coordinator.ip = winner.self.ip ∧
      m.runElection.2.state = (if m.self.ip = winner.self.ip then .coordinator else .worker) ∧
      (m.self.ip = winner.self.ip → m = winner) ∧
      ∀ peers : List PeerInfo, peers.Perm m.peers →
        ({ m with peers := peers } : ClusterManager).runElection.2.coordinator =
          m.runElection.2.coordinator := by
  obtain ⟨m₀, hm₀⟩ : ∃ m, m ∈ nodes :=
    List.exists_mem_of_length_pos (lt_of_lt_of_le (by decide) h.two)
  obtain ⟨winner, hwinner, hip⟩ := h.exists_winner hm₀
  refine ⟨winner, hwinner, fun m hm => ?_⟩
  have hcoordinator : (electCoordinator m.self m.peers).ip = winner.self.ip :=
    (ip_of_electionRank (h.rank_eq hm hm₀)).trans hip
  refine ⟨hcoordinator, ?_, fun hsame => ?_, fun peers hperm => h.elect_perm hm hperm⟩
  · simp only [ClusterManager.runElection, if_neg (h.peers_ne_nil hm), hcoordinator,
      eq_comm (a := winner.self.ip)]
  · exact List.inj_on_of_nodup_map h.distinct hm hwinner hsame

/-- Two nodes with the same score. -/
def twoNodes : List ClusterManager :=
  let a : PeerInfo := { ip := "10.0.0.1", ramMb := 8192, cpuCores := 4 }
  let b : PeerInfo := { ip := "10.0.0.2", ramMb := 8192, cpuCores := 4 }
  [{ self := a, peers := [b] }, { self := b, peers := [a] }]

theorem mutuallyKnown_twoNodes : MutuallyKnown twoNodes where
  two := le_rfl
  distinct := by decide
  known := by
    intro m hm
    rcases List.mem_pair.mp hm with rfl | rfl
    · exact List.Perm.refl _
    · exact List.Perm.swap _ _ _

theorem runElection_agrees_sample :
    ∃ winner ∈ twoNodes, ∀ m ∈ twoNodes,
      m.runElection.2.coordinator.ip = winner.self.ip ∧
      m.runElection.2.state = (if m.self.ip = winner.self.ip then .coordinator else .worker) ∧
      (m.self.ip = winner.self.ip → m = winner) ∧
      ∀ peers : List PeerInfo, peers.Perm m.peers →
        ({ m with peers := peers } : ClusterManager).runElection.2.coordinator =
          m.runElection.2.coordinator :=
  runElection_agrees mutuallyKnown_twoNodes

end Llamaste
