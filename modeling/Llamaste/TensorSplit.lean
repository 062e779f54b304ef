import Llamaste.Cluster

/-!
# Tensor split and endpoints

The topology callback asks the cluster manager for the endpoints of the nodes and then for
their tensor split, under the lock each time, and passes both to the server. Between the
two calls other threads may add or expire peers. Source: `cluster.cpp`,
`rpc_endpoint_list` and `compute_tensor_split`; `child_main.cpp`, topology callback.

## Main results

* `ratio_pos`, `ratio_mono`: ratios are positive and follow the memory of the nodes.
* `splitMatches_iff`: when the split matches the endpoints.
* `endpoints_run`: what leaves the endpoints as they are.
-/

namespace Llamaste

namespace ClusterManager

/-! ### Ratios -/

theorem ratio_pos (m : ClusterManager) (p : PeerInfo) : 0 < m.ratio p := by
  rw [ratio]
  split_ifs with h
  · exact Nat.one_pos
  · exact Nat.pos_of_ne_zero h

theorem usable_mono {p q : PeerInfo} (h : p.ramMb ≤ q.ramMb) : p.usable ≤ q.usable := by
  have hram : p.ramMb.toNat ≤ q.ramMb.toNat := UInt32.le_iff_toNat_le.mp h
  simp only [PeerInfo.usable]
  split_ifs <;> omega

/-- A node with more memory gets no smaller ratio. -/
theorem ratio_mono (m : ClusterManager) {p q : PeerInfo} (h : p.ramMb ≤ q.ramMb) :
    m.ratio p ≤ m.ratio q := by
  have hdiv : p.usable / m.minUsable ≤ q.usable / m.minUsable :=
    Nat.div_le_div_right (usable_mono h)
  simp only [ratio]
  split_ifs <;> omega

/-! ### The two arguments -/

theorem comma_notMem_ofNat (n : ℕ) : ',' ∉ Text.ofNat n := by
  intro h
  exact absurd (Text.isDigit_toDigits _ h) (by decide)

theorem comma_notMem_endpoint {p : PeerInfo} (h : ',' ∉ p.ip) : ',' ∉ p.endpoint := by
  simp only [PeerInfo.endpoint, List.mem_append, not_or]
  exact ⟨⟨h, by decide⟩, comma_notMem_ofNat _⟩

/-- The endpoints between the commas of the first argument. -/
theorem splitOn_rpcEndpointList {m : ClusterManager} (h : ∀ p ∈ m.nodes, ',' ∉ p.ip) :
    m.rpcEndpointList.splitOn ',' = m.nodes.map PeerInfo.endpoint := by
  refine List.splitOn_intercalate ',' (fun l hl => ?_) (by simp [nodes])
  obtain ⟨p, hp, rfl⟩ := List.mem_map.mp hl
  exact comma_notMem_endpoint (h p hp)

/-- The ratios between the commas of the second. -/
theorem splitOn_computeTensorSplit {m : ClusterManager} (h : m.peers ≠ []) :
    m.computeTensorSplit.splitOn ',' = m.nodes.map fun p => Text.ofNat (m.ratio p) := by
  rw [computeTensorSplit, if_neg h]
  refine List.splitOn_intercalate ',' (fun l hl => ?_) (by simp [nodes])
  obtain ⟨p, -, rfl⟩ := List.mem_map.mp hl
  exact comma_notMem_ofNat _

/-- There is a split exactly when there are peers. -/
theorem computeTensorSplit_ne_nil_iff {m : ClusterManager} :
    m.computeTensorSplit ≠ [] ↔ m.peers ≠ [] := by
  constructor
  · rintro h hnil
    exact h (by rw [computeTensorSplit, if_pos hnil])
  · intro h hnil
    have hsplit := splitOn_computeTensorSplit h
    have hmem : Text.ofNat (m.ratio m.self) ∈ m.computeTensorSplit.splitOn ',' := by
      rw [hsplit, nodes, List.map_cons]
      exact List.mem_cons_self
    rw [hnil] at hmem
    exact Text.ofNat_ne_nil (List.mem_singleton.mp hmem)

end ClusterManager

/-- A tensor split that was computed in a state, unless it is empty, matches a list of
endpoints: there are as many ratios as endpoints, each ratio is computed from the memory
of the node whose endpoint has its place, all are positive, and more memory gives no
smaller one. -/
structure SplitMatches (rpc split : Text) (m : ClusterManager) : Prop where
  count : (split.splitOn ',').length = (rpc.splitOn ',').length
  node : ∀ (i : ℕ) (p : PeerInfo), m.nodes[i]? = some p →
    (split.splitOn ',')[i]? = some (Text.ofNat (m.ratio p)) ∧
      (rpc.splitOn ',')[i]? = some p.endpoint
  positive : ∀ p ∈ m.nodes, 0 < m.ratio p
  monotone : ∀ p ∈ m.nodes, ∀ q ∈ m.nodes, p.ramMb ≤ q.ramMb → m.ratio p ≤ m.ratio q

/-- A split that is computed in one state matches the endpoints of another exactly when the
nodes have the same endpoints, in the same order. -/
theorem splitMatches_of_plain {m m' : ClusterManager} (hm : ∀ p ∈ m.nodes, ',' ∉ p.ip) :
    (m'.computeTensorSplit ≠ [] →
        SplitMatches m.rpcEndpointList m'.computeTensorSplit m') ↔
      (m'.peers ≠ [] → m.nodes.map PeerInfo.endpoint = m'.nodes.map PeerInfo.endpoint) := by
  rw [ClusterManager.computeTensorSplit_ne_nil_iff]
  refine forall_congr' fun hpeers => ?_
  have hrpc := ClusterManager.splitOn_rpcEndpointList hm
  have hsplit := ClusterManager.splitOn_computeTensorSplit hpeers
  constructor
  · intro h
    have hcount := h.count
    rw [hrpc, hsplit, List.length_map, List.length_map] at hcount
    refine List.ext_getElem? fun i => ?_
    cases hp : m'.nodes[i]? with
    | none =>
        have hlength : m'.nodes.length ≤ i := List.getElem?_eq_none_iff.mp hp
        rw [List.getElem?_eq_none (by rw [List.length_map]; omega),
          List.getElem?_eq_none (by rw [List.length_map]; omega)]
    | some p =>
        have hnode := (h.node i p hp).2
        rw [hrpc] at hnode
        rw [hnode, List.getElem?_map, hp, Option.map_some]
  · intro h
    refine ⟨?_, fun i p hp => ⟨?_, ?_⟩, fun p _ => m'.ratio_pos p, fun p _ q _ => m'.ratio_mono⟩
    · rw [hrpc, hsplit, h, List.length_map, List.length_map]
    · rw [hsplit, List.getElem?_map, hp, Option.map_some]
    · rw [hrpc, h, List.getElem?_map, hp, Option.map_some]

/-! ### Between the two calls -/

/-- A call that adds no endpoint and removes none. -/
def ClusterEvent.KeepsEndpoints (m : ClusterManager) : ClusterEvent → Prop
  | .addPeer peer _ => ∃ p ∈ m.peers, p.ip = peer.ip ∧ p.rpcPort = peer.rpcPort
  | .expirePeers timeoutSeconds now =>
      ∀ p ∈ m.peers, ¬ ClusterManager.Expired timeoutSeconds now p
  | .runElection => True

theorem endpoints_replaceF {peer : PeerInfo} (seen : ℤ) (peers : List PeerInfo) :
    (peers.replaceF fun p => if p.ip = peer.ip ∧ p.rpcPort = peer.rpcPort then
        some { peer with lastSeen := seen } else none).map PeerInfo.endpoint =
      peers.map PeerInfo.endpoint := by
  induction peers with
  | nil => rfl
  | cons p peers ih =>
      by_cases hp : p.ip = peer.ip ∧ p.rpcPort = peer.rpcPort
      · simp [hp, PeerInfo.endpoint]
      · simp only [List.replaceF_cons, if_neg hp, List.map_cons, ih]

theorem endpoints_step {m : ClusterManager} {e : ClusterEvent} (h : e.KeepsEndpoints m) :
    (clusterStep m e).2.nodes.map PeerInfo.endpoint = m.nodes.map PeerInfo.endpoint := by
  cases e with
  | addPeer peer now =>
      have hany : (m.peers.any fun p => p.ip = peer.ip ∧ p.rpcPort = peer.rpcPort) = true := by
        obtain ⟨p, hp, hsame⟩ := h
        exact List.any_eq_true.mpr ⟨p, hp, decide_eq_true hsame⟩
      simp only [clusterStep, ClusterManager.addPeer, hany, if_true, ClusterManager.nodes,
        List.map_cons, endpoints_replaceF]
  | expirePeers timeoutSeconds now =>
      have hall : (m.peers.filter fun p =>
          ¬ ClusterManager.Expired timeoutSeconds now p) = m.peers :=
        List.filter_eq_self.mpr fun p hp => decide_eq_true (h p hp)
      simp only [clusterStep, ClusterManager.expirePeers, ClusterManager.nodes, hall]
  | runElection => rfl

/-- **Calls that add no endpoint and remove none leave the endpoints as they are**, so the
split matches them. -/
theorem endpoints_run {m : ClusterManager} {es : List ClusterEvent}
    (h : Machine.Along clusterStep (fun m e => e.KeepsEndpoints m) m es) :
    (Machine.final clusterStep m es).nodes.map PeerInfo.endpoint =
      m.nodes.map PeerInfo.endpoint := by
  induction es generalizing m with
  | nil => rfl
  | cons e es ih => exact (ih h.2).trans (endpoints_step h.1)

/-- **The split matches the endpoints** in a run exactly when there are no peers left at
the second call, or the endpoints are those of the first. -/
theorem splitMatches_iff {m : ClusterManager} (hm : ∀ p ∈ m.nodes, ',' ∉ p.ip)
    (es : List ClusterEvent) :
    ((Machine.final clusterStep m es).computeTensorSplit ≠ [] →
        SplitMatches m.rpcEndpointList (Machine.final clusterStep m es).computeTensorSplit
          (Machine.final clusterStep m es)) ↔
      ((Machine.final clusterStep m es).peers ≠ [] →
        m.nodes.map PeerInfo.endpoint =
          (Machine.final clusterStep m es).nodes.map PeerInfo.endpoint) :=
  splitMatches_of_plain hm

/-- A node with one peer. -/
def nodeWithPeer : ClusterManager :=
  { self := { ip := "10.0.0.1", ramMb := 16384 }
    peers := [{ ip := "10.0.0.2", ramMb := 8192 }] }

theorem splitMatches_iff_sample :
    ((Machine.final clusterStep nodeWithPeer [.runElection]).computeTensorSplit ≠ [] →
        SplitMatches nodeWithPeer.rpcEndpointList
          (Machine.final clusterStep nodeWithPeer [.runElection]).computeTensorSplit
          (Machine.final clusterStep nodeWithPeer [.runElection])) ↔
      ((Machine.final clusterStep nodeWithPeer [.runElection]).peers ≠ [] →
        nodeWithPeer.nodes.map PeerInfo.endpoint =
          (Machine.final clusterStep nodeWithPeer [.runElection]).nodes.map PeerInfo.endpoint) :=
  splitMatches_iff (by decide) _

/-- Another peer that is added between the two calls gets a ratio, but no endpoint. -/
theorem not_splitMatches :
    ¬ ∀ (m : ClusterManager) (es : List ClusterEvent), (∀ p ∈ m.nodes, ',' ∉ p.ip) →
      (Machine.final clusterStep m es).computeTensorSplit ≠ [] →
        SplitMatches m.rpcEndpointList (Machine.final clusterStep m es).computeTensorSplit
          (Machine.final clusterStep m es) := by
  intro h
  have hplain : ∀ p ∈ nodeWithPeer.nodes, ',' ∉ p.ip := by decide
  have hmatches := h nodeWithPeer [.addPeer { ip := "10.0.0.3", ramMb := 8192 } 0] hplain
  have hsame := (splitMatches_of_plain hplain).mp hmatches (by decide)
  exact absurd (congrArg List.length hsame) (by decide)

end Llamaste
