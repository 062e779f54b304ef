import Llamaste.Lib.CInt
import Llamaste.Lib.Machine
import Llamaste.Lib.Text

/-!
# The cluster manager

A node knows itself and its peers, elects a coordinator among them, and splits a model over
them. Peers are added and expire; the functions below are each run under the manager's
lock. Source: `cluster.cpp`.
-/

namespace Llamaste

/-- `PeerInfo`; `lastSeen` is a reading of the steady clock, in nanoseconds. -/
structure PeerInfo where
  hostname : Text := []
  ip : Text := []
  rpcPort : UInt16 := 50052
  ramMb : UInt32 := 0
  cpuCores : UInt32 := 0
  model : Text := []
  lastSeen : ℤ := 0
  deriving DecidableEq, Repr

/-- `ClusterState`. -/
inductive ClusterState
  | standalone
  | discovering
  | coordinator
  | worker
  deriving DecidableEq, Repr

/-- A `ClusterManager`; the callback itself belongs to its caller, and here it is installed
or not. -/
structure ClusterManager where
  self : PeerInfo := {}
  peers : List PeerInfo := []
  state : ClusterState := .standalone
  coordinator : PeerInfo := {}
  topologyCb : Bool := false

/-! ### Election -/

/-- `election_score`, in 32-bit arithmetic. -/
def electionScore (p : PeerInfo) : ℤ :=
  CInt.toInt32 (CInt.toInt32 (CInt.toInt32 (p.ramMb / 1024).toNat * 10) +
    CInt.toInt32 p.cpuCores.toNat)

/-- One round of the loop of `elect_coordinator`, on the best peer and its score. -/
def electRound (best : PeerInfo × ℤ) (p : PeerInfo) : PeerInfo × ℤ :=
  let s := electionScore p
  if s > best.2 ∨ (s = best.2 ∧ p.ip < best.1.ip) then (p, s) else best

/-- `elect_coordinator`. -/
def electCoordinator (self : PeerInfo) (peers : List PeerInfo) : PeerInfo :=
  (peers.foldl electRound (self, electionScore self)).1

namespace ClusterManager

/-- `add_peer`: a peer with the same address and port is replaced. -/
def addPeer (peer : PeerInfo) (now : ℤ) (m : ClusterManager) : ClusterManager :=
  let seen := { peer with lastSeen := now }
  if m.peers.any fun p => p.ip = peer.ip ∧ p.rpcPort = peer.rpcPort then
    { m with peers := m.peers.replaceF fun p =>
        if p.ip = peer.ip ∧ p.rpcPort = peer.rpcPort then some seen else none }
  else { m with peers := m.peers ++ [seen] }

/-- A peer that `expire_peers` removes: its age in whole seconds has reached the timeout. -/
def Expired (timeoutSeconds now : ℤ) (p : PeerInfo) : Prop :=
  timeoutSeconds ≤ Int.tdiv (now - p.lastSeen) 1000000000

instance (timeoutSeconds now : ℤ) (p : PeerInfo) : Decidable (Expired timeoutSeconds now p) :=
  inferInstanceAs (Decidable (_ ≤ _))

/-- `expire_peers`, with whether the callback is called. -/
def expirePeers (timeoutSeconds now : ℤ) (m : ClusterManager) : Bool × ClusterManager :=
  (m.peers.any (fun p => Expired timeoutSeconds now p) && m.topologyCb,
   { m with peers := m.peers.filter fun p => ¬ Expired timeoutSeconds now p })

/-- `run_election`, with whether the callback is called. -/
def runElection (m : ClusterManager) : Bool × ClusterManager :=
  let winner := electCoordinator m.self m.peers
  let state :=
    if m.peers = [] then ClusterState.standalone
    else if winner.ip = m.self.ip then .coordinator
    else .worker
  (decide (state ≠ m.state) && m.topologyCb, { m with coordinator := winner, state := state })

/-! ### Endpoints and tensor split -/

/-- The node itself, then its peers. -/
def nodes (m : ClusterManager) : List PeerInfo := m.self :: m.peers

end ClusterManager

/-- An endpoint `ip:port`. -/
def PeerInfo.endpoint (p : PeerInfo) : Text := p.ip ++ ":" ++ Text.ofNat p.rpcPort.toNat

/-- The memory of a node that a model may use: 70 percent, less 300 MB. -/
def PeerInfo.usable (p : PeerInfo) : ℕ :=
  if p.ramMb.toNat * 7 / 10 > 300 then p.ramMb.toNat * 7 / 10 - 300 else 0

namespace ClusterManager

/-- `rpc_endpoint_list`. -/
def rpcEndpointList (m : ClusterManager) : Text :=
  List.intercalate [','] (m.nodes.map PeerInfo.endpoint)

/-- The smallest usable memory of the nodes, or 1 if that is nothing. -/
def minUsable (m : ClusterManager) : ℕ :=
  let least := m.peers.foldl (fun least p => min least p.usable) m.self.usable
  if least = 0 then 1 else least

/-- The ratio of a node. -/
def ratio (m : ClusterManager) (p : PeerInfo) : ℕ :=
  if p.usable / m.minUsable = 0 then 1 else p.usable / m.minUsable

/-- `compute_tensor_split`. -/
def computeTensorSplit (m : ClusterManager) : Text :=
  if m.peers = [] then []
  else List.intercalate [','] (m.nodes.map fun p => Text.ofNat (m.ratio p))

end ClusterManager

/-- What other threads do to the manager. -/
inductive ClusterEvent
  | addPeer (peer : PeerInfo) (now : ℤ)
  | expirePeers (timeoutSeconds now : ℤ)
  | runElection

/-- One call, with whether the callback is called. -/
def clusterStep (m : ClusterManager) : ClusterEvent → Bool × ClusterManager
  | .addPeer peer now => (false, m.addPeer peer now)
  | .expirePeers timeoutSeconds now => m.expirePeers timeoutSeconds now
  | .runElection => m.runElection

end Llamaste
