import Llamaste.Cluster
import Llamaste.Lib.Selection
import Llamaste.Lib.Strto
import Llamaste.Mdns

/-!
# Peer intake

Discovered services become peers by what their TXT records say. The same loop stands at
start-up and in the heartbeat; it reads numbers with a conversion that throws, and the
exception ends the child at start-up and the heartbeat thread later. Source:
`child_main.cpp`, peer discovery and cluster heartbeat.

## Main results

* `readPeer_eq`, `readPeer_eq_none`: what the records of a service are read as.
* `intakeRight_iff`: when both loops add the peers that are advertised.
-/

namespace Llamaste

/-! ### The loops -/

/-- The key and value of a TXT record, if it has a `=`. -/
def txtRecord (t : Text) : Option (Text × Text) :=
  if '=' ∈ t then some (t.takeWhile (· ≠ '='), (t.dropWhile (· ≠ '=')).drop 1) else none

/-- One TXT record, on the peer and its cluster so far; nothing if the conversion of a
number throws. -/
def readRecord (acc : PeerInfo × Text) (t : Text) : Option (PeerInfo × Text) :=
  match txtRecord t with
  | none => some acc
  | some (key, val) =>
      if key = "ram" then
        (Strto.stoul val).map fun n => ({ acc.1 with ramMb := UInt32.ofNat n }, acc.2)
      else if key = "cores" then
        (Strto.stoul val).map fun n => ({ acc.1 with cpuCores := UInt32.ofNat n }, acc.2)
      else if key = "model" then some ({ acc.1 with model := val }, acc.2)
      else if key = "cluster" then some (acc.1, val)
      else some acc

/-- The peer that a service is read as, and its cluster. -/
def readPeer (d : DiscoveredService) : Option (PeerInfo × Text) :=
  d.txt.foldlM readRecord ({ hostname := d.hostname, ip := d.ip, rpcPort := d.port }, [])

/-- `is_local_ip`, for the addresses of the interfaces. -/
def isLocalIp (locals : List Text) (ip : Text) : Bool := decide (ip ≠ []) && decide (ip ∈ locals)

/-- The loop over the discovered services, with the peers added so far; an exception leaves
it with these. -/
def intakeLoop (selfIp : Text) (locals : List Text) (clusterId : Text) (added : List PeerInfo) :
    List DiscoveredService → Except (List PeerInfo) (List PeerInfo)
  | [] => .ok added
  | d :: ds =>
      if d.ip = selfIp ∨ isLocalIp locals d.ip = true then
        intakeLoop selfIp locals clusterId added ds
      else
        match readPeer d with
        | none => .error added
        | some (peer, peerCluster) =>
            if peer.ramMb = 0 then intakeLoop selfIp locals clusterId added ds
            else if peerCluster ≠ clusterId then intakeLoop selfIp locals clusterId added ds
            else intakeLoop selfIp locals clusterId (added ++ [peer]) ds

/-- The peers that are added at start-up, where the node has just found its address. -/
def startupIntake (selfIp : Text) (locals : List Text) (clusterId : Text)
    (discovered : List DiscoveredService) : Except (List PeerInfo) (List PeerInfo) :=
  intakeLoop selfIp locals clusterId [] discovered

/-- The peers that a heartbeat adds, where the cluster manager knows the address. -/
def heartbeatIntake (m : ClusterManager) (locals : List Text) (clusterId : Text)
    (discovered : List DiscoveredService) : Except (List PeerInfo) (List PeerInfo) :=
  intakeLoop m.self.ip locals clusterId [] discovered

/-! ### What is advertised -/

/-- The value of a record with a key. -/
def recordValue (key t : Text) : Option Text :=
  (txtRecord t).bind fun kv => if kv.1 = key then some kv.2 else none

/-- The value that is advertised under a key: that of the last record. -/
def advertised (key : Text) (txt : List Text) : Option Text :=
  (txt.filterMap (recordValue key)).getLast?

/-- A decimal number below `2 ^ 32`. -/
def decimal32 (v : Text) : Option UInt32 :=
  if v ≠ [] ∧ v.all Char.isDigit = true ∧ Nat.ofDigitChars 10 v 0 < 2 ^ 32 then
    some (UInt32.ofNat (Nat.ofDigitChars 10 v 0))
  else none

/-- The peer that a service advertises to a cluster: it has memory, cores if it says so,
and the cluster's id. -/
def expectedPeer (clusterId : Text) (d : DiscoveredService) : Option PeerInfo := do
  let ram ← (advertised "ram" d.txt).bind decimal32
  let cores ← (advertised "cores" d.txt).elim (some 0) decimal32
  if ram ≠ 0 ∧ (advertised "cluster" d.txt).getD [] = clusterId then
    some { hostname := d.hostname, ip := d.ip, rpcPort := d.port, ramMb := ram, cpuCores := cores,
           model := (advertised "model" d.txt).getD [] }
  else none

/-- A service with an address of another node. -/
def DiscoveredService.Remote (selfIp : Text) (locals : List Text) (d : DiscoveredService) : Prop :=
  ¬ (d.ip = selfIp ∨ isLocalIp locals d.ip = true)

instance (selfIp : Text) (locals : List Text) (d : DiscoveredService) :
    Decidable (d.Remote selfIp locals) := inferInstanceAs (Decidable (¬ _))

/-- The peers that both loops should add. -/
def expectedPeers (selfIp : Text) (locals : List Text) (clusterId : Text)
    (discovered : List DiscoveredService) : List PeerInfo :=
  discovered.filterMap fun d =>
    if d.Remote selfIp locals then expectedPeer clusterId d else none

/-! ### Reading a service -/

theorem advertised_append (key : Text) (txt : List Text) (t : Text) :
    advertised key (txt ++ [t]) = (recordValue key t).or (advertised key txt) := by
  cases h : recordValue key t with
  | none => simp [advertised, h]
  | some v => simp [advertised, h]

/-- A record whose number can be converted, if it is one that holds a number. -/
def Convertible (t : Text) : Prop :=
  (∀ v ∈ recordValue "ram" t, (Strto.stoul v).isSome = true) ∧
    ∀ v ∈ recordValue "cores" t, (Strto.stoul v).isSome = true

/-- The number that a value is converted to, or 0 if there is none. -/
def converted (v : Option Text) : UInt32 := ((v.bind Strto.stoul).map UInt32.ofNat).getD 0

theorem recordValue_eq {key k val t : Text} (ht : txtRecord t = some (k, val)) :
    recordValue key t = if k = key then some val else none := by
  rw [recordValue, ht, Option.bind_some]

/-- Without a `=`, a record has no value. -/
theorem recordValue_of_none {key t : Text} (ht : txtRecord t = none) :
    recordValue key t = none := by
  rw [recordValue, ht, Option.bind_none]

/-- The keys are told apart. -/
theorem keys_ne : ("ram".toList ≠ "cores".toList) ∧ ("ram".toList ≠ "model".toList) ∧
    ("ram".toList ≠ "cluster".toList) ∧ ("cores".toList ≠ "model".toList) ∧
    ("cores".toList ≠ "cluster".toList) ∧ ("model".toList ≠ "cluster".toList) := by
  decide

/-- A record that cannot be converted stops the reading. -/
theorem readRecord_of_not_convertible {acc : PeerInfo × Text} {t : Text} (h : ¬ Convertible t) :
    readRecord acc t = none := by
  obtain ⟨hrc, -⟩ := keys_ne
  cases ht : txtRecord t with
  | none =>
      refine absurd ⟨?_, ?_⟩ h <;> rw [recordValue_of_none ht] <;> exact fun _ hv => nomatch hv
  | some kv =>
      obtain ⟨key, val⟩ := kv
      rw [Convertible, recordValue_eq ht, recordValue_eq ht] at h
      simp only [readRecord, ht]
      by_cases hram : key = "ram".toList
      · subst hram
        rw [if_pos rfl, if_neg hrc] at h
        rw [if_pos rfl]
        simpa using h
      · by_cases hcores : key = "cores".toList
        · subst hcores
          rw [if_neg hrc.symm, if_pos rfl] at h
          rw [if_neg hram, if_pos rfl]
          simpa using h
        · rw [if_neg hram, if_neg hcores] at h
          simp at h

/-- A record that can be converted sets what it is a record of. -/
theorem readRecord_of_convertible {acc : PeerInfo × Text} {t : Text} (h : Convertible t) :
    readRecord acc t = some ({ acc.1 with
      ramMb := (recordValue "ram" t).elim acc.1.ramMb fun v => converted (some v)
      cpuCores := (recordValue "cores" t).elim acc.1.cpuCores fun v => converted (some v)
      model := (recordValue "model" t).getD acc.1.model },
      (recordValue "cluster" t).getD acc.2) := by
  obtain ⟨hrc, hrm, hrk, hcm, hck, hmk⟩ := keys_ne
  obtain ⟨hram, hcores⟩ := h
  cases ht : txtRecord t with
  | none => simp only [readRecord, ht, recordValue_of_none ht, Option.elim_none, Option.getD_none]
  | some kv =>
      obtain ⟨key, val⟩ := kv
      rw [recordValue_eq ht] at hram hcores
      simp only [readRecord, ht, recordValue_eq ht]
      by_cases h₁ : key = "ram".toList
      · subst h₁
        obtain ⟨n, hn⟩ := Option.isSome_iff_exists.mp (hram val (if_pos rfl))
        simp only [if_true, if_neg hrc, if_neg hrm, if_neg hrk, hn, Option.map_some,
          Option.elim_some, Option.elim_none, Option.getD_none, converted, Option.bind_some,
          Option.getD_some]
      · by_cases h₂ : key = "cores".toList
        · subst h₂
          obtain ⟨n, hn⟩ := Option.isSome_iff_exists.mp (hcores val (if_pos rfl))
          simp only [if_true, if_neg hrc.symm, if_neg hcm, if_neg hck, hn, Option.map_some,
            Option.elim_some, Option.elim_none, Option.getD_none, converted, Option.bind_some,
            Option.getD_some]
        · simp only [if_neg h₁, if_neg h₂, Option.elim_none]
          by_cases h₃ : key = "model".toList
          · subst h₃
            simp only [if_true, if_neg hmk, Option.getD_some, Option.getD_none]
          · by_cases h₄ : key = "cluster".toList
            · simp only [if_neg h₃, if_pos h₄, Option.getD_none, Option.getD_some]
            · simp only [if_neg h₃, if_neg h₄, Option.getD_none]

/-- The peer that a service is read as. -/
def DiscoveredService.asPeer (d : DiscoveredService) : PeerInfo :=
  { hostname := d.hostname, ip := d.ip, rpcPort := d.port,
    ramMb := converted (advertised "ram" d.txt)
    cpuCores := converted (advertised "cores" d.txt)
    model := (advertised "model" d.txt).getD [] }

/-- **What the records of a service are read as**, if all numbers can be converted. -/
theorem readPeer_eq {d : DiscoveredService} (h : ∀ t ∈ d.txt, Convertible t) :
    readPeer d = some (d.asPeer, (advertised "cluster" d.txt).getD []) := by
  rw [readPeer, DiscoveredService.asPeer]
  generalize d.txt = txt at h
  induction txt using List.reverseRecOn with
  | nil => rfl
  | append_singleton txt t ih =>
      have hconverted : ∀ u v : Option Text,
          converted (u.or v) = u.elim (converted v) fun w => converted (some w) := by
        intro u v
        cases u <;> rfl
      have hgetD : ∀ u v : Option Text, (u.or v).getD [] = u.getD (v.getD []) := by
        intro u v
        cases u <;> rfl
      rw [List.foldlM_append, ih fun u hu => h u (List.mem_append_left _ hu)]
      simp only [Option.bind_eq_bind, Option.bind_some, List.foldlM_cons, List.foldlM_nil,
        readRecord_of_convertible (h t (by simp)), Option.pure_def, advertised_append,
        hconverted, hgetD]

/-- One record that cannot be converted stops the reading of its service. -/
theorem readPeer_eq_none {d : DiscoveredService} (h : ¬ ∀ t ∈ d.txt, Convertible t) :
    readPeer d = none := by
  rw [readPeer]
  generalize (({ hostname := d.hostname, ip := d.ip, rpcPort := d.port } : PeerInfo), ([] : Text)) =
    acc
  generalize d.txt = txt at h
  induction txt generalizing acc with
  | nil => exact absurd (by simp) h
  | cons t txt ih =>
      rw [List.foldlM_cons]
      by_cases ht : Convertible t
      · rw [readRecord_of_convertible ht, Option.bind_eq_bind, Option.bind_some]
        refine ih _ fun hall => h fun u hu => ?_
        rcases List.mem_cons.mp hu with rfl | hu
        · exact ht
        · exact hall u hu
      · rw [readRecord_of_not_convertible ht]
        rfl

/-! ### The peers that are added -/

/-- The peer that a service becomes if its numbers can be converted. -/
def acceptedPeer (clusterId : Text) (d : DiscoveredService) : Option PeerInfo :=
  if converted (advertised "ram" d.txt) ≠ 0 ∧ (advertised "cluster" d.txt).getD [] = clusterId then
    some d.asPeer
  else none

section

variable {selfIp clusterId : Text} {locals : List Text} {ds : List DiscoveredService}

/-- A loop over services whose numbers can be converted adds those it accepts. -/
theorem intakeLoop_ok (h : ∀ d ∈ ds, d.Remote selfIp locals → ∀ t ∈ d.txt, Convertible t)
    (added : List PeerInfo) :
    intakeLoop selfIp locals clusterId added ds = .ok (added ++ ds.filterMap fun d =>
      if d.Remote selfIp locals then acceptedPeer clusterId d else none) := by
  induction ds generalizing added with
  | nil => simp [intakeLoop]
  | cons d ds ih =>
      have hrest := ih fun e he => h e (List.mem_cons_of_mem d he)
      by_cases hd : d.Remote selfIp locals
      · rw [intakeLoop, if_neg hd, readPeer_eq (h d List.mem_cons_self hd)]
        by_cases hram : converted (advertised "ram" d.txt) = 0
        · have hnone : acceptedPeer clusterId d = none := if_neg fun hc => hc.1 hram
          have hram' : d.asPeer.ramMb = 0 := hram
          simp only [if_pos hram', hrest, List.filterMap_cons, if_pos hd, hnone]
        · by_cases hcluster : (advertised "cluster" d.txt).getD [] = clusterId
          · have hsome : acceptedPeer clusterId d = some d.asPeer := if_pos ⟨hram, hcluster⟩
            have hram' : ¬ d.asPeer.ramMb = 0 := hram
            simp only [if_neg hram', ne_eq, hcluster, not_true_eq_false, if_false, hrest,
              List.filterMap_cons, if_pos hd, hsome, List.append_assoc, List.singleton_append]
          · have hnone : acceptedPeer clusterId d = none := if_neg fun hc => hcluster hc.2
            have hram' : ¬ d.asPeer.ramMb = 0 := hram
            simp only [if_neg hram', ne_eq, hcluster, not_false_eq_true, if_true, hrest,
              List.filterMap_cons, if_pos hd, hnone]
      · have hd' : d.ip = selfIp ∨ isLocalIp locals d.ip = true := not_not.mp hd
        rw [intakeLoop, if_pos hd', hrest]
        simp only [List.filterMap_cons, if_neg hd]

/-- One service with a number that cannot be converted ends the loop with an exception. -/
theorem intakeLoop_error (clusterId : Text)
    (h : ¬ ∀ d ∈ ds, d.Remote selfIp locals → ∀ t ∈ d.txt, Convertible t)
    (added : List PeerInfo) :
    ∃ added', intakeLoop selfIp locals clusterId added ds = .error added' := by
  induction ds generalizing added with
  | nil => exact absurd (by simp) h
  | cons d ds ih =>
      by_cases hd : d.Remote selfIp locals
      · by_cases ht : ∀ t ∈ d.txt, Convertible t
        · have hrest := ih fun hall => h fun e he hr => by
            rcases List.mem_cons.mp he with rfl | he
            · exact ht
            · exact hall e he hr
          rw [intakeLoop, if_neg hd, readPeer_eq ht]
          dsimp only
          split_ifs
          · exact hrest added
          · exact hrest added
          · exact hrest _
        · exact ⟨added, by rw [intakeLoop, if_neg hd, readPeer_eq_none ht]⟩
      · have hrest := ih fun hall => h fun e he hr => by
          rcases List.mem_cons.mp he with rfl | he
          · exact absurd hr hd
          · exact hall e he hr
        rw [intakeLoop, if_pos (not_not.mp hd)]
        exact hrest added

end

/-- A plain number is converted to itself. -/
theorem converted_of_decimal32 {v : Text} {n : UInt32} (h : decimal32 v = some n) :
    converted (some v) = n := by
  rw [decimal32] at h
  split_ifs at h with hv
  obtain ⟨hne, hdigits, hlt⟩ := hv
  rw [converted, Option.bind_some,
    Strto.stoul_of_digits hne (List.all_eq_true.mp hdigits) (by omega)]
  exact Option.some.inj h

/-- A service that does not mislead the intake: its numbers can be converted, and where it
would be accepted, they are plain decimals below `2 ^ 32`. -/
def DiscoveredService.Harmless (clusterId : Text) (d : DiscoveredService) : Prop :=
  (∀ t ∈ d.txt, Convertible t) ∧
    ((advertised "cluster" d.txt).getD [] = clusterId → converted (advertised "ram" d.txt) ≠ 0 →
      (∀ v ∈ advertised "ram" d.txt, (decimal32 v).isSome = true) ∧
        ∀ v ∈ advertised "cores" d.txt, (decimal32 v).isSome = true)

/-- What is expected is accepted. -/
theorem acceptedPeer_of_expected {clusterId : Text} {d : DiscoveredService} {p : PeerInfo}
    (h : expectedPeer clusterId d = some p) : acceptedPeer clusterId d = some p := by
  simp only [expectedPeer, Option.bind_eq_bind, Option.bind_eq_some_iff] at h
  obtain ⟨ram, ⟨v, hv, hram⟩, cores, hcores, h⟩ := h
  have hram' : converted (advertised "ram" d.txt) = ram := by
    rw [hv]
    exact converted_of_decimal32 hram
  have hcores' : converted (advertised "cores" d.txt) = cores := by
    cases hc : advertised "cores" d.txt with
    | none =>
        rw [hc] at hcores
        exact Option.some.inj hcores
    | some c =>
        rw [hc] at hcores
        exact converted_of_decimal32 hcores
  split_ifs at h with hif
  obtain rfl := Option.some.inj h
  rw [acceptedPeer, DiscoveredService.asPeer, hram', hcores']
  exact if_pos hif

/-- A service is accepted as it is expected exactly when its numbers are plain where it is
accepted. -/
theorem acceptedPeer_eq_expected_iff {clusterId : Text} {d : DiscoveredService} :
    acceptedPeer clusterId d = expectedPeer clusterId d ↔
      ((advertised "cluster" d.txt).getD [] = clusterId → converted (advertised "ram" d.txt) ≠ 0 →
        (∀ v ∈ advertised "ram" d.txt, (decimal32 v).isSome = true) ∧
          ∀ v ∈ advertised "cores" d.txt, (decimal32 v).isSome = true) := by
  constructor
  · intro h hcluster hram
    have haccepted : acceptedPeer clusterId d = some d.asPeer := if_pos ⟨hram, hcluster⟩
    have hexpected := h.symm.trans haccepted
    simp only [expectedPeer, Option.bind_eq_bind, Option.bind_eq_some_iff] at hexpected
    obtain ⟨ram, ⟨v, hv, hdecimal⟩, cores, hcores, -⟩ := hexpected
    constructor
    · intro w hw
      obtain rfl := Option.some.inj (hv.symm.trans hw)
      exact Option.isSome_of_eq_some hdecimal
    · intro c hc
      rw [Option.mem_def.mp hc] at hcores
      exact Option.isSome_of_eq_some hcores
  · intro h
    cases hexpected : expectedPeer clusterId d with
    | some p => exact acceptedPeer_of_expected hexpected
    | none =>
        refine if_neg fun ⟨hram, hcluster⟩ => ?_
        obtain ⟨hplain, hplain'⟩ := h hcluster hram
        obtain ⟨v, hv⟩ : ∃ v, advertised "ram" d.txt = some v := by
          cases hv : advertised "ram" d.txt with
          | none => exact absurd (by rw [hv]; rfl) hram
          | some v => exact ⟨v, rfl⟩
        obtain ⟨ram, hdecimal⟩ := Option.isSome_iff_exists.mp (hplain v hv)
        obtain ⟨cores, hcores⟩ : ∃ cores, (advertised "cores" d.txt).elim (some 0) decimal32 =
            some cores := by
          cases hc : advertised "cores" d.txt with
          | none => exact ⟨0, rfl⟩
          | some c => exact Option.isSome_iff_exists.mp (hplain' c hc)
        have hne : ram ≠ 0 := by
          rw [hv, converted_of_decimal32 hdecimal] at hram
          exact hram
        simp only [expectedPeer, hv, Option.bind_some, hdecimal, hcores, Option.bind_eq_bind,
          if_pos (⟨hne, hcluster⟩ : ram ≠ 0 ∧ _)] at hexpected
        exact nomatch hexpected

/-- Both loops end without an exception, and add the peers that are advertised, in order. -/
def IntakeRight (m : ClusterManager) (locals : List Text) (clusterId : Text)
    (discovered : List DiscoveredService) : Prop :=
  startupIntake m.self.ip locals clusterId discovered =
      .ok (expectedPeers m.self.ip locals clusterId discovered) ∧
    heartbeatIntake m locals clusterId discovered =
      .ok (expectedPeers m.self.ip locals clusterId discovered)

/-- **Both loops add the peers that are advertised** exactly when no service of another
node misleads the intake. -/
theorem intakeRight_iff (m : ClusterManager) (locals : List Text) (clusterId : Text)
    (discovered : List DiscoveredService) :
    IntakeRight m locals clusterId discovered ↔
      ∀ d ∈ discovered, d.Remote m.self.ip locals → d.Harmless clusterId := by
  have hsame : IntakeRight m locals clusterId discovered ↔
      intakeLoop m.self.ip locals clusterId [] discovered =
        .ok (expectedPeers m.self.ip locals clusterId discovered) := and_self_iff
  rw [hsame]
  by_cases hconvertible : ∀ d ∈ discovered, d.Remote m.self.ip locals → ∀ t ∈ d.txt, Convertible t
  · rw [intakeLoop_ok hconvertible, List.nil_append, Except.ok.injEq, expectedPeers,
      Selection.filterMap_eq_iff]
    · refine forall₂_congr fun d hd => ?_
      by_cases hremote : d.Remote m.self.ip locals
      · rw [if_pos hremote, if_pos hremote, acceptedPeer_eq_expected_iff]
        exact ⟨fun h _ => ⟨hconvertible d hd hremote, h⟩, fun h => (h hremote).2⟩
      · rw [if_neg hremote, if_neg hremote]
        exact iff_of_true rfl fun h => absurd h hremote
    · intro d _ p hp
      split_ifs at hp ⊢
      exact acceptedPeer_of_expected hp
  · obtain ⟨added, hadded⟩ := intakeLoop_error clusterId hconvertible []
    rw [hadded]
    refine iff_of_false (fun h => nomatch h) fun h => hconvertible fun d hd hremote => ?_
    exact (h d hd hremote).1

/-- A service whose memory is not a number. -/
def brokenService : DiscoveredService := { ip := "10.0.0.7", txt := ["ram=?"] }

/-- It ends both loops with an exception. -/
theorem not_intakeRight :
    ¬ ∀ (m : ClusterManager) (locals : List Text) (clusterId : Text)
      (discovered : List DiscoveredService), IntakeRight m locals clusterId discovered := by
  intro h
  have hright := (h {} [] "default" [brokenService]).1
  have herror : startupIntake [] [] "default" [brokenService] = .error [] := rfl
  exact nomatch herror.symm.trans hright

end Llamaste
