import Llamaste.CpuList
import Llamaste.Lib.CInt
import Llamaste.Lib.RunningBest

/-!
# The topology of the CPU

The numbers of threads of the inference server come from the processors of `/proc/cpuinfo`, the
lists of the CPUs of each type, and, where there are none, the highest frequencies of the CPUs. On a
CPU with cores of two types the server is pinned to the faster ones.

Source: `cpu_topology.h` (`detect_cpu_topology`).

## Main results

* `threadsFit_iff`: the machines whose numbers of threads fit the CPUs.
-/

namespace Llamaste

/-! ### `/proc/cpuinfo` -/

/-- What the loop over the lines keeps. -/
structure CpuinfoScan where
  logicalCores : ℕ := 0
  physicalIds : Finset Text := ∅
  curPhysId : Text := []
  curCoreId : Text := []
  sawAvx2 : Bool := false
  sawAvx512 : Bool := false
  sawAmx : Bool := false
  sawVnni : Bool := false

namespace CpuinfoScan

/-- The ids of the core before are kept, if it has both. -/
def flush (s : CpuinfoScan) : CpuinfoScan :=
  if s.curPhysId ≠ [] ∧ s.curCoreId ≠ [] then
    { s with physicalIds := insert (s.curPhysId ++ ':' :: s.curCoreId) s.physicalIds }
  else s

/-- A new processor. -/
def processor (s : CpuinfoScan) : CpuinfoScan :=
  { s.flush with logicalCores := s.logicalCores + 1, curPhysId := [], curCoreId := [] }

/-- The flags of a processor. -/
def flags (s : CpuinfoScan) (line : Text) : CpuinfoScan :=
  { s with
    sawAvx2 := s.sawAvx2 || decide ("avx2".toList <:+: line)
    sawAvx512 := s.sawAvx512 || decide ("avx512".toList <:+: line)
    sawAmx := s.sawAmx || decide ("amx_tile".toList <:+: line)
    sawVnni := s.sawVnni || decide ("avx_vnni".toList <:+: line) ||
      decide ("avx512_vnni".toList <:+: line) }

/-- `line.substr(colon + 2)`, if there is a colon. An exception is `none`. -/
def idOf (line cur : Text) : Option Text :=
  match line.dropWhile (· ≠ ':') with
  | [] => some cur
  | [_] => none
  | _ :: _ :: id => some id

/-- A line with a physical id. -/
def readPhysId (s : CpuinfoScan) (line : Text) : Option CpuinfoScan :=
  if "physical id".toList.isPrefixOf line then
    (idOf line s.curPhysId).map fun id => { s with curPhysId := id }
  else some s

/-- A line with a core id. -/
def readCoreId (s : CpuinfoScan) (line : Text) : Option CpuinfoScan :=
  if "core id".toList.isPrefixOf line then
    (idOf line s.curCoreId).map fun id => { s with curCoreId := id }
  else some s

/-- One line. -/
def scanLine (s : CpuinfoScan) (line : Text) : Option CpuinfoScan := do
  let s := if "processor".toList.isPrefixOf line then s.processor else s
  let s ← s.readPhysId line
  let s ← s.readCoreId line
  return if "flags".toList.isPrefixOf line ∨ "Features".toList.isPrefixOf line then s.flags line
    else s

/-- `topo.logical_cores`. -/
def logical (s : CpuinfoScan) : ℕ := if s.logicalCores = 0 then 1 else s.logicalCores

/-- `topo.physical_cores`. -/
def physical (s : CpuinfoScan) : ℕ :=
  if s.flush.physicalIds = ∅ then s.logical else s.flush.physicalIds.card

/-- `topo.cpu_features`. -/
def features (s : CpuinfoScan) : Text :=
  let feats : Text := (if s.sawAvx2 then "AVX2 ".toList else []) ++
    (if s.sawAvx512 then "AVX-512 ".toList else []) ++ (if s.sawVnni then "VNNI ".toList else []) ++
      (if s.sawAmx then "AMX ".toList else [])
  if feats = [] then "SSE4.2" else feats

end CpuinfoScan

/-- The loop over the lines. -/
def scanCpuinfo (cpuinfo : Text) : Option CpuinfoScan :=
  (Text.lines cpuinfo).foldlM CpuinfoScan.scanLine {}

/-! ### The types of the cores -/

/-- `read_sysfs_trim`. -/
def readSysfsTrim (file : Option Text) : Text :=
  ((file.getD []).takeWhile (· ≠ '\n')).rdropWhile fun c => c = '\n' || c = '\r' || c = ' '

/-- `cpu_freqs`, for the first CPUs. An exception is `none`. -/
def cpuFreqs (maxFreq : ℕ → Option Text) : ℕ → Option (List (ℕ × ℤ))
  | 0 => some []
  | i + 1 => do
    let freqs ← cpuFreqs maxFreq i
    let val := readSysfsTrim (maxFreq i)
    if val = [] then return freqs
    return freqs ++ [(i, ← Strto.stoi val)]

/-- `max_freq` and `min_freq`. -/
def freqBounds (freqs : List (ℕ × ℤ)) : ℤ × ℤ :=
  freqs.foldl (fun b cpu => (if cpu.2 > b.1 then cpu.2 else b.1,
    if cpu.2 < b.2 then cpu.2 else b.2)) (0, 2 ^ 31 - 1)

/-- The frequencies are of two kinds: `max_freq > min_freq * 1.2`, which on these integers is what
it is without rounding. -/
def Clustered (freqs : List (ℕ × ℤ)) : Prop :=
  2 ≤ freqs.length ∧ 0 < (freqBounds freqs).2 ∧ 6 * (freqBounds freqs).2 < 5 * (freqBounds freqs).1

instance (freqs : List (ℕ × ℤ)) : Decidable (Clustered freqs) :=
  inferInstanceAs (Decidable (_ ∧ _))

/-- `threshold`, where the sum wraps around. -/
def freqThreshold (freqs : List (ℕ × ℤ)) : ℤ :=
  (CInt.toInt32 ((freqBounds freqs).1 + (freqBounds freqs).2)).tdiv 2

/-- The ids of the CPUs with a frequency such as this. -/
def cpusWith (freqs : List (ℕ × ℤ)) (p : ℤ → Bool) : Finset ℤ :=
  ((freqs.filter fun cpu => p cpu.2).map fun cpu => (cpu.1 : ℤ)).toFinset

/-- The CPUs with fast cores and with slow ones. -/
structure CoreTypes where
  pCoreCpus : Finset ℤ
  eCoreCpus : Finset ℤ

/-- The files that are read. -/
structure CpuFiles where
  cpuinfo : Text
  pList : Option Text
  eList : Option Text
  maxFreq : ℕ → Option Text

/-- The lists of both types are there. -/
def CpuFiles.Typed (m : CpuFiles) : Prop :=
  readSysfsTrim m.pList ≠ [] ∧ readSysfsTrim m.eList ≠ []

instance (m : CpuFiles) : Decidable m.Typed := inferInstanceAs (Decidable (_ ∧ _))

/-- The types of the cores, if there are two. An exception is `none`. -/
def coreTypes (m : CpuFiles) (logical : ℕ) : Option (Option CoreTypes) :=
  if m.Typed then do
    let pCoreCpus ← parseCpulist (readSysfsTrim m.pList)
    let eCoreCpus ← parseCpulist (readSysfsTrim m.eList)
    return some { pCoreCpus, eCoreCpus }
  else if 1 < logical then
    (cpuFreqs m.maxFreq logical).map fun freqs =>
      if Clustered freqs then
        some { pCoreCpus := cpusWith freqs fun freq => decide (freqThreshold freqs ≤ freq)
               eCoreCpus := cpusWith freqs fun freq => decide (freq < freqThreshold freqs) }
      else none
  else some none

/-! ### Threads -/

/-- `CpuTopology`. -/
structure CpuTopology where
  logicalCores : ℤ
  physicalCores : ℤ
  isHybrid : Bool
  pCores : ℤ := 0
  eCores : ℤ := 0
  pThreads : ℤ := 0
  eThreads : ℤ := 0
  pCoreRange : Text := []
  cpuFeatures : Text
  recommendedThreads : ℤ
  recommendedBatchThreads : ℤ

/-- `p_physical_estimate`. -/
def pPhysicalEstimate (physical pThreads eThreads : ℤ) : ℤ :=
  let estimate := physical - eThreads
  let estimate := if estimate ≤ 0 then pThreads.tdiv 2 else estimate
  if estimate ≤ 0 then 1 else estimate

/-- The threads for the fast cores, or for all of them. -/
def recommend (scan : CpuinfoScan) (types : Option CoreTypes) : CpuTopology :=
  let atLeastOne (n : ℤ) : ℤ := if n < 1 then 1 else n
  let homogeneous (isHybrid : Bool) : CpuTopology :=
    { logicalCores := scan.logical, physicalCores := scan.physical, isHybrid
      cpuFeatures := scan.features, recommendedThreads := atLeastOne scan.physical
      recommendedBatchThreads := atLeastOne scan.logical }
  match types with
  | none => homogeneous false
  | some { pCoreCpus, eCoreCpus } =>
    if pCoreCpus = ∅ then homogeneous true
    else
      let pThreads : ℤ := pCoreCpus.card
      let eThreads : ℤ := eCoreCpus.card
      let pCores := pPhysicalEstimate scan.physical pThreads eThreads
      { logicalCores := scan.logical, physicalCores := scan.physical, isHybrid := true
        pCores, eCores := eThreads, pThreads, eThreads, pCoreRange := formatCpulist pCoreCpus
        cpuFeatures := scan.features, recommendedThreads := atLeastOne pCores
        recommendedBatchThreads := atLeastOne pThreads }

/-- `detect_cpu_topology`. An exception is `none`, and so is a loop that does not end. -/
def detectCpuTopology (m : CpuFiles) : Option CpuTopology := do
  let scan ← scanCpuinfo m.cpuinfo
  return recommend scan (← coreTypes m scan.logical)

/-! ### Threads that fit -/

/-- The threads are no more than the CPUs that they run on. -/
structure ThreadsFit (t : CpuTopology) : Prop where
  pos : 1 ≤ t.recommendedThreads
  batch : t.recommendedThreads ≤ t.recommendedBatchThreads
  logical : t.recommendedBatchThreads ≤ t.logicalCores
  pinned : t.pCoreRange ≠ [] → ∃ cpus, denotedCpus t.pCoreRange = some cpus ∧
    (cpus.card : ℤ) = t.recommendedBatchThreads

/-- The file starts with a processor, no line with an id ends in its colon, and the processors have
numbers. -/
structure WellFormedCpuinfo (cpuinfo : Text) : Prop where
  first : ∃ line rest, Text.lines cpuinfo = line :: rest ∧
    "processor".toList.isPrefixOf line = true
  ids : ∀ line ∈ Text.lines cpuinfo, ("physical id".toList.isPrefixOf line = true ∨
    "core id".toList.isPrefixOf line = true) → line.dropWhile (· ≠ ':') ≠ [':']
  count : (Text.lines cpuinfo).countP ("processor".toList.isPrefixOf ·) < 2 ^ 31

/-- The lists of the types can be read, and if there are fast cores in them, they are no more than
the processors, and all listed CPUs no fewer than the physical cores. -/
def TypesFit (m : CpuFiles) (logical physical : ℕ) : Prop :=
  ∃ pCoreCpus eCoreCpus, parseCpulist (readSysfsTrim m.pList) = some pCoreCpus ∧
    parseCpulist (readSysfsTrim m.eList) = some eCoreCpus ∧
      (pCoreCpus ≠ ∅ → physical ≤ pCoreCpus.card + eCoreCpus.card ∧ pCoreCpus.card ≤ logical)

/-- The frequencies can be read, and if they are of two kinds, those that are known are no fewer
than the physical cores. -/
def FreqsFit (m : CpuFiles) (logical physical : ℕ) : Prop :=
  ∃ freqs, cpuFreqs m.maxFreq logical = some freqs ∧ (Clustered freqs → physical ≤ freqs.length)

/-- What is known of the types of the cores covers the physical cores. -/
def CoresFit (m : CpuFiles) : Prop :=
  ∀ scan, scanCpuinfo m.cpuinfo = some scan →
    if m.Typed then TypesFit m scan.logical scan.physical
    else 1 < scan.logical → FreqsFit m scan.logical scan.physical

/-! ### The cores of `/proc/cpuinfo` -/

namespace CpuinfoScan

theorem card_flush_le (s : CpuinfoScan) :
    s.flush.physicalIds.card ≤ s.physicalIds.card + 1 := by
  rw [flush]
  split_ifs
  · exact Finset.card_insert_le _ _
  · exact Nat.le_succ _

/-- The counts are as they were. -/
def SameCounts (s s' : CpuinfoScan) : Prop :=
  s'.logicalCores = s.logicalCores ∧ s'.physicalIds = s.physicalIds

theorem exists_idOf {line : Text} (h : line.dropWhile (· ≠ ':') ≠ [':']) (cur : Text) :
    ∃ id, idOf line cur = some id := by
  have hcolon : ∀ c ∈ (line.dropWhile (· ≠ ':')).head?, c = ':' := fun c hc => by
    have hhead := List.head?_dropWhile_not (fun c => decide (c ≠ ':')) line
    rw [Option.mem_def.mp hc] at hhead
    exact not_not.mp (of_decide_eq_false hhead)
  rw [idOf]
  generalize line.dropWhile (· ≠ ':') = rest at h hcolon
  cases rest with
  | nil => exact ⟨cur, rfl⟩
  | cons c rest =>
      obtain rfl := hcolon c rfl
      cases rest with
      | nil => exact absurd rfl h
      | cons d id => exact ⟨id, rfl⟩

/-- A line that may hold an id is read, and counts nothing. -/
theorem exists_readId (s : CpuinfoScan) {line cur : Text} (holds : Prop) [Decidable holds]
    (h : holds → line.dropWhile (· ≠ ':') ≠ [':']) {set : Text → CpuinfoScan}
    (hset : ∀ id, s.SameCounts (set id)) :
    ∃ s', (if holds then (idOf line cur).map set else some s) = some s' ∧ s.SameCounts s' := by
  split_ifs with hid
  · obtain ⟨id, hsome⟩ := exists_idOf (h hid) cur
    exact ⟨set id, by rw [hsome, Option.map_some], hset id⟩
  · exact ⟨s, rfl, rfl, rfl⟩

/-- A line that is read: a processor is counted, with the ids of the one before. -/
theorem exists_scanLine (s : CpuinfoScan) {line : Text}
    (h : "physical id".toList.isPrefixOf line = true ∨ "core id".toList.isPrefixOf line = true →
      line.dropWhile (· ≠ ':') ≠ [':']) :
    ∃ s', scanLine s line = some s' ∧
      (if "processor".toList.isPrefixOf line then s.processor else s).SameCounts s' := by
  obtain ⟨s₁, hs₁, hlogical₁, hphysical₁⟩ :
      ∃ s', (if "processor".toList.isPrefixOf line then s.processor else s).readPhysId line =
        some s' ∧ (if "processor".toList.isPrefixOf line then s.processor else s).SameCounts s' :=
    exists_readId _ _ (fun hid => h (.inl hid)) fun _ => ⟨rfl, rfl⟩
  obtain ⟨s₂, hs₂, hlogical₂, hphysical₂⟩ : ∃ s', s₁.readCoreId line = some s' ∧ s₁.SameCounts s' :=
    exists_readId _ _ (fun hid => h (.inr hid)) fun _ => ⟨rfl, rfl⟩
  refine ⟨_, by rw [scanLine, hs₁, Option.bind_eq_bind, Option.bind_some, hs₂]; rfl, ?_⟩
  have hflags : s₂.SameCounts (if "flags".toList.isPrefixOf line ∨
      "Features".toList.isPrefixOf line then s₂.flags line else s₂) := by
    split_ifs <;> exact ⟨rfl, rfl⟩
  exact ⟨(hflags.1.trans hlogical₂).trans hlogical₁, (hflags.2.trans hphysical₂).trans hphysical₁⟩

/-- The cores with ids are fewer than the processors that have begun. -/
def Counted (s : CpuinfoScan) : Prop := s.physicalIds.card + 1 ≤ s.logicalCores

theorem Counted.processor {s : CpuinfoScan} (h : s.Counted) : s.processor.Counted :=
  Nat.succ_le_succ (s.card_flush_le.trans h)

theorem Counted.physical_le {s : CpuinfoScan} (h : s.Counted) :
    1 ≤ s.physical ∧ s.physical ≤ s.logical ∧ s.logical = s.logicalCores := by
  rw [Counted] at h
  have hlogical : s.logical = s.logicalCores := if_neg (by omega)
  have hflush := s.card_flush_le
  rw [physical, hlogical]
  split_ifs with hempty
  · exact ⟨by omega, le_rfl, rfl⟩
  · exact ⟨Finset.card_pos.mpr (Finset.nonempty_iff_ne_empty.mpr hempty), by omega, rfl⟩

theorem Counted.foldlM {s : CpuinfoScan} (h : s.Counted) {ls : List Text}
    (hids : ∀ line ∈ ls, ("physical id".toList.isPrefixOf line = true ∨
      "core id".toList.isPrefixOf line = true) → line.dropWhile (· ≠ ':') ≠ [':']) :
    ∃ s', ls.foldlM scanLine s = some s' ∧ s'.Counted ∧
      s'.logicalCores = s.logicalCores + ls.countP ("processor".toList.isPrefixOf ·) := by
  induction ls generalizing s with
  | nil => exact ⟨s, rfl, h, rfl⟩
  | cons line ls ih =>
      obtain ⟨hline, hls⟩ := List.forall_mem_cons.mp hids
      obtain ⟨next, hnext, hlogical, hphysical⟩ := s.exists_scanLine hline
      have hcounted : next.Counted := by
        rw [Counted, hlogical, hphysical]
        split_ifs
        · exact h.processor
        · exact h
      obtain ⟨s', hs', hcounted', hlogical'⟩ := ih hcounted hls
      refine ⟨s', ?_, hcounted', ?_⟩
      · rw [List.foldlM_cons, hnext, Option.bind_eq_bind, Option.bind_some, hs']
      · rw [hlogical', hlogical, List.countP_cons]
        split_ifs
        · exact Nat.add_right_comm s.logicalCores 1 _
        · rfl

end CpuinfoScan

/-- A well-formed file is read, and has no more cores than processors. -/
theorem WellFormedCpuinfo.exists_scan {cpuinfo : Text} (h : WellFormedCpuinfo cpuinfo) :
    ∃ scan, scanCpuinfo cpuinfo = some scan ∧ 1 ≤ scan.physical ∧ scan.physical ≤ scan.logical ∧
      scan.logical < 2 ^ 31 := by
  obtain ⟨line, rest, hlines, hprocessor⟩ := h.first
  have hids := h.ids
  have hcount := h.count
  rw [hlines] at hids hcount
  obtain ⟨hline, hrest⟩ := List.forall_mem_cons.mp hids
  obtain ⟨first, hfirst, hlogical, hphysical⟩ := ({} : CpuinfoScan).exists_scanLine hline
  rw [hprocessor] at hlogical hphysical
  have hcounted : first.Counted := by
    rw [CpuinfoScan.Counted, hlogical, hphysical]
    decide
  obtain ⟨scan, hscan, hscanned, htotal⟩ := hcounted.foldlM hrest
  obtain ⟨hpos, hle, heq⟩ := hscanned.physical_le
  refine ⟨scan, ?_, hpos, hle, ?_⟩
  · rw [scanCpuinfo, hlines, List.foldlM_cons, hfirst, Option.bind_eq_bind, Option.bind_some, hscan]
  · rw [List.countP_cons, if_pos hprocessor] at hcount
    rw [heq, htotal, hlogical]
    exact (Nat.add_comm 1 _).trans_lt hcount

/-! ### The frequencies -/

/-- The frequencies are those of different CPUs. -/
theorem cpuFreqs_spec {maxFreq : ℕ → Option Text} {n : ℕ} {freqs : List (ℕ × ℤ)}
    (h : cpuFreqs maxFreq n = some freqs) :
    (freqs.map Prod.fst).Nodup ∧ (∀ cpu ∈ freqs, cpu.1 < n) ∧ freqs.length ≤ n := by
  induction n generalizing freqs with
  | zero =>
      obtain rfl := Option.some.inj h
      exact ⟨List.nodup_nil, fun _ hcpu => (nomatch hcpu), le_rfl⟩
  | succ n ih =>
      rw [cpuFreqs, Option.bind_eq_bind, Option.bind_eq_some_iff] at h
      obtain ⟨before, hbefore, h⟩ := h
      obtain ⟨hnodup, hlt, hlength⟩ := ih hbefore
      dsimp only at h
      split_ifs at h
      · obtain rfl := Option.some.inj h
        exact ⟨hnodup, fun cpu hcpu => Nat.lt_succ_of_lt (hlt cpu hcpu), Nat.le_succ_of_le hlength⟩
      · rw [Option.bind_eq_bind, Option.bind_eq_some_iff] at h
        obtain ⟨freq, -, h⟩ := h
        obtain rfl := Option.some.inj h
        refine ⟨?_, ?_, ?_⟩
        · rw [List.map_append, List.map_singleton]
          rw [← List.concat_eq_append]
          refine hnodup.concat fun hmem => ?_
          obtain ⟨cpu, hcpu, heq⟩ := List.mem_map.mp hmem
          exact absurd (hlt cpu hcpu) (by omega)
        · intro cpu hcpu
          rcases List.mem_append.mp hcpu with hcpu | hcpu
          · exact Nat.lt_succ_of_lt (hlt cpu hcpu)
          · rw [List.mem_singleton.mp hcpu]
            exact Nat.lt_succ_self n
        · rw [List.length_append]
          exact Nat.succ_le_succ hlength

theorem mem_cpusWith {freqs : List (ℕ × ℤ)} {p : ℤ → Bool} {i : ℤ} :
    i ∈ cpusWith freqs p ↔ ∃ cpu ∈ freqs, p cpu.2 = true ∧ (cpu.1 : ℤ) = i := by
  rw [cpusWith, List.mem_toFinset, List.mem_map]
  simp only [List.mem_filter, and_assoc]

theorem card_cpusWith {freqs : List (ℕ × ℤ)} (h : (freqs.map Prod.fst).Nodup) (p : ℤ → Bool) :
    (cpusWith freqs p).card = freqs.countP fun cpu => p cpu.2 := by
  have hids : ((freqs.filter fun cpu => p cpu.2).map Prod.fst).Nodup :=
    h.sublist (List.filter_sublist.map Prod.fst)
  have hnodup := hids.map fun _ _ => Int.ofNat.inj
  rw [List.map_map] at hnodup
  rw [cpusWith, List.countP_eq_length_filter]
  exact (List.toFinset_card_of_nodup hnodup).trans (List.length_map _)

theorem fst_freqBounds (freqs : List (ℕ × ℤ)) :
    (freqBounds freqs).1 = RunningBest.scan id 0 (freqs.map Prod.snd) := by
  have hfold (b : ℤ × ℤ) : (freqs.foldl (fun b cpu => (if cpu.2 > b.1 then cpu.2 else b.1,
      if cpu.2 < b.2 then cpu.2 else b.2)) b).1 = RunningBest.scan id b.1 (freqs.map Prod.snd) := by
    induction freqs generalizing b with
    | nil => rfl
    | cons cpu freqs ih =>
        rw [List.foldl_cons, ih]
        rfl
  exact hfold (0, 2 ^ 31 - 1)

/-- The highest frequency is that of a CPU, unless it is zero. -/
theorem exists_freqBounds {freqs : List (ℕ × ℤ)} (h : 0 < (freqBounds freqs).1) :
    ∃ cpu ∈ freqs, cpu.2 = (freqBounds freqs).1 := by
  have hmem : RunningBest.scan id 0 (freqs.map Prod.snd) ∈ 0 :: freqs.map Prod.snd :=
    RunningBest.scan_mem 0 _
  rw [← fst_freqBounds] at hmem
  rcases List.mem_cons.mp hmem with hzero | hmem
  · exact absurd hzero h.ne'
  · exact List.mem_map.mp hmem

/-- The threshold is no higher than the highest frequency. -/
theorem freqThreshold_le {freqs : List (ℕ × ℤ)} (h : Clustered freqs) :
    freqThreshold freqs ≤ (freqBounds freqs).1 := by
  obtain ⟨-, hpos, hlt⟩ := h
  rw [freqThreshold, CInt.toInt32]
  generalize (freqBounds freqs).1 = mx at hlt ⊢
  generalize (freqBounds freqs).2 = mn at hpos hlt ⊢
  have hsign : Int.sign 2 = 1 := rfl
  rw [Int.tdiv_eq_ediv, hsign]
  split_ifs <;> omega

/-- Where the frequencies are of two kinds there are fast cores, and all cores are counted. -/
theorem clustered_spec {freqs : List (ℕ × ℤ)} (h : Clustered freqs)
    (hnodup : (freqs.map Prod.fst).Nodup) :
    cpusWith freqs (fun freq => decide (freqThreshold freqs ≤ freq)) ≠ ∅ ∧
      (cpusWith freqs fun freq => decide (freqThreshold freqs ≤ freq)).card +
        (cpusWith freqs fun freq => decide (freq < freqThreshold freqs)).card = freqs.length := by
  constructor
  · have hpos : 0 < (freqBounds freqs).1 := by
      obtain ⟨-, hmin, hlt⟩ := h
      omega
    obtain ⟨cpu, hcpu, hfreq⟩ := exists_freqBounds hpos
    have hle : freqThreshold freqs ≤ cpu.2 := hfreq ▸ freqThreshold_le h
    exact Finset.ne_empty_of_mem (mem_cpusWith.mpr ⟨cpu, hcpu, decide_eq_true hle, rfl⟩)
  · rw [card_cpusWith hnodup, card_cpusWith hnodup,
      List.length_eq_countP_add_countP fun cpu : ℕ × ℤ => decide (freqThreshold freqs ≤ cpu.2)]
    simp only [decide_eq_true_eq, not_le]

/-! ### What is recommended -/

theorem pPhysicalEstimate_pos (physical pThreads eThreads : ℤ) :
    1 ≤ pPhysicalEstimate physical pThreads eThreads := by
  simp only [pPhysicalEstimate]
  split_ifs <;> omega

/-- The estimate is within the fast CPUs exactly when all listed CPUs are no fewer than the physical
cores. -/
theorem pPhysicalEstimate_le_iff {physical pThreads eThreads : ℤ} (h : 1 ≤ pThreads) :
    pPhysicalEstimate physical pThreads eThreads ≤ pThreads ↔ physical ≤ pThreads + eThreads := by
  simp only [pPhysicalEstimate, Int.tdiv_eq_ediv_of_nonneg (zero_le_one.trans h)]
  split_ifs <;> omega

section

variable {scan : CpuinfoScan}

/-- On a CPU with cores of one type the threads always fit. -/
theorem threadsFit_homogeneous (hpos : 1 ≤ scan.physical) (hle : scan.physical ≤ scan.logical) :
    ThreadsFit (recommend scan none) := by
  have hphysical : ¬(scan.physical : ℤ) < 1 := by omega
  have hlogical : ¬(scan.logical : ℤ) < 1 := by omega
  refine ⟨?_, ?_, ?_, fun h => absurd rfl h⟩
  · simp only [recommend, if_neg hphysical]
    omega
  · simp only [recommend, if_neg hphysical, if_neg hlogical]
    omega
  · simp only [recommend, if_neg hlogical]
    exact le_rfl

theorem recommend_of_empty (eCoreCpus : Finset ℤ) :
    ThreadsFit (recommend scan (some ⟨∅, eCoreCpus⟩)) ↔ ThreadsFit (recommend scan none) :=
  ⟨fun h => ⟨h.pos, h.batch, h.logical, h.pinned⟩, fun h => ⟨h.pos, h.batch, h.logical, h.pinned⟩⟩

/-- On a CPU with fast cores the threads fit exactly when the fast CPUs are no more than the
processors, and all listed CPUs no fewer than the physical cores. -/
theorem threadsFit_hybrid_iff {pCoreCpus eCoreCpus : Finset ℤ} (hne : pCoreCpus ≠ ∅)
    (hcpus : ∀ i ∈ pCoreCpus, 0 ≤ i ∧ i < 2 ^ 31) :
    ThreadsFit (recommend scan (some ⟨pCoreCpus, eCoreCpus⟩)) ↔
      scan.physical ≤ pCoreCpus.card + eCoreCpus.card ∧ pCoreCpus.card ≤ scan.logical := by
  have hcard : 1 ≤ (pCoreCpus.card : ℤ) := by
    exact_mod_cast Finset.card_pos.mpr (Finset.nonempty_iff_ne_empty.mpr hne)
  have hestimate := pPhysicalEstimate_pos scan.physical pCoreCpus.card eCoreCpus.card
  have hthreads : (recommend scan (some ⟨pCoreCpus, eCoreCpus⟩)).recommendedThreads =
      pPhysicalEstimate scan.physical pCoreCpus.card eCoreCpus.card := by
    simp only [recommend, if_neg hne, if_neg (not_lt.mpr hestimate)]
  have hbatch : (recommend scan (some ⟨pCoreCpus, eCoreCpus⟩)).recommendedBatchThreads =
      pCoreCpus.card := by
    simp only [recommend, if_neg hne, if_neg (not_lt.mpr hcard)]
  have hlogical : (recommend scan (some ⟨pCoreCpus, eCoreCpus⟩)).logicalCores = scan.logical := by
    simp only [recommend, if_neg hne]
  have hrange : (recommend scan (some ⟨pCoreCpus, eCoreCpus⟩)).pCoreRange =
      formatCpulist pCoreCpus := by
    simp only [recommend, if_neg hne]
  constructor
  · intro h
    have hle := h.batch
    have hlog := h.logical
    rw [hthreads, hbatch, pPhysicalEstimate_le_iff hcard] at hle
    rw [hbatch, hlogical] at hlog
    exact ⟨by exact_mod_cast hle, by exact_mod_cast hlog⟩
  · rintro ⟨hle, hlog⟩
    refine ⟨?_, ?_, ?_, fun _ => ⟨pCoreCpus, ?_, hbatch.symm⟩⟩
    · rw [hthreads]
      exact hestimate
    · rw [hthreads, hbatch, pPhysicalEstimate_le_iff hcard]
      exact_mod_cast hle
    · rw [hbatch, hlogical]
      exact_mod_cast hlog
    · rw [hrange, denotedCpus]
      exact readCpulist_formatCpulist hcpus fun _ _ _ _ => rfl

/-- The lists of the types are read, and what they hold fits. -/
theorem typesFit_iff {m : CpuFiles} (htyped : m.Typed) (hpos : 1 ≤ scan.physical)
    (hle : scan.physical ≤ scan.logical) :
    (∃ types, coreTypes m scan.logical = some types ∧ ThreadsFit (recommend scan types)) ↔
      TypesFit m scan.logical scan.physical := by
  have hfit {pCoreCpus eCoreCpus : Finset ℤ}
      (hp : parseCpulist (readSysfsTrim m.pList) = some pCoreCpus) :
      ThreadsFit (recommend scan (some ⟨pCoreCpus, eCoreCpus⟩)) ↔ (pCoreCpus ≠ ∅ →
        scan.physical ≤ pCoreCpus.card + eCoreCpus.card ∧ pCoreCpus.card ≤ scan.logical) := by
    by_cases hempty : pCoreCpus = ∅
    · subst hempty
      exact iff_of_true ((recommend_of_empty eCoreCpus).mpr (threadsFit_homogeneous hpos hle))
        fun hne => absurd rfl hne
    · rw [threadsFit_hybrid_iff hempty (bounds_of_parseCpulist hp)]
      exact ⟨fun h _ => h, fun h => h hempty⟩
  have htypes (types : Option CoreTypes) : coreTypes m scan.logical = some types ↔
      ∃ pCoreCpus eCoreCpus, parseCpulist (readSysfsTrim m.pList) = some pCoreCpus ∧
        parseCpulist (readSysfsTrim m.eList) = some eCoreCpus ∧
          some ⟨pCoreCpus, eCoreCpus⟩ = types := by
    rw [coreTypes, if_pos htyped]
    simp only [Option.bind_eq_bind, Option.bind_eq_some_iff, Option.pure_def, Option.some.injEq]
    constructor
    · rintro ⟨pCoreCpus, hp, eCoreCpus, he, htypes⟩
      exact ⟨pCoreCpus, eCoreCpus, hp, he, htypes⟩
    · rintro ⟨pCoreCpus, eCoreCpus, hp, he, htypes⟩
      exact ⟨pCoreCpus, hp, eCoreCpus, he, htypes⟩
  constructor
  · rintro ⟨types, hcore, h⟩
    obtain ⟨pCoreCpus, eCoreCpus, hp, he, rfl⟩ := (htypes types).mp hcore
    exact ⟨pCoreCpus, eCoreCpus, hp, he, (hfit hp).mp h⟩
  · rintro ⟨pCoreCpus, eCoreCpus, hp, he, h⟩
    exact ⟨_, (htypes _).mpr ⟨pCoreCpus, eCoreCpus, hp, he, rfl⟩, (hfit hp).mpr h⟩

/-- The frequencies are read, and what they tell fits. -/
theorem freqsFit_iff {m : CpuFiles} (htyped : ¬m.Typed) (hlogical : 1 < scan.logical)
    (hpos : 1 ≤ scan.physical) (hle : scan.physical ≤ scan.logical)
    (hlt : scan.logical < 2 ^ 31) :
    (∃ types, coreTypes m scan.logical = some types ∧ ThreadsFit (recommend scan types)) ↔
      FreqsFit m scan.logical scan.physical := by
  have hfit {freqs : List (ℕ × ℤ)} (hfreqs : cpuFreqs m.maxFreq scan.logical = some freqs)
      (h : Clustered freqs) : ThreadsFit (recommend scan (some
        { pCoreCpus := cpusWith freqs fun freq => decide (freqThreshold freqs ≤ freq)
          eCoreCpus := cpusWith freqs fun freq => decide (freq < freqThreshold freqs) })) ↔
        scan.physical ≤ freqs.length := by
    obtain ⟨hnodup, hids, hlength⟩ := cpuFreqs_spec hfreqs
    obtain ⟨hne, hcard⟩ := clustered_spec h hnodup
    rw [threadsFit_hybrid_iff hne, hcard]
    · exact and_iff_left (((Nat.le_add_right _ _).trans hcard.le).trans hlength)
    · intro i hi
      obtain ⟨cpu, hcpu, -, rfl⟩ := mem_cpusWith.mp hi
      have := hids cpu hcpu
      omega
  rw [coreTypes, if_neg htyped, if_pos hlogical]
  simp only [Option.map_eq_some_iff]
  constructor
  · rintro ⟨types, ⟨freqs, hfreqs, htypes⟩, h⟩
    refine ⟨freqs, hfreqs, fun hclustered => ?_⟩
    rw [if_pos hclustered] at htypes
    rw [← htypes] at h
    exact (hfit hfreqs hclustered).mp h
  · rintro ⟨freqs, hfreqs, h⟩
    refine ⟨_, ⟨freqs, hfreqs, rfl⟩, ?_⟩
    by_cases hclustered : Clustered freqs
    · rw [if_pos hclustered]
      exact (hfit hfreqs hclustered).mpr (h hclustered)
    · rw [if_neg hclustered]
      exact threadsFit_homogeneous hpos hle

end

/-- **The numbers of threads fit the CPUs** exactly when the lists of the types, or the frequencies,
can be read and cover the physical cores, and no list has more fast CPUs than there are. -/
theorem threadsFit_iff {m : CpuFiles} (hcpuinfo : WellFormedCpuinfo m.cpuinfo) :
    (∃ t, detectCpuTopology m = some t ∧ ThreadsFit t) ↔ CoresFit m := by
  obtain ⟨scan, hscan, hpos, hle, hlt⟩ := hcpuinfo.exists_scan
  have hdetect : (∃ t, detectCpuTopology m = some t ∧ ThreadsFit t) ↔
      ∃ types, coreTypes m scan.logical = some types ∧ ThreadsFit (recommend scan types) := by
    have hmap : detectCpuTopology m = (coreTypes m scan.logical).map (recommend scan) := by
      rw [detectCpuTopology, hscan, Option.bind_eq_bind, Option.bind_some, Option.map_eq_bind]
      rfl
    rw [hmap]
    simp only [Option.map_eq_some_iff, exists_exists_and_eq_and]
  have hcores : CoresFit m ↔ if m.Typed then TypesFit m scan.logical scan.physical
      else 1 < scan.logical → FreqsFit m scan.logical scan.physical := by
    rw [CoresFit, hscan]
    simp only [Option.some.injEq, forall_eq']
  rw [hdetect, hcores]
  by_cases htyped : m.Typed
  · rw [if_pos htyped]
    exact typesFit_iff htyped hpos hle
  · rw [if_neg htyped]
    by_cases hlogical : 1 < scan.logical
    · rw [freqsFit_iff htyped hlogical hpos hle hlt]
      exact ⟨fun h _ => h, fun h => h hlogical⟩
    · have hnone : coreTypes m scan.logical = some none := by
        rw [coreTypes, if_neg htyped, if_neg hlogical]
      refine iff_of_true ⟨none, hnone, threadsFit_homogeneous hpos hle⟩ fun h => absurd h hlogical

/-- The records of processors with these cores. -/
def cpuinfoOf (cores : List ℕ) : Text :=
  (cores.zipIdx.flatMap fun core => "processor\t: ".toList ++ Text.ofNat core.2 ++
    "\nphysical id\t: 0\ncore id\t\t: ".toList ++ Text.ofNat core.1 ++ "\n\n".toList)

/-- Two processors of one fast core, and two slow cores. -/
def oneFastCore : CpuFiles where
  cpuinfo := cpuinfoOf [0, 0, 1, 2]
  pList := some "0-1\n".toList
  eList := some "2-3\n".toList
  maxFreq _ := none

theorem threadsFit_oneFastCore : ∃ t, detectCpuTopology oneFastCore = some t ∧ ThreadsFit t := by
  refine (threadsFit_iff ⟨⟨"processor\t: 0".toList, _, rfl, by decide⟩, by decide +kernel,
    by decide +kernel⟩).mpr fun scan hscan => ?_
  have hcounts : (scanCpuinfo oneFastCore.cpuinfo).map (fun s => (s.logical, s.physical)) =
      some (4, 3) := by decide +kernel
  rw [hscan, Option.map_some] at hcounts
  obtain ⟨hlogical, hphysical⟩ := Prod.mk.inj (Option.some.inj hcounts)
  rw [if_pos (by decide), hlogical, hphysical]
  exact ⟨{0, 1}, {2, 3}, by decide +kernel, by decide +kernel, fun _ => by decide⟩

/-- Four cores, of which the frequencies of two are known. -/
def halfKnown : CpuFiles where
  cpuinfo := cpuinfoOf [0, 1, 2, 3]
  pList := none
  eList := none
  maxFreq i := match i with
    | 0 => some "5000000\n".toList
    | 1 => some "3000000\n".toList
    | _ => none

/-- Three threads are pinned to one CPU. -/
theorem not_threadsFit : ¬∀ m : CpuFiles, WellFormedCpuinfo m.cpuinfo →
    ∃ t, detectCpuTopology m = some t ∧ ThreadsFit t := fun h => by
  obtain ⟨t, ht, hfit⟩ := h halfKnown ⟨⟨"processor\t: 0".toList, _, rfl, by decide⟩,
    by decide +kernel, by decide +kernel⟩
  have hthreads : (detectCpuTopology halfKnown).map
      (fun t => (t.recommendedThreads, t.recommendedBatchThreads)) = some (3, 1) := by
    decide +kernel
  rw [ht, Option.map_some] at hthreads
  obtain ⟨hrecommended, hbatch⟩ := Prod.mk.inj (Option.some.inj hthreads)
  have hle := hfit.batch
  rw [hrecommended, hbatch] at hle
  exact absurd hle (by decide)

end Llamaste
