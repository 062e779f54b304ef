import Llamaste.Cluster
import Llamaste.Lib.LastMatch
import Llamaste.ModelFiles

/-!
# Model tiers

The built-in tiers, the models that a directory holds, the model that the cluster chooses, and what
it reports about its capacity. Source: `cluster.cpp`.
-/

namespace Llamaste

/-- `ModelTier`. -/
structure ModelTier where
  name : Text
  ggufFile : Text
  sizeMb : UInt32
  minRamMb : UInt32
  layers : UInt32
  deriving DecidableEq

/-- `g_model_tiers`. -/
def modelTiers : List ModelTier :=
  [⟨"qwen2.5-0.5b-instruct", "qwen2.5-0.5b-instruct-q4_k_m.gguf", 400, 1024, 24⟩,
    ⟨"qwen2.5-1.5b-instruct", "qwen2.5-1.5b-instruct-q4_k_m.gguf", 1100, 2048, 28⟩,
    ⟨"qwen2.5-3b-instruct", "qwen2.5-3b-instruct-q4_k_m.gguf", 2000, 3072, 36⟩,
    ⟨"qwen2.5-7b-instruct", "qwen2.5-7b-instruct-q4_k_m-00001-of-00002.gguf", 4400, 6144, 32⟩,
    ⟨"qwen2.5-14b-instruct", "qwen2.5-14b-instruct-q4_k_m-00001-of-00003.gguf", 8500, 12288, 40⟩,
    ⟨"qwen2.5-32b-instruct", "qwen2.5-32b-instruct-q4_k_m-00001-of-00005.gguf", 19000, 24576, 64⟩,
    ⟨"qwen2.5-72b-instruct", "qwen2.5-72b-instruct-q4_k_m-00001-of-00009.gguf", 42000, 52224, 80⟩]

/-- The files of a tier: its shards, or its only file. -/
def ModelTier.files (t : ModelTier) : List Text :=
  match parseShardFilename t.ggufFile with
  | none => [t.ggufFile]
  | some s =>
    if s.totalShards = 0 then [t.ggufFile]
    else (List.range s.totalShards.toNat).map fun i =>
      buildShardFilename s.base (i + 1) s.totalShards

/-! ### A model directory -/

/-- `d_type`. -/
inductive DirentType
  | reg
  | unknown
  | other
  deriving DecidableEq

/-- An entry of a directory; `stSize` is what a successful `stat` finds. -/
structure DirEntry where
  name : Text
  type : DirentType := .reg
  stSize : Option ℕ
  deriving DecidableEq

namespace DirEntry

/-- The size in whole MB, as a `uint32_t`. -/
def sizeMb (e : DirEntry) : UInt32 := UInt32.ofNat (e.stSize.getD 0 / (1024 * 1024))

/-- The entry holds data: it may be a regular file, and `stat` finds a size. -/
def HoldsData (e : DirEntry) : Prop := e.type ≠ .other ∧ 0 < e.stSize.getD 0

instance (e : DirEntry) : Decidable e.HoldsData := inferInstanceAs (Decidable (_ ∧ _))

/-- The model that `available_models` takes an entry for: a tier by its file name, else the user's
own for any other name in `.gguf`. -/
def model (e : DirEntry) : Option ModelTier :=
  if e.HoldsData then
    match modelTiers.find? fun t => e.name = t.ggufFile with
    | some tier => some { tier with sizeMb := e.sizeMb }
    | none =>
      if e.name.length > 5 ∧ e.name.drop (e.name.length - 5) = ".gguf" then
        some { name := e.name.take (e.name.length - 5), ggufFile := e.name, sizeMb := e.sizeMb
               minRamMb := e.sizeMb + 512, layers := 32 }
      else none
  else none

end DirEntry

/-- A directory, in the order of `readdir`. One that cannot be opened is as one without entries. -/
structure ModelDir where
  entries : List DirEntry
  distinct : (entries.map DirEntry.name).Nodup

namespace ModelDir

/-- What `available_models` finds, before it is sorted. -/
def models (dir : ModelDir) : List ModelTier := dir.entries.filterMap DirEntry.model

/-- The file of a tier is there, with data. -/
def Holds (dir : ModelDir) (t : ModelTier) : Prop :=
  ∃ e ∈ dir.entries, e.name = t.ggufFile ∧ e.HoldsData

/-- All models are complete downloads of tiers. -/
structure Complete (dir : ModelDir) : Prop where
  ours : ∀ e ∈ dir.entries, (".gguf" : Text) <:+ e.name → ∃ t ∈ modelTiers, e.name ∈ t.files
  data : ∀ e ∈ dir.entries, (".gguf" : Text) <:+ e.name → e.HoldsData
  whole : ∀ t ∈ modelTiers, (∃ e ∈ dir.entries, e.name ∈ t.files) →
    ∀ file ∈ t.files, ∃ e ∈ dir.entries, e.name = file

end ModelDir

/-- `std::sort` by size. -/
abbrev SizeSort := KeySort fun t : ModelTier => t.sizeMb.toNat

/-- `available_models`. -/
def availableModels (s : SizeSort) (dir : ModelDir) : List ModelTier := s.sort dir.models

/-! ### The cluster's choice -/

/-- `ClusterCapacity`. -/
structure ClusterCapacity where
  totalRamMb : UInt32
  usableRamMb : UInt32
  totalCores : UInt32
  nodeCount : ℕ
  recommendedModel : Text
  recommendedGguf : Text
  tensorSplit : Text
  upgradeAvailable : Bool

/-- `(uint32_t)(mb * 0.70)`, with the factor taken exactly. -/
def seventyPercent (mb : UInt32) : UInt32 := UInt32.ofNat (mb.toNat * 7 / 10)

/-- A model that fits into memory. -/
def ModelTier.Fits (usable : UInt32) (t : ModelTier) : Prop := t.minRamMb ≤ usable

instance (usable : UInt32) (t : ModelTier) : Decidable (t.Fits usable) :=
  inferInstanceAs (Decidable (_ ≤ _))

namespace ClusterManager

/-- The usable memory that `select_model` computes, `share` being how the factor 0.70 is
rounded. -/
def usableRamMb (share : UInt32 → UInt32) (m : ClusterManager) : UInt32 :=
  m.peers.foldl (fun usable p => usable + share p.ramMb) (share m.self.ramMb)

/-- The memory of all nodes. -/
def totalRamMb (m : ClusterManager) : UInt32 :=
  m.peers.foldl (fun total p => total + p.ramMb) m.self.ramMb

/-- `select_model`; `none` is the tier without a name. -/
def selectModel (share : UInt32 → UInt32) (s : SizeSort) (m : ClusterManager) (dir : ModelDir) :
    Option ModelTier :=
  lastMatch (fun t => t.Fits (m.usableRamMb share)) (availableModels s dir)

/-- `analyze_capacity`. The loop over the tiers from the largest one stops at the first that
fits. -/
def analyzeCapacity (share : UInt32 → UInt32) (s : SizeSort) (m : ClusterManager)
    (dir : ModelDir) : ClusterCapacity :=
  let usableRamMb := share m.totalRamMb
  let best := m.selectModel share s dir
  { totalRamMb := m.totalRamMb
    usableRamMb
    totalCores := m.peers.foldl (fun total p => total + p.cpuCores) m.self.cpuCores
    nodeCount := 1 + m.peers.length
    recommendedModel := best.elim [] ModelTier.name
    recommendedGguf := best.elim [] ModelTier.ggufFile
    tensorSplit := m.computeTensorSplit
    upgradeAvailable :=
      match modelTiers.reverse.find? fun it => it.Fits usableRamMb with
      | none => false
      | some it => best.all fun best => best.name = [] ∨ it.sizeMb > best.sizeMb }

end ClusterManager

/-! ### The table -/

/-- The tiers are in order of the memory they need. -/
theorem pairwise_modelTiers : modelTiers.Pairwise fun a b => a.minRamMb < b.minRamMb := by
  decide +kernel

/-- A tier is known by its file. -/
theorem eq_of_ggufFile_eq {t t' : ModelTier} (ht : t ∈ modelTiers) (ht' : t' ∈ modelTiers)
    (h : t.ggufFile = t'.ggufFile) : t = t' := by
  have hnodup : (modelTiers.map ModelTier.ggufFile).Nodup := by decide +kernel
  exact List.inj_on_of_nodup_map hnodup ht ht' h

/-- A tier is known by the memory it needs. -/
theorem eq_of_minRamMb_eq {t t' : ModelTier} (ht : t ∈ modelTiers) (ht' : t' ∈ modelTiers)
    (h : t.minRamMb = t'.minRamMb) : t = t' := by
  have hnodup : (modelTiers.map ModelTier.minRamMb).Nodup := by decide +kernel
  exact List.inj_on_of_nodup_map hnodup ht ht' h

/-- The first file of a tier is the one of the table. -/
theorem head?_files : ∀ t ∈ modelTiers, t.files.head? = some t.ggufFile := by
  decide +kernel

theorem name_ne_nil : ∀ t ∈ modelTiers, t.name ≠ [] := by
  decide +kernel

/-! ### What is found in a directory -/

namespace DirEntry

theorem of_find?_tier {e : DirEntry} {t : ModelTier}
    (h : (modelTiers.find? fun t => e.name = t.ggufFile) = some t) :
    t ∈ modelTiers ∧ e.name = t.ggufFile := by
  have hfile := List.find?_some h
  exact ⟨List.mem_of_find?_eq_some h, of_decide_eq_true hfile⟩

/-- The first file of a tier is taken for the tier. -/
theorem model_of_tier {e : DirEntry} (hdata : e.HoldsData) {t : ModelTier} (ht : t ∈ modelTiers)
    (hname : e.name = t.ggufFile) : e.model = some { t with sizeMb := e.sizeMb } := by
  rw [model, if_pos hdata]
  cases hfind : modelTiers.find? fun t => e.name = t.ggufFile with
  | none =>
    have hne := List.find?_eq_none.mp hfind t ht
    exact absurd (decide_eq_true hname) hne
  | some t' =>
    obtain ⟨ht', hfile⟩ := of_find?_tier hfind
    obtain rfl := eq_of_ggufFile_eq ht ht' (hname.symm.trans hfile)
    rfl

/-- A model is a tier of the table or has the name of its file, and its size is that of the
entry. -/
theorem model_spec {e : DirEntry} {t : ModelTier} (h : e.model = some t) :
    e.HoldsData ∧ t.ggufFile = e.name ∧ t.sizeMb = e.sizeMb ∧ t.name ≠ [] := by
  rw [model] at h
  by_cases hdata : e.HoldsData
  · rw [if_pos hdata] at h
    cases hfind : modelTiers.find? fun t => e.name = t.ggufFile with
    | some tier =>
      rw [hfind] at h
      obtain ⟨htier, hfile⟩ := of_find?_tier hfind
      obtain rfl := Option.some.inj h
      exact ⟨hdata, hfile.symm, rfl, name_ne_nil tier htier⟩
    | none =>
      rw [hfind] at h
      dsimp only at h
      by_cases hgguf : e.name.length > 5 ∧ e.name.drop (e.name.length - 5) = ".gguf"
      · rw [if_pos hgguf] at h
        obtain rfl := Option.some.inj h
        refine ⟨hdata, rfl, rfl, fun hnil => ?_⟩
        have hlength := congrArg List.length hnil
        rw [List.length_take, List.length_nil] at hlength
        omega
      · rw [if_neg hgguf] at h
        exact nomatch h
  · rw [if_neg hdata] at h
    exact nomatch h

end DirEntry

namespace ModelDir

theorem mem_models {dir : ModelDir} {t : ModelTier} :
    t ∈ dir.models ↔ ∃ e ∈ dir.entries, e.model = some t := List.mem_filterMap

/-- An entry is known by its name. -/
theorem eq_of_name_eq (dir : ModelDir) {e e' : DirEntry} (he : e ∈ dir.entries)
    (he' : e' ∈ dir.entries) (h : e.name = e'.name) : e = e' :=
  List.inj_on_of_nodup_map dir.distinct he he' h

instance (dir : ModelDir) (t : ModelTier) : Decidable (dir.Holds t) :=
  inferInstanceAs (Decidable (∃ e ∈ dir.entries, _))

end ModelDir

end Llamaste
