import Llamaste.ModelTiers

/-!
# The model that the cluster chooses

The cluster takes the last model that fits in a list sorted by the size of one file, where the
later shards of a tier stand next to the first ones. The hint that a larger tier would fit compares
the size in the table with that of the chosen file.

## Main results

* `choosesLargest_iff`: the largest tier that is there and fits is chosen, exactly when its first
  file is larger than all other model files that fit.
* `truthful_iff`: the hint says whether the largest tier that fits is missing, exactly when that
  tier is there if and only if a model file that fits has the size of the tier.
-/

namespace Llamaste

namespace ModelDir

/-- The tier that needs the most memory of those that are there and fit. -/
def LargestFitting (dir : ModelDir) (usable : UInt32) (t : ModelTier) : Prop :=
  (t ∈ modelTiers ∧ dir.Holds t ∧ t.Fits usable) ∧
    ∀ t' ∈ modelTiers, dir.Holds t' → t'.Fits usable → t'.minRamMb ≤ t.minRamMb

/-- If a tier is there and fits, the largest such tier is chosen, by its first file. -/
def ChoosesLargest (dir : ModelDir) (share : UInt32 → UInt32) (m : ClusterManager) : Prop :=
  (∃ t ∈ modelTiers, dir.Holds t ∧ t.Fits (m.usableRamMb share)) →
    ∀ s, ∃ t, dir.LargestFitting (m.usableRamMb share) t ∧
      ∃ chosen, m.selectModel share s dir = some chosen ∧
        chosen = { t with sizeMb := chosen.sizeMb } ∧ t.files.head? = some chosen.ggufFile

/-- All other files that are taken for models that fit are smaller, in whole MB, than the first
file of the largest tier that fits. -/
def OthersSmaller (dir : ModelDir) (usable : UInt32) : Prop :=
  ∀ t, dir.LargestFitting usable t → ∀ first ∈ dir.entries, first.name = t.ggufFile →
    ∀ e ∈ dir.entries, e.name ≠ t.ggufFile → ∀ other, e.model = some other → other.Fits usable →
      e.sizeMb < first.sizeMb

/-! ### The largest tier -/

theorem LargestFitting.unique {dir : ModelDir} {usable : UInt32} {t t' : ModelTier}
    (h : dir.LargestFitting usable t) (h' : dir.LargestFitting usable t') : t = t' :=
  eq_of_minRamMb_eq h.1.1 h'.1.1
    (UInt32.le_antisymm (h'.2 t h.1.1 h.1.2.1 h.1.2.2) (h.2 t' h'.1.1 h'.1.2.1 h'.1.2.2))

/-- The last match in the table is the tier that needs the most memory. -/
theorem minRamMb_le_of_lastMatch {p : ModelTier → Bool} {t t' : ModelTier}
    (h : lastMatch p modelTiers = some t) (ht' : t' ∈ modelTiers) (hp : p t' = true) :
    t'.minRamMb ≤ t.minRamMb :=
  LastMatch.key_le (fun t : ModelTier => t.minRamMb.toNat)
    (pairwise_modelTiers.imp fun h => (UInt32.lt_iff_toNat_lt.mp h).le) h ht' hp

theorem exists_largestFitting {dir : ModelDir} {usable : UInt32}
    (h : ∃ t ∈ modelTiers, dir.Holds t ∧ t.Fits usable) : ∃ t, dir.LargestFitting usable t := by
  obtain ⟨t, ht, hfits⟩ := h
  cases hlast : lastMatch (fun t => dir.Holds t ∧ t.Fits usable) modelTiers with
  | none =>
    have hno := LastMatch.eq_none_iff.mp hlast t ht
    exact absurd hfits (of_decide_eq_false hno)
  | some largest =>
    obtain ⟨hmem, hlargest⟩ := LastMatch.mem hlast
    exact ⟨largest, ⟨hmem, of_decide_eq_true hlargest⟩, fun t' ht' hholds hfits' =>
      minRamMb_le_of_lastMatch hlast ht' (decide_eq_true ⟨hholds, hfits'⟩)⟩

/-! ### The choice -/

/-- The tier of an entry is chosen, in whatever order files of one size are, exactly when all
other models that fit are smaller. -/
theorem forall_selectModel_iff {dir : ModelDir} (share : UInt32 → UInt32) {m : ClusterManager}
    {t : ModelTier} (ht : t ∈ modelTiers) (hfits : t.Fits (m.usableRamMb share)) {first : DirEntry}
    (hfirst : first ∈ dir.entries) (hname : first.name = t.ggufFile) (hdata : first.HoldsData) :
    (∀ s, m.selectModel share s dir = some { t with sizeMb := first.sizeMb }) ↔
      ∀ e ∈ dir.entries, e.name ≠ t.ggufFile → ∀ other, e.model = some other →
        other.Fits (m.usableRamMb share) → e.sizeMb < first.sizeMb := by
  have hmodel := DirEntry.model_of_tier hdata ht hname
  have hmem : { t with sizeMb := first.sizeMb } ∈ dir.models :=
    mem_models.mpr ⟨first, hfirst, hmodel⟩
  refine (LastMatch.forall_sort_eq_some_iff hmem (decide_eq_true hfits)).trans ⟨?_, ?_⟩
  · intro h e he hne other hother hfitsOther
    obtain ⟨-, hfile, hsize, -⟩ := DirEntry.model_spec hother
    have hneOther : other ≠ { t with sizeMb := first.sizeMb } := by
      rintro rfl
      exact hne hfile.symm
    have hlt := h other (mem_models.mpr ⟨e, he, hother⟩) (decide_eq_true hfitsOther) hneOther
    rw [← hsize]
    exact UInt32.lt_iff_toNat_lt.mpr hlt
  · intro h other hmemOther hfitsOther hneOther
    obtain ⟨e, he, hother⟩ := mem_models.mp hmemOther
    obtain ⟨-, -, hsize, -⟩ := DirEntry.model_spec hother
    have hne : e.name ≠ t.ggufFile := by
      intro heq
      obtain rfl := dir.eq_of_name_eq he hfirst (heq.trans hname.symm)
      exact hneOther (Option.some.inj (hother.symm.trans hmodel))
    have hlt := h e he hne other hother (of_decide_eq_true hfitsOther)
    rw [← hsize] at hlt
    exact UInt32.lt_iff_toNat_lt.mp hlt

/-- **The largest tier that fits is chosen** exactly when its first file is larger than all other
model files that fit. -/
theorem choosesLargest_iff (dir : ModelDir) (share : UInt32 → UInt32) (m : ClusterManager) :
    dir.ChoosesLargest share m ↔ dir.OthersSmaller (m.usableRamMb share) := by
  constructor
  · intro h t hlargest first hfirst hname
    obtain ⟨⟨ht, ⟨e, he, hename, hdata⟩, hfits⟩, -⟩ := id hlargest
    obtain rfl := dir.eq_of_name_eq he hfirst (hename.trans hname.symm)
    refine (forall_selectModel_iff share ht hfits hfirst hname hdata).mp fun s => ?_
    obtain ⟨t', hlargest', chosen, hselect, hchosen, -⟩ :=
      h ⟨t, ht, ⟨e, he, hename, hdata⟩, hfits⟩ s
    obtain rfl := hlargest.unique hlargest'
    obtain ⟨e', he', hmodel⟩ := mem_models.mp (LastMatch.mem_of_sort hselect).1
    obtain ⟨-, hfile, hsize, -⟩ := DirEntry.model_spec hmodel
    have hfile' : e'.name = e.name := by
      rw [← hfile, hchosen, hname]
    obtain rfl := dir.eq_of_name_eq he' he hfile'
    rw [hselect, hchosen, hsize]
  · intro h hexists s
    obtain ⟨t, hlargest⟩ := exists_largestFitting hexists
    obtain ⟨⟨ht, ⟨first, hfirst, hname, hdata⟩, hfits⟩, -⟩ := id hlargest
    have hselect := (forall_selectModel_iff share ht hfits hfirst hname hdata).mpr
      (h t hlargest first hfirst hname) s
    exact ⟨t, hlargest, _, hselect, rfl, head?_files t ht⟩

/-- The model that is chosen has the greatest size of those that fit. -/
theorem sizeMb_le_of_selectModel {dir : ModelDir} {share : UInt32 → UInt32} {s : SizeSort}
    {m : ClusterManager} {best : ModelTier} (h : m.selectModel share s dir = some best)
    {e : DirEntry} (he : e ∈ dir.entries) {model : ModelTier} (hmodel : e.model = some model)
    (hfits : model.Fits (m.usableRamMb share)) : e.sizeMb ≤ best.sizeMb := by
  obtain ⟨-, -, hsize, -⟩ := DirEntry.model_spec hmodel
  rw [← hsize]
  have hle := LastMatch.key_le_of_sort h (mem_models.mpr ⟨e, he, hmodel⟩) (decide_eq_true hfits)
  exact UInt32.le_iff_toNat_le.mpr hle

/-- A directory with a small tier, and one in three shards. -/
def shardedDir : ModelDir where
  entries :=
    [{ name := ".", type := .other, stSize := some 4096 },
      { name := "qwen2.5-3b-instruct-q4_k_m.gguf", stSize := some (2000 * 1048576) },
      { name := "qwen2.5-14b-instruct-q4_k_m-00001-of-00003.gguf"
        stSize := some (3990 * 1048576) },
      { name := "qwen2.5-14b-instruct-q4_k_m-00002-of-00003.gguf"
        stSize := some (3980 * 1048576) },
      { name := "qwen2.5-14b-instruct-q4_k_m-00003-of-00003.gguf"
        stSize := some (900 * 1048576) }]
  distinct := by decide +kernel

theorem complete_shardedDir : shardedDir.Complete :=
  ⟨by decide +kernel, by decide +kernel, by decide +kernel⟩

/-- A single node, with 8 GB of memory. -/
def singleNode : ClusterManager := { self := { ramMb := 8192 } }

/-- The second shard of a tier that does not fit is chosen. -/
theorem not_choosesLargest : ¬ ∀ dir : ModelDir, dir.Complete → ∀ m,
    dir.ChoosesLargest seventyPercent m := by
  intro h
  have hexists : ∃ t ∈ modelTiers, shardedDir.Holds t ∧
      t.Fits (singleNode.usableRamMb seventyPercent) := by
    decide +kernel
  obtain ⟨t, ⟨⟨ht, hholds, hfits⟩, -⟩, chosen, hselect, hchosen, -⟩ :=
    h shardedDir complete_shardedDir singleNode hexists (LastMatch.stable _)
  -- the only tier that is there and fits is the small one
  have honly : ∀ t ∈ modelTiers, shardedDir.Holds t →
      t.Fits (singleNode.usableRamMb seventyPercent) →
        t.ggufFile = "qwen2.5-3b-instruct-q4_k_m.gguf" := by
    decide +kernel
  obtain ⟨e, he, hmodel⟩ := mem_models.mp (LastMatch.mem_of_sort hselect).1
  obtain ⟨-, hfile, hsize, -⟩ := DirEntry.model_spec hmodel
  have hname : e.name = "qwen2.5-3b-instruct-q4_k_m.gguf" := by
    rw [← hfile, hchosen]
    exact honly t ht hholds hfits
  have hshard : shardedDir.entries[3].model = some
      ⟨"qwen2.5-14b-instruct-q4_k_m-00002-of-00003",
        "qwen2.5-14b-instruct-q4_k_m-00002-of-00003.gguf", 3980, 4492, 32⟩ := by
    decide +kernel
  have hle := sizeMb_le_of_selectModel hselect (List.getElem_mem _) hshard (by decide +kernel)
  have hsmall : ∀ e ∈ shardedDir.entries, e.name = "qwen2.5-3b-instruct-q4_k_m.gguf" →
      ¬ shardedDir.entries[3].sizeMb ≤ e.sizeMb := by
    decide +kernel
  exact hsmall e he hname (hsize ▸ hle)

/-! ### The hint -/

/-- The hint says that a tier that would fit needs more memory than all that are there. -/
def Truthful (dir : ModelDir) (share : UInt32 → UInt32) (s : SizeSort) (m : ClusterManager) :
    Prop :=
  let capacity := m.analyzeCapacity share s dir
  capacity.upgradeAvailable = true ↔
    ∃ t ∈ modelTiers, t.Fits capacity.usableRamMb ∧
      ∀ t' ∈ modelTiers, dir.Holds t' → t'.Fits capacity.usableRamMb → t'.minRamMb < t.minRamMb

/-- The tier that needs the most memory of those that would fit. -/
def LargestTier (usable : UInt32) (t : ModelTier) : Prop :=
  (t ∈ modelTiers ∧ t.Fits usable) ∧
    ∀ t' ∈ modelTiers, t'.Fits usable → t'.minRamMb ≤ t.minRamMb

/-- A model file that fits has at least a size. -/
def HasFileOf (dir : ModelDir) (usable mb : UInt32) : Prop :=
  ∃ e ∈ dir.entries, ∃ model, e.model = some model ∧ model.Fits usable ∧ mb ≤ e.sizeMb

/-- The largest tier that would fit is there exactly when a model file that fits has its size. -/
def SizeTells (dir : ModelDir) (share : UInt32 → UInt32) (m : ClusterManager) : Prop :=
  ∀ t, LargestTier (share m.totalRamMb) t →
    (dir.Holds t ↔ dir.HasFileOf (m.usableRamMb share) t.sizeMb)

/-- The first tier from the end of the table that fits. -/
theorem find?_reverse_eq {usable : UInt32} {found : Option ModelTier}
    (h : (modelTiers.reverse.find? fun it => it.Fits usable) = found) :
    lastMatch (fun it => it.Fits usable) modelTiers = found := by
  rw [LastMatch.eq_getLast?, List.getLast?_filter, h]

theorem largestTier_of_lastMatch {usable : UInt32} {t : ModelTier}
    (h : lastMatch (fun it => it.Fits usable) modelTiers = some t) : LargestTier usable t := by
  obtain ⟨hmem, hfits⟩ := LastMatch.mem h
  exact ⟨⟨hmem, of_decide_eq_true hfits⟩, fun t' ht' hfits' =>
    minRamMb_le_of_lastMatch h ht' (decide_eq_true hfits')⟩

theorem LargestTier.unique {usable : UInt32} {t t' : ModelTier} (h : LargestTier usable t)
    (h' : LargestTier usable t') : t = t' :=
  eq_of_minRamMb_eq h.1.1 h'.1.1
    (UInt32.le_antisymm (h'.2 t h.1.1 h.1.2) (h.2 t' h'.1.1 h'.1.2))

/-- What is chosen is smaller than a size, or nothing is, exactly when no file that fits has the
size. -/
theorem all_selectModel_iff (dir : ModelDir) (share : UInt32 → UInt32) (s : SizeSort)
    (m : ClusterManager) (mb : UInt32) :
    ((m.selectModel share s dir).all fun best => best.name = [] ∨ mb > best.sizeMb) = true ↔
      ¬ dir.HasFileOf (m.usableRamMb share) mb := by
  cases hselect : m.selectModel share s dir with
  | none =>
    refine iff_of_true rfl ?_
    rintro ⟨e, he, model, hmodel, hfits, -⟩
    have hno := (LastMatch.sort_eq_none_iff s dir.models).mp hselect model
      (mem_models.mpr ⟨e, he, hmodel⟩)
    exact of_decide_eq_false hno hfits
  | some best =>
    obtain ⟨hmem, hfits⟩ := LastMatch.mem_of_sort hselect
    obtain ⟨e, he, hmodel⟩ := mem_models.mp hmem
    obtain ⟨-, -, hsize, hname⟩ := DirEntry.model_spec hmodel
    rw [Option.all_some, decide_eq_true_iff, or_iff_right hname]
    constructor
    · rintro hlt ⟨e', he', model, hmodel', hfits', hle⟩
      have hmax := sizeMb_le_of_selectModel hselect he' hmodel' hfits'
      exact UInt32.not_lt.mpr (UInt32.le_trans hle hmax) hlt
    · intro hno
      refine UInt32.not_le.mp fun hle => hno ?_
      exact ⟨e, he, best, hmodel, of_decide_eq_true hfits, hsize ▸ hle⟩

/-- The hint says that no file that fits has the size of the largest tier that would fit. -/
theorem upgradeAvailable_iff (dir : ModelDir) (share : UInt32 → UInt32) (s : SizeSort)
    (m : ClusterManager) : (m.analyzeCapacity share s dir).upgradeAvailable = true ↔
      ∃ t, LargestTier (share m.totalRamMb) t ∧
        ¬ dir.HasFileOf (m.usableRamMb share) t.sizeMb := by
  rw [ClusterManager.analyzeCapacity]
  dsimp only
  cases hfind : modelTiers.reverse.find? fun it => it.Fits (share m.totalRamMb) with
  | none =>
    refine iff_of_false nofun ?_
    rintro ⟨t, ⟨⟨ht, hfits⟩, -⟩, -⟩
    have hno := LastMatch.eq_none_iff.mp (find?_reverse_eq hfind) t ht
    exact of_decide_eq_false hno hfits
  | some it =>
    have hlargest := largestTier_of_lastMatch (find?_reverse_eq hfind)
    rw [all_selectModel_iff]
    constructor
    · exact fun hno => ⟨it, hlargest, hno⟩
    · rintro ⟨t, ht, hno⟩
      obtain rfl := hlargest.unique ht
      exact hno

/-- A tier that would fit needs more memory than all that are there exactly when the largest one
is missing. -/
theorem exists_larger_iff (dir : ModelDir) (usable : UInt32) :
    (∃ t ∈ modelTiers, t.Fits usable ∧
      ∀ t' ∈ modelTiers, dir.Holds t' → t'.Fits usable → t'.minRamMb < t.minRamMb) ↔
        ∃ t, LargestTier usable t ∧ ¬ dir.Holds t := by
  constructor
  · rintro ⟨t, ht, hfits, hless⟩
    cases hlast : lastMatch (fun it => it.Fits usable) modelTiers with
    | none => exact absurd hfits (of_decide_eq_false (LastMatch.eq_none_iff.mp hlast t ht))
    | some it =>
      have hlargest := largestTier_of_lastMatch hlast
      refine ⟨it, hlargest, fun hholds => ?_⟩
      exact UInt32.not_lt.mpr (hlargest.2 t ht hfits)
        (hless it hlargest.1.1 hholds hlargest.1.2)
  · rintro ⟨t, hlargest, hmissing⟩
    refine ⟨t, hlargest.1.1, hlargest.1.2, fun t' ht' hholds hfits => ?_⟩
    refine UInt32.lt_of_le_of_ne (hlargest.2 t' ht' hfits) fun heq => hmissing ?_
    rwa [← eq_of_minRamMb_eq ht' hlargest.1.1 heq]

/-- **The hint is truthful** exactly when the largest tier that would fit is there if and only if
a model file that fits has its size. -/
theorem truthful_iff (dir : ModelDir) (share : UInt32 → UInt32) (s : SizeSort)
    (m : ClusterManager) : dir.Truthful share s m ↔ dir.SizeTells share m := by
  rw [Truthful, upgradeAvailable_iff]
  refine Iff.trans (iff_congr Iff.rfl (exists_larger_iff dir (share m.totalRamMb))) ?_
  constructor
  · intro h t ht
    refine not_iff_not.mp ⟨fun hmissing => ?_, fun hno => ?_⟩
    · obtain ⟨t', ht', hno⟩ := h.mpr ⟨t, ht, hmissing⟩
      rwa [ht.unique ht']
    · obtain ⟨t', ht', hmissing⟩ := h.mp ⟨t, ht, hno⟩
      rwa [ht.unique ht']
  · intro h
    exact exists_congr fun t => and_congr_right fun ht => (not_congr (h t ht)).symm

/-- A directory with the two shards of a tier. -/
def twoShardsDir : ModelDir where
  entries :=
    [{ name := "qwen2.5-7b-instruct-q4_k_m-00001-of-00002.gguf", stSize := some (3800 * 1048576) },
      { name := "qwen2.5-7b-instruct-q4_k_m-00002-of-00002.gguf", stSize := some (660 * 1048576) }]
  distinct := by decide +kernel

/-- A single node with 10 GB of memory. -/
def tenGbNode : ClusterManager := { self := { ramMb := 10240 } }

/-- The hint is given although the largest tier that would fit is there. -/
theorem not_truthful : ¬ ∀ (dir : ModelDir) (s : SizeSort) (m : ClusterManager),
    dir.Truthful seventyPercent s m := by
  intro h
  have htruthful := h twoShardsDir (LastMatch.stable _) tenGbNode
  rw [Truthful, upgradeAvailable_iff] at htruthful
  have hlast : lastMatch (fun it => it.Fits (seventyPercent tenGbNode.totalRamMb)) modelTiers =
      modelTiers[3] := by
    decide +kernel
  have hsmall : ∀ e ∈ twoShardsDir.entries, ¬ (4400 : UInt32) ≤ e.sizeMb := by
    decide +kernel
  obtain ⟨t, ht, hfits, hless⟩ := htruthful.mp ⟨modelTiers[3], largestTier_of_lastMatch hlast,
    fun ⟨e, he, _, _, _, hle⟩ => hsmall e he hle⟩
  -- the largest tier that would fit is there, so none needs more memory
  have hthere : ∀ t ∈ modelTiers, t.Fits (seventyPercent tenGbNode.totalRamMb) →
      ¬ modelTiers[3].minRamMb < t.minRamMb := by
    decide +kernel
  exact hthere t ht hfits (hless modelTiers[3] (List.getElem_mem _) (by decide +kernel)
    (by decide +kernel))

end ModelDir

end Llamaste
