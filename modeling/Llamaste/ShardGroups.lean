import Mathlib
import Llamaste.ModelList

/-!
# What the list of models says

For the shards of a base name the list keeps counters: how many files there are, the total of the
last one, and whether the first one has been seen. These tell whether all are there as long as the
files of a base agree on their number and none of them stands in for one that is missing.

Source: `tools_model.cpp` (`handle_model_list`).

## Main results

* `counting_iff`: when counting numbers tells whether all are there.
* `listsFaithfully_iff`: the directories that are listed as they are.
-/

namespace Llamaste

open CInt

/-- The same entries, up to the order of those that are not in shards. -/
def SameModels (es es' : List ModelEntry) : Prop :=
  es.filter ModelEntry.sharded = es'.filter ModelEntry.sharded ∧
    (es.filter fun e => !e.sharded).Perm (es'.filter fun e => !e.sharded)

/-- The list says what is in the directory, whatever order it is read in. -/
structure ListsFaithfully (dir : List ModelFile) : Prop where
  returns : (handleModelList (some dir)).isSome = true
  once : ∀ file ∈ dir, isDot file.name = false →
    (modelEntries dir).countP (fun e => e.AccountsFor file.name) = 1
  size : ∀ e ∈ modelEntries dir,
    e.sizeBytes = ((dir.filter fun file => e.AccountsFor file.name).map ModelFile.size).sum
  complete : ∀ e ∈ modelEntries dir, (e.sharded = true ∧ e.complete = true) ↔
    ∃ total, e.shardCount = some total ∧
      ∀ name ∈ shardNames e.displayName total, name ∈ dir.map ModelFile.name
  path : ∀ e ∈ modelEntries dir, e.sharded = true → e.complete = true →
    ∃ total, e.shardCount = some total ∧
      ∃ first, (shardNames e.displayName total).head? = some first ∧ e.path = modelsDir ++ first
  order : ∀ dir', dir.Perm dir' → SameModels (modelEntries dir) (modelEntries dir')

/-- The group that a file belongs to, and the file as one of its shards. -/
def shardPart (file : ModelFile) : Option (Text × ModelFile × ModelShard) :=
  (shardOf file.name).map fun shard => (shard.base, file, shard)

/-- The shards of a base. -/
def shardsOf (dir : List ModelFile) (base : Text) : List (ModelFile × ModelShard) :=
  SortedMap.partsOf shardPart base dir

/-- The numbers that no shard has. -/
def missingNumbers (total : ℕ) (numbers : List ℕ) : List ℕ :=
  (List.range' 1 total).filter fun i => decide (i ∉ numbers)

/-- The numbers that no shard should have. -/
def strayNumbers (total : ℕ) (numbers : List ℕ) : List ℕ :=
  numbers.filter fun i => decide (i ∉ List.range' 1 total)

/-- The shards of a base fit together: they agree on their number and their sizes fit the sum.
Either none has a number outside, or some are missing, and the first is one of them or they are not
as many as those outside. -/
structure ShardsFit (shards : List (ModelFile × ModelShard)) : Prop where
  total : ∀ s ∈ shards, ∀ s' ∈ shards, s.2.total = s'.2.total
  size : (shards.map fun s => s.1.size).sum < 2 ^ 64
  numbers : ∀ s ∈ shards, let numbers := shards.map fun s => s.2.idx
    strayNumbers s.2.total numbers = [] ∨ missingNumbers s.2.total numbers ≠ [] ∧
      ((strayNumbers s.2.total numbers).length ≠ (missingNumbers s.2.total numbers).length ∨
        1 ∉ numbers)

/-! ### What is read -/

/-- What a group keeps of a shard. -/
def groupStep (g : Option ModelGroup) (s : ModelFile × ModelShard) : ModelGroup :=
  (g.getD {}).add s.1 s.2

theorem shardOf_of_isDot {name : Text} (h : isDot name = true) : shardOf name = none := by
  rcases Bool.or_eq_true_iff.mp h with h | h
  · rw [eq_of_beq h]
    rfl
  · rw [eq_of_beq h]
    rfl

/-- The directory is read into the files that are no shards and the map of the groups. -/
theorem read_eq (dir : List ModelFile) : dir.foldl ModelScan.read {} =
    { singles := dir.filter fun file => !isDot file.name && (shardOf file.name).isNone
      groups := SortedMap.collect shardPart groupStep dir } := by
  induction dir using List.reverseRecOn with
  | nil => rfl
  | append_singleton dir file ih =>
      rw [List.foldl_append, ih, SortedMap.collect_concat, List.filter_append, List.foldl_cons,
        List.foldl_nil, ModelScan.read, SortedMap.collectStep, shardPart]
      by_cases hdot : isDot file.name = true
      · rw [if_pos hdot, shardOf_of_isDot hdot]
        simp [hdot]
      rw [if_neg hdot]
      cases hshard : shardOf file.name with
      | none => simp [hdot, hshard]
      | some shard => simp [hshard, groupStep]

theorem modelEntries_eq (dir : List ModelFile) : modelEntries dir =
    (SortedMap.collect shardPart groupStep dir).map (fun kv => .ofGroup kv.1 kv.2) ++
      (dir.filter fun file => !isDot file.name && (shardOf file.name).isNone).map .ofSingle := by
  rw [modelEntries, read_eq]

/-! ### Numbers -/

section

variable {total : ℕ} {numbers : List ℕ}

theorem missingNumbers_eq_nil_iff :
    missingNumbers total numbers = [] ↔ ∀ i < total, i + 1 ∈ numbers := by
  rw [missingNumbers, List.filter_eq_nil_iff]
  simp only [List.mem_range'_1, decide_eq_true_eq, not_not]
  exact ⟨fun h i hi => h (i + 1) (by omega), fun h i hi => by
    have := h (i - 1) (by omega)
    rwa [Nat.sub_add_cancel hi.1] at this⟩

/-- There are as many numbers as there should be exactly when as many are missing as there are
outside. -/
theorem length_eq_total_iff (h : numbers.Nodup) : numbers.length = total ↔
    (strayNumbers total numbers).length = (missingNumbers total numbers).length := by
  have hnodup : (List.range' 1 total).Nodup := List.nodup_range' 1
  have hwithin : ((List.range' 1 total).filter fun i => decide (i ∈ numbers)).Perm
      (numbers.filter fun i => decide (i ∈ List.range' 1 total)) :=
    (List.perm_ext_iff_of_nodup (hnodup.filter _) (h.filter _)).mpr fun i => by
      rw [List.mem_filter, List.mem_filter, decide_eq_true_iff, decide_eq_true_iff]
      exact and_comm
  have hnumbers := List.length_eq_length_filter_add (l := numbers)
    fun i => decide (i ∈ List.range' 1 total)
  have hrange := List.length_eq_length_filter_add (l := List.range' 1 total)
    fun i => decide (i ∈ numbers)
  have hlen := hwithin.length_eq
  simp only [← decide_not] at hnumbers hrange
  rw [List.length_range'] at hrange
  rw [strayNumbers, missingNumbers]
  omega

/-- **Counting tells whether all numbers are there** exactly when none is outside, or some are
missing and the first is one of them or they are not as many as those outside. -/
theorem counting_iff (h : numbers.Nodup) (hne : numbers ≠ []) :
    (numbers.length = total ∧ 1 ∈ numbers ↔ missingNumbers total numbers = []) ↔
      strayNumbers total numbers = [] ∨ missingNumbers total numbers ≠ [] ∧
        ((strayNumbers total numbers).length ≠ (missingNumbers total numbers).length ∨
          1 ∉ numbers) := by
  rw [length_eq_total_iff h]
  by_cases hmissing : missingNumbers total numbers = []
  · rw [hmissing, List.length_nil, List.length_eq_zero_iff]
    simp only [iff_true, ne_eq, not_true_eq_false, false_and, or_false]
    refine ⟨And.left, fun hstray => ⟨hstray, ?_⟩⟩
    obtain ⟨i, hi⟩ := List.exists_mem_of_ne_nil _ hne
    have hrange : i ∈ List.range' 1 total := by
      simpa only [decide_eq_true_eq, not_not] using List.filter_eq_nil_iff.mp hstray i hi
    have hpos := List.mem_range'_1.mp hrange
    exact missingNumbers_eq_nil_iff.mp hmissing 0 (by omega)
  · simp only [hmissing, iff_false, ne_eq, not_false_eq_true, true_and, not_and_or]
    refine (or_iff_right_of_imp fun hstray => Or.inl fun hlength => hmissing ?_).symm
    rwa [hstray, List.length_nil, eq_comm, List.length_eq_zero_iff] at hlength

end

/-! ### Groups -/

/-- The group of these shards. -/
def countShards (shards : List (ModelFile × ModelShard)) : ModelGroup :=
  shards.foldl (fun g s => g.add s.1 s.2) {}

section

variable {dir : List ModelFile} {base : Text} {shards : List (ModelFile × ModelShard)}

theorem mem_shardsOf {s : ModelFile × ModelShard} : s ∈ shardsOf dir base ↔
    s.1 ∈ dir ∧ IsShardFile s.1.name s.2 ∧ s.2.base = base := by
  rw [shardsOf, SortedMap.mem_partsOf]
  constructor
  · rintro ⟨file, hfile, hpart⟩
    obtain ⟨shard, hshard, heq⟩ := Option.map_eq_some_iff.mp hpart
    obtain ⟨rfl, rfl⟩ := Prod.mk.inj heq
    exact ⟨hfile, shardOf_eq_some_iff.mp hshard, rfl⟩
  · rintro ⟨hfile, hshard, rfl⟩
    exact ⟨s.1, hfile, by rw [shardPart, shardOf_eq_some_iff.mpr hshard]; rfl⟩

theorem countShards_concat (shards : List (ModelFile × ModelShard)) (s : ModelFile × ModelShard) :
    countShards (shards ++ [s]) = (countShards shards).add s.1 s.2 := by
  rw [countShards, List.foldl_append]
  rfl

theorem foldl_groupStep (shards : List (ModelFile × ModelShard)) :
    shards.foldl (fun g s => some (groupStep g s)) none =
      if shards = [] then none else some (countShards shards) := by
  induction shards using List.reverseRecOn with
  | nil => rfl
  | append_singleton shards s ih =>
      rw [if_neg (List.append_ne_nil_of_right_ne_nil _ (List.cons_ne_nil _ _)), List.foldl_append,
        ih, countShards_concat]
      by_cases hnil : shards = []
      · rw [if_pos hnil, hnil]
        rfl
      · rw [if_neg hnil]
        rfl

/-- The group of a base is that of its shards. -/
theorem lookup_groups (dir : List ModelFile) (base : Text) :
    (SortedMap.collect shardPart groupStep dir).lookup base =
      if shardsOf dir base = [] then none else some (countShards (shardsOf dir base)) := by
  rw [SortedMap.lookup_collect, foldl_groupStep, shardsOf]

theorem size_countShards (shards : List (ModelFile × ModelShard)) :
    (countShards shards).size = (shards.map fun s => s.1.size).sum % 2 ^ 64 := by
  induction shards using List.reverseRecOn with
  | nil => rfl
  | append_singleton shards s ih =>
      rw [countShards_concat, List.map_append, List.sum_append, ModelGroup.add]
      dsimp only
      rw [ih, List.map_singleton, List.sum_singleton, Nat.mod_add_mod]

theorem present_countShards (shards : List (ModelFile × ModelShard)) :
    (countShards shards).present = toInt32 shards.length := by
  induction shards using List.reverseRecOn with
  | nil => rfl
  | append_singleton shards s ih =>
      rw [countShards_concat, List.length_append, List.length_singleton, ModelGroup.add]
      dsimp only
      rw [ih, toInt32, toInt32, toInt32]
      omega

theorem have1_countShards (shards : List (ModelFile × ModelShard)) :
    (countShards shards).have1 = true ↔ 1 ∈ shards.map fun s => s.2.idx := by
  induction shards using List.reverseRecOn with
  | nil => exact iff_of_false nofun nofun
  | append_singleton shards s ih =>
      rw [countShards_concat, List.map_append, List.mem_append, List.map_singleton,
        List.mem_singleton, ModelGroup.add]
      dsimp only
      split_ifs with hidx
      · exact iff_of_true rfl (Or.inr hidx.symm)
      · rw [ih, or_iff_left (Ne.symm hidx)]

/-- The name that is kept is that of a first shard. -/
theorem shard1_countShards (h : (countShards shards).have1 = true) :
    ∃ s ∈ shards, s.2.idx = 1 ∧ (countShards shards).shard1 = s.1.name := by
  induction shards using List.reverseRecOn with
  | nil => exact nomatch h
  | append_singleton shards s ih =>
      rw [countShards_concat, ModelGroup.add] at h ⊢
      dsimp only at h ⊢
      by_cases hidx : s.2.idx = 1
      · rw [if_pos hidx]
        exact ⟨s, List.mem_append_right _ List.mem_cons_self, hidx, rfl⟩
      · rw [if_neg hidx] at h ⊢
        obtain ⟨s', hs', hfirst⟩ := ih h
        exact ⟨s', List.mem_append_left _ hs', hfirst⟩

theorem quant_countShards (shards : List (ModelFile × ModelShard)) :
    (countShards shards).quant = [] ∨
      ∃ name, (countShards shards).quant = detectQuantization name := by
  induction shards using List.reverseRecOn with
  | nil => exact Or.inl rfl
  | append_singleton shards s ih =>
      rw [countShards_concat, ModelGroup.add]
      dsimp only
      split_ifs
      · exact Or.inr ⟨_, rfl⟩
      · exact ih

/-- The total is that of the last shard, so that of all if they agree. -/
theorem total_countShards (h : ∀ s ∈ shards, ∀ s' ∈ shards, s.2.total = s'.2.total)
    {s : ModelFile × ModelShard} (hs : s ∈ shards) : (countShards shards).total = s.2.total := by
  rcases List.eq_nil_or_concat' shards with rfl | ⟨shards, last, rfl⟩
  · exact nomatch hs
  · rw [countShards_concat]
    exact h last (List.mem_append_right _ List.mem_cons_self) s hs

/-- Shards that agree on their number and on the first one can be counted in any order. -/
theorem countShards_perm {shards' : List (ModelFile × ModelShard)} (hperm : shards.Perm shards')
    (htotal : ∀ s ∈ shards, ∀ s' ∈ shards, s.2.total = s'.2.total)
    (hfirst : ∀ s ∈ shards, ∀ s' ∈ shards, s.2.idx = 1 → s'.2.idx = 1 → s.1.name = s'.1.name) :
    countShards shards = countShards shards' := by
  refine hperm.foldl_eq' (fun s hs s' hs' g => ?_) _
  have hname := hfirst s hs s' hs'
  simp only [ModelGroup.add, ModelGroup.mk.injEq]
  refine ⟨?_, by omega, (htotal s hs s' hs').symm, trivial, by split_ifs <;> omega, ?_, ?_⟩
  · split_ifs with hidx' hidx
    · exact (hname hidx hidx').symm
    · rfl
    · rfl
    · rfl
  · split_ifs with hidx' hidx
    · rw [hname hidx hidx']
    · rfl
    · rfl
    · rfl
  · split_ifs <;> rfl

theorem pairwise_shardsOf (h : (dir.map ModelFile.name).Nodup) (base : Text) :
    (shardsOf dir base).Pairwise fun s s' => s.1.name ≠ s'.1.name := by
  have hfile {file : ModelFile} {s : ModelFile × ModelShard}
      (hpart : shardPart file = some (base, s)) : s.1 = file := by
    obtain ⟨shard, -, heq⟩ := Option.map_eq_some_iff.mp hpart
    rw [← (Prod.mk.inj heq).2]
  refine SortedMap.pairwise_partsOf (List.pairwise_map.mp h) fun file file' hne s s' hs hs' => ?_
  rw [hfile hs, hfile hs']
  exact hne

/-- Shards of one base and number are told apart by their index. -/
theorem name_eq_of_idx {s s' : ModelFile × ModelShard} (hs : s ∈ shardsOf dir base)
    (hs' : s' ∈ shardsOf dir base) (htotal : s.2.total = s'.2.total) (hidx : s.2.idx = s'.2.idx) :
    s.1.name = s'.1.name := by
  obtain ⟨-, hname, hbase⟩ := mem_shardsOf.mp hs
  obtain ⟨-, hname', hbase'⟩ := mem_shardsOf.mp hs'
  rw [hname.eq, hname'.eq, hbase, hbase', htotal, hidx]

section

variable (hnames : (dir.map ModelFile.name).Nodup)
  (htotal : ∀ s ∈ shardsOf dir base, ∀ s' ∈ shardsOf dir base, s.2.total = s'.2.total)

include hnames htotal

theorem nodup_numbers : ((shardsOf dir base).map fun s => s.2.idx).Nodup :=
  List.pairwise_map.mpr ((pairwise_shardsOf hnames base).imp_of_mem fun hs hs' hne hidx =>
    hne (name_eq_of_idx hs hs' (htotal _ hs _ hs') hidx))

/-- There are not enough numbers for the counter to wrap. -/
theorem present_shardsOf :
    (countShards (shardsOf dir base)).present = (shardsOf dir base).length := by
  have hsub : ((shardsOf dir base).map fun s => s.2.idx) ⊆ List.range 100000 := fun i hi => by
    obtain ⟨s, hs, rfl⟩ := List.mem_map.mp hi
    exact List.mem_range.mpr (mem_shardsOf.mp hs).2.1.idx_lt
  have hle := (nodup_numbers hnames htotal).length_le_of_subset hsub
  rw [List.length_map, List.length_range] at hle
  rw [present_countShards, toInt32_eq_self_iff, FitsInt32]
  omega

/-- What the counters of a group say. -/
theorem complete_ofGroup_iff {s : ModelFile × ModelShard} (hs : s ∈ shardsOf dir base) :
    (ModelEntry.ofGroup base (countShards (shardsOf dir base))).complete = true ↔
      ((shardsOf dir base).map fun s => s.2.idx).length = s.2.total ∧
        1 ∈ (shardsOf dir base).map fun s => s.2.idx := by
  rw [ModelEntry.ofGroup, Bool.and_eq_true, decide_eq_true_iff, have1_countShards,
    present_shardsOf hnames htotal, total_countShards htotal hs, List.length_map, Int.ofNat_inj]

omit hnames in
/-- What the names of the files say. -/
theorem shardNames_mem_iff {s : ModelFile × ModelShard} (hs : s ∈ shardsOf dir base) :
    (∀ name ∈ shardNames base s.2.total, name ∈ dir.map ModelFile.name) ↔
      missingNumbers s.2.total ((shardsOf dir base).map fun s => s.2.idx) = [] := by
  have hlt := (mem_shardsOf.mp hs).2.1.total_lt
  rw [missingNumbers_eq_nil_iff, shardNames, List.forall_mem_map]
  refine forall_congr' fun i => ?_
  rw [List.mem_range]
  refine forall_congr' fun hi => ⟨fun hmem => ?_, fun hmem => ?_⟩
  · obtain ⟨file, hfile, hname⟩ := List.mem_map.mp hmem
    have hmem : (file, { base, idx := i + 1, total := s.2.total }) ∈ shardsOf dir base :=
      mem_shardsOf.mpr ⟨hfile, ⟨hname, Nat.lt_of_le_of_lt hi hlt, hlt⟩, rfl⟩
    exact List.mem_map_of_mem (f := fun s : ModelFile × ModelShard => s.2.idx) hmem
  · obtain ⟨s', hs', hidx⟩ := List.mem_map.mp hmem
    obtain ⟨hfile, hname, hbase⟩ := mem_shardsOf.mp hs'
    refine List.mem_map.mpr ⟨s'.1, hfile, ?_⟩
    rw [hname.eq, hbase, hidx, htotal s' hs' s hs]

end

/-! ### Entries -/

theorem mem_modelEntries {e : ModelEntry} : e ∈ modelEntries dir ↔
    (∃ base, shardsOf dir base ≠ [] ∧
      e = .ofGroup base (countShards (shardsOf dir base))) ∨
    ∃ file ∈ dir, isDot file.name = false ∧ shardOf file.name = none ∧ e = .ofSingle file := by
  rw [modelEntries_eq, List.mem_append, List.mem_map, List.mem_map]
  refine or_congr ⟨?_, ?_⟩ ⟨?_, ?_⟩
  · rintro ⟨kv, hkv, rfl⟩
    have hlookup := SortedMap.lookup_of_mem (SortedMap.sorted_collect dir) hkv
    rw [lookup_groups] at hlookup
    split_ifs at hlookup with hnil
    exact ⟨kv.1, hnil, by rw [Option.some.inj hlookup]⟩
  · rintro ⟨base, hnil, rfl⟩
    have hlookup := lookup_groups dir base
    rw [if_neg hnil] at hlookup
    exact ⟨_, SortedMap.mem_of_lookup hlookup, rfl⟩
  · rintro ⟨file, hfile, rfl⟩
    obtain ⟨hmem, hkeep⟩ := List.mem_filter.mp hfile
    rw [Bool.and_eq_true, Bool.not_eq_true', Option.isNone_iff_eq_none] at hkeep
    exact ⟨file, hmem, hkeep.1, hkeep.2, rfl⟩
  · rintro ⟨file, hmem, hdot, hshard, rfl⟩
    refine ⟨file, List.mem_filter.mpr ⟨hmem, ?_⟩, rfl⟩
    rw [hdot, hshard]
    rfl

theorem accountsFor_ofGroup {g : ModelGroup} {name : Text} :
    (ModelEntry.ofGroup base g).AccountsFor name ↔
      ∃ shard, shardOf name = some shard ∧ shard.base = base := by
  simp only [shardOf_eq_some_iff]
  exact Iff.of_eq (if_pos rfl)

theorem accountsFor_ofSingle {file : ModelFile} {name : Text} :
    (ModelEntry.ofSingle file).AccountsFor name ↔ name = file.name :=
  Iff.of_eq (if_neg nofun)

theorem valid_humanSize (n : ℕ) : Utf8.valid (humanSize n) = true := by
  have hnat := Json.valid_ofNat
  simp only [humanSize, oneDecimal, twoDecimals]
  split_ifs
  · exact Utf8.valid_append (hnat _) (by decide)
  · exact Utf8.valid_append (hnat _) (by decide)
  · exact Utf8.valid_append (Utf8.valid_append (Utf8.valid_append (hnat _) (by decide)) (hnat _))
      (by decide)
  · exact Utf8.valid_append (Utf8.valid_append (Utf8.valid_append (Utf8.valid_append (hnat _)
      (by decide)) (hnat _)) (hnat _)) (by decide)

theorem valid_detectQuantization (name : Text) : Utf8.valid (detectQuantization name) = true := by
  have hall : ∀ quant ∈ quantTypes, Utf8.valid quant = true := by decide
  rw [detectQuantization]
  cases hfind : quantTypes.find? _ with
  | none => decide
  | some quant => exact hall quant (List.mem_of_find?_eq_some hfind)

namespace ModelEntry

/-- The keys of an entry, with a quantization or not and in shards or not. -/
def keys (quant sharded : Bool) : List Text :=
  ["filename", "display_name", "path", "size_bytes", "size_human", "modified", "format"].map
    String.toList ++ (if quant then ["quantization".toList] else []) ++ ["sharded".toList] ++
    (if sharded then ["shard_count".toList, "shards_present".toList] else []) ++
    ["complete".toList]

theorem keys_members (e : ModelEntry) :
    e.members.map Prod.fst = keys e.quantization.isSome e.sharded := by
  rw [members, sharded]
  cases e.quantization <;> cases e.shards <;> rfl

/-- An entry can be written exactly when its texts can. -/
theorem utf8_json (e : ModelEntry) : e.json.utf8 = true ↔
    Utf8.valid e.filename = true ∧ Utf8.valid e.displayName = true ∧ Utf8.valid e.format = true ∧
      ∀ quant ∈ e.quantization, Utf8.valid quant = true := by
  have hnodup (b b' : Bool) : (keys b b').Nodup := by cases b <;> cases b' <;> decide
  have hvalid (b b' : Bool) : ∀ key ∈ keys b b', Utf8.valid key = true := by
    cases b <;> cases b' <;> decide
  have hpath : Utf8.valid e.path = Utf8.valid e.filename := by
    rw [Bool.eq_iff_iff, ModelEntry.path]
    exact Utf8.valid_append_iff (by decide)
  rw [json, Json.utf8_object (by rw [keys_members]; exact hnodup _ _)
    (by rw [keys_members]; exact hvalid _ _), members]
  cases e.quantization <;> cases e.shards <;>
    simp [hpath, valid_humanSize, Json.utf8] <;> tauto

end ModelEntry

/-- The name of a shard can be written exactly when its base can. -/
theorem IsShardFile.valid_iff {name : Text} {shard : ModelShard} (h : IsShardFile name shard) :
    Utf8.valid name = true ↔ Utf8.valid shard.base = true := by
  have hdigit {n : ℕ} (hn : n < 100000) : ∀ c ∈ padFive n, c.toNat < 0x80 := fun c hc => by
    have := Text.toNat_of_isDigit ((padFive_of_lt hn).1 c hc)
    omega
  rw [h.eq, buildShardFilename, Json.valid_append_ascii_iff (by decide),
    Json.valid_append_ascii_iff (hdigit h.total_lt), Json.valid_append_ascii_iff (by decide),
    Json.valid_append_ascii_iff (hdigit h.idx_lt), Json.valid_append_ascii_iff (by decide)]

/-- A shard is no `.` or `..`. -/
theorem isDot_of_mem_shardsOf {s : ModelFile × ModelShard} (hs : s ∈ shardsOf dir base) :
    isDot s.1.name = false := by
  by_contra hdot
  have hshard := shardOf_eq_some_iff.mpr (mem_shardsOf.mp hs).2.1
  rw [shardOf_of_isDot (Bool.not_eq_false _ ▸ hdot)] at hshard
  exact nomatch hshard

/-- The list can be written exactly when the names of the files can. -/
theorem isSome_handleModelList_iff : (handleModelList (some dir)).isSome = true ↔
    ∀ file ∈ dir, isDot file.name = false → Utf8.valid file.name = true := by
  have hjson : (handleModelList (some dir)).isSome = true ↔
      ∀ e ∈ modelEntries dir, e.json.utf8 = true := by
    have hnodup : ["models".toList, "count".toList, "directory".toList].Nodup := by decide
    have hkeys : ∀ key ∈ ["models".toList, "count".toList, "directory".toList],
        Utf8.valid key = true := by decide
    have hdir : Utf8.valid "/data/models".toList = true := by decide
    rw [handleModelList, Json.isSome_dump, Json.utf8_object]
    rotate_left
    · exact hnodup
    · exact hkeys
    simp only [List.map_cons, List.map_nil, List.forall_mem_cons, Json.utf8_arr, Json.utf8_str,
      hdir, List.all_eq_true, List.forall_mem_map, List.not_mem_nil, false_imp_iff, implies_true,
      and_true]
    exact and_iff_left rfl
  rw [hjson]
  constructor
  · intro h file hfile hdot
    cases hshard : shardOf file.name with
    | none =>
        have he := h (.ofSingle file) (mem_modelEntries.mpr
          (Or.inr ⟨file, hfile, hdot, hshard, rfl⟩))
        exact (ModelEntry.utf8_json _ |>.mp he).1
    | some shard =>
        have hname := shardOf_eq_some_iff.mp hshard
        have hmem : (file, shard) ∈ shardsOf dir shard.base := mem_shardsOf.mpr ⟨hfile, hname, rfl⟩
        have he := h _ (mem_modelEntries.mpr (Or.inl ⟨_, List.ne_nil_of_mem hmem, rfl⟩))
        exact hname.valid_iff.mpr (ModelEntry.utf8_json _ |>.mp he).2.1
  · intro h e he
    rw [ModelEntry.utf8_json]
    rcases mem_modelEntries.mp he with ⟨base, hne, rfl⟩ | ⟨file, hfile, hdot, -, rfl⟩
    · have hvalid {s : ModelFile × ModelShard} (hs : s ∈ shardsOf dir base) :
          Utf8.valid s.1.name = true :=
        h s.1 (mem_shardsOf.mp hs).1 (isDot_of_mem_shardsOf hs)
      have hbase : Utf8.valid base = true := by
        obtain ⟨s, hs⟩ := List.exists_mem_of_ne_nil _ hne
        have hname := (mem_shardsOf.mp hs).2
        rw [← hname.2]
        exact hname.1.valid_iff.mp (hvalid hs)
      have hformat : Utf8.valid "GGUF".toList = true := by decide
      refine ⟨?_, hbase, hformat, ?_⟩
      · rw [ModelEntry.ofGroup]
        dsimp only
        split_ifs with hfirst
        · obtain ⟨s, hs, -, hname⟩ := shard1_countShards hfirst
          rw [hname]
          exact hvalid hs
        · exact Utf8.valid_append hbase (by decide)
      · intro quant hquant
        obtain rfl := Option.some.inj hquant
        split_ifs
        · exact valid_detectQuantization base
        · rcases quant_countShards (shardsOf dir base) with hquant | ⟨name, hquant⟩
          · contradiction
          · rw [hquant]
            exact valid_detectQuantization name
    · refine ⟨h file hfile hdot, h file hfile hdot, ?_, ?_⟩
      · rw [ModelEntry.ofSingle]
        dsimp only
        split_ifs <;> decide
      · intro quant hquant
        rw [ModelEntry.ofSingle] at hquant
        dsimp only at hquant
        split_ifs at hquant
        · rw [← Option.some.inj hquant]
          exact valid_detectQuantization _
        · exact nomatch hquant

/-! ### What is listed -/

/-- The entries in shards come first, in the order of their names. -/
theorem filter_sharded (dir : List ModelFile) :
    (modelEntries dir).filter ModelEntry.sharded =
      (SortedMap.collect shardPart groupStep dir).map (fun kv => .ofGroup kv.1 kv.2) ∧
    ((modelEntries dir).filter fun e => !e.sharded) =
      (dir.filter fun file => !isDot file.name && (shardOf file.name).isNone).map .ofSingle := by
  rw [modelEntries_eq]
  constructor
  · rw [List.filter_append, List.filter_eq_self.mpr, List.filter_eq_nil_iff.mpr, List.append_nil]
    · rw [List.forall_mem_map]
      exact fun _ _ => nofun
    · rw [List.forall_mem_map]
      exact fun _ _ => rfl
  · rw [List.filter_append, List.filter_eq_nil_iff.mpr, List.filter_eq_self.mpr, List.nil_append]
    · rw [List.forall_mem_map]
      exact fun _ _ => rfl
    · rw [List.forall_mem_map]
      exact fun _ _ => nofun

/-- Each file is in one entry. -/
theorem countP_accountsFor (hnames : (dir.map ModelFile.name).Nodup) {file : ModelFile}
    (hfile : file ∈ dir) (hdot : isDot file.name = false) :
    (modelEntries dir).countP (fun e => e.AccountsFor file.name) = 1 := by
  rw [modelEntries_eq, List.countP_append, List.countP_map, List.countP_map]
  have hsingle (g : ModelFile) : decide ((ModelEntry.ofSingle g).AccountsFor file.name) = true ↔
      file.name = g.name := by rw [decide_eq_true_iff, accountsFor_ofSingle]
  have hgroup (kv : Text × ModelGroup) :
      decide ((ModelEntry.ofGroup kv.1 kv.2).AccountsFor file.name) = true ↔
        ∃ shard, shardOf file.name = some shard ∧ shard.base = kv.1 := by
    rw [decide_eq_true_iff, accountsFor_ofGroup]
  cases hshard : shardOf file.name with
  | none =>
      have hnone : (SortedMap.collect shardPart groupStep dir).countP
          ((fun e : ModelEntry => decide (e.AccountsFor file.name)) ∘
            fun kv : Text × ModelGroup => .ofGroup kv.1 kv.2) = 0 := by
        rw [List.countP_eq_zero]
        intro kv _ hkv
        obtain ⟨shard, hsome, -⟩ := (hgroup kv).mp hkv
        exact nomatch hshard.symm.trans hsome
      have hone : (dir.filter fun file => !isDot file.name && (shardOf file.name).isNone).countP
          ((fun e : ModelEntry => decide (e.AccountsFor file.name)) ∘ ModelEntry.ofSingle) =
            (dir.map ModelFile.name).count file.name := by
        rw [List.countP_filter, List.count, List.countP_map]
        refine List.countP_congr fun g _ => ?_
        rw [Bool.and_eq_true, Function.comp_apply, Function.comp_apply, hsingle, beq_iff_eq]
        refine ⟨fun h => h.1.symm, fun h => ⟨h.symm, ?_⟩⟩
        rw [h, hdot, hshard]
        rfl
      rw [hnone, hone, Nat.zero_add]
      exact List.count_eq_one_of_mem hnames (List.mem_map_of_mem hfile)
  | some shard =>
      have hname := shardOf_eq_some_iff.mp hshard
      have hmem : (file, shard) ∈ shardsOf dir shard.base := mem_shardsOf.mpr ⟨hfile, hname, rfl⟩
      have hone : (SortedMap.collect shardPart groupStep dir).countP
          ((fun e : ModelEntry => decide (e.AccountsFor file.name)) ∘
            fun kv : Text × ModelGroup => .ofGroup kv.1 kv.2) =
            ((SortedMap.collect shardPart groupStep dir).map Prod.fst).count shard.base := by
        rw [List.count, List.countP_map]
        refine List.countP_congr fun kv _ => ?_
        rw [Function.comp_apply, Function.comp_apply, hgroup, hshard, beq_iff_eq]
        constructor
        · rintro ⟨shard', heq, hbase⟩
          rw [Option.some.inj heq, hbase]
        · exact fun h => ⟨shard, rfl, h.symm⟩
      have hnone : (dir.filter fun file => !isDot file.name && (shardOf file.name).isNone).countP
          ((fun e : ModelEntry => decide (e.AccountsFor file.name)) ∘ ModelEntry.ofSingle) = 0 := by
        rw [List.countP_eq_zero]
        intro g hg hkv
        have hkeep := (Bool.and_eq_true_iff.mp (List.mem_filter.mp hg).2).2
        rw [Option.isNone_iff_eq_none, ← (hsingle g).mp hkv, hshard] at hkeep
        exact nomatch hkeep
      have hkey : shard.base ∈ (SortedMap.collect shardPart groupStep dir).map Prod.fst := by
        have hlookup := lookup_groups dir shard.base
        rw [if_neg (List.ne_nil_of_mem hmem)] at hlookup
        exact List.mem_map_of_mem (SortedMap.mem_of_lookup hlookup)
      rw [hone, hnone]
      exact List.count_eq_one_of_mem (SortedMap.nodup_keys (SortedMap.sorted_collect dir)) hkey

/-- The files of an entry in shards are its shards. -/
theorem filter_accountsFor (dir : List ModelFile) (base : Text) (g : ModelGroup) :
    (dir.filter fun file => (ModelEntry.ofGroup base g).AccountsFor file.name) =
      (shardsOf dir base).map Prod.fst := by
  induction dir with
  | nil => rfl
  | cons file dir ih =>
      rw [shardsOf, SortedMap.partsOf] at ih ⊢
      by_cases hfile : (ModelEntry.ofGroup base g).AccountsFor file.name
      · obtain ⟨shard, hshard, hbase⟩ := accountsFor_ofGroup.mp hfile
        have hpart : SortedMap.partOf shardPart base file = some (file, shard) :=
          SortedMap.partOf_eq_some_iff.mpr (by rw [shardPart, hshard, ← hbase]; rfl)
        rw [List.filter_cons, if_pos (decide_eq_true hfile), List.filterMap_cons_some hpart, ih]
        rfl
      · have hpart : SortedMap.partOf shardPart base file = none := by
          by_contra hsome
          obtain ⟨s, hs⟩ := Option.ne_none_iff_exists'.mp hsome
          obtain ⟨shard, hshard, heq⟩ :=
            Option.map_eq_some_iff.mp (SortedMap.partOf_eq_some_iff.mp hs)
          exact hfile (accountsFor_ofGroup.mpr ⟨shard, hshard, (Prod.mk.inj heq).1⟩)
        rw [List.filter_cons, if_neg (by rwa [decide_eq_true_iff]), List.filterMap_cons_none hpart,
          ih]

/-- What is listed under an entry's size. -/
theorem size_eq_iff (hnames : (dir.map ModelFile.name).Nodup) : (∀ e ∈ modelEntries dir,
    e.sizeBytes = ((dir.filter fun file => e.AccountsFor file.name).map ModelFile.size).sum) ↔
      ∀ base, ((shardsOf dir base).map fun s => s.1.size).sum < 2 ^ 64 := by
  have hgroup (base : Text) (g : ModelGroup) (hg : g = countShards (shardsOf dir base)) :
      (ModelEntry.ofGroup base g).sizeBytes = ((dir.filter fun file =>
        (ModelEntry.ofGroup base g).AccountsFor file.name).map ModelFile.size).sum ↔
      ((shardsOf dir base).map fun s => s.1.size).sum < 2 ^ 64 := by
    subst hg
    rw [filter_accountsFor, List.map_map, ModelEntry.ofGroup, size_countShards]
    exact ⟨fun h => h ▸ Nat.mod_lt _ (by decide), Nat.mod_eq_of_lt⟩
  constructor
  · intro h base
    by_cases hne : shardsOf dir base = []
    · rw [hne]
      decide
    · exact (hgroup base _ rfl).mp (h _ (mem_modelEntries.mpr (Or.inl ⟨base, hne, rfl⟩)))
  · intro h e he
    rcases mem_modelEntries.mp he with ⟨base, -, rfl⟩ | ⟨file, hfile, -, -, rfl⟩
    · exact (hgroup base _ rfl).mpr (h base)
    · have hnodup : dir.Nodup := hnames.of_map _
      have hone : (dir.filter fun g => (ModelEntry.ofSingle file).AccountsFor g.name) = [file] := by
        refine List.perm_singleton.mp ((List.perm_ext_iff_of_nodup (hnodup.filter _)
          (List.nodup_singleton file)).mpr fun g => ?_)
        rw [List.mem_filter, decide_eq_true_iff, accountsFor_ofSingle, List.mem_singleton]
        exact ⟨fun hg => List.inj_on_of_nodup_map hnames hg.1 hfile hg.2,
          fun hg => ⟨hg ▸ hfile, hg ▸ rfl⟩⟩
      rw [hone]
      rfl

/-- A shard that is read last leaves its total. -/
theorem exists_perm_total {s : ModelFile × ModelShard} (hs : s ∈ shardsOf dir base) :
    ∃ dir', dir.Perm dir' ∧ shardsOf dir' base ≠ [] ∧
      (countShards (shardsOf dir' base)).total = s.2.total := by
  obtain ⟨hfile, hname, rfl⟩ := mem_shardsOf.mp hs
  obtain ⟨l, r, rfl⟩ := List.append_of_mem hfile
  have hpart : SortedMap.partOf shardPart s.2.base s.1 = some s :=
    SortedMap.partOf_eq_some_iff.mpr (by rw [shardPart, shardOf_eq_some_iff.mpr hname]; rfl)
  have hlast : shardsOf (l ++ r ++ [s.1]) s.2.base = shardsOf (l ++ r) s.2.base ++ [s] := by
    rw [shardsOf, SortedMap.partsOf, List.filterMap_append, List.filterMap_cons_some hpart]
    rfl
  refine ⟨l ++ r ++ [s.1], ?_, ?_, ?_⟩
  · exact List.perm_middle.trans (List.perm_append_singleton _ _).symm
  · rw [hlast]
    exact List.append_ne_nil_of_right_ne_nil _ (List.cons_ne_nil _ _)
  · rw [hlast, countShards_concat]
    rfl

/-- **The list does not depend on the order** exactly when the shards of a base agree on their
number. -/
theorem order_iff :
    (∀ dir', dir.Perm dir' → SameModels (modelEntries dir) (modelEntries dir')) ↔
      ∀ base, ∀ s ∈ shardsOf dir base, ∀ s' ∈ shardsOf dir base, s.2.total = s'.2.total := by
  constructor
  · intro h base
    have htotal : ∀ s ∈ shardsOf dir base,
        (countShards (shardsOf dir base)).total = s.2.total := fun s hs => by
      obtain ⟨dir', hperm, hne, htotal⟩ := exists_perm_total hs
      have hmem : ModelEntry.ofGroup base (countShards (shardsOf dir' base)) ∈
          (modelEntries dir').filter ModelEntry.sharded :=
        List.mem_filter.mpr ⟨mem_modelEntries.mpr (Or.inl ⟨base, hne, rfl⟩), rfl⟩
      rw [← (h dir' hperm).1] at hmem
      rcases mem_modelEntries.mp (List.mem_filter.mp hmem).1 with
        ⟨base', -, heq⟩ | ⟨file, -, -, -, heq⟩
      · obtain rfl : base = base' := congrArg ModelEntry.displayName heq
        rw [← htotal]
        exact (Prod.mk.inj (Option.some.inj (congrArg ModelEntry.shards heq))).1.symm
      · exact nomatch congrArg ModelEntry.shards heq
    intro s hs s' hs'
    rw [← htotal s hs, htotal s' hs']
  · intro htotal dir' hperm
    have hgroups : SortedMap.collect shardPart groupStep dir =
        SortedMap.collect shardPart groupStep dir' := by
      refine SortedMap.collect_congr fun base => ?_
      have hshards : (shardsOf dir base).Perm (shardsOf dir' base) :=
        SortedMap.perm_partsOf hperm base
      have hcount := countShards_perm hshards (htotal base) fun s hs s' hs' hidx hidx' =>
        name_eq_of_idx hs hs' (htotal base s hs s' hs') (hidx.trans hidx'.symm)
      have hnil : shardsOf dir base = [] ↔ shardsOf dir' base = [] := by
        rw [← List.length_eq_zero_iff, hshards.length_eq, List.length_eq_zero_iff]
      rw [foldl_groupStep, foldl_groupStep]
      change (if shardsOf dir base = [] then none else some (countShards (shardsOf dir base))) =
        if shardsOf dir' base = [] then none else some (countShards (shardsOf dir' base))
      rw [hcount]
      exact if_congr hnil rfl rfl
    refine ⟨?_, ?_⟩
    · rw [(filter_sharded dir).1, (filter_sharded dir').1, hgroups]
    · rw [(filter_sharded dir).2, (filter_sharded dir').2]
      exact (hperm.filter _).map _

section

variable (hnames : (dir.map ModelFile.name).Nodup)
  (htotal : ∀ s ∈ shardsOf dir base, ∀ s' ∈ shardsOf dir base, s.2.total = s'.2.total)

include hnames htotal

/-- **A group says whether its shards are all there** exactly when its numbers can be counted. -/
theorem complete_iff {s : ModelFile × ModelShard} (hs : s ∈ shardsOf dir base) :
    (((ModelEntry.ofGroup base (countShards (shardsOf dir base))).sharded = true ∧
        (ModelEntry.ofGroup base (countShards (shardsOf dir base))).complete = true) ↔
      ∃ total, (ModelEntry.ofGroup base (countShards (shardsOf dir base))).shardCount = some total ∧
        ∀ name ∈ shardNames base total, name ∈ dir.map ModelFile.name) ↔
    let numbers := (shardsOf dir base).map fun s => s.2.idx
    strayNumbers s.2.total numbers = [] ∨ missingNumbers s.2.total numbers ≠ [] ∧
      ((strayNumbers s.2.total numbers).length ≠ (missingNumbers s.2.total numbers).length ∨
        1 ∉ numbers) := by
  have hcount : (ModelEntry.ofGroup base (countShards (shardsOf dir base))).shardCount =
      some s.2.total := congrArg some (total_countShards htotal hs)
  have hne : ((shardsOf dir base).map fun s => s.2.idx) ≠ [] :=
    List.ne_nil_of_mem (List.mem_map_of_mem hs)
  rw [← counting_iff (nodup_numbers hnames htotal) hne, complete_ofGroup_iff hnames htotal hs,
    hcount, and_iff_right (show (ModelEntry.ofGroup base _).sharded = true from rfl)]
  simp only [Option.some_inj, exists_eq_left', shardNames_mem_iff htotal hs]

/-- The path of a model that is complete is that of its first shard. -/
theorem path_of_complete {s : ModelFile × ModelShard} (hs : s ∈ shardsOf dir base)
    (h : (ModelEntry.ofGroup base (countShards (shardsOf dir base))).complete = true) :
    ∃ total, (ModelEntry.ofGroup base (countShards (shardsOf dir base))).shardCount = some total ∧
      ∃ first, (shardNames base total).head? = some first ∧
        (ModelEntry.ofGroup base (countShards (shardsOf dir base))).path = modelsDir ++ first := by
  obtain ⟨hlength, hmem⟩ := (complete_ofGroup_iff hnames htotal hs).mp h
  have hfirst := have1_countShards (shardsOf dir base) |>.mpr hmem
  obtain ⟨s', hs', hidx, hname⟩ := shard1_countShards hfirst
  obtain ⟨-, hfile, hbase⟩ := mem_shardsOf.mp hs'
  have hpos : 0 < s.2.total := by
    rw [← hlength]
    exact List.length_pos_of_mem hmem
  refine ⟨s.2.total, congrArg some (total_countShards htotal hs),
    buildShardFilename base 1 s.2.total, ?_, ?_⟩
  · rw [shardNames, List.head?_map, List.head?_range, if_neg hpos.ne']
    rfl
  · rw [ModelEntry.path, ModelEntry.ofGroup]
    dsimp only
    rw [if_pos hfirst, hname, hfile.eq, hbase, hidx, htotal s' hs' s hs]
    rfl

end

/-- **A directory is listed as it is** exactly when the names of its files can be written and the
shards of each base fit together. -/
theorem listsFaithfully_iff (hnames : (dir.map ModelFile.name).Nodup) : ListsFaithfully dir ↔
    (∀ file ∈ dir, isDot file.name = false → Utf8.valid file.name = true) ∧
      ∀ base, ShardsFit (shardsOf dir base) := by
  constructor
  · intro h
    have htotal := order_iff.mp h.order
    refine ⟨isSome_handleModelList_iff.mp h.returns, fun base => ?_⟩
    refine ⟨htotal base, (size_eq_iff hnames).mp h.size base, fun s hs => ?_⟩
    exact (complete_iff hnames (htotal base) hs).mp
      (h.complete _ (mem_modelEntries.mpr (Or.inl ⟨base, List.ne_nil_of_mem hs, rfl⟩)))
  · rintro ⟨hvalid, hfit⟩
    refine ⟨isSome_handleModelList_iff.mpr hvalid, fun file => countP_accountsFor hnames,
      (size_eq_iff hnames).mpr fun base => (hfit base).size, fun e he => ?_, fun e he _ hdone => ?_,
      order_iff.mpr fun base => (hfit base).total⟩
    · rcases mem_modelEntries.mp he with ⟨base, hne, rfl⟩ | ⟨file, -, -, -, rfl⟩
      · obtain ⟨s, hs⟩ := List.exists_mem_of_ne_nil _ hne
        exact (complete_iff hnames (hfit base).total hs).mpr ((hfit base).numbers s hs)
      · refine iff_of_false (fun h => nomatch h.1) ?_
        rintro ⟨total, hnone, -⟩
        exact nomatch hnone
    · rename_i hsharded
      rcases mem_modelEntries.mp he with ⟨base, hne, rfl⟩ | ⟨file, -, -, -, rfl⟩
      · obtain ⟨s, hs⟩ := List.exists_mem_of_ne_nil _ hne
        exact path_of_complete hnames (hfit base).total hs hdone
      · exact nomatch hsharded

end

/-- A model of two shards whose second one has the wrong number. -/
def strayShardDir : List ModelFile :=
  ["m-00001-of-00002.gguf", "m-00003-of-00002.gguf"].map fun name =>
    { name := name.toList, stat := some { size := 1, size_lt := by decide, mtime := 0 } }

theorem listsFaithfully_strayShardDir : (strayShardDir.map ModelFile.name).Nodup ∧
    (ListsFaithfully strayShardDir ↔
      (∀ file ∈ strayShardDir, isDot file.name = false → Utf8.valid file.name = true) ∧
        ∀ base, ShardsFit (shardsOf strayShardDir base)) :=
  ⟨by decide +kernel, listsFaithfully_iff (by decide +kernel)⟩

/-- A shard that does not belong to the model is counted for the one that is missing. -/
theorem not_listsFaithfully : ¬∀ dir, (dir.map ModelFile.name).Nodup → ListsFaithfully dir :=
    fun h => by
  have hnames : (strayShardDir.map ModelFile.name).Nodup := by decide +kernel
  have htotal : ∀ s ∈ shardsOf strayShardDir "m", ∀ s' ∈ shardsOf strayShardDir "m",
      s.2.total = s'.2.total := by decide +kernel
  have hnumbers : (shardsOf strayShardDir "m").map (fun s => (s.2.idx, s.2.total)) =
      [(1, 2), (3, 2)] := by decide +kernel
  obtain ⟨s, hs, hs2⟩ : ∃ s ∈ shardsOf strayShardDir "m", (s.2.idx, s.2.total) = (1, 2) :=
    List.mem_map.mp (hnumbers ▸ List.mem_cons_self)
  have hlisted := (h strayShardDir hnames).complete _
    (mem_modelEntries.mpr (Or.inl ⟨_, List.ne_nil_of_mem hs, rfl⟩))
  have hfit := (complete_iff hnames htotal hs).mp hlisted
  have hidx : (shardsOf strayShardDir "m").map (fun s => s.2.idx) = [1, 3] := by decide +kernel
  rw [hidx, (Prod.mk.inj hs2).2] at hfit
  exact absurd hfit (by decide)

end Llamaste
