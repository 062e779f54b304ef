import Llamaste.Lib.JsonDump
import Llamaste.Lib.SortedMap
import Llamaste.ModelOverride
import Llamaste.ShardNames

/-!
# The list of models

The list has one entry for the shards of each base name and one for every other file. A shard has
the name that is written for it with numbers of five digits.

Source: `tools_model.cpp` (`parse_shard`, `handle_model_list`).

## Main results

* `shardOf_eq_some_iff`: the names of shards.
-/

namespace Llamaste

open CInt

/-! ### Names and sizes -/

/-- The labels of quantizations, in the order in which they are looked for. -/
def quantTypes : List Text :=
  ["Q2_K", "Q3_K_S", "Q3_K_M", "Q3_K_L", "Q4_0", "Q4_1", "Q4_K_S", "Q4_K_M", "Q5_0", "Q5_1",
    "Q5_K_S", "Q5_K_M", "Q6_K", "Q8_0", "F16", "F32", "IQ1_S", "IQ1_M", "IQ2_XXS", "IQ2_XS",
    "IQ2_S", "IQ2_M", "IQ3_XXS", "IQ3_XS", "IQ3_S", "IQ4_NL", "IQ4_XS"].map String.toList

/-- `detect_quantization`. -/
def detectQuantization (filename : Text) : Text :=
  (quantTypes.find? fun quant => (Text.afterFirst quant (filename.map Char.toUpper)).isSome).getD
    "unknown"

/-- `%.2f` of a quotient. -/
def twoDecimals (n d : ℕ) : Text :=
  let hundredths := roundDiv (100 * n) d
  Text.ofNat (hundredths / 100) ++ "." ++ Text.ofNat (hundredths / 10 % 10) ++
    Text.ofNat (hundredths % 10)

/-- `human_size`. -/
def humanSize (bytes : ℕ) : Text :=
  if bytes < 1024 then Text.ofNat bytes ++ " B"
  else if bytes < 1024 * 1024 then Text.ofNat (bytes / 1024) ++ " KB"
  else if bytes < 1024 * 1024 * 1024 then oneDecimal (doubleOfNat bytes) (1024 * 1024) ++ " MB"
  else twoDecimals (doubleOfNat bytes) (1024 * 1024 * 1024) ++ " GB"

/-- What the name of a shard says. -/
structure ModelShard where
  base : Text
  idx : ℕ
  total : ℕ

/-- `parse_shard`. The numbers have five digits and are always an `int`. -/
def parseShard (name : Text) : Option ModelShard :=
  if name.length < 5 ∨ name.drop (name.length - 5) ≠ ".gguf".toList then none
  else
    let stem := name.take (name.length - 5)
    match Text.rfind "-of-" stem with
    | none => none
    | some pos =>
      if pos < 6 then none
      else if stem[pos - 6]? ≠ some '-' then none
      else
        let cur := (stem.drop (pos - 5)).take 5
        let tot := stem.drop (pos + 4)
        if tot.length ≠ 5 then none
        else if cur.all Char.isDigit = false then none
        else if tot.all Char.isDigit = false then none
        else some { base := stem.take (pos - 6), idx := Nat.ofDigitChars 10 cur 0
                    total := Nat.ofDigitChars 10 tot 0 }

/-- `is_gguf`. -/
def isGguf (name : Text) : Bool :=
  5 < name.length && (name.drop (name.length - 5)).map Char.toLower == ".gguf".toList

/-- The shard that a file counts as. -/
def shardOf (name : Text) : Option ModelShard := if isGguf name then parseShard name else none

/-! ### Reading the directory -/

/-- What `stat` says of a file. -/
structure FileStat where
  size : ℕ
  size_lt : size < 2 ^ 63
  mtime : ℤ

/-- An entry of the directory; `stat` may fail. -/
structure ModelFile where
  name : Text
  stat : Option FileStat

/-- The size that is counted for a file. -/
def ModelFile.size (file : ModelFile) : ℕ := (file.stat.map FileStat.size).getD 0

def ModelFile.mtime (file : ModelFile) : ℤ := (file.stat.map FileStat.mtime).getD 0

/-- `Group`. -/
structure ModelGroup where
  shard1 : Text := []
  size : ℕ := 0
  total : ℕ := 0
  present : ℤ := 0
  mtime : ℤ := 0
  quant : Text := []
  have1 : Bool := false

/-- A shard is counted. -/
def ModelGroup.add (g : ModelGroup) (file : ModelFile) (shard : ModelShard) : ModelGroup :=
  { shard1 := if shard.idx = 1 then file.name else g.shard1
    size := (g.size + file.size) % 2 ^ 64
    total := shard.total
    present := toInt32 (g.present + 1)
    mtime := if g.mtime < file.mtime then file.mtime else g.mtime
    quant := if shard.idx = 1 then detectQuantization file.name else g.quant
    have1 := if shard.idx = 1 then true else g.have1 }

/-- The files read so far: those that are no shards, and the groups in the order of their names. -/
structure ModelScan where
  singles : List ModelFile := []
  groups : List (Text × ModelGroup) := []

/-- `.` and `..`. -/
def isDot (name : Text) : Bool := name == ".".toList || name == "..".toList

/-- An entry is read. -/
def ModelScan.read (scan : ModelScan) (file : ModelFile) : ModelScan :=
  if isDot file.name then scan
  else
    match shardOf file.name with
    | some shard =>
        let groups := SortedMap.update shard.base (fun g => (g.getD {}).add file shard) scan.groups
        { scan with groups }
    | none => { scan with singles := scan.singles ++ [file] }

/-! ### The entries -/

/-- An entry of the list; a model in shards has their total and how many are there. -/
structure ModelEntry where
  filename : Text
  displayName : Text
  sizeBytes : ℕ
  modified : ℤ
  format : Text
  quantization : Option Text
  shards : Option (ℕ × ℤ)
  complete : Bool

namespace ModelEntry

def path (e : ModelEntry) : Text := modelsDir ++ e.filename

def sharded (e : ModelEntry) : Bool := e.shards.isSome

def shardCount (e : ModelEntry) : Option ℕ := e.shards.map Prod.fst

/-- The members of the entry as it is written. -/
def members (e : ModelEntry) : List (Text × Json) :=
  [("filename".toList, Json.str e.filename), ("display_name".toList, Json.str e.displayName),
    ("path".toList, Json.str e.path), ("size_bytes".toList, Json.int e.sizeBytes),
    ("size_human".toList, Json.str (humanSize e.sizeBytes)),
    ("modified".toList, Json.int e.modified), ("format".toList, Json.str e.format)] ++
  (match e.quantization with
    | some quant => [("quantization".toList, Json.str quant)]
    | none => []) ++
  [("sharded".toList, Json.bool e.sharded)] ++
  (match e.shards with
    | some (total, present) =>
        [("shard_count".toList, Json.int total), ("shards_present".toList, Json.int present)]
    | none => []) ++
  [("complete".toList, Json.bool e.complete)]

def json (e : ModelEntry) : Json := .object e.members

/-- The entry of a group. -/
def ofGroup (base : Text) (g : ModelGroup) : ModelEntry where
  filename := if g.have1 then g.shard1 else base ++ ".gguf"
  displayName := base
  sizeBytes := g.size
  modified := g.mtime
  format := "GGUF"
  quantization := some (if g.quant = [] then detectQuantization base else g.quant)
  shards := some (g.total, g.present)
  complete := decide (g.present = g.total) && g.have1

/-- The entry of a file that is no shard. -/
def ofSingle (file : ModelFile) : ModelEntry where
  filename := file.name
  displayName := file.name
  sizeBytes := file.size
  modified := file.mtime
  format := if isGguf file.name then "GGUF" else "other"
  quantization := if isGguf file.name then some (detectQuantization file.name) else none
  shards := none
  complete := true

end ModelEntry

/-- The entries for a directory that is read in this order. -/
def modelEntries (dir : List ModelFile) : List ModelEntry :=
  let scan := dir.foldl ModelScan.read {}
  scan.groups.map (fun kv => .ofGroup kv.1 kv.2) ++ scan.singles.map .ofSingle

/-- `handle_model_list`, with `none` for a directory that cannot be opened. The result is `none` for
an exception. -/
def handleModelList : Option (List ModelFile) → Option Text
  | none =>
      (Json.object [("models".toList, .arr []), ("count".toList, .int 0),
        ("note".toList, .str "models directory not found: /data/models")]).dump
  | some dir =>
      (Json.object [("models".toList, .arr ((modelEntries dir).map ModelEntry.json)),
        ("count".toList, .int (modelEntries dir).length),
        ("directory".toList, .str "/data/models")]).dump

/-! ### What the list should say -/

/-- The shards of a model, in order. -/
def shardNames (base : Text) (total : ℕ) : List Text :=
  (List.range total).map fun i => buildShardFilename base (i + 1 : ℕ) total

/-- A number of five digits. -/
theorem padFive_of_lt {n : ℕ} (h : n < 100000) :
    (∀ c ∈ padFive n, c.isDigit = true) ∧ (padFive n).length = 5 ∧
      Nat.ofDigitChars 10 (padFive n) 0 = n := by
  obtain ⟨hdigits, -, hvalue⟩ := padFive_of_nonneg (Int.natCast_nonneg n)
  refine ⟨hdigits, ?_, Int.ofNat.inj hvalue⟩
  have hlen : (Text.ofNat n).length ≤ 5 :=
    (Nat.length_toDigits_le_iff (by decide) (by decide)).mpr h
  rw [padFive, if_neg (Int.not_lt.mpr (Int.natCast_nonneg n)), List.nil_append,
    List.length_append, List.length_replicate, List.length_nil, Int.natAbs_natCast]
  omega

theorem padFive_ofDigitChars {s : Text} (hs : ∀ c ∈ s, c.isDigit = true) (hlen : s.length = 5) :
    padFive (Nat.ofDigitChars 10 s 0 : ℕ) = s := by
  have hlt := Text.ofDigitChars_lt hs
  rw [hlen] at hlt
  obtain ⟨hdigits, hpad, hvalue⟩ := padFive_of_lt hlt
  exact Text.ofDigitChars_inj hdigits hs (hpad.trans hlen.symm) hvalue

/-- A shard of the five digits that it is written with. -/
structure IsShardFile (name : Text) (shard : ModelShard) : Prop where
  eq : name = buildShardFilename shard.base shard.idx shard.total
  idx_lt : shard.idx < 100000
  total_lt : shard.total < 100000

theorem parseShard_of_isShardFile {name : Text} {shard : ModelShard} (h : IsShardFile name shard) :
    parseShard name = some shard := by
  obtain ⟨hcurDigits, hcurLen, hcur⟩ := padFive_of_lt h.idx_lt
  obtain ⟨htotDigits, htotLen, htot⟩ := padFive_of_lt h.total_lt
  have hname : name = shard.base ++ '-' :: padFive shard.idx ++
      ("-of-" ++ padFive shard.total) ++ ".gguf" := by
    rw [h.eq, buildShardFilename]
    simp only [List.append_assoc]
    rfl
  have hlen : name.length - 5 = (shard.base ++ '-' :: padFive shard.idx ++
      ("-of-" ++ padFive shard.total)).length := by
    rw [hname, List.length_append]
    rfl
  have hpos : (shard.base ++ '-' :: padFive shard.idx).length = shard.base.length + 6 := by
    rw [List.length_append, List.length_cons, hcurLen]
  have hdash : '-' ∉ padFive shard.total := fun hmem => absurd (htotDigits _ hmem) (by decide)
  have hstem : name.take (name.length - 5) = shard.base ++ '-' :: padFive shard.idx ++
      ("-of-" ++ padFive shard.total) := by
    rw [hlen, hname, List.take_left]
  have hof := rfind_of (u := shard.base ++ '-' :: padFive shard.idx) hdash
  rw [hpos] at hof
  have hsuffix : ¬(name.length < 5 ∨ name.drop (name.length - 5) ≠ ".gguf".toList) := by
    rw [hlen, hname, List.drop_left, not_or]
    refine ⟨Nat.not_lt.mpr ?_, fun hne => hne rfl⟩
    rw [List.length_append]
    exact Nat.le_add_left 5 _
  have hget : (shard.base ++ '-' :: padFive shard.idx ++
      ("-of-" ++ padFive shard.total))[shard.base.length + 6 - 6]? = some '-' := by
    rw [Nat.add_sub_cancel, List.append_assoc, List.getElem?_append_right (Nat.le_refl _),
      Nat.sub_self]
    rfl
  have hcurText : ((shard.base ++ '-' :: padFive shard.idx ++
      ("-of-" ++ padFive shard.total)).drop (shard.base.length + 6 - 5)).take 5 =
        padFive shard.idx := by
    rw [List.append_assoc, show shard.base.length + 6 - 5 = shard.base.length + 1 from rfl,
      List.drop_length_add_append]
    exact List.take_left' hcurLen
  have htotText : (shard.base ++ '-' :: padFive shard.idx ++
      ("-of-" ++ padFive shard.total)).drop (shard.base.length + 6 + 4) = padFive shard.total := by
    rw [← hpos, List.drop_length_add_append]
    rfl
  have hbase : (shard.base ++ '-' :: padFive shard.idx ++
      ("-of-" ++ padFive shard.total)).take (shard.base.length + 6 - 6) = shard.base := by
    rw [Nat.add_sub_cancel, List.append_assoc, List.take_left]
  rw [parseShard, if_neg hsuffix, hstem]
  dsimp only
  rw [hof]
  dsimp only
  rw [if_neg (Nat.not_lt.mpr (Nat.le_add_left _ _)), if_neg (not_not.mpr hget), hcurText, htotText,
    hbase, if_neg (not_not.mpr htotLen), if_neg, if_neg, hcur, htot]
  · rw [List.all_eq_true.mpr htotDigits]
    rintro ⟨⟩
  · rw [List.all_eq_true.mpr hcurDigits]
    rintro ⟨⟩

theorem isShardFile_of_parseShard {name : Text} {shard : ModelShard}
    (h : parseShard name = some shard) : IsShardFile name shard := by
  rw [parseShard] at h
  by_cases hsuffix : name.length < 5 ∨ name.drop (name.length - 5) ≠ ".gguf".toList
  · rw [if_pos hsuffix] at h
    exact nomatch h
  rw [if_neg hsuffix] at h
  have hname := List.take_append_drop (name.length - 5) name
  rw [not_not.mp (not_or.mp hsuffix).2] at hname
  dsimp only at h
  generalize name.take (name.length - 5) = stem at h hname
  cases hof : Text.rfind "-of-" stem with
  | none =>
      rw [hof] at h
      exact nomatch h
  | some pos =>
      rw [hof] at h
      dsimp only at h
      split_ifs at h with hpos hdash htot hcur htotDigits
      obtain ⟨u, r, rfl, rfl⟩ := Text.eq_append_of_rfind hof
      have hr : (u ++ ("-of-" ++ r)).drop (u.length + 4) = r := by
        rw [List.drop_length_add_append]
        rfl
      rw [hr] at h htot htotDigits
      have hsplit : u = u.take (u.length - 6) ++ '-' :: (u.drop (u.length - 5)) := by
        have hget : u[u.length - 6]? = some '-' := by
          rw [← not_not.mp hdash, List.getElem?_append_left (by omega)]
        have hlt : u.length - 6 < u.length := by omega
        have hhead := List.drop_eq_getElem_cons hlt
        rw [List.getElem?_eq_getElem hlt] at hget
        rw [Option.some.inj hget, show u.length - 6 + 1 = u.length - 5 by omega] at hhead
        rw [← hhead, List.take_append_drop]
      have hcurText :
          ((u ++ ("-of-" ++ r)).drop (u.length - 5)).take 5 = u.drop (u.length - 5) := by
        rw [List.drop_append_of_le_length (by omega)]
        exact List.take_left' (by rw [List.length_drop]; omega)
      have hbase : (u ++ ("-of-" ++ r)).take (u.length - 6) = u.take (u.length - 6) :=
        List.take_append_of_le_length (by omega)
      rw [hcurText] at h hcur
      rw [hbase] at h
      obtain rfl := Option.some.inj h
      have hcurDigits := List.all_eq_true.mp (Bool.not_eq_false _ ▸ hcur)
      have hrDigits := List.all_eq_true.mp (Bool.not_eq_false _ ▸ htotDigits)
      have hcurLen : (u.drop (u.length - 5)).length = 5 := by
        rw [List.length_drop]
        omega
      have hcurLt := Text.ofDigitChars_lt hcurDigits
      have hrLt := Text.ofDigitChars_lt hrDigits
      rw [hcurLen] at hcurLt
      rw [not_not.mp htot] at hrLt
      refine ⟨?_, hcurLt, hrLt⟩
      rw [buildShardFilename]
      dsimp only
      rw [padFive_ofDigitChars hcurDigits hcurLen, padFive_ofDigitChars hrDigits (not_not.mp htot),
        ← hname]
      conv_lhs => rw [hsplit]
      simp only [List.append_assoc]
      rfl

/-- A file counts as a shard exactly when it has the name of one. -/
theorem shardOf_eq_some_iff {name : Text} {shard : ModelShard} :
    shardOf name = some shard ↔ IsShardFile name shard := by
  rw [shardOf]
  constructor
  · intro h
    split_ifs at h
    exact isShardFile_of_parseShard h
  · intro h
    obtain ⟨-, hlen, -⟩ := padFive_of_lt h.total_lt
    have hname : name = shard.base ++ "-" ++ padFive shard.idx ++ "-of-" ++ padFive shard.total ++
        ".gguf" := h.eq
    have hgguf : isGguf name = true := by
      have hlong : 5 < name.length := by
        rw [hname, List.length_append, List.length_append, hlen]
        exact Nat.lt_of_lt_of_le (by decide) (Nat.add_le_add (Nat.le_add_left 5 _) (Nat.le_refl 5))
      have hdrop : name.drop (name.length - 5) = ".gguf".toList := by
        have hsub : name.length - 5 = (shard.base ++ "-" ++ padFive shard.idx ++ "-of-" ++
            padFive shard.total : Text).length := by
          rw [hname, List.length_append]
          rfl
        rw [hsub, hname, List.drop_left]
      rw [isGguf, hdrop, decide_eq_true hlong]
      rfl
    rw [if_pos hgguf, parseShard_of_isShardFile h]

/-- The files that an entry is about. -/
def ModelEntry.AccountsFor (e : ModelEntry) (name : Text) : Prop :=
  if e.sharded = true then ∃ shard, IsShardFile name shard ∧ shard.base = e.displayName
  else name = e.filename

theorem ModelEntry.accountsFor_iff {e : ModelEntry} {name : Text} : e.AccountsFor name ↔
    (if e.sharded then (shardOf name).any fun shard => shard.base = e.displayName
      else decide (name = e.filename)) = true := by
  rw [AccountsFor]
  by_cases hsharded : e.sharded = true
  · rw [if_pos hsharded, if_pos hsharded, Option.any_eq_true]
    simp only [shardOf_eq_some_iff, decide_eq_true_eq]
  · rw [if_neg hsharded, if_neg hsharded, decide_eq_true_eq]

instance (e : ModelEntry) : DecidablePred e.AccountsFor := fun _ =>
  decidable_of_iff' _ e.accountsFor_iff

end Llamaste
