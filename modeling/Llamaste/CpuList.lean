import Mathlib
import Llamaste.Lib.Runs
import Llamaste.Lib.Strto

/-!
# Lists of CPUs

The kernel names a set of CPUs by the runs in it, and so do the options of the inference server. A
list is read by a loop over each run.

Source: `cpu_topology.h` (`parse_cpulist`, `format_cpulist`).

## Main results

* `parseCpulist_formatCpulist`: a set that is written is read back, and its maximal runs are what is
  written.
-/

namespace Llamaste

/-! ### Reading -/

/-- The tokens of a list. A comma at the end is that of the last one. -/
def cpuTokens (list : Text) : List Text :=
  let tokens := list.splitOn ','
  if tokens.getLast? = some [] then tokens.dropLast else tokens

/-- The CPUs of a token, a number or the ends of a run. An exception is `none`. -/
def tokenCpus (run : ℤ → ℤ → Option (Finset ℤ)) (token : Text) : Option (Finset ℤ) :=
  if '-' ∈ token then do
    let lo ← Strto.stoi (token.takeWhile (· ≠ '-'))
    let hi ← Strto.stoi (token.dropWhile (· ≠ '-')).tail
    run lo hi
  else (Strto.stoi token).map ({·})

/-- The CPUs of a list, for a way to go through a run. -/
def readCpulist (run : ℤ → ℤ → Option (Finset ℤ)) (list : Text) : Option (Finset ℤ) :=
  (cpuTokens list).foldlM (fun cpus token => (tokenCpus run token).map (cpus ∪ ·)) ∅

/-- The loop over a run. It has no end if that is the largest `int`. -/
def runLoop (lo hi : ℤ) : Option (Finset ℤ) :=
  if hi = 2 ^ 31 - 1 then none else some (Runs.between lo hi)

/-- `parse_cpulist`. An exception is `none`, and so is a loop that does not end. -/
def parseCpulist (list : Text) : Option (Finset ℤ) := readCpulist runLoop list

/-- The CPUs that a list stands for. -/
def denotedCpus (list : Text) : Option (Finset ℤ) :=
  readCpulist (fun lo hi => some (Runs.between lo hi)) list

/-! ### Writing -/

/-- A run as it is written. -/
def runText (r : ℤ × ℤ) : Text :=
  if r.1 = r.2 then Json.dumpInt r.1 else Json.dumpInt r.1 ++ '-' :: Json.dumpInt r.2

/-- A run is written behind the others. -/
def appendRun (result : Text) (r : ℤ × ℤ) : Text :=
  (if result = [] then [] else result ++ [',']) ++ runText r

/-- The loop over the CPUs behind a run. -/
def formatLoop (result : Text) (rangeStart rangeEnd : ℤ) : List ℤ → Text
  | [] => appendRun result (rangeStart, rangeEnd)
  | i :: is =>
    if i = rangeEnd + 1 then formatLoop result rangeStart i is
    else formatLoop (appendRun result (rangeStart, rangeEnd)) i i is

/-- `format_cpulist`. -/
def formatCpulist (cpus : Finset ℤ) : Text :=
  match cpus.sort with
  | [] => []
  | i :: is => formatLoop [] i i is

/-! ### What is written -/

theorem dumpInt_ne_nil (n : ℤ) : Json.dumpInt n ≠ [] := by
  obtain ⟨c, t, htext, -⟩ := Json.dumpInt_head n
  rw [htext]
  exact List.cons_ne_nil c t

theorem formatLoop_eq (result : Text) (rangeStart rangeEnd : ℤ) (is : List ℤ) :
    formatLoop result rangeStart rangeEnd is =
      (Runs.runsFrom rangeStart rangeEnd is).foldl appendRun result := by
  induction is generalizing result rangeStart rangeEnd with
  | nil => rfl
  | cons i is ih =>
      rw [formatLoop, Runs.runsFrom]
      split_ifs
      · exact ih result rangeStart i
      · exact ih _ i i

theorem runText_ne_nil (r : ℤ × ℤ) : runText r ≠ [] := by
  rw [runText]
  split_ifs
  · exact dumpInt_ne_nil r.1
  · exact List.append_ne_nil_of_right_ne_nil _ (List.cons_ne_nil _ _)

theorem foldl_appendRun {result : Text} (h : result ≠ []) (rs : List (ℤ × ℤ)) :
    rs.foldl appendRun result = [','].intercalate (result :: rs.map runText) := by
  induction rs generalizing result with
  | nil => exact List.intercalate_singleton.symm
  | cons r rs ih =>
      have hne : result ++ [','] ++ runText r ≠ [] :=
        List.append_ne_nil_of_right_ne_nil _ (runText_ne_nil r)
      rw [List.foldl_cons, appendRun, if_neg h, ih hne, List.map_cons,
        List.intercalate_cons_cons]
      cases rs with
      | nil => simp
      | cons r' rs => simp

/-- A set is written as its runs, with commas between them. -/
theorem formatCpulist_eq (cpus : Finset ℤ) :
    formatCpulist cpus = [','].intercalate ((Runs.runs cpus.sort).map runText) := by
  rw [formatCpulist]
  cases cpus.sort with
  | nil => rfl
  | cons i is =>
      rw [Runs.runs]
      dsimp only
      rw [formatLoop_eq]
      cases Runs.runsFrom i i is with
      | nil => rfl
      | cons r rs =>
          rw [List.foldl_cons, List.map_cons]
          exact foldl_appendRun (runText_ne_nil r) rs

/-! ### A list that is read back -/

theorem dash_notMem_dumpInt {n : ℤ} (h : 0 ≤ n) : '-' ∉ Json.dumpInt n := by
  rw [Json.dumpInt, if_neg (not_lt.mpr h)]
  exact fun hmem => absurd (Text.isDigit_toDigits _ hmem) (by decide)

theorem comma_notMem_runText (r : ℤ × ℤ) : ',' ∉ runText r := by
  have hint (n : ℤ) : ',' ∉ Json.dumpInt n := Strto.not_mem_dumpInt (by decide) n
  rw [runText]
  split_ifs
  · exact hint r.1
  · rw [List.mem_append, List.mem_cons]
    rintro (h | h | h)
    · exact hint r.1 h
    · exact absurd h (by decide)
    · exact hint r.2 h

/-- A run that is written is read back, if the loop over it ends. -/
theorem tokenCpus_runText {run : ℤ → ℤ → Option (Finset ℤ)} {r : ℤ × ℤ} (hfirst : 0 ≤ r.1)
    (hle : r.1 ≤ r.2) (hlast : r.2 < 2 ^ 31)
    (hrun : run r.1 r.2 = some (Runs.between r.1 r.2)) :
    tokenCpus run (runText r) = some (Runs.between r.1 r.2) := by
  have hdash := dash_notMem_dumpInt hfirst
  have hreads (n : ℤ) (h : 0 ≤ n ∧ n < 2 ^ 31) : Strto.stoi (Json.dumpInt n) = some n :=
    Strto.stoi_dumpInt ⟨by omega, h.2⟩
  rw [tokenCpus, runText]
  by_cases heq : r.1 = r.2
  · rw [if_pos heq, if_neg hdash, hreads r.1 ⟨hfirst, by omega⟩, ← heq, Runs.between_self]
    rfl
  · have hhead : ∀ c ∈ ('-' :: Json.dumpInt r.2).head?, c = '-' := fun c hc =>
      (Option.some.inj hc).symm
    rw [if_neg heq, if_pos (by simp), Text.takeWhile_ne hdash hhead,
      Text.dropWhile_ne hdash hhead, List.tail_cons, hreads r.1 ⟨hfirst, by omega⟩,
      hreads r.2 ⟨by omega, hlast⟩]
    exact hrun

theorem cpuTokens_intercalate {tokens : List Text} (hne : ∀ token ∈ tokens, token ≠ [])
    (hcomma : ∀ token ∈ tokens, ',' ∉ token) :
    cpuTokens ([','].intercalate tokens) = tokens := by
  rw [cpuTokens]
  by_cases hnil : tokens = []
  · subst hnil
    rfl
  · rw [List.splitOn_intercalate ',' hcomma hnil]
    exact if_neg fun hlast => hne [] (List.mem_of_mem_getLast? hlast) rfl

/-- Tokens that stand for runs are read as the CPUs of the runs. -/
theorem foldlM_tokenCpus {run : ℤ → ℤ → Option (Finset ℤ)} {rs : List (ℤ × ℤ)}
    (h : ∀ r ∈ rs, tokenCpus run (runText r) = some (Runs.between r.1 r.2)) (cpus : Finset ℤ) :
    (rs.map runText).foldlM (fun cpus token => (tokenCpus run token).map (cpus ∪ ·)) cpus =
      some (cpus ∪ Runs.expand rs) := by
  induction rs generalizing cpus with
  | nil => exact congrArg some (Finset.union_empty cpus).symm
  | cons r rs ih =>
      obtain ⟨hr, hrs⟩ := List.forall_mem_cons.mp h
      rw [List.map_cons, List.foldlM_cons, hr, Option.map_some, Option.bind_eq_bind,
        Option.bind_some, ih hrs, Runs.expand_cons, Finset.union_assoc]

/-- **A set of CPUs that is written is read back**, if the loops over its runs end. -/
theorem readCpulist_formatCpulist {run : ℤ → ℤ → Option (Finset ℤ)} {cpus : Finset ℤ}
    (hcpus : ∀ i ∈ cpus, 0 ≤ i ∧ i < 2 ^ 31)
    (hrun : ∀ lo ∈ cpus, ∀ hi ∈ cpus, run lo hi = some (Runs.between lo hi)) :
    readCpulist run (formatCpulist cpus) = some cpus := by
  have hruns : ∀ r ∈ Runs.runs cpus.sort,
      tokenCpus run (runText r) = some (Runs.between r.1 r.2) := fun r hr => by
    obtain ⟨hle, hfirst, hlast⟩ := Runs.mem_runs hr
    rw [Finset.mem_sort] at hfirst hlast
    exact tokenCpus_runText (hcpus _ hfirst).1 hle (hcpus _ hlast).2 (hrun _ hfirst _ hlast)
  rw [readCpulist, formatCpulist_eq, cpuTokens_intercalate, foldlM_tokenCpus hruns,
    Runs.expand_runs, Finset.sort_toFinset, Finset.empty_union]
  · exact List.forall_mem_map.mpr fun r _ => runText_ne_nil r
  · exact List.forall_mem_map.mpr fun r _ => comma_notMem_runText r

/-- A set is written as its maximal runs. -/
theorem exists_maximal_runs (cpus : Finset ℤ) : ∃ rs,
    formatCpulist cpus = [','].intercalate (rs.map runText) ∧ Runs.Maximal cpus rs := by
  have hsorted : cpus.sort.Pairwise (· < ·) := cpus.sortedLT_sort.pairwise
  refine ⟨Runs.runs cpus.sort, formatCpulist_eq cpus, ?_⟩
  have hmaximal := Runs.maximal_runs hsorted
  rwa [Finset.sort_toFinset] at hmaximal

/-- **A set of CPUs is read back from its list**, which is that of its maximal runs. -/
theorem parseCpulist_formatCpulist {cpus : Finset ℤ}
    (h : ∀ i ∈ cpus, 0 ≤ i ∧ i ≤ 2 ^ 31 - 2) :
    parseCpulist (formatCpulist cpus) = some cpus ∧
      ∃ rs, formatCpulist cpus = [','].intercalate (rs.map runText) ∧ Runs.Maximal cpus rs := by
  refine ⟨readCpulist_formatCpulist (fun i hi => ?_) fun lo _ hi hhi => ?_,
    exists_maximal_runs cpus⟩
  · obtain ⟨hlow, hhigh⟩ := h i hi
    exact ⟨hlow, by omega⟩
  · -- the last CPU is not the largest `int`, so that the loop ends behind it
    have hlast := (h hi hhi).2
    rw [runLoop, if_neg (by omega)]

/-- Three CPUs in a row and one alone. -/
theorem parseCpulist_fourCpus : parseCpulist (formatCpulist {0, 1, 2, 5}) = some {0, 1, 2, 5} ∧
    ∃ rs, formatCpulist {0, 1, 2, 5} = [','].intercalate (rs.map runText) ∧
      Runs.Maximal {0, 1, 2, 5} rs :=
  parseCpulist_formatCpulist (by decide)

/-! ### What can be read -/

theorem scanSign_of_notMem {s : Text} (h : '-' ∉ s) : (Json.scanSign s).1 = false := by
  fun_cases Json.scanSign s with
  | case1 r => exact absurd List.mem_cons_self h
  | case2 r => rfl
  | case3 _ => rfl

/-- A text without a minus sign is read as no negative number. -/
theorem bounds_of_stoi {s : Text} {n : ℤ} (hdash : '-' ∉ s) (h : Strto.stoi s = some n) :
    0 ≤ n ∧ n < 2 ^ 31 := by
  rw [Strto.stoi, Option.bind_eq_bind, Option.bind_eq_some_iff] at h
  obtain ⟨m, hm, h⟩ := h
  split_ifs at h with hint
  obtain rfl := Option.some.inj h
  refine ⟨?_, hint.2⟩
  rw [Strto.strtol, Option.map_eq_some_iff] at hm
  obtain ⟨⟨neg, digits⟩, hscan, rfl⟩ := hm
  have hnot : '-' ∉ (Text.cStr s).dropWhile Text.isSpace := fun hmem =>
    hdash ((List.takeWhile_sublist _).subset ((List.dropWhile_sublist _).subset hmem))
  have hneg : neg = false := by
    rw [Strto.scan] at hscan
    dsimp only at hscan
    split_ifs at hscan
    rw [← (Prod.mk.inj (Option.some.inj hscan)).1, scanSign_of_notMem hnot]
  subst hneg
  have hvalue : 0 ≤ Json.signed false digits := Int.natCast_nonneg _
  exact le_max_of_le_right (le_min hvalue (by decide))

theorem bounds_of_tokenCpus {token : Text} {cpus : Finset ℤ}
    (h : tokenCpus runLoop token = some cpus) : ∀ i ∈ cpus, 0 ≤ i ∧ i < 2 ^ 31 := by
  rw [tokenCpus] at h
  split_ifs at h with hdash
  · simp only [Option.bind_eq_bind, Option.bind_eq_some_iff] at h
    obtain ⟨lo, hlo, hi, hhi, hrun⟩ := h
    have hword : '-' ∉ token.takeWhile (· ≠ '-') := fun hmem =>
      absurd (List.mem_takeWhile_imp hmem) (by decide)
    have hlow := (bounds_of_stoi hword hlo).1
    have hhigh : hi < 2 ^ 31 := by
      rw [Strto.stoi, Option.bind_eq_bind, Option.bind_eq_some_iff] at hhi
      obtain ⟨m, -, hhi⟩ := hhi
      split_ifs at hhi with hint
      obtain rfl := Option.some.inj hhi
      exact hint.2
    rw [runLoop] at hrun
    split_ifs at hrun
    obtain rfl := Option.some.inj hrun
    intro i hmem
    rw [Runs.mem_between] at hmem
    exact ⟨hlow.trans hmem.1, hmem.2.trans_lt hhigh⟩
  · obtain ⟨n, hn, rfl⟩ := Option.map_eq_some_iff.mp h
    intro i hmem
    rw [Finset.mem_singleton.mp hmem]
    exact bounds_of_stoi hdash hn

/-- The CPUs of a list that is read are no negative numbers. -/
theorem bounds_of_parseCpulist {list : Text} {cpus : Finset ℤ}
    (h : parseCpulist list = some cpus) : ∀ i ∈ cpus, 0 ≤ i ∧ i < 2 ^ 31 := by
  have hfold (tokens : List Text) (before : Finset ℤ) (hbefore : ∀ i ∈ before, 0 ≤ i ∧ i < 2 ^ 31)
      (h : tokens.foldlM (fun cpus token => (tokenCpus runLoop token).map (cpus ∪ ·)) before =
        some cpus) : ∀ i ∈ cpus, 0 ≤ i ∧ i < 2 ^ 31 := by
    induction tokens generalizing before with
    | nil =>
        obtain rfl := Option.some.inj h
        exact hbefore
    | cons token tokens ih =>
        rw [List.foldlM_cons, Option.bind_eq_bind, Option.bind_eq_some_iff] at h
        obtain ⟨next, hnext, h⟩ := h
        obtain ⟨added, hadded, rfl⟩ := Option.map_eq_some_iff.mp hnext
        refine ih _ (fun i hmem => ?_) h
        rcases Finset.mem_union.mp hmem with hmem | hmem
        · exact hbefore i hmem
        · exact bounds_of_tokenCpus hadded i hmem
  exact hfold _ ∅ (fun _ h => absurd h (Finset.notMem_empty _)) h

end Llamaste
