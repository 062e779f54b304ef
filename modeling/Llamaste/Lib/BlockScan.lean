import Mathlib

/-!
# Blocks of lines

Lines are read one after the other. A head line ends the block before it and starts the next, the
lines behind it are read into the block, and lines before the first head are skipped.

## Main results

* `BlockScan.run_eq`: such a scan flushes the blocks of the lines one after the other.
* `BlockScan.foldl_last`, `BlockScan.foldl_any`: a part of a block that lines set, and a part that
  they switch on.
-/

/-- A scan that collects a result from blocks of lines. -/
structure BlockScan (Line Block Result : Type*) where
  isHead : Line → Bool
  start : Line → Block
  read : Block → Line → Block
  flush : Result → Block → Result

namespace BlockScan

variable {Line Block Result : Type*}

/-- What stands before the first head, and the blocks: each head with the lines behind it. -/
def split (isHead : Line → Bool) : List Line → List Line × List (Line × List Line)
  | [] => ([], [])
  | l :: ls =>
    if isHead l then ([], (l, (split isHead ls).1) :: (split isHead ls).2)
    else (l :: (split isHead ls).1, (split isHead ls).2)

/-- The blocks of lines. -/
def blocks (isHead : Line → Bool) (ls : List Line) : List (Line × List Line) :=
  (split isHead ls).2

/-- Without a head there is no block. -/
theorem blocks_eq_nil {isHead : Line → Bool} {ls : List Line} (h : ∀ l ∈ ls, isHead l = false) :
    blocks isHead ls = [] := by
  induction ls with
  | nil => rfl
  | cons l ls ih =>
    obtain ⟨hl, hls⟩ := List.forall_mem_cons.mp h
    rw [blocks, split, if_neg (by rw [hl]; exact Bool.false_ne_true)]
    exact ih hls

section

variable (S : BlockScan Line Block Result)

/-- The result and the block that is not ended. -/
structure State (Block Result : Type*) where
  result : Result
  block : Option Block

/-- The result with the block that is not ended. -/
def flushed (s : State Block Result) : Result :=
  match s.block with
  | none => s.result
  | some b => S.flush s.result b

/-- One line is read. -/
def step (s : State Block Result) (l : Line) : State Block Result :=
  if S.isHead l then ⟨S.flushed s, some (S.start l)⟩
  else ⟨s.result, s.block.map fun b => S.read b l⟩

/-- All lines are read. -/
def run (init : Result) (ls : List Line) : Result := S.flushed (ls.foldl S.step ⟨init, none⟩)

/-- A block that is read. -/
def ofBlock (b : Line × List Line) : Block := b.2.foldl S.read (S.start b.1)

/-- The lines before the first head belong to the block that is not ended. -/
theorem flushed_foldl (s : State Block Result) (ls : List Line) :
    S.flushed (ls.foldl S.step s) =
      ((blocks S.isHead ls).map S.ofBlock).foldl S.flush
        (S.flushed ⟨s.result, s.block.map fun b => (split S.isHead ls).1.foldl S.read b⟩) := by
  induction ls generalizing s with
  | nil => cases hblock : s.block <;> simp [blocks, split, flushed, hblock]
  | cons l ls ih =>
    rw [List.foldl_cons, ih, step, blocks, blocks, split]
    cases S.isHead l with
    | true =>
      simp only [if_true, List.map_cons, List.foldl_cons, Option.map_some, List.foldl_nil,
        Option.map_id']
      rfl
    | false =>
      simp only [Bool.false_eq_true, if_false, Option.map_map]
      rfl

/-- **A scan flushes the blocks of the lines one after the other.** -/
theorem run_eq (init : Result) (ls : List Line) :
    S.run init ls = ((blocks S.isHead ls).map S.ofBlock).foldl S.flush init :=
  S.flushed_foldl ⟨init, none⟩ ls

end

/-! ### Parts of a block -/

variable {Part : Type*} {read : Block → Line → Block}

/-- A part that lines set has its last value. -/
theorem foldl_last (part : Block → Part) {value : Line → Option Part}
    (h : ∀ b l, part (read b l) = (value l).getD (part b)) (b : Block) (ls : List Line) :
    part (ls.foldl read b) = (ls.filterMap value).getLast?.getD (part b) := by
  induction ls generalizing b with
  | nil => rfl
  | cons l ls ih =>
    rw [List.foldl_cons, ih, h, List.filterMap_cons]
    cases value l with
    | none => rfl
    | some v =>
      simp only [List.getLast?_cons, Option.getD_some]

/-- A part that lines switch on. -/
theorem foldl_any (part : Block → Bool) {on : Line → Bool}
    (h : ∀ b l, part (read b l) = (part b || on l)) (b : Block) (ls : List Line) :
    part (ls.foldl read b) = (part b || ls.any on) := by
  induction ls generalizing b with
  | nil => rw [List.any_nil, Bool.or_false, List.foldl_nil]
  | cons l ls ih => rw [List.foldl_cons, ih, h, List.any_cons, Bool.or_assoc]

end BlockScan
