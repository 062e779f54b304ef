import Llamaste.Agent
import Llamaste.Lib.JsonScan

/-!
# Tool calls in the text of the model

The model writes a call as a JSON object between two tags. The reader takes the texts between
the tags one after the other; a text that is no object, or has no name, is passed over. An
exception is `none`. Source: `agent.cpp`.

## Main results

* `blocksOf_append`: the blocks of a text that ends with a closing tag come first.
* `mem_blocksOf`: where a block stands in a text between two tags.
-/

namespace Llamaste

/-! ### The reader -/

/-- The text of the next block and the text behind it. -/
def nextBlock (text : Text) : Option (Text × Text) :=
  (Text.afterFirst toolCallStart text).bind (Text.splitFirst toolCallEnd)

/-- The texts of the blocks; the fuel bounds their number. -/
def qwenBlocks : ℕ → Text → List Text
  | 0, _ => []
  | n + 1, text =>
    match nextBlock text with
    | none => []
    | some (raw, rest) => raw :: qwenBlocks n rest

/-- The texts of all blocks. -/
def blocksOf (text : Text) : List Text := qwenBlocks text.length text

/-- The arguments of a call: an object, or a text that is parsed. -/
def qwenArguments : Option Json → Json
  | some (.obj members) => .obj members
  | some (.str s) => (Json.parse s).getD (.obj [])
  | _ => .obj []

/-- What a block calls, if anything. -/
def qwenCall (raw : Text) : Option (Option (Text × Json)) :=
  match Json.parse (Text.trim Json.isWs raw) with
  | some (.obj members) => do
    let name ← (Json.obj members).value Json.getString "name".toList []
    if name = [] then some none
    else some (some (name, qwenArguments ((Json.obj members).find "arguments".toList)))
  | _ => some none

/-- The calls of some blocks, numbered on from a counter. -/
def qwenToolCalls : ℤ → List Text → Option (List ToolCall × ℤ)
  | counter, [] => some ([], counter)
  | counter, raw :: rest => do
    match ← qwenCall raw with
    | none => qwenToolCalls counter rest
    | some (name, arguments) =>
      let id := CInt.toInt32 (counter + 1)
      let arguments ← arguments.dump
      let (calls, counter) ← qwenToolCalls id rest
      some ({ id := "call_".toList ++ Json.dumpInt id, name, arguments } :: calls, counter)

/-- `parse_qwen_tool_calls`: the entries of the calls, and the counter after them. -/
def parseQwenToolCalls (counter : ℤ) (text : Text) : Option (List Json × ℤ) :=
  (qwenToolCalls counter (blocksOf text)).map fun r => (r.1.map ToolCall.json, r.2)

/-! ### Blocks -/

theorem isTag_toolCallStart : Json.IsTag toolCallStart := by decide

theorem isTag_toolCallEnd : Json.IsTag toolCallEnd := by decide

theorem nextBlock_eq_some {text raw rest : Text} (h : nextBlock text = some (raw, rest)) :
    ∃ u, text = u ++ toolCallStart ++ (raw ++ toolCallEnd ++ rest) ∧
      ¬ toolCallEnd <:+: raw := by
  obtain ⟨r, hstart, hend⟩ := Option.bind_eq_some_iff.mp h
  obtain ⟨u, rfl⟩ := Text.eq_append_of_afterFirst hstart
  obtain rfl := Text.eq_append_of_splitFirst hend
  exact ⟨u, rfl, Text.not_infix_of_splitFirst (by decide) hend⟩

theorem length_nextBlock {text raw rest : Text} (h : nextBlock text = some (raw, rest)) :
    rest.length < text.length := by
  obtain ⟨u, rfl, -⟩ := nextBlock_eq_some h
  have hlen : toolCallStart.length = 11 := rfl
  simp only [List.length_append]
  omega

theorem nextBlock_nil : nextBlock [] = none := rfl

/-- More fuel than characters is enough. -/
theorem qwenBlocks_eq {n : ℕ} {text : Text} (h : text.length ≤ n) :
    qwenBlocks n text = blocksOf text := by
  suffices hsuff : ∀ m n text, text.length ≤ m → text.length ≤ n →
      qwenBlocks m text = qwenBlocks n text from hsuff _ _ _ h le_rfl
  clear h
  intro m
  induction m with
  | zero =>
    intro n text hm _
    obtain rfl := List.length_eq_zero_iff.mp (Nat.le_zero.mp hm)
    cases n <;> rfl
  | succ m ih =>
    intro n text hm hn
    cases n with
    | zero =>
      obtain rfl := List.length_eq_zero_iff.mp (Nat.le_zero.mp hn)
      rfl
    | succ n =>
      rw [qwenBlocks, qwenBlocks]
      cases hnext : nextBlock text with
      | none => rfl
      | some r =>
        obtain ⟨raw, rest⟩ := r
        have hlt := length_nextBlock hnext
        simp only [ih n rest (by omega) (by omega)]

theorem blocksOf_of_none {text : Text} (h : nextBlock text = none) : blocksOf text = [] := by
  rw [blocksOf]
  cases text with
  | nil => rfl
  | cons c text => rw [List.length_cons, qwenBlocks, h]

theorem blocksOf_of_some {text raw rest : Text} (h : nextBlock text = some (raw, rest)) :
    blocksOf text = raw :: blocksOf rest := by
  have hlt := length_nextBlock h
  cases text with
  | nil => cases h
  | cons c text =>
    rw [blocksOf, List.length_cons, qwenBlocks, h]
    rw [List.length_cons] at hlt
    exact congrArg (raw :: ·) (qwenBlocks_eq (by omega))

/-- A text without an opening tag, up to a closing one, is passed over. -/
theorem nextBlock_append {u : Text} (hu : ¬ toolCallStart <:+: u) (rest : Text) :
    nextBlock (u ++ toolCallEnd ++ rest) = nextBlock rest := by
  have hall : ¬ toolCallStart <:+: u ++ toolCallEnd := by
    rw [isTag_toolCallStart.anchored.infix_append (v := toolCallEnd) (by decide)]
    rintro (hin | hin)
    · exact hu hin
    · exact (Text.occurrences_eq_zero_iff (by decide)).mp (by decide) hin
  have hskip : Text.afterFirst toolCallStart (u ++ toolCallEnd ++ rest) =
      Text.afterFirst toolCallStart rest := by
    refine Text.afterFirst_append_of_skip fun v hv hsuffix hpre => ?_
    by_cases hlen : toolCallStart.length ≤ v.length
    · have hin := List.prefix_of_prefix_length_le hpre (List.prefix_append v rest) hlen
      exact hall (hin.isInfix.trans hsuffix.isInfix)
    · -- the opening tag would start within the closing one
      have hshort : v.length ≤ toolCallEnd.tail.length := by
        have hstart : toolCallStart.length = 11 := rfl
        have hend : toolCallEnd.tail.length = 11 := rfl
        omega
      have htail : v <:+ toolCallEnd.tail := List.suffix_of_suffix_length_le hsuffix
        ((List.tail_suffix _).trans (List.suffix_append _ _)) hshort
      cases v with
      | nil => exact hv rfl
      | cons c v =>
        obtain ⟨t, ht⟩ := hpre
        have hc : c = '<' := (List.cons.inj (ht : '<' :: _ = c :: _)).1.symm
        exact isTag_toolCallEnd.tail (hc ▸ htail.subset List.mem_cons_self)
  rw [nextBlock, hskip, nextBlock]

theorem nextBlock_of_some {u r : Text} (hstart : Text.afterFirst toolCallStart u = some r)
    (t : Text) : nextBlock (u ++ t) = Text.splitFirst toolCallEnd (r ++ t) := by
  rw [nextBlock, Text.afterFirst_append_of_some (by decide) hstart]
  rfl

/-- **The blocks of a text that ends with a closing tag** come before those of the rest. -/
theorem blocksOf_append (u rest : Text) :
    blocksOf (u ++ toolCallEnd ++ rest) = blocksOf (u ++ toolCallEnd) ++ blocksOf rest := by
  induction hn : u.length using Nat.strong_induction_on generalizing u with
  | _ n ih =>
    subst hn
    cases hstart : Text.afterFirst toolCallStart u with
    | none =>
      have hu := Text.afterFirst_eq_none_iff.mp hstart
      have hnone : nextBlock (u ++ toolCallEnd) = none := by
        have := nextBlock_append hu []
        rwa [List.append_nil] at this
      rw [blocksOf_of_none hnone, List.nil_append]
      cases hnext : nextBlock rest with
      | none => rw [blocksOf_of_none ((nextBlock_append hu rest).trans hnext),
          blocksOf_of_none hnext]
      | some r => rw [blocksOf_of_some ((nextBlock_append hu rest).trans hnext),
          blocksOf_of_some hnext]
    | some r =>
      have hr : r.length < u.length := by
        obtain ⟨t, rfl⟩ := Text.eq_append_of_afterFirst hstart
        have hlen : toolCallStart.length = 11 := rfl
        simp only [List.length_append]
        omega
      have hnext := fun t => nextBlock_of_some hstart t
      cases hend : Text.splitFirst toolCallEnd r with
      | none =>
        have hclose := isTag_toolCallEnd.anchored.splitFirst_append
          (Text.splitFirst_eq_none_iff.mp hend)
        have hwhole : nextBlock (u ++ toolCallEnd) = some (r, []) := by
          have := hclose []
          rw [List.append_nil] at this
          rw [hnext, this]
        have hfirst : nextBlock (u ++ toolCallEnd ++ rest) = some (r, rest) := by
          rw [List.append_assoc, hnext, ← List.append_assoc, hclose]
        rw [blocksOf_of_some hfirst, blocksOf_of_some hwhole]
        rfl
      | some b =>
        obtain ⟨raw, d⟩ := b
        have hsplit := Text.splitFirst_append_of_some (by decide) hend
        have hd : d.length < u.length := by
          have := congrArg List.length (Text.eq_append_of_splitFirst hend)
          simp only [List.length_append] at this
          omega
        have hfirst : nextBlock (u ++ toolCallEnd ++ rest) =
            some (raw, d ++ toolCallEnd ++ rest) := by
          rw [List.append_assoc, hnext, hsplit, List.append_assoc]
        have hwhole : nextBlock (u ++ toolCallEnd) = some (raw, d ++ toolCallEnd) := by
          rw [hnext, hsplit]
        rw [blocksOf_of_some hfirst, blocksOf_of_some hwhole, ih _ hd d rfl, List.cons_append]

/-- **Where a block stands** in a text that ends with a closing tag: behind an opening tag, and
before a closing one. -/
theorem mem_blocksOf {u raw : Text} (h : raw ∈ blocksOf (u ++ toolCallEnd)) :
    ∃ a c, u = a ++ (toolCallStart ++ (raw ++ c)) ∧ (c = [] ∨ toolCallEnd <+: c) ∧
      ¬ toolCallEnd <:+: raw := by
  induction hn : u.length using Nat.strong_induction_on generalizing u with
  | _ n ih =>
    subst hn
    cases hnext : nextBlock (u ++ toolCallEnd) with
    | none =>
      rw [blocksOf_of_none hnext] at h
      cases h
    | some b =>
      obtain ⟨first, rest⟩ := b
      rw [blocksOf_of_some hnext] at h
      obtain ⟨a, ha, hfirst⟩ := nextBlock_eq_some hnext
      have heq : u ++ toolCallEnd = (a ++ toolCallStart ++ first) ++ toolCallEnd ++ rest := by
        rw [ha]
        simp
      rcases isTag_toolCallEnd.anchored.append_eq_append heq with ⟨rfl, rfl⟩ | ⟨r, rfl, rfl⟩
      · obtain rfl : raw = first := by simpa [blocksOf_of_none nextBlock_nil] using h
        exact ⟨a, [], by simp, Or.inl rfl, hfirst⟩
      · rcases List.mem_cons.mp h with rfl | h
        · refine ⟨a, toolCallEnd ++ r, by simp, Or.inr (List.prefix_append _ _), hfirst⟩
        · have hlt : r.length < (a ++ toolCallStart ++ first ++ toolCallEnd ++ r).length := by
            have hlen : toolCallEnd.length = 12 := rfl
            simp only [List.length_append]
            omega
          obtain ⟨a', c, rfl, hc⟩ := ih _ hlt h rfl
          exact ⟨a ++ toolCallStart ++ first ++ toolCallEnd ++ a', c, by simp, hc⟩

end Llamaste
