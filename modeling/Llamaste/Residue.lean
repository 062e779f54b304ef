import Llamaste.Lib.Deletion
import Llamaste.QwenCalls

/-!
# Markup that is left in a text

The blocks of a text are cut out, and then the closing tags that have no opening one. What
stood around them joins, and may spell an opening tag. The text that is shown is free of
markup exactly when it does not. Source: `agent.cpp`.

## Main results

* `outsideBlocks_iff`: the text outside of the blocks, as it is cut out.
* `stripsResidue_iff`: no markup is left unless the text hides an opening tag.
-/

namespace Llamaste

/-- What of a text stands outside of its blocks. -/
inductive OutsideBlocks : Text → Text → Prop
  | plain {u : Text} : ¬ toolCallStart <:+: u → OutsideBlocks u u
  | unclosed {u v : Text} : ¬ toolCallStart <:+: u → ¬ toolCallEnd <:+: v →
      OutsideBlocks (u ++ toolCallStart ++ v) u
  | block {u v s t : Text} : ¬ toolCallStart <:+: u → ¬ toolCallEnd <:+: v → OutsideBlocks s t →
      OutsideBlocks (u ++ toolCallStart ++ (v ++ toolCallEnd ++ s)) (u ++ t)

/-- Outside of its blocks the text has an opening tag that is interrupted by closing tags,
which may be interrupted themselves. -/
def HidesOpeningTag (s : Text) : Prop :=
  ∃ u w, OutsideBlocks s u ∧ w <:+: u ∧ Text.DeletesTo toolCallEnd w toolCallStart

/-- No markup is left of a text, and nothing else is changed. -/
structure StripsResidue (s : Text) : Prop where
  noStart : ¬ toolCallStart <:+: stripToolCallResidue s
  noEnd : ¬ toolCallEnd <:+: stripToolCallResidue s
  trimmed : ∀ c, c ∈ (stripToolCallResidue s).head? ∨ c ∈ (stripToolCallResidue s).getLast? →
    Json.isWs c = false
  idempotent : stripToolCallResidue (stripToolCallResidue s) = stripToolCallResidue s
  untouched : ¬ toolCallStart <:+: s → ¬ toolCallEnd <:+: s →
    stripToolCallResidue s = Text.trim Json.isWs s

/-! ### The blocks -/

theorem stripBlocks_plain {u : Text} (hu : ¬ toolCallStart <:+: u) : stripBlocks u = u := by
  rw [stripBlocks]
  split
  · rfl
  · next hsplit =>
    rw [Text.splitFirst_eq_none_iff.mpr hu] at hsplit
    cases hsplit

theorem stripBlocks_append {u : Text} (hu : ¬ toolCallStart <:+: u) (v : Text) :
    stripBlocks (u ++ toolCallStart ++ v) =
      match Text.afterFirst toolCallEnd v with
      | none => u
      | some rest => u ++ stripBlocks rest := by
  have hsplit := isTag_toolCallStart.anchored.splitFirst_append hu v
  rw [stripBlocks]
  split
  · next h => rw [hsplit] at h; cases h
  · next h =>
    rw [hsplit] at h
    obtain ⟨rfl, rfl⟩ := Prod.mk.inj (Option.some.inj h)
    split <;> next h => rw [h]

theorem stripBlocks_of_outsideBlocks {s u : Text} (h : OutsideBlocks s u) : stripBlocks s = u := by
  induction h with
  | plain hu => exact stripBlocks_plain hu
  | unclosed hu hv => rw [stripBlocks_append hu, Text.afterFirst_eq_none_iff.mpr hv]
  | block hu hv _ ih =>
    rw [stripBlocks_append hu, isTag_toolCallEnd.anchored.afterFirst_append hv]
    exact congrArg _ ih

theorem outsideBlocks_stripBlocks (s : Text) : OutsideBlocks s (stripBlocks s) := by
  induction s using stripBlocks.induct with
  | case1 s hsplit =>
    have hs := Text.splitFirst_eq_none_iff.mp hsplit
    rw [stripBlocks_plain hs]
    exact .plain hs
  | case2 s u v hsplit hafter =>
    have hu := Text.not_infix_of_splitFirst (by decide) hsplit
    rw [Text.eq_append_of_splitFirst hsplit, stripBlocks_append hu, hafter]
    exact .unclosed hu (Text.afterFirst_eq_none_iff.mp hafter)
  | case3 s u v hsplit rest hafter ih =>
    have hu := Text.not_infix_of_splitFirst (by decide) hsplit
    obtain ⟨inside, rfl⟩ := Text.eq_append_of_afterFirst hafter
    rw [Text.eq_append_of_splitFirst hsplit, stripBlocks_append hu, hafter]
    exact .block hu (Text.not_infix_of_afterFirst (by decide) hafter) ih

/-- The text outside of the blocks is the one that is kept. -/
theorem outsideBlocks_iff {s u : Text} : OutsideBlocks s u ↔ stripBlocks s = u :=
  ⟨stripBlocks_of_outsideBlocks, fun h => h ▸ outsideBlocks_stripBlocks s⟩

/-! ### The closing tags -/

theorem stripEnds_plain {u : Text} (hu : ¬ toolCallEnd <:+: u) : stripEnds u = u := by
  rw [stripEnds]
  split
  · rfl
  · next hsplit =>
    rw [Text.splitFirst_eq_none_iff.mpr hu] at hsplit
    cases hsplit

/-- Closing tags are cut out until there is none. -/
theorem stripEnds_spec (s : Text) :
    Text.DeletesTo toolCallEnd s (stripEnds s) ∧ ¬ toolCallEnd <:+: stripEnds s := by
  induction s using stripEnds.induct with
  | case1 s hsplit =>
    have hs := Text.splitFirst_eq_none_iff.mp hsplit
    rw [stripEnds_plain hs]
    exact ⟨.refl, hs⟩
  | case2 s u v hsplit ih =>
    have hstep : stripEnds s = stripEnds (u ++ v) := by
      rw [stripEnds]
      split
      · next h => rw [hsplit] at h; cases h
      · next h =>
        rw [hsplit] at h
        obtain ⟨rfl, rfl⟩ := Prod.mk.inj (Option.some.inj h)
        rfl
    rw [hstep]
    have hdel : Text.Deletes toolCallEnd s (u ++ v) :=
      ⟨u, v, by rw [Text.eq_append_of_splitFirst hsplit, List.append_assoc], rfl⟩
    exact ⟨.head hdel ih.1, ih.2⟩

/-! ### What is shown -/

theorem not_isWs_tags : ∀ c ∈ toolCallStart ++ toolCallEnd, Json.isWs c = false := by decide

theorem start_infix_strip {s : Text} :
    toolCallStart <:+: stripToolCallResidue s ↔ toolCallStart <:+: stripEnds (stripBlocks s) :=
  Text.infix_trim_iff fun c hc => not_isWs_tags c (List.mem_append_left _ hc)

theorem end_infix_strip {s : Text} :
    toolCallEnd <:+: stripToolCallResidue s ↔ toolCallEnd <:+: stripEnds (stripBlocks s) :=
  Text.infix_trim_iff fun c hc => not_isWs_tags c (List.mem_append_right _ hc)

/-- No closing tag is ever shown. -/
theorem not_end_infix_strip (s : Text) : ¬ toolCallEnd <:+: stripToolCallResidue s :=
  end_infix_strip.not.mpr (stripEnds_spec _).2

/-- An opening tag is shown exactly when the text hides one. -/
theorem start_infix_strip_iff {s : Text} :
    toolCallStart <:+: stripToolCallResidue s ↔ HidesOpeningTag s := by
  obtain ⟨hdel, hnot⟩ := stripEnds_spec (stripBlocks s)
  rw [start_infix_strip, isTag_toolCallEnd.anchored.infix_iff_of_deletesTo
    isTag_toolCallStart.anchored rfl (by decide) (by decide) hdel hnot]
  constructor
  · rintro ⟨w, hw, hspells⟩
    exact ⟨_, w, outsideBlocks_stripBlocks s, hw, hspells⟩
  · rintro ⟨u, w, hout, hw, hspells⟩
    exact ⟨w, (stripBlocks_of_outsideBlocks hout).symm ▸ hw, hspells⟩

/-- A text without tags is trimmed. -/
theorem strip_plain {s : Text} (hstart : ¬ toolCallStart <:+: s) (hend : ¬ toolCallEnd <:+: s) :
    stripToolCallResidue s = Text.trim Json.isWs s := by
  rw [stripToolCallResidue, stripBlocks_plain hstart, stripEnds_plain hend]

/-- **No markup is left** of a text, whatever it holds, unless it hides an opening tag. -/
theorem stripsResidue_iff (s : Text) : StripsResidue s ↔ ¬ HidesOpeningTag s := by
  constructor
  · exact fun h hhides => h.noStart (start_infix_strip_iff.mpr hhides)
  · intro hhides
    have hstart := start_infix_strip_iff.not.mpr hhides
    have htrimmed : ∀ c, c ∈ (stripToolCallResidue s).head? ∨
        c ∈ (stripToolCallResidue s).getLast? → Json.isWs c = false :=
      fun _ hc => Text.trim_ends hc
    exact {
      noStart := hstart
      noEnd := not_end_infix_strip s
      trimmed := htrimmed
      idempotent := by
        rw [strip_plain hstart (not_end_infix_strip s), Text.trim_eq_self htrimmed]
      untouched := strip_plain }

/-- A closing tag within an opening one. -/
def interruptedTag : Text := "<tool_</tool_call>call>"

theorem not_stripsResidue : ¬ ∀ s, StripsResidue s := by
  intro h
  have hstart : ¬ toolCallStart <:+: interruptedTag :=
    (Text.occurrences_eq_zero_iff (by decide)).mp (by decide)
  have hspells : Text.Deletes toolCallEnd interruptedTag toolCallStart :=
    ⟨"<tool_".toList, "call>".toList, rfl, rfl⟩
  exact (h interruptedTag).noStart (start_infix_strip_iff.mpr
    ⟨interruptedTag, interruptedTag, .plain hstart, List.infix_rfl, .single hspells⟩)

end Llamaste
