import Mathlib

/-!
# Two selections from one list

Two partial functions each select from a list what they give a value. Where they select the same
elements, what they give corresponds one to one; and where one selects no element that the other
leaves out, the lengths tell whether they select the same.

## Main results

* `Selection.forall₂_iff`: what is selected is related one to one exactly when it is so at every
  element.
* `Selection.isSome_eq_of_length`: of two selections of one length, of which one is a part of the
  other, both select the same elements.
* `Selection.filterMap_eq_iff`: a selection that takes what another takes makes the same list
  exactly when it takes nothing else.
-/

namespace Selection

variable {α β γ : Type*} {R : β → γ → Prop} {f : α → Option β} {g : α → Option γ}

/-- **Where both select the same elements, the values are related one to one** exactly when they
are so at every element. -/
theorem forall₂_iff {l : List α} (h : ∀ a ∈ l, (f a).isSome = (g a).isSome) :
    List.Forall₂ R (l.filterMap f) (l.filterMap g) ↔
      ∀ a ∈ l, ∀ b c, f a = some b → g a = some c → R b c := by
  induction l with
  | nil => exact iff_of_true .nil nofun
  | cons a l ih =>
    have hrest := ih fun b hb => h b (List.mem_cons_of_mem a hb)
    have hsome := h a List.mem_cons_self
    rw [List.forall_mem_cons, ← hrest]
    cases hf : f a with
    | none =>
      rw [hf] at hsome
      have hg := Option.isSome_eq_false_iff.mp hsome.symm
      rw [List.filterMap_cons_none hf, List.filterMap_cons_none (Option.isNone_iff_eq_none.mp hg)]
      exact ⟨fun hl => ⟨nofun, hl⟩, And.right⟩
    | some b =>
      rw [hf] at hsome
      obtain ⟨c, hg⟩ := Option.isSome_iff_exists.mp hsome.symm
      rw [List.filterMap_cons_some hf, List.filterMap_cons_some hg, List.forall₂_cons, hg]
      refine and_congr_left fun _ => ⟨?_, fun hR => hR b c rfl rfl⟩
      intro hbc b' c' hb hc
      obtain rfl := Option.some.inj hb
      obtain rfl := Option.some.inj hc
      exact hbc

theorem length_le {l : List α} (h : ∀ a ∈ l, (f a).isSome = true → (g a).isSome = true) :
    (l.filterMap f).length ≤ (l.filterMap g).length := by
  induction l with
  | nil => exact Nat.le_refl 0
  | cons a l ih =>
    have hrest := ih fun b hb => h b (List.mem_cons_of_mem a hb)
    cases hf : f a with
    | none =>
      rw [List.filterMap_cons_none hf]
      cases hg : g a with
      | none => rwa [List.filterMap_cons_none hg]
      | some c =>
        rw [List.filterMap_cons_some hg]
        exact Nat.le_succ_of_le hrest
    | some b =>
      obtain ⟨c, hg⟩ := Option.isSome_iff_exists.mp (h a List.mem_cons_self (by rw [hf]; rfl))
      rw [List.filterMap_cons_some hf, List.filterMap_cons_some hg]
      exact Nat.succ_le_succ hrest

/-- **A selection that is a part of another one of its length selects the same elements.** -/
theorem isSome_eq_of_length {l : List α}
    (h : ∀ a ∈ l, (f a).isSome = true → (g a).isSome = true)
    (hlength : (l.filterMap f).length = (l.filterMap g).length) :
    ∀ a ∈ l, (f a).isSome = (g a).isSome := by
  induction l with
  | nil => exact nofun
  | cons a l ih =>
    have hpart : ∀ b ∈ l, (f b).isSome = true → (g b).isSome = true :=
      fun b hb => h b (List.mem_cons_of_mem a hb)
    have hle := length_le hpart
    have hboth : (f a).isSome = (g a).isSome ∧
        (l.filterMap f).length = (l.filterMap g).length := by
      cases hf : f a with
      | none =>
        rw [List.filterMap_cons_none hf] at hlength
        cases hg : g a with
        | none =>
          rw [List.filterMap_cons_none hg] at hlength
          exact ⟨rfl, hlength⟩
        | some c =>
          rw [List.filterMap_cons_some hg, List.length_cons] at hlength
          omega
      | some b =>
        obtain ⟨c, hg⟩ := Option.isSome_iff_exists.mp (h a List.mem_cons_self (by rw [hf]; rfl))
        rw [List.filterMap_cons_some hf, List.filterMap_cons_some hg, List.length_cons,
          List.length_cons] at hlength
        exact ⟨by rw [hg]; rfl, Nat.succ.inj hlength⟩
    intro b hb
    rcases List.mem_cons.mp hb with rfl | hb
    · exact hboth.1
    · exact ih hpart hboth.2 b hb

/-- **Where one selection takes what another takes, and takes it as the same,** they select the
same list exactly when they agree on every element. -/
theorem filterMap_eq_iff {f g : α → Option β} {l : List α}
    (h : ∀ a ∈ l, ∀ b, g a = some b → f a = some b) :
    l.filterMap f = l.filterMap g ↔ ∀ a ∈ l, f a = g a := by
  refine ⟨fun heq a ha => ?_, List.filterMap_congr⟩
  have hpart : ∀ a ∈ l, (g a).isSome = true → (f a).isSome = true := fun a ha hg => by
    obtain ⟨b, hb⟩ := Option.isSome_iff_exists.mp hg
    exact Option.isSome_iff_exists.mpr ⟨b, h a ha b hb⟩
  have hsame := isSome_eq_of_length hpart (congrArg List.length heq.symm) a ha
  cases hg : g a with
  | some b => exact h a ha b hg
  | none =>
    rw [hg] at hsame
    exact Option.not_isSome_iff_eq_none.mp fun hf => absurd (hsame.trans hf) Bool.false_ne_true

end Selection
