import Mathlib

/-!
# Sorted maps

A map as the list of its entries in the order of the keys, and the map that is collected from a list
of which some elements are parts of an entry.

## Main results

* `SortedMap.lookup_collect`: what is collected under a key comes from the parts with this key.
* `SortedMap.collect_congr`: where these give the same under each key, the maps are the same.
-/

namespace SortedMap

variable {κ α β : Type*} [LinearOrder κ] [BEq κ] [LawfulBEq κ]

/-- `m[k] = f(m[k])`, where an entry may be missing before. -/
def update (k : κ) (f : Option α → α) : List (κ × α) → List (κ × α)
  | [] => [(k, f none)]
  | (k', a) :: m =>
      if k < k' then (k, f none) :: (k', a) :: m
      else if k = k' then (k, f (some a)) :: m
      else (k', a) :: update k f m

/-- The keys ascend. -/
def Sorted (m : List (κ × α)) : Prop := m.Pairwise fun a b => a.1 < b.1

theorem lookup_cons (k k' : κ) (a : α) (m : List (κ × α)) :
    ((k', a) :: m).lookup k = if k = k' then some a else m.lookup k := by
  rw [List.lookup_cons]
  by_cases h : k = k'
  · rw [if_pos h, beq_iff_eq.mpr h]
  · rw [if_neg h, beq_eq_false_iff_ne.mpr h]

theorem mem_keys_update {k : κ} {f : Option α → α} {e : κ × α} {m : List (κ × α)}
    (h : e ∈ update k f m) : e.1 = k ∨ ∃ e' ∈ m, e'.1 = e.1 := by
  induction m with
  | nil => exact Or.inl (congrArg Prod.fst (List.mem_singleton.mp h))
  | cons e' m ih =>
      obtain ⟨k', a⟩ := e'
      rw [update] at h
      split_ifs at h
      · rcases List.mem_cons.mp h with rfl | h
        · exact Or.inl rfl
        · exact Or.inr ⟨e, h, rfl⟩
      · rcases List.mem_cons.mp h with rfl | h
        · exact Or.inl rfl
        · exact Or.inr ⟨e, List.mem_cons_of_mem _ h, rfl⟩
      · rcases List.mem_cons.mp h with rfl | h
        · exact Or.inr ⟨_, List.mem_cons_self, rfl⟩
        · rcases ih h with hk | ⟨e', he', hk⟩
          · exact Or.inl hk
          · exact Or.inr ⟨e', List.mem_cons_of_mem _ he', hk⟩

theorem sorted_update (k : κ) (f : Option α → α) {m : List (κ × α)} (h : Sorted m) :
    Sorted (update k f m) := by
  induction m with
  | nil => exact List.pairwise_singleton _ _
  | cons e m ih =>
      obtain ⟨k', a⟩ := e
      obtain ⟨hhead, htail⟩ := List.pairwise_cons.mp h
      rw [update]
      by_cases hlt : k < k'
      · rw [if_pos hlt]
        refine List.pairwise_cons.mpr ⟨fun e he => ?_, h⟩
        rcases List.mem_cons.mp he with rfl | he
        · exact hlt
        · exact hlt.trans (hhead e he)
      rw [if_neg hlt]
      by_cases heq : k = k'
      · rw [if_pos heq]
        subst heq
        exact List.pairwise_cons.mpr ⟨hhead, htail⟩
      · rw [if_neg heq]
        refine List.pairwise_cons.mpr ⟨fun e he => ?_, ih htail⟩
        rcases mem_keys_update he with hk | ⟨e', he', hk⟩
        · dsimp only
          rw [hk]
          exact lt_of_le_of_ne (not_lt.mp hlt) fun hk => heq hk.symm
        · dsimp only
          rw [← hk]
          exact hhead e' he'

/-- No entry comes before the first one. -/
theorem lookup_eq_none_of_lt {k : κ} {m : List (κ × α)} (h : ∀ e ∈ m, k < e.1) :
    m.lookup k = none := by
  induction m with
  | nil => rfl
  | cons e m ih =>
      obtain ⟨hhead, htail⟩ := List.forall_mem_cons.mp h
      rw [show e = (e.1, e.2) from rfl, lookup_cons, if_neg hhead.ne, ih htail]

theorem lookup_update (k other : κ) (f : Option α → α) {m : List (κ × α)} (h : Sorted m) :
    (update k f m).lookup other =
      if other = k then some (f (m.lookup k)) else m.lookup other := by
  induction m with
  | nil => exact lookup_cons other k (f none) []
  | cons e m ih =>
      obtain ⟨k', a⟩ := e
      obtain ⟨hhead, htail⟩ := List.pairwise_cons.mp h
      rw [update]
      by_cases hlt : k < k'
      · have hnone : ((k', a) :: m).lookup k = none := lookup_eq_none_of_lt fun e he => by
          rcases List.mem_cons.mp he with rfl | he
          · exact hlt
          · exact hlt.trans (hhead e he)
        rw [if_pos hlt, lookup_cons other k, hnone]
      rw [if_neg hlt]
      by_cases heq : k = k'
      · subst heq
        rw [if_pos rfl, lookup_cons, lookup_cons, lookup_cons, if_pos (rfl : k = k)]
        by_cases hother : other = k
        · rw [if_pos hother, if_pos hother]
        · rw [if_neg hother, if_neg hother, if_neg hother]
      · rw [if_neg heq, lookup_cons, ih htail, lookup_cons, lookup_cons, if_neg heq]
        by_cases hother : other = k'
        · rw [if_pos hother, if_pos hother, if_neg fun h => heq (h.symm.trans hother)]
        · rw [if_neg hother, if_neg hother]

/-- Sorted maps with the same entries under all keys are the same. -/
theorem eq_of_lookup {m m' : List (κ × α)} (h : Sorted m) (h' : Sorted m')
    (hlookup : ∀ k, m.lookup k = m'.lookup k) : m = m' := by
  have hfirst {k : κ} {a : α} {l : List (κ × α)} (hl : Sorted ((k, a) :: l)) {j : κ} (hj : j < k) :
      ((k, a) :: l).lookup j = none := lookup_eq_none_of_lt fun e he => by
    rcases List.mem_cons.mp he with rfl | he
    · exact hj
    · exact hj.trans ((List.pairwise_cons.mp hl).1 e he)
  have hself (k : κ) (a : α) (l : List (κ × α)) : ((k, a) :: l).lookup k = some a := by
    rw [lookup_cons, if_pos rfl]
  induction m generalizing m' with
  | nil =>
      cases m' with
      | nil => rfl
      | cons e m' => exact absurd (hlookup e.1) (by rw [hself e.1 e.2 m']; exact nofun)
  | cons e m ih =>
      obtain ⟨k, a⟩ := e
      cases m' with
      | nil => exact absurd (hlookup k) (by rw [hself k a m]; exact nofun)
      | cons e' m' =>
          obtain ⟨k', a'⟩ := e'
          have hk : k = k' := by
            rcases lt_trichotomy k k' with hlt | heq | hlt
            · exact absurd (hlookup k) (by rw [hself, hfirst h' hlt]; exact nofun)
            · exact heq
            · exact absurd (hlookup k') (by rw [hself, hfirst h hlt]; exact nofun)
          subst hk
          have ha : a = a' := by
            have hboth := hlookup k
            rw [hself, hself] at hboth
            exact Option.some.inj hboth
          obtain ⟨hhead, htail⟩ := List.pairwise_cons.mp h
          obtain ⟨hhead', htail'⟩ := List.pairwise_cons.mp h'
          rw [ha, ih htail htail' fun j => ?_]
          by_cases hj : j = k
          · rw [hj, lookup_eq_none_of_lt hhead, lookup_eq_none_of_lt hhead']
          · have hboth := hlookup j
            rwa [lookup_cons, lookup_cons, if_neg hj, if_neg hj] at hboth

/-- An entry is found under its key. -/
theorem lookup_of_mem {m : List (κ × α)} (h : Sorted m) {e : κ × α} (he : e ∈ m) :
    m.lookup e.1 = some e.2 := by
  induction m with
  | nil => exact nomatch he
  | cons e' m ih =>
      obtain ⟨hhead, htail⟩ := List.pairwise_cons.mp h
      rw [show e' = (e'.1, e'.2) from rfl, lookup_cons]
      rcases List.mem_cons.mp he with rfl | he
      · rw [if_pos rfl]
      · rw [if_neg (hhead e he).ne', ih htail he]

theorem mem_of_lookup {m : List (κ × α)} {k : κ} {a : α} (h : m.lookup k = some a) :
    (k, a) ∈ m := by
  induction m with
  | nil => exact nomatch h
  | cons e m ih =>
      rw [show e = (e.1, e.2) from rfl, lookup_cons] at h
      by_cases hk : k = e.1
      · rw [if_pos hk] at h
        rw [hk, ← Option.some.inj h]
        exact List.mem_cons_self
      · rw [if_neg hk] at h
        exact List.mem_cons_of_mem _ (ih h)

/-- Each key stands once. -/
theorem nodup_keys {m : List (κ × α)} (h : Sorted m) : (m.map Prod.fst).Nodup :=
  List.pairwise_map.mpr (h.imp fun hlt => hlt.ne)

/-! ### Collecting -/

variable {γ : Type*} (part : β → Option (κ × γ)) (step : Option α → γ → α)

/-- An element that is a part of an entry changes it. -/
def collectStep (m : List (κ × α)) (x : β) : List (κ × α) :=
  match part x with
  | some (k, c) => update k (step · c) m
  | none => m

/-- The map of what the parts of each entry give. -/
def collect (xs : List β) : List (κ × α) := xs.foldl (collectStep part step) []

/-- What an element is in an entry. -/
def partOf (k : κ) (x : β) : Option γ :=
  match part x with
  | some (k', c) => if k' = k then some c else none
  | none => none

/-- The parts of an entry, in their order. -/
def partsOf (k : κ) (xs : List β) : List γ := xs.filterMap (partOf part k)

variable {part step}

theorem partOf_eq_some_iff {k : κ} {x : β} {c : γ} :
    partOf part k x = some c ↔ part x = some (k, c) := by
  rw [partOf]
  cases part x with
  | none => exact iff_of_false nofun nofun
  | some kc =>
      obtain ⟨k', c'⟩ := kc
      dsimp only
      rw [Option.some_inj, Prod.mk.injEq]
      by_cases hk : k' = k
      · rw [if_pos hk, Option.some_inj]
        exact ⟨fun hc => ⟨hk, hc⟩, And.right⟩
      · rw [if_neg hk]
        exact iff_of_false nofun fun h => hk h.1

theorem mem_partsOf {k : κ} {xs : List β} {c : γ} :
    c ∈ partsOf part k xs ↔ ∃ x ∈ xs, part x = some (k, c) := by
  simp only [partsOf, List.mem_filterMap, partOf_eq_some_iff]

theorem pairwise_partsOf {R : β → β → Prop} {S : γ → γ → Prop} {k : κ} {xs : List β}
    (hR : xs.Pairwise R) (h : ∀ x x', R x x' → ∀ c c', part x = some (k, c) →
      part x' = some (k, c') → S c c') : (partsOf part k xs).Pairwise S :=
  hR.filterMap _ fun x x' hx c hc c' hc' =>
    h x x' hx c c' (partOf_eq_some_iff.mp hc) (partOf_eq_some_iff.mp hc')

theorem perm_partsOf {xs ys : List β} (h : xs.Perm ys) (k : κ) :
    (partsOf part k xs).Perm (partsOf part k ys) := h.filterMap _

theorem collect_concat (xs : List β) (x : β) :
    collect part step (xs ++ [x]) = collectStep part step (collect part step xs) x := by
  rw [collect, List.foldl_append]
  rfl

theorem sorted_collect (xs : List β) : Sorted (collect part step xs) := by
  induction xs using List.reverseRecOn with
  | nil => exact .nil
  | append_singleton xs x ih =>
      rw [collect_concat, collectStep]
      cases part x with
      | none => exact ih
      | some kc => exact sorted_update kc.1 _ ih

/-- **What is collected under a key** comes from the parts with this key, in their order. -/
theorem lookup_collect (xs : List β) (k : κ) : (collect part step xs).lookup k =
    (partsOf part k xs).foldl (fun o c => some (step o c)) none := by
  induction xs using List.reverseRecOn with
  | nil => rfl
  | append_singleton xs x ih =>
      rw [collect_concat, collectStep, partsOf, List.filterMap_append, List.foldl_append]
      cases hpart : part x with
      | none =>
          have hnone : partOf part k x = none := by rw [partOf, hpart]
          rw [List.filterMap_cons_none hnone]
          exact ih
      | some kc =>
          obtain ⟨k', c⟩ := kc
          dsimp only
          rw [lookup_update k' k _ (sorted_collect xs)]
          by_cases hk : k = k'
          · subst hk
            rw [if_pos rfl, ih, List.filterMap_cons_some (partOf_eq_some_iff.mpr hpart)]
            rfl
          · have hnone : partOf part k x = none := by
              rw [partOf, hpart]
              exact if_neg fun h => hk h.symm
            rw [if_neg hk, ih, List.filterMap_cons_none hnone]
            rfl

/-- **Lists whose parts give the same under each key** are collected into the same map. -/
theorem collect_congr {xs ys : List β}
    (h : ∀ k, (partsOf part k xs).foldl (fun o c => some (step o c)) none =
      (partsOf part k ys).foldl (fun o c => some (step o c)) none) :
    collect part step xs = collect part step ys :=
  eq_of_lookup (sorted_collect xs) (sorted_collect ys) fun k => by
    rw [lookup_collect, lookup_collect, h]

end SortedMap
