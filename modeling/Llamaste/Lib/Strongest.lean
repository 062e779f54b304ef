import Mathlib

/-!
# The strongest of each key

A list is gone through, and of the elements with one key the first of greatest rank is kept, at
the place where the key came up first.

## Main results

* `Strongest.kept_spec`: every key is kept once, with an element of greatest rank.
* `Strongest.map_kept`: a map that keeps keys and ranks goes with keeping.
-/

namespace Strongest

variable {α κ β : Type*} [DecidableEq κ] [LinearOrder β]

section

variable (key : α → κ) (rank : α → β)

/-- An element takes the place of a weaker one with its key, or is added. -/
def keep : List α → α → List α
  | [], a => [a]
  | b :: kept, a =>
    if key b = key a then (if rank b < rank a then a else b) :: kept else b :: keep kept a

/-- What is kept of a list. -/
def kept (l : List α) : List α := l.foldl (keep key rank) []

/-- Every key of a list is kept once, with an element of greatest rank. -/
structure IsStrongest (l kept : List α) : Prop where
  once : (kept.map key).Nodup
  mem : ∀ b ∈ kept, b ∈ l
  complete : ∀ a ∈ l, ∃ b ∈ kept, key b = key a ∧ rank a ≤ rank b

end

variable {key : α → κ} {rank : α → β}

omit [DecidableEq κ] in
/-- What is kept for a key is as strong as all elements with it. -/
theorem IsStrongest.rank_le {l kept : List α} (h : IsStrongest key rank l kept) {a b : α}
    (hb : b ∈ kept) (ha : a ∈ l) (hkey : key a = key b) : rank a ≤ rank b := by
  obtain ⟨c, hc, hkey', hle⟩ := h.complete a ha
  rwa [List.inj_on_of_nodup_map h.once hc hb (hkey'.trans hkey)] at hle

theorem mem_keep {kept : List α} {a b : α} (h : b ∈ keep key rank kept a) : b ∈ kept ∨ b = a := by
  induction kept with
  | nil => exact Or.inr (List.mem_singleton.mp h)
  | cons c kept ih =>
    rw [keep] at h
    split_ifs at h
    · rcases List.mem_cons.mp h with rfl | h
      · exact Or.inr rfl
      · exact Or.inl (List.mem_cons_of_mem c h)
    · exact Or.inl h
    · rcases List.mem_cons.mp h with rfl | h
      · exact Or.inl List.mem_cons_self
      · exact (ih h).imp_left (List.mem_cons_of_mem c)

/-- The element that is kept for the key of the new one is as strong. -/
theorem exists_keep (kept : List α) (a : α) :
    ∃ b ∈ keep key rank kept a, key b = key a ∧ rank a ≤ rank b := by
  induction kept with
  | nil => exact ⟨a, List.mem_singleton_self a, rfl, le_rfl⟩
  | cons c kept ih =>
    rw [keep]
    split_ifs with hkey hrank
    · exact ⟨a, List.mem_cons_self, rfl, le_rfl⟩
    · exact ⟨c, List.mem_cons_self, hkey, not_lt.mp hrank⟩
    · obtain ⟨b, hb, h⟩ := ih
      exact ⟨b, List.mem_cons_of_mem c hb, h⟩

/-- Nothing gets weaker. -/
theorem exists_keep_of_mem {kept : List α} {b : α} (hb : b ∈ kept) (a : α) :
    ∃ c ∈ keep key rank kept a, key c = key b ∧ rank b ≤ rank c := by
  induction kept with
  | nil => cases hb
  | cons c kept ih =>
    rw [keep]
    rcases List.mem_cons.mp hb with rfl | hb
    · split_ifs with hkey hrank
      · exact ⟨a, List.mem_cons_self, hkey.symm, hrank.le⟩
      · exact ⟨b, List.mem_cons_self, rfl, le_rfl⟩
      · exact ⟨b, List.mem_cons_self, rfl, le_rfl⟩
    · split_ifs with hkey hrank
      · exact ⟨b, List.mem_cons_of_mem a hb, rfl, le_rfl⟩
      · exact ⟨b, List.mem_cons_of_mem c hb, rfl, le_rfl⟩
      · obtain ⟨d, hd, h⟩ := ih hb
        exact ⟨d, List.mem_cons_of_mem c hd, h⟩

/-- Keys stay where they are, and a new one comes behind them. -/
theorem map_key_keep (kept : List α) (a : α) :
    (keep key rank kept a).map key =
      if key a ∈ kept.map key then kept.map key else kept.map key ++ [key a] := by
  induction kept with
  | nil => rfl
  | cons c kept ih =>
    rw [keep, List.map_cons]
    by_cases hkey : key c = key a
    · rw [if_pos hkey, if_pos (List.mem_cons.mpr (Or.inl hkey.symm)), List.map_cons]
      split_ifs
      · rw [hkey]
      · rfl
    · have hiff : key a ∈ key c :: kept.map key ↔ key a ∈ kept.map key :=
        List.mem_cons.trans (or_iff_right fun h => hkey h.symm)
      rw [if_neg hkey, List.map_cons, ih]
      by_cases hmem : key a ∈ kept.map key
      · rw [if_pos hmem, if_pos (hiff.mpr hmem)]
      · rw [if_neg hmem, if_neg (mt hiff.mp hmem), List.cons_append]

/-- One more element of the list. -/
theorem isStrongest_keep {l kept : List α} (h : IsStrongest key rank l kept) (a : α) :
    IsStrongest key rank (l ++ [a]) (keep key rank kept a) where
  once := by
    rw [map_key_keep]
    split_ifs with hmem
    · exact h.once
    · exact List.nodup_append'.mpr ⟨h.once, List.nodup_singleton _, by simpa using hmem⟩
  mem b hb := by
    rcases mem_keep hb with hb | rfl
    · exact List.mem_append_left _ (h.mem b hb)
    · exact List.mem_concat_self
  complete b hb := by
    rcases List.mem_append.mp hb with hb | hb
    · obtain ⟨c, hc, hkey, hle⟩ := h.complete b hb
      obtain ⟨d, hd, hkey', hle'⟩ : ∃ d ∈ keep key rank kept a, key d = key c ∧ rank c ≤ rank d :=
        exists_keep_of_mem hc a
      exact ⟨d, hd, hkey'.trans hkey, hle.trans hle'⟩
    · rw [List.mem_singleton.mp hb]
      exact exists_keep kept a

/-- **Every key is kept once, with an element of greatest rank.** -/
theorem kept_spec (l : List α) : IsStrongest key rank l (kept key rank l) := by
  induction l using List.reverseRecOn with
  | nil => exact ⟨List.nodup_nil, nofun, nofun⟩
  | append_singleton l a ih =>
    rw [kept, List.foldl_append]
    exact isStrongest_keep ih a

section

variable {γ : Type*} (key' : γ → κ) (rank' : γ → β) {f : α → γ}

theorem map_keep (hkey : ∀ a, key' (f a) = key a) (hrank : ∀ a, rank' (f a) = rank a)
    (kept : List α) (a : α) :
    (keep key rank kept a).map f = keep key' rank' (kept.map f) (f a) := by
  induction kept with
  | nil => rfl
  | cons b kept ih =>
    rw [keep, List.map_cons, keep, hkey, hkey, hrank, hrank]
    split_ifs
    · rfl
    · rfl
    · rw [List.map_cons, ih]

/-- **A map that keeps keys and ranks goes with keeping.** -/
theorem map_kept (hkey : ∀ a, key' (f a) = key a) (hrank : ∀ a, rank' (f a) = rank a)
    (l : List α) : (kept key rank l).map f = kept key' rank' (l.map f) := by
  induction l using List.reverseRecOn with
  | nil => rfl
  | append_singleton l a ih =>
    rw [kept, List.foldl_append, List.foldl_cons, List.foldl_nil, map_keep key' rank' hkey hrank,
      ← kept, ih, List.map_append, kept, kept, List.foldl_append]
    rfl

end

end Strongest
