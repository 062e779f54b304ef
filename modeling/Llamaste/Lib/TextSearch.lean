import Llamaste.Lib.Text

/-!
# Searching for a pattern

Where a pattern occurs in a text that is pasted together from parts. A pattern whose first
character does not come again cannot overlap with itself, nor with a part that starts with
that character, so its occurrences are those in the parts.

## Main results

* `Text.Anchored.splitFirst_append`: the first occurrence is the one behind a text without any.
* `Text.infix_append_cons`, `Text.infix_append_cons_iff`: occurrences lie in the parts.
* `Text.occurrences_append_cons`: so they can be counted there.
-/

namespace Text

/-- A pattern that does not fit across a place where `c` starts a part lies on one side. -/
theorem infix_append_cons {α : Type*} {pat : List α} {c : α} (hc : c ∉ pat.tail)
    {u v : List α} :
    pat <:+: u ++ c :: v ↔ pat <:+: u ∨ pat <:+: c :: v := by
  constructor
  · rintro ⟨s, t, h⟩
    rcases List.append_eq_append_iff.mp h with ⟨w, rfl, -⟩ | ⟨w, hw, hrest⟩
    · exact Or.inl ⟨s, w, rfl⟩
    · rcases List.append_eq_append_iff.mp hw with ⟨w', rfl, rfl⟩ | ⟨w', rfl, rfl⟩
      · cases w with
        | nil => exact Or.inl ⟨s, [], by simp⟩
        | cons b w =>
          obtain rfl := (List.cons.inj hrest).1
          cases w' with
          | nil => exact Or.inr ⟨[], t, by simpa using hrest.symm⟩
          | cons a w' => exact absurd (by simp) hc
      · exact Or.inr ⟨w', t, hrest.symm⟩
  · rintro (h | h)
    · exact h.trans ⟨[], c :: v, rfl⟩
    · exact h.trans ⟨u, [], by simp⟩

/-- A pattern without `c` lies on one side of it. -/
theorem infix_append_cons_iff {α : Type*} {pat : List α} {c : α} (hc : c ∉ pat)
    {u v : List α} :
    pat <:+: u ++ c :: v ↔ pat <:+: u ∨ pat <:+: v := by
  rw [infix_append_cons fun h => hc (List.mem_of_mem_tail h), List.infix_cons_iff]
  constructor
  · rintro (h | h | h)
    · exact Or.inl h
    · cases pat with
      | nil => exact Or.inl (List.nil_infix)
      | cons a pat =>
        obtain ⟨t, ht⟩ := h
        exact absurd (List.mem_cons.mpr (Or.inl (List.cons.inj ht).1.symm)) hc
    · exact Or.inr h
  · rintro (h | h)
    · exact Or.inl h
    · exact Or.inr (Or.inr h)

/-- A pattern does not start in a part without its first character. -/
theorem infix_append_of_not_mem {pat : Text} {a : Char} (ha : pat.head? = some a) {u : Text}
    (hu : a ∉ u) (v : Text) : pat <:+: u ++ v ↔ pat <:+: v := by
  induction u with
  | nil => rfl
  | cons b u ih =>
    obtain ⟨hb, hu⟩ := not_or.mp (mt List.mem_cons.mpr hu)
    rw [List.cons_append, List.infix_cons_iff, ih hu]
    refine or_iff_right fun ⟨t, ht⟩ => hb ?_
    cases pat with
    | nil => cases ha
    | cons c pat =>
      obtain rfl := Option.some.inj ha
      exact (List.cons.inj ht).1

/-- A pattern without the characters that are trimmed off stands in what is left. -/
theorem infix_trim_iff {p : Char → Bool} {pat : Text} (hpat : ∀ c ∈ pat, p c = false)
    {s : Text} : pat <:+: trim p s ↔ pat <:+: s := by
  obtain ⟨ws, ws', hs, hws, hws'⟩ := eq_trim p s
  have hnot : ∀ c ∈ pat, c ∉ ws ∧ c ∉ ws' := fun c hc =>
    ⟨fun h => Bool.false_ne_true ((hpat c hc).symm.trans (List.all_eq_true.mp hws c h)),
      fun h => Bool.false_ne_true ((hpat c hc).symm.trans (List.all_eq_true.mp hws' c h))⟩
  conv_rhs => rw [hs]
  cases pat with
  | nil => exact iff_of_true List.nil_infix List.nil_infix
  | cons a pat =>
    rw [infix_append_of_not_mem rfl (hnot a List.mem_cons_self).1]
    have hlast := List.dropLast_append_getLast (List.cons_ne_nil a pat)
    rw [← hlast]
    exact (infix_append_iff_of_not_mem (hnot _ (List.getLast_mem _)).2).symm

/-- A pattern whose first character does not come again. -/
def Anchored (pat : Text) : Prop := pat ≠ [] ∧ ∀ c ∈ pat.head?, c ∉ pat.tail

instance (pat : Text) : Decidable (Anchored pat) := inferInstanceAs (Decidable (_ ∧ _))

/-- Such a pattern does not reach from a part without it into an occurrence. -/
theorem Anchored.infix_append {pat : Text} (h : Anchored pat) {u v : Text}
    (hv : v.head? = pat.head?) : pat <:+: u ++ v ↔ pat <:+: u ∨ pat <:+: v := by
  cases pat with
  | nil => exact absurd rfl h.1
  | cons c pat =>
    cases v with
    | nil => cases hv
    | cons a v =>
      obtain rfl := Option.some.inj hv
      exact infix_append_cons (h.2 a rfl)

theorem Anchored.afterFirst_append {pat : Text} (h : Anchored pat) {u : Text}
    (hu : ¬ pat <:+: u) (v : Text) : afterFirst pat (u ++ pat ++ v) = some v := by
  induction u with
  | nil =>
    cases pat with
    | nil => exact absurd rfl h.1
    | cons c pat =>
      rw [List.nil_append, List.cons_append, afterFirst,
        if_pos (List.isPrefixOf_iff_prefix.mpr ⟨v, by simp⟩), ← List.cons_append, List.drop_left]
  | cons a u ih =>
    have hprefix : ¬ pat.isPrefixOf (a :: (u ++ pat ++ v)) := by
      intro hpre
      obtain ⟨t, ht⟩ := List.isPrefixOf_iff_prefix.mp hpre
      have heq : pat ++ t = (a :: u) ++ (pat ++ v) := by rw [ht]; simp
      rcases List.append_eq_append_iff.mp heq with ⟨w, hw, -⟩ | ⟨w, hw, hrest⟩
      · exact hu ⟨[], w, by rw [hw, List.nil_append]⟩
      · cases w with
        | nil => exact hu ⟨[], [], by rw [hw]; simp⟩
        | cons b w =>
          -- the occurrence would start again within itself
          cases pat with
          | nil => exact h.1 rfl
          | cons c pat =>
            obtain rfl := (List.cons.inj hrest).1
            obtain ⟨rfl, rfl⟩ := List.cons.inj hw
            exact h.2 c rfl (by simp)
    rw [List.cons_append, List.cons_append, afterFirst, if_neg hprefix]
    exact ih fun hin => hu (hin.trans (List.suffix_cons a u).isInfix)

/-- **The first occurrence** is the one behind a text without any. -/
theorem Anchored.splitFirst_append {pat : Text} (h : Anchored pat) {u : Text}
    (hu : ¬ pat <:+: u) (v : Text) : splitFirst pat (u ++ pat ++ v) = some (u, v) := by
  have hlen : (u ++ pat ++ v).length - (pat.length + v.length) = u.length := by
    simp only [List.length_append]
    omega
  rw [splitFirst, h.afterFirst_append hu, Option.map_some, hlen, List.append_assoc,
    List.take_left]

/-- A search fails where the pattern does not occur. -/
theorem afterFirst_eq_none_iff {pat s : Text} : afterFirst pat s = none ↔ ¬ pat <:+: s := by
  rw [← isSome_afterFirst_iff, Option.not_isSome_iff_eq_none]

theorem splitFirst_eq_none_iff {pat s : Text} : splitFirst pat s = none ↔ ¬ pat <:+: s := by
  rw [splitFirst, Option.map_eq_none_iff, afterFirst_eq_none_iff]

/-- Before the first occurrence there is none. -/
theorem not_infix_of_afterFirst {pat : Text} (hpat : pat ≠ []) {u v : Text}
    (h : afterFirst pat (u ++ pat ++ v) = some v) : ¬ pat <:+: u := by
  induction u with
  | nil => exact fun hnil => hpat (List.eq_nil_of_infix_nil hnil)
  | cons c u ih =>
    rw [List.cons_append, List.cons_append, afterFirst] at h
    split_ifs at h with hpre
    · have hlen := congrArg List.length (Option.some.inj h)
      simp only [List.length_drop, List.length_cons, List.length_append] at hlen
      omega
    · rintro hin
      rcases List.infix_cons_iff.mp hin with hin | hin
      · refine hpre (List.isPrefixOf_iff_prefix.mpr (hin.trans ⟨pat ++ v, ?_⟩))
        simp
      · exact ih h hin

theorem not_infix_of_splitFirst {pat : Text} (hpat : pat ≠ []) {s u v : Text}
    (h : splitFirst pat s = some (u, v)) : ¬ pat <:+: u := by
  obtain ⟨r, hr, hpair⟩ := Option.map_eq_some_iff.mp h
  obtain ⟨-, rfl⟩ := Prod.mk.inj hpair
  exact not_infix_of_afterFirst hpat (eq_append_of_splitFirst h ▸ hr)

/-- A text is passed over in which the pattern does not start. -/
theorem afterFirst_append_of_skip {pat u rest : Text}
    (h : ∀ v, v ≠ [] → v <:+ u → ¬ pat <+: v ++ rest) :
    afterFirst pat (u ++ rest) = afterFirst pat rest := by
  induction u with
  | nil => rfl
  | cons c u ih =>
    have hhead : ¬ pat.isPrefixOf (c :: (u ++ rest)) = true := fun hpre =>
      h (c :: u) (List.cons_ne_nil c u) List.suffix_rfl (List.isPrefixOf_iff_prefix.mp hpre)
    rw [List.cons_append, afterFirst, if_neg hhead]
    exact ih fun v hv hsuffix => h v hv (hsuffix.trans (List.suffix_cons c u))

/-- A text behind does not change where the first occurrence is. -/
theorem afterFirst_append_of_some {pat s r : Text} (hpat : pat ≠ [])
    (h : afterFirst pat s = some r) (t : Text) : afterFirst pat (s ++ t) = some (r ++ t) := by
  induction s with
  | nil =>
    rw [afterFirst, if_neg hpat] at h
    cases h
  | cons c s ih =>
    rw [afterFirst] at h
    rw [List.cons_append, afterFirst, ← List.cons_append]
    split_ifs at h with hpre
    · obtain rfl := Option.some.inj h
      obtain ⟨u, hu⟩ := List.isPrefixOf_iff_prefix.mp hpre
      rw [if_pos (List.isPrefixOf_iff_prefix.mpr ⟨u ++ t, by rw [← List.append_assoc, hu]⟩), ← hu,
        List.append_assoc, List.drop_left, List.drop_left]
    · rw [if_neg, ih h]
      intro hpre'
      -- the pattern still fits behind the first character of `s`
      obtain ⟨u, hu⟩ := eq_append_of_afterFirst h
      refine hpre (List.isPrefixOf_iff_prefix.mpr ?_)
      refine List.prefix_of_prefix_length_le (List.isPrefixOf_iff_prefix.mp hpre')
        (List.prefix_append _ _) ?_
      rw [hu]
      simp only [List.length_cons, List.length_append]
      omega

theorem splitFirst_append_of_some {pat s u r : Text} (hpat : pat ≠ [])
    (h : splitFirst pat s = some (u, r)) (t : Text) :
    splitFirst pat (s ++ t) = some (u, r ++ t) := by
  obtain ⟨r', hr', hpair⟩ := Option.map_eq_some_iff.mp h
  obtain ⟨-, rfl⟩ := Prod.mk.inj hpair
  obtain rfl := eq_append_of_splitFirst h
  have hlen : (u ++ pat ++ r' ++ t).length - (pat.length + (r' ++ t).length) = u.length := by
    simp only [List.length_append]
    omega
  rw [splitFirst, afterFirst_append_of_some hpat hr', Option.map_some, hlen, List.append_assoc,
    List.append_assoc, List.take_left]

/-- An occurrence in front of an anchored pattern at the end is that one, or lies before it. -/
theorem Anchored.append_eq_append {pat : Text} (h : Anchored pat) {u v r : Text}
    (heq : u ++ pat = v ++ pat ++ r) :
    u = v ∧ r = [] ∨ ∃ r', u = v ++ pat ++ r' ∧ r = r' ++ pat := by
  rcases List.append_eq_append_iff.mp heq with ⟨c, hc, hpat⟩ | ⟨c, hc, hr⟩
  · cases c with
    | nil => exact Or.inr ⟨[], by rw [hc]; simp, by rw [hpat]; simp⟩
    | cons a c =>
      cases r with
      | nil =>
        rw [List.append_nil] at hpat
        exact Or.inl ⟨(List.append_cancel_right (hc.trans (by rw [hpat]))).symm, rfl⟩
      | cons b r =>
        -- a part of the pattern would end it
        exfalso
        have hsuffix : a :: c <:+ pat := by
          have hwhole : a :: c <:+ v ++ pat := ⟨u, hc.symm⟩
          refine List.suffix_of_suffix_length_le hwhole (List.suffix_append _ _) ?_
          rw [hpat, List.length_append]
          omega
        obtain ⟨w, hw⟩ := hsuffix
        cases w with
        | nil =>
          have hlen := congrArg List.length (hw.trans hpat)
          simp at hlen
        | cons d w =>
          have ha : pat.head? = some a := by rw [hpat]; rfl
          refine h.2 a ha ?_
          rw [← hw]
          simp
  · exact Or.inr ⟨c, hc, hr⟩

/-- An occurrence behind an anchored pattern at the start is that one, or lies behind it. -/
theorem Anchored.append_eq_append_start {pat : Text} (h : Anchored pat) {v w r : Text}
    (heq : pat ++ w = v ++ (pat ++ r)) :
    v = [] ∧ w = r ∨ ∃ v', v = pat ++ v' ∧ w = v' ++ (pat ++ r) := by
  rcases List.append_eq_append_iff.mp heq with ⟨c, hc, hw⟩ | ⟨c, hpat, hr⟩
  · exact Or.inr ⟨c, hc, hw⟩
  · cases v with
    | nil =>
      rw [List.nil_append] at heq
      exact Or.inl ⟨rfl, List.append_cancel_left heq⟩
    | cons a v =>
      cases c with
      | nil =>
        rw [List.append_nil] at hpat
        exact Or.inr ⟨[], by rw [← hpat, List.append_nil], hr.symm⟩
      | cons b c =>
        -- the pattern would start again within itself
        exfalso
        rw [hpat, List.cons_append, List.cons_append] at hr
        obtain rfl := (List.cons.inj hr).1
        refine h.2 a (by rw [hpat]; rfl) ?_
        rw [hpat]
        simp

/-! ### Counting -/

/-- The number of places where the pattern occurs. -/
def occurrences (pat : Text) : Text → ℕ
  | [] => 0
  | c :: s => (if pat.isPrefixOf (c :: s) then 1 else 0) + occurrences pat s

theorem occurrences_cons (pat : Text) (c : Char) (s : Text) : occurrences pat (c :: s) =
    (if pat.isPrefixOf (c :: s) then 1 else 0) + occurrences pat s := rfl

theorem occurrences_eq_zero_iff {pat : Text} (hpat : pat ≠ []) {s : Text} :
    occurrences pat s = 0 ↔ ¬ pat <:+: s := by
  induction s with
  | nil => exact iff_of_true rfl fun h => hpat (List.eq_nil_of_infix_nil h)
  | cons c s ih =>
    rw [occurrences, Nat.add_eq_zero_iff, ih, List.infix_cons_iff, not_or]
    refine and_congr_left fun _ => ?_
    rw [← List.isPrefixOf_iff_prefix]
    split_ifs with h <;> simp [h]

/-- A pattern that does not fit across a place starts before it when it lies before it. -/
theorem isPrefixOf_append_cons {pat : Text} {c : Char} (hc : c ∉ pat.tail) {a : Char}
    {u v : Text} : pat.isPrefixOf (a :: u ++ c :: v) = pat.isPrefixOf (a :: u) := by
  rw [Bool.eq_iff_iff, List.isPrefixOf_iff_prefix, List.isPrefixOf_iff_prefix]
  refine ⟨fun ⟨t, ht⟩ => ?_, fun h => h.trans (List.prefix_append _ _)⟩
  rcases List.append_eq_append_iff.mp ht with ⟨w, hw, -⟩ | ⟨w, hw, hrest⟩
  · exact ⟨w, hw.symm⟩
  · cases w with
    | nil => exact ⟨[], by rw [hw, List.append_nil, List.append_nil]⟩
    | cons b w =>
      obtain rfl := (List.cons.inj hrest).1
      exact absurd (by rw [hw]; simp) hc

/-- Occurrences lie in the parts. -/
theorem occurrences_append_cons {pat : Text} {c : Char} (hc : c ∉ pat.tail) (u v : Text) :
    occurrences pat (u ++ c :: v) = occurrences pat u + occurrences pat (c :: v) := by
  induction u with
  | nil => exact (Nat.zero_add _).symm
  | cons a u ih =>
    rw [List.cons_append, occurrences_cons, ih, occurrences_cons pat a, ← List.cons_append,
      isPrefixOf_append_cons hc, Nat.add_assoc]

/-! ### Other patterns -/

/-- A pattern is searched for behind a character that is not in it when it does not stand
before. -/
theorem afterFirst_append_cons {pat : Text} {c : Char} (hc : c ∉ pat) {u : Text}
    (hu : ¬ pat <:+: u) (r : Text) : afterFirst pat (u ++ c :: r) = afterFirst pat r := by
  induction u with
  | nil =>
    have hpre : ¬ pat.isPrefixOf (c :: r) = true := fun hpre => by
      cases pat with
      | nil => exact hu List.nil_infix
      | cons a pat =>
        obtain rfl := (List.cons_prefix_cons.mp (List.isPrefixOf_iff_prefix.mp hpre)).1
        exact hc List.mem_cons_self
    rw [List.nil_append, afterFirst, if_neg hpre]
  | cons a u ih =>
    have hpre : ¬ pat.isPrefixOf (a :: u ++ c :: r) = true := by
      rw [isPrefixOf_append_cons fun h => hc (List.mem_of_mem_tail h)]
      exact fun hpre => hu (List.isPrefixOf_iff_prefix.mp hpre).isInfix
    rw [List.cons_append, afterFirst, ← List.cons_append, if_neg hpre]
    exact ih fun h => hu (h.trans (List.suffix_cons a u).isInfix)

/-- A pattern whose last character does not come before is found behind a text without it. -/
theorem afterFirst_append_of_last {word : Text} {c : Char} (hc : c ∉ word) {u : Text}
    (hu : ¬ word ++ [c] <:+: u) (v : Text) :
    afterFirst (word ++ [c]) (u ++ (word ++ [c] ++ v)) = some v := by
  refine (afterFirst_append_of_skip fun w hw hsuffix hpre => hu ?_).trans ?_
  · -- the pattern would end before it starts
    have hshort : word ++ [c] <+: w ++ word := by
      refine List.prefix_of_prefix_length_le hpre ⟨[c] ++ v, by simp⟩ ?_
      have hlen := List.length_pos_iff.mpr hw
      simp only [List.length_append, List.length_singleton]
      omega
    exact ((infix_append_iff_of_not_mem hc).mp hshort.isInfix).trans hsuffix.isInfix
  · obtain ⟨a, r, hcons⟩ : ∃ a r, word ++ [c] ++ v = a :: r :=
      List.exists_cons_of_ne_nil (by simp)
    have hpre : (word ++ [c]).isPrefixOf (a :: r) = true :=
      List.isPrefixOf_iff_prefix.mpr (hcons ▸ List.prefix_append _ _)
    rw [hcons, afterFirst, if_pos hpre, ← hcons, List.drop_left]

/-! ### Quoted words -/

/-- A word between quotes. -/
def quoted (q : Char) (word : Text) : Text := q :: (word ++ [q])

theorem singleton_infix_iff {c : Char} {s : Text} : [c] <:+: s ↔ c ∈ s := by
  refine ⟨fun h => h.subset (List.mem_singleton_self c), fun h => ?_⟩
  obtain ⟨u, v, rfl⟩ := List.append_of_mem h
  exact ⟨u, v, by simp⟩

theorem anchored_singleton (c : Char) : Anchored [c] := ⟨List.cons_ne_nil _ _, by simp⟩

/-- A character is found where it first stands. -/
theorem afterFirst_singleton {c : Char} {u : Text} (hu : c ∉ u) (v : Text) :
    afterFirst [c] (u ++ c :: v) = some v := by
  have h := (anchored_singleton c).afterFirst_append (singleton_infix_iff.not.mpr hu) v
  rwa [List.append_assoc, List.singleton_append] at h

theorem splitFirst_singleton {c : Char} {u : Text} (hu : c ∉ u) (v : Text) :
    splitFirst [c] (u ++ c :: v) = some (u, v) := by
  have h := (anchored_singleton c).splitFirst_append (singleton_infix_iff.not.mpr hu) v
  rwa [List.append_assoc, List.singleton_append] at h

/-- What stands before a character that is searched for, wherever it stands. -/
theorem splitFirst_singleton_append (c : Char) (u v : Text) :
    ∃ r, splitFirst [c] (u ++ c :: v) = some (u.takeWhile (· ≠ c), r) := by
  induction u with
  | nil => exact ⟨v, splitFirst_singleton List.not_mem_nil v⟩
  | cons b u ih =>
    by_cases hb : b = c
    · subst hb
      refine ⟨u ++ b :: v, ?_⟩
      rw [List.takeWhile_cons_of_neg (by simp)]
      exact splitFirst_singleton (u := []) List.not_mem_nil (u ++ b :: v)
    · obtain ⟨r, hr⟩ := ih
      have hsplit := eq_append_of_splitFirst hr
      have hmem : c ∉ b :: u.takeWhile (· ≠ c) := by
        rintro (_ | ⟨_, h⟩)
        · exact hb rfl
        · exact absurd (List.mem_takeWhile_imp h) (by simp)
      refine ⟨r, ?_⟩
      rw [List.takeWhile_cons_of_pos (by simpa using hb), List.cons_append, hsplit,
        List.append_assoc, ← List.cons_append]
      exact splitFirst_singleton hmem r

/-- What is not quoted is passed over. -/
theorem afterFirst_quoted_append {q : Char} {u : Text} (hu : q ∉ u) (word v : Text) :
    afterFirst (quoted q word) (u ++ v) = afterFirst (quoted q word) v := by
  refine afterFirst_append_of_skip fun w hw hsuffix hprefix => ?_
  cases w with
  | nil => exact hw rfl
  | cons c w =>
    obtain rfl := (List.cons_prefix_cons.mp hprefix).1
    exact hu (hsuffix.subset List.mem_cons_self)

/-- **Quoted words are found one by one.** -/
theorem afterFirst_quoted {q : Char} {word u : Text} (hword : q ∉ word) (hu : q ∉ u) (v : Text) :
    afterFirst (quoted q word) (q :: (u ++ q :: v)) =
      if u = word then some v else afterFirst (quoted q word) (q :: v) := by
  split_ifs with heq
  · subst heq
    have hprefix : (quoted q u).isPrefixOf (q :: (u ++ q :: v)) = true :=
      List.isPrefixOf_iff_prefix.mpr ⟨v, by simp [quoted]⟩
    have hdrop : (q :: (u ++ q :: v)).drop (quoted q u).length = v := by
      have happ : q :: (u ++ q :: v) = quoted q u ++ v := by simp [quoted]
      rw [happ, List.drop_left]
    rw [afterFirst, if_pos hprefix, hdrop]
  · have hprefix : ¬ (quoted q word).isPrefixOf (q :: (u ++ q :: v)) = true := by
      intro h
      obtain ⟨t, ht⟩ := List.isPrefixOf_iff_prefix.mp h
      have hcut : word ++ q :: t = u ++ q :: v := by simpa [quoted] using ht
      have hleft := congrArg (List.takeWhile (· ≠ q)) hcut
      rw [takeWhile_ne hword (by simp), takeWhile_ne hu (by simp)] at hleft
      exact heq hleft.symm
    rw [afterFirst, if_neg hprefix, afterFirst_quoted_append hu]

end Text
