import Mathlib

/-!
# Byte strings

A byte string is the list of its bytes, one `Char` for each, so that string functions
are list functions and literals stay readable. Binary data is a list of `UInt8`. The
search functions follow the usual string libraries: `find` and `substr` become the text
after the first occurrence of a pattern.
-/

/-- A byte string, one `Char` per byte. -/
abbrev Text := List Char

/-- Binary data. -/
abbrev Bytes := List UInt8

instance : Coe String Text := ⟨String.toList⟩

instance lawfulBEqText : LawfulBEq Text := inferInstance

namespace Text

/-- What a check of all characters of a text says of each. -/
theorem forall_of_all {p : Char → Prop} [DecidablePred p] {s : Text}
    (h : s.all (fun c => decide (p c)) = true) : ∀ c ∈ s, p c := fun c hc =>
  of_decide_eq_true (List.all_eq_true.mp h c hc)

/-- A property of all characters of a text is checked along the text. -/
instance decidableForallMem {p : Char → Prop} [DecidablePred p] (s : Text) :
    Decidable (∀ c ∈ s, p c) :=
  List.decidableBAll p s

/-- The text after the first occurrence of `pat` in `s`, if `pat` occurs. -/
def afterFirst (pat : Text) : Text → Option Text
  | [] => if pat = [] then some [] else none
  | c :: s => if pat.isPrefixOf (c :: s) then some ((c :: s).drop pat.length)
      else afterFirst pat s

/-- A pattern that is found occurs before the text that is left. -/
theorem eq_append_of_afterFirst {pat s r : Text} (h : afterFirst pat s = some r) :
    ∃ t, s = t ++ pat ++ r := by
  induction s with
  | nil =>
      unfold afterFirst at h
      split_ifs at h with hpat
      obtain rfl := Option.some.inj h
      exact ⟨[], by simp [hpat]⟩
  | cons c s ih =>
      unfold afterFirst at h
      split_ifs at h with hpat
      · obtain rfl := Option.some.inj h
        obtain ⟨r, hr⟩ := List.isPrefixOf_iff_prefix.mp hpat
        exact ⟨[], by rw [← hr, List.drop_left]; rfl⟩
      · obtain ⟨t, rfl⟩ := ih h
        exact ⟨c :: t, rfl⟩

/-- A search succeeds exactly when the pattern occurs. -/
theorem isSome_afterFirst_iff {pat s : Text} : (afterFirst pat s).isSome ↔ pat <:+: s := by
  constructor
  · intro h
    obtain ⟨r, hr⟩ := Option.isSome_iff_exists.mp h
    obtain ⟨t, ht⟩ := eq_append_of_afterFirst hr
    exact ⟨t, r, ht.symm⟩
  · intro h
    induction s with
    | nil => simp [afterFirst, List.eq_nil_of_infix_nil h]
    | cons c s ih =>
        rw [afterFirst]
        split_ifs with hpat
        · rfl
        · rcases List.infix_cons_iff.mp h with h | h
          · exact absurd (List.isPrefixOf_iff_prefix.mpr h) hpat
          · exact ih h

/-- A pattern does not reach into text that its last character is not in. -/
theorem infix_append_iff_of_not_mem {pat u v : Text} {c : Char} (hc : c ∉ v) :
    pat ++ [c] <:+: u ++ v ↔ pat ++ [c] <:+: u := by
  constructor
  · intro h
    rcases List.infix_append_iff_ne_nil.mp h with h | h | ⟨l₁, l₂, -, hne, heq, -, hpre⟩
    · exact h
    · exact absurd (h.subset (List.mem_append_right _ (List.mem_singleton_self c))) hc
    · have hlast : l₂.getLast? = some c := by
        rw [← List.getLast?_append_of_ne_nil l₁ hne, ← heq, List.getLast?_concat]
      exact absurd (hpre.subset (List.mem_of_getLast? hlast)) hc
  · exact fun h => h.trans (List.infix_append' [] u v)

/-- The texts before and after the first occurrence of `pat` in `s`, if `pat` occurs. -/
def splitFirst (pat s : Text) : Option (Text × Text) :=
  (afterFirst pat s).map fun r => (s.take (s.length - (pat.length + r.length)), r)

theorem eq_append_of_splitFirst {pat s t r : Text} (h : splitFirst pat s = some (t, r)) :
    s = t ++ pat ++ r := by
  obtain ⟨r', hr', hpair⟩ := Option.map_eq_some_iff.mp h
  obtain ⟨rfl, rfl⟩ := Prod.mk.inj hpair
  obtain ⟨t, rfl⟩ := eq_append_of_afterFirst hr'
  have hlen : (t ++ pat ++ r').length - (pat.length + r'.length) = t.length := by
    simp only [List.length_append]
    omega
  rw [hlen, List.append_assoc, List.take_left, List.append_assoc]

/-- `s.rfind(pat)`: the last position at which `pat` stands in `s`. -/
def rfind (pat s : Text) : Option ℕ :=
  ((List.range (s.length + 1)).filter fun i => pat.isPrefixOf (s.drop i)).getLast?

/-- The last position with a property below `n`. -/
theorem getLast?_filter_range {p : ℕ → Bool} {n i : ℕ} (hi : i < n) (hp : p i = true)
    (h : ∀ j, i < j → j < n → p j = false) :
    ((List.range n).filter p).getLast? = some i := by
  induction n with
  | zero => exact absurd hi (Nat.not_lt_zero i)
  | succ n ih =>
      rw [List.range_succ, List.filter_append]
      rcases Nat.lt_succ_iff_lt_or_eq.mp hi with hlt | rfl
      · have hlast : [n].filter p = [] := by
          rw [List.filter_cons_of_neg (by rw [h n hlt (Nat.lt_succ_self n)]; exact nofun),
            List.filter_nil]
        rw [hlast, List.append_nil]
        exact ih hlt fun j hj hlt => h j hj (Nat.lt_succ_of_lt hlt)
      · rw [List.filter_cons_of_pos hp, List.filter_nil, List.getLast?_concat]

/-- A pattern is found where it stands if it does not stand behind. -/
theorem rfind_eq_some {pat s : Text} {i : ℕ} (hi : i ≤ s.length) (hpat : pat <+: s.drop i)
    (h : ∀ j, i < j → ¬pat <+: s.drop j) : rfind pat s = some i := by
  refine getLast?_filter_range (Nat.lt_succ_of_le hi) (List.isPrefixOf_iff_prefix.mpr hpat)
    fun j hj _ => ?_
  exact Bool.eq_false_iff.mpr fun hstands => h j hj (List.isPrefixOf_iff_prefix.mp hstands)

/-- What is found stands there. -/
theorem eq_append_of_rfind {pat s : Text} {i : ℕ} (h : rfind pat s = some i) :
    ∃ u r, s = u ++ (pat ++ r) ∧ u.length = i := by
  have hmem := List.mem_filter.mp (List.mem_of_getLast? h)
  obtain ⟨r, hr⟩ := List.isPrefixOf_iff_prefix.mp hmem.2
  have hle := Nat.le_of_lt_succ (List.mem_range.mp hmem.1)
  exact ⟨s.take i, r, by rw [hr, List.take_append_drop], List.length_take_of_le hle⟩

/-- A pattern at the end is found there. -/
theorem rfind_append_self (u : Text) {pat : Text} (hne : pat ≠ []) :
    rfind pat (u ++ pat) = some u.length := by
  have hdrop : (u ++ pat).drop u.length = pat := List.drop_left
  refine rfind_eq_some (by rw [List.length_append]; omega)
    (hdrop.symm ▸ List.prefix_rfl) fun j hj hpat => ?_
  have hle := hpat.length_le
  have hpos := List.length_pos_iff.mpr hne
  rw [List.length_drop, List.length_append] at hle
  omega

theorem mem_of_isPrefixOf_drop {c : Char} {s : Text} {i : ℕ}
    (h : [c].isPrefixOf (s.drop i) = true) : c ∈ s := by
  obtain ⟨t, ht⟩ := List.isPrefixOf_iff_prefix.mp h
  exact List.mem_of_mem_drop (i := i) (ht ▸ List.mem_cons_self)

/-- A character is found last where it does not occur behind. -/
theorem rfind_singleton {c : Char} (u : Text) {r : Text} (h : c ∉ r) :
    rfind [c] (u ++ c :: r) = some u.length := by
  have hlen : (u ++ c :: r).length + 1 = u.length + 1 + (r.length + 1) := by
    rw [List.length_append, List.length_cons]
    omega
  have hhere : [c].isPrefixOf ((u ++ c :: r).drop u.length) = true := by
    rw [List.drop_left]
    exact List.isPrefixOf_iff_prefix.mpr ⟨r, rfl⟩
  have hbehind : ((List.range (r.length + 1)).map (u.length + 1 + ·)).filter
      (fun i => [c].isPrefixOf ((u ++ c :: r).drop i)) = [] := by
    rw [List.filter_eq_nil_iff]
    intro i hi hstands
    obtain ⟨j, -, rfl⟩ := List.mem_map.mp hi
    rw [Nat.add_assoc, ← List.drop_drop, List.drop_left, Nat.add_comm 1 j,
      List.drop_succ_cons] at hstands
    exact h (mem_of_isPrefixOf_drop hstands)
  have hone : [u.length].filter (fun i => [c].isPrefixOf ((u ++ c :: r).drop i)) = [u.length] :=
    List.filter_cons_of_pos hhere
  rw [rfind, hlen, List.range_add, List.filter_append, hbehind, List.append_nil, List.range_succ,
    List.filter_append, hone, List.getLast?_concat]

/-- A character that does not occur is not found. -/
theorem rfind_singleton_of_not_mem {c : Char} {s : Text} (h : c ∉ s) : rfind [c] s = none := by
  rw [rfind, List.getLast?_eq_none_iff, List.filter_eq_nil_iff]
  exact fun i _ hstands => h (mem_of_isPrefixOf_drop hstands)

/-- A text without the characters of `p` at its ends. -/
def trim (p : Char → Bool) (s : Text) : Text := (s.dropWhile p).rdropWhile p

/-- Binary data read as a string. -/
def ofBytes (bs : Bytes) : Text := bs.map fun b => Char.ofNat b.toNat

/-- A natural number in decimal (`std::to_string`). -/
def ofNat (n : ℕ) : Text := Nat.toDigits 10 n

/-- The lower-case hexadecimal digit of a number below 16. -/
def hexDigit (n : ℕ) : Char :=
  if n < 10 then Char.ofNat ('0'.toNat + n) else Char.ofNat ('a'.toNat + (n - 10))

theorem ascii_of_isAlphanum {c : Char} (h : c.isAlphanum = true) : c.toNat < 0x80 := by
  simp only [Char.isAlphanum, Char.isAlpha, Char.isUpper, Char.isLower, Char.isDigit,
    Bool.or_eq_true, Bool.and_eq_true, decide_eq_true_eq, UInt32.le_iff_toNat_le] at h
  have htoNat : c.toNat = c.val.toNat := rfl
  have hletters : 'A'.val.toNat = 65 ∧ 'Z'.val.toNat = 90 ∧ 'a'.val.toNat = 97 ∧
      'z'.val.toNat = 122 ∧ '0'.val.toNat = 48 ∧ '9'.val.toNat = 57 := by decide
  omega

/-- A byte as two hexadecimal digits. -/
def hexByte (b : UInt8) : Text := [hexDigit (b.toNat / 16), hexDigit (b.toNat % 16)]

theorem hexDigit_ascii : ∀ n < 16, (hexDigit n).toNat < 0x80 := by
  decide

/-- Hexadecimal is ASCII. -/
theorem hexByte_ascii (b : UInt8) : ∀ c ∈ hexByte b, c.toNat < 0x80 := by
  have hb := b.toNat_lt
  simp only [hexByte, List.forall_mem_cons]
  exact ⟨hexDigit_ascii _ (by omega), hexDigit_ascii _ (by omega), fun _ h => nomatch h⟩

/-- The lines of a text. A final newline ends the last line. -/
def lines (s : Text) : List Text :=
  match s.splitOn '\n' with
  | [] => []
  | ls => if ls.getLast? = some [] then ls.dropLast else ls

/-- The spaces of `isspace`. -/
def isSpace (c : Char) : Bool :=
  c = ' ' || c = '\t' || c = '\n' || c = '\r' || c = Char.ofNat 11 || c = Char.ofNat 12

/-- The string up to its first zero byte (`c_str`). -/
def cStr (s : Text) : Text := s.takeWhile (· ≠ Char.ofNat 0)

/-- The word at the start of a text ends at the first separator. -/
theorem takeWhile_ne {sep : Char} {word rest : Text} (hword : sep ∉ word)
    (hrest : ∀ c ∈ rest.head?, c = sep) : (word ++ rest).takeWhile (· ≠ sep) = word := by
  have hword' : ∀ c ∈ word, decide (c ≠ sep) = true := fun c hc =>
    decide_eq_true fun h => hword (h ▸ hc)
  rw [List.takeWhile_append_of_pos hword']
  cases rest with
  | nil => simp
  | cons c rest => simp [hrest c rfl]

/-- What is left behind that word starts with the separator. -/
theorem dropWhile_ne {sep : Char} {word rest : Text} (hword : sep ∉ word)
    (hrest : ∀ c ∈ rest.head?, c = sep) : (word ++ rest).dropWhile (· ≠ sep) = rest := by
  have hsplit := List.takeWhile_append_dropWhile (p := (· ≠ sep)) (l := word ++ rest)
  rw [takeWhile_ne hword hrest] at hsplit
  exact List.append_cancel_left hsplit

theorem zero_not_mem_cStr (s : Text) : Char.ofNat 0 ∉ cStr s := by
  intro h
  simpa using List.mem_takeWhile_imp h

theorem cStr_eq_self {s : Text} (h : Char.ofNat 0 ∉ s) : cStr s = s :=
  List.takeWhile_eq_self_iff.mpr fun _ hc => decide_eq_true fun hzero => h (hzero ▸ hc)

/-- A text ends at its first zero byte. -/
theorem cStr_append {s r : Text} (hs : Char.ofNat 0 ∉ s) : cStr (s ++ Char.ofNat 0 :: r) = s :=
  takeWhile_ne hs (by rintro c ⟨⟩; rfl)

/-- A text is cut at its first zero byte, if it has one. -/
theorem cStr_eq_or (s : Text) : cStr s = s ∨ ∃ r, s = cStr s ++ Char.ofNat 0 :: r := by
  by_cases h : Char.ofNat 0 ∈ s
  · obtain ⟨t, r, rfl, ht⟩ := List.eq_append_cons_of_mem h
    exact Or.inr ⟨r, by rw [cStr_append ht]⟩
  · exact Or.inl (cStr_eq_self h)

/-- The last occurrence of a character. -/
theorem exists_last {c : Char} {s : Text} (h : c ∈ s) : ∃ t r, s = t ++ c :: r ∧ c ∉ r := by
  obtain ⟨r, t, hs, hr⟩ := List.eq_append_cons_of_mem (List.mem_reverse.mpr h)
  refine ⟨t.reverse, r.reverse, ?_, fun h => hr (List.mem_reverse.mp h)⟩
  rw [← List.reverse_reverse s, hs]
  simp

/-- What is cut at the end is cut whole. -/
theorem rdropWhile_append_of_pos {p : Char → Bool} {s t : Text} (ht : ∀ c ∈ t, p c = true) :
    (s ++ t).rdropWhile p = s.rdropWhile p := by
  induction t using List.reverseRecOn with
  | nil => rw [List.append_nil]
  | append_singleton t c ih =>
      rw [← List.append_assoc, List.rdropWhile_concat_pos _ _ _ (ht c (by simp))]
      exact ih fun c hc => ht c (by simp [hc])

/-- At the end of a text that ends in another character only what is appended is cut. -/
theorem rdropWhile_append_of_last {p : Char → Bool} {s : Text} (hne : s ≠ [])
    (hlast : p (s.getLast hne) = false) (t : Text) :
    (s ++ t).rdropWhile p = s ++ t.rdropWhile p := by
  induction t using List.reverseRecOn with
  | nil =>
    rw [List.append_nil, List.rdropWhile_nil, List.append_nil, List.rdropWhile_eq_self_iff]
    intro hne
    rw [hlast]
    exact Bool.false_ne_true
  | append_singleton t c ih =>
    rw [← List.append_assoc]
    cases hc : p c with
    | true => rw [List.rdropWhile_concat_pos _ _ _ hc, ih, List.rdropWhile_concat_pos _ _ _ hc]
    | false =>
      have hc' : ¬ p c = true := by simp [hc]
      rw [List.rdropWhile_concat_neg _ _ _ hc', List.rdropWhile_concat_neg _ _ _ hc',
        List.append_assoc]
/-- What is trimmed off stands at the ends. -/
theorem eq_trim (p : Char → Bool) (s : Text) :
    ∃ ws ws', s = ws ++ (trim p s ++ ws') ∧ ws.all p = true ∧ ws'.all p = true := by
  refine ⟨s.takeWhile p, (s.dropWhile p).rtakeWhile p, ?_, ?_, ?_⟩
  · rw [trim, List.rdropWhile_append_rtakeWhile, List.takeWhile_append_dropWhile]
  · exact List.all_eq_true.mpr fun _ hc => List.mem_takeWhile_imp hc
  · exact List.all_eq_true.mpr fun _ hc => List.mem_rtakeWhile_imp hc

/-- What is cut at the end does not end the text that is left. -/
theorem getLast?_rdropWhile {p : Char → Bool} {s : Text} {c : Char}
    (h : c ∈ (s.rdropWhile p).getLast?) : p c = false := by
  have hne : s.rdropWhile p ≠ [] := fun hnil => by
    rw [hnil] at h
    cases h
  have hlast := List.rdropWhile_last_not p s hne
  have hc : (s.rdropWhile p).getLast hne = c :=
    Option.some.inj ((List.getLast?_eq_some_getLast hne).symm.trans h)
  rw [hc] at hlast
  exact Bool.eq_false_iff.mpr hlast

/-- A text that is trimmed starts and ends with other characters. -/
theorem trim_ends {p : Char → Bool} {s : Text} {c : Char}
    (h : c ∈ (trim p s).head? ∨ c ∈ (trim p s).getLast?) : p c = false := by
  rcases h with h | h
  · obtain ⟨r, hr⟩ := List.rdropWhile_prefix p (l := s.dropWhile p)
    have hhead : (s.dropWhile p).head? = some c := by
      rw [← hr, List.head?_append, show (List.rdropWhile p (s.dropWhile p)).head? = some c from h]
      rfl
    have hnot := List.head?_dropWhile_not p s
    rwa [hhead] at hnot
  · exact getLast?_rdropWhile h

theorem trim_eq_self {p : Char → Bool} {s : Text}
    (h : ∀ c, c ∈ s.head? ∨ c ∈ s.getLast? → p c = false) : trim p s = s := by
  have hdrop : s.dropWhile p = s := by
    cases s with
    | nil => rfl
    | cons c s => exact List.dropWhile_cons_of_neg (by simp [h c (Or.inl rfl)])
  rw [trim, hdrop, List.rdropWhile_eq_self_iff]
  intro hne
  rw [h _ (Or.inr (List.getLast?_eq_some_getLast hne))]
  exact Bool.false_ne_true

/-- Lines and what stands behind them are split again. -/
theorem splitOn_lines {ls : List Text} (h : ∀ l ∈ ls, '\n' ∉ l) {last : Text}
    (hlast : '\n' ∉ last) : (ls.flatMap (· ++ ['\n']) ++ last).splitOn '\n' = ls ++ [last] := by
  induction ls with
  | nil => exact List.splitOn_eq_singleton hlast
  | cons l ls ih =>
    obtain ⟨hl, hls⟩ := List.forall_mem_cons.mp h
    rw [List.flatMap_cons, List.append_assoc, List.append_assoc, List.singleton_append,
      List.splitOn_append_cons_self_of_not_mem hl, ih hls, List.cons_append]

theorem lines_flatMap {ls : List Text} (h : ∀ l ∈ ls, '\n' ∉ l) :
    lines (ls.flatMap (· ++ ['\n'])) = ls := by
  have hsplit := splitOn_lines h (List.not_mem_nil : '\n' ∉ ([] : Text))
  rw [List.append_nil] at hsplit
  rw [lines, hsplit]
  split
  · next hnil => exact absurd hnil (by simp)
  · rw [List.getLast?_concat, if_pos rfl, List.dropLast_concat]

/-- A piece occurs in the text that the pieces are joined to. -/
theorem infix_of_mem_intercalate {s piece : Text} {pieces : List Text}
    (h : piece ∈ pieces) : piece <:+: s.intercalate pieces := by
  induction pieces with
  | nil => cases h
  | cons first rest ih =>
      cases rest with
      | nil =>
          obtain rfl := List.mem_singleton.mp h
          simp
      | cons second rest =>
          rw [List.intercalate_cons_cons]
          rcases List.mem_cons.mp h with rfl | h
          · exact ⟨[], s ++ s.intercalate (second :: rest), by simp⟩
          · exact (ih h).trans ⟨first ++ s, [], by simp⟩

/-- A piece between separators occurs in the text. -/
theorem infix_of_mem_splitOn {sep : Char} {s piece : Text} (h : piece ∈ s.splitOn sep) :
    piece <:+: s := by
  have := infix_of_mem_intercalate (s := [sep]) h
  rwa [List.intercalate_splitOn] at this

/-- A piece between separators has no separator. -/
theorem not_mem_of_mem_splitOn {sep : Char} {s piece : Text} (h : piece ∈ s.splitOn sep) :
    sep ∉ piece := by
  by_cases hsep : sep ∈ s
  · obtain ⟨u, t, rfl, hu⟩ := List.eq_append_cons_of_mem hsep
    rw [List.splitOn_append_cons_self_of_not_mem hu] at h
    rcases List.mem_cons.mp h with rfl | h
    · exact hu
    · exact not_mem_of_mem_splitOn h
  · rw [List.splitOn_eq_singleton hsep] at h
    obtain rfl := List.mem_singleton.mp h
    exact hsep
  termination_by s.length

/-- The pieces of a text start the pieces of a longer one. -/
theorem exists_prefix_of_mem_splitOn {sep : Char} {s t piece : Text} (hinit : s <+: t)
    (h : piece ∈ s.splitOn sep) : ∃ whole ∈ t.splitOn sep, piece <+: whole := by
  obtain ⟨r, rfl⟩ := hinit
  by_cases hsep : sep ∈ s
  · obtain ⟨u, s', rfl, hu⟩ := List.eq_append_cons_of_mem hsep
    rw [List.splitOn_append_cons_self_of_not_mem hu] at h
    rw [List.append_assoc, List.cons_append, List.splitOn_append_cons_self_of_not_mem hu]
    rcases List.mem_cons.mp h with rfl | h
    · exact ⟨_, List.mem_cons_self, List.prefix_rfl⟩
    · obtain ⟨whole, hwhole, hpiece⟩ := exists_prefix_of_mem_splitOn ⟨r, rfl⟩ h
      exact ⟨whole, List.mem_cons_of_mem _ hwhole, hpiece⟩
  · rw [List.splitOn_eq_singleton hsep] at h
    obtain rfl := List.mem_singleton.mp h
    by_cases hr : sep ∈ r
    · obtain ⟨u, r', rfl, hu⟩ := List.eq_append_cons_of_mem hr
      have hnot : sep ∉ piece ++ u := fun hmem =>
        (List.mem_append.mp hmem).elim hsep hu
      rw [← List.append_assoc, List.splitOn_append_cons_self_of_not_mem hnot]
      exact ⟨_, List.mem_cons_self, List.prefix_append _ _⟩
    · have hnot : sep ∉ piece ++ r := fun hmem => (List.mem_append.mp hmem).elim hsep hr
      rw [List.splitOn_eq_singleton hnot]
      exact ⟨_, List.mem_singleton_self _, List.prefix_append _ _⟩
  termination_by s.length

/-! ### Numerals -/

theorem isDigit_toDigits {n : ℕ} : ∀ c ∈ Nat.toDigits 10 n, c.isDigit = true :=
  fun _ hc => Nat.isDigit_of_mem_toDigits (by decide) (by decide) hc

theorem ofNat_ne_nil {n : ℕ} : ofNat n ≠ [] := Nat.toDigits_ne_nil

theorem ofNat_injective : Function.Injective ofNat := by
  intro m n h
  have hvalue := congrArg (fun ds => Nat.ofDigitChars 10 ds 0) h
  simpa only [ofNat, Nat.ofDigitChars_ten_toDigits] using hvalue

/-- A numeral ends where no digit follows it. -/
theorem takeWhile_dropWhile_append {s r : Text} (hds : ∀ c ∈ s, c.isDigit = true)
    (hr : ∀ c ∈ r.head?, c.isDigit = false) :
    (s ++ r).takeWhile Char.isDigit = s ∧ (s ++ r).dropWhile Char.isDigit = r := by
  have htake : r.takeWhile Char.isDigit = [] := by
    cases r with
    | nil => rfl
    | cons c r => simp [hr c (by simp)]
  have hdrop : r.dropWhile Char.isDigit = r := by
    cases r with
    | nil => rfl
    | cons c r => simp [hr c (by simp)]
  constructor
  · rw [List.takeWhile_append_of_pos hds, htake, List.append_nil]
  · rw [List.dropWhile_append_of_pos hds, hdrop]

/-- A numeral and the text behind it are determined by the whole. -/
theorem ofNat_append_inj {m n : ℕ} {r t : Text} (hr : ∀ c ∈ r.head?, c.isDigit = false)
    (ht : ∀ c ∈ t.head?, c.isDigit = false) (h : ofNat m ++ r = ofNat n ++ t) :
    m = n ∧ r = t := by
  obtain ⟨htake, hdrop⟩ := takeWhile_dropWhile_append (s := ofNat m) isDigit_toDigits hr
  obtain ⟨htake', hdrop'⟩ := takeWhile_dropWhile_append (s := ofNat n) isDigit_toDigits ht
  rw [h] at htake hdrop
  exact ⟨ofNat_injective (htake.symm.trans htake'), hdrop.symm.trans hdrop'⟩

/-- Cutting trailing digits cuts a numeral at the end. -/
theorem rdropWhile_isDigit_append_ofNat (s : Text) (n : ℕ) :
    (s ++ ofNat n).rdropWhile Char.isDigit = s.rdropWhile Char.isDigit :=
  rdropWhile_append_of_pos isDigit_toDigits

theorem ofDigitChars_concat (s : Text) (c : Char) :
    Nat.ofDigitChars 10 (s ++ [c]) 0 = 10 * Nat.ofDigitChars 10 s 0 + (c.toNat - 48) := by
  rw [Nat.ofDigitChars_append, Nat.ofDigitChars_cons, Nat.ofDigitChars_nil]
  rfl

theorem toNat_of_isDigit {c : Char} (h : c.isDigit = true) : 48 ≤ c.toNat ∧ c.toNat ≤ 57 := by
  simpa [Char.isDigit, UInt32.le_iff_toNat_le] using h

/-- The value of a numeral is bounded by its length. -/
theorem ofDigitChars_lt {s : Text} (h : ∀ c ∈ s, c.isDigit = true) :
    Nat.ofDigitChars 10 s 0 < 10 ^ s.length := by
  induction s using List.reverseRecOn with
  | nil => exact Nat.one_pos
  | append_singleton s c ih =>
      have hs := ih fun d hd => h d (List.mem_append_left _ hd)
      have hc := toNat_of_isDigit (h c (List.mem_append_right _ List.mem_cons_self))
      rw [ofDigitChars_concat, List.length_append, List.length_singleton, Nat.pow_succ]
      omega

/-- Numerals of one length are determined by their value. -/
theorem ofDigitChars_inj {s t : Text} (hs : ∀ c ∈ s, c.isDigit = true)
    (ht : ∀ c ∈ t, c.isDigit = true) (hlen : s.length = t.length)
    (h : Nat.ofDigitChars 10 s 0 = Nat.ofDigitChars 10 t 0) : s = t := by
  induction s using List.reverseRecOn generalizing t with
  | nil => exact (List.length_eq_zero_iff.mp hlen.symm).symm
  | append_singleton s c ih =>
      rcases List.eq_nil_or_concat' t with rfl | ⟨t, d, rfl⟩
      · exact absurd hlen (by rw [List.length_append]; exact nofun)
      rw [List.length_append, List.length_append] at hlen
      have hc := toNat_of_isDigit (hs c (List.mem_append_right _ List.mem_cons_self))
      have hd := toNat_of_isDigit (ht d (List.mem_append_right _ List.mem_cons_self))
      rw [ofDigitChars_concat, ofDigitChars_concat] at h
      have hcd : c.toNat = d.toNat := by omega
      rw [ih (fun e he => hs e (List.mem_append_left _ he))
        (fun e he => ht e (List.mem_append_left _ he)) (Nat.add_right_cancel hlen) (by omega),
        Char.toNat_inj.mp hcd]

end Text
