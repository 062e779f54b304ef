import Llamaste.Lib.TextSearch
import Llamaste.Wifi

/-!
# Masked passphrases

Before a command is logged, the value behind the word `psk` is replaced by stars. The value of a
command is escaped, but it is masked up to its first quote, escaped or not. Source: `wifi.cpp`.

## Main results

* `maskFrom_eq_iff`: two texts are masked to the same one exactly when they are alike.
* `maskPsk_setPsk_iff`: the commands for two passphrases are masked to the same text exactly when
  the passphrases have no quote, or are alike behind their first ones.
-/

namespace Llamaste

/-! ### The mask -/

/-- The word `psk` stands here with text behind it, and starts a word. -/
def AtPsk (prev : Option Char) (s : Text) : Bool :=
  4 ≤ s.length && "psk".toList.isPrefixOf s && (prev = none || prev = some ' ' || prev = some '"')

/-- Whether the value behind the word is quoted, and the text behind the value. -/
def afterValue (s : Text) : Bool × Text :=
  match (s.drop 3).dropWhile (· = ' ') with
  | '"' :: value => (true, (value.dropWhile (· ≠ '"')).drop 1)
  | value => (false, value.dropWhile (· ≠ ' '))

/-- What stands for a value. -/
def stars (quoted : Bool) : Text := if quoted then "psk \"****\"" else "psk ****"

theorem length_afterValue_le (s : Text) : (afterValue s).2.length ≤ s.length - 3 := by
  have hdrop : ∀ (p : Char → Bool) (t : Text), (t.dropWhile p).length ≤ t.length := fun p t =>
    (List.dropWhile_sublist p).length_le
  have hskip := hdrop (· = ' ') (s.drop 3)
  rw [List.length_drop] at hskip
  rw [afterValue]
  split
  · next value heq =>
    have hvalue := hdrop (· ≠ '"') value
    rw [heq, List.length_cons] at hskip
    simp only [List.length_drop]
    omega
  · next heq => exact (hdrop (· ≠ ' ') _).trans hskip

/-- The text from a place on, masked; with the character before that place. -/
def maskFrom (prev : Option Char) : Text → Text
  | [] => []
  | c :: s =>
    if AtPsk prev (c :: s) then
      stars (afterValue (c :: s)).1 ++
        maskFrom ((c :: s).take ((c :: s).length - (afterValue (c :: s)).2.length)).getLast?
          (afterValue (c :: s)).2
    else c :: maskFrom (some c) s
termination_by s => s.length
decreasing_by
  · have hle := length_afterValue_le (c :: s)
    simp only [List.length_cons] at hle ⊢
    omega
  · simp

/-- `mask_psk`. -/
def maskPsk (cmd : Text) : Text := maskFrom none cmd

theorem maskFrom_nil {prev : Option Char} : maskFrom prev [] = [] := by rw [maskFrom]

theorem maskFrom_of_atPsk {prev : Option Char} {s : Text} (h : AtPsk prev s = true) :
    maskFrom prev s = stars (afterValue s).1 ++
      maskFrom (s.take (s.length - (afterValue s).2.length)).getLast? (afterValue s).2 := by
  cases s with
  | nil => cases prev <;> cases h
  | cons c s => rw [maskFrom, if_pos h]

theorem maskFrom_cons {prev : Option Char} {c : Char} {s : Text}
    (h : AtPsk prev (c :: s) = false) : maskFrom prev (c :: s) = c :: maskFrom (some c) s := by
  rw [maskFrom, if_neg (by rw [h]; exact Bool.false_ne_true)]

theorem atPsk_congr {prev prev' : Option Char} {s : Text} (h : s.head? ≠ some 'p') :
    AtPsk prev s = AtPsk prev' s := by
  have hnot : "psk".toList.isPrefixOf s = false := by
    cases s with
    | nil => rfl
    | cons c s =>
      have hc : ('p' == c) = false := beq_eq_false_iff_ne.mpr fun heq => h (heq ▸ rfl)
      exact Bool.and_eq_false_iff.mpr (Or.inl hc)
  rw [AtPsk, AtPsk, hnot, Bool.and_false, Bool.false_and]
  rfl

/-- The character before matters only to the word. -/
theorem maskFrom_congr {prev prev' : Option Char} {s : Text} (h : s.head? ≠ some 'p') :
    maskFrom prev s = maskFrom prev' s := by
  cases s with
  | nil => rw [maskFrom_nil, maskFrom_nil]
  | cons c s => rw [maskFrom, maskFrom, atPsk_congr h]

/-- A value ends with its quote, or at a space, or at the end of the text. -/
theorem afterValue_spec (s : Text) : (afterValue s).2.head? ≠ some 'p' ∨
    ∃ u, s = u ++ '"' :: (afterValue s).2 := by
  rw [afterValue]
  split
  · next value heq =>
    cases hclose : value.dropWhile (· ≠ '"') with
    | nil => exact Or.inl (by simp)
    | cons c rest =>
      have hc : c = '"' := by
        have hhead := List.head?_dropWhile_not (· ≠ '"') value
        rw [hclose] at hhead
        simpa using hhead
      refine Or.inr ⟨s.take 3 ++ (s.drop 3).takeWhile (· = ' ') ++
        '"' :: value.takeWhile (· ≠ '"'), ?_⟩
      rw [List.drop_one, List.tail_cons, ← hc, ← hclose]
      simp only [List.append_assoc, List.cons_append, List.takeWhile_append_dropWhile, ← heq, hc,
        List.take_append_drop]
  · refine Or.inl fun hp => ?_
    have hhead := List.head?_dropWhile_not (· ≠ ' ') ((s.drop 3).dropWhile (· = ' '))
    dsimp only at hp
    rw [hp] at hhead
    exact absurd hhead (by decide)

theorem maskFrom_value {prev : Option Char} {s : Text} (h : AtPsk prev s = true) :
    maskFrom prev s = stars (afterValue s).1 ++ maskFrom (some '"') (afterValue s).2 := by
  rw [maskFrom_of_atPsk h]
  refine congrArg _ ?_
  rcases afterValue_spec s with hp | ⟨u, hu⟩
  · exact maskFrom_congr hp
  · generalize (afterValue s).2 = rest at hu
    have hlast : s.take (s.length - rest.length) = u ++ ['"'] := by
      have hsplit : s = u ++ ['"'] ++ rest := by rw [hu, List.append_cons]
      rw [hsplit]
      exact List.take_left' (by simp only [List.length_append]; omega)
    rw [hlast, List.getLast?_concat]

/-! ### Alike texts -/

/-- Two texts that differ only in values behind the word. -/
inductive MaskAlike : Option Char → Text → Text → Prop
  | nil {prev : Option Char} : MaskAlike prev [] []
  | char {prev : Option Char} {c : Char} {s t : Text} : AtPsk prev (c :: s) = false →
      AtPsk prev (c :: t) = false → MaskAlike (some c) s t → MaskAlike prev (c :: s) (c :: t)
  | value {prev : Option Char} {s t : Text} : AtPsk prev s = true → AtPsk prev t = true →
      (afterValue s).1 = (afterValue t).1 →
      MaskAlike (some '"') (afterValue s).2 (afterValue t).2 → MaskAlike prev s t

theorem maskFrom_of_maskAlike {prev : Option Char} {s t : Text} (h : MaskAlike prev s t) :
    maskFrom prev s = maskFrom prev t := by
  induction h with
  | nil => rfl
  | char hs ht _ ih => rw [maskFrom_cons hs, maskFrom_cons ht, ih]
  | value hs ht hquoted _ ih => rw [maskFrom_value hs, maskFrom_value ht, hquoted, ih]

/-- A character that is shown starts the masked text, and the text. -/
theorem cons_of_maskFrom {prev : Option Char} {t r : Text} {c : Char}
    (ht : AtPsk prev t = false) (h : maskFrom prev t = c :: r) :
    ∃ t', t = c :: t' ∧ maskFrom (some c) t' = r := by
  cases t with
  | nil =>
    rw [maskFrom] at h
    cases h
  | cons d t =>
    rw [maskFrom_cons ht] at h
    obtain ⟨hc, hr⟩ := List.cons.inj h
    subst hc
    exact ⟨t, rfl, hr⟩

theorem atPsk_some_eq_false {c : Char} (hc : c ≠ ' ' ∧ c ≠ '"') (s : Text) :
    AtPsk (some c) s = false := by
  simp [AtPsk, hc]

/-- What stands for a value is no text that is shown. -/
theorem atPsk_of_maskFrom_eq {prev : Option Char} {s t : Text} (hs : AtPsk prev s = true)
    (h : maskFrom prev s = maskFrom prev t) : AtPsk prev t = true := by
  by_contra ht
  rw [Bool.not_eq_true] at ht
  obtain ⟨r, hr⟩ : ∃ r, maskFrom prev s = 'p' :: 's' :: 'k' :: ' ' :: r := by
    rw [maskFrom_value hs, stars]
    split <;> exact ⟨_, rfl⟩
  obtain ⟨t₁, rfl, h₁⟩ := cons_of_maskFrom ht (h.symm.trans hr)
  obtain ⟨t₂, rfl, h₂⟩ := cons_of_maskFrom (atPsk_some_eq_false (by decide) t₁) h₁
  obtain ⟨t₃, rfl, h₃⟩ := cons_of_maskFrom (atPsk_some_eq_false (by decide) t₂) h₂
  obtain ⟨t₄, rfl, -⟩ := cons_of_maskFrom (atPsk_some_eq_false (by decide) t₃) h₃
  -- so the word stands there as well
  have hprev : (prev = none || prev = some ' ' || prev = some '"') = true :=
    (Bool.and_eq_true_iff.mp hs).2
  rw [AtPsk, hprev, Bool.and_true] at ht
  simp at ht

/-- Values of the two kinds are told apart. -/
theorem stars_append_inj {q q' : Bool} {r r' : Text} (h : stars q ++ r = stars q' ++ r') :
    q = q' ∧ r = r' := by
  cases q <;> cases q'
  · exact ⟨rfl, List.append_cancel_left h⟩
  · simp [stars] at h
  · simp [stars] at h
  · exact ⟨rfl, List.append_cancel_left h⟩

theorem maskFrom_ne_nil {prev : Option Char} {c : Char} {s : Text} :
    maskFrom prev (c :: s) ≠ [] := by
  rw [maskFrom, stars]
  split
  · split <;> exact List.cons_ne_nil _ _
  · exact List.cons_ne_nil _ _

theorem maskFrom_concat_ne_nil {prev : Option Char} {c : Char} {s : Text} :
    maskFrom prev (s ++ [c]) ≠ [] := by
  cases s <;> exact maskFrom_ne_nil

theorem maskAlike_of_maskFrom {prev : Option Char} {s t : Text}
    (h : maskFrom prev s = maskFrom prev t) : MaskAlike prev s t := by
  induction hn : s.length using Nat.strong_induction_on generalizing prev s t with
  | _ n ih =>
    cases hs : AtPsk prev s with
    | true =>
      have ht := atPsk_of_maskFrom_eq hs h
      rw [maskFrom_value hs, maskFrom_value ht] at h
      obtain ⟨hquoted, hrest⟩ := stars_append_inj h
      have hlen : 4 ≤ s.length := by
        simp only [AtPsk, Bool.and_eq_true, decide_eq_true_eq] at hs
        exact hs.1.1
      have hle := length_afterValue_le s
      exact .value hs ht hquoted (ih _ (by omega) hrest rfl)
    | false =>
      have ht : AtPsk prev t = false := Bool.eq_false_iff.mpr fun ht =>
        Bool.false_ne_true (hs.symm.trans (atPsk_of_maskFrom_eq ht h.symm))
      cases s with
      | nil =>
        cases t with
        | nil => exact .nil
        | cons c t => exact absurd (h.symm.trans maskFrom_nil) maskFrom_ne_nil
      | cons c s =>
        rw [maskFrom_cons hs] at h
        obtain ⟨t, rfl, hrest⟩ := cons_of_maskFrom ht h.symm
        exact .char hs ht (ih _ (by rw [← hn]; simp) hrest.symm rfl)

/-- **Two texts are masked to the same one** exactly when they are alike. -/
theorem maskFrom_eq_iff {prev : Option Char} {s t : Text} :
    maskFrom prev s = maskFrom prev t ↔ MaskAlike prev s t :=
  ⟨maskAlike_of_maskFrom, maskFrom_of_maskAlike⟩

/-! ### The commands of two passphrases -/

/-- Two passphrases have no quote, or what is sent of them behind their first quotes differs
only in values behind the word `psk`. -/
def AlikeBehindQuote (psk psk' : Text) : Prop :=
  match Text.afterFirst ['"'] psk, Text.afterFirst ['"'] psk' with
  | none, none => True
  | some rest, some rest' =>
    MaskAlike (some '"') (pskEsc rest ++ ['"']) (pskEsc rest' ++ ['"'])
  | _, _ => False

/-- A text without the first letter of the word is shown. -/
theorem maskFrom_append {u : Text} (hu : 'p' ∉ u) (prev : Option Char) (s : Text) :
    maskFrom prev (u ++ s) = u ++ maskFrom (u.getLast?.or prev) s := by
  induction u generalizing prev with
  | nil => rfl
  | cons c u ih =>
    obtain ⟨hc, hu⟩ := not_or.mp (mt List.mem_cons.mpr hu)
    have hnot : AtPsk prev (c :: (u ++ s)) = false := by
      have hhead : (c :: (u ++ s)).head? ≠ some 'p' := by simpa using Ne.symm hc
      exact (atPsk_congr hhead).trans (atPsk_some_eq_false (show 'x' ≠ ' ' ∧ 'x' ≠ '"' by decide) _)
    rw [List.cons_append, maskFrom_cons hnot, ih hu]
    cases u with
    | nil => rfl
    | cons d u =>
      rw [List.getLast?_cons_cons]
      cases hlast : (d :: u).getLast? with
      | none => simp at hlast
      | some a => rfl

theorem pskEsc_append (u v : Text) : pskEsc (u ++ v) = pskEsc u ++ pskEsc v := by
  rw [pskEsc, keptChars, List.filter_append, escapeQuotes, List.flatMap_append]
  rfl

theorem not_mem_pskEsc {u : Text} (hu : '"' ∉ u) : '"' ∉ pskEsc u := by
  intro h
  obtain ⟨c, hc, hin⟩ := List.mem_flatMap.mp h
  have hc' : c ∈ u := List.mem_of_mem_filter hc
  split at hin
  · next hescaped =>
    rcases hescaped with rfl | rfl
    · exact absurd hin (by decide)
    · exact hu hc'
  · exact hu (List.mem_singleton.mp hin ▸ hc')

/-- What is left behind the first quote of the command. -/
theorem drop_pskEsc (psk : Text) :
    ((pskEsc psk ++ ['"']).dropWhile (· ≠ '"')).drop 1 =
      match Text.afterFirst ['"'] psk with
      | none => []
      | some rest => pskEsc rest ++ ['"'] := by
  cases hquote : Text.afterFirst ['"'] psk with
  | none =>
    have hnot : '"' ∉ psk := fun hmem =>
      Text.afterFirst_eq_none_iff.mp hquote (Text.singleton_infix_iff.mpr hmem)
    rw [Text.dropWhile_ne (not_mem_pskEsc hnot) (by rintro c ⟨⟩; rfl)]
    rfl
  | some rest =>
    obtain ⟨u, rfl⟩ := Text.eq_append_of_afterFirst hquote
    have hu : '"' ∉ u := fun hmem => Text.not_infix_of_afterFirst (List.cons_ne_nil _ _) hquote
      (Text.singleton_infix_iff.mpr hmem)
    have hesc : pskEsc (u ++ ['"'] ++ rest) ++ ['"'] =
        (pskEsc u ++ ['\\']) ++ '"' :: (pskEsc rest ++ ['"']) := by
      have hquoted : pskEsc ['"'] = ['\\', '"'] := rfl
      rw [pskEsc_append, pskEsc_append, hquoted]
      simp
    have hword : '"' ∉ pskEsc u ++ ['\\'] := by
      simp [not_mem_pskEsc hu]
    rw [hesc, Text.dropWhile_ne hword (by rintro c ⟨⟩; rfl)]
    rfl

/-- A command is masked up to the first quote of its value. -/
theorem maskPsk_setPsk (id : ℤ) (psk : Text) :
    maskPsk (WpaCommand.setPsk id (pskEsc psk)).text =
      "SET_NETWORK ".toList ++ Json.dumpInt id ++ [' '] ++ (stars true ++ maskFrom (some '"')
        (((pskEsc psk ++ ['"']).dropWhile (· ≠ '"')).drop 1)) := by
  have hhead : 'p' ∉ "SET_NETWORK ".toList ++ Json.dumpInt id ++ [' '] := by
    simp [Strto.not_mem_dumpInt (show 'p' ≠ '+' ∧ 'p' ≠ '-' ∧ 'p'.isDigit = false by decide)]
  have htext : (WpaCommand.setPsk id (pskEsc psk)).text =
      "SET_NETWORK ".toList ++ Json.dumpInt id ++ [' '] ++
        ("psk \"".toList ++ (pskEsc psk ++ ['"'])) := by
    have hassoc : ∀ a b c d e : Text, a ++ b ++ ' ' :: (c ++ d ++ e) =
        a ++ b ++ [' '] ++ (c ++ (d ++ e)) := by simp
    exact hassoc _ _ _ _ _
  have hpsk : AtPsk (some ' ') ("psk \"".toList ++ (pskEsc psk ++ ['"'])) = true := by
    simp [AtPsk]
  rw [htext, maskPsk, maskFrom_append hhead, List.getLast?_concat]
  refine congrArg _ ?_
  exact maskFrom_value hpsk

/-- **The commands for two passphrases are masked to the same text** exactly when the passphrases
have no quote, or are alike behind their first ones. -/
theorem maskPsk_setPsk_iff (id : ℤ) (psk psk' : Text) :
    maskPsk (WpaCommand.setPsk id (pskEsc psk)).text =
      maskPsk (WpaCommand.setPsk id (pskEsc psk')).text ↔ AlikeBehindQuote psk psk' := by
  rw [maskPsk_setPsk, maskPsk_setPsk, List.append_cancel_left_eq, List.append_cancel_left_eq,
    drop_pskEsc, drop_pskEsc, AlikeBehindQuote]
  cases Text.afterFirst ['"'] psk with
  | none =>
    cases Text.afterFirst ['"'] psk' with
    | none => exact iff_of_true rfl trivial
    | some rest' =>
      exact iff_of_false (fun h => maskFrom_concat_ne_nil (h.symm.trans maskFrom_nil)) not_false
  | some rest =>
    cases Text.afterFirst ['"'] psk' with
    | none => exact iff_of_false (fun h => maskFrom_concat_ne_nil (h.trans maskFrom_nil)) not_false
    | some rest' => exact maskFrom_eq_iff

/-- Passphrases without quotes are not told apart. -/
theorem alikeBehindQuote_of_not_mem {psk psk' : Text} (h : '"' ∉ psk) (h' : '"' ∉ psk') :
    AlikeBehindQuote psk psk' := by
  rw [AlikeBehindQuote, Text.afterFirst_eq_none_iff.mpr (Text.singleton_infix_iff.not.mpr h),
    Text.afterFirst_eq_none_iff.mpr (Text.singleton_infix_iff.not.mpr h')]
  trivial

/-- What stands behind a quote is shown. -/
theorem not_maskPsk_setPsk : ¬ ∀ (id : ℤ) (psk psk' : Text),
    maskPsk (WpaCommand.setPsk id (pskEsc psk)).text =
      maskPsk (WpaCommand.setPsk id (pskEsc psk')).text := by
  intro h
  have hsame := h 0 "abc\"secret".toList "abcdefgh".toList
  rw [maskPsk_setPsk, maskPsk_setPsk, List.append_cancel_left_eq, List.append_cancel_left_eq,
    drop_pskEsc, drop_pskEsc] at hsame
  have hquote : Text.afterFirst ['"'] "abc\"secret".toList = some "secret".toList := by decide
  have hnone : Text.afterFirst ['"'] "abcdefgh".toList = none := by decide
  rw [hquote, hnone] at hsame
  exact maskFrom_concat_ne_nil (hsame.trans maskFrom_nil)

end Llamaste
