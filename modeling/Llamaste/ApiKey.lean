import Mathlib
import Llamaste.Auth

/-!
# The API key

A key that is presented is compared with the stored one in a window of 32 bytes, in which a
shorter key is padded with zeros. Source: `auth.cpp`.

## Main results

* `verifyApiKey_iff`: two keys are told apart when they differ within the window.
* `apiKeyExact_iff`: so the check is equality unless other bytes make the difference.
-/

namespace Llamaste

/-! ### Padded texts -/

section Padded

variable {z : Char} {s t : Text}

/-- Bytes of padding at the end make no difference to what is read. -/
theorem getD_rdropWhile (s : Text) (i : ℕ) :
    (s.rdropWhile (· = z)).getD i z = s.getD i z := by
  induction s using List.reverseRecOn with
  | nil => rfl
  | append_singleton s c ih =>
    by_cases hc : c = z
    · rw [List.rdropWhile_concat_pos (· = z) s c (decide_eq_true hc), ih, hc]
      rcases Nat.lt_or_ge i s.length with hi | hi
      · rw [List.getD_append _ _ _ _ hi]
      · rw [List.getD_append_right _ _ _ _ hi, List.getD_eq_default _ _ hi]
        cases i - s.length <;> rfl
    · rw [List.rdropWhile_concat_neg (· = z) s c (by simpa using hc)]

/-- Texts without padding at their ends are not told from shorter ones by padding. -/
theorem length_le_of_getD (hlast : ∀ c ∈ t.getLast?, c ≠ z) (h : ∀ i, s.getD i z = t.getD i z) :
    t.length ≤ s.length := by
  by_contra hlt
  rw [Nat.not_le] at hlt
  have hne : t ≠ [] := List.ne_nil_of_length_pos (by omega)
  refine hlast _ (List.getLast?_eq_some_getLast hne) ?_
  have hend := h (t.length - 1)
  rw [List.getD_eq_default _ _ (by omega), List.getD_eq_getElem _ _ (by omega)] at hend
  rw [List.getLast_eq_getElem, hend]

theorem eq_of_getD (hs : ∀ c ∈ s.getLast?, c ≠ z) (ht : ∀ c ∈ t.getLast?, c ≠ z)
    (h : ∀ i, s.getD i z = t.getD i z) : s = t := by
  have hlen : s.length = t.length :=
    Nat.le_antisymm (length_le_of_getD hs fun i => (h i).symm) (length_le_of_getD ht h)
  refine List.ext_getElem hlen fun i hi hi' => ?_
  rw [← List.getD_eq_getElem s z hi, ← List.getD_eq_getElem t z hi', h]

end Padded

/-! ### The window -/

/-- What of a key counts: the bytes of the window, without zeros at their end. -/
def keyWindow (key : Text) : Text := (key.take 32).rdropWhile (· = Char.ofNat 0)

/-- The bytes of the window are those of the padded key. -/
theorem keyWindow_eq_iff {key stored : Text} : keyWindow key = keyWindow stored ↔
    ∀ i < 32, key.getD i (Char.ofNat 0) = stored.getD i (Char.ofNat 0) := by
  have hread : ∀ (key : Text) (i : ℕ), i < 32 →
      (keyWindow key).getD i (Char.ofNat 0) = key.getD i (Char.ofNat 0) := by
    intro key i hi
    rw [keyWindow, getD_rdropWhile, List.getD_eq_getElem?_getD, List.getD_eq_getElem?_getD,
      List.getElem?_take_of_lt hi]
  have hbehind : ∀ (key : Text) (i : ℕ), 32 ≤ i → (keyWindow key).getD i (Char.ofNat 0) =
      Char.ofNat 0 := by
    intro key i hi
    rw [keyWindow, getD_rdropWhile]
    exact List.getD_eq_default _ _ (by rw [List.length_take]; omega)
  constructor
  · intro h i hi
    rw [← hread key i hi, ← hread stored i hi, h]
  · intro h
    refine eq_of_getD (fun c hc => of_decide_eq_false (Text.getLast?_rdropWhile hc))
      (fun c hc => of_decide_eq_false (Text.getLast?_rdropWhile hc)) fun i => ?_
    rcases Nat.lt_or_ge i 32 with hi | hi
    · exact (hread key i hi).trans ((h i hi).trans (hread stored i hi).symm)
    · exact (hbehind key i hi).trans (hbehind stored i hi).symm

/-- **The check of a key** is that of the window. -/
theorem verifyApiKey_iff {c : AuthConfig} {key : Text} : verifyApiKey c key = true ↔
    key ≠ [] ∧ c.apiKey ≠ [] ∧ keyWindow key = keyWindow c.apiKey := by
  rw [verifyApiKey, keyWindow_eq_iff]
  simp [and_assoc]

/-- The check is equality with the key that was loaded. -/
def ApiKeyExact (disk : Option Text) (key : Text) : Prop :=
  verifyApiKey (loadConfig disk) key = true ↔
    (loadConfig disk).apiKey ≠ [] ∧ key = (loadConfig disk).apiKey

/-- **The check of a key is equality** exactly when the keys are equal, one of them is empty, or
they differ in the window. -/
theorem apiKeyExact_iff (disk : Option Text) (key : Text) : ApiKeyExact disk key ↔
    key = [] ∨ (loadConfig disk).apiKey = [] ∨ key = (loadConfig disk).apiKey ∨
      keyWindow key ≠ keyWindow (loadConfig disk).apiKey := by
  rw [ApiKeyExact, verifyApiKey_iff]
  generalize (loadConfig disk).apiKey = stored
  constructor
  · intro h
    by_contra hnot
    push Not at hnot
    obtain ⟨hkey, hstored, hne, hwindow⟩ := hnot
    exact hne (h.mp ⟨hkey, hstored, hwindow⟩).2
  · rintro (rfl | rfl | rfl | hne)
    · exact iff_of_false (fun h => h.1 rfl) fun h => h.1 h.2.symm
    · exact iff_of_false (fun h => h.2.1 rfl) fun h => h.1 rfl
    · exact ⟨fun h => ⟨h.1, rfl⟩, fun h => ⟨h.1, h.1, rfl⟩⟩
    · exact iff_of_false (fun h => hne h.2.2) fun h => hne (congrArg keyWindow h.2)

/-- A configuration with a key that is longer than the window. -/
def longKeyConfig : AuthConfig := { apiKey := List.replicate 40 'k' }

theorem not_apiKeyExact :
    ¬ ApiKeyExact (some longKeyConfig.text) (List.replicate 32 'k') := by
  have hload : loadConfig (some longKeyConfig.text) = longKeyConfig :=
    loadConfig_text ⟨rfl, by decide +kernel, by decide, by decide⟩
  rw [ApiKeyExact, hload]
  decide +kernel

end Llamaste
