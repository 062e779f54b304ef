import Llamaste.Lib.CInt
import Llamaste.Lib.Text

/-!
# Password hashes

The bcrypt hash string: a version, a work factor, a salt and a digest, the last two in
bcrypt's own base 64. The expensive key schedule, from a key, a salt and a work factor to
24 bytes, is a parameter. Source: `bcrypt.cpp`.

## Main results

* `base64Decode_encode`: a salt survives its encoding.
* `bcryptCheck_hash`: a password verifies against its own hash.
-/

namespace Llamaste

/-! ### Base 64 -/

/-- `BF_BASE64`. -/
def base64Alphabet : Text := "./ABCDEFGHIJKLMNOPQRSTUVWXYZabcdefghijklmnopqrstuvwxyz0123456789"

/-- The character of a number below 64. -/
def base64Digit (n : ℕ) : Char := base64Alphabet.getD n '.'

/-- `BF_BASE64_DECODE`, with `none` for its 255. -/
def base64Value (c : Char) : Option ℕ := base64Alphabet.idxOf? c

/-- `bf_base64_encode`: three bytes become four characters. -/
def base64Encode : Bytes → Text
  | [] => []
  | [b0] => [base64Digit (b0.toNat / 4), base64Digit (b0.toNat % 4 * 16)]
  | [b0, b1] =>
      [base64Digit (b0.toNat / 4), base64Digit (b0.toNat % 4 * 16 + b1.toNat / 16),
        base64Digit (b1.toNat % 16 * 4)]
  | b0 :: b1 :: b2 :: bs =>
      base64Digit (b0.toNat / 4) :: base64Digit (b0.toNat % 4 * 16 + b1.toNat / 16) ::
        base64Digit (b1.toNat % 16 * 4 + b2.toNat / 64) :: base64Digit (b2.toNat % 64) ::
        base64Encode bs

/-- `bf_base64_decode`: at most `maxOut` bytes, up to the first character outside the
alphabet. -/
def base64Decode : (maxOut : ℕ) → Text → Bytes
  | n + 1, c0 :: c1 :: r =>
      match base64Value c0, base64Value c1 with
      | some d0, some d1 =>
          UInt8.ofNat (d0 * 4 + d1 / 16) ::
            match n, r with
            | n + 1, c2 :: r =>
                match base64Value c2 with
                | some d2 =>
                    UInt8.ofNat (d1 % 16 * 16 + d2 / 4) ::
                      match n, r with
                      | n + 1, c3 :: r =>
                          match base64Value c3 with
                          | some d3 => UInt8.ofNat (d2 % 4 * 64 + d3) :: base64Decode n r
                          | none => []
                      | _, _ => []
                | none => []
            | _, _ => []
      | _, _ => []
  | _, _ => []

theorem base64Value_digit : ∀ n < 64, base64Value (base64Digit n) = some n := by
  decide

theorem ofNat_eq_of_toNat {n : ℕ} {b : UInt8} (h : n = b.toNat) : UInt8.ofNat n = b := by
  rw [h, UInt8.ofNat_toNat]

/-- Bytes survive their encoding, whatever follows it. -/
theorem base64Decode_encode (bs : Bytes) (r : Text) :
    base64Decode bs.length (base64Encode bs ++ r) = bs := by
  have hdigit : ∀ {n : ℕ}, n < 64 → base64Value (base64Digit n) = some n := fun {n} h =>
    base64Value_digit n h
  induction bs using base64Encode.induct with
  | case1 => rfl
  | case2 b0 =>
      have h0 := b0.toNat_lt
      have hbyte : UInt8.ofNat (b0.toNat / 4 * 4 + b0.toNat % 4 * 16 / 16) = b0 :=
        ofNat_eq_of_toNat (by omega)
      simp only [List.length_singleton, base64Encode, List.cons_append, List.nil_append,
        base64Decode, hdigit (show b0.toNat / 4 < 64 by omega),
        hdigit (show b0.toNat % 4 * 16 < 64 by omega), hbyte]
  | case3 b0 b1 =>
      have h0 := b0.toNat_lt
      have h1 := b1.toNat_lt
      have hbyte0 : UInt8.ofNat (b0.toNat / 4 * 4 + (b0.toNat % 4 * 16 + b1.toNat / 16) / 16) =
          b0 := ofNat_eq_of_toNat (by omega)
      have hbyte1 : UInt8.ofNat ((b0.toNat % 4 * 16 + b1.toNat / 16) % 16 * 16 +
          b1.toNat % 16 * 4 / 4) = b1 := ofNat_eq_of_toNat (by omega)
      simp only [List.length_cons, List.length_nil, Nat.zero_add, base64Encode,
        List.cons_append, List.nil_append, base64Decode,
        hdigit (show b0.toNat / 4 < 64 by omega),
        hdigit (show b0.toNat % 4 * 16 + b1.toNat / 16 < 64 by omega),
        hdigit (show b1.toNat % 16 * 4 < 64 by omega), hbyte0, hbyte1]
  | case4 b0 b1 b2 bs ih =>
      have h0 := b0.toNat_lt
      have h1 := b1.toNat_lt
      have h2 := b2.toNat_lt
      have hbyte0 : UInt8.ofNat (b0.toNat / 4 * 4 + (b0.toNat % 4 * 16 + b1.toNat / 16) / 16) =
          b0 := ofNat_eq_of_toNat (by omega)
      have hbyte1 : UInt8.ofNat ((b0.toNat % 4 * 16 + b1.toNat / 16) % 16 * 16 +
          (b1.toNat % 16 * 4 + b2.toNat / 64) / 4) = b1 := ofNat_eq_of_toNat (by omega)
      have hbyte2 : UInt8.ofNat ((b1.toNat % 16 * 4 + b2.toNat / 64) % 4 * 64 +
          b2.toNat % 64) = b2 := ofNat_eq_of_toNat (by omega)
      simp only [List.length_cons, base64Encode, List.cons_append, base64Decode,
        hdigit (show b0.toNat / 4 < 64 by omega),
        hdigit (show b0.toNat % 4 * 16 + b1.toNat / 16 < 64 by omega),
        hdigit (show b1.toNat % 16 * 4 + b2.toNat / 64 < 64 by omega),
        hdigit (show b2.toNat % 64 < 64 by omega), hbyte0, hbyte1, hbyte2, ih]

/-- Encoded bytes are printable ASCII. -/
theorem isPlain_base64Encode (bs : Bytes) :
    ∀ c ∈ base64Encode bs, 0x20 ≤ c.toNat ∧ c.toNat < 0x80 := by
  have halphabet : ∀ c ∈ base64Alphabet, 0x20 ≤ c.toNat ∧ c.toNat < 0x80 :=
    Text.forall_of_all (by decide +kernel)
  have hdigit : ∀ n, 0x20 ≤ (base64Digit n).toNat ∧ (base64Digit n).toNat < 0x80 := by
    intro n
    rw [base64Digit, List.getD_eq_getElem?_getD]
    cases hc : base64Alphabet[n]? with
    | none => decide
    | some c => exact halphabet c (List.mem_of_getElem? hc)
  induction bs using base64Encode.induct with
  | case1 => exact fun _ h => nomatch h
  | case2 b0 => simp [base64Encode, hdigit]
  | case3 b0 b1 => simp [base64Encode, hdigit]
  | case4 b0 b1 b2 bs ih => simpa [base64Encode, hdigit] using ih

/-! ### Hashing and checking -/

/-- The key schedule: the digest of a key under a salt and a work factor. -/
abbrev KeySchedule := (key : Text) → (salt : Vector UInt8 16) → (workFactor : ℕ) → Vector UInt8 24

/-- `key_len`: the size as an `int`, and one, at most 72. -/
def bcryptKeyLen (password : Text) : ℤ := min (CInt.toInt32 password.length + 1) 72

/-- The key of a password: so many of its bytes and a zero. -/
def bcryptKey (password : Text) : Text :=
  (password ++ [Char.ofNat 0]).take (bcryptKeyLen password).toNat

/-- The digest as it stands in a hash string: 23 of its bytes. -/
def bcryptDigest (core : KeySchedule) (password : Text) (salt : Vector UInt8 16)
    (workFactor : ℕ) : Text :=
  base64Encode ((core (bcryptKey password) salt workFactor).toList.take 23)

/-- The work factor between its bounds. -/
def clampWorkFactor (workFactor : ℤ) : ℕ := (min (max workFactor 4) 31).toNat

/-- `bcrypt_hash`, empty for an empty password and without random bytes for a salt. -/
def bcryptHash (core : KeySchedule) (password : Text) (workFactor : ℤ)
    (salt : Option (Vector UInt8 16)) : Text :=
  let workFactor := clampWorkFactor workFactor
  match salt with
  | some salt =>
      if password = [] then []
      else
        "$2b$" ++ [Nat.digitChar (workFactor / 10), Nat.digitChar (workFactor % 10), '$'] ++
          base64Encode salt.toList ++ bcryptDigest core password salt workFactor
  | none => []

/-- The salt bytes read from a hash string. -/
def bcryptSalt (hash : Text) : Vector UInt8 16 :=
  Vector.ofFn fun i => (base64Decode 16 (hash.drop 7)).getD i 0

/-- The work factor in a hash string. -/
def bcryptWorkFactor (hash : Text) : ℤ :=
  ((hash.getD 4 ' ').toNat - '0'.toNat : ℤ) * 10 + ((hash.getD 5 ' ').toNat - '0'.toNat : ℤ)

/-- The checks of a hash string that come before the password is looked at. -/
def bcryptForm (hash : Text) : Bool :=
  59 ≤ hash.length && hash[0]? = some '$' && hash[3]? = some '$' && hash[6]? = some '$' &&
    hash[1]? = some '2' && (hash[2]? = some 'b' || hash[2]? = some 'a' || hash[2]? = some 'y') &&
    4 ≤ bcryptWorkFactor hash && bcryptWorkFactor hash ≤ 31

/-- The digest agrees with the text behind the salt, as far as both go. -/
def sameDigest (digest hash : Text) : Bool :=
  (digest.zip (Text.cStr (hash.drop 29))).all fun (a, b) => a = b

/-- `bcrypt_check`. -/
def bcryptCheck (core : KeySchedule) (password hash : Text) : Bool :=
  bcryptForm hash && password ≠ [] &&
    sameDigest (bcryptDigest core password (bcryptSalt hash) (bcryptWorkFactor hash).toNat) hash

theorem clampWorkFactor_bounds (workFactor : ℤ) :
    4 ≤ clampWorkFactor workFactor ∧ clampWorkFactor workFactor ≤ 31 := by
  rw [clampWorkFactor]
  omega

/-- Three bytes take four characters. -/
theorem length_base64Encode (bs : Bytes) :
    (base64Encode bs).length = (4 * bs.length + 2) / 3 := by
  induction bs using base64Encode.induct with
  | case1 => rfl
  | case2 b0 => simp [base64Encode]
  | case3 b0 b1 => simp [base64Encode]
  | case4 b0 b1 b2 bs ih =>
      simp only [base64Encode, List.length_cons, ih]
      omega

/-- The parts of a hash string. -/
theorem bcryptHash_eq (core : KeySchedule) {password : Text} (hpassword : password ≠ [])
    (workFactor : ℤ) (salt : Vector UInt8 16) :
    bcryptHash core password workFactor (some salt) =
      '$' :: '2' :: 'b' :: '$' :: Nat.digitChar (clampWorkFactor workFactor / 10) ::
        Nat.digitChar (clampWorkFactor workFactor % 10) :: '$' ::
        (base64Encode salt.toList ++
          bcryptDigest core password salt (clampWorkFactor workFactor)) := by
  simp only [bcryptHash, if_neg hpassword, List.append_assoc]
  rfl

theorem length_bcryptDigest (core : KeySchedule) (password : Text) (salt : Vector UInt8 16)
    (workFactor : ℕ) : (bcryptDigest core password salt workFactor).length = 31 := by
  rw [bcryptDigest, length_base64Encode, List.length_take, Vector.length_toList]
  rfl

theorem length_base64Encode_salt (salt : Vector UInt8 16) :
    (base64Encode salt.toList).length = 22 := by
  rw [length_base64Encode, Vector.length_toList]

/-- A hash string has sixty characters. -/
theorem length_bcryptHash (core : KeySchedule) {password : Text} (hpassword : password ≠ [])
    (workFactor : ℤ) (salt : Vector UInt8 16) :
    (bcryptHash core password workFactor (some salt)).length = 60 := by
  rw [bcryptHash_eq core hpassword]
  simp only [List.length_cons, List.length_append, length_base64Encode_salt, length_bcryptDigest]

section

variable (core : KeySchedule) {password : Text} (hpassword : password ≠ []) (workFactor : ℤ)
  (salt : Vector UInt8 16)

include hpassword

/-- The salt is read back from the hash string. -/
theorem base64Decode_bcryptHash :
    base64Decode 16 ((bcryptHash core password workFactor (some salt)).drop 7) = salt.toList := by
  rw [bcryptHash_eq core hpassword]
  have hdecode := base64Decode_encode salt.toList
    (bcryptDigest core password salt (clampWorkFactor workFactor))
  rwa [Vector.length_toList] at hdecode

theorem bcryptSalt_bcryptHash :
    bcryptSalt (bcryptHash core password workFactor (some salt)) = salt := by
  apply Vector.ext
  intro i hi
  simp [bcryptSalt, base64Decode_bcryptHash core hpassword]

/-- So is the work factor. -/
theorem bcryptWorkFactor_bcryptHash :
    bcryptWorkFactor (bcryptHash core password workFactor (some salt)) =
      clampWorkFactor workFactor := by
  have hdigit : ∀ n < 10, (Nat.digitChar n).toNat = n + '0'.toNat := by decide
  obtain ⟨-, hle⟩ := clampWorkFactor_bounds workFactor
  rw [bcryptHash_eq core hpassword]
  generalize clampWorkFactor workFactor = w at hle ⊢
  simp only [bcryptWorkFactor, List.getD_cons_succ, List.getD_cons_zero,
    hdigit (w / 10) (by omega), hdigit (w % 10) (by omega)]
  omega

/-- The digest stands behind the salt. -/
theorem drop_bcryptHash : (bcryptHash core password workFactor (some salt)).drop 29 =
    bcryptDigest core password salt (clampWorkFactor workFactor) := by
  rw [bcryptHash_eq core hpassword]
  exact List.drop_left' (length_base64Encode_salt salt)

theorem bcryptForm_bcryptHash :
    bcryptForm (bcryptHash core password workFactor (some salt)) = true := by
  obtain ⟨hge, hle⟩ := clampWorkFactor_bounds workFactor
  rw [bcryptForm, length_bcryptHash core hpassword, bcryptWorkFactor_bcryptHash core hpassword,
    bcryptHash_eq core hpassword]
  simp
  omega

/-- A password verifies against its own hash. -/
theorem bcryptCheck_hash :
    bcryptCheck core password (bcryptHash core password workFactor (some salt)) = true := by
  have htail : Text.cStr ((bcryptHash core password workFactor (some salt)).drop 29) =
      bcryptDigest core password salt (clampWorkFactor workFactor) := by
    rw [drop_bcryptHash core hpassword, Text.cStr, List.takeWhile_eq_self_iff]
    intro c hc
    have hplain := (isPlain_base64Encode _ c hc).1
    refine decide_eq_true ?_
    rintro rfl
    exact absurd hplain (by decide)
  rw [bcryptCheck, bcryptForm_bcryptHash core hpassword, bcryptSalt_bcryptHash core hpassword,
    bcryptWorkFactor_bcryptHash core hpassword, Int.toNat_natCast, sameDigest, htail]
  simp [hpassword, List.zip_eq_zipWith, List.zipWith_self]

end

/-! ### A sample -/

/-- A salt. -/
def sampleSalt : Vector UInt8 16 := #v[0, 1, 2, 3, 4, 5, 6, 7, 8, 9, 10, 11, 12, 13, 14, 15]

/-- The values of the key schedule at two passwords, under that salt. -/
def sampleKeySchedule : KeySchedule := fun key salt workFactor =>
  if salt = sampleSalt ∧ workFactor = 12 ∧ key = bcryptKey "pass" then
    #v[208, 42, 214, 115, 54, 173, 148, 27, 77, 234, 101, 213, 215, 208, 110, 67, 53, 253, 154,
      65, 27, 58, 82, 238]
  else if salt = sampleSalt ∧ workFactor = 12 ∧ key = bcryptKey "word" then
    #v[189, 78, 98, 181, 54, 130, 22, 200, 244, 255, 3, 1, 107, 114, 73, 99, 31, 236, 65, 122,
      209, 197, 211, 30]
  else Vector.replicate 24 0

end Llamaste
