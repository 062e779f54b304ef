import Llamaste.TweetHash
import Llamaste.TweetScalar

/-!
# The update signatures

A signature of a message is a point `R` and a scalar `S`. The signer derives `R` from a
nonce that it hashes from its key and the message, and the verifier computes the point that
`R` has to be from `S`, the public key, and a hash of all three.

Source: `tweetnacl.c`, `crypto_sign`, `crypto_sign_open`, and the detached helpers.

## Main results

* `cryptoSign_spec`: what a signature consists of.
* `cryptoSignOpen_spec`: which signatures are accepted.
* `cryptoSignOpen_sign`: what a key pair signs is accepted, and gives the message.
* `cryptoSignOpen_congr`: a signature that is accepted is not the only one.
* `verifyDetached_spec`, `verifyDetached_sign`: the same for detached signatures.
* `verifyDetached_zero_key`: anybody can sign for the key of zeros.
-/

namespace Llamaste

namespace TweetNacl

open CInt Limbs LittleEndian Sha2

/-! ### The code -/

/-- `d[0] &= 248; d[31] &= 127; d[31] |= 64`. -/
def clamp (d : Bytes) : Bytes :=
  let d := d.set 0 (byteAt d 0 &&& 248)
  let d := d.set 31 (byteAt d 31 &&& 127)
  d.set 31 (byteAt d 31 ||| 64)

/-- `x[i+j] += h[i] * (u64) d[j]`: the sum is unsigned, and wraps around. -/
def productStep (h d : Bytes) (i j : ℕ) (x : List ℤ) : Option (List ℤ) :=
  some (x.set (i + j) (toInt64 (get x (i + j) + (byteAt h i).toNat * (byteAt d j).toNat)))

/-- The limbs of `r + h * d`. -/
def scalarSum (r h d : Bytes) : Option (List ℤ) :=
  let x := (List.range 64).map fun i => if i < 32 then ((byteAt r i).toNat : ℤ) else 0
  Loop.up 32 (fun i x => Loop.up 32 (productStep h d i) x) x

/-- `crypto_sign`: the contents of `sm`. -/
def cryptoSign (m sk : Bytes) : Option Bytes := do
  let d := clamp (cryptoHash (sk.take 32))
  let r ← reduce (cryptoHash ((d.drop 32).take 32 ++ m))
  let p ← scalarbase r
  let sm ← pack p
  let h ← reduce (cryptoHash (sm ++ (sk.drop 32).take 32 ++ m))
  let x ← scalarSum r h d
  let s ← modL x
  some (sm ++ s ++ m)

/-- `crypto_sign_open`: `some none` where the code returns -1, and the message otherwise. -/
def cryptoSignOpen (sm pk : Bytes) : Option (Option Bytes) :=
  if sm.length < 64 then some none
  else do
    let q ← unpackneg pk
    match q with
    | none => some none
    | some q => do
      let h ← reduce (cryptoHash (sm.take 32 ++ pk.take 32 ++ sm.drop 64))
      let pq ← scalarmult q h
      let q ← scalarbase (sm.drop 32)
      let p ← add pq.1 q
      let t ← pack p
      if cryptoVerify32 sm t ≠ 0 then some none else some (some (sm.drop 64))

/-- `crypto_sign_ed25519_sign_detached`, with what `malloc` answers: `none` inside where it
returns -1, and the 64 bytes of `sig` otherwise. -/
def cryptoSignEd25519SignDetached (malloc : Bool) (msg sk : Bytes) : Option (Option Bytes) :=
  if malloc = false then some none
  else do
    let sm ← cryptoSign msg sk
    some (some (sm.take 64))

/-- `crypto_sign_ed25519_verify_detached`, with what the two calls of `malloc` answer, which
are made for long messages only. -/
def cryptoSignEd25519VerifyDetached (malloc : Bool × Bool) (sig msg pk : Bytes) : Option ℤ :=
  if 2048 < msg.length + 64 ∧ (malloc.1 && malloc.2) = false then some (-1)
  else do
    let m ← cryptoSignOpen (sig.take 64 ++ msg) pk
    some (if m.isSome then 0 else -1)

/-! ### The scalar of a signature -/

theorem length_digest512 (m : Bytes) : (digest sha512 m).length = 64 := by
  rw [digest, List.length_flatMap]
  simp only [BigEndian.length_bytes]
  rfl

/-- The number of a hash, reduced. -/
def hashNumber (m : Bytes) : ℕ := number (digest sha512 m) % order

theorem order_lt : order < 256 ^ 32 := by decide

theorem order_pos : 0 < order := by decide

/-- The code reduces a hash to its number. -/
theorem reduce_cryptoHash {m : Bytes} (hm : m.length < 2 ^ 64) :
    ∃ r, reduce (cryptoHash m) = some r ∧ r.length = 64 ∧ number (r.take 32) = hashNumber m := by
  refine ⟨_, reduce_spec (by rw [cryptoHash_spec hm, length_digest512]), ?_, ?_⟩
  · rw [List.length_append, length_bytes, List.length_replicate]
  · rw [List.take_left' (length_bytes _ _), number_bytes, cryptoHash_spec hm, hashNumber]
    exact Nat.mod_eq_of_lt ((Nat.mod_lt _ order_pos).trans order_lt)

theorem byteAt_take (bs : Bytes) {n k : ℕ} (hk : k < n) : byteAt (bs.take n) k = byteAt bs k := by
  rw [byteAt, byteAt, List.getD_eq_getElem?_getD, List.getElem?_take_of_lt hk,
    ← List.getD_eq_getElem?_getD]

/-- The number of the first bytes as a sum. -/
theorem number_take_succ (bs : Bytes) (k : ℕ) :
    (number (bs.take (k + 1)) : ℤ) =
      number (bs.take k) + (byteAt bs k).toNat * 2 ^ (8 * k) := by
  have h := value_take_succ (w := 8) (bs.map fun b => (b.toNat : ℤ)) k
  rwa [← List.map_take, ← List.map_take, value_bytes, value_bytes, get_bytes] at h

/-- The state of the sum before the product of byte `i` of `h` and byte `j` of `d`. -/
structure Summing (r h d : Bytes) (i j : ℕ) (x : List ℤ) : Prop where
  length : x.length = 64
  total : value 8 x = number (r.take 32) + number (h.take i) * number (d.take 32) +
    (byteAt h i).toNat * 2 ^ (8 * i) * number (d.take j)
  limb : ∀ k, 0 ≤ get x k ∧ get x k ≤ 255 + (if i ≤ k ∧ k < i + j then i + 1 else i) * 65025

theorem Summing.step {r h d : Bytes} {i j : ℕ} {x : List ℤ} (hi : i < 32) (hj : j < 32)
    (hs : Summing r h d i j x) :
    ∃ x', productStep h d i j x = some x' ∧ Summing r h d i (j + 1) x' := by
  have hlen := hs.length
  have hcell := hs.limb (i + j)
  rw [if_neg (by omega)] at hcell
  set p : ℤ := (byteAt h i).toNat * (byteAt d j).toNat with hp
  have hple : 0 ≤ p ∧ p ≤ 65025 := by
    have hb : ∀ b : UInt8, (b.toNat : ℤ) ≤ 255 := fun b => by
      have := b.toNat_lt
      omega
    exact ⟨by positivity, (mul_le_mul (hb _) (hb _) (by positivity) (by decide)).trans
      (by norm_num)⟩
  have hfit : toInt64 (get x (i + j) + p) = get x (i + j) + p :=
    toInt64_of_fits (by unfold FitsInt64; omega)
  refine ⟨x.set (i + j) (get x (i + j) + p), by rw [productStep, ← hp, hfit],
    by rw [List.length_set, hlen], ?_, fun k => ?_⟩
  · rw [value_set (by omega), hs.total, number_take_succ d j, Nat.mul_add, pow_add]
    linear_combination 2 ^ (8 * i) * 2 ^ (8 * j) * hp
  · rw [get_set (by omega)]
    have hk := hs.limb k
    by_cases hkj : k = i + j
    · rw [if_pos hkj, if_pos (by omega)]
      omega
    · rw [if_neg hkj]
      refine ⟨hk.1, hk.2.trans ?_⟩
      split_ifs <;> omega

/-- **The sum of the scalars** does not overflow. -/
theorem scalarSum_spec {r h d : Bytes} (hr : 32 ≤ r.length) :
    ∃ x, scalarSum r h d = some x ∧ x.length = 64 ∧
      value 8 x = number (r.take 32) + number (h.take 32) * number (d.take 32) ∧
      ∀ k, |get x k| ≤ 2 ^ 22 := by
  set x₀ := (List.range 64).map fun i => if i < 32 then ((byteAt r i).toNat : ℤ) else 0 with hx₀
  have hget : ∀ k, get x₀ k = if k < 32 then ((byteAt r k).toNat : ℤ) else 0 := fun k => by
    by_cases hk : k < 64
    · exact get_map_range hk
    · rw [Limbs.get, List.getD_eq_default _ _ (by simp [hx₀]; omega), if_neg (by omega)]
  have hvalue : value 8 x₀ = number (r.take 32) := by
    rw [← value_take_of_zero fun k (hk : 32 ≤ k) => (hget k).trans (if_neg (by omega)),
      ← value_bytes]
    refine congrArg (value 8) (List.ext_getElem ?_ fun k hk hk' => ?_)
    · simp only [hx₀, List.length_take, List.length_map, List.length_range]
      omega
    · have hk32 : k < 32 := by
        rw [List.length_take] at hk
        omega
      rw [List.getElem_take, List.getElem_map, List.getElem_map, List.getElem_range,
        List.getElem_take, if_pos hk32, byteAt, List.getD_eq_getElem r 0 (by omega)]
  have hstart : Summing r h d 0 0 x₀ := by
    refine ⟨by simp [hx₀], by simp [hvalue, number], fun k => ?_⟩
    have hb := (byteAt r k).toNat_lt
    rw [hget]
    split_ifs <;> omega
  obtain ⟨x, hx, hsum⟩ := Loop.up_spec (P := fun i x => Summing r h d i 0 x) hstart
    fun i x hi hs => by
      obtain ⟨x', hx', hrow⟩ := Loop.up_spec (P := fun j x => Summing r h d i j x) hs
        fun j x hj hs => hs.step hi hj
      refine ⟨x', hx', hrow.length, ?_, fun k => ?_⟩
      · rw [hrow.total, number_take_succ h i, List.take_zero]
        simp only [number]
        push_cast
        ring
      · have hk := hrow.limb k
        refine ⟨hk.1, hk.2.trans ?_⟩
        push_cast
        split_ifs <;> omega
  refine ⟨x, hx, hsum.length, by rw [hsum.total, List.take_zero]; simp [number], fun k => ?_⟩
  have hk := hsum.limb k
  rw [if_neg (by omega)] at hk
  rw [abs_le]
  omega

/-! ### Signing -/

/-- The scalar of a secret key. -/
def secretScalar (sk : Bytes) : ℕ := number ((clamp (digest sha512 (sk.take 32))).take 32)

/-- The nonce of a message. -/
def nonce (sk m : Bytes) : ℕ :=
  hashNumber (((clamp (digest sha512 (sk.take 32))).drop 32).take 32 ++ m)

/-- The challenge of a signature. -/
def challenge (R pk m : Bytes) : ℕ := hashNumber (R ++ pk ++ m)

/-- **Signing.** The signature is the encoded multiple of the base point by the nonce, and
the sum of the nonce and the secret scalar times the challenge. -/
theorem cryptoSign_spec {m sk : Bytes} (hsk : sk.length = 64) (hm : m.length + 64 < 2 ^ 64) :
    cryptoSign m sk = some (encode (nonce sk m • B) ++
      bytes 32 ((nonce sk m + challenge (encode (nonce sk m • B)) (sk.drop 32) m *
        secretScalar sk) % order) ++ m) := by
  have hkey : cryptoHash (sk.take 32) = digest sha512 (sk.take 32) :=
    cryptoHash_spec (by rw [List.length_take]; omega)
  set d := clamp (digest sha512 (sk.take 32)) with hd
  obtain ⟨r, hr, hrlen, hrnum⟩ := reduce_cryptoHash (m := (d.drop 32).take 32 ++ m) (by
    rw [List.length_append, List.length_take]
    omega)
  obtain ⟨p, hp, hdp⟩ := scalarbase_spec r
  rw [hrnum] at hdp
  have hpack := pack_spec hdp
  have hpklen : (sk.drop 32).take 32 = sk.drop 32 :=
    List.take_of_length_le (by rw [List.length_drop, hsk])
  have henc : ∀ P, (encode P).length = 32 := fun P => length_bytes _ _
  obtain ⟨h, hh, hhlen, hhnum⟩ := reduce_cryptoHash
    (m := encode (nonce sk m • B) ++ (sk.drop 32).take 32 ++ m) (by
      rw [List.length_append, List.length_append, henc, List.length_take]
      omega)
  obtain ⟨x, hx, hxlen, hxvalue, hxbound⟩ := scalarSum_spec (h := h) (d := d) (by omega : 32 ≤ r.length)
  have hmod := modL_spec hxlen hxbound
  have hvalue : (value 8 x % order).toNat =
      (nonce sk m + challenge (encode (nonce sk m • B)) (sk.drop 32) m * secretScalar sk) %
        order := by
    rw [hxvalue, hrnum, hhnum, hpklen]
    exact_mod_cast congrArg Int.toNat (Int.natCast_mod _ order).symm
  rw [hvalue] at hmod
  rw [cryptoSign, hkey]
  exact Loop.bind_of hr (Loop.bind_of hp (Loop.bind_of hpack (Loop.bind_of hh
    (Loop.bind_of hx (Loop.bind_of hmod rfl)))))

/-! ### Verifying -/

/-- What the verifier asks of a signature: the bytes of the public key decode to a point, and
the bytes of `R` are the encoding of a certain sum. The scalar may have any value. -/
def Accepts (R : Bytes) (s : ℕ) (pk m : Bytes) : Prop :=
  ∃ A, Decodes pk A ∧ encode (s • B - challenge R pk m • A) = R

/-- **Verifying.** The code accepts exactly these signatures, and computes without overflow. -/
theorem cryptoSignOpen_spec {sm pk : Bytes} (hpk : pk.length = 32) (hsm : 64 ≤ sm.length)
    (hlen : sm.length < 2 ^ 64) :
    (cryptoSignOpen sm pk = some (some (sm.drop 64)) ∧
        Accepts (sm.take 32) (number ((sm.drop 32).take 32)) pk (sm.drop 64)) ∨
      (cryptoSignOpen sm pk = some none ∧
        ¬ Accepts (sm.take 32) (number ((sm.drop 32).take 32)) pk (sm.drop 64)) := by
  have hge : ¬ sm.length < 64 := by omega
  rcases unpackneg_spec hpk with ⟨q, A, hq, hA, hdq⟩ | ⟨hq, hnone⟩
  · have htake : pk.take 32 = pk := List.take_of_length_le hpk.le
    obtain ⟨h, hh, -, hhnum⟩ := reduce_cryptoHash
      (m := sm.take 32 ++ pk.take 32 ++ sm.drop 64) (by
        simp only [List.length_append, List.length_take, List.length_drop]
        omega)
    rw [htake] at hhnum
    obtain ⟨p₁, q₁, hp₁, hdp₁⟩ := scalarmult_spec hdq h
    obtain ⟨q₂, hq₂, hdq₂⟩ := scalarbase_spec (sm.drop 32)
    obtain ⟨p, hp, hdp⟩ := add_spec hdp₁ hdq₂
    have hpoint : number (h.take 32) • -A + number ((sm.drop 32).take 32) • B =
        number ((sm.drop 32).take 32) • B - challenge (sm.take 32) pk (sm.drop 64) • A := by
      rw [hhnum, smul_neg, neg_add_eq_sub]
      rfl
    rw [hpoint] at hdp
    set P := number ((sm.drop 32).take 32) • B - challenge (sm.take 32) pk (sm.drop 64) • A
    have hrun : cryptoSignOpen sm pk =
        if cryptoVerify32 sm (encode P) ≠ 0 then some none else some (some (sm.drop 64)) := by
      rw [cryptoSignOpen, if_neg hge]
      exact Loop.bind_of hq (Loop.bind_of hh (Loop.bind_of hp₁ (Loop.bind_of hq₂
        (Loop.bind_of hp (Loop.bind_of (pack_spec hdp) rfl)))))
    have hcompare : cryptoVerify32 sm (encode P) = 0 ↔ encode P = sm.take 32 := by
      have hsame : cryptoVerify32 sm (encode P) = cryptoVerify32 (sm.take 32) (encode P) := by
        rw [cryptoVerify32, cryptoVerify32, vn_eq, vn_eq]
        refine if_congr (forall₂_congr fun i hi => ?_) rfl rfl
        rw [byteAt_take sm hi]
      rw [hsame, cryptoVerify32_iff (by rw [List.length_take]; omega)
        (show (encode P).length = 32 from length_bytes _ _), eq_comm]
    rw [hrun]
    by_cases heq : encode P = sm.take 32
    · left
      rw [if_neg (not_not.mpr (hcompare.mpr heq))]
      exact ⟨rfl, A, hA, heq⟩
    · right
      rw [if_pos fun h0 => heq (hcompare.mp h0)]
      refine ⟨rfl, ?_⟩
      rintro ⟨A', hA', h'⟩
      obtain rfl := hA'.unique hA
      exact heq h'
  · right
    constructor
    · rw [cryptoSignOpen, if_neg hge]
      exact Loop.bind_of hq rfl
    · rintro ⟨A, hA, -⟩
      exact hnone A hA

/-! ### Round trip -/

/-- A secret key whose second half is the public key of the first. -/
structure KeyPair (sk : Bytes) : Prop where
  length : sk.length = 64
  public_eq : sk.drop 32 = encode (secretScalar sk • B)

/-- Every seed is the first half of a key pair. -/
theorem keyPair_of_seed {seed : Bytes} (hseed : seed.length = 32) :
    KeyPair (seed ++ encode (secretScalar seed • B)) := by
  have hscalar : secretScalar (seed ++ encode (secretScalar seed • B)) = secretScalar seed := by
    rw [secretScalar, secretScalar, List.take_left' hseed, List.take_of_length_le hseed.le]
  constructor
  · rw [List.length_append, hseed, encode, length_bytes]
  · rw [hscalar, List.drop_left' hseed]

theorem mod_order_smul_B (n : ℕ) : (n % order) • B = n • B := by
  conv_rhs => rw [← Nat.div_add_mod n order]
  rw [add_nsmul, mul_comm, mul_nsmul', order_smul_B, nsmul_zero, zero_add]

/-- The signatures of a key pair are accepted. -/
theorem accepts_sign {sk : Bytes} (hsk : KeyPair sk) (m : Bytes) :
    let R := encode (nonce sk m • B)
    Accepts R ((nonce sk m + challenge R (sk.drop 32) m * secretScalar sk) % order)
      (sk.drop 32) m := by
  intro R
  refine ⟨secretScalar sk • B, hsk.public_eq ▸ decodes_encode _, ?_⟩
  rw [mod_order_smul_B, add_nsmul, mul_comm, mul_nsmul, add_sub_cancel_right]

/-! ### Signed messages -/

/-- The parts of a signed message. -/
theorem cryptoSignOpen_append {R s m pk : Bytes} (hR : R.length = 32) (hs : s.length = 32)
    (hpk : pk.length = 32) (hlen : m.length + 64 < 2 ^ 64) :
    (cryptoSignOpen (R ++ s ++ m) pk = some (some m) ∧ Accepts R (number s) pk m) ∨
      (cryptoSignOpen (R ++ s ++ m) pk = some none ∧ ¬ Accepts R (number s) pk m) := by
  have htake : (R ++ s ++ m).take 32 = R := by rw [List.append_assoc, List.take_left' hR]
  have hmiddle : ((R ++ s ++ m).drop 32).take 32 = s := by
    rw [List.append_assoc, List.drop_left' hR, List.take_left' hs]
  have hdrop : (R ++ s ++ m).drop 64 = m :=
    List.drop_left' (by rw [List.length_append, hR, hs])
  have hsm : (R ++ s ++ m).length = m.length + 64 := by
    simp only [List.length_append, hR, hs]
    omega
  have hspec := @cryptoSignOpen_spec (R ++ s ++ m) pk hpk (by omega) (by omega)
  rwa [htake, hmiddle, hdrop] at hspec

/-- **What a key pair signs is accepted**, and gives the message again. -/
theorem cryptoSignOpen_sign {m sk : Bytes} (hsk : KeyPair sk) (hm : m.length + 64 < 2 ^ 64) :
    (cryptoSign m sk).bind (fun sm => cryptoSignOpen sm (sk.drop 32)) = some (some m) := by
  rw [cryptoSign_spec hsk.length hm, Option.bind_some]
  set R := encode (nonce sk m • B) with hR
  set s := (nonce sk m + challenge R (sk.drop 32) m * secretScalar sk) % order with hs
  have hpk : (sk.drop 32).length = 32 := by rw [List.length_drop, hsk.length]
  have hnum : number (bytes 32 s) = s := by
    rw [number_bytes, Nat.mod_eq_of_lt ((Nat.mod_lt _ order_pos).trans order_lt)]
  have hspec := cryptoSignOpen_append (m := m) (length_bytes 32 _ : R.length = 32)
    (length_bytes 32 s) hpk hm
  rw [hnum] at hspec
  rcases hspec with ⟨h, -⟩ | ⟨-, h⟩
  · exact h
  · exact absurd (accepts_sign hsk m) h

theorem cryptoSignOpen_sign_zeros :
    let sk := List.replicate 32 0 ++ encode (secretScalar (List.replicate 32 0) • B)
    (cryptoSign [1, 2, 3] sk).bind (fun sm => cryptoSignOpen sm (sk.drop 32)) =
      some (some [1, 2, 3]) :=
  cryptoSignOpen_sign (keyPair_of_seed List.length_replicate) (by decide)

/-- **A signature is not tied to its bytes**: only the remainder of its scalar counts. -/
theorem cryptoSignOpen_congr {R s s' m pk : Bytes} (hR : R.length = 32) (hs : s.length = 32)
    (hs' : s'.length = 32) (hpk : pk.length = 32) (hlen : m.length + 64 < 2 ^ 64)
    (h : number s % order = number s' % order) :
    cryptoSignOpen (R ++ s ++ m) pk = cryptoSignOpen (R ++ s' ++ m) pk := by
  have hsame : Accepts R (number s) pk m ↔ Accepts R (number s') pk m := by
    rw [Accepts, Accepts, ← mod_order_smul_B (number s), h, mod_order_smul_B]
  rcases cryptoSignOpen_append hR hs hpk hlen with ⟨ho, ha⟩ | ⟨ho, ha⟩
  · rcases cryptoSignOpen_append hR hs' hpk hlen with ⟨ho', -⟩ | ⟨-, ha'⟩
    · rw [ho, ho']
    · exact absurd (hsame.mp ha) ha'
  · rcases cryptoSignOpen_append hR hs' hpk hlen with ⟨-, ha'⟩ | ⟨ho', -⟩
    · exact absurd (hsame.mpr ha') ha
    · rw [ho, ho']

theorem cryptoSignOpen_congr_one :
    bytes 32 1 ≠ bytes 32 (1 + order) ∧
      cryptoSignOpen (List.replicate 32 7 ++ bytes 32 1 ++ [5]) (List.replicate 32 9) =
        cryptoSignOpen (List.replicate 32 7 ++ bytes 32 (1 + order) ++ [5])
          (List.replicate 32 9) :=
  ⟨by decide, cryptoSignOpen_congr rfl (length_bytes _ _) (length_bytes _ _) rfl
    (by decide) (by decide)⟩

/-! ### Detached signatures -/

/-- **Verifying a detached signature.** It answers 0 exactly for a signature that is accepted,
and where the memory for a long message is there. -/
theorem verifyDetached_spec {malloc : Bool × Bool} {sig msg pk : Bytes} (hsig : sig.length = 64)
    (hpk : pk.length = 32) (hlen : msg.length + 64 < 2 ^ 64) :
    ∃ r, cryptoSignEd25519VerifyDetached malloc sig msg pk = some r ∧ (r = 0 ∨ r = -1) ∧
      (r = 0 ↔ (msg.length ≤ 1984 ∨ (malloc.1 && malloc.2) = true) ∧
        Accepts (sig.take 32) (number (sig.drop 32)) pk msg) := by
  by_cases hmem : 2048 < msg.length + 64 ∧ (malloc.1 && malloc.2) = false
  · refine ⟨-1, if_pos hmem, Or.inr rfl, ?_⟩
    constructor
    · intro h
      exact absurd h (by decide)
    · rintro ⟨hshort | hok, -⟩
      · omega
      · rw [hok] at hmem
        exact absurd hmem.2 (by decide)
  · have hok : msg.length ≤ 1984 ∨ (malloc.1 && malloc.2) = true := by
      by_contra hno
      rw [not_or, Bool.not_eq_true] at hno
      exact hmem ⟨by omega, hno.2⟩
    have hsplit : sig.take 64 ++ msg = sig.take 32 ++ sig.drop 32 ++ msg := by
      rw [List.take_of_length_le hsig.le, List.take_append_drop]
    have hspec := cryptoSignOpen_append (R := sig.take 32) (s := sig.drop 32)
      (by rw [List.length_take, hsig]; rfl) (by rw [List.length_drop, hsig]) hpk hlen
    rw [← hsplit] at hspec
    rw [cryptoSignEd25519VerifyDetached, if_neg hmem]
    rcases hspec with ⟨hopen, haccepts⟩ | ⟨hopen, hrejects⟩
    · exact ⟨0, Loop.bind_of hopen rfl, Or.inl rfl, fun _ => ⟨hok, haccepts⟩, fun _ => rfl⟩
    · refine ⟨-1, Loop.bind_of hopen rfl, Or.inr rfl, ?_⟩
      constructor
      · intro h
        exact absurd h (by decide)
      · rintro ⟨-, haccepts⟩
        exact absurd haccepts hrejects

/-- **A detached signature of a key pair verifies.** -/
theorem verifyDetached_sign {malloc : Bool × Bool} {msg sk : Bytes} (hsk : KeyPair sk)
    (hlen : msg.length + 64 < 2 ^ 64) (hmem : (malloc.1 && malloc.2) = true) :
    ∃ sig, cryptoSignEd25519SignDetached true msg sk = some (some sig) ∧ sig.length = 64 ∧
      cryptoSignEd25519VerifyDetached malloc sig msg (sk.drop 32) = some 0 := by
  set R := encode (nonce sk msg • B) with hR
  set s := bytes 32 ((nonce sk msg + challenge R (sk.drop 32) msg * secretScalar sk) % order)
    with hs
  have hRlen : R.length = 32 := length_bytes _ _
  have hslen : s.length = 32 := length_bytes _ _
  have hsig : (R ++ s).length = 64 := by rw [List.length_append, hRlen, hslen]
  have hsign : cryptoSignEd25519SignDetached true msg sk = some (some (R ++ s)) := by
    rw [cryptoSignEd25519SignDetached, if_neg (by decide)]
    refine Loop.bind_of (cryptoSign_spec hsk.length hlen) ?_
    rw [List.take_left' hsig]
  refine ⟨R ++ s, hsign, hsig, ?_⟩
  have hpk : (sk.drop 32).length = 32 := by rw [List.length_drop, hsk.length]
  obtain ⟨r, hr, -, hiff⟩ := @verifyDetached_spec malloc _ msg _ hsig hpk hlen
  rw [hr, hiff.mpr]
  refine ⟨Or.inr hmem, ?_⟩
  rw [List.take_left' hRlen, List.drop_left' hRlen, hs, number_bytes,
    Nat.mod_eq_of_lt ((Nat.mod_lt _ order_pos).trans order_lt)]
  exact accepts_sign hsk msg

/-! ### The key of zeros -/

/-- A point of order four, which has no second coordinate. -/
theorem four_smul_of_y {A : Point25519} (h : A.y = 0) : 4 • A = 0 := by
  have hx : A.x * A.x = -1 := by
    have hA := A.onCurve
    unfold Edwards.OnCurve at hA
    rw [h] at hA
    linear_combination -hA
  have h2x : (A + A).x = 0 := by
    rw [Edwards.Point.add_x, Edwards.addX, h]
    simp
  have h2y : (A + A).y = -1 := by
    rw [Edwards.Point.add_y, Edwards.addY, h]
    simp [hx]
  have h4 : (A + A) + (A + A) = 0 := by
    refine Edwards.Point.ext ?_ ?_
    · rw [Edwards.Point.add_x, Edwards.addX, h2x]
      simp
    · rw [Edwards.Point.add_y, Edwards.addY, h2x, h2y]
      simp
  rw [show 4 = 2 * 2 from rfl, mul_nsmul, two_nsmul, two_nsmul, h4]

/-- The bytes of zeros decode to a point. -/
theorem decodes_zeros : ∃ A, Decodes (List.replicate 32 0) A ∧ A.y = 0 := by
  have hnum : number (List.replicate 32 0) = 0 := by decide
  have hdecodes : ∀ x : Fp, x ^ 2 = -1 → x.val % 2 = 0 → ∃ A, Decodes (List.replicate 32 0) A ∧
      A.y = 0 := fun x hx hpar => by
    refine ⟨⟨x, 0, ?_⟩, ⟨?_, Or.inr ?_⟩, rfl⟩
    · unfold Edwards.OnCurve
      rw [hx]
      ring
    · rw [hnum]
      rfl
    · rw [hnum]
      exact hpar
  by_cases hpar : (residue I).val % 2 = 0
  · exact hdecodes _ residue_I_sq hpar
  · refine hdecodes (-residue I) (by rw [neg_sq, residue_I_sq]) ?_
    rw [val_neg_parity]
    · omega
    · intro h0
      have hsq := residue_I_sq
      rw [h0] at hsq
      exact one_ne_zero (neg_eq_zero.mp (by rw [← hsq]; ring))

/-- **The placeholder key protects nothing**: whoever finds a scalar whose challenge is a
multiple of four has a signature, without any secret. -/
theorem accepts_zero_key {m : Bytes} {s : ℕ}
    (h : 4 ∣ challenge (encode (s • B)) (List.replicate 32 0) m) :
    Accepts (encode (s • B)) s (List.replicate 32 0) m := by
  obtain ⟨A, hA, hy⟩ := decodes_zeros
  obtain ⟨k, hk⟩ := h
  refine ⟨A, hA, ?_⟩
  rw [hk, mul_comm, mul_nsmul', four_smul_of_y hy, nsmul_zero, sub_zero]

theorem hashblocksLoop_of_one {m : Bytes} (h : m.length = 128) (z : List UInt64) :
    hashblocksLoop z m = hashBlock z m := by
  rw [hashblocksLoop, dif_pos h.ge, hashblocksLoop, dif_neg]
  rw [List.length_drop, h]
  decide

/-- A signature for the placeholder verifies. -/
theorem verifyDetached_zero_key {malloc : Bool × Bool} {m : Bytes} {s : ℕ}
    (hlen : m.length + 64 < 2 ^ 64) (hs : s < 2 ^ 256)
    (hmem : m.length ≤ 1984 ∨ (malloc.1 && malloc.2) = true)
    (h : 4 ∣ challenge (encode (s • B)) (List.replicate 32 0) m) :
    cryptoSignEd25519VerifyDetached malloc (encode (s • B) ++ bytes 32 s) m
      (List.replicate 32 0) = some 0 := by
  have hR : (encode (s • B)).length = 32 := length_bytes _ _
  have hsig : (encode (s • B) ++ bytes 32 s).length = 64 := by
    rw [List.length_append, hR, length_bytes]
  obtain ⟨r, hr, -, hiff⟩ := @verifyDetached_spec malloc _ m (List.replicate 32 0) hsig rfl hlen
  rw [hr, hiff.mpr]
  refine ⟨hmem, ?_⟩
  rw [List.take_left' hR, List.drop_left' hR, number_bytes,
    Nat.mod_eq_of_lt (hs.trans_eq (by norm_num))]
  exact accepts_zero_key h

theorem verifyDetached_zero_key_four :
    cryptoSignEd25519VerifyDetached (true, true) (encode (0 • B) ++ bytes 32 0) [4]
      (List.replicate 32 0) = some 0 := by
  refine verifyDetached_zero_key (by decide) (by norm_num) (Or.inr rfl) ?_
  have hzero : encode (0 • B) = 1 :: List.replicate 31 0 := by
    rw [zero_nsmul]
    decide +kernel
  have hhash : 4 ∣ number (cryptoHash ((1 :: List.replicate 31 0) ++ List.replicate 32 0 ++ [4])) %
      order := by
    set m := (1 :: List.replicate 31 0) ++ List.replicate 32 0 ++ ([4] : Bytes) with hm
    have hfirst : cryptoHashblocks iv m = iv := by
      rw [cryptoHashblocks, hashblocksLoop, dif_neg (by decide)]
      decide +kernel
    rw [cryptoHash, hfirst, cryptoHashblocks, hashblocksLoop_of_one (by decide +kernel)]
    decide +kernel
  rw [hzero, challenge, hashNumber, ← cryptoHash_spec (by decide)]
  exact hhash

/-- **A key pair is never taken for the placeholder**: a multiple of the base point has an odd
order, and is no point of order four. -/
theorem KeyPair.public_ne_zeros {sk : Bytes} (hsk : KeyPair sk) :
    sk.drop 32 ≠ List.replicate 32 0 := by
  intro h
  obtain ⟨A, hA, hy⟩ := decodes_zeros
  have hdecodes : Decodes (List.replicate 32 0) (secretScalar sk • B) := by
    rw [← h, hsk.public_eq]
    exact decodes_encode _
  rw [hA.unique hdecodes] at hy
  have horder : order • (secretScalar sk • B) = 0 := by
    rw [← mul_nsmul', mul_comm, mul_nsmul', order_smul_B, nsmul_zero]
  have hodd : order = order / 4 * 4 + 1 := by decide
  rw [hodd, add_nsmul, mul_nsmul', four_smul_of_y hy, nsmul_zero, zero_add, one_nsmul] at horder
  rw [horder] at hy
  exact one_ne_zero hy

end TweetNacl

end Llamaste
