import Llamaste.Lib.Sha2
import Llamaste.TweetEncoding

/-!
# The hashes of the update signatures

Signatures hash with SHA-512 and packages with SHA-256. The code of the first keeps sixteen
words of the schedule and renews them all every sixteen rounds, moves the eight words of the
state through an array, and hands the state from call to call as bytes; that of the second
has the whole schedule in an array.

Source: `tweetnacl.c`, `R` to `crypto_hash`, and `sha256_K` to `crypto_hash_sha256_tweet`.

## Main results

* `renewed_spec`: sixteen words that are renewed in place are the next sixteen of the
  schedule.
* `cryptoHash_spec`, `cryptoHashSha256Tweet_spec`: both are the hash of the whole padded
  message.
-/

namespace Llamaste

namespace TweetNacl

open Sha2

/-! ### The code of SHA-512 -/

/-- `dl64`. -/
def dl64 (x : Bytes) : UInt64 :=
  (List.range 8).foldl (fun (u : UInt64) i => (u <<< 8) ||| (byteAt x i).toUInt64) 0

/-- `ts64`: the byte at `i` is what `7 - i` shifts by eight leave. -/
def ts64 (u : UInt64) : Bytes :=
  (List.range 8).map fun i => (u >>> UInt64.ofNat (8 * (7 - i))).toUInt8

/-- `R`. -/
def R (x c : UInt64) : UInt64 := (x >>> c) ||| (x <<< (64 - c))

/-- `Ch`. -/
def Ch (x y z : UInt64) : UInt64 := (x &&& y) ^^^ (~~~x &&& z)

/-- `Maj`. -/
def Maj (x y z : UInt64) : UInt64 := (x &&& y) ^^^ (x &&& z) ^^^ (y &&& z)

/-- `Sigma0`. -/
def Sigma0 (x : UInt64) : UInt64 := R x 28 ^^^ R x 34 ^^^ R x 39

/-- `Sigma1`. -/
def Sigma1 (x : UInt64) : UInt64 := R x 14 ^^^ R x 18 ^^^ R x 41

/-- `sigma0`. -/
def sigma0 (x : UInt64) : UInt64 := R x 1 ^^^ R x 8 ^^^ (x >>> 7)

/-- `sigma1`. -/
def sigma1 (x : UInt64) : UInt64 := R x 19 ^^^ R x 61 ^^^ (x >>> 6)

/-- `K`. -/
def K : List UInt64 := [
  0x428a2f98d728ae22, 0x7137449123ef65cd, 0xb5c0fbcfec4d3b2f, 0xe9b5dba58189dbbc,
  0x3956c25bf348b538, 0x59f111f1b605d019, 0x923f82a4af194f9b, 0xab1c5ed5da6d8118,
  0xd807aa98a3030242, 0x12835b0145706fbe, 0x243185be4ee4b28c, 0x550c7dc3d5ffb4e2,
  0x72be5d74f27b896f, 0x80deb1fe3b1696b1, 0x9bdc06a725c71235, 0xc19bf174cf692694,
  0xe49b69c19ef14ad2, 0xefbe4786384f25e3, 0x0fc19dc68b8cd5b5, 0x240ca1cc77ac9c65,
  0x2de92c6f592b0275, 0x4a7484aa6ea6e483, 0x5cb0a9dcbd41fbd4, 0x76f988da831153b5,
  0x983e5152ee66dfab, 0xa831c66d2db43210, 0xb00327c898fb213f, 0xbf597fc7beef0ee4,
  0xc6e00bf33da88fc2, 0xd5a79147930aa725, 0x06ca6351e003826f, 0x142929670a0e6e70,
  0x27b70a8546d22ffc, 0x2e1b21385c26c926, 0x4d2c6dfc5ac42aed, 0x53380d139d95b3df,
  0x650a73548baf63de, 0x766a0abb3c77b2a8, 0x81c2c92e47edaee6, 0x92722c851482353b,
  0xa2bfe8a14cf10364, 0xa81a664bbc423001, 0xc24b8b70d0f89791, 0xc76c51a30654be30,
  0xd192e819d6ef5218, 0xd69906245565a910, 0xf40e35855771202a, 0x106aa07032bbd1b8,
  0x19a4c116b8d2d0c8, 0x1e376c085141ab53, 0x2748774cdf8eeb99, 0x34b0bcb5e19b48a8,
  0x391c0cb3c5c95a63, 0x4ed8aa4ae3418acb, 0x5b9cca4f7763e373, 0x682e6ff3d6b2b8a3,
  0x748f82ee5defb2fc, 0x78a5636f43172f60, 0x84c87814a1f0ab72, 0x8cc702081a6439ec,
  0x90befffa23631e28, 0xa4506cebde82bde9, 0xbef9a3f7b2c67915, 0xc67178f2e372532b,
  0xca273eceea26619c, 0xd186b8c721c0c207, 0xeada7dd6cde0eb1e, 0xf57d4f7fee6ed178,
  0x06f067aa72176fba, 0x0a637dc5a2c898a6, 0x113f9804bef90dae, 0x1b710b35131c471b,
  0x28db77f523047d84, 0x32caab7b40c72493, 0x3c9ebe0a15c9bebc, 0x431d67c49c100d4c,
  0x4cc5d4becb3e42b6, 0x597f299cfc657e2a, 0x5fcb6fab3ad6faec, 0x6c44198c4a475817]

/-- `iv`. -/
def iv : Bytes := [
  0x6a, 0x09, 0xe6, 0x67, 0xf3, 0xbc, 0xc9, 0x08, 0xbb, 0x67, 0xae, 0x85, 0x84, 0xca, 0xa7, 0x3b,
  0x3c, 0x6e, 0xf3, 0x72, 0xfe, 0x94, 0xf8, 0x2b, 0xa5, 0x4f, 0xf5, 0x3a, 0x5f, 0x1d, 0x36, 0xf1,
  0x51, 0x0e, 0x52, 0x7f, 0xad, 0xe6, 0x82, 0xd1, 0x9b, 0x05, 0x68, 0x8c, 0x2b, 0x3e, 0x6c, 0x1f,
  0x1f, 0x83, 0xd9, 0xab, 0xfb, 0x41, 0xbd, 0x6b, 0x5b, 0xe0, 0xcd, 0x19, 0x13, 0x7e, 0x21, 0x79]

/-- An element of an array of words. -/
def wordAt {W : Type} [Zero W] (a : List W) (i : ℕ) : W := a.getD i 0

/-- `w[j] += w[(j+9)%16] + sigma0(w[(j+1)%16]) + sigma1(w[(j+14)%16])`. -/
def renewWord (w : List UInt64) (j : ℕ) : List UInt64 :=
  w.set j (wordAt w j + (wordAt w ((j + 9) % 16) + sigma0 (wordAt w ((j + 1) % 16)) +
    sigma1 (wordAt w ((j + 14) % 16))))

/-- A round of `FOR(i,80)`. -/
def hashRound (aw : List UInt64 × List UInt64) (i : ℕ) : List UInt64 × List UInt64 :=
  let (a, w) := aw
  let t := wordAt a 7 + Sigma1 (wordAt a 4) + Ch (wordAt a 4) (wordAt a 5) (wordAt a 6) +
    wordAt K i + wordAt w (i % 16)
  let b := a.set 7 (t + Sigma0 (wordAt a 0) + Maj (wordAt a 0) (wordAt a 1) (wordAt a 2))
  let b := b.set 3 (wordAt b 3 + t)
  ((List.range 8).map fun j => wordAt b ((j + 7) % 8),
    if i % 16 = 15 then (List.range 16).foldl renewWord w else w)

/-- The body of `while (n >= 128)`, in front of which `a` and `z` are equal. -/
def hashBlock (z : List UInt64) (m : Bytes) : List UInt64 :=
  let w := (List.range 16).map fun i => dl64 (m.drop (8 * i))
  let aw := (List.range 80).foldl hashRound (z, w)
  (List.range 8).map fun i => wordAt aw.1 i + wordAt z i

/-- `while (n >= 128)`. -/
def hashblocksLoop (z : List UInt64) (m : Bytes) : List UInt64 :=
  if _ : 128 ≤ m.length then hashblocksLoop (hashBlock z m) (m.drop 128) else z
  termination_by m.length
  decreasing_by
    rw [List.length_drop]
    omega

/-- `crypto_hashblocks`: the state that it leaves. -/
def cryptoHashblocks (x m : Bytes) : Bytes :=
  (hashblocksLoop ((List.range 8).map fun i => dl64 (x.drop (8 * i))) m).flatMap ts64

/-- Bytes written to an array from index `i` on. -/
def writeAt (x : Bytes) (i : ℕ) (bs : Bytes) : Bytes := x.take i ++ bs ++ x.drop (i + bs.length)

/-- `crypto_hash`. -/
def cryptoHash (m : Bytes) : Bytes :=
  let b := UInt64.ofNat m.length
  let h := cryptoHashblocks iv m
  let n := m.length % 128
  let x := writeAt (List.replicate 256 0) 0 (m.drop (m.length - n))
  let x := x.set n 128
  let n := 256 - 128 * (if n < 112 then 1 else 0)
  let x := x.set (n - 9) (b >>> 61).toUInt8
  let x := writeAt x (n - 8) (ts64 (b <<< 3))
  cryptoHashblocks h (x.take n)

/-! ### The code of SHA-256 -/

/-- `sha256_K`. -/
def sha256K : List UInt32 := [
  0x428a2f98, 0x71374491, 0xb5c0fbcf, 0xe9b5dba5, 0x3956c25b, 0x59f111f1, 0x923f82a4, 0xab1c5ed5,
  0xd807aa98, 0x12835b01, 0x243185be, 0x550c7dc3, 0x72be5d74, 0x80deb1fe, 0x9bdc06a7, 0xc19bf174,
  0xe49b69c1, 0xefbe4786, 0x0fc19dc6, 0x240ca1cc, 0x2de92c6f, 0x4a7484aa, 0x5cb0a9dc, 0x76f988da,
  0x983e5152, 0xa831c66d, 0xb00327c8, 0xbf597fc7, 0xc6e00bf3, 0xd5a79147, 0x06ca6351, 0x14292967,
  0x27b70a85, 0x2e1b2138, 0x4d2c6dfc, 0x53380d13, 0x650a7354, 0x766a0abb, 0x81c2c92e, 0x92722c85,
  0xa2bfe8a1, 0xa81a664b, 0xc24b8b70, 0xc76c51a3, 0xd192e819, 0xd6990624, 0xf40e3585, 0x106aa070,
  0x19a4c116, 0x1e376c08, 0x2748774c, 0x34b0bcb5, 0x391c0cb3, 0x4ed8aa4a, 0x5b9cca4f, 0x682e6ff3,
  0x748f82ee, 0x78a5636f, 0x84c87814, 0x8cc70208, 0x90befffa, 0xa4506ceb, 0xbef9a3f7, 0xc67178f2]

/-- `SHA256_ROR`. -/
def sha256ROR (x n : UInt32) : UInt32 := (x >>> n) ||| (x <<< (32 - n))

/-- `SHA256_CH`. -/
def sha256CH (x y z : UInt32) : UInt32 := (x &&& y) ^^^ (~~~x &&& z)

/-- `SHA256_MAJ`. -/
def sha256MAJ (x y z : UInt32) : UInt32 := (x &&& y) ^^^ (x &&& z) ^^^ (y &&& z)

/-- `SHA256_S0`. -/
def sha256S0 (x : UInt32) : UInt32 := sha256ROR x 2 ^^^ sha256ROR x 13 ^^^ sha256ROR x 22

/-- `SHA256_S1`. -/
def sha256S1 (x : UInt32) : UInt32 := sha256ROR x 6 ^^^ sha256ROR x 11 ^^^ sha256ROR x 25

/-- `SHA256_s0`. -/
def sha256s0 (x : UInt32) : UInt32 := sha256ROR x 7 ^^^ sha256ROR x 18 ^^^ (x >>> 3)

/-- `SHA256_s1`. -/
def sha256s1 (x : UInt32) : UInt32 := sha256ROR x 17 ^^^ sha256ROR x 19 ^^^ (x >>> 10)

/-- `sha256_load32`. -/
def sha256Load32 (p : Bytes) : UInt32 :=
  ((byteAt p 0).toUInt32 <<< 24) ||| ((byteAt p 1).toUInt32 <<< 16) |||
    ((byteAt p 2).toUInt32 <<< 8) ||| (byteAt p 3).toUInt32

/-- `sha256_store32`. -/
def sha256Store32 (v : UInt32) : Bytes :=
  [(v >>> 24).toUInt8, (v >>> 16).toUInt8, (v >>> 8).toUInt8, v.toUInt8]

/-- `W[i] = SHA256_s1(W[i-2])+W[i-7]+SHA256_s0(W[i-15])+W[i-16]`. -/
def scheduleWord (w : List UInt32) (i : ℕ) : List UInt32 :=
  w ++ [sha256s1 (wordAt w (i - 2)) + wordAt w (i - 7) + sha256s0 (wordAt w (i - 15)) +
    wordAt w (i - 16)]

/-- A round of the compression, on the variables `a` to `h`. -/
def sha256Round (w : List UInt32) (s : Words UInt32) (i : ℕ) : Words UInt32 :=
  let t1 := s.h + sha256S1 s.e + sha256CH s.e s.f s.g + wordAt sha256K i + wordAt w i
  let t2 := sha256S0 s.a + sha256MAJ s.a s.b s.c
  ⟨t1 + t2, s.a, s.b, s.c, s.d + t1, s.e, s.f, s.g⟩

/-- The body of `while (len >= 64)`, on the array `S`. -/
def sha256Block (S : Words UInt32) (data : Bytes) : Words UInt32 :=
  let w := (List.range 16).map fun i => sha256Load32 (data.drop (4 * i))
  let w := ((List.range 48).map (· + 16)).foldl scheduleWord w
  let s := (List.range 64).foldl (sha256Round w) S
  ⟨S.a + s.a, S.b + s.b, S.c + s.c, S.d + s.d, S.e + s.e, S.f + s.f, S.g + s.g, S.h + s.h⟩

/-- `while (len >= 64)`. -/
def sha256Loop (S : Words UInt32) (data : Bytes) : Words UInt32 :=
  if _ : 64 ≤ data.length then sha256Loop (sha256Block S data) (data.drop 64) else S
  termination_by data.length
  decreasing_by
    rw [List.length_drop]
    omega

/-- The array `S` of a state in bytes. -/
def sha256State (state : Bytes) : Words UInt32 :=
  let S := fun i => sha256Load32 (state.drop (4 * i))
  ⟨S 0, S 1, S 2, S 3, S 4, S 5, S 6, S 7⟩

/-- `crypto_hashblocks_sha256_tweet`: the state that it leaves. -/
def cryptoHashblocksSha256Tweet (state data : Bytes) : Bytes :=
  (sha256Loop (sha256State state) data).toList.flatMap sha256Store32

/-- `sha256_iv`. -/
def sha256Iv : Bytes := [
  0x6a, 0x09, 0xe6, 0x67, 0xbb, 0x67, 0xae, 0x85, 0x3c, 0x6e, 0xf3, 0x72, 0xa5, 0x4f, 0xf5, 0x3a,
  0x51, 0x0e, 0x52, 0x7f, 0x9b, 0x05, 0x68, 0x8c, 0x1f, 0x83, 0xd9, 0xab, 0x5b, 0xe0, 0xcd, 0x19]

/-- `(unsigned char)(bits >> (56-8*i))` for `i` from 0 to 7. -/
def sha256Bits (bits : UInt64) : Bytes :=
  (List.range 8).map fun i => (bits >>> UInt64.ofNat (56 - 8 * i)).toUInt8

/-- `crypto_hash_sha256_tweet`. -/
def cryptoHashSha256Tweet (m : Bytes) : Bytes :=
  let bits := UInt64.ofNat m.length * 8
  let h := cryptoHashblocksSha256Tweet sha256Iv m
  let n := m.length % 64
  let padded := writeAt (List.replicate 128 0) 0 (m.drop (m.length - n))
  let padded := padded.set n 0x80
  if n < 56 then
    cryptoHashblocksSha256Tweet h ((writeAt padded 56 (sha256Bits bits)).take 64)
  else cryptoHashblocksSha256Tweet h ((writeAt padded 120 (sha256Bits bits)).take 128)

/-! ### Words and bytes -/

/-- SHA-512. -/
def sha512 : Family UInt64 where
  width := 8
  rounds := 80
  ofNat := UInt64.ofNat
  toNat := UInt64.toNat
  ch := Ch
  maj := Maj
  bigSigma0 := Sigma0
  bigSigma1 := Sigma1
  smallSigma0 := sigma0
  smallSigma1 := sigma1
  constant := wordAt K
  start := ⟨0x6a09e667f3bcc908, 0xbb67ae8584caa73b, 0x3c6ef372fe94f82b, 0xa54ff53a5f1d36f1,
    0x510e527fade682d1, 0x9b05688c2b3e6c1f, 0x1f83d9abfb41bd6b, 0x5be0cd19137e2179⟩

/-- SHA-256. -/
def sha256 : Family UInt32 where
  width := 4
  rounds := 64
  ofNat := UInt32.ofNat
  toNat := UInt32.toNat
  ch := sha256CH
  maj := sha256MAJ
  bigSigma0 := sha256S0
  bigSigma1 := sha256S1
  smallSigma0 := sha256s0
  smallSigma1 := sha256s1
  constant := wordAt sha256K
  start := ⟨0x6a09e667, 0xbb67ae85, 0x3c6ef372, 0xa54ff53a, 0x510e527f, 0x9b05688c, 0x1f83d9ab,
    0x5be0cd19⟩

/-- A number and the byte behind it. -/
theorem shift_or (n b : ℕ) (hb : b < 2 ^ 8) : n <<< 8 ||| b = n * 256 + b := by
  rw [← Nat.shiftLeft_add_eq_or_of_lt hb, Nat.shiftLeft_eq]

theorem take_succ_byteAt {x : Bytes} {k : ℕ} (hk : k < x.length) :
    x.take (k + 1) = x.take k ++ [byteAt x k] := by
  rw [List.take_succ_eq_append_getElem hk, byteAt, List.getD_eq_getElem x 0 hk]

/-- `dl64` reads a big-endian number. -/
theorem dl64_eq {x : Bytes} (hx : 8 ≤ x.length) :
    dl64 x = UInt64.ofNat (BigEndian.number (x.take 8)) := by
  have hprefix : ∀ k ≤ 8, ((List.range k).foldl
      (fun (u : UInt64) i => (u <<< 8) ||| (byteAt x i).toUInt64) 0).toNat =
        BigEndian.number (x.take k) := by
    intro k hk
    induction k with
    | zero => rfl
    | succ k ih =>
      have hlt := BigEndian.number_lt (x.take k)
      have hpow : 256 ^ (x.take k).length ≤ 256 ^ 7 := by
        refine Nat.pow_le_pow_right (by decide) ?_
        rw [List.length_take]
        omega
      rw [List.range_succ, List.foldl_append, List.foldl_cons, List.foldl_nil, UInt64.toNat_or,
        UInt64.toNat_shiftLeft, ih (by omega), UInt8.toNat_toUInt64, take_succ_byteAt (by omega),
        BigEndian.number_append_singleton]
      rw [show (8 : UInt64).toNat % 64 = 8 from rfl, Nat.mod_eq_of_lt (by
        rw [Nat.shiftLeft_eq]
        omega), shift_or _ _ (byteAt x k).toNat_lt]
  rw [← hprefix 8 le_rfl, UInt64.ofNat_toNat]
  rfl

/-- `ts64` writes a big-endian number. -/
theorem ts64_eq (u : UInt64) : ts64 u = BigEndian.bytes 8 u.toNat := by
  rw [ts64, BigEndian.bytes_eq_map]
  refine List.map_congr_left fun i hi => UInt8.toNat_inj.mp ?_
  have hi' := List.mem_range.mp hi
  rw [UInt64.toNat_toUInt8, UInt64.toNat_shiftRight, UInt64.toNat_ofNat', UInt8.toNat_ofNat',
    Nat.shiftRight_eq_div_pow, show 8 - 1 - i = 7 - i by omega,
    show (256 : ℕ) ^ (7 - i) = 2 ^ (8 * (7 - i)) by rw [pow_mul, show 2 ^ 8 = 256 from rfl],
    show 8 * (7 - i) % 2 ^ 64 % 64 = 8 * (7 - i) by omega]

theorem dl64_ts64 (u : UInt64) (rest : Bytes) : dl64 (ts64 u ++ rest) = u := by
  have hlen : (ts64 u).length = 8 := by rw [ts64_eq, BigEndian.length_bytes]
  rw [dl64_eq (by rw [List.length_append]; omega), List.take_left' hlen, ts64_eq,
    BigEndian.number_bytes, show 256 ^ 8 = 2 ^ 64 by norm_num, Nat.mod_eq_of_lt u.toNat_lt,
    UInt64.ofNat_toNat]

/-- `sha256_load32` reads a big-endian number. -/
theorem sha256Load32_eq {p : Bytes} (hp : 4 ≤ p.length) :
    sha256Load32 p = UInt32.ofNat (BigEndian.number (p.take 4)) := by
  apply UInt32.toNat_inj.mp
  have h0 := (byteAt p 0).toNat_lt
  have h1 := (byteAt p 1).toNat_lt
  have h2 := (byteAt p 2).toNat_lt
  have h3 := (byteAt p 3).toNat_lt
  have hnumber : BigEndian.number (p.take 4) = (((byteAt p 0).toNat * 256 + (byteAt p 1).toNat) *
      256 + (byteAt p 2).toNat) * 256 + (byteAt p 3).toNat := by
    have htake : p.take 4 = [byteAt p 0, byteAt p 1, byteAt p 2, byteAt p 3] := by
      rw [take_succ_byteAt (by omega : 3 < p.length), take_succ_byteAt (by omega : 2 < p.length),
        take_succ_byteAt (by omega : 1 < p.length), take_succ_byteAt (by omega : 0 < p.length)]
      rfl
    rw [htake]
    simp only [BigEndian.number, List.reverse_cons, List.reverse_nil, List.nil_append,
      List.cons_append, LittleEndian.number]
    ring
  rw [UInt32.toNat_ofNat', hnumber, Nat.mod_eq_of_lt (by omega), sha256Load32]
  rw [UInt32.toNat_or, UInt32.toNat_or, UInt32.toNat_or, UInt32.toNat_shiftLeft,
    UInt32.toNat_shiftLeft, UInt32.toNat_shiftLeft]
  simp only [UInt8.toNat_toUInt32, show (24 : UInt32).toNat % 32 = 24 from rfl,
    show (16 : UInt32).toNat % 32 = 16 from rfl, show (8 : UInt32).toNat % 32 = 8 from rfl]
  generalize (byteAt p 0).toNat = a at *
  generalize (byteAt p 1).toNat = b at *
  generalize (byteAt p 2).toNat = c at *
  generalize (byteAt p 3).toNat = d at *
  rw [Nat.mod_eq_of_lt (by rw [Nat.shiftLeft_eq]; omega),
    Nat.mod_eq_of_lt (by rw [Nat.shiftLeft_eq]; omega),
    Nat.mod_eq_of_lt (by rw [Nat.shiftLeft_eq]; omega), ← shift_or _ _ h3, ← shift_or _ _ h2,
    ← shift_or _ _ h1]
  simp only [Nat.shiftLeft_or_distrib, ← Nat.shiftLeft_add]

/-- `sha256_store32` writes a big-endian number. -/
theorem sha256Store32_eq (v : UInt32) : sha256Store32 v = BigEndian.bytes 4 v.toNat := by
  have hbyte : ∀ (c : UInt32) (k : ℕ), c.toNat % 32 = 8 * k →
      (v >>> c).toUInt8 = UInt8.ofNat (v.toNat / 256 ^ k) := fun c k hc => by
    apply UInt8.toNat_inj.mp
    rw [UInt32.toNat_toUInt8, UInt32.toNat_shiftRight, hc, UInt8.toNat_ofNat',
      Nat.shiftRight_eq_div_pow, pow_mul, show 2 ^ 8 = 256 from rfl]
  have h0 : v.toUInt8 = UInt8.ofNat (v.toNat / 256 ^ 0) := by
    rw [← hbyte 0 0 rfl, UInt32.shiftRight_zero]
  rw [sha256Store32, hbyte 24 3 rfl, hbyte 16 2 rfl, hbyte 8 1 rfl, h0,
    BigEndian.bytes_eq_map]
  rfl

theorem sha256Load32_store32 (v : UInt32) (rest : Bytes) :
    sha256Load32 (sha256Store32 v ++ rest) = v := by
  have hlen : (sha256Store32 v).length = 4 := rfl
  rw [sha256Load32_eq (by rw [List.length_append]; omega), List.take_left' hlen,
    sha256Store32_eq, BigEndian.number_bytes, show 256 ^ 4 = 2 ^ 32 by norm_num,
    Nat.mod_eq_of_lt v.toNat_lt, UInt32.ofNat_toNat]

/-- Words that are written one behind the other are read again at their places. -/
theorem load_flatMap {W : Type} [Zero W] {ld : Bytes → W} {st : W → Bytes} {n : ℕ}
    (hlen : ∀ w, (st w).length = n) (hld : ∀ w rest, ld (st w ++ rest) = w) {l : List W} {i : ℕ}
    (hi : i < l.length) : ld ((l.flatMap st).drop (n * i)) = wordAt l i := by
  induction l generalizing i with
  | nil => exact absurd hi (Nat.not_lt_zero i)
  | cons w l ih =>
    rw [List.flatMap_cons]
    cases i with
    | zero => exact hld w _
    | succ i =>
      have hdrop : n * (i + 1) = (st w).length + n * i := by
        rw [hlen, Nat.mul_succ, Nat.add_comm]
      rw [hdrop, List.drop_length_add_append, ih (Nat.lt_of_succ_lt_succ hi)]
      rfl

/-! ### The schedule -/

theorem wordAt_set {W : Type} [Zero W] {a : List W} {i : ℕ} (hi : i < a.length) (v : W) (k : ℕ) :
    wordAt (a.set i v) k = if k = i then v else wordAt a k := by
  rw [wordAt, List.getD_eq_getElem?_getD, List.getElem?_set]
  by_cases h : i = k
  · subst h
    rw [if_pos rfl, if_pos hi, if_pos rfl]
    rfl
  · rw [if_neg h, if_neg fun h' => h h'.symm, wordAt, List.getD_eq_getElem?_getD]

theorem wordAt_map_range {W : Type} [Zero W] (f : ℕ → W) {n i : ℕ} (hi : i < n) :
    wordAt ((List.range n).map f) i = f i := by
  rw [wordAt, List.getD_eq_getElem _ _ (by simpa using hi)]
  simp

/-- **Renewal in place.** Sixteen words of the schedule become the next sixteen: a word that
is read is already new exactly if the recurrence asks for a new one. -/
theorem renewed_spec (m : ℕ → UInt64) (t : ℕ) {w : List UInt64} (hlen : w.length = 16)
    (hw : ∀ j < 16, wordAt w j = schedule sha512 m (t + j)) {k : ℕ} (hk : k ≤ 16) :
    ((List.range k).foldl renewWord w).length = 16 ∧ ∀ j < 16,
      wordAt ((List.range k).foldl renewWord w) j =
        schedule sha512 m (if j < k then t + 16 + j else t + j) := by
  induction k with
  | zero => exact ⟨hlen, fun j hj => by rw [if_neg (Nat.not_lt_zero j)]; exact hw j hj⟩
  | succ k ih =>
    obtain ⟨hlen', hw'⟩ := ih (by omega)
    rw [List.range_succ, List.foldl_append, List.foldl_cons, List.foldl_nil]
    set u := (List.range k).foldl renewWord w
    have hread : ∀ d < 16, 0 < d → wordAt u ((k + d) % 16) = schedule sha512 m (t + k + d) := by
      intro d hd hd0
      rw [hw' _ (Nat.mod_lt _ (by decide))]
      refine congrArg (schedule sha512 m) ?_
      split_ifs <;> omega
    have hself : wordAt u k = schedule sha512 m (t + k) := by
      rw [hw' k (by omega), if_neg (lt_irrefl k)]
    refine ⟨by rw [renewWord, List.length_set, hlen'], fun j hj => ?_⟩
    rw [renewWord, wordAt_set (by omega)]
    by_cases h : j = k
    · subst h
      rw [if_pos rfl, if_pos (Nat.lt_succ_self j), hself, hread 9 (by decide) (by decide),
        hread 1 (by decide) (by decide), hread 14 (by decide) (by decide),
        show t + 16 + j = t + j + 16 by omega, schedule_add]
      simp only [show sha512.smallSigma0 = sigma0 from rfl,
        show sha512.smallSigma1 = sigma1 from rfl]
      ac_rfl
    · rw [if_neg h, hw' j hj]
      refine congrArg (schedule sha512 m) ?_
      split_ifs <;> omega

/-! ### The rounds -/

theorem hashRound_spec (s : Words UInt64) (w : List UInt64) (i : ℕ) :
    (hashRound (s.toList, w) i).1 =
      (step sha512 (wordAt K i) (wordAt w (i % 16)) s).toList := by
  simp [hashRound, Words.toList, wordAt, step, sha512, List.range_succ, UInt64.add_assoc]

/-- The state of the rounds of a block: the working words, and the words of the schedule from
the last multiple of sixteen on. -/
structure Hashing (m : ℕ → UInt64) (s : Words UInt64) (i : ℕ) (aw : List UInt64 × List UInt64) :
    Prop where
  working : aw.1 = (mix sha512 m s i).toList
  length : aw.2.length = 16
  words : ∀ j < 16, wordAt aw.2 j = schedule sha512 m (16 * (i / 16) + j)

theorem Hashing.step {m : ℕ → UInt64} {s : Words UInt64} {i : ℕ} {aw : List UInt64 × List UInt64}
    (h : Hashing m s i aw) : Hashing m s (i + 1) (hashRound aw i) := by
  obtain ⟨a, w⟩ := aw
  obtain rfl : a = (mix sha512 m s i).toList := h.working
  have hlen : w.length = 16 := h.length
  have hwords : ∀ j < 16, wordAt w j = schedule sha512 m (16 * (i / 16) + j) := h.words
  have hnow : wordAt w (i % 16) = schedule sha512 m i := by
    rw [hwords _ (Nat.mod_lt _ (by decide)), Nat.div_add_mod]
  have hworking : (hashRound ((mix sha512 m s i).toList, w) i).1 =
      (mix sha512 m s (i + 1)).toList := by
    rw [hashRound_spec, hnow]
    rfl
  have hsecond : (hashRound ((mix sha512 m s i).toList, w) i).2 =
      if i % 16 = 15 then (List.range 16).foldl renewWord w else w := rfl
  by_cases hlast : i % 16 = 15
  · obtain ⟨hlen', hwords'⟩ := renewed_spec m (16 * (i / 16)) hlen hwords le_rfl
    rw [if_pos hlast] at hsecond
    refine ⟨hworking, by rw [hsecond, hlen'], fun j hj => ?_⟩
    rw [hsecond, hwords' j hj, if_pos hj]
    refine congrArg (schedule sha512 m) ?_
    omega
  · rw [if_neg hlast] at hsecond
    refine ⟨hworking, by rw [hsecond, hlen], fun j hj => ?_⟩
    rw [hsecond, hwords j hj, show (i + 1) / 16 = i / 16 by omega]

theorem hashRounds_spec {m : ℕ → UInt64} {s : Words UInt64} {w : List UInt64}
    (hlen : w.length = 16) (hw : ∀ j < 16, wordAt w j = m j) (n : ℕ) :
    Hashing m s n ((List.range n).foldl hashRound (s.toList, w)) := by
  induction n with
  | zero =>
    refine ⟨rfl, hlen, fun j hj => ?_⟩
    rw [Nat.zero_div, Nat.mul_zero, Nat.zero_add, schedule_of_lt _ hj]
    exact hw j hj
  | succ n ih =>
    rw [List.range_succ, List.foldl_append, List.foldl_cons, List.foldl_nil]
    exact ih.step

/-- A word of a block, read from the message behind its start. -/
theorem take_drop_take {n : ℕ} (m : Bytes) {i w : ℕ} (h : w * i + w ≤ n) :
    ((m.take n).drop (w * i)).take w = (m.drop (w * i)).take w := by
  rw [List.drop_take, List.take_take, Nat.min_eq_left (by omega)]

/-- **A block of SHA-512.** -/
theorem hashBlock_spec (s : Words UInt64) {m : Bytes} (hm : 128 ≤ m.length) :
    hashBlock s.toList m = (compress sha512 s (m.take 128)).toList := by
  have hwords : ∀ j < 16, wordAt ((List.range 16).map fun i => dl64 (m.drop (8 * i))) j =
      Sha2.word sha512 (m.take 128) j := fun j hj => by
    rw [wordAt_map_range _ hj, dl64_eq (by rw [List.length_drop]; omega)]
    exact congrArg (fun x => UInt64.ofNat (BigEndian.number x))
      (take_drop_take m (by omega)).symm
  have hrounds := hashRounds_spec (s := s) (by simp) hwords 80
  rw [hashBlock]
  simp only [hrounds.working]
  rfl

theorem hashblocksLoop_spec (s : Words UInt64) (m : Bytes) :
    hashblocksLoop s.toList m = (absorb 128 (compress sha512) s m).toList := by
  induction hlen : m.length using Nat.strong_induction_on generalizing m s with
  | _ n ih =>
    rw [hashblocksLoop]
    by_cases h : 128 ≤ m.length
    · rw [dif_pos h, absorb_of_le (by decide) h, hashBlock_spec s h]
      exact ih _ (by rw [List.length_drop]; omega) _ _ rfl
    · rw [dif_neg h, absorb_of_lt (by omega)]

/-- The states that `crypto_hashblocks` reads and leaves. -/
theorem cryptoHashblocks_spec (s : Words UInt64) (m : Bytes) :
    cryptoHashblocks (s.toList.flatMap ts64) m =
      (absorb 128 (compress sha512) s m).toList.flatMap ts64 := by
  have hlen : ∀ w, (ts64 w).length = 8 := fun w => by rw [ts64_eq, BigEndian.length_bytes]
  have hload : (List.range 8).map (fun i => dl64 ((s.toList.flatMap ts64).drop (8 * i))) =
      s.toList := by
    have hread : (List.range 8).map (fun i => dl64 ((s.toList.flatMap ts64).drop (8 * i))) =
        (List.range 8).map (wordAt s.toList) :=
      List.map_congr_left fun i hi => load_flatMap hlen dl64_ts64 (List.mem_range.mp hi)
    rw [hread]
    rfl
  rw [cryptoHashblocks, hload, hashblocksLoop_spec]

/-! ### The last blocks -/

/-- What is written behind `pre` and `j` of the `k` zeros that follow it. -/
theorem writeAt_zeros (pre bs : Bytes) {j k : ℕ} (h : j + bs.length ≤ k) :
    writeAt (pre ++ List.replicate k 0) (pre.length + j) bs =
      pre ++ List.replicate j 0 ++ bs ++ List.replicate (k - j - bs.length) 0 := by
  rw [writeAt, List.take_length_add_append, List.take_replicate, Nat.min_eq_left (by omega),
    Nat.add_assoc, List.drop_length_add_append, List.drop_replicate, Nat.sub_sub]

theorem set_eq_writeAt {x : Bytes} {i : ℕ} (hi : i < x.length) (v : UInt8) :
    x.set i v = writeAt x i [v] := by
  rw [writeAt, List.set_eq_take_append_cons_drop, if_pos hi, List.append_assoc]
  rfl

/-- The last bytes of the message and the set bit, in an array of zeros. -/
theorem marked_eq (tail : Bytes) {n : ℕ} (h : tail.length < n) (c : UInt8) :
    (writeAt (List.replicate n 0) 0 tail).set tail.length c =
      tail ++ [c] ++ List.replicate (n - tail.length - 1) 0 := by
  have hfirst := writeAt_zeros [] tail (j := 0) (k := n) (by omega)
  simp only [List.nil_append, List.length_nil, Nat.add_zero, Nat.sub_zero,
    List.replicate_zero] at hfirst
  rw [hfirst, set_eq_writeAt (by rw [List.length_append, List.length_replicate]; omega)]
  have hsecond := writeAt_zeros tail [c] (j := 0) (k := n - tail.length) (by simp; omega)
  simpa only [Nat.add_zero, List.replicate_zero, List.append_nil, Nat.sub_zero,
    List.length_singleton] using hsecond

/-- The tail of a message behind its last complete block. -/
theorem length_tail (m : Bytes) (n : ℕ) :
    (m.drop (m.length - m.length % n)).length = m.length % n := by
  have := Nat.mod_le m.length n
  rw [List.length_drop]
  omega

/-- A message is its complete blocks and its tail, and what is behind is fed with the tail. -/
theorem absorb_padded {σ : Type} {n : ℕ} (hn : 0 < n) (f : σ → Bytes → σ) (s : σ)
    (m pad : Bytes) :
    absorb n f s (m ++ pad) =
      absorb n f (absorb n f s m) (m.drop (m.length - m.length % n) ++ pad) := by
  have hlen : (m.take (m.length - m.length % n)).length = n * (m.length / n) := by
    rw [List.length_take, Nat.min_eq_left (Nat.sub_le _ _)]
    have := Nat.div_add_mod m.length n
    omega
  rw [absorb_incomplete hn m s, ← absorb_append hn hlen, ← List.append_assoc,
    List.take_append_drop]

/-- The length field of SHA-512: seven zeros, the three highest bits, and a word. -/
theorem lengthField_eq {n : ℕ} (hn : n < 2 ^ 64) :
    BigEndian.bytes 16 (8 * n) = (List.replicate 7 0 : Bytes) ++
      ((UInt64.ofNat n >>> 61).toUInt8 :: ts64 (UInt64.ofNat n <<< 3)) := by
  have hhigh : BigEndian.bytes 8 (8 * n / 256 ^ 8) =
      (List.replicate 7 0 : Bytes) ++ [(UInt64.ofNat n >>> 61).toUInt8] := by
    have hbyte : (UInt64.ofNat n >>> 61).toUInt8 = UInt8.ofNat (8 * n / 256 ^ 8) := by
      apply UInt8.toNat_inj.mp
      rw [UInt64.toNat_toUInt8, UInt64.toNat_shiftRight, UInt64.toNat_ofNat',
        show (61 : UInt64).toNat % 64 = 61 from rfl, Nat.shiftRight_eq_div_pow,
        UInt8.toNat_ofNat']
      omega
    rw [hbyte, show 8 = 7 + 1 from rfl, BigEndian.bytes_add, show 8 * n / 256 ^ 8 / 256 ^ 1 = 0 by
      omega, BigEndian.bytes, LittleEndian.bytes_zero, List.reverse_replicate]
    rfl
  have hlow : ts64 (UInt64.ofNat n <<< 3) = BigEndian.bytes 8 (8 * n) := by
    rw [ts64_eq, UInt64.toNat_shiftLeft, UInt64.toNat_ofNat', Nat.mod_eq_of_lt hn,
      show (3 : UInt64).toNat % 64 = 3 from rfl, Nat.shiftLeft_eq, ← BigEndian.bytes_mod,
      show 256 ^ 8 = 2 ^ 64 by norm_num, Nat.mod_mod, show 2 ^ 64 = 256 ^ 8 by norm_num,
      BigEndian.bytes_mod, Nat.mul_comm]
  rw [hlow, show 16 = 8 + 8 from rfl, BigEndian.bytes_add, hhigh, List.append_assoc]
  rfl

/-- The last one or two blocks of SHA-512. -/
theorem lastBlocks_eq {m : Bytes} (hm : m.length < 2 ^ 64) :
    let r := m.length % 128
    let n := 256 - 128 * (if r < 112 then 1 else 0)
    let x := (writeAt (List.replicate 256 0) 0 (m.drop (m.length - r))).set r 128
    (writeAt (x.set (n - 9) (UInt64.ofNat m.length >>> 61).toUInt8) (n - 8)
      (ts64 (UInt64.ofNat m.length <<< 3))).take n =
        m.drop (m.length - r) ++ padding 128 16 m.length := by
  intro r n x
  set tail := m.drop (m.length - r) with htail
  have hlen : tail.length = r := length_tail m 128
  have hr : r < 128 := Nat.mod_lt _ (by decide)
  have hn : n = if r < 112 then 128 else 256 := by
    show 256 - 128 * (if r < 112 then 1 else 0) = _
    split_ifs <;> rfl
  have hword : (ts64 (UInt64.ofNat m.length <<< 3)).length = 8 := by
    rw [ts64_eq, BigEndian.length_bytes]
  obtain ⟨z, hz⟩ : ∃ z, r + 1 + z + 9 = n := ⟨n - r - 10, by split_ifs at hn <;> omega⟩
  have hx : x = tail ++ [(128 : UInt8)] ++ List.replicate (255 - r) 0 := by
    have hmarked := marked_eq tail (n := 256) (by omega) 128
    rwa [hlen, show 256 - r - 1 = 255 - r by omega] at hmarked
  have hle : n ≤ 256 := by split_ifs at hn <;> omega
  have hpos : n - 9 = (tail ++ [(128 : UInt8)]).length + z := by
    rw [List.length_append, hlen, List.length_singleton]
    omega
  have hhigh : x.set (n - 9) (UInt64.ofNat m.length >>> 61).toUInt8 =
      tail ++ [(128 : UInt8)] ++ (List.replicate z 0 : Bytes) ++ [(UInt64.ofNat m.length >>> 61).toUInt8] ++
        List.replicate (255 - r - z - 1) 0 := by
    rw [hx, set_eq_writeAt (by simp [hlen]; omega), hpos]
    exact writeAt_zeros (tail ++ [(128 : UInt8)]) _ (by rw [List.length_singleton]; omega)
  set pre := tail ++ [(128 : UInt8)] ++ (List.replicate z 0 : Bytes) ++ [(UInt64.ofNat m.length >>> 61).toUInt8]
    with hpre
  have hprelen : pre.length = n - 8 := by
    simp only [hpre, List.length_append, List.length_replicate, List.length_singleton, hlen]
    omega
  have hlow := writeAt_zeros pre (ts64 (UInt64.ofNat m.length <<< 3)) (j := 0)
    (k := 255 - r - z - 1) (by rw [hword]; omega)
  rw [Nat.add_zero, hprelen, List.replicate_zero, List.append_nil] at hlow
  have hzeros : (128 - (m.length + 1 + 16) % 128) % 128 + 7 = z := by
    show (128 - (m.length + 1 + 16) % 128) % 128 + 7 = z
    have hrdef : r = m.length % 128 := rfl
    split_ifs at hn <;> omega
  rw [hhigh, hlow, List.take_left' (by rw [List.length_append, hword, hprelen]; omega), hpre,
    padding, lengthField_eq hm, ← hzeros, List.replicate_add]
  simp only [List.append_assoc, List.cons_append, List.nil_append]

/-- **SHA-512.** The code hashes a message of any length that its argument can hold to the
hash of the padded message, with a schedule of eighty words. -/
theorem cryptoHash_spec {m : Bytes} (hm : m.length < 2 ^ 64) :
    cryptoHash m = digest sha512 m := by
  have hiv : iv = sha512.start.toList.flatMap ts64 := by decide +kernel
  have hstore : ts64 = fun w => BigEndian.bytes 8 w.toNat := funext ts64_eq
  rw [cryptoHash, hiv]
  simp only [lastBlocks_eq hm]
  rw [cryptoHashblocks_spec, cryptoHashblocks_spec, ← absorb_padded (by decide)]
  simp only [hstore]
  rfl

/-! ### SHA-256 -/

/-- The array of the schedule. -/
theorem scheduleWords_spec (m : ℕ → UInt32) {w : List UInt32} (hlen : w.length = 16)
    (hw : ∀ j < 16, wordAt w j = m j) (k : ℕ) :
    (((List.range k).map (· + 16)).foldl scheduleWord w).length = 16 + k ∧ ∀ j < 16 + k,
      wordAt (((List.range k).map (· + 16)).foldl scheduleWord w) j = schedule sha256 m j := by
  induction k with
  | zero => exact ⟨hlen, fun j hj => by rw [schedule_of_lt _ hj]; exact hw j hj⟩
  | succ k ih =>
    obtain ⟨hlen', hw'⟩ := ih
    rw [List.range_succ, List.map_append, List.foldl_append, List.map_singleton,
      List.foldl_cons, List.foldl_nil]
    set u := ((List.range k).map (· + 16)).foldl scheduleWord w
    refine ⟨by rw [scheduleWord, List.length_append, hlen']; rfl, fun j hj => ?_⟩
    by_cases hlast : j < 16 + k
    · rw [← hw' j hlast, scheduleWord, wordAt, List.getD_append _ _ _ _ (by omega), wordAt]
    · obtain rfl : j = k + 16 := by omega
      rw [scheduleWord, wordAt, List.getD_append_right _ _ _ _ (by omega), hlen',
        show k + 16 - (16 + k) = 0 by omega, List.getD_cons_zero, hw' _ (by omega),
        hw' _ (by omega), hw' _ (by omega), hw' _ (by omega), schedule_add,
        show k + 16 - 2 = k + 14 by omega, show k + 16 - 7 = k + 9 by omega,
        show k + 16 - 15 = k + 1 by omega, Nat.add_sub_cancel]
      rfl

theorem sha256Rounds_spec {m : ℕ → UInt32} {w : List UInt32} (s : Words UInt32) {n : ℕ}
    (hw : ∀ j < n, wordAt w j = schedule sha256 m j) :
    (List.range n).foldl (sha256Round w) s = mix sha256 m s n := by
  induction n with
  | zero => rfl
  | succ n ih =>
    rw [List.range_succ, List.foldl_append, List.foldl_cons, List.foldl_nil,
      ih fun j hj => hw j (by omega), mix, ← hw n (Nat.lt_succ_self n)]
    rfl

/-- **A block of SHA-256.** -/
theorem sha256Block_spec (S : Words UInt32) {m : Bytes} (hm : 64 ≤ m.length) :
    sha256Block S m = compress sha256 S (m.take 64) := by
  have hwords : ∀ j < 16,
      wordAt ((List.range 16).map fun i => sha256Load32 (m.drop (4 * i))) j =
        Sha2.word sha256 (m.take 64) j := fun j hj => by
    rw [wordAt_map_range _ hj, sha256Load32_eq (by rw [List.length_drop]; omega)]
    exact congrArg (fun x => UInt32.ofNat (BigEndian.number x))
      (take_drop_take m (by omega)).symm
  obtain ⟨-, hschedule⟩ := scheduleWords_spec _ (by simp) hwords 48
  rw [sha256Block]
  simp only [sha256Rounds_spec S hschedule]
  simp only [compress, Words.add, UInt32.add_comm]
  rfl

theorem sha256Loop_spec (S : Words UInt32) (m : Bytes) :
    sha256Loop S m = absorb 64 (compress sha256) S m := by
  induction hlen : m.length using Nat.strong_induction_on generalizing m S with
  | _ n ih =>
    rw [sha256Loop]
    by_cases h : 64 ≤ m.length
    · rw [dif_pos h, absorb_of_le (by decide) h, sha256Block_spec S h]
      exact ih _ (by rw [List.length_drop]; omega) _ _ rfl
    · rw [dif_neg h, absorb_of_lt (by omega)]

theorem cryptoHashblocksSha256Tweet_spec (S : Words UInt32) (m : Bytes) :
    cryptoHashblocksSha256Tweet (S.toList.flatMap sha256Store32) m =
      (absorb 64 (compress sha256) S m).toList.flatMap sha256Store32 := by
  have hread : ∀ i < 8, sha256Load32 ((S.toList.flatMap sha256Store32).drop (4 * i)) =
      wordAt S.toList i := fun i hi =>
    load_flatMap (show ∀ w, (sha256Store32 w).length = 4 from fun _ => rfl)
      sha256Load32_store32 hi
  have hstate : sha256State (S.toList.flatMap sha256Store32) = S := by
    simp only [sha256State, hread 0 (by decide), hread 1 (by decide), hread 2 (by decide),
      hread 3 (by decide), hread 4 (by decide), hread 5 (by decide), hread 6 (by decide),
      hread 7 (by decide)]
    rfl
  rw [cryptoHashblocksSha256Tweet, hstate, sha256Loop_spec]

/-- The length field of SHA-256. -/
theorem sha256Bits_eq (n : ℕ) : sha256Bits (UInt64.ofNat n * 8) = BigEndian.bytes 8 (8 * n) := by
  have hbits : ∀ u, sha256Bits u = ts64 u := fun u =>
    List.map_congr_left fun i hi => by
      have := List.mem_range.mp hi
      rw [show 56 - 8 * i = 8 * (7 - i) by omega]
  rw [hbits, ts64_eq, UInt64.toNat_mul, UInt64.toNat_ofNat', Nat.mod_mul_mod,
    show 2 ^ 64 = 256 ^ 8 by norm_num, BigEndian.bytes_mod, Nat.mul_comm]
  rfl

/-- The last one or two blocks of SHA-256, of `n` bytes. -/
theorem sha256LastBlocks_eq {m : Bytes} {n : ℕ} (hn : n = if m.length % 64 < 56 then 64 else 128) :
    (writeAt ((writeAt (List.replicate 128 0) 0 (m.drop (m.length - m.length % 64))).set
      (m.length % 64) 0x80) (n - 8) (sha256Bits (UInt64.ofNat m.length * 8))).take n =
        m.drop (m.length - m.length % 64) ++ padding 64 8 m.length := by
  set tail := m.drop (m.length - m.length % 64) with htail
  have hlen : tail.length = m.length % 64 := length_tail m 64
  have hr : m.length % 64 < 64 := Nat.mod_lt _ (by decide)
  have hfield : (sha256Bits (UInt64.ofNat m.length * 8)).length = 8 := by
    rw [sha256Bits_eq, BigEndian.length_bytes]
  have hmarked := marked_eq tail (n := 128) (by omega) 0x80
  have hzeros : m.length % 64 + 1 + (64 - (m.length + 1 + 8) % 64) % 64 + 8 = n := by
    split_ifs at hn <;> omega
  set z := (64 - (m.length + 1 + 8) % 64) % 64 with hz
  have hle : n ≤ 128 := by split_ifs at hn <;> omega
  have hwrite := writeAt_zeros (tail ++ [0x80]) (sha256Bits (UInt64.ofNat m.length * 8)) (j := z)
    (k := 128 - tail.length - 1) (by rw [hfield, hlen]; omega)
  have hpos : (tail ++ [0x80]).length + z = n - 8 := by
    rw [List.length_append, hlen, List.length_singleton]
    omega
  rw [hpos] at hwrite
  rw [← hlen, hmarked, hwrite, List.take_left' (by
    rw [List.length_append, List.length_append, List.length_append, List.length_replicate, hfield,
      hlen, List.length_singleton]
    omega), padding, ← hz, ← sha256Bits_eq]
  simp only [List.append_assoc, List.cons_append, List.nil_append]

/-- **SHA-256.** -/
theorem cryptoHashSha256Tweet_spec (m : Bytes) :
    cryptoHashSha256Tweet m = digest sha256 m := by
  have hiv : sha256Iv = sha256.start.toList.flatMap sha256Store32 := by decide +kernel
  have hstore : sha256Store32 = fun w => BigEndian.bytes 4 w.toNat := funext sha256Store32_eq
  have hfinish : ∀ x, x = m.drop (m.length - m.length % 64) ++ padding 64 8 m.length →
      cryptoHashblocksSha256Tweet (cryptoHashblocksSha256Tweet sha256Iv m) x =
        digest sha256 m := by
    rintro x rfl
    rw [hiv, cryptoHashblocksSha256Tweet_spec, cryptoHashblocksSha256Tweet_spec,
      ← absorb_padded (by decide)]
    simp only [hstore]
    rfl
  rw [cryptoHashSha256Tweet]
  by_cases h : m.length % 64 < 56
  · exact (if_pos h).trans (hfinish _ (sha256LastBlocks_eq (if_pos h).symm))
  · exact (if_neg h).trans (hfinish _ (sha256LastBlocks_eq (if_neg h).symm))

/-- **The vendored hashes are members of the family**: SHA-256 for every message, and SHA-512 as
long as the code can count its bits. -/
theorem hashes_spec (m : Bytes) :
    cryptoHashSha256Tweet m = digest sha256 m ∧
      (m.length < 2 ^ 64 → cryptoHash m = digest sha512 m) :=
  ⟨cryptoHashSha256Tweet_spec m, cryptoHash_spec⟩

theorem hashes_spec_nil :
    cryptoHashSha256Tweet [] = digest sha256 [] ∧ cryptoHash [] = digest sha512 [] :=
  ⟨(hashes_spec []).1, (hashes_spec []).2 (by decide)⟩

end TweetNacl

end Llamaste
