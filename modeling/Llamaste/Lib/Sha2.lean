import Llamaste.Lib.Limbs

/-!
# A family of hashes

A hash pads its message to whole blocks, with its length at the end, and feeds them one by
one to a compression function. The compression of this family spreads sixteen words of a
block to a schedule and mixes them into eight words of state, a word a round.

## Main results

* `Sha2.absorb_append`: blocks that come in two parts.
* `Sha2.absorb_incomplete`: an incomplete block at the end is not fed.
-/

namespace Sha2

/-! ### Blocks -/

section Absorb

variable {σ : Type}

/-- Feeds the complete blocks of `n` bytes. -/
def absorb (n : ℕ) (f : σ → Bytes → σ) (s : σ) (m : Bytes) : σ :=
  if _ : 0 < n ∧ n ≤ m.length then absorb n f (f s (m.take n)) (m.drop n) else s
  termination_by m.length
  decreasing_by
    rw [List.length_drop]
    omega

variable {n : ℕ} {f : σ → Bytes → σ}

theorem absorb_of_lt {m : Bytes} (h : m.length < n) (s : σ) : absorb n f s m = s := by
  rw [absorb, dif_neg fun h' => absurd h'.2 (by omega)]

theorem absorb_of_le {m : Bytes} (hn : 0 < n) (h : n ≤ m.length) (s : σ) :
    absorb n f s m = absorb n f (f s (m.take n)) (m.drop n) := by
  rw [absorb, dif_pos ⟨hn, h⟩]

/-- **Whole blocks can be fed first.** -/
theorem absorb_append (hn : 0 < n) {k : ℕ} {xs : Bytes} (hxs : xs.length = n * k) (ys : Bytes)
    (s : σ) : absorb n f s (xs ++ ys) = absorb n f (absorb n f s xs) ys := by
  induction k generalizing xs s with
  | zero =>
    obtain rfl : xs = [] := List.length_eq_zero_iff.mp hxs
    rw [absorb_of_lt (show ([] : Bytes).length < n from hn), List.nil_append]
  | succ k ih =>
    rw [Nat.mul_succ] at hxs
    have hle : n ≤ xs.length := by omega
    have hle' : n ≤ (xs ++ ys).length := by
      rw [List.length_append]
      omega
    rw [absorb_of_le hn hle', absorb_of_le hn hle, List.take_append_of_le_length hle,
      List.drop_append_of_le_length hle]
    exact ih (by rw [List.length_drop, hxs, Nat.add_sub_cancel]) _

/-- An incomplete block at the end is not fed. -/
theorem absorb_incomplete (hn : 0 < n) (m : Bytes) (s : σ) :
    absorb n f s m = absorb n f s (m.take (m.length - m.length % n)) := by
  have hlen : (m.take (m.length - m.length % n)).length = n * (m.length / n) := by
    rw [List.length_take, Nat.min_eq_left (Nat.sub_le _ _)]
    have := Nat.div_add_mod m.length n
    omega
  have htail : (m.drop (m.length - m.length % n)).length < n := by
    rw [List.length_drop]
    have := Nat.mod_lt m.length hn
    have := Nat.mod_le m.length n
    omega
  conv_lhs => rw [← List.take_append_drop (m.length - m.length % n) m]
  rw [absorb_append hn hlen, absorb_of_lt htail]

end Absorb

/-! ### Padding -/

/-- Behind a message of `len` bytes: a set bit, zeros up to the end of a block of `block`
bytes, and there the length in bits, in `field` bytes. -/
def padding (block field len : ℕ) : Bytes :=
  0x80 :: List.replicate ((block - (len + 1 + field) % block) % block) 0 ++
    BigEndian.bytes field (8 * len)

/-! ### Compressing -/

/-- The eight words of a state. -/
@[ext] structure Words (W : Type) where
  a : W
  b : W
  c : W
  d : W
  e : W
  f : W
  g : W
  h : W

/-- What the members of the family differ in. -/
structure Family (W : Type) where
  width : ℕ
  rounds : ℕ
  ofNat : ℕ → W
  toNat : W → ℕ
  ch : W → W → W → W
  maj : W → W → W → W
  bigSigma0 : W → W
  bigSigma1 : W → W
  smallSigma0 : W → W
  smallSigma1 : W → W
  constant : ℕ → W
  start : Words W

variable {W : Type} [Add W] (p : Family W)

/-- The schedule that sixteen words begin. -/
def schedule (m : ℕ → W) (i : ℕ) : W :=
  if i < 16 then m i
  else p.smallSigma1 (schedule m (i - 2)) + schedule m (i - 7) +
    p.smallSigma0 (schedule m (i - 15)) + schedule m (i - 16)
  termination_by i

theorem schedule_of_lt {m : ℕ → W} {i : ℕ} (hi : i < 16) : schedule p m i = m i := by
  rw [schedule, if_pos hi]

theorem schedule_add (m : ℕ → W) (i : ℕ) :
    schedule p m (i + 16) = p.smallSigma1 (schedule p m (i + 14)) + schedule p m (i + 9) +
      p.smallSigma0 (schedule p m (i + 1)) + schedule p m i := by
  rw [schedule, if_neg (by omega)]
  simp only [show i + 16 - 2 = i + 14 by omega, show i + 16 - 7 = i + 9 by omega,
    show i + 16 - 15 = i + 1 by omega, show i + 16 - 16 = i by omega]

/-- A round, with the constant `k` and the word `w`. -/
def step (k w : W) (s : Words W) : Words W :=
  let t₁ := s.h + p.bigSigma1 s.e + p.ch s.e s.f s.g + k + w
  let t₂ := p.bigSigma0 s.a + p.maj s.a s.b s.c
  ⟨t₁ + t₂, s.a, s.b, s.c, s.d + t₁, s.e, s.f, s.g⟩

/-- The first `n` rounds. -/
def mix (m : ℕ → W) (s : Words W) : ℕ → Words W
  | 0 => s
  | n + 1 => step p (p.constant n) (schedule p m n) (mix m s n)

/-- The sums of the words. -/
def Words.add (s t : Words W) : Words W :=
  ⟨s.a + t.a, s.b + t.b, s.c + t.c, s.d + t.d, s.e + t.e, s.f + t.f, s.g + t.g, s.h + t.h⟩

/-- Word `i` of a block. -/
def word (block : Bytes) (i : ℕ) : W :=
  p.ofNat (BigEndian.number ((block.drop (p.width * i)).take p.width))

/-- The compression function. -/
def compress (s : Words W) (block : Bytes) : Words W :=
  (mix p (word p block) s p.rounds).add s

/-- The words in a row. -/
def Words.toList {W : Type} (s : Words W) : List W := [s.a, s.b, s.c, s.d, s.e, s.f, s.g, s.h]

/-- **The hash of a message.** The length field has two words. -/
def digest (m : Bytes) : Bytes :=
  (absorb (16 * p.width) (compress p) p.start
    (m ++ padding (16 * p.width) (2 * p.width) m.length)).toList.flatMap fun w =>
      BigEndian.bytes p.width (p.toNat w)

end Sha2
