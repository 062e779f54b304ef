import Mathlib

/-!
# Byte images

A medium or a block of memory as the bytes at its offsets. A write replaces a range and leaves
everything else as it was, so what is read after some writes is found range by range. Numbers are
stored low byte first.

## Main results

* `ByteImage.le_write_self`: a number that was written is read back.
* `ByteImage.le_write_of_disjoint`: a number outside of what was written is left.
-/

/-- The bytes of a medium by their offsets. -/
abbrev ByteImage := ℕ → UInt8

namespace ByteImage

/-- A medium that was never written. -/
def blank : ByteImage := fun _ => 0

/-- The bytes from an offset on. -/
def drop (img : ByteImage) (off : ℕ) : ByteImage := fun i => img (off + i)

/-- The image after `len` bytes of a buffer were written at an offset. -/
def write (img : ByteImage) (off len : ℕ) (buf : ByteImage) : ByteImage := fun i =>
  if off ≤ i ∧ i < off + len then buf (i - off) else img i

/-- The number in `n` bytes at an offset, low byte first. -/
def le (img : ByteImage) (off : ℕ) : ℕ → ℕ
  | 0 => 0
  | n + 1 => (img off).toNat + 256 * le img (off + 1) n

/-- The bytes of a number, low byte first. -/
def leBytes (v : ℕ) : ByteImage := fun i => UInt8.ofNat (v / 256 ^ i)

/-- The image with a number in `n` bytes at an offset. -/
def put (img : ByteImage) (off n v : ℕ) : ByteImage := img.write off n (leBytes v)

variable {img other buf : ByteImage} {off len i n v : ℕ}

@[simp] theorem drop_apply (img : ByteImage) (off i : ℕ) : img.drop off i = img (off + i) := rfl

theorem write_of_mem (h : off ≤ i ∧ i < off + len) : img.write off len buf i = buf (i - off) :=
  if_pos h

theorem write_of_not_mem (h : i < off ∨ off + len ≤ i) : img.write off len buf i = img i :=
  if_neg fun hmem => by omega

/-- What was written is read back. -/
theorem write_add (h : i < len) : img.write off len buf (off + i) = buf i := by
  rw [write_of_mem ⟨Nat.le_add_right _ _, Nat.add_lt_add_left h _⟩, Nat.add_sub_cancel_left]

theorem write_congr {buf' : ByteImage} (h : ∀ i < len, buf i = buf' i) :
    img.write off len buf = img.write off len buf' := by
  funext i
  by_cases hi : off ≤ i ∧ i < off + len
  · rw [write_of_mem hi, write_of_mem hi, h _ (by omega)]
  · rw [write_of_not_mem (by omega), write_of_not_mem (by omega)]

/-- A write depends on the image at each offset only. -/
theorem put_congr {m : ℕ} (h : ∀ i < m, img i = other i) :
    ∀ i < m, img.put off n v i = other.put off n v i := by
  intro i hi
  by_cases hmem : off ≤ i ∧ i < off + n
  · rw [put, put, write_of_mem hmem, write_of_mem hmem]
  · rw [put, put, write_of_not_mem (by omega), write_of_not_mem (by omega), h i hi]

/-- What a byte is after a write depends on that byte. -/
theorem write_apply_congr (h : img i = other i) :
    img.write off len buf i = other.write off len buf i := by
  by_cases hi : off ≤ i ∧ i < off + len
  · rw [write_of_mem hi, write_of_mem hi]
  · rw [write_of_not_mem (by omega), write_of_not_mem (by omega), h]

/-- A second write to the same place is the one that counts. -/
theorem write_write {buf' : ByteImage} :
    (img.write off len buf).write off len buf' = img.write off len buf' := by
  funext i
  by_cases hi : off ≤ i ∧ i < off + len
  · rw [write_of_mem hi, write_of_mem hi]
  · rw [write_of_not_mem (by omega), write_of_not_mem (by omega), write_of_not_mem (by omega)]

/-- Writing what is there changes nothing. -/
theorem write_self (h : ∀ i < len, buf i = img (off + i)) : img.write off len buf = img := by
  funext i
  by_cases hi : off ≤ i ∧ i < off + len
  · rw [write_of_mem hi, h _ (by omega), Nat.add_sub_cancel' hi.1]
  · exact write_of_not_mem (by omega)

/-! ### Numbers -/

theorem le_congr {off' : ℕ} (h : ∀ i < n, img (off + i) = other (off' + i)) :
    img.le off n = other.le off' n := by
  induction n generalizing off off' with
  | zero => rfl
  | succ n ih =>
    have hfirst : img off = other off' := h 0 (Nat.succ_pos n)
    have hrest : img.le (off + 1) n = other.le (off' + 1) n := ih fun i hi => by
      have hi' := h (i + 1) (Nat.succ_lt_succ hi)
      rwa [← Nat.add_assoc, ← Nat.add_assoc, Nat.add_right_comm off, Nat.add_right_comm off'] at hi'
    rw [le, le, hfirst, hrest]

theorem le_lt (img : ByteImage) (off n : ℕ) : img.le off n < 256 ^ n := by
  induction n generalizing off with
  | zero => exact Nat.one_pos
  | succ n ih =>
    have hbyte : (img off).toNat < 256 := (img off).toNat_lt
    have hrest := ih (off + 1)
    rw [le, pow_succ]
    omega

/-- The bytes of a number make it up, as far as they go. -/
theorem le_leBytes (v n : ℕ) : (leBytes v).le 0 n = v % 256 ^ n := by
  have hshift (k m : ℕ) : (leBytes v).le k m = v / 256 ^ k % 256 ^ m := by
    induction m generalizing k with
    | zero => exact (Nat.mod_one _).symm
    | succ m ih =>
      have hbyte : (leBytes v k).toNat = v / 256 ^ k % 256 := UInt8.toNat_ofNat'
      have hdiv : v / 256 ^ (k + 1) = v / 256 ^ k / 256 := by
        rw [pow_succ, Nat.div_div_eq_div_mul]
      rw [le, ih, hbyte, hdiv, pow_succ', Nat.mod_mul]
  have h := hshift 0 n
  rwa [pow_zero, Nat.div_one] at h

/-- A number that was written is read back. -/
theorem le_put_self (hv : v < 256 ^ n) : (img.put off n v).le off n = v := by
  have h : (img.put off n v).le off n = (leBytes v).le 0 n := le_congr fun i hi => by
    rw [put, write_add hi, Nat.zero_add]
  rw [h, le_leBytes, Nat.mod_eq_of_lt hv]

/-- A number outside of what was written is left. -/
theorem le_write_of_disjoint {j : ℕ} (h : j + n ≤ off ∨ off + len ≤ j) :
    (img.write off len buf).le j n = img.le j n :=
  le_congr fun i hi => write_of_not_mem (by omega)

theorem le_put_of_disjoint {j m : ℕ} (h : j + n ≤ off ∨ off + m ≤ j) :
    (img.put off m v).le j n = img.le j n := le_write_of_disjoint h

/-- Bytes that make up the same number are the same. -/
theorem eq_of_le_eq {off' : ℕ} (h : img.le off n = other.le off' n) :
    ∀ i < n, img (off + i) = other (off' + i) := by
  induction n generalizing off off' with
  | zero => exact fun i hi => absurd hi (Nat.not_lt_zero i)
  | succ n ih =>
    have ha : (img off).toNat < 256 := (img off).toNat_lt
    have hb : (other off').toNat < 256 := (other off').toNat_lt
    rw [le, le] at h
    intro i hi
    cases i with
    | zero => exact UInt8.toNat_inj.mp (show (img off).toNat = (other off').toNat by omega)
    | succ i =>
      have htail : img.le (off + 1) n = other.le (off' + 1) n := by omega
      have hrest := ih htail i (by omega)
      rwa [Nat.add_right_comm off, Nat.add_right_comm off'] at hrest

end ByteImage
