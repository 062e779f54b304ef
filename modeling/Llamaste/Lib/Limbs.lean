import Llamaste.Lib.CInt
import Llamaste.Lib.Text

/-!
# Numbers kept in limbs

Multi-precision arithmetic keeps a number in an array of machine integers, its limbs, of
which each stands for itself times a power of two. The limbs are signed and need not be
smaller than the radix. A loop over such an array is a fold in which a step may be
undefined, because a signed computation overflows.

## Main results

* `Loop.up_spec`, `Loop.down_spec`: a loop whose steps keep an invariant is defined, and
  the invariant holds behind it.
* `Limbs.value_set`: what the assignment of one limb does to the number.
* `Limbs.value_eq_sum`: the number as a sum over the indices.
* `LittleEndian.number_bytes`, `LittleEndian.bytes_number`: numbers and their bytes.
-/

namespace CInt

/-- A computation in `int64_t`, undefined where its exact result does not fit. -/
def i64 (n : ℤ) : Option ℤ := if FitsInt64 n then some n else none

theorem i64_of_fits {n : ℤ} (h : FitsInt64 n) : i64 n = some n := if_pos h

theorem i64_of_abs_le {n b : ℤ} (h : |n| ≤ b) (hb : b < 2 ^ 63) : i64 n = some n := by
  have hn := abs_le.mp h
  exact i64_of_fits ⟨by omega, by omega⟩

/-- A conversion to the type keeps a number that fits. -/
theorem toInt64_of_fits {n : ℤ} (h : FitsInt64 n) : toInt64 n = n := by
  unfold FitsInt64 at h
  unfold toInt64
  omega

end CInt

namespace Loop

variable {σ : Type*}

/-- `for (i = 0; i < n; ++i)`, with a body that may be undefined. -/
def up (n : ℕ) (body : ℕ → σ → Option σ) (s : σ) : Option σ :=
  (List.range n).foldlM (fun s i => body i s) s

/-- `for (i = n - 1; i >= 0; --i)`, with a body that may be undefined. -/
def down (body : ℕ → σ → Option σ) : ℕ → σ → Option σ
  | 0, s => some s
  | n + 1, s => body n s >>= down body n

/-- A computation goes on with the result of its first step. -/
theorem bind_of {α β : Type} {x : Option α} {f : α → Option β} {a : α} {b : Option β}
    (hx : x = some a) (hf : f a = b) : (x >>= f) = b := by
  rw [hx]
  exact hf

theorem up_succ (n : ℕ) (body : ℕ → σ → Option σ) (s : σ) :
    up (n + 1) body s = up n body s >>= body n := by
  rw [up, List.range_succ, List.foldlM_append]
  simp only [up, List.foldlM_cons, List.foldlM_nil, bind_pure]

/-- **Upward loops.** What holds before the first round and is kept by every round holds
behind the loop, which is defined when its rounds are. -/
theorem up_spec {P : ℕ → σ → Prop} {n : ℕ} {body : ℕ → σ → Option σ} {s : σ} (h0 : P 0 s)
    (hstep : ∀ i s, i < n → P i s → ∃ s', body i s = some s' ∧ P (i + 1) s') :
    ∃ s', up n body s = some s' ∧ P n s' := by
  induction n with
  | zero => exact ⟨s, rfl, h0⟩
  | succ n ih =>
    obtain ⟨t, ht, hP⟩ := ih fun i s hi => hstep i s (Nat.lt_succ_of_lt hi)
    obtain ⟨u, hu, hQ⟩ := hstep n t (Nat.lt_succ_self n) hP
    exact ⟨u, by rw [up_succ, ht]; exact hu, hQ⟩

/-- **Downward loops.** The same, for an invariant of the rounds that are left. -/
theorem down_spec {P : ℕ → σ → Prop} {body : ℕ → σ → Option σ} {n : ℕ} {s : σ} (hn : P n s)
    (hstep : ∀ i s, i < n → P (i + 1) s → ∃ s', body i s = some s' ∧ P i s') :
    ∃ s', down body n s = some s' ∧ P 0 s' := by
  induction n generalizing s with
  | zero => exact ⟨s, rfl, hn⟩
  | succ n ih =>
    obtain ⟨t, ht, hP⟩ := hstep n s (Nat.lt_succ_self n) hn
    obtain ⟨u, hu, hQ⟩ := ih hP fun i s hi => hstep i s (Nat.lt_succ_of_lt hi)
    exact ⟨u, by rw [down, ht]; exact hu, hQ⟩

end Loop

namespace Limbs

variable {w : ℕ}

/-- `a[i]`. -/
def get (a : List ℤ) (i : ℕ) : ℤ := a.getD i 0

/-- `FOR(i,n) o[i] = f(i)`, where a computation may be undefined. -/
def tabulate (n : ℕ) (f : ℕ → Option ℤ) : Option (List ℤ) := (List.range n).mapM f

/-- The number that limbs stand for. -/
def value (w : ℕ) : List ℤ → ℤ
  | [] => 0
  | x :: xs => x + 2 ^ w * value w xs

@[simp] theorem value_nil : value w [] = 0 := rfl

@[simp] theorem value_cons (x : ℤ) (xs : List ℤ) :
    value w (x :: xs) = x + 2 ^ w * value w xs := rfl

@[simp] theorem get_cons_zero (x : ℤ) (xs : List ℤ) : get (x :: xs) 0 = x := rfl

@[simp] theorem get_cons_succ (x : ℤ) (xs : List ℤ) (i : ℕ) :
    get (x :: xs) (i + 1) = get xs i := rfl

theorem get_set {a : List ℤ} {i : ℕ} (hi : i < a.length) (v : ℤ) (k : ℕ) :
    get (a.set i v) k = if k = i then v else get a k := by
  rw [get, List.getD_eq_getElem?_getD, List.getElem?_set]
  by_cases h : i = k
  · subst h
    simp [hi]
  · simp [h, Ne.symm h, get]

/-- The assignment of one limb. -/
theorem value_set {a : List ℤ} {i : ℕ} (hi : i < a.length) (v : ℤ) :
    value w (a.set i v) = value w a + (v - get a i) * 2 ^ (w * i) := by
  induction a generalizing i with
  | nil => exact absurd hi (Nat.not_lt_zero i)
  | cons x xs ih =>
    cases i with
    | zero =>
      rw [List.set_cons_zero, value_cons, value_cons, get_cons_zero, Nat.mul_zero]
      ring
    | succ i =>
      rw [List.set_cons_succ, value_cons, value_cons, get_cons_succ,
        ih (Nat.lt_of_succ_lt_succ hi), Nat.mul_succ, pow_add]
      ring

theorem value_append (a b : List ℤ) :
    value w (a ++ b) = value w a + 2 ^ (w * a.length) * value w b := by
  induction a with
  | nil => simp
  | cons x xs ih =>
    rw [List.cons_append, value_cons, value_cons, ih, List.length_cons, Nat.mul_succ, pow_add]
    ring

theorem value_replicate_zero (n : ℕ) : value w (List.replicate n 0) = 0 := by
  induction n with
  | zero => rfl
  | succ n ih => rw [List.replicate_succ, value_cons, ih]; ring

theorem get_replicate_zero (n i : ℕ) : get (List.replicate n 0) i = 0 := by
  rw [get, List.getD_eq_getElem?_getD, List.getElem?_replicate]
  split <;> rfl

theorem get_take {a : List ℤ} {n i : ℕ} (hi : i < n) : get (a.take n) i = get a i := by
  rw [get, get, List.getD_eq_getElem?_getD, List.getElem?_take_of_lt hi,
    ← List.getD_eq_getElem?_getD]

theorem get_mem {a : List ℤ} {i : ℕ} (hi : i < a.length) : get a i ∈ a := by
  rw [get, List.getD_eq_getElem a 0 hi]
  exact List.getElem_mem hi

theorem exists_get_of_mem {a : List ℤ} {x : ℤ} (hx : x ∈ a) : ∃ i < a.length, get a i = x := by
  obtain ⟨i, hi, h⟩ := List.mem_iff_getElem.mp hx
  exact ⟨i, hi, by rw [get, List.getD_eq_getElem a 0 hi, h]⟩

/-- **The number as a sum over the indices.** -/
theorem value_eq_sum (a : List ℤ) :
    value w a = ∑ i ∈ Finset.range a.length, get a i * 2 ^ (w * i) := by
  induction a with
  | nil => rfl
  | cons x xs ih =>
    rw [value_cons, ih, List.length_cons, Finset.sum_range_succ', Finset.mul_sum, add_comm]
    congr 1
    · refine Finset.sum_congr rfl fun i _ => ?_
      rw [get_cons_succ, Nat.mul_succ, pow_add]
      ring
    · simp

theorem get_drop (a : List ℤ) (n i : ℕ) : get (a.drop n) i = get a (i + n) := by
  rw [get, get, List.getD_eq_getElem?_getD, List.getD_eq_getElem?_getD, List.getElem?_drop,
    Nat.add_comm]

/-- Limbs that are zero add nothing. -/
theorem value_take_of_zero {a : List ℤ} {n : ℕ} (h : ∀ k, n ≤ k → get a k = 0) :
    value w (a.take n) = value w a := by
  have hdrop : value w (a.drop n) = 0 := by
    rw [value_eq_sum]
    refine Finset.sum_eq_zero fun i _ => ?_
    rw [get_drop, h _ (Nat.le_add_left n i), zero_mul]
  conv_rhs => rw [← List.take_append_drop n a]
  rw [value_append, hdrop, mul_zero, add_zero]

/-- One limb more. -/
theorem value_take_succ (a : List ℤ) (i : ℕ) :
    value w (a.take (i + 1)) = value w (a.take i) + get a i * 2 ^ (w * i) := by
  induction a generalizing i with
  | nil => simp [get]
  | cons x xs ih =>
    cases i with
    | zero => simp
    | succ i =>
      rw [List.take_succ_cons, List.take_succ_cons, value_cons, value_cons, ih, get_cons_succ,
        Nat.mul_succ, pow_add]
      ring

/-- Limbs that are digits stand for a number below the next power of the radix. -/
theorem value_of_digits {a : List ℤ} (h : ∀ x ∈ a, 0 ≤ x ∧ x < 2 ^ w) :
    0 ≤ value w a ∧ value w a < 2 ^ (w * a.length) := by
  induction a with
  | nil => simp
  | cons x xs ih =>
    obtain ⟨hx0, hx⟩ := h x List.mem_cons_self
    obtain ⟨h0, hlt⟩ := ih fun y hy => h y (List.mem_cons_of_mem x hy)
    have hpos : (0 : ℤ) < 2 ^ w := by positivity
    rw [value_cons, List.length_cons, Nat.mul_succ, pow_add]
    constructor
    · positivity
    · calc x + 2 ^ w * value w xs < 2 ^ w + 2 ^ w * value w xs := by omega
        _ = 2 ^ w * (value w xs + 1) := by ring
        _ ≤ 2 ^ w * 2 ^ (w * xs.length) := mul_le_mul_of_nonneg_left hlt hpos.le
        _ = 2 ^ (w * xs.length) * 2 ^ w := mul_comm _ _

/-- A bound on the limbs bounds the number. -/
theorem abs_value_le {a : List ℤ} {b : ℤ} (h : ∀ x ∈ a, |x| ≤ b) :
    (2 ^ w - 1) * |value w a| ≤ b * (2 ^ (w * a.length) - 1) := by
  induction a with
  | nil => simp
  | cons x xs ih =>
    have hx : |x| ≤ b := h x List.mem_cons_self
    have hxs := ih fun y hy => h y (List.mem_cons_of_mem x hy)
    have hone : (1 : ℤ) ≤ 2 ^ w := one_le_pow₀ one_le_two
    have hpos : (0 : ℤ) ≤ 2 ^ w - 1 := by omega
    rw [value_cons, List.length_cons, Nat.mul_succ, pow_add]
    calc (2 ^ w - 1) * |x + 2 ^ w * value w xs|
        ≤ (2 ^ w - 1) * (|x| + 2 ^ w * |value w xs|) := by
          refine mul_le_mul_of_nonneg_left ((abs_add_le _ _).trans_eq ?_) hpos
          rw [abs_mul, abs_of_nonneg (show (0 : ℤ) ≤ 2 ^ w by positivity)]
      _ = (2 ^ w - 1) * |x| + 2 ^ w * ((2 ^ w - 1) * |value w xs|) := by ring
      _ ≤ (2 ^ w - 1) * b + 2 ^ w * (b * (2 ^ (w * xs.length) - 1)) := by gcongr
      _ = b * (2 ^ (w * xs.length) * 2 ^ w - 1) := by ring

/-! ### Arrays that are written from front to back -/

theorem mapM_eq_some {f : ℕ → Option ℤ} {g : ℕ → ℤ} {l : List ℕ} (h : ∀ i ∈ l, f i = some (g i)) :
    l.mapM f = some (l.map g) := by
  induction l with
  | nil => rfl
  | cons i l ih =>
    rw [List.mapM_cons, h i List.mem_cons_self, ih fun j hj => h j (List.mem_cons_of_mem i hj)]
    rfl

theorem tabulate_eq {n : ℕ} {f : ℕ → Option ℤ} {g : ℕ → ℤ} (h : ∀ i < n, f i = some (g i)) :
    tabulate n f = some ((List.range n).map g) :=
  mapM_eq_some fun i hi => h i (List.mem_range.mp hi)

theorem get_map_range {g : ℕ → ℤ} {n i : ℕ} (hi : i < n) : get ((List.range n).map g) i = g i := by
  rw [get, List.getD_eq_getElem _ _ (by simpa using hi)]
  simp

theorem value_map_range (g : ℕ → ℤ) (n : ℕ) :
    value w ((List.range n).map g) = ∑ i ∈ Finset.range n, g i * 2 ^ (w * i) := by
  rw [value_eq_sum, List.length_map, List.length_range]
  exact Finset.sum_congr rfl fun i hi => by rw [get_map_range (Finset.mem_range.mp hi)]

end Limbs

namespace LittleEndian

/-- The number that little-endian bytes stand for. -/
def number : Bytes → ℕ
  | [] => 0
  | b :: bs => b.toNat + 256 * number bs

/-- The lowest `n` little-endian bytes of a number. -/
def bytes : ℕ → ℕ → Bytes
  | 0, _ => []
  | n + 1, v => UInt8.ofNat v :: bytes n (v / 256)

@[simp] theorem length_bytes (n v : ℕ) : (bytes n v).length = n := by
  induction n generalizing v with
  | zero => rfl
  | succ n ih => rw [bytes, List.length_cons, ih]

theorem number_lt (bs : Bytes) : number bs < 256 ^ bs.length := by
  induction bs with
  | nil => exact Nat.one_pos
  | cons b bs ih =>
    have hb : b.toNat < 256 := b.toNat_lt
    rw [number, List.length_cons, pow_succ]
    omega

theorem number_append (bs cs : Bytes) :
    number (bs ++ cs) = number bs + 256 ^ bs.length * number cs := by
  induction bs with
  | nil => simp [number]
  | cons b bs ih =>
    rw [List.cons_append, number, ih, number, List.length_cons, pow_succ]
    ring

theorem number_bytes (n v : ℕ) : number (bytes n v) = v % 256 ^ n := by
  induction n generalizing v with
  | zero => rw [bytes, number, pow_zero, Nat.mod_one]
  | succ n ih =>
    rw [bytes, number, ih, UInt8.toNat_ofNat', pow_succ' 256 n, Nat.mod_mul]

theorem bytes_number (bs : Bytes) : bytes bs.length (number bs) = bs := by
  induction bs with
  | nil => rfl
  | cons b bs ih =>
    have hb : b.toNat < 256 := b.toNat_lt
    have hdiv : (b.toNat + 256 * number bs) / 256 = number bs := by omega
    rw [List.length_cons, bytes, number, hdiv, ih]
    congr 1
    apply UInt8.toNat_inj.mp
    rw [UInt8.toNat_ofNat']
    omega

/-- Bytes are determined by their number. -/
theorem number_inj {bs cs : Bytes} (hlen : bs.length = cs.length)
    (h : number bs = number cs) : bs = cs := by
  rw [← bytes_number bs, hlen, h, bytes_number cs]

/-- A byte of a number; there are zeros behind the last one. -/
theorem number_div_mod (bs : Bytes) (k : ℕ) : number bs / 256 ^ k % 256 = (bs.getD k 0).toNat := by
  induction bs generalizing k with
  | nil => simp [number]
  | cons b bs ih =>
    have hb : b.toNat < 256 := b.toNat_lt
    cases k with
    | zero =>
      rw [number, pow_zero, Nat.div_one, List.getD_cons_zero]
      omega
    | succ k =>
      have hdiv : number (b :: bs) / 256 = number bs := by
        rw [number]
        omega
      rw [pow_succ', ← Nat.div_div_eq_div_mul, hdiv, ih, List.getD_cons_succ]

theorem number_set {bs : Bytes} {i : ℕ} (hi : i < bs.length) (c : UInt8) :
    number (bs.set i c) + 256 ^ i * (bs.getD i 0).toNat = number bs + 256 ^ i * c.toNat := by
  induction bs generalizing i with
  | nil => exact absurd hi (Nat.not_lt_zero i)
  | cons b bs ih =>
    cases i with
    | zero =>
      simp only [List.set_cons_zero, number, List.getD_cons_zero, pow_zero]
      omega
    | succ i =>
      have htail := ih (Nat.lt_of_succ_lt_succ hi)
      simp only [List.set_cons_succ, number, List.getD_cons_succ, pow_succ']
      linear_combination 256 * htail

/-- A bit of a number. -/
theorem number_bit (bs : Bytes) (i : ℕ) :
    number bs / 2 ^ i % 2 = (bs.getD (i / 8) 0).toNat / 2 ^ (i % 8) % 2 := by
  have hpow : 2 ^ i = 256 ^ (i / 8) * 2 ^ (i % 8) := by
    rw [show 256 = 2 ^ 8 by norm_num, ← pow_mul, ← pow_add, Nat.div_add_mod]
  have hlow : ∀ n r : ℕ, r < 8 → n / 2 ^ r % 2 = n % 256 / 2 ^ r % 2 := by
    intro n r hr
    interval_cases r <;> omega
  rw [hpow, ← Nat.div_div_eq_div_mul, hlow _ _ (Nat.mod_lt i (by decide)), number_div_mod]

theorem number_take (bs : Bytes) (n : ℕ) : number (bs.take n) = number bs % 256 ^ n := by
  by_cases h : n ≤ bs.length
  · have hlen : (bs.take n).length = n := List.length_take_of_le h
    have hlt := number_lt (bs.take n)
    have hsplit := number_append (bs.take n) (bs.drop n)
    rw [List.take_append_drop, hlen] at hsplit
    rw [hlen] at hlt
    rw [hsplit, Nat.add_mul_mod_self_left, Nat.mod_eq_of_lt hlt]
  · have hle : 256 ^ bs.length ≤ 256 ^ n := Nat.pow_le_pow_right (by decide) (by omega)
    rw [List.take_of_length_le (by omega), Nat.mod_eq_of_lt ((number_lt bs).trans_le hle)]

/-- The bytes of a number in two parts. -/
theorem bytes_add (m n v : ℕ) : bytes (m + n) v = bytes m v ++ bytes n (v / 256 ^ m) := by
  induction m generalizing v with
  | zero => rw [Nat.zero_add, pow_zero, Nat.div_one]; rfl
  | succ m ih =>
    rw [Nat.add_right_comm, bytes, bytes, ih, List.cons_append, Nat.div_div_eq_div_mul, ← pow_succ']

theorem bytes_mod (n v : ℕ) : bytes n (v % 256 ^ n) = bytes n v :=
  number_inj (by rw [length_bytes, length_bytes]) (by
    rw [number_bytes, number_bytes, Nat.mod_mod])

theorem bytes_zero (n : ℕ) : bytes n 0 = List.replicate n 0 := by
  induction n with
  | zero => rfl
  | succ n ih => rw [bytes, Nat.zero_div, ih]; rfl

end LittleEndian

/-! ### Big-endian bytes -/

namespace BigEndian

/-- The number of big-endian bytes. -/
def number (bs : Bytes) : ℕ := LittleEndian.number bs.reverse

/-- The lowest `n` bytes of a number, the highest of them first. -/
def bytes (n v : ℕ) : Bytes := (LittleEndian.bytes n v).reverse

@[simp] theorem length_bytes (n v : ℕ) : (bytes n v).length = n := by
  rw [bytes, List.length_reverse, LittleEndian.length_bytes]

theorem number_bytes (n v : ℕ) : number (bytes n v) = v % 256 ^ n := by
  rw [number, bytes, List.reverse_reverse, LittleEndian.number_bytes]

/-- Reading from the front: the number so far times 256, and the next byte. -/
theorem number_append_singleton (bs : Bytes) (b : UInt8) :
    number (bs ++ [b]) = number bs * 256 + b.toNat := by
  rw [number, List.reverse_append]
  simp [number, LittleEndian.number]
  ring

theorem number_lt (bs : Bytes) : number bs < 256 ^ bs.length := by
  rw [number, ← List.length_reverse]
  exact LittleEndian.number_lt _

theorem bytes_add (m n v : ℕ) : bytes (n + m) v = bytes n (v / 256 ^ m) ++ bytes m v := by
  rw [bytes, Nat.add_comm, LittleEndian.bytes_add, List.reverse_append]
  rfl

/-- The bytes one by one. -/
theorem bytes_eq_map (n v : ℕ) :
    bytes n v = (List.range n).map fun i => UInt8.ofNat (v / 256 ^ (n - 1 - i)) := by
  induction n with
  | zero => rfl
  | succ n ih =>
    rw [Nat.add_comm, bytes_add, ih, Nat.add_comm, List.range_succ_eq_map, List.map_cons,
      List.map_map]
    refine congrArg₂ _ rfl (List.map_congr_left fun i _ => ?_)
    simp only [Function.comp_apply, Nat.succ_eq_add_one, Nat.add_sub_cancel,
      show n - (i + 1) = n - 1 - i by omega]

theorem bytes_number (bs : Bytes) : bytes bs.length (number bs) = bs := by
  rw [bytes, number, ← List.length_reverse, LittleEndian.bytes_number, List.reverse_reverse]

theorem bytes_mod (n v : ℕ) : bytes n (v % 256 ^ n) = bytes n v := by
  rw [bytes, LittleEndian.bytes_mod, bytes]

end BigEndian
