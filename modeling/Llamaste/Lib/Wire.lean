import Mathlib
import Llamaste.Lib.Text

/-!
# Packets

A writer appends fields to a packet, high byte first. A reader takes fields out of it at an
offset, and `none` stands for a read outside the packet. `At bs i pkt` says that a packet
has the bytes `bs` at offset `i`; it splits along the fields of a record, so what a reader
finds follows field by field.

## Main results

* `Wire.at_append`: bytes written one after the other are found one after the other.
* `Wire.At.get16`, `Wire.At.slice`: a reader at the offset of a field reads it back.
* `Wire.ofBytes_toBytes`: a byte string survives being written and read.
-/

namespace Wire

/-- The bytes of a byte string. -/
def toBytes (s : Text) : Bytes := s.map fun c => UInt8.ofNat c.toNat

/-- All characters of a text are bytes. -/
def IsBytes (s : Text) : Prop := ∀ c ∈ s, c.toNat < 256

instance (s : Text) : Decidable (IsBytes s) :=
  List.decidableBAll (fun c : Char => c.toNat < 256) s

@[simp] theorem length_toBytes (s : Text) : (toBytes s).length = s.length := List.length_map _

theorem ofNat_toNat_byte {c : Char} (h : c.toNat < 256) :
    Char.ofNat (UInt8.ofNat c.toNat).toNat = c := by
  rw [UInt8.toNat_ofNat', Nat.mod_eq_of_lt h, Char.ofNat_toNat]

/-- **A byte string is read as it was written.** -/
theorem ofBytes_toBytes {s : Text} (h : IsBytes s) : Text.ofBytes (toBytes s) = s := by
  rw [Text.ofBytes, toBytes, List.map_map]
  exact (List.map_congr_left fun c hc => ofNat_toNat_byte (h c hc)).trans (List.map_id s)

/-! ### Writing -/

/-- A 16-bit number. -/
def put16 (v : UInt16) : Bytes := [(v >>> 8).toUInt8, v.toUInt8]

/-- A 32-bit number. -/
def put32 (v : UInt32) : Bytes :=
  [(v >>> 24).toUInt8, (v >>> 16).toUInt8, (v >>> 8).toUInt8, v.toUInt8]

@[simp] theorem length_put16 (v : UInt16) : (put16 v).length = 2 := rfl

@[simp] theorem length_put32 (v : UInt32) : (put32 v).length = 4 := rfl

/-! ### Reading -/

/-- The 16-bit number at offset `i`. -/
def get16 (pkt : Bytes) (i : ℕ) : Option UInt16 := do
  let hi ← pkt[i]?
  let lo ← pkt[i + 1]?
  some (hi.toUInt16 <<< 8 ||| lo.toUInt16)

/-- The `n` bytes at offset `i`. -/
def slice (pkt : Bytes) (i n : ℕ) : Option Bytes :=
  if i + n ≤ pkt.length then some ((pkt.drop i).take n) else none

/-- The packet has the bytes `bs` at offset `i`. -/
def At (bs : Bytes) (i : ℕ) (pkt : Bytes) : Prop :=
  ∃ before after, before.length = i ∧ pkt = before ++ (bs ++ after)

theorem At.intro (before bs after : Bytes) :
    At bs before.length (before ++ (bs ++ after)) := ⟨before, after, rfl, rfl⟩

/-- What is written one after the other is found one after the other. -/
theorem at_append {a b : Bytes} {i : ℕ} {pkt : Bytes} :
    At (a ++ b) i pkt ↔ At a i pkt ∧ At b (i + a.length) pkt := by
  constructor
  · rintro ⟨before, after, rfl, rfl⟩
    refine ⟨⟨before, b ++ after, rfl, by simp⟩, before ++ a, after, by simp, by simp⟩
  · rintro ⟨⟨before, after, rfl, rfl⟩, before', after', hlen, hpkt⟩
    refine ⟨before, after', rfl, ?_⟩
    have hsplit : (before ++ a) ++ after = before' ++ (b ++ after') := by
      rw [← hpkt, List.append_assoc]
    obtain ⟨-, rfl⟩ := List.append_inj hsplit (by rw [List.length_append, hlen])
    rw [List.append_assoc]

theorem at_cons {b : UInt8} {bs : Bytes} {i : ℕ} {pkt : Bytes} :
    At (b :: bs) i pkt ↔ At [b] i pkt ∧ At bs (i + 1) pkt := at_append (a := [b])

variable {bs : Bytes} {i : ℕ} {pkt : Bytes}

theorem At.le (h : At bs i pkt) : i + bs.length ≤ pkt.length := by
  obtain ⟨before, after, rfl, rfl⟩ := h
  simp only [List.length_append]
  omega

theorem At.getElem? {b : UInt8} (h : At [b] i pkt) : pkt[i]? = some b := by
  obtain ⟨before, after, rfl, rfl⟩ := h
  simp

theorem At.lt {b : UInt8} (h : At [b] i pkt) : i < pkt.length := h.le

/-- The reader of a field reads it back. -/
theorem At.slice (h : At bs i pkt) : slice pkt i bs.length = some bs := by
  rw [Wire.slice, if_pos h.le]
  obtain ⟨before, after, rfl, rfl⟩ := h
  simp

/-- The two bytes of a 16-bit number make it up. -/
theorem toUInt16_or (v : UInt16) :
    (v >>> 8).toUInt8.toUInt16 <<< 8 ||| v.toUInt8.toUInt16 = v := by
  have hv := v.toNat_lt
  have hhi : ((v >>> 8).toUInt8.toUInt16 <<< 8).toNat = (v.toNat / 256) <<< 8 := by
    have h8 : UInt16.toNat 8 % 16 = 8 := rfl
    simp only [UInt16.toNat_shiftLeft, UInt8.toNat_toUInt16, UInt16.toNat_toUInt8,
      UInt16.toNat_shiftRight, h8, Nat.shiftRight_eq_div_pow, Nat.shiftLeft_eq]
    omega
  have hlo : v.toUInt8.toUInt16.toNat = v.toNat % 256 := by
    rw [UInt8.toNat_toUInt16, UInt16.toNat_toUInt8]
  apply UInt16.toNat_inj.mp
  rw [UInt16.toNat_or, hhi, hlo, ← Nat.shiftLeft_add_eq_or_of_lt (Nat.mod_lt _ (by decide)),
    Nat.shiftLeft_eq]
  omega

/-- The reader of a 16-bit field reads it back. -/
theorem At.get16 {v : UInt16} (h : At (put16 v) i pkt) : get16 pkt i = some v := by
  obtain ⟨hhi, hlo⟩ := at_cons.mp h
  simp only [Wire.get16, hhi.getElem?, hlo.getElem?, Option.bind_eq_bind, Option.bind_some,
    toUInt16_or]

end Wire
