import Llamaste.Lib.ByteImage

/-!
# GUID partition tables

The header of a partition table and its entries as the two programs that change one hold them in
memory: packed structures, read and written field by field. Sectors have 512 bytes.

Source: `tools_install.cpp`, `init.cpp` (`GPTHeader`, `GPTEntry`, `crc32_gpt`).
-/

namespace Llamaste

/-- The number of sectors of a disk that can take an installation; offsets on it are `off_t`. -/
structure IsDiskSize (sectors : ℕ) : Prop where
  large : 1048576 ≤ sectors
  fits : sectors * 512 < 2 ^ 63

/-! ### Checksums -/

/-- One bit of a checksum. -/
def crcBit (crc : UInt32) : UInt32 := (crc >>> 1) ^^^ (0xEDB88320 &&& (0 - (crc &&& 1)))

/-- One byte of a checksum. -/
def crcByte (crc : UInt32) (b : UInt8) : UInt32 :=
  (List.range 8).foldl (fun crc _ => crcBit crc) (crc ^^^ b.toUInt32)

/-- `crc32_gpt`. -/
def crc32Gpt (data : ByteImage) (len : ℕ) : UInt32 :=
  ~~~ ((List.range len).foldl (fun crc i => crcByte crc (data i)) 0xFFFFFFFF)

theorem crc32Gpt_congr {a b : ByteImage} {len : ℕ} (h : ∀ i < len, a i = b i) :
    crc32Gpt a len = crc32Gpt b len := by
  refine congrArg (~~~ ·) (List.foldl_ext _ _ _ fun crc i hi => ?_)
  exact congrArg (crcByte crc) (h i (List.mem_range.mp hi))

/-- The lowest bit decides about the polynomial. -/
theorem toBitVec_crcBit (crc : UInt32) : (crcBit crc).toBitVec =
    crc.toBitVec >>> 1 ^^^ if crc.toBitVec.getLsbD 0 then 0xEDB88320#32 else 0#32 := by
  have hlow : (crc &&& 1).toBitVec =
      BitVec.setWidth 32 (BitVec.ofBool (crc.toBitVec.getLsbD 0)) := by
    rw [UInt32.toBitVec_and]
    exact BitVec.and_one_eq_setWidth_ofBool_getLsbD
  rw [crcBit, UInt32.toBitVec_xor, UInt32.toBitVec_and, UInt32.toBitVec_sub, hlow]
  cases crc.toBitVec.getLsbD 0 <;> rfl

theorem crcBit_injective : Function.Injective crcBit := by
  intro a b h
  have hbits := congrArg UInt32.toBitVec h
  rw [toBitVec_crcBit, toBitVec_crcBit] at hbits
  have hlow : a.toBitVec.getLsbD 0 = b.toBitVec.getLsbD 0 := by
    -- the highest bit is that of the polynomial
    have htop := congrArg (BitVec.getLsbD · 31) hbits
    have hbehind (v : BitVec 32) : (v >>> 1).getLsbD 31 = false := by
      rw [BitVec.getLsbD_ushiftRight]
      exact BitVec.getLsbD_of_ge v 32 (Nat.le_refl _)
    simp only [BitVec.getLsbD_xor, hbehind] at htop
    revert htop
    cases a.toBitVec.getLsbD 0 <;> cases b.toBitVec.getLsbD 0 <;> decide
  rw [hlow] at hbits
  have hshift := (BitVec.xor_left_inj _).mp hbits
  refine UInt32.toBitVec_inj.mp (BitVec.eq_of_getLsbD_eq fun i hi => ?_)
  cases i with
  | zero => exact hlow
  | succ i =>
      have hbit := congrArg (BitVec.getLsbD · i) hshift
      simpa only [BitVec.getLsbD_ushiftRight, Nat.add_comm 1 i] using hbit

theorem crcByte_injective (crc : UInt32) : Function.Injective (crcByte crc) := by
  intro b c h
  have hfold : ∀ l : List ℕ, Function.Injective fun crc : UInt32 =>
      l.foldl (fun crc _ => crcBit crc) crc := by
    intro l
    induction l with
    | nil => exact Function.injective_id
    | cons _ l ih => exact ih.comp crcBit_injective
  have hxor := hfold _ h
  have hnat := congrArg UInt32.toNat (UInt32.xor_right_inj crc |>.mp hxor)
  rw [UInt8.toNat_toUInt32, UInt8.toNat_toUInt32] at hnat
  exact UInt8.toNat_inj.mp hnat

/-- Data that differ in the last byte only have different checksums. -/
theorem crc32Gpt_ne {a b : ByteImage} {n : ℕ} (h : ∀ i < n, a i = b i) (hne : a n ≠ b n) :
    crc32Gpt a (n + 1) ≠ crc32Gpt b (n + 1) := by
  have hstep (data : ByteImage) : crc32Gpt data (n + 1) =
      ~~~ crcByte (~~~ crc32Gpt data n) (data n) := by
    rw [crc32Gpt, crc32Gpt, List.range_succ, List.foldl_append, UInt32.not_not, List.foldl_cons,
      List.foldl_nil]
  have hnot : Function.Injective fun crc : UInt32 => ~~~ crc :=
    Function.LeftInverse.injective (g := fun crc => ~~~ crc) fun crc => UInt32.not_not
  intro heq
  rw [hstep, hstep, crc32Gpt_congr h] at heq
  exact hne (crcByte_injective _ (hnot heq))
/-! ### Headers -/

/-- `GPTHeader`: 92 bytes of memory, and what lies behind them. -/
abbrev GptHeader := ByteImage

namespace GptHeader

variable (hdr : GptHeader)

/-- `memcmp(signature, "EFI PART", 8) == 0`, with the eight bytes as a number. -/
def hasSignature : Bool := hdr.le 0 8 = 0x5452415020494645

def headerSize : ℕ := hdr.le 12 4

def headerCrc32 : ℕ := hdr.le 16 4

def alternateLba : ℕ := hdr.le 32 8

def firstUsableLba : ℕ := hdr.le 40 8

def lastUsableLba : ℕ := hdr.le 48 8

def partitionEntryLba : ℕ := hdr.le 72 8

def numPartitionEntries : ℕ := hdr.le 80 4

def partitionEntrySize : ℕ := hdr.le 84 4

def partitionArrayCrc32 : ℕ := hdr.le 88 4

/-- The bytes of all entries. -/
def entriesBytes : ℕ := hdr.numPartitionEntries * hdr.partitionEntrySize

/-- The header with its own checksum set. -/
def withCrc : GptHeader :=
  let zeroed : GptHeader := hdr.put 16 4 0
  zeroed.put 16 4 (crc32Gpt zeroed hdr.headerSize).toNat

/-- The header for a disk of `sectors` sectors and new entries. -/
def resized (sectors : ℕ) (entries : ByteImage) : GptHeader :=
  withCrc (((hdr.put 48 8 (sectors - 34)).put 32 8 (sectors - 1)).put 88 4
    (crc32Gpt entries hdr.entriesBytes).toNat)

/-- The header at the end of the disk. -/
def backup (sectors : ℕ) : GptHeader :=
  withCrc (((hdr.put 24 8 (sectors - 1)).put 32 8 1).put 72 8 (sectors - 33))

/-! #### What is read of a header -/

variable {hdr}

theorem headerSize_congr {other : GptHeader} (h : ∀ i < 92, hdr i = other i) :
    hdr.headerSize = other.headerSize := ByteImage.le_congr fun i hi => h _ (by omega)

theorem partitionEntryLba_congr {other : GptHeader} (h : ∀ i < 92, hdr i = other i) :
    hdr.partitionEntryLba = other.partitionEntryLba :=
  ByteImage.le_congr fun i hi => h _ (by omega)

theorem numPartitionEntries_congr {other : GptHeader} (h : ∀ i < 92, hdr i = other i) :
    hdr.numPartitionEntries = other.numPartitionEntries :=
  ByteImage.le_congr fun i hi => h _ (by omega)

theorem partitionEntrySize_congr {other : GptHeader} (h : ∀ i < 92, hdr i = other i) :
    hdr.partitionEntrySize = other.partitionEntrySize :=
  ByteImage.le_congr fun i hi => h _ (by omega)

theorem entriesBytes_congr {other : GptHeader} (h : ∀ i < 92, hdr i = other i) :
    hdr.entriesBytes = other.entriesBytes := by
  rw [entriesBytes, entriesBytes, numPartitionEntries_congr h, partitionEntrySize_congr h]

theorem hasSignature_congr {other : GptHeader} (h : ∀ i < 92, hdr i = other i) :
    hdr.hasSignature = other.hasSignature := by
  rw [hasSignature, hasSignature, ByteImage.le_congr fun i (hi : i < 8) =>
    show hdr (0 + i) = other (0 + i) from h _ (by omega)]

/-- The checksum of a short header does not depend on what lies behind it. -/
theorem withCrc_congr {other : GptHeader} (h : ∀ i < 92, hdr i = other i)
    (hsize : hdr.headerSize ≤ 92) : ∀ i < 92, hdr.withCrc i = other.withCrc i := by
  have hzeroed : ∀ i < 92, hdr.put 16 4 0 i = other.put 16 4 0 i := ByteImage.put_congr h
  have hcrc : crc32Gpt (hdr.put 16 4 0) hdr.headerSize =
      crc32Gpt (other.put 16 4 0) other.headerSize := by
    rw [← headerSize_congr h]
    exact crc32Gpt_congr fun i hi => hzeroed i (by omega)
  rw [withCrc, withCrc, hcrc]
  exact ByteImage.put_congr hzeroed

theorem resized_congr {other : GptHeader} (h : ∀ i < 92, hdr i = other i)
    (hsize : hdr.headerSize ≤ 92) (sectors : ℕ) (entries : ByteImage) :
    ∀ i < 92, hdr.resized sectors entries i = other.resized sectors entries i := by
  rw [resized, resized, entriesBytes_congr h]
  refine withCrc_congr (ByteImage.put_congr (ByteImage.put_congr (ByteImage.put_congr h))) ?_
  rw [headerSize, ByteImage.le_put_of_disjoint (by omega), ByteImage.le_put_of_disjoint (by omega),
    ByteImage.le_put_of_disjoint (by omega)]
  exact hsize

theorem backup_congr {other : GptHeader} (h : ∀ i < 92, hdr i = other i)
    (hsize : hdr.headerSize ≤ 92) (sectors : ℕ) :
    ∀ i < 92, hdr.backup sectors i = other.backup sectors i := by
  rw [backup, backup]
  refine withCrc_congr (ByteImage.put_congr (ByteImage.put_congr (ByteImage.put_congr h))) ?_
  rw [headerSize, ByteImage.le_put_of_disjoint (by omega), ByteImage.le_put_of_disjoint (by omega),
    ByteImage.le_put_of_disjoint (by omega)]
  exact hsize

/-! #### What a change leaves -/

theorem le_withCrc {off n : ℕ} (h : off + n ≤ 16 ∨ 20 ≤ off) :
    (withCrc hdr).le off n = hdr.le off n := by
  rw [withCrc, ByteImage.le_put_of_disjoint h, ByteImage.le_put_of_disjoint h]

/-- The fields of a resized header that are not set. -/
theorem le_resized {off n : ℕ} (h : off + n ≤ 16 ∨ 20 ≤ off ∧ off + n ≤ 32 ∨
      40 ≤ off ∧ off + n ≤ 48 ∨ 56 ≤ off ∧ off + n ≤ 88) (sectors : ℕ) (entries : ByteImage) :
    (hdr.resized sectors entries).le off n = hdr.le off n := by
  rw [resized, le_withCrc (by omega), ByteImage.le_put_of_disjoint (by omega),
    ByteImage.le_put_of_disjoint (by omega), ByteImage.le_put_of_disjoint (by omega)]

/-- The fields of a backup that are not set. -/
theorem le_backup {off n : ℕ} (h : off + n ≤ 16 ∨ 20 ≤ off ∧ off + n ≤ 24 ∨
      40 ≤ off ∧ off + n ≤ 72 ∨ 80 ≤ off) (sectors : ℕ) :
    (hdr.backup sectors).le off n = hdr.le off n := by
  rw [backup, le_withCrc (by omega), ByteImage.le_put_of_disjoint (by omega),
    ByteImage.le_put_of_disjoint (by omega), ByteImage.le_put_of_disjoint (by omega)]

theorem resized_apply {i : ℕ} (h : 92 ≤ i) (sectors : ℕ) (entries : ByteImage) :
    hdr.resized sectors entries i = hdr i := by
  rw [resized, withCrc, ByteImage.put, ByteImage.write_of_not_mem (by omega), ByteImage.put,
    ByteImage.write_of_not_mem (by omega), ByteImage.put, ByteImage.write_of_not_mem (by omega),
    ByteImage.put, ByteImage.write_of_not_mem (by omega), ByteImage.put,
    ByteImage.write_of_not_mem (by omega)]

/-! #### What a change sets -/

/-- The checksum that is set is right. -/
theorem headerCrc32_withCrc (hdr : GptHeader) : (withCrc hdr).headerCrc32 =
    (crc32Gpt ((withCrc hdr).put 16 4 0) (withCrc hdr).headerSize).toNat := by
  have hzeroed : (withCrc hdr).put 16 4 0 = hdr.put 16 4 0 := by
    rw [withCrc, ByteImage.put, ByteImage.put, ByteImage.write_write, ByteImage.put,
      ByteImage.write_write]
  have hsize : (withCrc hdr).headerSize = hdr.headerSize := le_withCrc (by omega)
  rw [hzeroed, hsize]
  exact ByteImage.le_put_self (UInt32.toNat_lt _)

theorem lastUsableLba_resized {sectors : ℕ} (h : sectors < 2 ^ 64) (entries : ByteImage) :
    (hdr.resized sectors entries).lastUsableLba = sectors - 34 := by
  rw [lastUsableLba, resized, le_withCrc (by omega), ByteImage.le_put_of_disjoint (by omega),
    ByteImage.le_put_of_disjoint (by omega), ByteImage.le_put_self (by omega)]

theorem alternateLba_resized {sectors : ℕ} (h : sectors < 2 ^ 64) (entries : ByteImage) :
    (hdr.resized sectors entries).alternateLba = sectors - 1 := by
  rw [alternateLba, resized, le_withCrc (by omega), ByteImage.le_put_of_disjoint (by omega),
    ByteImage.le_put_self (by omega)]

theorem partitionArrayCrc32_resized (sectors : ℕ) (entries : ByteImage) :
    (hdr.resized sectors entries).partitionArrayCrc32 =
      (crc32Gpt entries hdr.entriesBytes).toNat := by
  rw [partitionArrayCrc32, resized, le_withCrc (by omega)]
  exact ByteImage.le_put_self (UInt32.toNat_lt _)

theorem alternateLba_backup (sectors : ℕ) : (hdr.backup sectors).alternateLba = 1 := by
  rw [alternateLba, backup, le_withCrc (by omega), ByteImage.le_put_of_disjoint (by omega),
    ByteImage.le_put_self (by decide)]

theorem partitionEntryLba_backup {sectors : ℕ} (h : sectors < 2 ^ 64) :
    (hdr.backup sectors).partitionEntryLba = sectors - 33 := by
  rw [partitionEntryLba, backup, le_withCrc (by omega), ByteImage.le_put_self (by omega)]

end GptHeader

/-! ### Entries -/

/-- The entries in memory, `size` bytes each. -/
structure GptEntries where
  size : ℕ
  bytes : ByteImage

namespace GptEntries

variable (entries : GptEntries)

/-- Entry `k` has a type. -/
def hasType (k : ℕ) : Bool :=
  (List.range 16).any fun i => entries.bytes (k * entries.size + i) ≠ 0

def startingLba (k : ℕ) : ℕ := entries.bytes.le (k * entries.size + 32) 8

def endingLba (k : ℕ) : ℕ := entries.bytes.le (k * entries.size + 40) 8

/-- The entries with another end for entry `k`. -/
def withEnding (k lba : ℕ) : GptEntries :=
  { entries with bytes := entries.bytes.put (k * entries.size + 40) 8 lba }

theorem hasType_congr {a b : GptEntries} {k : ℕ}
    (h : ∀ i < 16, a.bytes (k * a.size + i) = b.bytes (k * b.size + i)) :
    a.hasType k = b.hasType k := by
  rw [hasType, hasType, Bool.eq_iff_iff, List.any_eq_true, List.any_eq_true]
  exact exists_congr fun i => and_congr_right fun hi => by rw [h i (List.mem_range.mp hi)]

end GptEntries

/-! ### Tables on a disk -/

/-- The header in a sector. -/
def headerAt (lba : ℕ) (img : ByteImage) : GptHeader := img.drop (lba * 512)

/-- The entries that a header is about. -/
def tableEntries (hdr : GptHeader) (img : ByteImage) : GptEntries :=
  { size := hdr.partitionEntrySize, bytes := img.drop (hdr.partitionEntryLba * 512) }

/-- The entries of the table at the start of a disk. -/
def primaryEntries (img : ByteImage) : GptEntries := tableEntries (headerAt 1 img) img

/-! ### Reading and writing a disk -/

/-- What is read of a disk. -/
inductive GptRead
  | header
  | entries
  | mbr

/-- What is written to a disk. -/
inductive GptWrite
  | entries
  | header
  | backupEntries
  | backupHeader
  | mbr

/-- How the calls end: whether the disk can be opened and measured, whether there is memory, which
reads succeed, and how far a write gets that is cut short; and what lies behind the header in
memory. -/
structure GptIo where
  opens : Bool
  allocates : Bool
  reads : GptRead → Bool
  cut : GptWrite → Option ℕ
  stack : ByteImage

namespace GptIo

variable (io : GptIo) (sectors : ℕ)

/-- The offset of a sector, in 64 bits. -/
def byteOffset (lba : ℕ) : ℕ := lba * 512 % 2 ^ 64

/-- `pread`, of all bytes or it fails. -/
def pread (r : GptRead) (off len : ℕ) (img : ByteImage) : Option ByteImage :=
  if io.reads r = true ∧ off + len ≤ sectors * 512 then some (img.drop off) else none

theorem eq_drop_of_pread {io : GptIo} {sectors off len : ℕ} {r : GptRead} {img bytes : ByteImage}
    (h : io.pread sectors r off len img = some bytes) : bytes = img.drop off := by
  rw [pread] at h
  split at h
  · exact (Option.some.inj h).symm
  · exact nomatch h

/-- The header at the start of the disk, as it is read into memory. -/
def readHeader (img : ByteImage) : Option GptHeader :=
  (io.pread sectors .header 512 92 img).map fun hdr i => if i < 92 then hdr i else io.stack i

/-- The header of a disk in memory. -/
def headerOf (img : ByteImage) : GptHeader := fun i =>
  if i < 92 then headerAt 1 img i else io.stack i

theorem headerOf_apply {io : GptIo} {img : ByteImage} {i : ℕ} (h : i < 92) :
    io.headerOf img i = headerAt 1 img i := if_pos h

/-- `pwrite`: the disk, and whether all bytes were written. -/
def pwrite (w : GptWrite) (off len : ℕ) (buf img : ByteImage) : ByteImage × Bool :=
  let fits := min len (sectors * 512 - off)
  let n := (io.cut w).elim fits fun k => min k fits
  (img.write off n buf, n = len)

/-- A write that is not cut and stays on the disk writes all bytes. -/
theorem pwrite_of_fits {io : GptIo} {sectors : ℕ} {w : GptWrite} {off len : ℕ}
    (hcut : io.cut w = none) (h : off + len ≤ sectors * 512) (buf img : ByteImage) :
    io.pwrite sectors w off len buf img = (img.write off len buf, true) := by
  have hn : min len (sectors * 512 - off) = len := by omega
  simp only [pwrite, hcut, Option.elim_none, hn, decide_true]

/-- All bytes were written if it says so. -/
theorem eq_write_of_pwrite {io : GptIo} {sectors off len : ℕ} {w : GptWrite}
    {buf img img' : ByteImage} (h : io.pwrite sectors w off len buf img = (img', true)) :
    img' = img.write off len buf := by
  obtain ⟨himg, hall⟩ := Prod.mk.inj h
  have hlen := of_decide_eq_true hall
  rw [hlen] at himg
  exact himg.symm

/-- On the disk, a write that is not cut has its effect, even where it would go beyond. -/
theorem pwrite_apply {io : GptIo} {sectors off len i : ℕ} {w : GptWrite} (hcut : io.cut w = none)
    (hi : i < sectors * 512) (buf img : ByteImage) :
    (io.pwrite sectors w off len buf img).1 i = img.write off len buf i := by
  simp only [pwrite, hcut, Option.elim_none]
  by_cases hmem : off ≤ i ∧ i < off + len
  · rw [ByteImage.write_of_mem hmem, ByteImage.write_of_mem (by omega)]
  · rw [ByteImage.write_of_not_mem (by omega), ByteImage.write_of_not_mem (by omega)]

/-- A write leaves everything else. -/
theorem pwrite_of_not_mem {io : GptIo} {sectors off len i : ℕ} {w : GptWrite}
    (h : i < off ∨ off + len ≤ i) (buf img : ByteImage) :
    (io.pwrite sectors w off len buf img).1 i = img i := by
  have hn : (io.cut w).elim (min len (sectors * 512 - off))
      (fun k => min k (min len (sectors * 512 - off))) ≤ len := by
    cases io.cut w with
    | none => exact Nat.min_le_left _ _
    | some k => exact (Nat.min_le_right _ _).trans (Nat.min_le_left _ _)
  exact ByteImage.write_of_not_mem (by omega)

/-- Neither write of the backup is cut short. -/
structure WritesBackup : Prop where
  entries : io.cut .backupEntries = none
  header : io.cut .backupHeader = none

/-- No call fails. -/
structure Succeeds : Prop where
  opens : io.opens = true
  allocates : io.allocates = true
  reads : ∀ r, io.reads r = true
  cut : ∀ w, io.cut w = none

theorem Succeeds.writesBackup {io : GptIo} (h : io.Succeeds) : io.WritesBackup :=
  ⟨h.cut _, h.cut _⟩

theorem Succeeds.pread {io : GptIo} (h : io.Succeeds) {sectors off len : ℕ} (r : GptRead)
    (hfits : off + len ≤ sectors * 512) (img : ByteImage) :
    io.pread sectors r off len img = some (img.drop off) := if_pos ⟨h.reads r, hfits⟩

end GptIo

end Llamaste
