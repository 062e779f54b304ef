import Mathlib
import Llamaste.GptResize

/-!
# The tables after the last partition was resized

The installer keeps 33 sectors at the end of a disk for the backup of the table, whatever the number
and the size of the entries, and takes the checksum of the header over as many bytes as the header
asks for, though it reads 92. Source: `tools_install.cpp` (`resize_gpt_data_partition`).

## Main results

* `resizeKeepsGpt_iff`: the tables that are left are right exactly for short headers whose entries
  fit before the backup header and have a place of their own.
-/

namespace Llamaste

open GptIo (byteOffset)

/-! ### What is claimed -/

/-- The header in a sector can be read back with all its bytes, and its checksum is right. -/
structure HeaderVerifies (sectors lba : ℕ) (img : ByteImage) : Prop where
  onDisk : lba * 512 + (headerAt lba img).headerSize ≤ sectors * 512
  crc : (headerAt lba img).headerCrc32 =
    (crc32Gpt ((headerAt lba img).put 16 4 0) (headerAt lba img).headerSize).toNat

/-- The entries that a header is about can be read back, and their checksum is right. -/
structure ArrayVerifies (sectors : ℕ) (hdr : GptHeader) (img : ByteImage) : Prop where
  onDisk : hdr.partitionEntryLba * 512 + hdr.entriesBytes ≤ sectors * 512
  crc : hdr.partitionArrayCrc32 = (crc32Gpt (tableEntries hdr img).bytes hdr.entriesBytes).toNat

/-- The bytes of a sector. -/
def sectorRegion (lba : ℕ) : Set ℕ := Set.Ico (lba * 512) ((lba + 1) * 512)

/-- The bytes of the entries. -/
def GptHeader.arrayRegion (hdr : GptHeader) : Set ℕ :=
  Set.Ico (hdr.partitionEntryLba * 512) (hdr.partitionEntryLba * 512 + hdr.entriesBytes)

/-- The bytes of a partition. -/
def GptEntries.region (entries : GptEntries) (k : ℕ) : Set ℕ :=
  Set.Ico (entries.startingLba k * 512) ((entries.endingLba k + 1) * 512)

/-- Partition `k` is in use. -/
def GptHeader.Used (hdr : GptHeader) (img : ByteImage) (k : ℕ) : Prop :=
  k < hdr.numPartitionEntries ∧ (tableEntries hdr img).hasType k = true

/-- The partitions lie among the usable sectors and apart from each other. -/
structure PartitionsPlaced (hdr : GptHeader) (img : ByteImage) : Prop where
  inside : ∀ k, hdr.Used img k → hdr.firstUsableLba ≤ (tableEntries hdr img).startingLba k ∧
    (tableEntries hdr img).endingLba k ≤ hdr.lastUsableLba
  apart : ∀ j k, hdr.Used img j → hdr.Used img k → j ≠ k →
    Disjoint ((tableEntries hdr img).region j) ((tableEntries hdr img).region k)

/-- The table with its header in sector `lba` of the disk `img'`, after `img` was resized. -/
structure ResizedTable (sectors lba other : ℕ) (img img' : ByteImage) : Prop where
  header : HeaderVerifies sectors lba img'
  array : ArrayVerifies sectors (headerAt lba img') img'
  alternate : (headerAt lba img').alternateLba = other
  count : (headerAt lba img').numPartitionEntries = (headerAt 1 img).numPartitionEntries
  entrySize : (headerAt lba img').partitionEntrySize = (headerAt 1 img).partitionEntrySize
  /-- Only the end of partition 5 is not what it was. -/
  intact : ∀ i < (headerAt 1 img).entriesBytes,
    (i < 4 * (headerAt 1 img).partitionEntrySize + 40 ∨
      4 * (headerAt 1 img).partitionEntrySize + 48 ≤ i) →
    (tableEntries (headerAt lba img') img').bytes i = (primaryEntries img).bytes i
  ending : (tableEntries (headerAt lba img') img').endingLba 4 = (headerAt lba img').lastUsableLba
  stays : PartitionsPlaced (headerAt 1 img) img → PartitionsPlaced (headerAt lba img') img'
  offHeaders : Disjoint (headerAt lba img').arrayRegion (sectorRegion 1) ∧
    Disjoint (headerAt lba img').arrayRegion (sectorRegion (sectors - 1))
  offPartitions : ∀ k, (headerAt lba img').Used img' k →
    Disjoint (headerAt lba img').arrayRegion ((tableEntries (headerAt lba img') img').region k)

/-- Both tables of a disk that was resized. -/
structure ResizedGpt (sectors : ℕ) (img img' : ByteImage) : Prop where
  primary : ResizedTable sectors 1 (sectors - 1) img img'
  backup : ResizedTable sectors (sectors - 1) 1 img img'
  equal : ∀ i < (headerAt 1 img).entriesBytes, (tableEntries (headerAt 1 img') img').bytes i =
    (tableEntries (headerAt (sectors - 1) img') img').bytes i

/-- What resizing a disk is meant to leave: right tables, or the disk as it was. -/
structure ResizeKeepsGpt (io : GptIo) (sectors : ℕ) (img : ByteImage) : Prop where
  kept : ∀ plan, planResize io sectors img = .ok plan →
    (resizeGptDataPartition io sectors img).2 = 0 →
      ResizedGpt sectors img (resizeGptDataPartition io sectors img).1
  rejected : planResize io sectors img = .error (-1) →
    resizeGptDataPartition io sectors img = (img, -1)

/-- The disks in question: the header is right and accepted, and no partition in use lies behind
partition 5. -/
structure ResizableGpt (sectors : ℕ) (img : ByteImage) : Prop
    extends AcceptedGpt sectors img where
  header : HeaderVerifies sectors 1 img
  highest : ∀ k, (headerAt 1 img).Used img k → k ≠ 4 →
    (primaryEntries img).endingLba k < (primaryEntries img).startingLba 4

/-- The header is no longer than what is read of it, and the entries have a place of their own. -/
structure ResizeFits (sectors : ℕ) (img : ByteImage) : Prop where
  headerSize : (headerAt 1 img).headerSize ≤ 92
  entriesBytes : (headerAt 1 img).entriesBytes ≤ 32 * 512
  offHeaders : Disjoint (headerAt 1 img).arrayRegion (sectorRegion 1) ∧
    Disjoint (headerAt 1 img).arrayRegion (sectorRegion (sectors - 1))
  offPartitions : ∀ k, (headerAt 1 img).Used img k → k ≠ 4 →
    Disjoint (headerAt 1 img).arrayRegion ((primaryEntries img).region k)
  /-- Partition 5 does not reach them when it is extended. -/
  offFifth : Disjoint (headerAt 1 img).arrayRegion
    (Set.Ico ((primaryEntries img).startingLba 4 * 512) ((sectors - 33) * 512))
  /-- Entries in the last sectors are the same after the backup was written over them. -/
  copy : ∀ i < (headerAt 1 img).entriesBytes,
    (sectors - 33) * 512 ≤ (headerAt 1 img).partitionEntryLba * 512 + i →
    (headerAt 1 img).partitionEntryLba * 512 + i <
      (sectors - 33) * 512 + (headerAt 1 img).entriesBytes →
    (resizedEntries sectors img).bytes
        ((headerAt 1 img).partitionEntryLba * 512 + i - (sectors - 33) * 512) =
      (resizedEntries sectors img).bytes i

variable {io : GptIo} {sectors : ℕ} {img img' : ByteImage}

/-! ### Entries that were resized -/

section

variable (hsize : 128 ≤ (headerAt 1 img).partitionEntrySize)

include hsize

/-- The end of partition 5 is in no other entry. -/
theorem not_mem_ending {k j w : ℕ} (hk : k ≠ 4) (hj : j + w ≤ 128) :
    k * (headerAt 1 img).partitionEntrySize + j + w ≤
        4 * (headerAt 1 img).partitionEntrySize + 40 ∨
      4 * (headerAt 1 img).partitionEntrySize + 48 ≤
        k * (headerAt 1 img).partitionEntrySize + j := by
  rcases Nat.lt_or_gt_of_ne hk with hk | hk
  · have hle := Nat.mul_le_mul_right (headerAt 1 img).partitionEntrySize (Nat.succ_le_of_lt hk)
    rw [Nat.succ_mul] at hle
    omega
  · have hle := Nat.mul_le_mul_right (headerAt 1 img).partitionEntrySize (Nat.succ_le_of_lt hk)
    rw [Nat.succ_mul] at hle
    omega

variable (sectors) in
theorem hasType_resizedEntries (k : ℕ) :
    (resizedEntries sectors img).hasType k = (primaryEntries img).hasType k := by
  refine GptEntries.hasType_congr fun i hi => ByteImage.write_of_not_mem ?_
  by_cases hk : k = 4
  · subst hk
    exact Or.inl (Nat.add_lt_add_left (by omega) _)
  · have hnot := not_mem_ending hsize hk (show i + 1 ≤ 128 by omega)
    exact hnot.imp (fun h => h) fun h => h

variable (sectors) in
theorem startingLba_resizedEntries (k : ℕ) :
    (resizedEntries sectors img).startingLba k = (primaryEntries img).startingLba k := by
  refine ByteImage.le_put_of_disjoint ?_
  by_cases hk : k = 4
  · subst hk
    exact Or.inl (Nat.le_refl _)
  · exact not_mem_ending hsize hk (by decide)

theorem endingLba_resizedEntries {k : ℕ} (hk : k ≠ 4) :
    (resizedEntries sectors img).endingLba k = (primaryEntries img).endingLba k :=
  ByteImage.le_put_of_disjoint (not_mem_ending hsize hk (by decide))

end

variable (img) in
theorem endingLba_four_resizedEntries (hsectors : IsDiskSize sectors) :
    (resizedEntries sectors img).endingLba 4 = sectors - 34 := by
  have hfits := hsectors.fits
  exact ByteImage.le_put_self (by omega)

/-! ### Headers that were resized -/

/-- What a header says of the resized table, its own checksum apart. -/
structure TableFields (sectors other place : ℕ) (img : ByteImage) (hdr : GptHeader) : Prop where
  headerSize : hdr.headerSize = (headerAt 1 img).headerSize
  alternate : hdr.alternateLba = other
  first : hdr.firstUsableLba = (headerAt 1 img).firstUsableLba
  last : hdr.lastUsableLba = sectors - 34
  place : hdr.partitionEntryLba = place
  count : hdr.numPartitionEntries = (headerAt 1 img).numPartitionEntries
  entrySize : hdr.partitionEntrySize = (headerAt 1 img).partitionEntrySize
  arrayCrc : hdr.partitionArrayCrc32 =
    (crc32Gpt (resizedEntries sectors img).bytes (headerAt 1 img).entriesBytes).toNat

theorem TableFields.entriesBytes {other place : ℕ} {hdr : GptHeader}
    (h : TableFields sectors other place img hdr) :
    hdr.entriesBytes = (headerAt 1 img).entriesBytes := by
  rw [GptHeader.entriesBytes, h.count, h.entrySize]
  rfl

/-- The fields lie in what is read of a header. -/
theorem TableFields.congr {other place : ℕ} {hdr hdr' : GptHeader}
    (h : TableFields sectors other place img hdr) (heq : ∀ i < 92, hdr' i = hdr i) :
    TableFields sectors other place img hdr' := by
  have hle : ∀ {off n : ℕ}, off + n ≤ 92 → hdr'.le off n = hdr.le off n := fun hoff =>
    ByteImage.le_congr fun i hi => heq _ (by omega)
  exact ⟨(hle (by decide)).trans h.headerSize, (hle (by decide)).trans h.alternate,
    (hle (by decide)).trans h.first, (hle (by decide)).trans h.last,
    (hle (by decide)).trans h.place, (hle (by decide)).trans h.count,
    (hle (by decide)).trans h.entrySize, (hle (by decide)).trans h.arrayCrc⟩

/-- The fields that are not set are those on the disk. -/
theorem le_resizedHeader {off n : ℕ} (h : off + n ≤ 16 ∨ 20 ≤ off ∧ off + n ≤ 32 ∨
      40 ≤ off ∧ off + n ≤ 48 ∨ 56 ≤ off ∧ off + n ≤ 88) :
    (resizedHeader io sectors img).le off n = (headerAt 1 img).le off n :=
  (GptHeader.le_resized h sectors _).trans
    (ByteImage.le_congr fun i hi => GptIo.headerOf_apply (by omega))

variable (io img) in
theorem tableFields_resizedHeader (hsectors : IsDiskSize sectors) :
    TableFields sectors (sectors - 1) (headerAt 1 img).partitionEntryLba img
      (resizedHeader io sectors img) := by
  have hfits := hsectors.fits
  exact {
    headerSize := le_resizedHeader (by decide)
    alternate := GptHeader.alternateLba_resized (by omega) _
    first := le_resizedHeader (by decide)
    last := GptHeader.lastUsableLba_resized (by omega) _
    place := le_resizedHeader (by decide)
    count := le_resizedHeader (by decide)
    entrySize := le_resizedHeader (by decide)
    arrayCrc := (GptHeader.partitionArrayCrc32_resized sectors _).trans
      (by rw [entriesBytes_headerOf]) }

variable (io img) in
theorem tableFields_backup (hsectors : IsDiskSize sectors) :
    TableFields sectors 1 (sectors - 33) img ((resizedHeader io sectors img).backup sectors) := by
  have hfits := hsectors.fits
  have h := tableFields_resizedHeader io img hsectors
  exact {
    headerSize := (GptHeader.le_backup (by decide) sectors).trans h.headerSize
    alternate := GptHeader.alternateLba_backup sectors
    first := (GptHeader.le_backup (by decide) sectors).trans h.first
    last := (GptHeader.le_backup (by decide) sectors).trans h.last
    place := GptHeader.partitionEntryLba_backup (by omega)
    count := (GptHeader.le_backup (by decide) sectors).trans h.count
    entrySize := (GptHeader.le_backup (by decide) sectors).trans h.entrySize
    arrayCrc := (GptHeader.le_backup (by decide) sectors).trans h.arrayCrc }

/-- The checksum is set over the bytes in memory. -/
theorem headerCrc32_resizedHeader : (resizedHeader io sectors img).headerCrc32 =
    (crc32Gpt ((resizedHeader io sectors img).put 16 4 0)
      (resizedHeader io sectors img).headerSize).toNat := GptHeader.headerCrc32_withCrc _

theorem headerCrc32_backup (hdr : GptHeader) (sectors : ℕ) : (hdr.backup sectors).headerCrc32 =
    (crc32Gpt ((hdr.backup sectors).put 16 4 0) (hdr.backup sectors).headerSize).toNat :=
  GptHeader.headerCrc32_withCrc _

/-- A header with the right checksum verifies in a sector that holds its first 92 bytes, if it is
no longer. -/
theorem headerVerifies_of_eq {hdr : GptHeader} {lba : ℕ} (hlba : lba < sectors)
    (hcrc : hdr.headerCrc32 = (crc32Gpt (hdr.put 16 4 0) hdr.headerSize).toNat)
    (hshort : hdr.headerSize ≤ 92) (heq : ∀ i < 92, headerAt lba img i = hdr i) :
    HeaderVerifies sectors lba img := by
  have hsize := GptHeader.headerSize_congr heq
  refine ⟨by omega, ?_⟩
  have hfield : (headerAt lba img).headerCrc32 = hdr.headerCrc32 :=
    ByteImage.le_congr fun i hi => heq _ (by omega)
  rw [hfield, hcrc, hsize]
  exact congrArg UInt32.toNat (crc32Gpt_congr fun i hi =>
    ByteImage.put_congr (fun j hj => (heq j hj).symm) i (by omega))

/-! ### The disk that is left -/

/-- Behind its first sector the disk is as the tables were written. -/
def IsLeft (sectors : ℕ) (hdr : GptHeader) (img img' : ByteImage) : Prop :=
  ∀ i, 512 ≤ i → i < sectors * 512 →
    img' i = writtenTables sectors hdr (resizedEntries sectors img) img i

/-- A disk that was changed with success. -/
theorem isLeft_of_planResize (h : AcceptedGpt sectors img) (hback : io.WritesBackup)
    {plan : GptHeader × GptEntries} (hplan : planResize io sectors img = .ok plan)
    (hzero : (resizeGptDataPartition io sectors img).2 = 0) :
    IsLeft sectors (resizedHeader io sectors img) img
      (resizeGptDataPartition io sectors img).1 := by
  obtain ⟨-, rfl⟩ := canGrow_of_planResize h hplan
  rw [resizeGptDataPartition, hplan] at hzero ⊢
  exact fun i hi hlt => writeResized_apply hback hzero hi hlt

section

variable {hdr : GptHeader} (hleft : IsLeft sectors hdr img img')

include hleft

/-- Before the backup header the disk is as the entries were written. -/
theorem IsLeft.before {i : ℕ} (hlow : 604 ≤ i) (hlast : i < (sectors - 1) * 512) :
    img' i = ((img.write (byteOffset hdr.partitionEntryLba) hdr.entriesBytes
      (resizedEntries sectors img).bytes).write ((sectors - 33) * 512) hdr.entriesBytes
      (resizedEntries sectors img).bytes) i := by
  have htop := hlast.trans_le (Nat.mul_le_mul_right 512 (Nat.sub_le sectors 1))
  rw [hleft i (by omega) htop, writtenTables, ByteImage.write_of_not_mem (.inl hlast)]
  exact ByteImage.write_apply_congr (ByteImage.write_of_not_mem (.inr (by omega)))

/-- Entries elsewhere are not written over. -/
theorem IsLeft.entries_of_not_mem {i : ℕ} (hi : i < hdr.entriesBytes)
    (hlow : 1024 ≤ byteOffset hdr.partitionEntryLba + i)
    (hlast : byteOffset hdr.partitionEntryLba + i < (sectors - 1) * 512)
    (hnot : byteOffset hdr.partitionEntryLba + i < (sectors - 33) * 512 ∨
      (sectors - 33) * 512 + hdr.entriesBytes ≤ byteOffset hdr.partitionEntryLba + i) :
    img' (byteOffset hdr.partitionEntryLba + i) = (resizedEntries sectors img).bytes i := by
  rw [hleft.before (by omega) hlast, ByteImage.write_of_not_mem hnot,
    ByteImage.write_add hi]

variable (hsectors : IsDiskSize sectors)

include hsectors

theorem IsLeft.header : ∀ i < 92, headerAt 1 img' i = hdr i := by
  intro i hi
  have hlarge := hsectors.large
  rw [headerAt, ByteImage.drop_apply, Nat.one_mul, hleft _ (by omega) (by omega), writtenTables,
    ByteImage.write_of_not_mem (by omega), ByteImage.write_of_not_mem (by omega),
    ByteImage.write_add hi]

theorem IsLeft.backupHeader : ∀ i < 92, headerAt (sectors - 1) img' i = hdr.backup sectors i := by
  intro i hi
  have hlarge := hsectors.large
  rw [headerAt, ByteImage.drop_apply, hleft _ (by omega) (by omega), writtenTables,
    ByteImage.write_add hi]

/-- The backup is written over entries in the last sectors. -/
theorem IsLeft.entries_of_mem {i : ℕ} (hlow : (sectors - 33) * 512 ≤ i)
    (hhigh : i < (sectors - 33) * 512 + hdr.entriesBytes) (hlast : i < (sectors - 1) * 512) :
    img' i = (resizedEntries sectors img).bytes (i - (sectors - 33) * 512) := by
  have hlarge := hsectors.large
  rw [hleft.before (by omega) hlast, ByteImage.write_of_mem ⟨hlow, hhigh⟩]

theorem IsLeft.backupEntries {i : ℕ} (hi : i < hdr.entriesBytes) (hlast : i < 32 * 512) :
    img' ((sectors - 33) * 512 + i) = (resizedEntries sectors img).bytes i := by
  have hlarge := hsectors.large
  rw [hleft.entries_of_mem hsectors (Nat.le_add_right _ _) (Nat.add_lt_add_left hi _) (by omega),
    Nat.add_sub_cancel_left]

end

/-! ### A table that is read back -/

/-- An entry lies in the bytes of all entries. -/
theorem entry_lt {hdr : GptHeader} (hsize : 128 ≤ hdr.partitionEntrySize) {k j : ℕ}
    (hk : k < hdr.numPartitionEntries) (hj : j < 128) :
    k * hdr.partitionEntrySize + j < hdr.entriesBytes := by
  have hle := Nat.mul_le_mul_right hdr.partitionEntrySize (Nat.succ_le_of_lt hk)
  rw [Nat.succ_mul] at hle
  exact (Nat.add_lt_add_left (hj.trans_le hsize) _).trans_le hle

section

variable {lba other place : ℕ} (hsize : 128 ≤ (headerAt 1 img).partitionEntrySize)
  (hfields : TableFields sectors other place img (headerAt lba img'))
  (hbytes : ∀ i < (headerAt 1 img).entriesBytes,
    img' (place * 512 + i) = (resizedEntries sectors img).bytes i)

include hfields hbytes

theorem bytes_tableEntries : ∀ i < (headerAt 1 img).entriesBytes,
    (tableEntries (headerAt lba img') img').bytes i = (resizedEntries sectors img).bytes i := by
  intro i hi
  rw [← hbytes i hi, ← hfields.place]
  rfl

include hsize

theorem hasType_tableEntries {k : ℕ} (hk : k < (headerAt 1 img).numPartitionEntries) :
    (tableEntries (headerAt lba img') img').hasType k = (primaryEntries img).hasType k := by
  have hT : (tableEntries (headerAt lba img') img').size =
      (headerAt 1 img).partitionEntrySize := hfields.entrySize
  rw [← hasType_resizedEntries sectors hsize]
  refine GptEntries.hasType_congr fun i hi => ?_
  rw [hT]
  exact bytes_tableEntries hfields hbytes _ (entry_lt hsize hk (by omega))

theorem used_tableEntries {k : ℕ} :
    (headerAt lba img').Used img' k ↔ (headerAt 1 img).Used img k := by
  rw [GptHeader.Used, GptHeader.Used, hfields.count]
  exact and_congr_right fun hk => by
    rw [hasType_tableEntries hsize hfields hbytes hk]
    rfl

theorem le_tableEntries {k off : ℕ} (hk : k < (headerAt 1 img).numPartitionEntries)
    (hoff : off + 8 ≤ 128) : (tableEntries (headerAt lba img') img').bytes.le
      (k * (headerAt 1 img).partitionEntrySize + off) 8 = (resizedEntries sectors img).bytes.le
      (k * (headerAt 1 img).partitionEntrySize + off) 8 := by
  refine ByteImage.le_congr fun i hi => bytes_tableEntries hfields hbytes _ ?_
  rw [Nat.add_assoc]
  exact entry_lt hsize hk (by omega)

theorem startingLba_tableEntries {k : ℕ} (hk : k < (headerAt 1 img).numPartitionEntries) :
    (tableEntries (headerAt lba img') img').startingLba k = (primaryEntries img).startingLba k := by
  rw [← startingLba_resizedEntries sectors hsize, GptEntries.startingLba,
    show (tableEntries (headerAt lba img') img').size = _ from hfields.entrySize]
  exact le_tableEntries hsize hfields hbytes hk (by decide)

theorem endingLba_tableEntries {k : ℕ} (hk : k < (headerAt 1 img).numPartitionEntries) :
    (tableEntries (headerAt lba img') img').endingLba k =
      (resizedEntries sectors img).endingLba k := by
  rw [GptEntries.endingLba,
    show (tableEntries (headerAt lba img') img').size = _ from hfields.entrySize]
  exact le_tableEntries hsize hfields hbytes hk (by decide)

theorem region_tableEntries {k : ℕ} (hk : k < (headerAt 1 img).numPartitionEntries) :
    (tableEntries (headerAt lba img') img').region k = (resizedEntries sectors img).region k := by
  rw [GptEntries.region, GptEntries.region, startingLba_tableEntries hsize hfields hbytes hk,
    endingLba_tableEntries hsize hfields hbytes hk, startingLba_resizedEntries _ hsize]

end

/-! ### Where partitions lie -/

theorem disjoint_of_le {a b c d : ℕ} (h : b ≤ c ∨ d ≤ a) :
    Disjoint (Set.Ico a b) (Set.Ico c d) := by
  rw [Set.Ico_disjoint_Ico]
  omega

theorem le_of_disjoint {a b c d : ℕ} (h : Disjoint (Set.Ico a b) (Set.Ico c d)) (hab : a < b)
    (hcd : c < d) : b ≤ c ∨ d ≤ a := by
  rw [Set.Ico_disjoint_Ico] at h
  omega

namespace ResizableGpt

variable (h : ResizableGpt sectors img) (hgrow : CanGrow sectors img)

include h

theorem region_resizedEntries {k : ℕ} (hk : k ≠ 4) :
    (resizedEntries sectors img).region k = (primaryEntries img).region k := by
  rw [GptEntries.region, GptEntries.region, startingLba_resizedEntries _ h.entrySize.1,
    endingLba_resizedEntries h.entrySize.1 hk]

/-- Partition 5 reaches up to the place of the backup. -/
theorem region_four_resizedEntries : (resizedEntries sectors img).region 4 =
    Set.Ico ((primaryEntries img).startingLba 4 * 512) ((sectors - 33) * 512) := by
  have hlarge := h.size.large
  rw [GptEntries.region, startingLba_resizedEntries _ h.entrySize.1,
    endingLba_four_resizedEntries _ h.size]
  congr 2
  omega

/-- The other partitions lie before partition 5. -/
theorem disjoint_region_four {k : ℕ} (hk : (headerAt 1 img).Used img k) (hne : k ≠ 4) :
    Disjoint ((resizedEntries sectors img).region 4) ((resizedEntries sectors img).region k) := by
  have hlt := h.highest k hk hne
  rw [h.region_four_resizedEntries, h.region_resizedEntries hne]
  exact disjoint_of_le (Or.inr (Nat.mul_le_mul_right 512 hlt))

include hgrow

/-- No partition reaches the place of the backup. -/
theorem region_before {k : ℕ} (hk : (headerAt 1 img).Used img k) :
    ((resizedEntries sectors img).endingLba k + 1) * 512 ≤ (sectors - 33) * 512 := by
  have hlarge := h.size.large
  refine Nat.mul_le_mul_right 512 ?_
  by_cases hne : k = 4
  · subst hne
    rw [endingLba_four_resizedEntries _ h.size]
    omega
  · have hlt := h.highest k hk hne
    have hstarts := hgrow.starts
    rw [endingLba_resizedEntries h.entrySize.1 hne]
    omega

/-- Partitions that were placed well stay so. -/
theorem partitionsPlaced {lba other place : ℕ}
    (hfields : TableFields sectors other place img (headerAt lba img'))
    (hbytes : ∀ i < (headerAt 1 img).entriesBytes,
      img' (place * 512 + i) = (resizedEntries sectors img).bytes i)
    (hplaced : PartitionsPlaced (headerAt 1 img) img) :
    PartitionsPlaced (headerAt lba img') img' where
  inside k hk := by
    have hk := (used_tableEntries h.entrySize.1 hfields hbytes).mp hk
    have hbefore := h.region_before hgrow hk
    have hlarge := h.size.large
    rw [hfields.first, hfields.last, startingLba_tableEntries h.entrySize.1 hfields hbytes hk.1,
      endingLba_tableEntries h.entrySize.1 hfields hbytes hk.1]
    exact ⟨(hplaced.inside k hk).1, by omega⟩
  apart j k hj hk hne := by
    have hj := (used_tableEntries h.entrySize.1 hfields hbytes).mp hj
    have hk := (used_tableEntries h.entrySize.1 hfields hbytes).mp hk
    rw [region_tableEntries h.entrySize.1 hfields hbytes hj.1,
      region_tableEntries h.entrySize.1 hfields hbytes hk.1]
    by_cases hfour : j = 4
    · subst hfour
      exact h.disjoint_region_four hk hne.symm
    by_cases hfour' : k = 4
    · subst hfour'
      exact (h.disjoint_region_four hj hne).symm
    · rw [h.region_resizedEntries hfour, h.region_resizedEntries hfour']
      exact hplaced.apart j k hj hk hne

/-- A table is right when its header verifies, its entries are there, and they have a place of their
own. -/
theorem resizedTable {lba other place : ℕ}
    (hfields : TableFields sectors other place img (headerAt lba img'))
    (hbytes : ∀ i < (headerAt 1 img).entriesBytes,
      img' (place * 512 + i) = (resizedEntries sectors img).bytes i)
    (hverifies : HeaderVerifies sectors lba img')
    (honDisk : place * 512 + (headerAt 1 img).entriesBytes ≤ sectors * 512)
    (hheaders : ∀ sector, sector = 1 ∨ sector = sectors - 1 → Disjoint
      (Set.Ico (place * 512) (place * 512 + (headerAt 1 img).entriesBytes)) (sectorRegion sector))
    (hparts : ∀ k, (headerAt 1 img).Used img k → Disjoint
      (Set.Ico (place * 512) (place * 512 + (headerAt 1 img).entriesBytes))
      ((resizedEntries sectors img).region k)) :
    ResizedTable sectors lba other img img' := by
  have hbytes' := bytes_tableEntries hfields hbytes
  have hregion : (headerAt lba img').arrayRegion =
      Set.Ico (place * 512) (place * 512 + (headerAt 1 img).entriesBytes) := by
    rw [GptHeader.arrayRegion, hfields.place, hfields.entriesBytes]
  exact {
    header := hverifies
    array := by
      refine ⟨by rw [hfields.place, hfields.entriesBytes]; exact honDisk, ?_⟩
      rw [hfields.arrayCrc, hfields.entriesBytes, crc32Gpt_congr hbytes']
    alternate := hfields.alternate
    count := hfields.count
    entrySize := hfields.entrySize
    intact := fun i hi hnot => (hbytes' i hi).trans (ByteImage.write_of_not_mem hnot)
    ending := by
      rw [endingLba_tableEntries h.entrySize.1 hfields hbytes hgrow.five,
        endingLba_four_resizedEntries _ h.size, hfields.last]
    stays := h.partitionsPlaced hgrow hfields hbytes
    offHeaders := by
      rw [hregion]
      exact ⟨hheaders 1 (Or.inl rfl), hheaders _ (Or.inr rfl)⟩
    offPartitions := fun k hk => by
      have hk := (used_tableEntries h.entrySize.1 hfields hbytes).mp hk
      rw [hregion, region_tableEntries h.entrySize.1 hfields hbytes hk.1]
      exact hparts k hk }

/-- Five entries have more than one sector. -/
theorem le_entriesBytes : 640 ≤ (headerAt 1 img).entriesBytes :=
  Nat.mul_le_mul hgrow.five h.entrySize.1

end ResizableGpt

namespace ResizeFits

variable (hfits : ResizeFits sectors img) (h : ResizableGpt sectors img)
  (hgrow : CanGrow sectors img)

include hfits h hgrow

/-- The entries lie between the two headers. -/
theorem between : 1024 ≤ (headerAt 1 img).partitionEntryLba * 512 ∧
    (headerAt 1 img).partitionEntryLba * 512 + (headerAt 1 img).entriesBytes ≤
      (sectors - 1) * 512 := by
  have hlarge := h.size.large
  have hn := h.le_entriesBytes hgrow
  have honDisk := h.onDisk
  rcases le_of_disjoint hfits.offHeaders.1 (by omega) (by omega) with hlow | hlow
  · omega
  rcases le_of_disjoint hfits.offHeaders.2 (by omega) (by omega) with hhigh | hhigh
  · exact ⟨hlow, hhigh⟩
  · omega

variable (hleft : IsLeft sectors (resizedHeader io sectors img) img img')

include hleft

/-- The entries are read back. -/
theorem entries_of_isLeft {i : ℕ} (hi : i < (headerAt 1 img).entriesBytes) :
    img' ((headerAt 1 img).partitionEntryLba * 512 + i) = (resizedEntries sectors img).bytes i := by
  obtain ⟨hlow, hhigh⟩ := hfits.between h hgrow
  have hfields := tableFields_resizedHeader io img h.size
  have hplace : byteOffset (resizedHeader io sectors img).partitionEntryLba =
      (headerAt 1 img).partitionEntryLba * 512 := by
    rw [hfields.place, h.toAcceptedGpt.byteOffset]
  have hlast := (Nat.add_lt_add_left hi ((headerAt 1 img).partitionEntryLba * 512)).trans_le hhigh
  by_cases hmem : (sectors - 33) * 512 ≤ (headerAt 1 img).partitionEntryLba * 512 + i ∧
      (headerAt 1 img).partitionEntryLba * 512 + i <
        (sectors - 33) * 512 + (headerAt 1 img).entriesBytes
  · rw [hleft.entries_of_mem h.size hmem.1 (by rw [hfields.entriesBytes]; exact hmem.2) hlast]
    exact hfits.copy i hi hmem.1 hmem.2
  · rw [not_and_or, not_le, not_lt] at hmem
    have hbytes := hleft.entries_of_not_mem (i := i)
    rw [hplace, hfields.entriesBytes] at hbytes
    exact hbytes hi (hlow.trans (Nat.le_add_right _ _)) hlast hmem

/-- Both tables are right. -/
theorem resizedGpt : ResizedGpt sectors img img' := by
  have hlarge := h.size.large
  have hn := hfits.entriesBytes
  have hfields := (tableFields_resizedHeader io img h.size).congr
    (hleft.header h.size)
  have hfields' := (tableFields_backup io img h.size).congr
    (hleft.backupHeader h.size)
  have hbytes : ∀ i < (headerAt 1 img).entriesBytes,
      img' ((headerAt 1 img).partitionEntryLba * 512 + i) = (resizedEntries sectors img).bytes i :=
    fun i hi => hfits.entries_of_isLeft h hgrow hleft hi
  have hbytes' : ∀ i < (headerAt 1 img).entriesBytes,
      img' ((sectors - 33) * 512 + i) = (resizedEntries sectors img).bytes i := fun i hi =>
    hleft.backupEntries h.size
      (hi.trans_eq (tableFields_resizedHeader io _ h.size).entriesBytes.symm)
      (hi.trans_le hn)
  have hprimary : ResizedTable sectors 1 (sectors - 1) img img' := by
    refine h.resizedTable hgrow hfields hbytes ?_ h.onDisk ?_ ?_
    · exact headerVerifies_of_eq (by omega) headerCrc32_resizedHeader
        ((tableFields_resizedHeader _ _ h.size).headerSize.trans_le hfits.headerSize)
        (hleft.header h.size)
    · rintro sector (rfl | rfl)
      · exact hfits.offHeaders.1
      · exact hfits.offHeaders.2
    · intro k hk
      by_cases hne : k = 4
      · subst hne
        rw [h.region_four_resizedEntries]
        exact hfits.offFifth
      · rw [h.region_resizedEntries hne]
        exact hfits.offPartitions k hk hne
  have hbackup : ResizedTable sectors (sectors - 1) 1 img img' := by
    refine h.resizedTable hgrow hfields' hbytes' ?_ (by omega) ?_ ?_
    · exact headerVerifies_of_eq (by omega) (headerCrc32_backup _ _)
        ((tableFields_backup _ _ h.size).headerSize.trans_le hfits.headerSize)
        (hleft.backupHeader h.size)
    · rintro sector (rfl | rfl)
      · exact disjoint_of_le (Or.inr (by omega))
      · exact disjoint_of_le (Or.inl (by omega))
    · intro k hk
      exact disjoint_of_le (Or.inr (h.region_before hgrow hk))
  refine ⟨hprimary, hbackup, fun i hi => ?_⟩
  rw [bytes_tableEntries hfields hbytes i hi, bytes_tableEntries hfields' hbytes' i hi]

end ResizeFits

/-! ### What the tables that are left say of the disk before -/

/-- No call fails, with these bytes behind the header in memory. -/
def GptIo.unfailing (stack : ByteImage) : GptIo :=
  { opens := true, allocates := true, reads := fun _ => true, cut := fun _ => none, stack }

theorem GptIo.succeeds_unfailing (stack : ByteImage) : (GptIo.unfailing stack).Succeeds :=
  ⟨rfl, rfl, fun _ => rfl, fun _ => rfl⟩

/-- It returns success when nothing fails, wherever the backup comes to lie. -/
theorem writeResized_snd (hio : io.Succeeds) (hsectors : IsDiskSize sectors) {hdr : GptHeader}
    {entries : GptEntries}
    (honDisk : byteOffset hdr.partitionEntryLba + hdr.entriesBytes ≤ sectors * 512) :
    (writeResized io sectors hdr entries img).2 = 0 := by
  have hlarge := hsectors.large
  rw [writeResized]
  dsimp only
  rw [GptIo.pwrite_of_fits (hio.cut _) honDisk]
  dsimp only
  rw [GptIo.pwrite_of_fits (hio.cut _) (by omega)]
  dsimp only
  split <;> rfl

namespace ResizableGpt

variable (h : ResizableGpt sectors img) (hgrow : CanGrow sectors img)

include h

/-- Such a disk is changed with success. -/
theorem isLeft (hgrow : CanGrow sectors img) (hio : io.Succeeds) :
    (resizeGptDataPartition io sectors img).2 = 0 ∧
      IsLeft sectors (resizedHeader io sectors img) img
        (resizeGptDataPartition io sectors img).1 := by
  have hplan := planResize_of_succeeds hio h.toAcceptedGpt hgrow
  have hfields := tableFields_resizedHeader io img h.size
  have hzero : (resizeGptDataPartition io sectors img).2 = 0 := by
    rw [resizeGptDataPartition, hplan]
    refine writeResized_snd hio h.size ?_
    rw [hfields.place, hfields.entriesBytes, h.toAcceptedGpt.byteOffset]
    exact h.onDisk
  exact ⟨hzero, isLeft_of_planResize h.toAcceptedGpt hio.writesBackup hplan hzero⟩

end ResizableGpt

/-- The region of the entries at the start of the disk did not change. -/
theorem ResizableGpt.arrayRegion_eq (h : ResizableGpt sectors img)
    (hleft : IsLeft sectors (resizedHeader io sectors img) img img') :
    (headerAt 1 img').arrayRegion = (headerAt 1 img).arrayRegion := by
  have hfields := (tableFields_resizedHeader io img h.size).congr
    (hleft.header h.size)
  rw [GptHeader.arrayRegion, hfields.place, hfields.entriesBytes]
  rfl

section

variable (h : ResizableGpt sectors img)
  (hleft : IsLeft sectors (resizedHeader io sectors img) img img')
  (hright : ResizedGpt sectors img img')

include h hleft hright

/-- The backup is apart from its header. -/
theorem ResizedGpt.entriesBytes_le (hgrow : CanGrow sectors img) :
    (headerAt 1 img).entriesBytes ≤ 32 * 512 := by
  have hlarge := h.size.large
  have hn := h.le_entriesBytes hgrow
  have hfields := (tableFields_backup io img h.size).congr
    (hleft.backupHeader h.size)
  have hoff := hright.backup.offHeaders.2
  rw [GptHeader.arrayRegion, hfields.place, hfields.entriesBytes] at hoff
  rcases le_of_disjoint hoff (by omega) (by omega) with hle | hle
  · omega
  · omega

/-- The header of the backup is read within the last sector. -/
theorem ResizedGpt.headerSize_le : (headerAt 1 img).headerSize ≤ 512 := by
  have hlarge := h.size.large
  have hfields := (tableFields_backup io img h.size).congr
    (hleft.backupHeader h.size)
  have honDisk := hright.backup.header.onDisk
  rw [hfields.headerSize] at honDisk
  omega

/-- The entries are those that were written, the end of partition 5 among them. -/
theorem ResizedGpt.bytes_eq : ∀ i < (headerAt 1 img).entriesBytes,
    img' ((headerAt 1 img).partitionEntryLba * 512 + i) =
      (resizedEntries sectors img).bytes i := by
  have hfields := (tableFields_resizedHeader io img h.size).congr
    (hleft.header h.size)
  intro i hi
  have htable : img' ((headerAt 1 img).partitionEntryLba * 512 + i) =
      (tableEntries (headerAt 1 img') img').bytes i := by
    rw [← hfields.place]
    rfl
  have hsize : (tableEntries (headerAt 1 img') img').size =
      (headerAt 1 img).partitionEntrySize := hfields.entrySize
  rw [htable]
  by_cases hmem : 4 * (headerAt 1 img).partitionEntrySize + 40 ≤ i ∧
      i < 4 * (headerAt 1 img).partitionEntrySize + 48
  · have hending := hright.primary.ending
    rw [hfields.last, ← endingLba_four_resizedEntries img h.size, GptEntries.endingLba,
      hsize] at hending
    have hbyte := ByteImage.eq_of_le_eq hending
      (i - (4 * (headerAt 1 img).partitionEntrySize + 40)) (by omega)
    rw [Nat.add_sub_cancel' hmem.1] at hbyte
    exact hbyte.trans (congrArg _ (Nat.add_sub_cancel' hmem.1))
  · rw [not_and_or, not_le, not_lt] at hmem
    exact (hright.primary.intact i hi hmem).trans (ByteImage.write_of_not_mem hmem).symm

/-- What lies behind the header in its sector is left. -/
theorem ResizedGpt.apply_header {i : ℕ} (hi : 92 ≤ i) (hlt : i < 512) :
    headerAt 1 img' i = headerAt 1 img i := by
  have hlarge := h.size.large
  have hoff := hright.primary.offHeaders.1
  rw [h.arrayRegion_eq hleft] at hoff
  have hfields := tableFields_resizedHeader io img h.size
  have hplace : byteOffset (resizedHeader io sectors img).partitionEntryLba =
      (headerAt 1 img).partitionEntryLba * 512 := by
    rw [hfields.place, h.toAcceptedGpt.byteOffset]
  have hnot := Set.disjoint_right.mp hoff (show 512 + i ∈ sectorRegion 1 from ⟨by omega, by omega⟩)
  rw [GptHeader.arrayRegion, Set.mem_Ico, not_and_or, not_le, not_lt] at hnot
  rw [headerAt, headerAt, ByteImage.drop_apply, ByteImage.drop_apply, Nat.one_mul,
    hleft _ (by omega) (by omega), writtenTables, ByteImage.write_of_not_mem (.inl (by omega)),
    ByteImage.write_of_not_mem (.inl (by omega)), ByteImage.write_of_not_mem (.inr (by omega)),
    hplace, hfields.entriesBytes, ByteImage.write_of_not_mem hnot]

end

/-- Behind the bytes that are read, a header in memory is what was there. -/
theorem resizedHeader_apply {i : ℕ} (hi : 92 ≤ i) : resizedHeader io sectors img i = io.stack i :=
  (GptHeader.resized_apply hi _ _).trans (if_neg (Nat.not_lt.mpr hi))

/-- The sector of the header with another byte before `n`. -/
def withOtherByte (n : ℕ) (hdr : GptHeader) : ByteImage := fun i =>
  if i + 1 = n then hdr i + 1 else hdr i

/-- The checksum of a long header is wrong for one content of memory. -/
theorem not_headerVerifies_of_lt {hdr : GptHeader} (hsectors : IsDiskSize sectors)
    (hstack : ∀ i, 92 ≤ i → i < hdr.headerSize → io.stack i = withOtherByte hdr.headerSize hdr i)
    (hlong : 92 < hdr.headerSize) (hhdr : hdr = headerAt 1 img')
    (hleft : IsLeft sectors (resizedHeader io sectors img) img img') :
    ¬ HeaderVerifies sectors 1 img' := by
  intro hverifies
  have heq := hleft.header hsectors
  rw [← hhdr] at heq
  have hcrc := hverifies.crc
  rw [← hhdr] at hcrc
  have hfield : hdr.headerCrc32 = (resizedHeader io sectors img).headerCrc32 :=
    ByteImage.le_congr fun i hi => heq _ (by omega)
  rw [hfield, headerCrc32_resizedHeader, ← GptHeader.headerSize_congr heq] at hcrc
  obtain ⟨n, hn⟩ := Nat.exists_eq_add_of_lt (Nat.zero_lt_of_lt hlong)
  rw [Nat.zero_add] at hn
  have hbehind : ∀ (other : GptHeader) {i : ℕ}, 92 ≤ i → other.put 16 4 0 i = other i :=
    fun other i hi => ByteImage.write_of_not_mem (.inr (by omega))
  rw [hn] at hcrc
  refine crc32Gpt_ne (fun i hi => ?_) ?_ (UInt32.toNat_inj.mp hcrc)
  · rcases Nat.lt_or_ge i 92 with hlt | hge
    · exact ByteImage.put_congr (fun j hj => (heq j hj).symm) i hlt
    · rw [hbehind _ hge, hbehind _ hge, resizedHeader_apply hge, hstack i hge (by omega),
        withOtherByte, if_neg (by omega)]
  · rw [hbehind _ (by omega), hbehind _ (by omega), resizedHeader_apply (by omega),
      hstack n (by omega) (by omega), withOtherByte, if_pos hn.symm]
    exact fun hone => absurd (UInt8.add_eq_left.mp hone) (by decide)

/-! ### When the tables are right -/

section

variable (h : ResizableGpt sectors img)
  (hkeeps : ∀ io : GptIo, io.WritesBackup → ResizeKeepsGpt io sectors img)

include h hkeeps

/-- Right tables are left also when nothing fails. -/
theorem ResizableGpt.resizedGpt (hgrow : CanGrow sectors img) (stack : ByteImage) :
    ∃ img', IsLeft sectors (resizedHeader (.unfailing stack) sectors img) img img' ∧
      ResizedGpt sectors img img' := by
  have hio := GptIo.succeeds_unfailing stack
  obtain ⟨hzero, hleft⟩ := h.isLeft hgrow hio
  exact ⟨_, hleft, (hkeeps _ hio.writesBackup).kept _
    (planResize_of_succeeds hio h.toAcceptedGpt hgrow) hzero⟩

theorem ResizableGpt.headerSize_le (hgrow : CanGrow sectors img) :
    (headerAt 1 img).headerSize ≤ 92 := by
  by_contra hlong
  rw [not_le] at hlong
  obtain ⟨img', hleft, hright⟩ := h.resizedGpt hkeeps hgrow
    (withOtherByte (headerAt 1 img).headerSize (headerAt 1 img))
  have hsize := hright.headerSize_le h hleft
  have hsame : (headerAt 1 img').headerSize = (headerAt 1 img).headerSize :=
    ((tableFields_resizedHeader _ _ h.size).congr (hleft.header h.size)).headerSize
  refine not_headerVerifies_of_lt h.size (fun i hge hlt => ?_) (hsame ▸ hlong) rfl hleft
    hright.primary.header
  have happly := hright.apply_header h hleft hge (by omega)
  rw [hsame]
  unfold withOtherByte
  rw [happly]
  rfl

theorem ResizableGpt.resizeFits (hgrow : CanGrow sectors img) : ResizeFits sectors img := by
  have hlarge := h.size.large
  obtain ⟨img', hleft, hright⟩ := h.resizedGpt hkeeps hgrow .blank
  have hregion := h.arrayRegion_eq hleft
  have hn := hright.entriesBytes_le h hleft hgrow
  have hend : (sectors - 33) * 512 + 32 * 512 = (sectors - 1) * 512 := by omega
  have hbytes := hright.bytes_eq h hleft
  have hfields := (tableFields_resizedHeader _ img h.size).congr (hleft.header h.size)
  have hparts : ∀ k, (headerAt 1 img).Used img k →
      Disjoint (headerAt 1 img).arrayRegion ((resizedEntries sectors img).region k) := by
    intro k hk
    have hoff := hright.primary.offPartitions k
      ((used_tableEntries h.entrySize.1 hfields hbytes).mpr hk)
    rwa [hregion, region_tableEntries h.entrySize.1 hfields hbytes hk.1] at hoff
  exact {
    headerSize := h.headerSize_le hkeeps hgrow
    entriesBytes := hn
    offHeaders := hregion ▸ hright.primary.offHeaders
    offPartitions := fun k hk hne => by
      rw [← h.region_resizedEntries hne]
      exact hparts k hk
    offFifth := by
      rw [← h.region_four_resizedEntries]
      exact hparts 4 ⟨hgrow.five, hgrow.used⟩
    copy := fun i hi hlow hhigh => by
      have hwritten := hleft.entries_of_mem h.size hlow
        (hhigh.trans_eq (congrArg _ (tableFields_resizedHeader _ _ h.size).entriesBytes.symm))
        (hhigh.trans_le ((Nat.add_le_add_left hn _).trans_eq hend))
      exact hwritten.symm.trans (hbytes i hi) }

end

/-- **The tables that are left are right** exactly when, on a disk that is changed, the header has
no more than 92 bytes, the entries fit before the header of the backup, and they have a place of
their own. -/
theorem resizeKeepsGpt_iff (h : ResizableGpt sectors img) :
    (∀ io : GptIo, io.WritesBackup → ResizeKeepsGpt io sectors img) ↔
      (CanGrow sectors img → ResizeFits sectors img) := by
  refine ⟨fun hkeeps hgrow => h.resizeFits hkeeps hgrow, fun hfits io hback => ⟨?_, ?_⟩⟩
  · intro plan hplan hzero
    have hgrow := (canGrow_of_planResize h.toAcceptedGpt hplan).1
    exact (hfits hgrow).resizedGpt h hgrow
      (isLeft_of_planResize h.toAcceptedGpt hback hplan hzero)
  · intro hplan
    rw [resizeGptDataPartition, hplan]

/-! ### Two disks -/

/-- The header of an image with `count` entries, usable up to sector 8158. -/
def imageHeader (count : ℕ) : GptHeader :=
  GptHeader.withCrc (((((((ByteImage.blank.put 0 8 0x5452415020494645).put 12 4 92).put
    40 8 2048).put 48 8 8158).put 72 8 2).put 80 4 count).put 84 4 128)

/-- An entry for the sectors from 2048 to 4095. -/
def imageEntry : ByteImage := ((ByteImage.blank.put 0 1 1).put 32 8 2048).put 40 8 4095

/-- Only the fifth entry is in use. -/
def imageEntries : GptEntries := ⟨128, ByteImage.blank.write (4 * 128) 48 imageEntry⟩

/-- A disk after the image was written to it: only partition 5 is in use. -/
def imagedDisk (count : ℕ) : ByteImage :=
  (ByteImage.blank.write 512 92 (imageHeader count)).write (1024 + 4 * 128) 48 imageEntry

section

variable {count : ℕ}

theorem headerAt_imagedDisk : ∀ i < 92, headerAt 1 (imagedDisk count) i = imageHeader count i := by
  intro i hi
  rw [headerAt, ByteImage.drop_apply, imagedDisk, ByteImage.write_of_not_mem (.inl (by omega)),
    Nat.one_mul, ByteImage.write_add hi]

theorem le_imageHeader {off n : ℕ} (h : 20 ≤ off ∨ off + n ≤ 16) : (imageHeader count).le off n =
    (((((((ByteImage.blank.put 0 8 0x5452415020494645).put 12 4 92).put
      40 8 2048).put 48 8 8158).put 72 8 2).put 80 4 count).put 84 4 128).le off n :=
  GptHeader.le_withCrc h.symm

theorem le_headerAt_imagedDisk {off n : ℕ} (h : off + n ≤ 92) :
    (headerAt 1 (imagedDisk count)).le off n = (imageHeader count).le off n :=
  ByteImage.le_congr fun i hi => headerAt_imagedDisk _ (by omega)

theorem numPartitionEntries_imagedDisk (hcount : count < 2 ^ 32) :
    (headerAt 1 (imagedDisk count)).numPartitionEntries = count := by
  rw [GptHeader.numPartitionEntries, le_headerAt_imagedDisk (by decide),
    le_imageHeader (by decide), ByteImage.le_put_of_disjoint (by decide),
    ByteImage.le_put_self (by omega)]

theorem partitionEntrySize_imagedDisk :
    (headerAt 1 (imagedDisk count)).partitionEntrySize = 128 := by
  rw [GptHeader.partitionEntrySize, le_headerAt_imagedDisk (by decide),
    le_imageHeader (by decide), ByteImage.le_put_self (by decide)]

theorem partitionEntryLba_imagedDisk : (headerAt 1 (imagedDisk count)).partitionEntryLba = 2 := by
  rw [GptHeader.partitionEntryLba, le_headerAt_imagedDisk (by decide),
    le_imageHeader (by decide), ByteImage.le_put_of_disjoint (by decide),
    ByteImage.le_put_of_disjoint (by decide), ByteImage.le_put_self (by decide)]

variable (count) in
theorem headerSize_imageHeader : (imageHeader count).headerSize = 92 := by
  rw [GptHeader.headerSize, le_imageHeader (by decide), ByteImage.le_put_of_disjoint (by decide),
    ByteImage.le_put_of_disjoint (by decide), ByteImage.le_put_of_disjoint (by decide),
    ByteImage.le_put_of_disjoint (by decide), ByteImage.le_put_of_disjoint (by decide),
    ByteImage.le_put_self (by decide)]

theorem hasSignature_imageHeader : (imageHeader count).hasSignature = true := by
  rw [GptHeader.hasSignature, le_imageHeader (by decide), ByteImage.le_put_of_disjoint (by decide),
    ByteImage.le_put_of_disjoint (by decide), ByteImage.le_put_of_disjoint (by decide),
    ByteImage.le_put_of_disjoint (by decide), ByteImage.le_put_of_disjoint (by decide),
    ByteImage.le_put_of_disjoint (by decide), ByteImage.le_put_self (by decide)]
  rfl

theorem primaryEntries_imagedDisk : primaryEntries (imagedDisk count) = imageEntries := by
  rw [primaryEntries, tableEntries, partitionEntrySize_imagedDisk, partitionEntryLba_imagedDisk,
    imageEntries]
  congr 1
  funext i
  rw [ByteImage.drop_apply, imagedDisk]
  by_cases hi : 512 ≤ i ∧ i < 512 + 48
  · rw [ByteImage.write_of_mem (by omega), ByteImage.write_of_mem hi]
    exact congrArg imageEntry (by omega)
  · have hnot : i < 512 ∨ 512 + 48 ≤ i := by omega
    rw [ByteImage.write_of_not_mem (by omega), ByteImage.write_of_not_mem (by omega),
      ByteImage.write_of_not_mem hnot]
    rfl

theorem hasType_imageEntries {k : ℕ} (hk : k ≠ 4) : imageEntries.hasType k = false := by
  rw [GptEntries.hasType, List.any_eq_false]
  intro i hi
  have hlt := List.mem_range.mp hi
  have hnot : k * 128 + i < 4 * 128 ∨ 4 * 128 + 48 ≤ k * 128 + i := by omega
  have hzero : imageEntries.bytes (k * 128 + i) = 0 := ByteImage.write_of_not_mem hnot
  exact fun hne => of_decide_eq_true hne hzero

theorem resizableGpt_imagedDisk (hcount : 5 ≤ count ∧ count ≤ 256) :
    ResizableGpt 1048576 (imagedDisk count) where
  size := ⟨by decide, by decide⟩
  signature := (GptHeader.hasSignature_congr headerAt_imagedDisk).trans hasSignature_imageHeader
  count := by
    rw [numPartitionEntries_imagedDisk (by omega)]
    omega
  entrySize := by
    rw [partitionEntrySize_imagedDisk]
    decide
  onDisk := by
    rw [GptHeader.entriesBytes, numPartitionEntries_imagedDisk (by omega),
      partitionEntrySize_imagedDisk, partitionEntryLba_imagedDisk]
    omega
  header := headerVerifies_of_eq (by decide) (GptHeader.headerCrc32_withCrc _)
    (headerSize_imageHeader count).le headerAt_imagedDisk
  highest k hk hne := absurd hk.2 (by
    rw [← primaryEntries, primaryEntries_imagedDisk, hasType_imageEntries hne]
    exact Bool.false_ne_true)

theorem canGrow_imagedDisk (hcount : 5 ≤ count ∧ count ≤ 256) :
    CanGrow 1048576 (imagedDisk count) where
  five := by
    rw [numPartitionEntries_imagedDisk (by omega)]
    exact hcount.1
  used := by
    rw [primaryEntries_imagedDisk]
    decide +kernel
  starts := by
    rw [primaryEntries_imagedDisk]
    decide +kernel
  room := by
    rw [primaryEntries_imagedDisk]
    decide +kernel

end

/-- A table of 128 entries. -/
theorem resizeKeepsGpt_imagedDisk : ResizableGpt 1048576 (imagedDisk 128) ∧
    ((∀ io : GptIo, io.WritesBackup → ResizeKeepsGpt io 1048576 (imagedDisk 128)) ↔
      (CanGrow 1048576 (imagedDisk 128) → ResizeFits 1048576 (imagedDisk 128))) :=
  ⟨resizableGpt_imagedDisk (by decide), resizeKeepsGpt_iff (resizableGpt_imagedDisk (by decide))⟩

/-- The backup of 256 entries reaches over its header. -/
theorem not_resizeKeepsGpt : ¬ ∀ sectors img, ResizableGpt sectors img →
    ∀ io : GptIo, io.WritesBackup → ResizeKeepsGpt io sectors img := by
  intro hall
  have h : ResizableGpt _ (imagedDisk 256) := resizableGpt_imagedDisk (by decide)
  have hfits := h.resizeFits (hall _ _ h) (canGrow_imagedDisk (by decide))
  have hn := hfits.entriesBytes
  rw [GptHeader.entriesBytes, numPartitionEntries_imagedDisk (by decide),
    partitionEntrySize_imagedDisk] at hn
  exact absurd hn (by decide)

end Llamaste
