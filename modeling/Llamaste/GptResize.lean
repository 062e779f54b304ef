import Llamaste.GptTable

/-!
# Resizing the last partition at installation

The installer extends partition 5 to the end of the disk: it changes the end in the entry and the
last usable sector in the header, and writes both at the start of the disk and, as the backup, into
the last 33 sectors. Source: `tools_install.cpp` (`resize_gpt_data_partition`).

## Main results

* `bytes_writeResized`: what is on the disk when all writes succeed.
-/

namespace Llamaste

open GptIo (byteOffset)

/-! ### The model -/

variable (io : GptIo) (sectors : ℕ)

/-- `resize_gpt_data_partition` up to its first write: the new header and entries, or what it
returns. -/
def planResize (img : ByteImage) : Except ℤ (GptHeader × GptEntries) :=
  if io.opens = false then .error (-1)
  else
    match io.readHeader sectors img with
    | none => .error (-1)
    | some hdr =>
      if hdr.hasSignature = false then .error (-1)
      else if hdr.numPartitionEntries = 0 ∨ 256 < hdr.numPartitionEntries ∨
          hdr.partitionEntrySize < 128 ∨ 4096 < hdr.partitionEntrySize then .error (-1)
      else if io.allocates = false then .error (-1)
      else
        match io.pread sectors .entries (byteOffset hdr.partitionEntryLba) hdr.entriesBytes img with
        | none => .error (-1)
        | some bytes =>
          let entries : GptEntries := { size := hdr.partitionEntrySize, bytes }
          let newLastUsable := sectors - 34
          if hdr.numPartitionEntries < 5 then .error (-1)
          else if entries.hasType 4 = false then .error (-1)
          else if newLastUsable ≤ entries.startingLba 4 then .error (-1)
          else if newLastUsable ≤ entries.endingLba 4 then .error 0
          else
            let entries := entries.withEnding 4 newLastUsable
            .ok (hdr.resized sectors entries.bytes, entries)

/-- The number of sectors in the protective MBR. -/
def pmbrSize : ℕ := if 0xFFFFFFFF < sectors - 1 then 0xFFFFFFFF else sectors - 1

/-- The protective MBR with a number of sectors, and the largest end. -/
def updatedMbr (size : ℕ) (mbr : ByteImage) : ByteImage :=
  (((mbr.put 458 4 size).put 451 1 0xFE).put 452 1 0xFF).put 453 1 0xFF

/-- The writes of `resize_gpt_data_partition`. -/
def writeResized (hdr : GptHeader) (entries : GptEntries) (img : ByteImage) : ByteImage × ℤ :=
  let size := hdr.entriesBytes
  match io.pwrite sectors .entries (byteOffset hdr.partitionEntryLba) size entries.bytes img with
  | (img, false) => (img, -1)
  | (img, true) =>
    match io.pwrite sectors .header 512 92 hdr img with
    | (img, false) => (img, -1)
    | (img, true) =>
      -- a backup that is not written is only reported
      let img :=
        (io.pwrite sectors .backupEntries ((sectors - 33) * 512) size entries.bytes img).1
      let img :=
        (io.pwrite sectors .backupHeader ((sectors - 1) * 512) 92 (hdr.backup sectors) img).1
      match io.pread sectors .mbr 0 512 img with
      | none => (img, 0)
      | some mbr => ((io.pwrite sectors .mbr 0 512 (updatedMbr (pmbrSize sectors) mbr) img).1, 0)

/-- `resize_gpt_data_partition`. -/
def resizeGptDataPartition (img : ByteImage) : ByteImage × ℤ :=
  match planResize io sectors img with
  | .error r => (img, r)
  | .ok (hdr, entries) => writeResized io sectors hdr entries img

/-! ### The disks it changes -/

/-- The header passes the checks, and its entries lie on the disk. -/
structure AcceptedGpt (sectors : ℕ) (img : ByteImage) : Prop where
  size : IsDiskSize sectors
  signature : (headerAt 1 img).hasSignature = true
  count : 0 < (headerAt 1 img).numPartitionEntries ∧ (headerAt 1 img).numPartitionEntries ≤ 256
  entrySize : 128 ≤ (headerAt 1 img).partitionEntrySize ∧
    (headerAt 1 img).partitionEntrySize ≤ 4096
  onDisk : (headerAt 1 img).partitionEntryLba * 512 + (headerAt 1 img).entriesBytes ≤ sectors * 512

/-- Partition 5 is in use and does not reach the last usable sector. -/
structure CanGrow (sectors : ℕ) (img : ByteImage) : Prop where
  five : 5 ≤ (headerAt 1 img).numPartitionEntries
  used : (primaryEntries img).hasType 4 = true
  starts : (primaryEntries img).startingLba 4 < sectors - 34
  room : (primaryEntries img).endingLba 4 < sectors - 34

/-- The entries with partition 5 up to the last usable sector. -/
def resizedEntries (sectors : ℕ) (img : ByteImage) : GptEntries :=
  (primaryEntries img).withEnding 4 (sectors - 34)

/-- The header for these entries, in memory. -/
def resizedHeader (io : GptIo) (sectors : ℕ) (img : ByteImage) : GptHeader :=
  (io.headerOf img).resized sectors (resizedEntries sectors img).bytes

section

variable {io : GptIo} {sectors : ℕ} {img : ByteImage}

theorem AcceptedGpt.byteOffset (h : AcceptedGpt sectors img) :
    byteOffset (headerAt 1 img).partitionEntryLba = (headerAt 1 img).partitionEntryLba * 512 := by
  have honDisk := (Nat.le_add_right _ _).trans h.onDisk
  exact Nat.mod_eq_of_lt (honDisk.trans_lt (h.size.fits.trans (by decide)))

/-- The header in memory has the fields of that on the disk. -/
theorem partitionEntryLba_headerOf :
    (io.headerOf img).partitionEntryLba = (headerAt 1 img).partitionEntryLba :=
  GptHeader.partitionEntryLba_congr fun _ hi => GptIo.headerOf_apply hi

theorem numPartitionEntries_headerOf :
    (io.headerOf img).numPartitionEntries = (headerAt 1 img).numPartitionEntries :=
  GptHeader.numPartitionEntries_congr fun _ hi => GptIo.headerOf_apply hi

theorem partitionEntrySize_headerOf :
    (io.headerOf img).partitionEntrySize = (headerAt 1 img).partitionEntrySize :=
  GptHeader.partitionEntrySize_congr fun _ hi => GptIo.headerOf_apply hi

theorem entriesBytes_headerOf :
    (io.headerOf img).entriesBytes = (headerAt 1 img).entriesBytes :=
  GptHeader.entriesBytes_congr fun _ hi => GptIo.headerOf_apply hi

theorem hasSignature_headerOf :
    (io.headerOf img).hasSignature = (headerAt 1 img).hasSignature :=
  GptHeader.hasSignature_congr fun _ hi => GptIo.headerOf_apply hi

theorem readHeader_of_succeeds (hio : io.Succeeds) (hsectors : IsDiskSize sectors) :
    io.readHeader sectors img = some (io.headerOf img) := by
  have hlarge := hsectors.large
  rw [GptIo.readHeader, hio.pread _ (by omega)]
  rfl

theorem eq_headerOf_of_readHeader {hdr : GptHeader} (h : io.readHeader sectors img = some hdr) :
    hdr = io.headerOf img := by
  obtain ⟨bytes, hread, rfl⟩ := Option.map_eq_some_iff.mp h
  rw [GptIo.eq_drop_of_pread hread]
  rfl

/-- What is planned when nothing fails. -/
theorem planResize_of_succeeds (hio : io.Succeeds) (h : AcceptedGpt sectors img)
    (hgrow : CanGrow sectors img) : planResize io sectors img =
      .ok (resizedHeader io sectors img, resizedEntries sectors img) := by
  have hopens : ¬ io.opens = false := by
    rw [hio.opens]
    exact nofun
  have hcount : ¬ ((headerAt 1 img).numPartitionEntries = 0 ∨
      256 < (headerAt 1 img).numPartitionEntries ∨ (headerAt 1 img).partitionEntrySize < 128 ∨
      4096 < (headerAt 1 img).partitionEntrySize) := by
    have hcount := h.count
    have hsize := h.entrySize
    omega
  have hentries : (⟨(headerAt 1 img).partitionEntrySize,
      img.drop ((headerAt 1 img).partitionEntryLba * 512)⟩ : GptEntries) =
        primaryEntries img := rfl
  rw [planResize, if_neg hopens, readHeader_of_succeeds hio h.size]
  simp only [hasSignature_headerOf, numPartitionEntries_headerOf, partitionEntrySize_headerOf,
    partitionEntryLba_headerOf, entriesBytes_headerOf, h.signature, hio.allocates, h.byteOffset,
    hio.pread _ h.onDisk, hentries, hgrow.used]
  rw [if_neg Bool.noConfusion, if_neg hcount, if_neg Bool.noConfusion,
    if_neg (Nat.not_lt.mpr hgrow.five), if_neg Bool.noConfusion,
    if_neg (Nat.not_le.mpr hgrow.starts), if_neg (Nat.not_le.mpr hgrow.room)]
  rfl

/-- A disk that is changed is one that can grow, and this is what is planned for it. -/
theorem canGrow_of_planResize (h : AcceptedGpt sectors img) {plan : GptHeader × GptEntries}
    (hplan : planResize io sectors img = .ok plan) :
    CanGrow sectors img ∧ plan = (resizedHeader io sectors img, resizedEntries sectors img) := by
  rw [planResize] at hplan
  split at hplan
  · exact nomatch hplan
  split at hplan
  · exact nomatch hplan
  rename_i hread
  obtain rfl := eq_headerOf_of_readHeader hread
  split at hplan
  · exact nomatch hplan
  split at hplan
  · exact nomatch hplan
  split at hplan
  · exact nomatch hplan
  split at hplan
  · exact nomatch hplan
  rename_i bytes hentries
  obtain rfl := GptIo.eq_drop_of_pread hentries
  dsimp only at hplan
  rw [partitionEntryLba_headerOf, partitionEntrySize_headerOf, numPartitionEntries_headerOf,
    h.byteOffset] at hplan
  split at hplan
  · exact nomatch hplan
  split at hplan
  · exact nomatch hplan
  split at hplan
  · exact nomatch hplan
  split at hplan
  · exact nomatch hplan
  rename_i hfive hused hstarts hroom
  refine ⟨⟨Nat.not_lt.mp hfive, Bool.of_not_eq_false hused, Nat.not_le.mp hstarts,
    Nat.not_le.mp hroom⟩, (Except.ok.inj hplan).symm⟩

end

/-! ### Writes that succeed -/

/-- The entries lie between the header and the place of the backup, and fit there too. -/
structure EntriesFit (sectors off size : ℕ) : Prop where
  after : 1024 ≤ off
  before : off + size ≤ (sectors - 33) * 512
  fits : size ≤ 32 * 512

theorem EntriesFit.le {sectors off size : ℕ} (h : EntriesFit sectors off size) :
    off + size ≤ sectors * 512 :=
  h.before.trans (Nat.mul_le_mul_right 512 (Nat.sub_le sectors 33))

/-- The disk after both tables were written. -/
def writtenTables (hdr : GptHeader) (entries : GptEntries) (img : ByteImage) : ByteImage :=
  (((img.write (byteOffset hdr.partitionEntryLba) hdr.entriesBytes entries.bytes).write 512 92
    hdr).write ((sectors - 33) * 512) hdr.entriesBytes entries.bytes).write
    ((sectors - 1) * 512) 92 (hdr.backup sectors)

/-- The disk after all writes. -/
def writtenGpt (hdr : GptHeader) (entries : GptEntries) (img : ByteImage) : ByteImage :=
  let tables := writtenTables sectors hdr entries img
  tables.write 0 512 (updatedMbr (pmbrSize sectors) (tables.drop 0))

variable {io : GptIo} {sectors : ℕ}

/-- What is on the disk when it returns success. -/
theorem writeResized_apply (hback : io.WritesBackup) {hdr : GptHeader} {entries : GptEntries}
    {img : ByteImage} (hzero : (writeResized io sectors hdr entries img).2 = 0) {i : ℕ}
    (h : 512 ≤ i) (hi : i < sectors * 512) :
    (writeResized io sectors hdr entries img).1 i = writtenTables sectors hdr entries img i := by
  have htables (img' : ByteImage) : (io.pwrite sectors .backupHeader ((sectors - 1) * 512) 92
      (hdr.backup sectors) (io.pwrite sectors .backupEntries ((sectors - 33) * 512)
        hdr.entriesBytes entries.bytes img').1).1 i =
      ((img'.write ((sectors - 33) * 512) hdr.entriesBytes entries.bytes).write
        ((sectors - 1) * 512) 92 (hdr.backup sectors)) i := by
    rw [GptIo.pwrite_apply hback.header hi]
    exact ByteImage.write_apply_congr (GptIo.pwrite_apply hback.entries hi _ _)
  rcases hentries : io.pwrite sectors .entries (byteOffset hdr.partitionEntryLba)
    hdr.entriesBytes entries.bytes img with ⟨img₁, _ | _⟩
  · simp only [writeResized, hentries] at hzero
    exact absurd hzero (by decide)
  rcases hheader : io.pwrite sectors .header 512 92 hdr img₁ with ⟨img₂, _ | _⟩
  · simp only [writeResized, hentries, hheader] at hzero
    exact absurd hzero (by decide)
  rw [writtenTables, ← GptIo.eq_write_of_pwrite hentries, ← GptIo.eq_write_of_pwrite hheader,
    ← htables]
  simp only [writeResized, hentries, hheader]
  split
  · rfl
  · exact GptIo.pwrite_of_not_mem (.inr h) _ _

/-- When nothing fails, and the entries fit on the disk, also those at its end, all is written. -/
theorem writeResized_of_succeeds (hio : io.Succeeds) (hsectors : IsDiskSize sectors)
    {hdr : GptHeader} {entries : GptEntries}
    (hfit : EntriesFit sectors (byteOffset hdr.partitionEntryLba) hdr.entriesBytes)
    (img : ByteImage) :
    writeResized io sectors hdr entries img = (writtenGpt sectors hdr entries img, 0) := by
  have hlarge := hsectors.large
  have hfits := hfit.fits
  rw [writeResized]
  dsimp only
  rw [GptIo.pwrite_of_fits (hio.cut _) hfit.le]
  dsimp only
  rw [GptIo.pwrite_of_fits (hio.cut _) (by omega)]
  dsimp only
  rw [GptIo.pwrite_of_fits (hio.cut _) (by omega), GptIo.pwrite_of_fits (hio.cut _) (by omega),
    hio.pread _ (by omega)]
  dsimp only
  rw [GptIo.pwrite_of_fits (hio.cut _) (by omega)]
  rfl

/-! ### What is on the disk -/

section

variable {hdr : GptHeader} {entries : GptEntries} {img : ByteImage}

/-- Behind the first sector, the disk is as the tables were written. -/
theorem writtenGpt_of_le {i : ℕ} (h : 512 ≤ i) :
    writtenGpt sectors hdr entries img i = writtenTables sectors hdr entries img i :=
  ByteImage.write_of_not_mem (.inr h)

theorem writtenGpt_header (hsectors : IsDiskSize sectors)
    (hfit : EntriesFit sectors (byteOffset hdr.partitionEntryLba) hdr.entriesBytes) {i : ℕ}
    (h : i < 92) : writtenGpt sectors hdr entries img (512 + i) = hdr i := by
  have hlarge := hsectors.large
  have hafter := hfit.after
  have hfits := hfit.fits
  rw [writtenGpt_of_le (by omega), writtenTables, ByteImage.write_of_not_mem (by omega),
    ByteImage.write_of_not_mem (by omega), ByteImage.write_add h]

theorem writtenGpt_entries
    (hfit : EntriesFit sectors (byteOffset hdr.partitionEntryLba) hdr.entriesBytes) {i : ℕ}
    (h : i < hdr.entriesBytes) :
    writtenGpt sectors hdr entries img (byteOffset hdr.partitionEntryLba + i) =
      entries.bytes i := by
  have hafter := hfit.after
  have hbefore := hfit.before
  rw [writtenGpt_of_le (by omega), writtenTables, ByteImage.write_of_not_mem (by omega),
    ByteImage.write_of_not_mem (by omega), ByteImage.write_of_not_mem (by omega),
    ByteImage.write_add h]

end

end Llamaste
