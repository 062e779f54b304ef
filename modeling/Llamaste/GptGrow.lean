import Llamaste.BootDevice
import Llamaste.GptResize

/-!
# Growing the last partition at boot

At each boot the data partition is grown to the end of its disk. The disk and the number of the
partition are taken from the name of its device.

Source: `init.cpp` (`disk_device_for`, `partition_number_from`, `grow_gpt_partition`).

## Main results

* `growersAgree_iff`: the two programs leave the same disk, and the boot reads the device names,
  exactly when the name of a lettered disk has none of three words and the number is an `int`.
-/

namespace Llamaste

open GptIo (byteOffset)

/-! ### The table -/

section

variable (io : GptIo) (sectors index : ℕ)

/-- `grow_gpt_partition` up to its first write: the new header and entries, if it gets there. -/
def planGrow (img : ByteImage) : Option (GptHeader × GptEntries) :=
  if io.opens = false ∨ sectors * 512 < 1048576 then none
  else
    match io.readHeader sectors img with
    | none => none
    | some hdr =>
      if hdr.hasSignature = false then none
      else if hdr.numPartitionEntries ≤ index ∨ hdr.partitionEntrySize < 128 then none
      else
        match io.pread sectors .entries (byteOffset hdr.partitionEntryLba) hdr.entriesBytes img with
        | none => none
        | some bytes =>
          let entries : GptEntries := { size := hdr.partitionEntrySize, bytes }
          if entries.hasType index = false then none
          else if (List.range hdr.numPartitionEntries).any fun i =>
              i ≠ index ∧ entries.endingLba index < entries.endingLba i then none
          else
            let newLastUsable := sectors - 34
            let growth := if entries.endingLba index < newLastUsable then
              newLastUsable - entries.endingLba index else 0
            if growth < 4096 then none
            else
              let entries := entries.withEnding index newLastUsable
              some (hdr.resized sectors entries.bytes, entries)

/-- The writes of `grow_gpt_partition`. -/
def writeGrown (hdr : GptHeader) (entries : GptEntries) (img : ByteImage) : ByteImage :=
  let size := hdr.entriesBytes
  let (img, w1) :=
    io.pwrite sectors .entries (byteOffset hdr.partitionEntryLba) size entries.bytes img
  let (img, w2) := io.pwrite sectors .header 512 92 hdr img
  if w1 = false ∨ w2 = false then img
  else
    let img := (io.pwrite sectors .backupEntries ((sectors - 33) * 512) size entries.bytes img).1
    let img :=
      (io.pwrite sectors .backupHeader ((sectors - 1) * 512) 92 (hdr.backup sectors) img).1
    match io.pread sectors .mbr 0 512 img with
    | none => img
    | some mbr =>
      (io.pwrite sectors .mbr 0 512 (updatedMbr (min (sectors - 1) 0xFFFFFFFF) mbr) img).1

/-- What `grow_gpt_partition` leaves of a disk. -/
def grownBytes (img : ByteImage) : ByteImage :=
  match planGrow io sectors index img with
  | none => img
  | some (hdr, entries) => writeGrown io sectors hdr entries img

end

/-! ### Devices -/

/-- The disks by the names of their devices: sizes in sectors, and contents. -/
abbrev BlockDevices := Text → Option (ℕ × ByteImage)

/-- `grow_gpt_partition`. -/
def growGptPartition (io : GptIo) (devices : BlockDevices) (partDev : Text) : BlockDevices :=
  let diskDev := diskDeviceFor partDev
  if diskDev = [] then devices
  else if partitionNumberFrom partDev < 1 then devices
  else
    match devices diskDev with
    | none => devices
    | some (sectors, img) =>
      Function.update devices diskDev
        (some (sectors, grownBytes io sectors (partitionNumberFrom partDev - 1).toNat img))

/-- What `resize_gpt_data_partition` leaves of the disks. -/
def resizeDevice (io : GptIo) (devices : BlockDevices) (device : Text) : BlockDevices :=
  match devices device with
  | none => devices
  | some (sectors, img) =>
    Function.update devices device (some (sectors, (resizeGptDataPartition io sectors img).1))

/-! ### What is claimed -/

/-- The header that an installation has: 128 entries of 128 bytes at sector 2. -/
structure StandardHeader (hdr : GptHeader) : Prop where
  signature : hdr.hasSignature = true
  headerSize : hdr.headerSize = 92
  count : hdr.numPartitionEntries = 128
  entrySize : hdr.partitionEntrySize = 128
  entryLba : hdr.partitionEntryLba = 2

/-- A disk with such a table, in which partition 5 is in use and starts below the place of the
backup. -/
structure HasPartition5 (sectors : ℕ) (img : ByteImage) : Prop where
  size : IsDiskSize sectors
  header : StandardHeader (headerAt 1 img)
  used : (primaryEntries img).hasType 4 = true
  starts : (primaryEntries img).startingLba 4 < sectors - 34

/-- The growers agree on a disk: both leave the same, once, where there is room, and the boot leaves
alone a disk without room or with a later partition. -/
structure GrowersAgree (d : Disk) : Prop where
  same : ∀ (io io' : GptIo) (devices : BlockDevices) sectors img, io.Succeeds → io'.Succeeds →
    devices d.device = some (sectors, img) → HasPartition5 sectors img →
    (∀ k < 128, (primaryEntries img).endingLba k ≤ (primaryEntries img).endingLba 4) →
    (primaryEntries img).endingLba 4 + 4096 ≤ sectors - 34 →
      growGptPartition io devices (d.partitionDevice 5) = resizeDevice io' devices d.device ∧
      growGptPartition io' (growGptPartition io devices (d.partitionDevice 5))
        (d.partitionDevice 5) = growGptPartition io devices (d.partitionDevice 5)
  noRoom : ∀ (io : GptIo) (devices : BlockDevices) sectors img, io.Succeeds →
    devices d.device = some (sectors, img) → HasPartition5 sectors img →
    (sectors - 34 < (primaryEntries img).endingLba 4 + 4096 ∨
      ∃ k < 128, (primaryEntries img).endingLba 4 < (primaryEntries img).endingLba k) →
      growGptPartition io devices (d.partitionDevice 5) = devices

/-! ### One disk -/

section

variable {io io' : GptIo} {sectors : ℕ} {img : ByteImage}

namespace StandardHeader

variable {hdr : GptHeader}

theorem congr {other : GptHeader} (h : StandardHeader hdr) (heq : ∀ i < 92, hdr i = other i) :
    StandardHeader other where
  signature := (GptHeader.hasSignature_congr heq).symm.trans h.signature
  headerSize := (GptHeader.headerSize_congr heq).symm.trans h.headerSize
  count := (GptHeader.numPartitionEntries_congr heq).symm.trans h.count
  entrySize := (GptHeader.partitionEntrySize_congr heq).symm.trans h.entrySize
  entryLba := (GptHeader.partitionEntryLba_congr heq).symm.trans h.entryLba

theorem entriesBytes (h : StandardHeader hdr) : hdr.entriesBytes = 16384 := by
  rw [GptHeader.entriesBytes, h.count, h.entrySize]

theorem byteOffset (h : StandardHeader hdr) : GptIo.byteOffset hdr.partitionEntryLba = 1024 := by
  rw [h.entryLba]
  rfl

/-- The entries of such a table have their place. -/
theorem entriesFit (h : StandardHeader hdr) (hsectors : IsDiskSize sectors) :
    EntriesFit sectors (GptIo.byteOffset hdr.partitionEntryLba) hdr.entriesBytes := by
  have hlarge := hsectors.large
  rw [h.byteOffset, h.entriesBytes]
  exact ⟨by omega, by omega, by omega⟩

/-- Resizing keeps these fields. -/
theorem resized (h : StandardHeader hdr) (sectors : ℕ) (entries : ByteImage) :
    StandardHeader (hdr.resized sectors entries) where
  signature := by
    rw [GptHeader.hasSignature, GptHeader.le_resized (by omega)]
    exact h.signature
  headerSize := (GptHeader.le_resized (by omega) _ _).trans h.headerSize
  count := (GptHeader.le_resized (by omega) _ _).trans h.count
  entrySize := (GptHeader.le_resized (by omega) _ _).trans h.entrySize
  entryLba := (GptHeader.le_resized (by omega) _ _).trans h.entryLba

end StandardHeader

namespace HasPartition5

theorem standardHeader (h : HasPartition5 sectors img) (io : GptIo) :
    StandardHeader (io.headerOf img) := h.header.congr fun _ hi => (GptIo.headerOf_apply hi).symm

/-- The header that is written is such a header. -/
theorem standardResized (h : HasPartition5 sectors img) (io : GptIo) :
    StandardHeader (resizedHeader io sectors img) := (h.standardHeader io).resized _ _

theorem accepted (h : HasPartition5 sectors img) : AcceptedGpt sectors img where
  size := h.size
  signature := h.header.signature
  count := by
    have hcount := h.header.count
    omega
  entrySize := by
    have hsize := h.header.entrySize
    omega
  onDisk := by
    have hlarge := h.size.large
    rw [h.header.entryLba, h.header.entriesBytes]
    omega

theorem canGrow (h : HasPartition5 sectors img)
    (hroom : (primaryEntries img).endingLba 4 < sectors - 34) : CanGrow sectors img where
  five := by
    rw [h.header.count]
    decide
  used := h.used
  starts := h.starts
  room := hroom

/-- What the boot makes of a disk with this table. -/
theorem planGrow_eq (h : HasPartition5 sectors img) (hio : io.Succeeds) :
    planGrow io sectors 4 img =
      if ((List.range 128).any fun k => decide (k ≠ 4 ∧
          (primaryEntries img).endingLba 4 < (primaryEntries img).endingLba k)) = true then none
      else if (if (primaryEntries img).endingLba 4 < sectors - 34 then
          sectors - 34 - (primaryEntries img).endingLba 4 else 0) < 4096 then none
      else some (resizedHeader io sectors img, resizedEntries sectors img) := by
  have hlarge := h.size.large
  have hopens : ¬ (io.opens = false ∨ sectors * 512 < 1048576) := by
    rw [hio.opens]
    exact not_or.mpr ⟨nofun, by omega⟩
  have hentries : (⟨128, img.drop ((headerAt 1 img).partitionEntryLba * 512)⟩ : GptEntries) =
      primaryEntries img := by
    rw [← h.header.entrySize]
    rfl
  rw [planGrow, if_neg hopens, readHeader_of_succeeds hio h.size]
  simp only [hasSignature_headerOf, numPartitionEntries_headerOf, partitionEntrySize_headerOf,
    partitionEntryLba_headerOf, entriesBytes_headerOf, h.header.signature, h.header.count,
    h.header.entrySize, h.accepted.byteOffset, hio.pread _ h.accepted.onDisk, hentries, h.used]
  rw [if_neg Bool.noConfusion, if_neg (by omega), if_neg Bool.noConfusion]
  rfl

theorem planGrow_of_room (h : HasPartition5 sectors img) (hio : io.Succeeds)
    (hlast : ∀ k < 128, (primaryEntries img).endingLba k ≤ (primaryEntries img).endingLba 4)
    (hroom : (primaryEntries img).endingLba 4 + 4096 ≤ sectors - 34) :
    planGrow io sectors 4 img =
      some (resizedHeader io sectors img, resizedEntries sectors img) := by
  have hnone : ¬ ((List.range 128).any fun k => decide (k ≠ 4 ∧
      (primaryEntries img).endingLba 4 < (primaryEntries img).endingLba k)) = true := by
    rw [List.any_eq_true]
    rintro ⟨k, hk, hlater⟩
    exact Nat.not_le.mpr (of_decide_eq_true hlater).2 (hlast k (List.mem_range.mp hk))
  have hgrowth : ¬ (if (primaryEntries img).endingLba 4 < sectors - 34 then
      sectors - 34 - (primaryEntries img).endingLba 4 else 0) < 4096 := by
    rw [if_pos (by omega)]
    omega
  rw [h.planGrow_eq hio, if_neg hnone, if_neg hgrowth]

theorem planGrow_eq_none (h : HasPartition5 sectors img) (hio : io.Succeeds)
    (hno : sectors - 34 < (primaryEntries img).endingLba 4 + 4096 ∨
      ∃ k < 128, (primaryEntries img).endingLba 4 < (primaryEntries img).endingLba k) :
    planGrow io sectors 4 img = none := by
  rw [h.planGrow_eq hio]
  rcases hno with hno | ⟨k, hk, hlater⟩
  · have hgrowth : (if (primaryEntries img).endingLba 4 < sectors - 34 then
        sectors - 34 - (primaryEntries img).endingLba 4 else 0) < 4096 := by
      split_ifs <;> omega
    rw [if_pos hgrowth, ite_self]
  · refine if_pos (List.any_eq_true.mpr ⟨k, List.mem_range.mpr hk, decide_eq_true ⟨?_, hlater⟩⟩)
    rintro rfl
    exact Nat.lt_irrefl _ hlater

end HasPartition5

/-- When nothing fails, the boot writes what the installer writes. -/
theorem writeGrown_of_succeeds (hio : io.Succeeds) (hsectors : IsDiskSize sectors)
    {hdr : GptHeader} {entries : GptEntries}
    (hfit : EntriesFit sectors (byteOffset hdr.partitionEntryLba) hdr.entriesBytes)
    (img : ByteImage) :
    writeGrown io sectors hdr entries img = writtenGpt sectors hdr entries img := by
  have hlarge := hsectors.large
  have hfits := hfit.fits
  have hpmbr : min (sectors - 1) 0xFFFFFFFF = pmbrSize sectors := by
    rw [pmbrSize]
    split_ifs <;> omega
  rw [writeGrown]
  dsimp only
  rw [GptIo.pwrite_of_fits (hio.cut _) hfit.le]
  dsimp only
  rw [GptIo.pwrite_of_fits (hio.cut _) (by omega)]
  dsimp only
  rw [if_neg (not_or.mpr ⟨Bool.noConfusion, Bool.noConfusion⟩),
    GptIo.pwrite_of_fits (hio.cut _) (by omega), GptIo.pwrite_of_fits (hio.cut _) (by omega),
    hio.pread _ (by omega)]
  dsimp only
  rw [GptIo.pwrite_of_fits (hio.cut _) (by omega), hpmbr]
  rfl

/-- What is written does not depend on what lies behind a short header in memory. -/
theorem writtenGpt_congr {a b : GptHeader} (h : ∀ i < 92, a i = b i) (hsize : a.headerSize ≤ 92)
    (entries : GptEntries) (img : ByteImage) :
    writtenGpt sectors a entries img = writtenGpt sectors b entries img := by
  have htables : writtenTables sectors a entries img = writtenTables sectors b entries img := by
    rw [writtenTables, writtenTables, GptHeader.partitionEntryLba_congr h,
      GptHeader.entriesBytes_congr h, ByteImage.write_congr h,
      ByteImage.write_congr (GptHeader.backup_congr h hsize sectors)]
  rw [writtenGpt, writtenGpt, htables]

/-- The disk that both programs leave. -/
def grownDisk (io : GptIo) (sectors : ℕ) (img : ByteImage) : ByteImage :=
  writtenGpt sectors (resizedHeader io sectors img) (resizedEntries sectors img) img

namespace HasPartition5

theorem resize (h : HasPartition5 sectors img) (hio : io.Succeeds)
    (hroom : (primaryEntries img).endingLba 4 < sectors - 34) :
    resizeGptDataPartition io sectors img = (grownDisk io sectors img, 0) := by
  rw [resizeGptDataPartition, planResize_of_succeeds hio h.accepted (h.canGrow hroom)]
  exact writeResized_of_succeeds hio h.size ((h.standardResized io).entriesFit h.size) img

theorem grow (h : HasPartition5 sectors img) (hio : io.Succeeds)
    (hlast : ∀ k < 128, (primaryEntries img).endingLba k ≤ (primaryEntries img).endingLba 4)
    (hroom : (primaryEntries img).endingLba 4 + 4096 ≤ sectors - 34) :
    grownBytes io sectors 4 img = grownDisk io sectors img := by
  rw [grownBytes, h.planGrow_of_room hio hlast hroom]
  exact writeGrown_of_succeeds hio h.size ((h.standardResized io).entriesFit h.size) img

theorem grow_eq_self (h : HasPartition5 sectors img) (hio : io.Succeeds)
    (hno : sectors - 34 < (primaryEntries img).endingLba 4 + 4096 ∨
      ∃ k < 128, (primaryEntries img).endingLba 4 < (primaryEntries img).endingLba k) :
    grownBytes io sectors 4 img = img := by
  rw [grownBytes, h.planGrow_eq_none hio hno]

/-- The disk does not depend on the memory of the program. -/
theorem grownDisk_eq (h : HasPartition5 sectors img) (io io' : GptIo) :
    grownDisk io sectors img = grownDisk io' sectors img := by
  have hmem : ∀ i < 92, io.headerOf img i = io'.headerOf img i := fun i hi =>
    (GptIo.headerOf_apply hi).trans (GptIo.headerOf_apply hi).symm
  have hsize := (h.standardHeader io).headerSize.le
  have hresized := (h.standardResized io).headerSize.le
  exact writtenGpt_congr (GptHeader.resized_congr hmem hsize _ _) hresized _ _

/-- The disk that was grown has such a table again, and no room. -/
theorem grown (h : HasPartition5 sectors img) (io : GptIo) :
    HasPartition5 sectors (grownDisk io sectors img) ∧
      (primaryEntries (grownDisk io sectors img)).endingLba 4 = sectors - 34 := by
  have hfits := h.size.fits
  have hfit := (h.standardResized io).entriesFit h.size
  have hheader : StandardHeader (headerAt 1 (grownDisk io sectors img)) :=
    (h.standardResized io).congr fun i hi => (writtenGpt_header h.size hfit hi).symm
  have hsize : (primaryEntries img).size = 128 := h.header.entrySize
  have hsize' : (primaryEntries (grownDisk io sectors img)).size = 128 := hheader.entrySize
  have hbytes : ∀ i < 16384, (primaryEntries (grownDisk io sectors img)).bytes i =
      (resizedEntries sectors img).bytes i := by
    intro i hi
    have hi' : i < (resizedHeader io sectors img).entriesBytes := by
      rw [(h.standardResized io).entriesBytes]
      exact hi
    have hwritten : grownDisk io sectors img _ = (resizedEntries sectors img).bytes i :=
      writtenGpt_entries hfit hi'
    rw [(h.standardResized io).byteOffset] at hwritten
    rw [primaryEntries, tableEntries, hheader.entryLba]
    exact hwritten
  refine ⟨⟨h.size, hheader, ?_, ?_⟩, ?_⟩
  · -- the end of the entry lies behind its type
    have htype : (primaryEntries (grownDisk io sectors img)).hasType 4 =
        (primaryEntries img).hasType 4 := GptEntries.hasType_congr fun i hi => by
      rw [hsize, hsize', hbytes _ (by omega)]
      exact ByteImage.write_of_not_mem (.inl (by omega))
    rw [htype, h.used]
  · have hstart : (primaryEntries (grownDisk io sectors img)).startingLba 4 =
        (primaryEntries img).startingLba 4 := by
      rw [GptEntries.startingLba, GptEntries.startingLba, hsize, hsize',
        ByteImage.le_congr fun i hi => hbytes _ (by omega)]
      exact ByteImage.le_put_of_disjoint (by omega)
    rw [hstart]
    exact h.starts
  · rw [GptEntries.endingLba, hsize', ByteImage.le_congr fun i hi => hbytes _ (by omega),
      resizedEntries, GptEntries.withEnding, hsize]
    exact ByteImage.le_put_self (by omega)

/-- Growing the disk again changes nothing. -/
theorem grow_grownDisk (h : HasPartition5 sectors img) (io : GptIo) (hio : io'.Succeeds) :
    grownBytes io' sectors 4 (grownDisk io sectors img) = grownDisk io sectors img := by
  obtain ⟨hgrown, hend⟩ := h.grown io
  exact hgrown.grow_eq_self hio (.inl (by omega))

end HasPartition5

/-! ### The devices -/

variable {d : Disk} {devices : BlockDevices}

/-- With the name read right, the boot grows the disk. -/
theorem growGptPartition_eq (hdevice : ReadsDevice d 5)
    (hdisk : devices d.device = some (sectors, img)) :
    growGptPartition io devices (d.partitionDevice 5) =
      Function.update devices d.device (some (sectors, grownBytes io sectors 4 img)) := by
  have hne : d.device ≠ [] := List.ne_nil_of_length_pos (Nat.zero_lt_of_lt d.five_lt_length_device)
  rw [growGptPartition, hdevice.disk, hdevice.number, if_neg hne, if_neg (by decide), hdisk]
  rfl

theorem growersAgree_of_readsDevice (hdevice : ReadsDevice d 5) : GrowersAgree d where
  same := by
    intro io io' devices sectors img hio hio' hdisk h hlast hroom
    have hgrow : growGptPartition io devices (d.partitionDevice 5) =
        Function.update devices d.device (some (sectors, grownDisk io sectors img)) := by
      rw [growGptPartition_eq hdevice hdisk, h.grow hio hlast hroom]
    constructor
    · rw [hgrow, resizeDevice, hdisk]
      dsimp only
      rw [h.resize hio' (by omega), h.grownDisk_eq io io']
    · rw [hgrow, growGptPartition_eq hdevice (Function.update_self ..), Function.update_idem,
        h.grow_grownDisk io hio']
  noRoom := by
    intro io devices sectors img hio hdisk h hno
    rw [growGptPartition_eq hdevice hdisk, h.grow_eq_self hio hno, ← hdisk,
      Function.update_eq_self]

/-- **The two growers agree, and the boot finds the disk,** exactly when no word stands in the
letters of a lettered disk and the number of the partition is an `int`. -/
theorem growersAgree_iff (d : Disk) (n : ℕ) : GrowersAgree d ∧ ReadsDevice d n ↔
    (d.numbered = true ∨ hasDiskWord d.device = false) ∧ n < 2 ^ 31 := by
  constructor
  · exact fun h => (readsDevice_iff d n).mp h.2
  · intro h
    exact ⟨growersAgree_of_readsDevice ((readsDevice_iff d 5).mpr ⟨h.1, by omega⟩),
      (readsDevice_iff d n).mpr h⟩

/-- The 5th partition of `sdloop` is looked for on `sdloo`. -/
theorem not_growersAgree : ¬ ∀ (d : Disk) (n : ℕ), GrowersAgree d ∧ ReadsDevice d n := fun h =>
  absurd ((growersAgree_iff (.sd ⟨"loop", by decide, by decide⟩) 5).mp (h _ _)).1 (by decide)

end

end Llamaste
