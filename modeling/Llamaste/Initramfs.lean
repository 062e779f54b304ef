import Llamaste.Lib.Poll
import Llamaste.Lib.Text

/-!
# The initramfs

The first program of a boot reads the kernel command line word by word, and mounts the
root partition: live media by label, or the first squashfs with the init program among
the `root=` device and the slot's partitions of the usual disks. The shell splits words
at blanks and expands pathname patterns in them; expansion, devices and mounts come from
the environment and can change from round to round.

Source: `initramfs-init.sh`.
-/

namespace Llamaste

/-- What the initramfs meets: the command line, the expansion of a word, which names are
block devices, and the files of a device mounted with a file system type, if it mounts.
Everything but the command line depends on the round of the search. -/
structure Boot where
  cmdline : Text
  expand : ℕ → Text → List Text
  block : ℕ → Text → Bool
  mount : ℕ → (fstype device : Text) → Option (Text → Bool)

/-- The characters that separate words. -/
def isBlank (c : Char) : Bool := c = ' ' || c = '\t' || c = '\n'

/-- The shell's words: the text between blanks. -/
def shellWords (s : Text) : List Text := (s.splitOnP isBlank).filter (· ≠ [])

/-- Words that are listed with a space before each are the words of the list. -/
theorem shellWords_flatMap {ws : List Text}
    (h : ∀ w ∈ ws, w ≠ [] ∧ ∀ c ∈ w, isBlank c = false) :
    shellWords (ws.flatMap (' ' :: ·)) = ws := by
  have hsplit : ∀ w : Text, (∀ c ∈ w, isBlank c = false) →
      (w ++ ws.flatMap (' ' :: ·)).splitOnP isBlank = w :: ws := by
    induction ws with
    | nil =>
        intro w hw
        rw [List.flatMap_nil, List.append_nil, List.splitOnP_eq_singleton hw]
    | cons v ws ih =>
        intro w hw
        rw [List.flatMap_cons, List.cons_append,
          List.splitOnP_append_cons_of_forall_mem hw ' ' rfl,
          ih (fun u hu => h u (List.mem_cons_of_mem v hu)) v (h v List.mem_cons_self).2]
  rw [shellWords, ← List.nil_append (ws.flatMap _), hsplit [] (fun _ h => nomatch h),
    List.filter_cons_of_neg (by simp), List.filter_eq_self]
  exact fun w hw => decide_eq_true (h w hw).1

/-- The value of the last word that starts with the key. -/
def lastParam (key default : Text) (words : List Text) : Text :=
  words.foldl (fun val w => if key.isPrefixOf w then w.drop key.length else val) default

namespace Boot

variable (b : Boot)

/-- The words of the command line. -/
def params : List Text := (shellWords b.cmdline).flatMap (b.expand 0)

/-- `ROOT`. -/
def root : Text := lastParam "root=" [] b.params

/-- `ROOTFSTYPE`. -/
def rootFsType : Text := lastParam "rootfstype=" [] b.params

/-- `INIT`. -/
def init : Text := lastParam "init=" "/opt/llamaste/llamaste" b.params

/-- `SLOT`. -/
def slot : Text := lastParam "llamaste.slot=" "A" b.params

/-- `PARTNUM`: only the slot `B` selects partition 4. -/
def partNum : ℕ := if b.slot = "B" then 4 else 3

/-- `IS_LABEL`. -/
def isLabel : Bool := ("LABEL=" : Text).isPrefixOf b.root

/-- The number of rounds of each search. -/
def attempts : ℕ := 5

/-! ### Live boot -/

/-- The devices that are scanned for live media. -/
def liveDevices : List Text :=
  ["/dev/sr0", "/dev/sdb", "/dev/sdb1", "/dev/sda", "/dev/sda1", "/dev/nvme0n1", "/dev/nvme0n1p1"]

/-- `${ROOTFSTYPE:-auto}`. -/
def liveFsType : Text := if b.rootFsType = [] then "auto" else b.rootFsType

/-- Whether a device holds live media. -/
def isLive (t : ℕ) (device : Text) : Bool :=
  b.block t device &&
    match b.mount t b.liveFsType device with
    | some files => files "/llamaste-live-iso"
    | none => false

/-- The live media that is mounted as root. The mount after the search can still fail. -/
def liveRoot : Option Text :=
  (Poll.search b.isLive (fun _ => liveDevices) attempts 0).filter fun device =>
    (b.mount attempts b.liveFsType device).isSome

/-! ### Installed boot -/

/-- The disks whose slot partition is a candidate. -/
def scannedDisks : List Text :=
  ["/dev/nvme0n1", "/dev/nvme1n1", "/dev/sda", "/dev/sdb", "/dev/vda"]

/-- The slot's partition of a disk. -/
def slotPartition (disk : Text) : Text :=
  let separator : Text :=
    if ("/dev/nvme" : Text).isPrefixOf disk ∨ ("/dev/mmcblk" : Text).isPrefixOf disk then ['p']
    else []
  disk ++ separator ++ Text.ofNat b.partNum

/-- `CANDIDATES`. -/
def candidateList : Text :=
  b.root ++ (scannedDisks.filter (b.block 0)).flatMap fun disk => ' ' :: b.slotPartition disk

/-- The words that `$CANDIDATES` expands to in a round. -/
def candidates (t : ℕ) : List Text := (shellWords b.candidateList).flatMap (b.expand t)

/-- Whether a device holds the system: it is a squashfs with the init program. -/
def isSystem (t : ℕ) (device : Text) : Bool :=
  b.block t device &&
    match b.mount t "squashfs" device with
    | some files => files b.init
    | none => false

/-- The partition that the initramfs mounts as root, if it finds one. -/
def mountedRoot : Option Text :=
  if b.isLabel then b.liveRoot else Poll.search b.isSystem b.candidates attempts 0

/-- The first candidate that holds the system. -/
def FirstSystem (device : Text) : Prop :=
  Poll.FirstHit b.isSystem b.candidates attempts 0 device

/-- A live boot mounts one of the scanned devices. -/
theorem mem_liveDevices_of_liveRoot {device : Text} (h : b.liveRoot = some device) :
    device ∈ liveDevices := by
  obtain ⟨hsearch, -⟩ := Option.filter_eq_some_iff.mp h
  obtain ⟨u, -, -, -, ⟨before, after, hsplit, -⟩, -⟩ := Poll.search_eq_some_iff.mp hsearch
  have hmem : device ∈ (fun _ : ℕ => liveDevices) u := by
    rw [hsplit]
    simp
  exact hmem

/-- An installed boot mounts the first candidate that holds the system. -/
theorem mountedRoot_eq_some_iff (hlabel : b.isLabel = false) {device : Text} :
    b.mountedRoot = some device ↔ b.FirstSystem device := by
  rw [mountedRoot, hlabel, if_neg Bool.false_ne_true]
  exact Poll.search_eq_some_iff

end Boot

end Llamaste
