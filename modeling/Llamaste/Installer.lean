import Llamaste.Disk
import Llamaste.Lib.Check

/-!
# Installing to a disk

The installer refuses the disk it was booted from, checks the target, finds the
installation image, writes it over the disk, and prepares the data partition. The
refusal compares two names from which a partition suffix has been cut. Every answer of
the system comes from an environment; the writes to disks are listed as effects.

Source: `tools_install.cpp`, `find_boot_device`, `install_worker`.

## Main results

* `installWorker_error_iff`: the refusal is raised exactly when the two cut names agree.
* `findBootDevice_of_bootedFrom`: the boot disk is found from either source.
* `installWorker_protects_iff`: when the refusal protects exactly the boot disk.
* `not_installWorker_protects`: a whole NVMe disk is not protected from itself.
-/

namespace Llamaste

/-! ### The boot device -/

/-- A name without a partition suffix: trailing digits are cut, then one `p`. -/
def stripPartitionSuffix (name : Text) : Text :=
  let base := name.rdropWhile Char.isDigit
  if base.getLast? = some 'p' then base.dropLast else base

/-- The boot device named by the first `root=` of the command line, if it names one. -/
def cmdlineBootDevice (cmdline : Option Text) : Option Text := do
  let line ← (← cmdline.map Text.lines).head?
  let rest ← Text.afterFirst "root=" line
  let rootSpec := rest.takeWhile (· ≠ ' ')
  if ("/dev/" : Text).isPrefixOf rootSpec then some (stripPartitionSuffix (rootSpec.drop 5))
  else none

/-- The boot device named by a line of `/proc/mounts`, if it mounts one on `/`. -/
def mountLineBootDevice (line : Text) : Option Text :=
  let device := line.takeWhile (· ≠ ' ')
  if (Text.afterFirst " / " line).isSome ∧ ("/dev/" : Text).isPrefixOf device then
    some (stripPartitionSuffix (device.drop 5))
  else none

/-- `find_boot_device`: the CD-ROM unless the command line or the mounts name a device. -/
def findBootDevice (cmdline mounts : Option Text) : Text :=
  ((cmdlineBootDevice cmdline).or
    ((mounts.elim [] Text.lines).findSome? mountLineBootDevice)).getD "sr0"

/-! ### Errors and effects -/

/-- Why the image could not be copied. A reason is the system's text for it. -/
inductive CopyError
  | openSource (source reason : Text)
  | openXz (source reason : Text)
  | openDevice (device reason : Text)
  | decoder
  | copyBuffer
  | xzBuffers
  | read (reason : Text)
  | xzRead (reason : Text)
  | write (offset : ℕ) (reason : Text)
  | xzWrite (reason : Text)
  | xzCode (msg : Text)

/-- Why an installation ended early. -/
inductive InstallError
  | bootDevice (device : Text)
  | notFound (device : Text)
  | cannotOpen (device reason : Text)
  | tooSmall (diskSize : ℕ)
  | noXz (source : Text)
  | noImage
  | copy (e : CopyError)

namespace CopyError

/-- The text of the error. -/
def text : CopyError → Text
  | openSource source reason => "Cannot open source: " ++ source ++ " (" ++ reason ++ ")"
  | openXz source reason => "Cannot open XZ file: " ++ source ++ " (" ++ reason ++ ")"
  | openDevice device reason => "Cannot open device: " ++ device ++ " (" ++ reason ++ ")"
  | decoder => "Failed to initialize XZ decoder"
  | copyBuffer => "Failed to allocate copy buffer"
  | xzBuffers => "Failed to allocate decompression buffers"
  | read reason => "Read error: " ++ reason
  | xzRead reason => "XZ read error: " ++ reason
  | write offset reason => "Write error at offset " ++ Text.ofNat offset ++ ": " ++ reason
  | xzWrite reason => "Write error during decompression: " ++ reason
  | xzCode msg => "XZ decompression error: " ++ msg

/-- Whether the error came up before the device was open for writing. -/
def beforeOpen : CopyError → Bool
  | openSource _ _ => true
  | openXz _ _ => true
  | openDevice _ _ => true
  | _ => false

end CopyError

/-- The text of the error. -/
def InstallError.text : InstallError → Text
  | bootDevice device => "Refusing to write to boot device: " ++ device
  | notFound device => "Device not found: " ++ device
  | cannotOpen device reason => "Cannot open device: " ++ device ++ " (" ++ reason ++ ")"
  | tooSmall diskSize =>
      "Disk too small: " ++ Text.ofNat (diskSize / (1024 * 1024)) ++ " MB (need 512 MB+)"
  | noXz source =>
      "Found " ++ source ++ " but XZ decompression not available (liblzma not linked)"
  | noImage =>
      "Installation image not found. Checked /install/ for llamaste.img and llamaste.img.xz"
  | copy e => e.text

/-- What an installation does to the disks. -/
inductive InstallEffect
  | writeImage (source device : Text)
  | resizeData (device : Text)
  | format (partition : Text)
  | initData (partition : Text)
  deriving DecidableEq

/-- The progress record at the end of a worker, and the worker's effects. -/
structure InstallProgress where
  finished : Bool
  success : Bool
  error : Option Text
  effects : List InstallEffect

/-! ### The worker -/

/-- What the system answers during one installation: the files it reads, which paths
exist, the size of the target or the reason it cannot be opened, and how the copy and the
mount of the data partition go. -/
structure InstallerEnv where
  cmdline : Option Text
  mounts : Option Text
  present : Text → Bool
  diskSize : Except Text ℕ
  haveLzma : Bool
  copy : Option CopyError
  mountsData : Bool

/-- `xz_paths`. -/
def xzPaths : List Text :=
  ["/install/llamaste.img.xz", "/media/cdrom/install/llamaste.img.xz",
   "/cdrom/install/llamaste.img.xz"]

/-- `raw_paths`. -/
def rawPaths : List Text :=
  ["/install/llamaste.img", "/media/cdrom/install/llamaste.img", "/cdrom/install/llamaste.img"]

/-- The installation image: compressed if the decompressor is linked, else raw. -/
def findImage (env : InstallerEnv) : Except InstallError Text :=
  match (if env.haveLzma then xzPaths.find? env.present else none).or
      (rawPaths.find? env.present) with
  | some source => .ok source
  | none =>
      match xzPaths.find? env.present with
      | some source => .error (.noXz source)
      | none => .error .noImage

/-- The smallest disk that is accepted, 512 MB. -/
def minDiskSize : ℕ := 512 * 1024 * 1024

/-- `/dev/` cut off a device argument. -/
def targetName (device : Text) : Text :=
  if ("/dev/" : Text).isPrefixOf device then device.drop 5 else device

/-- The checks before anything is written, and the image that will be. -/
def checkTarget (env : InstallerEnv) (device : Text) : Except InstallError Text := do
  Check.require
    (stripPartitionSuffix (targetName device) ≠ findBootDevice env.cmdline env.mounts)
    (.bootDevice device)
  Check.require (env.present device = true) (.notFound device)
  match env.diskSize with
  | .error reason => .error (.cannotOpen device reason)
  | .ok size =>
      Check.require (minDiskSize ≤ size) (.tooSmall size)
      findImage env

/-- The name of the data partition on the target. -/
def dataPartition (device : Text) : Text :=
  if ("nvme" : Text).isPrefixOf (targetName device) ∨
      ("mmcblk" : Text).isPrefixOf (targetName device) then device ++ "p5"
  else device ++ "5"

/-- `install_worker`. -/
def installWorker (env : InstallerEnv) (device : Text) : InstallProgress :=
  match checkTarget env device with
  | .error e =>
      { finished := true, success := false, error := some e.text, effects := [] }
  | .ok source =>
      match env.copy with
      | some e =>
          { finished := true, success := false
            error := some (InstallError.copy e).text
            effects := if e.beforeOpen then [] else [.writeImage source device] }
      | none =>
          { finished := true, success := true, error := none
            effects :=
              [.writeImage source device, .resizeData device, .format (dataPartition device)] ++
              if env.mountsData then [.initData (dataPartition device)] else [] }

/-! ### When the refusal is raised -/

/-- The refusal, as the progress record shows it. -/
def refusal (device : Text) : Text := (InstallError.bootDevice device).text

theorem CopyError.text_take_ne (e : CopyError) : e.text.take 3 ≠ "Ref" := by
  cases e with
  | openSource s r => exact show ("Can" : Text) ≠ "Ref" by decide
  | openXz s r => exact show ("Can" : Text) ≠ "Ref" by decide
  | openDevice d r => exact show ("Can" : Text) ≠ "Ref" by decide
  | decoder => decide
  | copyBuffer => decide
  | xzBuffers => decide
  | read r => exact show ("Rea" : Text) ≠ "Ref" by decide
  | xzRead r => exact show ("XZ " : Text) ≠ "Ref" by decide
  | write n r => exact show ("Wri" : Text) ≠ "Ref" by decide
  | xzWrite r => exact show ("Wri" : Text) ≠ "Ref" by decide
  | xzCode m => exact show ("XZ " : Text) ≠ "Ref" by decide

/-- No other error has the text of the refusal. -/
theorem text_eq_refusal_iff {e : InstallError} {device : Text} :
    e.text = refusal device ↔ e = .bootDevice device := by
  constructor
  · intro h
    have hhead : e.text.take 3 = "Ref" := by rw [h]; rfl
    cases e with
    | bootDevice d =>
        have hdevice : ("Refusing to write to boot device: " : Text) ++ d =
            ("Refusing to write to boot device: " : Text) ++ device := h
        rw [List.append_cancel_left hdevice]
    | notFound d => exact absurd (show ("Dev" : Text) = "Ref" from hhead) (by decide)
    | cannotOpen d r => exact absurd (show ("Can" : Text) = "Ref" from hhead) (by decide)
    | tooSmall n => exact absurd (show ("Dis" : Text) = "Ref" from hhead) (by decide)
    | noXz s => exact absurd (show ("Fou" : Text) = "Ref" from hhead) (by decide)
    | noImage => exact absurd hhead (by decide)
    | copy e => exact absurd hhead e.text_take_ne
  · rintro rfl
    rfl

theorem findImage_ne_bootDevice {env : InstallerEnv} {device : Text} :
    findImage env ≠ .error (.bootDevice device) := by
  rw [findImage]
  split
  · rintro ⟨⟩
  · split <;> rintro ⟨⟩

/-- The checks fail with the refusal exactly when the names agree. -/
theorem checkTarget_eq_bootDevice_iff {env : InstallerEnv} {device : Text} :
    checkTarget env device = .error (.bootDevice device) ↔
      stripPartitionSuffix (targetName device) = findBootDevice env.cmdline env.mounts := by
  simp only [checkTarget, Check.require_bind_eq_error, not_not]
  constructor
  · rintro (⟨hname, -⟩ | ⟨-, ⟨-, ⟨⟩⟩ | ⟨-, h⟩⟩)
    · exact hname
    · split at h
      · exact nomatch h
      · rcases Check.require_bind_eq_error.mp h with ⟨-, ⟨⟩⟩ | ⟨-, h⟩
        exact absurd h findImage_ne_bootDevice
  · intro hname
    exact Or.inl ⟨hname, trivial⟩

/-- The refusal is raised exactly when the cut name of the target is the boot device. -/
theorem installWorker_error_iff (env : InstallerEnv) (device : Text) :
    (installWorker env device).error = some (refusal device) ↔
      stripPartitionSuffix (targetName device) = findBootDevice env.cmdline env.mounts := by
  rw [← checkTarget_eq_bootDevice_iff]
  rw [installWorker]
  cases hcheck : checkTarget env device with
  | error e => simp [text_eq_refusal_iff]
  | ok source =>
      cases hcopy : env.copy with
      | none => simp
      | some e => simp [text_eq_refusal_iff]

/-- A refused installation writes nothing. -/
theorem effects_of_refusal {env : InstallerEnv} {device : Text}
    (h : (installWorker env device).error = some (refusal device)) :
    (installWorker env device).effects = [] := by
  rw [installWorker_error_iff, ← checkTarget_eq_bootDevice_iff] at h
  simp only [installWorker, h]

/-! ### Which disks the refusal protects -/

/-- A name without one trailing `p`. -/
def cutP (s : Text) : Text := if s.getLast? = some 'p' then s.dropLast else s

theorem cutP_concat {s : Text} {c : Char} (hc : c ≠ 'p') : cutP (s ++ [c]) = s ++ [c] := by
  simp [cutP, hc]

theorem cutP_concat_p (s : Text) : cutP (s ++ ['p']) = s := by
  simp [cutP]

theorem stripPartitionSuffix_eq (name : Text) :
    stripPartitionSuffix name = cutP (name.rdropWhile Char.isDigit) := rfl

/-- The longer name is the shorter one and a `p`, the only one at its end. -/
def ExtendsByP (short long : Text) : Prop :=
  short.getLast? ≠ some 'p' ∧ long = short ++ ['p']

instance (short long : Text) : Decidable (ExtendsByP short long) :=
  inferInstanceAs (Decidable (_ ∧ _))

/-- Cutting a `p` confuses exactly the names that differ by one. -/
theorem cutP_eq_cutP_iff {a b : Text} :
    cutP a = cutP b ↔ a = b ∨ ExtendsByP a b ∨ ExtendsByP b a := by
  have hconcat : ∀ {s : Text}, s.getLast? = some 'p' → s = s.dropLast ++ ['p'] := fun h =>
    (List.dropLast_append_getLast? _ h).symm
  unfold cutP ExtendsByP
  split_ifs with ha hb hb
  · constructor
    · intro h
      left
      rw [hconcat ha, hconcat hb, h]
    · rintro (rfl | ⟨h, -⟩ | ⟨h, -⟩)
      · rfl
      · exact absurd ha h
      · exact absurd hb h
  · constructor
    · rintro h
      right; right
      refine ⟨hb, ?_⟩
      rw [← h]
      exact hconcat ha
    · rintro (rfl | ⟨h, -⟩ | ⟨-, rfl⟩)
      · exact absurd ha hb
      · exact absurd ha h
      · simp
  · constructor
    · rintro h
      right; left
      refine ⟨ha, ?_⟩
      rw [h]
      exact hconcat hb
    · rintro (rfl | ⟨-, rfl⟩ | ⟨h, -⟩)
      · exact absurd hb ha
      · simp
      · exact absurd hb h
  · constructor
    · exact Or.inl
    · rintro (rfl | ⟨-, rfl⟩ | ⟨-, rfl⟩)
      · rfl
      · simp at hb
      · simp at ha

/-- A lettered disk and its partitions are cut to the same name. -/
theorem stripPartitionSuffix_lettered {a : BlockDevice} (hd : a.disk.numbered = false) :
    stripPartitionSuffix a.name = cutP a.disk.name := by
  rw [stripPartitionSuffix_eq]
  cases a with
  | whole d => exact congrArg cutP (Disk.rdropWhile_isDigit_lettered hd)
  | part d k =>
      have hd' : d.numbered = false := hd
      rw [BlockDevice.name, Disk.partition, Text.rdropWhile_isDigit_append_ofNat, hd']
      simp [Disk.rdropWhile_isDigit_lettered hd', BlockDevice.disk]

/-- A partition of a numbered disk is cut to the name of the disk. -/
theorem stripPartitionSuffix_partition {d : Disk} (hd : d.numbered = true) (k : ℕ) :
    stripPartitionSuffix (d.partition k) = d.name := by
  rw [stripPartitionSuffix_eq, Disk.partition,
    Text.rdropWhile_isDigit_append_ofNat, hd, if_pos rfl,
    List.rdropWhile_concat_neg _ _ _ (by decide), cutP_concat_p]

/-- A numbered disk itself is cut further, to a name that ends in a letter. -/
theorem getLast?_stripPartitionSuffix_numbered {d : Disk} (hd : d.numbered = true) :
    ∃ c, (stripPartitionSuffix d.name).getLast? = some c ∧ c.isDigit = false := by
  cases d with
  | sd l => exact nomatch hd
  | vd l => exact nomatch hd
  | nvme c n =>
      have hname : (Disk.nvme c n).name = "nvme" ++ Text.ofNat c ++ ['n'] ++ Text.ofNat n := by
        rw [List.append_assoc _ ['n']]
        rfl
      refine ⟨'n', ?_, rfl⟩
      rw [stripPartitionSuffix_eq, hname, Text.rdropWhile_isDigit_append_ofNat,
        List.rdropWhile_concat_neg _ _ _ (by decide), cutP_concat (by decide),
        List.getLast?_concat]
  | mmcblk c =>
      have hname : (Disk.mmcblk c).name = "mmcblk" ++ Text.ofNat c := rfl
      refine ⟨'k', ?_, rfl⟩
      rw [stripPartitionSuffix_eq, hname, Text.rdropWhile_isDigit_append_ofNat]
      decide

theorem stripPartitionSuffix_prefix (name : Text) : stripPartitionSuffix name <+: name := by
  have hcut : ∀ s : Text, cutP s <+: s := by
    intro s
    unfold cutP
    split_ifs
    · exact List.dropLast_prefix s
    · exact List.prefix_rfl
  exact (hcut _).trans (List.rdropWhile_prefix _ _)

/-- Names of the two kinds start differently, and so do the names they are cut to. -/
theorem stripPartitionSuffix_ne_of_lettered {a b : BlockDevice}
    (ha : a.disk.numbered = false) (hb : b.disk.numbered = true) :
    stripPartitionSuffix a.name ≠ stripPartitionSuffix b.name := by
  have hne : stripPartitionSuffix a.name ≠ [] := by
    rw [stripPartitionSuffix_lettered ha, cutP]
    have hlen := Disk.two_lt_length_name a.disk
    split_ifs
    · rw [← List.length_pos_iff, List.length_dropLast]
      omega
    · rw [← List.length_pos_iff]
      omega
  intro h
  obtain ⟨c, s, hs⟩ := List.exists_cons_of_ne_nil hne
  have hhead : ∀ name : Text, stripPartitionSuffix name = c :: s → name.head? = some c := by
    intro name hname
    obtain ⟨t, ht⟩ := stripPartitionSuffix_prefix name
    rw [← ht, hname]
    rfl
  have hca := hhead _ hs
  have hcb := hhead _ (h ▸ hs)
  rcases a.head?_lettered ha with h | h <;> rcases b.head?_numbered hb with h' | h' <;>
    exact absurd (h.symm.trans (hca.trans (hcb.symm.trans h'))) (by decide)

/-- Names that differ by a trailing `p` are lettered: the other kind ends in a digit. -/
theorem lettered_of_extendsByP {short long : Disk} (h : ExtendsByP short.name long.name) :
    short.numbered = false ∧ long.numbered = false := by
  obtain ⟨-, hlong⟩ := h
  have hl : long.numbered = false := by
    by_contra hnum
    obtain ⟨c, hlast, hdigit⟩ := Disk.getLast?_numbered (by simpa using hnum)
    rw [hlong, List.getLast?_concat] at hlast
    obtain rfl := Option.some.inj hlast
    exact absurd hdigit (by decide)
  refine ⟨?_, hl⟩
  by_contra hnum
  have hs : (BlockDevice.whole short).disk.numbered = true := (Bool.not_eq_false _).mp hnum
  have hne : short.name ≠ [] := List.length_pos_iff.mp (by have := short.two_lt_length_name; omega)
  have hhead : long.name.head? = short.name.head? := by
    rw [hlong, List.head?_append_of_ne_nil _ hne]
  rcases (BlockDevice.whole long).head?_lettered hl with h | h <;>
    rcases (BlockDevice.whole short).head?_numbered hs with h' | h' <;>
    exact absurd (h.symm.trans (hhead.trans h')) (by decide)

/-- The cut names of a device and of a partition of the boot disk agree in two cases: the
device is on the boot disk and is not the whole of a numbered one, or the names of the
two disks differ by a trailing `p`. -/
theorem stripPartitionSuffix_eq_iff (arg : BlockDevice) (boot : Disk) (k : ℕ) :
    stripPartitionSuffix arg.name = stripPartitionSuffix (boot.partition k) ↔
      (arg.disk = boot ∧ ¬ (arg = .whole boot ∧ boot.numbered = true)) ∨
      ExtendsByP arg.disk.name boot.name ∨ ExtendsByP boot.name arg.disk.name := by
  cases hb : boot.numbered with
  | false =>
      cases ha : arg.disk.numbered with
      | false =>
          rw [stripPartitionSuffix_lettered ha,
            show stripPartitionSuffix (boot.partition k) = cutP boot.name from
              stripPartitionSuffix_lettered (a := .part boot k) hb,
            cutP_eq_cutP_iff, Disk.name_injective.eq_iff]
          simp
      | true =>
          constructor
          · exact fun h => absurd h.symm
              (stripPartitionSuffix_ne_of_lettered (a := .part boot k) hb ha)
          · rintro (⟨rfl, -⟩ | h | h)
            · rw [ha] at hb
              exact nomatch hb
            · exact absurd (lettered_of_extendsByP h).1 (by simp [ha])
            · exact absurd (lettered_of_extendsByP h).2 (by simp [ha])
  | true =>
      have hnot : ¬ (ExtendsByP arg.disk.name boot.name ∨ ExtendsByP boot.name arg.disk.name) := by
        rintro (h | h)
        · exact absurd (lettered_of_extendsByP h).2 (by simp [hb])
        · exact absurd (lettered_of_extendsByP h).1 (by simp [hb])
      rw [stripPartitionSuffix_partition hb, or_iff_left hnot]
      cases arg with
      | whole d =>
          have hne : stripPartitionSuffix d.name ≠ boot.name := by
            cases hd : d.numbered with
            | false =>
                rw [← stripPartitionSuffix_partition hb k]
                exact stripPartitionSuffix_ne_of_lettered (a := .whole d) (b := .part boot k) hd hb
            | true =>
                intro h
                obtain ⟨c, hc, hletter⟩ := getLast?_stripPartitionSuffix_numbered hd
                obtain ⟨c', hc', hdigit⟩ := Disk.getLast?_numbered hb
                rw [h, hc'] at hc
                obtain rfl := Option.some.inj hc
                rw [hdigit] at hletter
                exact nomatch hletter
          constructor
          · exact fun h => absurd h hne
          · rintro ⟨rfl, hnot⟩
            exact absurd ⟨rfl, rfl⟩ hnot
      | part d j =>
          have hnot : ¬ (BlockDevice.part d j = .whole boot ∧ true = true) := by
            rintro ⟨⟨⟩, -⟩
          rw [and_iff_left hnot]
          cases hd : d.numbered with
          | false =>
              constructor
              · intro h
                rw [← stripPartitionSuffix_partition hb k] at h
                exact absurd h (stripPartitionSuffix_ne_of_lettered (a := .part d j)
                  (b := .part boot k) hd hb)
              · rintro rfl
                exact nomatch hd.symm.trans hb
          | true =>
              rw [BlockDevice.name, stripPartitionSuffix_partition hd, Disk.name_injective.eq_iff]
              rfl

/-! ### The claim of the refusal -/

/-- The system was booted from the partition `part`: the first `root=` of the command line
names it, or the command line names no device and the first line of `/proc/mounts` about a
device on `/` names it. -/
inductive BootedFrom (cmdline mounts : Option Text) (part : Text) : Prop
  | cmdline {content line rest : Text} (hcontent : cmdline = some content)
      (hline : (Text.lines content).head? = some line)
      (hroot : Text.afterFirst "root=" line = some ("/dev/" ++ part ++ rest))
      (hrest : ∀ c ∈ rest.head?, c = ' ')
  | mounts {content rest : Text} {before after : List Text}
      (hcmdline : ∀ content line rest, cmdline = some content →
        (Text.lines content).head? = some line → Text.afterFirst "root=" line = some rest →
        ¬ ("/dev/" : Text) <+: rest)
      (hcontent : mounts = some content)
      (hlines : Text.lines content = before ++ ("/dev/" ++ part ++ " / " ++ rest) :: after)
      (hbefore : ∀ l ∈ before, ¬ (("/dev/" : Text) <+: l ∧ (" / " : Text) <:+: l))

theorem not_space_mem_dev {part : Text} (h : ∀ c ∈ part, c.isAlphanum = true) :
    ' ' ∉ (("/dev/" : Text) ++ part) := by
  intro hmem
  rcases List.mem_append.mp hmem with hmem | hmem
  · exact absurd hmem (by decide)
  · exact absurd (h _ hmem) (by decide)

theorem dev_prefix_of_takeWhile {p : Char → Bool} {s : Text}
    (h : ("/dev/" : Text).isPrefixOf (s.takeWhile p) = true) : ("/dev/" : Text) <+: s :=
  (List.isPrefixOf_iff_prefix.mp h).trans (List.takeWhile_prefix p)

/-- A command line whose first `root=` names no device leaves the mounts to decide. -/
theorem cmdlineBootDevice_eq_none {cmdline : Option Text}
    (h : ∀ content line rest, cmdline = some content →
      (Text.lines content).head? = some line → Text.afterFirst "root=" line = some rest →
      ¬ ("/dev/" : Text) <+: rest) : cmdlineBootDevice cmdline = none := by
  unfold cmdlineBootDevice
  cases cmdline with
  | none => rfl
  | some content =>
      cases hline : (Text.lines content).head? with
      | none => simp [hline]
      | some line =>
          cases hroot : Text.afterFirst "root=" line with
          | none => simp only [Option.map_some, Option.bind_eq_bind, Option.bind_some, hline, hroot,
              Option.bind_none]
          | some rest =>
              simp only [Option.map_some, Option.bind_eq_bind, Option.bind_some, hline, hroot]
              exact if_neg fun hdev => h content line rest rfl hline hroot
                (dev_prefix_of_takeWhile hdev)

/-- A line that names no device, or is not about `/`, is passed over. -/
theorem mountLineBootDevice_eq_none {l : Text}
    (h : ¬ (("/dev/" : Text) <+: l ∧ (" / " : Text) <:+: l)) : mountLineBootDevice l = none :=
  if_neg fun ⟨hroot, hdev⟩ =>
    h ⟨dev_prefix_of_takeWhile hdev, Text.isSome_afterFirst_iff.mp hroot⟩

/-- The line that mounts a device on `/` names it. -/
theorem mountLineBootDevice_root {part : Text} (hpart : ∀ c ∈ part, c.isAlphanum = true)
    (rest : Text) :
    mountLineBootDevice ("/dev/" ++ part ++ " / " ++ rest) = some (stripPartitionSuffix part) := by
  have hdevice : (("/dev/" : Text) ++ part ++ " / " ++ rest).takeWhile (· ≠ ' ') =
      "/dev/" ++ part := by
    rw [List.append_assoc (("/dev/" : Text) ++ part)]
    exact Text.takeWhile_ne (not_space_mem_dev hpart) (by rintro c ⟨⟩; rfl)
  have hroot : (Text.afterFirst " / " (("/dev/" : Text) ++ part ++ " / " ++ rest)).isSome :=
    Text.isSome_afterFirst_iff.mpr ⟨_, rest, rfl⟩
  simp only [mountLineBootDevice, hdevice]
  rw [if_pos ⟨hroot, rfl⟩]
  rfl

/-- `find_boot_device` finds the disk that the system was booted from. -/
theorem findBootDevice_of_bootedFrom {cmdline mounts : Option Text} {part : Text}
    (hpart : ∀ c ∈ part, c.isAlphanum = true) (h : BootedFrom cmdline mounts part) :
    findBootDevice cmdline mounts = stripPartitionSuffix part := by
  have hspace := not_space_mem_dev hpart
  cases h with
  | @cmdline content line rest hcontent hline hroot hrest =>
      have hdev : cmdlineBootDevice cmdline = some (stripPartitionSuffix part) := by
        subst hcontent
        simp only [cmdlineBootDevice, Option.map_some, Option.bind_eq_bind, Option.bind_some,
          hline, hroot, Text.takeWhile_ne hspace hrest]
        rfl
      rw [findBootDevice, hdev]
      rfl
  | @mounts content rest before after hcmdline hcontent hlines hbefore =>
      have hmount : (Text.lines content).findSome? mountLineBootDevice =
          some (stripPartitionSuffix part) := by
        have hskip : before.findSome? mountLineBootDevice = none :=
          List.findSome?_eq_none_iff.mpr fun l hl => mountLineBootDevice_eq_none (hbefore l hl)
        rw [hlines, List.findSome?_append, hskip, Option.none_or, List.findSome?_cons,
          mountLineBootDevice_root hpart]
      rw [findBootDevice, cmdlineBootDevice_eq_none hcmdline, hcontent, Option.none_or,
        Option.elim_some, hmount, Option.getD_some]

/-- **What the refusal protects.** Booted from a partition of the disk `boot`, the
installer refuses every device on `boot` without writing, and no other device, unless the
device is `boot` itself and its name ends in a number, or the name of the device's disk
differs from that of `boot` by a trailing `p`. -/
theorem installWorker_protects_iff {env : InstallerEnv} {boot : Disk} {k : ℕ}
    (hboot : BootedFrom env.cmdline env.mounts (boot.partition k)) (arg : BlockDevice) :
    let device : Text := "/dev/" ++ arg.name
    let progress := installWorker env device
    ((arg.disk = boot → progress.error = some (refusal device) ∧ progress.effects = []) ∧
      (arg.disk ≠ boot → progress.error ≠ some (refusal device))) ↔
    ¬ (arg = .whole boot ∧ boot.numbered = true) ∧
      ¬ ExtendsByP arg.disk.name boot.name ∧ ¬ ExtendsByP boot.name arg.disk.name := by
  intro device progress
  have herror : progress.error = some (refusal device) ↔
      (arg.disk = boot ∧ ¬ (arg = .whole boot ∧ boot.numbered = true)) ∨
      ExtendsByP arg.disk.name boot.name ∨ ExtendsByP boot.name arg.disk.name := by
    rw [installWorker_error_iff,
    findBootDevice_of_bootedFrom Disk.isAlphanum_of_mem_partition hboot]
    exact stripPartitionSuffix_eq_iff arg boot k
  have hextends : ExtendsByP arg.disk.name boot.name ∨ ExtendsByP boot.name arg.disk.name →
      arg.disk ≠ boot := by
    rintro (⟨-, h⟩ | ⟨-, h⟩) heq <;> rw [heq] at h <;> simp at h
  constructor
  · rintro ⟨hsame, hother⟩
    refine ⟨?_, ?_, ?_⟩
    · rintro hwhole
      have hdisk : arg.disk = boot := by rw [hwhole.1]; rfl
      rcases herror.mp (hsame hdisk).1 with ⟨-, h⟩ | h
      · exact h hwhole
      · exact hextends h hdisk
    · intro h
      exact hother (hextends (Or.inl h)) (herror.mpr (Or.inr (Or.inl h)))
    · intro h
      exact hother (hextends (Or.inr h)) (herror.mpr (Or.inr (Or.inr h)))
  · rintro ⟨hwhole, hlong, hshort⟩
    constructor
    · intro hdisk
      have hrefused := herror.mpr (Or.inl ⟨hdisk, hwhole⟩)
      exact ⟨hrefused, effects_of_refusal hrefused⟩
    · intro hdisk hrefused
      rcases herror.mp hrefused with ⟨h, -⟩ | h | h
      · exact hdisk h
      · exact hlong h
      · exact hshort h

/-- A system booted from the third partition of `/dev/nvme0n1`, with an image to install. -/
def nvmeEnv : InstallerEnv where
  cmdline := some "root=/dev/nvme0n1p3 quiet"
  mounts := none
  present _ := true
  diskSize := .ok minDiskSize
  haveLzma := false
  copy := none
  mountsData := false

theorem bootedFrom_nvmeEnv :
    BootedFrom nvmeEnv.cmdline nvmeEnv.mounts ((Disk.nvme 0 1).partition 3) :=
  have hroot : Text.afterFirst "root=" "root=/dev/nvme0n1p3 quiet" =
      some ("/dev/" ++ (Disk.nvme 0 1).partition 3 ++ (" quiet" : Text)) := by
    decide +kernel
  .cmdline rfl (by decide) hroot (by rintro c ⟨⟩; rfl)

/-- A partition of the boot disk is refused there. -/
theorem installWorker_protects_nvme_partition :
    (installWorker nvmeEnv "/dev/nvme0n1p5").error = some (refusal "/dev/nvme0n1p5") ∧
      (installWorker nvmeEnv "/dev/nvme0n1p5").effects = [] :=
  ((installWorker_protects_iff bootedFrom_nvmeEnv (.part (.nvme 0 1) 5)).mpr
    ⟨by rintro ⟨⟨⟩, -⟩, by decide, by decide⟩).1 rfl

/-- The whole boot disk is not: the installation goes through and overwrites it. -/
theorem not_installWorker_protects :
    ¬ ∀ (env : InstallerEnv) (boot : Disk) (k : ℕ) (arg : BlockDevice),
      BootedFrom env.cmdline env.mounts (boot.partition k) →
      let device : Text := "/dev/" ++ arg.name
      let progress := installWorker env device
      (arg.disk = boot → progress.error = some (refusal device) ∧ progress.effects = []) ∧
        (arg.disk ≠ boot → progress.error ≠ some (refusal device)) := by
  intro h
  obtain ⟨-, heffects⟩ := (h nvmeEnv (.nvme 0 1) 3 (.whole (.nvme 0 1)) bootedFrom_nvmeEnv).1 rfl
  exact absurd heffects (by decide)

end Llamaste
