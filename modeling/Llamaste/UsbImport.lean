import Llamaste.Lib.ChunkedCopy
import Llamaste.ModelTransfers

/-!
# Importing a model from a USB drive

The import looks for the file on the drive by a part of its path, opens the destination before it
knows that the source can be read, and copies without looking at the state of either.

Source: `tools_model_download.cpp` (`scan_gguf_files`, `handle_model_usb_import`).

## Main results

* `snd_usbImport`: the reply is that of the model in which the files are left open.
* `importsFaithfully_iff`: when an import copies the right file, or says that it did not.
-/

namespace Llamaste

open Text (cStr)

/-! ### The model -/

/-- What stands in a directory of a drive: a regular file by its inode, a directory, or anything
else, also what cannot be looked at. -/
inductive UsbNode
  | file (inode : ℕ)
  | dir (entries : List (Text × UsbNode))
  | other

/-- A drive: its entries, in the order in which they are read, and the bytes of its files. -/
structure UsbDrive where
  root : List (Text × UsbNode)
  contents : ℕ → Bytes

/-- `scan_gguf_files`, over so many more levels: the paths of the model files, with their inodes. -/
def scanGgufFiles : ℕ → Text → List (Text × UsbNode) → List (Text × ℕ)
  | 0, _, _ => []
  | levels + 1, dir, entries => entries.flatMap fun entry =>
      if entry.1.head? = some '.' then []
      else
        match entry.2 with
        | .dir sub => scanGgufFiles levels (dir ++ "/" ++ entry.1) sub
        | .file inode =>
            if 5 < entry.1.length ∧ (".gguf" : Text).isSuffixOf entry.1 then
              [(dir ++ "/" ++ entry.1, inode)]
            else []
        | .other => []

/-- How the calls of an import end: whether the device is mounted, the free space, whether both
files are opened, how many bytes can be read, and for how many there is room. -/
structure UsbCalls where
  mounts : Bool
  freeMb : ℕ
  srcOpens : Bool
  dstOpens : Bool
  readable : ℕ
  room : ℕ

/-- The first file on a drive that has the name somewhere in its path. -/
def findOnUsb (root : List (Text × UsbNode)) (filename : Text) : Option (Text × ℕ) :=
  (scanGgufFiles 4 "/mnt/usb" root).find? fun file => (Text.afterFirst filename file.1).isSome

/-- What the copy loop writes and counts. -/
def copyModel (calls : UsbCalls) (bytes : Bytes) : Bytes × ℕ :=
  ChunkedCopy.copy 65536 calls.room (bytes.take calls.readable) [] 0

/-- The action `import` of `handle_model_usb_import`, on the files of `/data/models` by their
paths. -/
def importModel (calls : UsbCalls) (drive : UsbDrive) (device filename : Text)
    (models : Text → Option Bytes) : (Text → Option Bytes) × Json :=
  if device = [] ∨ filename = [] then
    (models, ToolRegistry.errorJson "Import requires 'device' and 'filename' parameters")
  else if validateGgufFilename filename = false then
    (models, ToolRegistry.errorJson "Invalid GGUF filename")
  else if calls.mounts = false then (models, ToolRegistry.errorJson "Failed to mount USB device")
  else
    match findOnUsb drive.root filename with
    | none => (models, ToolRegistry.errorJson
        ("File '" ++ filename ++ "' not found on " ++ device))
    | some (_, inode) =>
      let needMb := (drive.contents inode).length / (1024 * 1024) + 100
      if calls.freeMb < needMb then
        (models, ToolRegistry.errorJson ("Not enough disk space. Need " ++ Text.ofNat needMb ++
          " MB, have " ++ Text.ofNat calls.freeMb ++ " MB"))
      else
        let dest := modelsDir ++ filename
        let models :=
          if calls.dstOpens then Function.update models (cStr dest) (some []) else models
        if calls.srcOpens = false ∨ calls.dstOpens = false then
          (models, ToolRegistry.errorJson "Failed to open source or destination file")
        else
          let (written, copied) := copyModel calls (drive.contents inode)
          (Function.update models (cStr dest) (some written),
            .object [("status".toList, .str "success"), ("path".toList, .str dest),
              ("filename".toList, .str filename), ("size_bytes".toList, .int copied),
              ("size_human".toList, .str (formatBytes copied)),
              ("message".toList, .str "Model imported from USB. Restart to load it.")])

/-- The same world for the model of the transfers, for one file that is opened. -/
structure SameImport (calls : UsbCalls) (drive : UsbDrive) (device filename : Text)
    (w : TransferWorld) : Prop where
  files : w.usbFiles device = if calls.mounts then
    some ((scanGgufFiles 4 "/mnt/usb" drive.root).map fun file =>
      (file.1, (drive.contents file.2).length)) else none
  free : w.freeMb = calls.freeMb
  reads : w.usbReads = calls.srcOpens
  opens : w.usbOpens (cStr (modelsDir ++ filename)) = calls.dstOpens
  copied : ∀ file, findOnUsb drive.root filename = some file →
    w.copied = (copyModel calls (drive.contents file.2)).2

/-! ### What is claimed -/

/-- A regular file of this name is somewhere on the drive. -/
inductive HasFile : List (Text × UsbNode) → Text → ℕ → Prop
  | here {entries : List (Text × UsbNode)} {name : Text} {inode : ℕ}
      (h : (name, .file inode) ∈ entries) : HasFile entries name inode
  | inside {entries sub : List (Text × UsbNode)} {dir name : Text} {inode : ℕ}
      (h : (dir, .dir sub) ∈ entries) (hsub : HasFile sub name inode) : HasFile entries name inode

/-- A success has copied all bytes of a file of the name, and an error has left the old file. -/
structure ImportsFaithfully (calls : UsbCalls) (drive : UsbDrive) (device filename : Text)
    (models : Text → Option Bytes) : Prop where
  success : (importModel calls drive device filename models).2.find "status" =
      some (.str "success") → ∃ inode, HasFile drive.root filename inode ∧
    (importModel calls drive device filename models).1 (cStr (modelsDir ++ filename)) =
      some (drive.contents inode) ∧
    (importModel calls drive device filename models).2.find "size_bytes" =
      some (.int (drive.contents inode).length)
  error : ((importModel calls drive device filename models).2.find "error").isSome = true →
    ∀ old, models (cStr (modelsDir ++ filename)) = some old →
      (importModel calls drive device filename models).1 (cStr (modelsDir ++ filename)) = some old

/-! ### The condition -/

/-- The file that an import opens, on a drive with files of these sizes. -/
def importSource (calls : UsbCalls) (root : List (Text × UsbNode)) (size : ℕ → ℕ)
    (device filename : Text) : Option ℕ :=
  if device = [] ∨ filename = [] ∨ validateGgufFilename filename = false ∨
    calls.mounts = false then none
  else
    match findOnUsb root filename with
    | none => none
    | some (_, inode) =>
      if calls.freeMb < size inode / (1024 * 1024) + 100 then none else some inode

/-- The file that is opened has the name, can be read to its end, and there is room for it, or
nothing is read and there is an empty file of the name; and where the source cannot be opened there
is nothing to lose. -/
structure ImportFits (calls : UsbCalls) (root : List (Text × UsbNode)) (size : ℕ → ℕ)
    (filename : Text) (models : Text → Option Bytes) (inode : ℕ) : Prop where
  copies : calls.srcOpens = true → calls.dstOpens = true →
    (HasFile root filename inode ∧ size inode ≤ calls.readable ∧ size inode ≤ calls.room) ∨
    (min calls.readable (size inode) = 0 ∧ ∃ empty, HasFile root filename empty ∧ size empty = 0)
  keeps : calls.srcOpens = false → calls.dstOpens = true →
    ∀ old, models (cStr (modelsDir ++ filename)) = some old → old = []

/-! ### The reply -/

section

variable {calls : UsbCalls} {drive : UsbDrive} {device filename : Text}
  {models : Text → Option Bytes}

theorem copyModel_eq (calls : UsbCalls) (bytes : Bytes) : copyModel calls bytes =
    ((bytes.take calls.readable).take calls.room, min calls.readable bytes.length) := by
  rw [copyModel, ChunkedCopy.copy_eq (by decide) _ _ _ (Nat.zero_le _), List.nil_append,
    Nat.zero_add, List.length_take]

/-- The reply is that of the model in which the files are left open. -/
theorem snd_usbImport {w : TransferWorld} (h : SameImport calls drive device filename w) :
    (usbImport w device filename).2 =
      some (importModel calls drive device filename models).2 := by
  rw [usbImport, importModel]
  by_cases hnil : device = [] ∨ filename = []
  · rw [if_pos hnil, if_pos hnil]
  rw [if_neg hnil, if_neg hnil]
  by_cases hname : validateGgufFilename filename = false
  · rw [if_pos hname, if_pos hname]
  rw [if_neg hname, if_neg hname, h.files]
  cases hmounts : calls.mounts with
  | false => rfl
  | true =>
      rw [if_pos rfl, if_neg (Bool.false_ne_true ∘ Eq.symm)]
      dsimp only
      have hfind : (((scanGgufFiles 4 "/mnt/usb" drive.root).map fun file =>
          (file.1, (drive.contents file.2).length)).find? fun file =>
            (Text.afterFirst filename file.1).isSome) = (findOnUsb drive.root filename).map
              fun file => (file.1, (drive.contents file.2).length) := List.find?_map ..
      rw [hfind]
      cases hfound : findOnUsb drive.root filename with
      | none => rfl
      | some file =>
          rw [Option.map_some]
          dsimp only
          rw [h.free, h.reads, h.opens, h.copied file hfound]
          split_ifs <;> rfl

variable (drive models) in
/-- An import that opens no file changes nothing. -/
theorem importModel_of_none (h : importSource calls drive.root
      (fun inode => (drive.contents inode).length) device filename = none) :
    ∃ error, importModel calls drive device filename models =
      (models, ToolRegistry.errorJson error) := by
  rw [importSource] at h
  rw [importModel]
  by_cases hnil : device = [] ∨ filename = []
  · rw [if_pos hnil]
    exact ⟨_, rfl⟩
  rw [if_neg hnil]
  by_cases hname : validateGgufFilename filename = false
  · rw [if_pos hname]
    exact ⟨_, rfl⟩
  rw [if_neg hname]
  by_cases hmounts : calls.mounts = false
  · rw [if_pos hmounts]
    exact ⟨_, rfl⟩
  rw [if_neg hmounts]
  have hvalid : ¬(device = [] ∨ filename = [] ∨ validateGgufFilename filename = false ∨
      calls.mounts = false) := by
    rw [← or_assoc]
    exact not_or.mpr ⟨hnil, not_or.mpr ⟨hname, hmounts⟩⟩
  rw [if_neg hvalid] at h
  cases hfound : findOnUsb drive.root filename with
  | none => exact ⟨_, rfl⟩
  | some file =>
      rw [hfound] at h
      dsimp only at h ⊢
      split_ifs at h with hspace
      rw [if_pos hspace]
      exact ⟨_, rfl⟩

/-- What an import does once it has found its file. -/
theorem importModel_of_some {inode : ℕ} (h : importSource calls drive.root
      (fun inode => (drive.contents inode).length) device filename = some inode) :
    importModel calls drive device filename models =
      (let dest := modelsDir ++ filename
       let models :=
         if calls.dstOpens then Function.update models (cStr dest) (some []) else models
       if calls.srcOpens = false ∨ calls.dstOpens = false then
         (models, ToolRegistry.errorJson "Failed to open source or destination file")
       else
         let (written, copied) := copyModel calls (drive.contents inode)
         (Function.update models (cStr dest) (some written),
           .object [("status".toList, .str "success"), ("path".toList, .str dest),
             ("filename".toList, .str filename), ("size_bytes".toList, .int copied),
             ("size_human".toList, .str (formatBytes copied)),
             ("message".toList, .str "Model imported from USB. Restart to load it.")])) := by
  rw [importSource] at h
  split_ifs at h with hvalid
  simp only [not_or] at hvalid
  rw [importModel, if_neg (not_or.mpr ⟨hvalid.1, hvalid.2.1⟩), if_neg hvalid.2.2.1,
    if_neg hvalid.2.2.2]
  cases hfound : findOnUsb drive.root filename with
  | none =>
      rw [hfound] at h
      exact nomatch h
  | some file =>
      rw [hfound] at h
      dsimp only at h ⊢
      split_ifs at h with hspace
      obtain rfl := Option.some.inj h
      rw [if_neg hspace]

/-! ### When it is faithful -/

variable (drive models) in
/-- Where the destination and the source are opened. -/
theorem importModel_of_opens {inode : ℕ} (h : importSource calls drive.root
      (fun inode => (drive.contents inode).length) device filename = some inode)
    (hsrc : calls.srcOpens = true) (hdst : calls.dstOpens = true) :
    (importModel calls drive device filename models).1 (cStr (modelsDir ++ filename)) =
        some (((drive.contents inode).take calls.readable).take calls.room) ∧
      (importModel calls drive device filename models).2.find "status" =
        some (.str "success") ∧
      (importModel calls drive device filename models).2.find "size_bytes" =
        some (.int (min calls.readable (drive.contents inode).length : ℕ)) ∧
      (importModel calls drive device filename models).2.find "error" = none := by
  have hopens : ¬(calls.srcOpens = false ∨ calls.dstOpens = false) := by
    rw [hsrc, hdst]
    exact nofun
  rw [importModel_of_some h]
  dsimp only
  rw [if_neg hopens, copyModel_eq]
  exact ⟨Function.update_self .., rfl, rfl, rfl⟩

variable (drive models) in
/-- Where one of them is not. -/
theorem importModel_of_not_opens {inode : ℕ} (h : importSource calls drive.root
      (fun inode => (drive.contents inode).length) device filename = some inode)
    (hopens : calls.srcOpens = false ∨ calls.dstOpens = false) :
    importModel calls drive device filename models =
      (if calls.dstOpens then Function.update models (cStr (modelsDir ++ filename)) (some [])
        else models,
        ToolRegistry.errorJson "Failed to open source or destination file") := by
  rw [importModel_of_some h]
  dsimp only
  rw [if_pos hopens]

end

/-- The drive with these entries, and with the same byte everywhere in a file: one for the file
that is opened, zero for the others. -/
def markedDrive (root : List (Text × UsbNode)) (size : ℕ → ℕ) (opened : ℕ) : UsbDrive where
  root
  contents inode := List.replicate (size inode) (if inode = opened then 1 else 0)

section

variable {calls : UsbCalls} {root : List (Text × UsbNode)} {size : ℕ → ℕ} {device filename : Text}
  {models : Text → Option Bytes}

theorem importFits_of_faithful (hfaithful : ∀ contents : ℕ → Bytes,
      (∀ inode, (contents inode).length = size inode) →
        ImportsFaithfully calls ⟨root, contents⟩ device filename models)
    {inode : ℕ} (h : importSource calls root size device filename = some inode) :
    ImportFits calls root size filename models inode := by
  have hlength (i : ℕ) : ((markedDrive root size inode).contents i).length = size i :=
    List.length_replicate
  have hsame : (fun i => ((markedDrive root size inode).contents i).length) = size :=
    funext hlength
  have hsource : importSource calls (markedDrive root size inode).root
      (fun i => ((markedDrive root size inode).contents i).length) device filename =
        some inode := by
    rw [hsame]
    exact h
  have hmarked := hfaithful (markedDrive root size inode).contents hlength
  refine ⟨fun hsrc hdst => ?_, fun hsrc hdst old hold => ?_⟩
  · obtain ⟨hdest, hstatus, hsize, -⟩ :=
      importModel_of_opens (markedDrive root size inode) models hsource hsrc hdst
    obtain ⟨found, hfound, hcontents, hcount⟩ := hmarked.success hstatus
    have hbytes := Option.some.inj (hdest.symm.trans hcontents)
    have hread := Int.ofNat.inj (Json.int.inj (Option.some.inj (hsize.symm.trans hcount)))
    rw [hlength, hlength] at hread
    by_cases hopened : found = inode
    · subst hopened
      have hwritten := congrArg List.length hbytes
      rw [List.length_take, List.length_take, hlength] at hwritten
      exact Or.inl ⟨hfound, by omega, by omega⟩
    · -- the marks differ, so there are none
      have hzero : size found = 0 := by
        by_contra hne
        have hmem : (0 : UInt8) ∈ (markedDrive root size inode).contents found := by
          dsimp only [markedDrive]
          rw [if_neg hopened]
          exact List.mem_replicate.mpr ⟨hne, rfl⟩
        rw [← hbytes] at hmem
        have hone := List.mem_of_mem_take (List.mem_of_mem_take hmem)
        dsimp only [markedDrive] at hone
        rw [if_pos rfl] at hone
        exact absurd (List.eq_of_mem_replicate hone) (by decide)
      exact Or.inr ⟨hread.trans hzero, found, hfound, hzero⟩
  · have hreply := importModel_of_not_opens (markedDrive root size inode) models hsource
      (Or.inl hsrc)
    have hkept := hmarked.error
    rw [show (⟨root, (markedDrive root size inode).contents⟩ : UsbDrive) =
      markedDrive root size inode from rfl, hreply, if_pos hdst] at hkept
    have hempty := hkept rfl old hold
    dsimp only at hempty
    rw [Function.update_self] at hempty
    exact (Option.some.inj hempty).symm

/-- **An import copies the right file or says that it did not,** whatever the files contain, exactly
when the file that it opens, if any, has the name and is read and written to its end, and a source
that cannot be opened costs no old file. -/
theorem importsFaithfully_iff (calls : UsbCalls) (root : List (Text × UsbNode)) (size : ℕ → ℕ)
    (device filename : Text) (models : Text → Option Bytes) :
    (∀ contents : ℕ → Bytes, (∀ inode, (contents inode).length = size inode) →
      ImportsFaithfully calls ⟨root, contents⟩ device filename models) ↔
    ∀ inode, importSource calls root size device filename = some inode →
      ImportFits calls root size filename models inode := by
  refine ⟨fun hfaithful inode h => importFits_of_faithful hfaithful h, fun hfits contents hlength =>
    ?_⟩
  have hsame : (fun inode => (contents inode).length) = size := funext hlength
  cases hsource : importSource calls root size device filename with
  | none =>
      rw [← hsame] at hsource
      obtain ⟨error, hreply⟩ := importModel_of_none ⟨root, contents⟩ models hsource
      exact ⟨fun hstatus => absurd (hreply ▸ hstatus) nofun, fun _ old hold => by rwa [hreply]⟩
  | some inode =>
      have hfit := hfits inode hsource
      rw [← hsame] at hsource
      by_cases hopens : calls.srcOpens = false ∨ calls.dstOpens = false
      · have hreply := importModel_of_not_opens ⟨root, contents⟩ models hsource hopens
        refine ⟨fun hstatus => absurd (hreply ▸ hstatus) nofun, fun _ old hold => ?_⟩
        rw [hreply]
        by_cases hdst : calls.dstOpens = true
        · have hsrc := hopens.resolve_right (by rw [hdst]; exact nofun)
          dsimp only
          rw [if_pos hdst, Function.update_self, hfit.keeps hsrc hdst old hold]
        · dsimp only
          rwa [if_neg hdst]
      · rw [not_or, Bool.not_eq_false, Bool.not_eq_false] at hopens
        obtain ⟨hdest, -, hsize, herror⟩ := importModel_of_opens ⟨root, contents⟩ models
          hsource hopens.1 hopens.2
        refine ⟨fun _ => ?_, fun hsome => absurd hsome (by rw [herror]; exact nofun)⟩
        rw [hlength] at hsize
        rcases hfit.copies hopens.1 hopens.2 with
          ⟨hfile, hread, hroom⟩ | ⟨hnone, empty, hfile, hempty⟩
        · refine ⟨inode, hfile, ?_, ?_⟩
          · have htake : (contents inode).take calls.readable = contents inode :=
              List.take_of_length_le ((hlength inode).trans_le hread)
            rw [hdest]
            dsimp only
            rw [htake, List.take_of_length_le ((hlength inode).trans_le hroom)]
          · rw [hsize]
            dsimp only
            rw [hlength, Nat.min_eq_right hread]
        · have hnil : contents empty = [] :=
            List.length_eq_zero_iff.mp ((hlength empty).trans hempty)
          have htake : (contents inode).take calls.readable = [] := by
            rw [← List.length_eq_zero_iff, List.length_take, hlength, hnone]
          refine ⟨empty, hfile, ?_, ?_⟩
          · rw [hdest]
            dsimp only
            rw [htake, hnil, List.take_nil]
          · rw [hsize]
            dsimp only
            rw [hlength, hempty, hnone]

end

/-! ### Where the file is found -/

/-- What the scan lists is a file, under the last part of its path. -/
theorem hasFile_of_mem_scan {levels : ℕ} {dir path : Text} {entries : List (Text × UsbNode)}
    {inode : ℕ} (h : (path, inode) ∈ scanGgufFiles levels dir entries) :
    ∃ parent name, path = parent ++ "/" ++ name ∧ HasFile entries name inode := by
  induction levels generalizing dir entries with
  | zero => exact nomatch h
  | succ levels ih =>
      obtain ⟨⟨name, node⟩, hentry, hmem⟩ := List.mem_flatMap.mp h
      dsimp only at hmem
      by_cases hhidden : name.head? = some '.'
      · rw [if_pos hhidden] at hmem
        exact nomatch hmem
      rw [if_neg hhidden] at hmem
      cases node with
      | dir sub =>
          obtain ⟨parent, file, rfl, hfile⟩ := ih hmem
          exact ⟨parent, file, rfl, .inside hentry hfile⟩
      | file n =>
          dsimp only at hmem
          split_ifs at hmem
          · obtain ⟨rfl, rfl⟩ := Prod.mk.inj (List.mem_singleton.mp hmem)
            exact ⟨dir, name, rfl, .here hentry⟩
          · exact nomatch hmem
      | other => exact nomatch hmem

/-- The drive of which another file is copied. -/
def otherModelRoot : List (Text × UsbNode) := [("my-model.gguf", .file 0), ("model.gguf", .file 1)]

/-- A file is copied because its name ends in the name that was asked for. -/
theorem not_importsFaithfully : ¬∀ calls drive device filename models,
    validateGgufFilename filename = true →
      ImportsFaithfully calls drive device filename models := fun h => by
  let calls : UsbCalls :=
    { mounts := true, freeMb := 200, srcOpens := true, dstOpens := true, readable := 1, room := 1 }
  have hfaithful (contents : ℕ → Bytes) : (∀ inode, (contents inode).length = 1) →
      ImportsFaithfully calls ⟨otherModelRoot, contents⟩ "/dev/sdb1" "model.gguf" fun _ => none :=
    fun _ => h _ _ _ _ _ (by decide)
  have hsource : importSource calls otherModelRoot (fun _ => 1) "/dev/sdb1" "model.gguf" = some 0 :=
    by decide +kernel
  have hfits := importFits_of_faithful hfaithful hsource
  rcases hfits.copies rfl rfl with ⟨hfile, -⟩ | ⟨hnone, -⟩
  · cases hfile with
    | here hmem =>
        rcases List.mem_cons.mp hmem with heq | hmem
        · exact absurd (Prod.mk.inj heq).1 (by decide)
        · exact absurd (Prod.mk.inj (List.mem_singleton.mp hmem)).2 nofun
    | inside hmem =>
        rcases List.mem_cons.mp hmem with heq | hmem
        · exact absurd (Prod.mk.inj heq).2 nofun
        · exact absurd (Prod.mk.inj (List.mem_singleton.mp hmem)).2 nofun
  · exact absurd hnone (by decide)

end Llamaste
