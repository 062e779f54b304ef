import Llamaste.Grubenv
import Llamaste.Lib.TempRename
import Llamaste.TargetPartition
import Llamaste.UpdateFile

/-!
# Installing an update

`install_update` checks a `.update` file, writes its payload to the inactive partition,
arms the new slot in grubenv, and records the slot's version. The Ed25519 verification
and SHA-256 are parameters, and so is everything the system answers: a step that can
fail takes its outcome from the environment.

Source: `updater.cpp`, `install_update`.

## Main results

* `installUpdate_authenticated`: whatever bytes reach a block device are those the
  manifest's signature vouches for, and a return before the write changes nothing.
* `installUpdate_complete`: a successful installation has written the whole payload.
-/

namespace Llamaste

/-! ### What the updater is given -/

/-- The cryptographic functions. -/
structure Crypto where
  verify : (signature message publicKey : Bytes) → Bool
  sha256 : Bytes → Bytes

/-- What is compiled into the updater: its version and its public key. -/
structure Build where
  version : Text
  publicKey : Bytes

/-- How the second read of the file, for the payload, goes. -/
inductive PayloadRead
  | notOpened
  | notSought
  | outOfMemory
  | read (bytes : ℕ)

/-- What the system answers during one installation. `writes` gives, for a chunk at an
offset, the bytes that the device takes, or `none` for an error. -/
structure InstallEnv where
  payloadRead : PayloadRead
  cmdline : Option Text
  mounts : Option Text
  present : Text → Bool
  opens : Text → Bool
  writes : ℕ → Option ℕ
  grubenvSave : TempRename
  metaOpens : Bool
  metaWritten : ℕ

/-- The contents of the block devices and of the files outside them. -/
structure Storage where
  blocks : Text → Bytes
  files : Text → Option Text

/-- The result document: an error text, or the report of a success. -/
inductive InstallResult
  | error (msg : Text)
  | installed (version slot partition : Text) (bytesWritten : ℕ) (message : Text)

/-- What an installation leaves behind: its result, the block device it opened for
writing, the bytes that reached that device from its start on, and the storage. -/
structure Installation where
  result : InstallResult
  opened : Option Text
  written : Bytes
  storage : Storage

/-! ### Verification (steps 1 to 5) -/

/-- `sha256_hex`. -/
def sha256Hex (crypto : Crypto) (data : Bytes) : Text := (crypto.sha256 data).flatMap Text.hexByte

/-- The bytes of the dash in the updater's messages. -/
def emDash : Text := [Char.ofNat 0xE2, Char.ofNat 0x80, Char.ofNat 0x94]

/-- `MAX_PAYLOAD`, 1 GiB. -/
def maxPayload : ℕ := 1024 * 1024 * 1024

/-- The payload, read from the file in one go. -/
def readPayload (info : UpdateFileInfo) (content : Bytes) : PayloadRead → Except Text Bytes
  | .notOpened => .error "cannot open .update file to read payload"
  | .notSought => .error "cannot seek to payload"
  | .outOfMemory => .error "out of memory buffering payload"
  | .read n => do
      let payload := ((content.drop info.payloadOffset).take info.payloadSize).take n
      Check.require (payload.length = info.payloadSize) "short read on payload"
      .ok payload

/-- Steps 1 to 5: the manifest and the payload of a file that passes every check. -/
def verifyUpdate (crypto : Crypto) (build : Build) (payloadRead : PayloadRead) (path : Text)
    (file : Option Bytes) : Except Text (UpdateManifest × Bytes) := do
  let info ← parseUpdateFile path file
  let manifest := info.manifest
  Check.require (0 < versionCompare manifest.version build.version)
    ("update version " ++ manifest.version ++ " is not newer than current " ++ build.version)
  Check.require (manifest.minVersion = [] ∨
      0 ≤ versionCompare build.version manifest.minVersion)
    ("current version " ++ build.version ++ " is below minimum required " ++
      manifest.minVersion)
  Check.require (∃ b ∈ build.publicKey, b ≠ 0)
    ("update public key is not configured (placeholder) " ++ emDash ++
      " refusing to install unauthenticated update")
  Check.require (crypto.verify info.signature info.manifestJson build.publicKey = true)
    ("signature verification failed " ++ emDash ++ " update is not authentic")
  Check.require (info.payloadSize ≠ 0) "update has no payload"
  Check.require (info.payloadSize ≤ maxPayload)
    ("payload too large: " ++ Text.ofNat info.payloadSize ++ " bytes")
  let payload ← readPayload info (file.getD []) payloadRead
  Check.require (sha256Hex crypto payload = manifest.system.sha256)
    ("payload SHA-256 mismatch: expected " ++ manifest.system.sha256 ++ " got " ++
      sha256Hex crypto payload)
  .ok (manifest, payload)

/-! ### Writing (step 6) -/

/-- `BUF_SIZE`, 4 MiB. -/
def chunkSize : ℕ := 4 * 1024 * 1024

/-- What a write loop did: the bytes that the device took, how many of them were in
chunks it took whole, and whether it took all chunks. -/
structure WriteRun where
  bytes : Bytes
  counted : ℕ
  ok : Bool

/-- The write loop, with the number of bytes behind it and the bytes that remain. The
fuel bounds the iterations. -/
def writeLoop (writes : ℕ → Option ℕ) : (fuel offset : ℕ) → (rest : Bytes) → WriteRun
  | 0, offset, rest => ⟨[], offset, rest = []⟩
  | fuel + 1, offset, rest =>
      if rest = [] then ⟨[], offset, true⟩
      else
        let chunk := rest.take chunkSize
        match writes offset with
        | none => ⟨[], offset, false⟩
        | some n =>
            if chunk.length ≤ n then
              let run := writeLoop writes fuel (offset + chunk.length) (rest.drop chunkSize)
              { run with bytes := chunk ++ run.bytes }
            else ⟨chunk.take n, offset, false⟩

/-- A block device after bytes have been written at its start. -/
def overwrite (old new : Bytes) : Bytes := new ++ old.drop new.length

/-! ### Bookkeeping (steps 7 and 8) -/

/-- `find_grubenv_path`'s candidates. -/
def grubenvPaths : List Text :=
  ["/boot/efi/EFI/BOOT/grubenv", "/boot/efi/grub/grubenv", "/boot/efi/boot/grub/grubenv",
   "/boot/grub/grubenv", "/mnt/esp/EFI/BOOT/grubenv", "/mnt/esp/grub/grubenv",
   "/mnt/esp/boot/grub/grubenv"]

/-- `find_grubenv_path`. -/
def findGrubenvPath (present : Text → Bool) : Option Text := grubenvPaths.find? present

namespace Storage

/-- Replace the content of a file. -/
def setFile (st : Storage) (path : Text) (content : Option Text) : Storage :=
  { st with files := Function.update st.files path content }

/-- Write bytes at the start of a block device. -/
def writeBlock (st : Storage) (device : Text) (bytes : Bytes) : Storage :=
  { st with blocks := Function.update st.blocks device (overwrite (st.blocks device) bytes) }

@[simp] theorem setFile_blocks (st : Storage) (path : Text) (content : Option Text) :
    (st.setFile path content).blocks = st.blocks := rfl

@[simp] theorem writeBlock_files (st : Storage) (device : Text) (bytes : Bytes) :
    (st.writeBlock device bytes).files = st.files := rfl

@[simp] theorem writeBlock_nil (st : Storage) (device : Text) : st.writeBlock device [] = st := by
  simp [writeBlock, overwrite]

end Storage

/-- Step 7: arm the new slot in grubenv, if there is a grubenv. -/
def updateGrubenv (env : InstallEnv) (target : Slot) (st : Storage) : Storage :=
  match findGrubenvPath env.present with
  | none => st
  | some path =>
      let vars := Grubenv.armSlot ((st.files path).elim ∅ Grubenv.parse) target
      st.setFile path (env.grubenvSave.checked (Grubenv.serialize vars) (st.files path)).2

/-- The metadata of a freshly written slot. -/
def slotMetadata (manifest : UpdateManifest) : Json :=
  Json.object [("version", .str manifest.version), ("build_date", .str manifest.buildDate),
    ("installed_at", .str [])]

/-- Step 8: save the slot's metadata. -/
def saveMetadata (env : InstallEnv) (manifest : UpdateManifest) (target : Slot)
    (st : Storage) : Storage :=
  if env.metaOpens then
    st.setFile ("/data/llamaste/slots/" ++ target.toText ++ ".json")
      (some ((Json.dumpAt (Json.Layout.indented 2) 0 (slotMetadata manifest)).take
        env.metaWritten))
  else st

@[simp] theorem updateGrubenv_blocks {env : InstallEnv} {target : Slot} {st : Storage} :
    (updateGrubenv env target st).blocks = st.blocks := by
  rw [updateGrubenv]
  split <;> rfl

@[simp] theorem saveMetadata_blocks {env : InstallEnv} {manifest : UpdateManifest}
    {target : Slot} {st : Storage} : (saveMetadata env manifest target st).blocks = st.blocks := by
  rw [saveMetadata]
  split <;> rfl

/-! ### The whole installation -/

/-- `install_update`. -/
def installUpdate (crypto : Crypto) (build : Build) (env : InstallEnv) (path : Text)
    (file : Option Bytes) (st : Storage) : Installation :=
  match verifyUpdate crypto build env.payloadRead path file with
  | .error msg => ⟨.error msg, none, [], st⟩
  | .ok (manifest, payload) =>
      let active := detectCurrentSlot env.cmdline
      let partNum := active.inactivePartitionNum
      let target := active.inactiveSlot
      match targetPartition env.mounts env.present partNum with
      | none =>
          ⟨.error ("cannot find block device for partition " ++ Text.ofNat partNum), none, [], st⟩
      | some blockDev =>
          if env.opens blockDev then
            let run := writeLoop env.writes payload.length 0 payload
            let st := st.writeBlock blockDev run.bytes
            if run.ok then
              ⟨.installed manifest.version target.toText blockDev run.counted
                ("Update installed to slot " ++ target.toText ++
                  ". Reboot to activate (version " ++ manifest.version ++ ")."),
                some blockDev, run.bytes,
                saveMetadata env manifest target (updateGrubenv env target st)⟩
            else
              ⟨.error ("write failed after " ++ Text.ofNat run.counted ++ " bytes"),
                some blockDev, run.bytes, st⟩
          else ⟨.error ("cannot open " ++ blockDev ++ " for writing"), none, [], st⟩

/-! ### Verified bytes -/

/-- What the updater knows about a file before it writes any byte of its payload. -/
structure Authentic (crypto : Crypto) (build : Build) (content : Bytes)
    (manifest : UpdateManifest) : Prop where
  complete : payloadStart content ≤ content.length
  keyConfigured : ∃ b ∈ build.publicKey, b ≠ 0
  signed : crypto.verify (signatureBytes content) (manifestBytes content) build.publicKey = true
  parsed : parseManifest (Text.ofBytes (manifestBytes content)) = some manifest
  sha256 : sha256Hex crypto (content.drop (payloadStart content)) = manifest.system.sha256
  newer : 0 < versionCompare manifest.version build.version
  supported : manifest.minVersion = [] ∨ 0 ≤ versionCompare build.version manifest.minVersion

/-- A payload that is read without an error is everything behind the signature. -/
theorem readPayload_eq_ok {info : UpdateFileInfo} {content payload : Bytes} {r : PayloadRead}
    (hinfo : info.Describes content) (h : readPayload info content r = .ok payload) :
    payload = content.drop (payloadStart content) := by
  cases r with
  | notOpened => exact nomatch h
  | notSought => exact nomatch h
  | outOfMemory => exact nomatch h
  | read n =>
      simp only [readPayload, Check.require_bind_eq_ok, hinfo.offset, hinfo.payload] at h
      obtain ⟨hlen, hpayload⟩ := h
      obtain rfl := Except.ok.inj hpayload
      rw [List.take_take, List.length_take, List.length_drop] at hlen
      rw [List.take_take, List.take_of_length_le]
      rw [List.length_drop]
      omega

/-- The verification steps establish all that is known about the payload. -/
theorem verifyUpdate_spec {crypto : Crypto} {build : Build} {r : PayloadRead} {path : Text}
    {file : Option Bytes} {manifest : UpdateManifest} {payload : Bytes}
    (h : verifyUpdate crypto build r path file = .ok (manifest, payload)) :
    ∃ content, file = some content ∧ Authentic crypto build content manifest ∧
      payload = content.drop (payloadStart content) := by
  obtain ⟨info, hparse, h⟩ := Check.bind_eq_ok.mp h
  obtain ⟨content, rfl, hinfo⟩ := parseUpdateFile_spec hparse
  simp only [Check.require_bind_eq_ok] at h
  obtain ⟨hnewer, hmin, hkey, hsig, -, -, h⟩ := h
  obtain ⟨payload', hread, h⟩ := Check.bind_eq_ok.mp h
  obtain ⟨hsha, hret⟩ := Check.require_bind_eq_ok.mp h
  obtain ⟨rfl, rfl⟩ := Prod.mk.inj (Except.ok.inj hret)
  have hpayload := readPayload_eq_ok hinfo hread
  refine ⟨content, rfl, ⟨hinfo.complete, hkey, ?_, hinfo.manifest, ?_, hnewer, hmin⟩, hpayload⟩
  · rw [← hinfo.signature, ← hinfo.manifestJson]
    exact hsig
  · rw [← hpayload]
    exact hsha

/-- The bytes that the device takes are a prefix of those the loop was given. -/
theorem writeLoop_bytes_prefix (writes : ℕ → Option ℕ) (fuel offset : ℕ) (rest : Bytes) :
    (writeLoop writes fuel offset rest).bytes <+: rest := by
  induction fuel generalizing offset rest with
  | zero => exact List.nil_prefix
  | succ fuel ih =>
      rw [writeLoop]
      split_ifs
      · exact List.nil_prefix
      · cases writes offset with
        | none => exact List.nil_prefix
        | some n =>
            dsimp only
            split_ifs
            · have hrest := ih (offset + (rest.take chunkSize).length) (rest.drop chunkSize)
              calc rest.take chunkSize ++ _
                  <+: rest.take chunkSize ++ rest.drop chunkSize :=
                    (List.prefix_append_right_inj _).mpr hrest
                _ = rest := List.take_append_drop _ _
            · exact (List.take_prefix _ _).trans (List.take_prefix _ _)

/-- A loop that ends well has written everything, and counted it. The length of the bytes
is fuel enough. -/
theorem writeLoop_of_ok {writes : ℕ → Option ℕ} {fuel offset : ℕ} {rest : Bytes}
    (hfuel : rest.length ≤ fuel) (h : (writeLoop writes fuel offset rest).ok = true) :
    (writeLoop writes fuel offset rest).bytes = rest ∧
      (writeLoop writes fuel offset rest).counted = offset + rest.length := by
  induction fuel generalizing offset rest with
  | zero =>
      obtain rfl := List.eq_nil_of_length_eq_zero (Nat.le_zero.mp hfuel)
      exact ⟨rfl, rfl⟩
  | succ fuel ih =>
      rw [writeLoop] at h ⊢
      split_ifs at h ⊢ with hnil
      · subst hnil
        exact ⟨rfl, rfl⟩
      · cases hw : writes offset with
        | none => simp [hw] at h
        | some n =>
            simp only [hw] at h ⊢
            split_ifs at h ⊢ with hn
            have hpos : 0 < rest.length := List.length_pos_iff.mpr hnil
            have hchunk : 0 < chunkSize := by decide
            have hlength : (rest.drop chunkSize).length ≤ fuel := by
              rw [List.length_drop]
              omega
            obtain ⟨hbytes, hcounted⟩ := ih hlength h
            constructor
            · rw [hbytes, List.take_append_drop]
            · rw [hcounted, List.length_take, List.length_drop]
              omega

/-- How an installation can end: without a write, in the middle of one, or after one. -/
theorem installUpdate_cases (crypto : Crypto) (build : Build) (env : InstallEnv)
    (path : Text) (file : Option Bytes) (st : Storage) :
    (∃ msg, installUpdate crypto build env path file st = ⟨.error msg, none, [], st⟩) ∨
    ∃ manifest payload device,
      verifyUpdate crypto build env.payloadRead path file = .ok (manifest, payload) ∧
      targetPartition env.mounts env.present
        (detectCurrentSlot env.cmdline).inactivePartitionNum = some device ∧
      let run := writeLoop env.writes payload.length 0 payload
      let i := installUpdate crypto build env path file st
      i.opened = some device ∧ i.written = run.bytes ∧
        i.storage.blocks = (st.writeBlock device run.bytes).blocks ∧
        ((∃ msg, i.result = .error msg) → i.storage = st.writeBlock device run.bytes) ∧
        (∀ v s p n msg, i.result = .installed v s p n msg → run.ok = true ∧ n = run.counted) := by
  rw [installUpdate]
  cases hverify : verifyUpdate crypto build env.payloadRead path file with
  | error msg => exact Or.inl ⟨msg, rfl⟩
  | ok checked =>
      obtain ⟨manifest, payload⟩ := checked
      dsimp only
      cases hdev : targetPartition env.mounts env.present
          (detectCurrentSlot env.cmdline).inactivePartitionNum with
      | none => exact Or.inl ⟨_, rfl⟩
      | some device =>
          dsimp only
          split_ifs with hopens hok
          · refine Or.inr ⟨manifest, payload, device, rfl, rfl, rfl, rfl, ?_, ?_, ?_⟩
            · exact saveMetadata_blocks.trans updateGrubenv_blocks
            · rintro ⟨msg, ⟨⟩⟩
            · rintro v s p n msg ⟨⟩
              exact ⟨hok, rfl⟩
          · refine Or.inr ⟨manifest, payload, device, rfl, rfl, rfl, rfl, rfl, fun _ => rfl, ?_⟩
            rintro v s p n msg ⟨⟩
          · exact Or.inl ⟨_, rfl⟩

/-- The device that is opened is the target partition. -/
theorem targetPartition_of_opened {crypto : Crypto} {build : Build} {env : InstallEnv}
    {path : Text} {file : Option Bytes} {st : Storage} {device : Text}
    (h : (installUpdate crypto build env path file st).opened = some device) :
    targetPartition env.mounts env.present
      (detectCurrentSlot env.cmdline).inactivePartitionNum = some device := by
  rcases installUpdate_cases crypto build env path file st with
    ⟨msg, hi⟩ | ⟨manifest, payload, target, -, htarget, hopened, -⟩
  · rw [hi] at h
    exact nomatch h
  · rw [hopened] at h
    rw [htarget, Option.some.inj h]

/-- A verified payload is written to the target as far as the device takes it. -/
theorem installUpdate_of_verified {crypto : Crypto} {build : Build} {e : InstallEnv}
    {path : Text} {file : Option Bytes} {s : Storage} {manifest : UpdateManifest}
    {payload : Bytes} {d : Text}
    (hverify : verifyUpdate crypto build e.payloadRead path file = .ok (manifest, payload))
    (htarget : targetPartition e.mounts e.present
      (detectCurrentSlot e.cmdline).inactivePartitionNum = some d)
    (hopens : e.opens d = true) :
    (installUpdate crypto build e path file s).opened = some d ∧
      (installUpdate crypto build e path file s).written =
        (writeLoop e.writes payload.length 0 payload).bytes := by
  simp only [installUpdate, hverify, htarget, hopens, if_true]
  split_ifs
  · exact ⟨rfl, rfl⟩
  · exact ⟨rfl, rfl⟩

/-- **Only authenticated bytes reach the disk.** Bytes are written only after every check
of the key, the signature, the hash and the versions has passed; they are a prefix of the
payload that was checked, and one block device takes them. A return with an error leaves
every other file, grubenv among them, as it was, and if no byte was written then the
block devices too. -/
theorem installUpdate_authenticated (crypto : Crypto) (build : Build) (env : InstallEnv)
    (path : Text) (file : Option Bytes) (st : Storage) :
    let i := installUpdate crypto build env path file st
    (i.written ≠ [] → ∃ content manifest, file = some content ∧
      Authentic crypto build content manifest ∧
      i.written <+: content.drop (payloadStart content)) ∧
    (∃ device, i.storage.blocks = (st.writeBlock device i.written).blocks) ∧
    (∀ msg, i.result = .error msg → i.storage.files = st.files ∧
      (i.written = [] → i.storage = st)) := by
  intro i
  rcases installUpdate_cases crypto build env path file st with
    ⟨msg, hi⟩ | ⟨manifest, payload, device, hverify, -, -, hwritten, hblocks, herror, -⟩
  · rw [show i = _ from hi]
    exact ⟨fun h => absurd rfl h, ⟨[], by simp⟩, fun _ _ => ⟨rfl, fun _ => rfl⟩⟩
  · obtain ⟨content, hfile, hauth, rfl⟩ := verifyUpdate_spec hverify
    rw [← hwritten] at hblocks herror
    refine ⟨fun _ => ⟨content, manifest, hfile, hauth, ?_⟩, ⟨device, hblocks⟩, ?_⟩
    · rw [show i.written = _ from hwritten]
      exact writeLoop_bytes_prefix _ _ _ _
    · intro msg hmsg
      have hstorage : i.storage = st.writeBlock device i.written := herror ⟨msg, hmsg⟩
      refine ⟨by rw [hstorage]; rfl, fun hnil => ?_⟩
      rw [hstorage, hnil, Storage.writeBlock_nil]

/-- A public key. -/
def sampleKey : Bytes :=
  [0xd7, 0x5a, 0x98, 0x01, 0x82, 0xb1, 0x0a, 0xb7, 0xd5, 0x4b, 0xfe, 0xd3, 0xc9, 0x64, 0x07, 0x3a,
   0x0e, 0xe1, 0x72, 0xf3, 0xda, 0xa6, 0x23, 0x25, 0xaf, 0x02, 0x1a, 0x68, 0xf7, 0x07, 0x51, 0x1a]

/-- The signature of `sampleManifest` under `sampleKey`. -/
def sampleSignature : Bytes :=
  [0xbf, 0x99, 0x2d, 0xe1, 0x36, 0x37, 0x60, 0x35, 0x9c, 0x05, 0x75, 0x43, 0x13, 0x64, 0x5c, 0xec,
   0xc4, 0xb2, 0xb8, 0x96, 0x90, 0xd0, 0xbb, 0x7c, 0x86, 0xd3, 0x2b, 0x15, 0xff, 0xe1, 0x39, 0x6b,
   0x2d, 0xbd, 0x6f, 0x40, 0x7b, 0x0a, 0x83, 0x3b, 0xb2, 0x80, 0xb3, 0x0e, 0x30, 0x83, 0xda, 0x8d,
   0x26, 0xe2, 0x2a, 0xb8, 0xf5, 0x10, 0xcc, 0x7a, 0xa2, 0x3e, 0x1d, 0x3e, 0xb5, 0xce, 0xa9, 0x07]

/-- The SHA-256 digest of `samplePayload`. -/
def sampleDigest : Bytes :=
  [0x53, 0xbf, 0xf6, 0x66, 0x49, 0x74, 0x96, 0x0b, 0x06, 0xbc, 0xb2, 0x60, 0xbd, 0x4b, 0x83, 0x49,
   0x4c, 0x04, 0xc7, 0x1a, 0x62, 0x62, 0x3b, 0xca, 0xdd, 0x79, 0x86, 0xc4, 0xd4, 0xad, 0xf3, 0xa1]

/-- A manifest that vouches for `samplePayload`. -/
def sampleManifest : Bytes :=
  ("\x7b\"format_version\":1,\"version\":\"1.0.0\",\"components\":\x7b\"system\":\x7b\"sha256\":" ++
    "\"53bff6664974960b06bcb260bd4b83494c04c71a62623bcadd7986c4d4adf3a1\"\x7d\x7d\x7d").toList.map
    fun c => UInt8.ofNat c.toNat

/-- A short payload. -/
def samplePayload : Bytes := [0x68, 0x73, 0x71, 0x73]

/-- The update file of these parts. -/
def sampleFile : Bytes :=
  updateMagic ++ [1, 0, 0, 0, 140, 0, 0, 0] ++ sampleManifest ++ sampleSignature ++ samplePayload

/-- The values of Ed25519 and SHA-256 at the sample. -/
def sampleCrypto : Crypto where
  verify signature message publicKey :=
    signature = sampleSignature && message = sampleManifest && publicKey = sampleKey
  sha256 data := if data = samplePayload then sampleDigest else []

/-- A system whose calls all succeed. -/
def sampleEnv : InstallEnv where
  payloadRead := .read 4
  cmdline := some "llamaste.slot=A"
  mounts := some "/dev/sda3 / squashfs ro 0 0\n"
  present _ := true
  opens _ := true
  writes _ := some chunkSize
  grubenvSave := ⟨true, none, true⟩
  metaOpens := true
  metaWritten := 1024

/-- The updater that runs at the sample. -/
def sampleBuild : Build where
  version := "0.5.17-beta"
  publicKey := sampleKey

/-- The sample passes every check. -/
theorem verifyUpdate_sample :
    ∃ manifest, verifyUpdate sampleCrypto sampleBuild (.read 4) "/data/a.update"
      (some sampleFile) = .ok (manifest, samplePayload) := by
  have hpayload : (verifyUpdate sampleCrypto sampleBuild (.read 4) "/data/a.update"
      (some sampleFile)).toOption.map Prod.snd = some samplePayload := by
    decide +kernel
  generalize verifyUpdate sampleCrypto sampleBuild (.read 4) "/data/a.update"
    (some sampleFile) = result at hpayload ⊢
  cases result with
  | error msg => exact nomatch hpayload
  | ok checked => exact ⟨checked.1, congrArg _ (Prod.ext rfl (Option.some.inj hpayload))⟩

theorem installUpdate_authenticated_sample :
    let i := installUpdate sampleCrypto sampleBuild sampleEnv "/data/a.update"
      (some sampleFile) ⟨fun _ => [], fun _ => none⟩
    i.written = samplePayload ∧ ∃ content manifest, some sampleFile = some content ∧
      Authentic sampleCrypto sampleBuild content manifest ∧
      i.written <+: content.drop (payloadStart content) := by
  intro i
  obtain ⟨manifest, hverify⟩ := verifyUpdate_sample
  have hwritten : i.written = samplePayload :=
    (installUpdate_of_verified (e := sampleEnv) (d := "/dev/sda4") hverify (by decide)
      rfl).2.trans (by decide)
  have hne : i.written ≠ [] := by
    rw [hwritten]
    decide
  exact ⟨hwritten, (installUpdate_authenticated _ _ _ _ _ _).1 hne⟩

/-- A successful installation has written the whole payload, and says how long it is. -/
theorem installUpdate_complete {crypto : Crypto} {build : Build} {env : InstallEnv}
    {path : Text} {file : Option Bytes} {st : Storage} {version slot partition msg : Text} {n : ℕ}
    (h : (installUpdate crypto build env path file st).result =
      .installed version slot partition n msg) :
    ∃ content, file = some content ∧
      (installUpdate crypto build env path file st).written =
        content.drop (payloadStart content) ∧
      n = (installUpdate crypto build env path file st).written.length := by
  rcases installUpdate_cases crypto build env path file st with
    ⟨msg', hi⟩ | ⟨manifest, payload, device, hverify, -, -, hwritten, -, -, hdone⟩
  · rw [hi] at h
    exact nomatch h
  · obtain ⟨content, hfile, -, rfl⟩ := verifyUpdate_spec hverify
    obtain ⟨hok, hn⟩ := hdone _ _ _ _ _ h
    obtain ⟨hbytes, hcounted⟩ := writeLoop_of_ok le_rfl hok
    refine ⟨content, hfile, hwritten.trans hbytes, ?_⟩
    rw [hn, hcounted, hwritten, hbytes, Nat.zero_add]

end Llamaste
