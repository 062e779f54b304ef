import Llamaste.Lib.Check
import Llamaste.Lib.Json
import Llamaste.Lib.JsonText

/-!
# Update files

The header of a `.update` file, the manifest it carries, and the comparison of version
numbers. The file is a fixed header, a JSON manifest, an Ed25519 signature of the
manifest, and the payload. Source: `updater.cpp`, version comparison, update manifest,
`.update` file parsing.

## Main results

* `parseUpdateFile_spec`: what a file whose header is accepted consists of.
-/

namespace Llamaste

/-! ### Version comparison -/

/-- One `%d` of `sscanf`: white space, a sign, digits. The number is stored in 32 bits;
one past 64 bits is stored as all ones. -/
def scanDecimal (s : Text) : Option (ℤ × Text) :=
  let (neg, r) := Json.scanSign (s.dropWhile Text.isSpace)
  let digits := r.takeWhile Char.isDigit
  if digits = [] then none
  else
    let n := Json.signed false digits
    let stored := if n < 2 ^ 64 then Json.signed neg digits else 2 ^ 64 - 1
    some (CInt.toInt32 stored, r.dropWhile Char.isDigit)

/-- `sscanf(.., "%d.%d.%d", ..)` into three zeros. -/
def scanVersion (s : Text) : ℤ × ℤ × ℤ :=
  match scanDecimal (Text.cStr s) with
  | some (major, '.' :: r) =>
      match scanDecimal r with
      | some (minor, '.' :: r) => (major, minor, (scanDecimal r).elim 0 Prod.fst)
      | some (minor, _) => (major, minor, 0)
      | none => (major, 0, 0)
  | some (major, _) => (major, 0, 0)
  | none => (0, 0, 0)

/-- `version_compare`: the sign of the result orders the versions. The differences are
32-bit, so far-apart numbers wrap around. -/
def versionCompare (a b : Text) : ℤ :=
  let (aMajor, aMinor, aPatch) := scanVersion a
  let (bMajor, bMinor, bPatch) := scanVersion b
  if aMajor ≠ bMajor then CInt.toInt32 (aMajor - bMajor)
  else if aMinor ≠ bMinor then CInt.toInt32 (aMinor - bMinor)
  else CInt.toInt32 (aPatch - bPatch)

/-! ### Update manifest -/

/-- `UpdateComponent`. -/
structure UpdateComponent where
  file : Text := []
  sha256 : Text := []
  sizeCompressed : ℤ := 0
  sizeUncompressed : ℤ := 0

/-- `UpdateManifest`; `parseManifest` answers `none` where the source clears `valid`. -/
structure UpdateManifest where
  formatVersion : ℤ
  version : Text
  buildDate : Text
  arch : Text
  minVersion : Text
  system : UpdateComponent
  changelog : List Text

/-- The `components.system` part of a manifest, the defaults when it has none. -/
def parseSystem (j : Json) : Option UpdateComponent :=
  match (j.find "components").bind (Json.find "system") with
  | none => some {}
  | some sys => do
      let file ← sys.value Json.getString "file" []
      let sha256 ← sys.value Json.getString "sha256" []
      let sizeCompressed ← sys.value Json.getUInt64 "size_compressed" 0
      let sizeUncompressed ← sys.value Json.getUInt64 "size_uncompressed" 0
      some { file, sha256, sizeCompressed, sizeUncompressed }

/-- The string entries of the `changelog` array. -/
def parseChangelog (j : Json) : List Text :=
  match j.find "changelog" with
  | some (.arr entries) => entries.filterMap Json.getString
  | _ => []

/-- `parse_manifest`: a manifest needs a version and a positive format version, and every
member it has must be of the right type. -/
def parseManifest (text : Text) : Option UpdateManifest := do
  let j ← Json.parse text
  let formatVersion ← j.value Json.getInt32 "format_version" 0
  let version ← j.value Json.getString "version" []
  let buildDate ← j.value Json.getString "build_date" []
  let arch ← j.value Json.getString "arch" []
  let minVersion ← j.value Json.getString "min_version" []
  let system ← parseSystem j
  if version ≠ [] ∧ 0 < formatVersion then
    some { formatVersion, version, buildDate, arch, minVersion, system,
           changelog := parseChangelog j }
  else none

/-! ### The file -/

/-- `read_u32_le`: the first four bytes as a little-endian number. -/
def readU32Le (bs : Bytes) : ℕ :=
  ((bs.take 4).map UInt8.toNat).foldr (fun b n => b + 256 * n) 0

/-- `UPDATE_MAGIC`. -/
def updateMagic : Bytes := [0x4C, 0x4D, 0x55, 0x50]

/-- The length of the fixed header. -/
def headerSize : ℕ := 12

/-- The length of an Ed25519 signature. -/
def signatureSize : ℕ := 64

/-- The longest manifest that is read. -/
def maxManifestSize : ℕ := 1024 * 1024

/-- The manifest length that the header of a file announces. -/
def manifestSize (content : Bytes) : ℕ := readU32Le (content.drop 8)

/-- The manifest of a file: the announced number of bytes after the header. -/
def manifestBytes (content : Bytes) : Bytes :=
  (content.drop headerSize).take (manifestSize content)

/-- The signature of a file: the 64 bytes after the manifest. -/
def signatureBytes (content : Bytes) : Bytes :=
  (content.drop (headerSize + manifestSize content)).take signatureSize

/-- Where the payload of a file starts. -/
def payloadStart (content : Bytes) : ℕ := headerSize + manifestSize content + signatureSize

/-- `UpdateFileInfo`, for a file that is accepted. -/
structure UpdateFileInfo where
  manifest : UpdateManifest
  manifestJson : Bytes
  signature : Bytes
  payloadOffset : ℕ
  payloadSize : ℕ

/-- `parse_update_file`: the file at `path` has the given content, `none` when it cannot
be opened. -/
def parseUpdateFile (path : Text) (file : Option Bytes) : Except Text UpdateFileInfo := do
  let content ← Check.demand file (("cannot open file: " : Text) ++ path)
  Check.require (headerSize ≤ content.length) "file too small for header"
  Check.require (content.take 4 = updateMagic) "invalid magic (not a .update file)"
  let formatVersion := readU32Le (content.drop 4)
  Check.require (formatVersion = 1)
    (("unsupported format version: " : Text) ++ Text.ofNat formatVersion)
  let size := manifestSize content
  Check.require (size ≤ maxManifestSize) (("manifest too large: " : Text) ++ Text.ofNat size)
  Check.require (headerSize + size ≤ content.length) "truncated manifest"
  Check.require (headerSize + size + signatureSize ≤ content.length) "truncated signature"
  let manifest ← Check.demand (parseManifest (Text.ofBytes (manifestBytes content)))
    "invalid manifest JSON"
  .ok { manifest
        manifestJson := manifestBytes content
        signature := signatureBytes content
        payloadOffset := payloadStart content
        payloadSize := content.length - payloadStart content }

/-- What a file whose header is accepted consists of. -/
structure UpdateFileInfo.Describes (info : UpdateFileInfo) (content : Bytes) : Prop where
  magic : content.take 4 = updateMagic
  formatVersion : readU32Le (content.drop 4) = 1
  size_le : manifestSize content ≤ maxManifestSize
  complete : payloadStart content ≤ content.length
  manifest : parseManifest (Text.ofBytes (manifestBytes content)) = some info.manifest
  manifestJson : info.manifestJson = manifestBytes content
  signature : info.signature = signatureBytes content
  offset : info.payloadOffset = payloadStart content
  payload : info.payloadSize = content.length - payloadStart content

/-- An accepted header describes the file it was read from. -/
theorem parseUpdateFile_spec {path : Text} {file : Option Bytes} {info : UpdateFileInfo}
    (h : parseUpdateFile path file = .ok info) :
    ∃ content, file = some content ∧ info.Describes content := by
  simp only [parseUpdateFile, Check.demand_bind_eq_ok, Check.require_bind_eq_ok] at h
  obtain ⟨content, hfile, -, hmagic, hversion, hsize, -, hcomplete, manifest, hmanifest, hinfo⟩ := h
  obtain rfl := Except.ok.inj hinfo
  exact ⟨content, hfile, hmagic, hversion, hsize, hcomplete, hmanifest, rfl, rfl, rfl, rfl⟩

/-- The signature of an accepted file is 64 bytes long, and its manifest as long as the
header says. -/
theorem UpdateFileInfo.Describes.lengths {info : UpdateFileInfo} {content : Bytes}
    (h : info.Describes content) :
    info.signature.length = signatureSize ∧ info.manifestJson.length = manifestSize content := by
  have hcomplete := h.complete
  rw [h.signature, h.manifestJson]
  simp only [payloadStart, headerSize, signatureSize] at hcomplete
  simp only [signatureBytes, manifestBytes, List.length_take, List.length_drop, headerSize,
    signatureSize]
  omega

end Llamaste
