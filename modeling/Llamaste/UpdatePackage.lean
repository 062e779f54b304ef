import Llamaste.InstallUpdate
import Llamaste.Lib.JsonTree
import Llamaste.Lib.Wire
import Llamaste.TweetSign

/-!
# Update packages

The script that builds an update writes a manifest with the hash of the payload, has the
signing tool sign it, and joins both with the payload to one file. The updater on the device
takes the file apart again and checks every part with the vendored cryptography.

Source: `build-update.sh`, `sign-helper.c`, and `updater.cpp`, `verify_update_signature` and
`sha256_hex`.

## Main results

* `parseManifest_manifestText`: the updater reads the script's manifest.
* `verifyUpdate_buildUpdate`: which packages of the script are installed, and that what is
  installed is the payload.
-/

namespace Llamaste

open Json LittleEndian TweetNacl

/-! ### The script -/

/-- The here-document of `build-update.sh`, without its last line break. -/
def manifestText (version buildDate payloadSha256 : Text) (payloadSize : ℕ) : Text :=
  "\x7b\n  \"format_version\": 1,\n  \"version\": \"".toList ++ (version ++
    ("\",\n  \"build_date\": \"".toList ++ (buildDate ++
    ("\",\n  \"arch\": \"x86-64\",\n  \"min_version\": \"1.0.0\",\n  \"components\": \x7b\n".toList ++
    ("    \"system\": \x7b\n      \"file\": \"system.squashfs\",\n      \"sha256\": \"".toList ++
    (payloadSha256 ++ ("\",\n      \"size_compressed\": ".toList ++ (Text.ofNat payloadSize ++
    (",\n      \"size_uncompressed\": ".toList ++ (Text.ofNat payloadSize ++
    "\n    \x7d\n  \x7d,\n  \"changelog\": []\n\x7d".toList))))))))))

/-- `sign-helper`, on a host with enough memory: the signature that it prints. -/
def signHelper (secretKey message : Bytes) : Option Bytes :=
  if secretKey.length = 64 then (cryptoSignEd25519SignDetached true message secretKey).join
  else none

/-- What `sha256sum` prints. -/
def sha256sum (data : Bytes) : Text := (Sha2.digest TweetNacl.sha256 data).flatMap Text.hexByte

/-- The parts of the package, as `build-update.sh` writes them one behind the other. -/
def packUpdate (manifest signature squashfs : Bytes) : Bytes :=
  updateMagic ++ [1, 0, 0, 0] ++ bytes 4 manifest.length ++ manifest ++ signature ++ squashfs

/-- `build-update.sh`: the package, unless the script stops. -/
def buildUpdate (version buildDate : Text) (squashfs secretKey : Bytes) : Option Bytes := do
  if version = [] then none
  else
    let manifest := Wire.toBytes
      (manifestText version buildDate (sha256sum squashfs) squashfs.length)
    let signature ← signHelper secretKey manifest
    if signature.length = 64 ∧ manifest.length < 2 ^ 32 then
      some (packUpdate manifest signature squashfs)
    else none

/-! ### The updater's cryptography -/

/-- `verify_update_signature`. -/
def verifyUpdateSignature (malloc : Bool × Bool) (sig msg pubkey : Bytes) : Bool :=
  sig.length = 64 && cryptoSignEd25519VerifyDetached malloc sig msg pubkey == some 0

/-- **What the updater takes for a signature**, of a manifest of any length. -/
theorem verifyUpdateSignature_iff {malloc : Bool × Bool} {sig msg pubkey : Bytes}
    (hkey : pubkey.length = 32) (hlen : msg.length + 64 < 2 ^ 64) :
    verifyUpdateSignature malloc sig msg pubkey = true ↔ sig.length = 64 ∧
      (msg.length ≤ 1984 ∨ (malloc.1 && malloc.2) = true) ∧
      Accepts (sig.take 32) (number (sig.drop 32)) pubkey msg := by
  rw [verifyUpdateSignature, Bool.and_eq_true, decide_eq_true_eq, beq_iff_eq]
  refine and_congr_right fun hsig => ?_
  obtain ⟨r, hr, -, hiff⟩ := @verifyDetached_spec malloc sig msg pubkey hsig hkey hlen
  rw [hr, Option.some.injEq, hiff]

theorem verifyUpdateSignature_iff_four :
    verifyUpdateSignature (true, false) (List.replicate 64 0) [4] (List.replicate 32 0) = true ↔
      (List.replicate 64 (0 : UInt8)).length = 64 ∧ (1 ≤ 1984 ∨ (true && false) = true) ∧
      Accepts (List.replicate 32 0) (number (List.replicate 32 0)) (List.replicate 32 0) [4] :=
  verifyUpdateSignature_iff rfl (by decide)

/-- The vendored functions, with what `malloc` answers during a verification. -/
def tweetCrypto (malloc : Bool × Bool) : Crypto where
  verify := verifyUpdateSignature malloc
  sha256 := cryptoHashSha256Tweet

/-- The hash that the updater computes is the one that the script prints. -/
theorem sha256Hex_tweetCrypto (malloc : Bool × Bool) (data : Bytes) :
    sha256Hex (tweetCrypto malloc) data = sha256sum data := by
  show (cryptoHashSha256Tweet data).flatMap Text.hexByte = _
  rw [cryptoHashSha256Tweet_spec, sha256sum]

/-! ### Plain text in JSON -/

/-- ASCII without quotes, backslashes and control characters. -/
def JsonSafe (s : Text) : Prop := ∀ c ∈ s, Plain c ∧ c.toNat < 0x80

instance (s : Text) : Decidable (JsonSafe s) :=
  List.decidableBAll (fun c : Char => Plain c ∧ c.toNat < 0x80) s

/-- A text without escapes. -/
def plainPieces (s : Text) : List Piece :=
  s.filterMap fun c => if h : Plain c then some (.plain c h) else none

theorem plainPieces_cons {c : Char} (hc : Plain c) (s : Text) :
    plainPieces (c :: s) = .plain c hc :: plainPieces s := by
  rw [plainPieces, List.filterMap_cons_some (dif_pos hc), plainPieces]

theorem encode_of_ascii {c : Char} (hc : c.toNat < 0x80) : Utf8.encode c.toNat = [c] := by
  rw [Utf8.encode, if_pos hc, Char.ofNat_toNat]

theorem piecesText_plainPieces {s : Text} (h : JsonSafe s) : piecesText (plainPieces s) = s := by
  induction s with
  | nil => rfl
  | cons c s ih =>
    obtain ⟨⟨hplain, hascii⟩, hs⟩ := List.forall_mem_cons.mp h
    rw [plainPieces_cons hplain, piecesText, List.flatMap_cons, Piece.text, encode_of_ascii hascii,
      ← piecesText, ih hs]
    rfl

theorem decode_plainPieces {s : Text} (h : JsonSafe s) :
    Json.decode none (plainPieces s) = some s := by
  induction s with
  | nil => rfl
  | cons c s ih =>
    obtain ⟨⟨hplain, hascii⟩, hs⟩ := List.forall_mem_cons.mp h
    rw [plainPieces_cons hplain, Json.decode, ih hs, encode_of_ascii hascii]
    rfl

theorem numeral_toDigits (n : ℕ) : Nat.toDigits 10 n ≠ [] ∧
    (Nat.toDigits 10 n).all Char.isDigit = true ∧
      ((Nat.toDigits 10 n).head? = some '0' → Nat.toDigits 10 n = ['0']) := by
  refine ⟨Nat.toDigits_ne_nil, List.all_eq_true.mpr Text.isDigit_toDigits, fun h => ?_⟩
  rcases Nat.eq_zero_or_pos n with rfl | hn
  · rfl
  · exact absurd h (head?_toDigits_ne_zero hn)

/-- A natural number in JSON. -/
def plainNumber (n : ℕ) : Number := ⟨false, ⟨Nat.toDigits 10 n, numeral_toDigits n⟩, none, none⟩

theorem plainNumber_text (n : ℕ) : (plainNumber n).text = Text.ofNat n :=
  List.append_nil _

theorem plainNumber_json {n : ℕ} (hn : n < 2 ^ 64) : (plainNumber n).json = some (.int n) := by
  have hsigned : signed false (Nat.toDigits 10 n) = n := by
    have h := signed_toDigits n
    rwa [decide_eq_false (by omega), Int.natAbs_natCast] at h
  show mkNumber false (Nat.toDigits 10 n) [] none = _
  rw [mkNumber, hsigned, if_pos ⟨by omega, by omega⟩]

/-- A text that is an object. -/
theorem parse_objectText (o : Object) : Json.parse o.text = o.json := by
  have hbom : skipBom o.text = o.text := by
    cases o <;> rfl
  have hreads := Object.reads o o.text.length [] [] rfl le_rfl fun c hc => by cases hc
  simp only [List.nil_append, List.append_nil, Tree.text, Tree.json] at hreads
  rw [Json.parse, hbom, hreads]
  cases o.json with
  | none => rfl
  | some j => exact if_pos (Or.inl rfl)

/-- The members of an object, of which the last with a key counts. -/
theorem find_object (ms : List (Text × Json)) (key : Text) :
    (Json.object ms).find key = ms.reverse.lookup key := by
  rw [Json.object, Json.find]
  induction ms using List.reverseRecOn with
  | nil => rfl
  | append_singleton ms kv ih =>
    rw [List.foldl_append, List.foldl_cons, List.foldl_nil, lookup_insertMember, ih,
      List.reverse_append, List.reverse_singleton, List.singleton_append]
    obtain ⟨k, v⟩ := kv
    by_cases h : key = k
    · rw [if_pos h, h, List.lookup_cons_self]
    · rw [if_neg h, List.lookup_cons, beq_false_of_ne h]

/-! ### The manifest -/

theorem all_isWs_line (depth : ℕ) : ('\n' :: List.replicate (2 * depth) ' ').all isWs = true := by
  rw [List.all_cons, List.all_replicate]
  cases 2 * depth <;> rfl

/-- A line break and the indentation of the next line. -/
def lineBreak (depth : ℕ) : Blank := ⟨'\n' :: List.replicate (2 * depth) ' ', all_isWs_line depth⟩

theorem all_isWs_blank : [' '].all isWs = true := rfl

/-- A member on a line of its own, and those behind it. -/
def lineMember (depth : ℕ) (key : Text) (v : Tree) (rest : Pairs) : Pairs :=
  .cons (lineBreak depth) (plainPieces key) .nil ⟨[' '], all_isWs_blank⟩ v rest

/-- The first member of an object on a line of its own, and those behind it. -/
def lineObject (depth : ℕ) (key : Text) (v : Tree) (rest : Pairs) : Object :=
  .members (lineBreak (depth + 1)) (plainPieces key) .nil ⟨[' '], all_isWs_blank⟩ v rest
    (lineBreak depth)

/-- The manifest as a tree. -/
def manifestObject (version buildDate payloadSha256 : Text) (payloadSize : ℕ) : Object :=
  lineObject 0 "format_version" (.num (plainNumber 1))
    (lineMember 1 "version" (.str (plainPieces version))
    (lineMember 1 "build_date" (.str (plainPieces buildDate))
    (lineMember 1 "arch" (.str (plainPieces "x86-64"))
    (lineMember 1 "min_version" (.str (plainPieces "1.0.0"))
    (lineMember 1 "components"
      (.obj (lineObject 1 "system"
        (.obj (lineObject 2 "file" (.str (plainPieces "system.squashfs"))
          (lineMember 3 "sha256" (.str (plainPieces payloadSha256))
          (lineMember 3 "size_compressed" (.num (plainNumber payloadSize))
          (lineMember 3 "size_uncompressed" (.num (plainNumber payloadSize)) .nil))))) .nil))
    (lineMember 1 "changelog" (.emptyArr .nil) .nil))))))

set_option maxRecDepth 4000 in
theorem manifestObject_text {version buildDate payloadSha256 : Text} {payloadSize : ℕ}
    (hversion : JsonSafe version) (hdate : JsonSafe buildDate) (hsha : JsonSafe payloadSha256) :
    (manifestObject version buildDate payloadSha256 payloadSize).text =
      manifestText version buildDate payloadSha256 payloadSize := by
  have hkey : ∀ {s : Text}, JsonSafe s → piecesText (plainPieces s) = s :=
    fun h => piecesText_plainPieces h
  simp only [manifestObject, lineObject, lineMember, Object.text, Pairs.text, Tree.text,
    plainNumber_text, hkey hversion, hkey hdate, hkey hsha,
    hkey (by decide : JsonSafe "format_version"), hkey (by decide : JsonSafe "version"),
    hkey (by decide : JsonSafe "build_date"), hkey (by decide : JsonSafe "arch"),
    hkey (by decide : JsonSafe "x86-64"), hkey (by decide : JsonSafe "min_version"),
    hkey (by decide : JsonSafe "1.0.0"), hkey (by decide : JsonSafe "components"),
    hkey (by decide : JsonSafe "system"), hkey (by decide : JsonSafe "file"),
    hkey (by decide : JsonSafe "system.squashfs"), hkey (by decide : JsonSafe "sha256"),
    hkey (by decide : JsonSafe "size_compressed"),
    hkey (by decide : JsonSafe "size_uncompressed"), hkey (by decide : JsonSafe "changelog"),
    List.append_assoc, List.cons_append, List.nil_append]
  rfl

theorem manifestObject_json {version buildDate payloadSha256 : Text} {payloadSize : ℕ}
    (hversion : JsonSafe version) (hdate : JsonSafe buildDate) (hsha : JsonSafe payloadSha256)
    (hsize : payloadSize < 2 ^ 64) :
    (manifestObject version buildDate payloadSha256 payloadSize).json =
      some (Json.object [("format_version", .int 1), ("version", .str version),
        ("build_date", .str buildDate), ("arch", .str "x86-64"), ("min_version", .str "1.0.0"),
        ("components", Json.object [("system", Json.object [("file", .str "system.squashfs"),
          ("sha256", .str payloadSha256), ("size_compressed", .int payloadSize),
          ("size_uncompressed", .int payloadSize)])]), ("changelog", .arr [])]) := by
  have hkey : ∀ {s : Text}, JsonSafe s → Json.decode none (plainPieces s) = some s :=
    fun h => decode_plainPieces h
  have hone : (plainNumber 1).json = some (.int 1) := plainNumber_json (by norm_num)
  simp only [manifestObject, lineObject, lineMember, Object.json, Pairs.json, Tree.json, hone,
    hkey hversion, hkey hdate, hkey hsha, plainNumber_json hsize,
    hkey (by decide : JsonSafe "format_version"), hkey (by decide : JsonSafe "version"),
    hkey (by decide : JsonSafe "build_date"), hkey (by decide : JsonSafe "arch"),
    hkey (by decide : JsonSafe "x86-64"), hkey (by decide : JsonSafe "min_version"),
    hkey (by decide : JsonSafe "1.0.0"), hkey (by decide : JsonSafe "components"),
    hkey (by decide : JsonSafe "system"), hkey (by decide : JsonSafe "file"),
    hkey (by decide : JsonSafe "system.squashfs"), hkey (by decide : JsonSafe "sha256"),
    hkey (by decide : JsonSafe "size_compressed"),
    hkey (by decide : JsonSafe "size_uncompressed"), hkey (by decide : JsonSafe "changelog"),
    Option.bind_some, Option.map_some]

/-- The manifest that the updater reads. -/
def builtManifest (version buildDate payloadSha256 : Text) (payloadSize : ℕ) : UpdateManifest where
  formatVersion := 1
  version
  buildDate
  arch := "x86-64"
  minVersion := "1.0.0"
  system := ⟨"system.squashfs", payloadSha256, payloadSize, payloadSize⟩
  changelog := []

/-- **The updater reads the script's manifest.** -/
theorem parseManifest_manifestText {version buildDate payloadSha256 : Text} {payloadSize : ℕ}
    (hne : version ≠ []) (hversion : JsonSafe version) (hdate : JsonSafe buildDate)
    (hsha : JsonSafe payloadSha256) (hsize : payloadSize < 2 ^ 64) :
    parseManifest (manifestText version buildDate payloadSha256 payloadSize) =
      some (builtManifest version buildDate payloadSha256 payloadSize) := by
  have hparse := parse_objectText (manifestObject version buildDate payloadSha256 payloadSize)
  rw [manifestObject_text hversion hdate hsha,
    manifestObject_json hversion hdate hsha hsize] at hparse
  set system := Json.object [("file", .str "system.squashfs"), ("sha256", .str payloadSha256),
    ("size_compressed", .int payloadSize), ("size_uncompressed", .int payloadSize)] with hsystem
  set j := Json.object [("format_version", .int 1), ("version", .str version),
    ("build_date", .str buildDate), ("arch", .str "x86-64"), ("min_version", .str "1.0.0"),
    ("components", Json.object [("system", system)]), ("changelog", .arr [])] with hj
  have hread : ∀ {key : Text} {v : Json}, ([("changelog", Json.arr []),
      ("components", Json.object [("system", system)]), ("min_version", .str "1.0.0"),
      ("arch", .str "x86-64"), ("build_date", .str buildDate), ("version", .str version),
      ("format_version", .int 1)] : List (Text × Json)).lookup key = some v →
      j.find key = some v := fun h => (find_object _ _).trans h
  have hreadSystem : ∀ {key : Text} {v : Json}, ([("size_uncompressed", .int payloadSize),
      ("size_compressed", .int payloadSize), ("sha256", .str payloadSha256),
      ("file", .str "system.squashfs")] : List (Text × Json)).lookup key = some v →
      system.find key = some v := fun h => (find_object _ _).trans h
  have hstring : ∀ {i : Json} {key s : Text}, i.find key = some (.str s) →
      i.value getString key [] = some s := fun h => Json.value_of_find h
  have hsizes : ∀ {key : Text}, system.find key = some (.int payloadSize) →
      system.value getUInt64 key 0 = some (payloadSize : ℤ) := fun h => by
    rw [Json.value_of_find h, getUInt64, CInt.toUInt64]
    exact congrArg some (by omega)
  have hparsed : parseSystem j =
      some ⟨"system.squashfs", payloadSha256, payloadSize, payloadSize⟩ := by
    have hfind : (j.find "components").bind (Json.find "system") = some system := by
      rw [hread rfl, Option.bind_some, find_object]
      rfl
    rw [parseSystem, hfind]
    exact Loop.bind_of (hstring (hreadSystem rfl)) (Loop.bind_of (hstring (hreadSystem rfl))
      (Loop.bind_of (hsizes (hreadSystem rfl)) (Loop.bind_of (hsizes (hreadSystem rfl)) rfl)))
  have hchangelog : parseChangelog j = [] := by
    rw [parseChangelog, hread rfl]
    rfl
  have hformat : j.value getInt32 "format_version" 0 = some 1 := by
    have hfind : j.find "format_version" = some (.int 1) := hread rfl
    rw [Json.value_of_find hfind]
    rfl
  refine Loop.bind_of hparse (Loop.bind_of hformat (Loop.bind_of (hstring (hread rfl))
    (Loop.bind_of (hstring (hread rfl)) (Loop.bind_of (hstring (hread rfl)) (Loop.bind_of
    (hstring (hread rfl)) (Loop.bind_of hparsed ?_))))))
  rw [if_pos ⟨hne, by decide⟩, hchangelog]
  rfl

/-! ### The package -/

theorem readU32Le_eq (bs : Bytes) : readU32Le bs = number (bs.take 4) := by
  have hfold : ∀ l : Bytes, (l.map UInt8.toNat).foldr (fun b n => b + 256 * n) 0 = number l := by
    intro l
    induction l with
    | nil => rfl
    | cons b l ih => rw [List.map_cons, List.foldr_cons, ih, number]
  exact hfold _

/-- **The updater takes the package apart** as the script has put it together. -/
theorem parseUpdateFile_packUpdate (path : Text) {manifest signature squashfs : Bytes}
    {m : UpdateManifest} (hmanifest : manifest.length ≤ maxManifestSize)
    (hsignature : signature.length = 64) (hm : parseManifest (Text.ofBytes manifest) = some m) :
    parseUpdateFile path (some (packUpdate manifest signature squashfs)) =
      .ok ⟨m, manifest, signature, 76 + manifest.length, squashfs.length⟩ := by
  set content := packUpdate manifest signature squashfs with hcontent
  have hn : manifest.length < 2 ^ 32 := hmanifest.trans_lt (by decide)
  have hlen : content.length = 76 + manifest.length + squashfs.length := by
    simp only [hcontent, packUpdate, List.length_append, length_bytes, hsignature]
    simp only [updateMagic, List.length_cons, List.length_nil]
    omega
  have hmagic : content.take 4 = updateMagic := rfl
  have hversion : readU32Le (content.drop 4) = 1 := by
    rw [readU32Le_eq]
    rfl
  have hsize : manifestSize content = manifest.length := by
    have hdrop : content.drop 8 = bytes 4 manifest.length ++ (manifest ++ (signature ++ squashfs)) :=
      by simp only [hcontent, packUpdate, List.append_assoc]; rfl
    rw [manifestSize, readU32Le_eq, hdrop, List.take_left' (length_bytes 4 _), number_bytes,
      Nat.mod_eq_of_lt (hn.trans_eq (by norm_num))]
  have hrest : content.drop 12 = manifest ++ (signature ++ squashfs) := by
    rw [hcontent, packUpdate, List.append_assoc, List.append_assoc]
    refine List.drop_left' ?_
    rw [List.length_append, length_bytes]
    rfl
  have hbytes : manifestBytes content = manifest := by
    rw [manifestBytes, hsize, headerSize, hrest, List.take_left]
  have hsig : signatureBytes content = signature := by
    rw [signatureBytes, hsize, headerSize, ← List.drop_drop, hrest, List.drop_left]
    exact List.take_left' hsignature
  have hstart : payloadStart content = 76 + manifest.length := by
    rw [payloadStart, hsize, headerSize, signatureSize]
    omega
  simp only [parseUpdateFile, Check.demand_bind_eq_ok, Check.require_bind_eq_ok]
  refine ⟨content, rfl, ?_, hmagic, hversion, ?_, ?_, ?_, m, ?_, ?_⟩
  · rw [headerSize]
    omega
  · rwa [hsize]
  · rw [hsize, headerSize]
    omega
  · rw [hsize, headerSize, signatureSize]
    omega
  · rwa [hbytes]
  · rw [hbytes, hsig, hstart, show content.length - (76 + manifest.length) = squashfs.length by
      omega]

/-- The payload behind the signature. -/
theorem drop_packUpdate {manifest signature squashfs : Bytes} (hsignature : signature.length = 64) :
    (packUpdate manifest signature squashfs).drop (76 + manifest.length) = squashfs := by
  refine List.drop_left' ?_
  simp only [List.length_append, length_bytes, hsignature]
  simp only [updateMagic, List.length_cons, List.length_nil]
  omega

theorem jsonSafe_sha256sum (data : Bytes) : JsonSafe (sha256sum data) := by
  have hdigit : ∀ n < 16, Plain (Text.hexDigit n) ∧ (Text.hexDigit n).toNat < 0x80 := by decide
  intro c hc
  obtain ⟨b, -, hb⟩ := List.mem_flatMap.mp hc
  have hlt : b.toNat < 256 := b.toNat_lt
  simp only [Text.hexByte, List.mem_cons, List.not_mem_nil, or_false] at hb
  rcases hb with rfl | rfl
  · exact hdigit _ (by omega)
  · exact hdigit _ (by omega)

theorem length_sha256sum (data : Bytes) : (sha256sum data).length = 64 := by
  rw [sha256sum, List.length_flatMap]
  simp only [Text.hexByte, List.length_cons, List.length_nil, List.map_const', List.sum_replicate]
  rw [Sha2.digest, List.length_flatMap]
  simp only [BigEndian.length_bytes]
  rfl

theorem isBytes_of_jsonSafe {s : Text} (h : JsonSafe s) : Wire.IsBytes s := fun c hc =>
  (h c hc).2.trans (by decide)

theorem isBytes_append {s t : Text} (hs : Wire.IsBytes s) (ht : Wire.IsBytes t) :
    Wire.IsBytes (s ++ t) := fun c hc => (List.mem_append.mp hc).elim (hs c) (ht c)

theorem isBytes_manifestText {version buildDate payloadSha256 : Text} (payloadSize : ℕ)
    (hversion : JsonSafe version) (hdate : JsonSafe buildDate) (hsha : JsonSafe payloadSha256) :
    Wire.IsBytes (manifestText version buildDate payloadSha256 payloadSize) := by
  have hliteral : ∀ {s : Text}, s.all (fun c => c.toNat < 256) = true → Wire.IsBytes s :=
    fun h c hc => of_decide_eq_true (List.all_eq_true.mp h c hc)
  have hnumber : Wire.IsBytes (Text.ofNat payloadSize) := fun c hc =>
    (toNat_lt_of_isDigit (Text.isDigit_toDigits c hc)).trans (by decide)
  unfold manifestText
  refine isBytes_append (hliteral (by decide)) ?_
  refine isBytes_append (isBytes_of_jsonSafe hversion) ?_
  refine isBytes_append (hliteral (by decide)) ?_
  refine isBytes_append (isBytes_of_jsonSafe hdate) ?_
  refine isBytes_append (hliteral (by decide)) ?_
  refine isBytes_append (hliteral (by decide)) ?_
  refine isBytes_append (isBytes_of_jsonSafe hsha) ?_
  refine isBytes_append (hliteral (by decide)) ?_
  refine isBytes_append hnumber ?_
  refine isBytes_append (hliteral (by decide)) ?_
  exact isBytes_append hnumber (hliteral (by decide))

theorem length_manifestText (version buildDate payloadSha256 : Text) (payloadSize : ℕ) :
    (manifestText version buildDate payloadSha256 payloadSize).length = version.length +
      buildDate.length + payloadSha256.length + 2 * (Text.ofNat payloadSize).length + 280 := by
  have happend : ∀ {s t : Text} (a b : ℕ), s.length = a → t.length = b →
      (s ++ t).length = a + b := fun a b hs ht => by rw [List.length_append, hs, ht]
  unfold manifestText
  refine (happend 39 _ (by decide) (happend _ _ rfl (happend 20 _ (by decide)
    (happend _ _ rfl (happend 67 _ (by decide) (happend 66 _ (by decide)
    (happend _ _ rfl (happend 28 _ (by decide) (happend _ _ rfl
    (happend 29 _ (by decide) (happend _ 31 rfl (by decide)))))))))))).trans ?_
  omega

/-- What the script writes: its manifest is short, and its signature verifies. -/
theorem buildUpdate_spec {malloc : Bool × Bool} {sk squashfs : Bytes} {version buildDate : Text}
    (hsk : KeyPair sk) (hne : version ≠ [])
    (hshort : version.length + buildDate.length ≤ 2 ^ 19) (hsize : squashfs.length < 2 ^ 63)
    (hmem : (malloc.1 && malloc.2) = true) :
    ∃ manifest signature, buildUpdate version buildDate squashfs sk =
        some (packUpdate manifest signature squashfs) ∧
      manifest = Wire.toBytes
        (manifestText version buildDate (sha256sum squashfs) squashfs.length) ∧
      manifest.length ≤ maxManifestSize ∧ signature.length = 64 ∧
      (tweetCrypto malloc).verify signature manifest (sk.drop 32) = true := by
  set manifest := Wire.toBytes
    (manifestText version buildDate (sha256sum squashfs) squashfs.length) with hmanifest
  have hlength : manifest.length ≤ maxManifestSize := by
    have hdigits : (Text.ofNat squashfs.length).length ≤ 19 :=
      Nat.toDigits_length 10 _ 19 (by decide) (hsize.trans (by norm_num))
    rw [hmanifest, Wire.length_toBytes, length_manifestText, length_sha256sum, maxManifestSize]
    omega
  have hmax : maxManifestSize + 64 < 2 ^ 32 := by decide
  have hlen : manifest.length + 64 < 2 ^ 32 := (Nat.add_le_add_right hlength 64).trans_lt hmax
  obtain ⟨signature, hsign, hsignature, hverify⟩ :=
    @verifyDetached_sign malloc manifest sk hsk (hlen.trans (by norm_num)) hmem
  have hhelper : signHelper sk manifest = some signature := by
    rw [signHelper, if_pos hsk.length, hsign]
    rfl
  refine ⟨manifest, signature, ?_, rfl, hlength, hsignature, ?_⟩
  · rw [buildUpdate, if_neg hne]
    exact Loop.bind_of hhelper (if_pos ⟨hsignature, (Nat.le_add_right _ _).trans_lt hlen⟩)
  · show verifyUpdateSignature malloc _ _ _ = true
    rw [verifyUpdateSignature, hverify, hsignature]
    rfl

/-- **The updater installs what the script has packed.** A package for the key that is compiled in
is refused only for its version, its size or a short read. -/
theorem verifyUpdate_buildUpdate {malloc : Bool × Bool} {build : Build} {sk squashfs : Bytes}
    {version buildDate : Text} (path : Text) (n : ℕ) (hsk : KeyPair sk)
    (hkey : build.publicKey = sk.drop 32) (hne : version ≠ []) (hversion : JsonSafe version)
    (hdate : JsonSafe buildDate) (hshort : version.length + buildDate.length ≤ 2 ^ 19)
    (hsize : squashfs.length < 2 ^ 63) (hmem : (malloc.1 && malloc.2) = true) :
    ∃ file, buildUpdate version buildDate squashfs sk = some file ∧ ∀ r,
      verifyUpdate (tweetCrypto malloc) build (.read n) path (some file) = .ok r ↔
        r = (builtManifest version buildDate (sha256sum squashfs) squashfs.length, squashfs) ∧
        0 < versionCompare version build.version ∧ 0 ≤ versionCompare build.version "1.0.0" ∧
        squashfs ≠ [] ∧ squashfs.length ≤ maxPayload ∧ squashfs.length ≤ n := by
  have hsha := jsonSafe_sha256sum squashfs
  obtain ⟨manifest, signature, hbuild, hmanifest, hlength, hsignature, hverify⟩ :=
    buildUpdate_spec hsk hne hshort hsize hmem
  have hparse : parseManifest (Text.ofBytes manifest) =
      some (builtManifest version buildDate (sha256sum squashfs) squashfs.length) := by
    rw [hmanifest, Wire.ofBytes_toBytes (isBytes_manifestText _ hversion hdate hsha)]
    exact parseManifest_manifestText hne hversion hdate hsha (hsize.trans (by norm_num))
  have hinfo := @parseUpdateFile_packUpdate path manifest signature squashfs _ hlength hsignature
    hparse
  have hconfigured : ∃ b ∈ build.publicKey, b ≠ 0 := by
    by_contra! hzero
    refine hsk.public_ne_zeros (List.eq_replicate_iff.mpr ⟨?_, hkey ▸ hzero⟩)
    rw [List.length_drop, hsk.length]
  have hread : ∀ (f : Bytes → Except Text (UpdateManifest × Bytes)) r,
      readPayload ⟨builtManifest version buildDate (sha256sum squashfs) squashfs.length, manifest,
        signature, 76 + manifest.length, squashfs.length⟩ (packUpdate manifest signature squashfs)
        (.read n) >>= f = .ok r ↔ squashfs.length ≤ n ∧ f squashfs = .ok r := by
    intro f r
    rw [readPayload, drop_packUpdate hsignature, List.take_length, Check.bind_eq_ok]
    simp only [Check.require_bind_eq_ok, Except.ok.injEq, List.length_take, min_eq_right_iff]
    constructor
    · rintro ⟨payload, ⟨hn, rfl⟩, hf⟩
      exact ⟨hn, List.take_of_length_le hn ▸ hf⟩
    · rintro ⟨hn, hf⟩
      exact ⟨squashfs, ⟨hn, List.take_of_length_le hn⟩, hf⟩
  refine ⟨_, hbuild, fun r => ?_⟩
  rw [verifyUpdate, Check.bind_eq_ok]
  simp only [hinfo, Except.ok.injEq, exists_eq_left', Check.require_bind_eq_ok,
    Option.getD_some, hread, sha256Hex_tweetCrypto, hkey, hverify, true_and]
  constructor
  · rintro ⟨hnewer, hminimum, -, hsome, hmax, hn, -, rfl⟩
    refine ⟨rfl, hnewer, hminimum.resolve_left (List.cons_ne_nil _ _), ?_, hmax, hn⟩
    exact fun h => hsome (by rw [h]; rfl)
  · rintro ⟨rfl, hnewer, hminimum, hsome, hmax, hn⟩
    exact ⟨hnewer, Or.inr hminimum, hkey ▸ hconfigured,
      fun h => hsome (List.length_eq_zero_iff.mp h), hmax, hn, rfl, rfl⟩

/-- A release that the updater of version 1.0.0 installs. -/
theorem verifyUpdate_buildUpdate_release :
    let seed := List.replicate 32 7
    let sk := seed ++ encode (secretScalar seed • B)
    ∃ file, buildUpdate "1.1.0" "2025-01-01" [1, 2, 3] sk = some file ∧
      verifyUpdate (tweetCrypto (true, true)) ⟨"1.0.0", sk.drop 32⟩ (.read 3) "/data/a.update"
        (some file) =
          .ok (builtManifest "1.1.0" "2025-01-01" (sha256sum [1, 2, 3]) 3, [1, 2, 3]) := by
  intro seed sk
  obtain ⟨file, hfile, hiff⟩ := @verifyUpdate_buildUpdate (true, true) ⟨"1.0.0", sk.drop 32⟩ sk
    [1, 2, 3] "1.1.0" "2025-01-01" "/data/a.update" 3 (keyPair_of_seed List.length_replicate) rfl
    (by decide) (by decide) (by decide) (by decide) (by decide) rfl
  exact ⟨file, hfile, (hiff _).mpr
    ⟨rfl, by decide, by decide, by decide, by decide, by decide⟩⟩

end Llamaste
