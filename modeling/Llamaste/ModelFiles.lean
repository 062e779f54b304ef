import Llamaste.Lib.JsonText
import Llamaste.Lib.Strto

/-!
# Model files

The names of model files, large ones being split into shards whose names carry a number and the
number of all shards, and what the download of one file answers.

Source: `tools_model_download.cpp`.
-/

namespace Llamaste

/-! ### Names -/

/-- `validate_gguf_filename`. -/
def validateGgufFilename (filename : Text) : Bool :=
  6 ≤ filename.length && (".gguf" : Text).isSuffixOf filename && !filename.contains '/' &&
    (Text.afterFirst ".." filename).isNone

/-- `ShardInfo`. -/
structure ShardInfo where
  base : Text
  shardNum : ℤ := 0
  totalShards : ℤ := 0
  deriving DecidableEq

/-- `parse_shard_filename`. A number that is missing or no `int` is an exception. -/
def parseShardFilename (filename : Text) : Option ShardInfo :=
  match Text.rfind "-of-" filename with
  | none => some { base := filename }
  | some ofPos =>
    if ofPos < 6 then some { base := filename } else
    match Text.rfind ".gguf" filename with
    | none => some { base := filename }
    | some dotPos =>
      if dotPos ≤ ofPos + 4 then some { base := filename } else
      match Text.rfind "-" (filename.take ofPos) with
      | none => some { base := filename }
      | some dashPos =>
        let totalStr := (filename.drop (ofPos + 4)).take (dotPos - (ofPos + 4))
        let shardStr := (filename.drop (dashPos + 1)).take (ofPos - dashPos - 1)
        if shardStr.all Char.isDigit && totalStr.all Char.isDigit then do
          return { base := filename.take dashPos, shardNum := ← Strto.stoi shardStr
                   totalShards := ← Strto.stoi totalStr }
        else some { base := filename }

/-- `%05d`. -/
def padFive (n : ℤ) : Text :=
  let sign : Text := if n < 0 then "-" else []
  let digits := Text.ofNat n.natAbs
  sign ++ List.replicate (5 - (sign.length + digits.length)) '0' ++ digits

/-- `build_shard_filename`. -/
def buildShardFilename (base : Text) (shard total : ℤ) : Text :=
  base ++ "-" ++ padFive shard ++ "-of-" ++ padFive total ++ ".gguf"

/-! ### Sizes -/

/-- The quotient rounded to the nearest integer, and to the even one of two. -/
def roundDiv (n d : ℕ) : ℕ :=
  if 2 * (n % d) < d ∨ (2 * (n % d) = d ∧ n / d % 2 = 0) then n / d else n / d + 1

/-- The `double` that an unsigned 64-bit integer is converted to. -/
def doubleOfNat (n : ℕ) : ℕ :=
  if n < 2 ^ 53 then n else roundDiv n (2 ^ (n.log2 - 52)) * 2 ^ (n.log2 - 52)

/-- `%.1f` of a quotient. -/
def oneDecimal (n d : ℕ) : Text :=
  let tenths := roundDiv (10 * n) d
  Text.ofNat (tenths / 10) ++ "." ++ Text.ofNat (tenths % 10)

/-- `format_bytes`. -/
def formatBytes (bytes : ℕ) : Text :=
  if 1073741824 ≤ bytes then oneDecimal (doubleOfNat bytes) 1073741824 ++ " GB"
  else if 1048576 ≤ bytes then oneDecimal (doubleOfNat bytes) 1048576 ++ " MB"
  else if 1024 ≤ bytes then oneDecimal (doubleOfNat bytes) 1024 ++ " KB"
  else Text.ofNat bytes ++ " B"

/-! ### What a download answers -/

/-- How `download_single_file` ends. `curl_easy_strerror` has a text for every code. -/
inductive DownloadReply
  | alreadyExists (path : Text)
  | cannotWrite
  | cannotInit
  | curlError (code : ℤ) (error : {text : Text // text ≠ []}) (partialFile : Text)
      (downloaded : ℕ)
  | httpError (code : ℕ)
  | renameError (reason : Text)
  | success (path filename : Text) (size speed : ℕ)

namespace DownloadReply

/-- The text that is returned, as the value that it is the dump of. -/
def json : DownloadReply → Json
  | alreadyExists path =>
      .object [("status".toList, .str "already_exists"), ("path".toList, .str path)]
  | cannotWrite => .object [("status".toList, .str "error"),
      ("error".toList, .str "Cannot write to /data/models/")]
  | cannotInit => .object [("status".toList, .str "error"),
      ("error".toList, .str "Failed to initialize download")]
  | curlError code error partialFile downloaded => .object [("status".toList, .str "error"),
      ("curl_code".toList, .int code), ("error".toList, .str error.1),
      ("partial_file".toList, .str partialFile), ("downloaded_bytes".toList, .int downloaded),
      ("message".toList,
        .str "Download failed. The partial file is saved \u00e2\u0080\u0094 retry will resume.")]
  | httpError code => .object ([("status".toList, .str "error"), ("http_code".toList, .int code),
      ("error".toList, .str ("HTTP error " ++ Text.ofNat code))] ++
      if code = 404 then [("message".toList, .str "File not found in repository")] else [])
  | renameError reason => .object [("status".toList, .str "error"),
      ("error".toList, .str ("Failed to rename downloaded file: " ++ reason))]
  | success path filename size speed => .object [("status".toList, .str "success"),
      ("path".toList, .str path), ("filename".toList, .str filename),
      ("size_bytes".toList, .int size), ("size_human".toList, .str (formatBytes size)),
      ("speed_human".toList, .str (formatBytes speed ++ "/s"))]

/-- `r.value("status", "") == "error"`. -/
def failed (r : DownloadReply) : Bool :=
  r.json.value Json.getString "status" [] = some "error".toList

/-- `r.value("error", "download failed")`. -/
def error (r : DownloadReply) : Text :=
  (r.json.value Json.getString "error" "download failed").getD []

/-- `r.value("size_bytes", (uint64_t)0)`. -/
def sizeBytes (r : DownloadReply) : ℕ :=
  ((r.json.value Json.getUInt64 "size_bytes" 0).getD 0).toNat

/-- The reply is an error. -/
def isError : DownloadReply → Bool
  | cannotWrite | cannotInit | curlError _ _ _ _ | httpError _ | renameError _ => true
  | _ => false

/-- The status that is returned. -/
def status : DownloadReply → Text
  | alreadyExists _ => "already_exists"
  | success _ _ _ _ => "success"
  | _ => "error"

theorem find_status (r : DownloadReply) : r.json.find "status" = some (.str r.status) := by
  cases r with
  | httpError code =>
    rw [json]
    by_cases h : code = 404
    · rw [if_pos h]
      rfl
    · rw [if_neg h]
      rfl
  | _ => rfl

/-- Exactly the errors have the status `error`. -/
theorem status_eq_error_iff (r : DownloadReply) : r.status = "error" ↔ r.isError = true := by
  cases r with
  | alreadyExists path => exact iff_of_false (show "already_exists".toList ≠ _ by decide) nofun
  | success path filename size speed =>
    exact iff_of_false (show "success".toList ≠ _ by decide) nofun
  | _ => exact iff_of_true rfl rfl

theorem failed_eq (r : DownloadReply) : r.failed = r.isError := by
  rw [failed, Json.value_of_find r.find_status, Bool.eq_iff_iff, decide_eq_true_iff,
    ← status_eq_error_iff]
  exact Option.some_inj

/-- Every error has a text. -/
theorem error_ne_nil {r : DownloadReply} (h : r.isError = true) : r.error ≠ [] := by
  cases r with
  | httpError code =>
    rw [error, json]
    by_cases h : code = 404
    · rw [if_pos h]
      exact List.cons_ne_nil _ _
    · rw [if_neg h]
      exact List.cons_ne_nil _ _
  | curlError code error partialFile downloaded => exact error.2
  | cannotWrite => exact List.cons_ne_nil _ _
  | cannotInit => exact List.cons_ne_nil _ _
  | renameError reason => exact List.cons_ne_nil _ _
  | _ => exact nomatch h

end DownloadReply

end Llamaste
