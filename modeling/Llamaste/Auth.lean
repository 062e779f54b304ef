import Llamaste.Bcrypt
import Llamaste.Lib.Check
import Llamaste.Lib.JsonWellFormed
import Llamaste.Lib.Machine
import Llamaste.Lib.TempRename

/-!
# Device authentication

The authentication manager holds one device password and a few settings, and keeps them
in `device.json`, which it rewrites by an unchecked temp-and-rename. A file that cannot
be read as a configuration is treated like a fresh device, in which every request is let
through. Source: `auth.cpp`.
-/

namespace Llamaste

/-! ### The manager -/

/-- The configuration of an `AuthManager`, with the defaults of a fresh one. -/
structure AuthConfig where
  passwordHash : Text := []
  apiKey : Text := []
  deviceName : Text := "llamaste"
  sessionTimeoutSeconds : ℤ := 604800
  setupComplete : Bool := false

/-- A device: the manager in memory, and the content of `device.json` if it exists. -/
structure Device where
  config : AuthConfig
  disk : Option Text

namespace AuthConfig

/-- The JSON document of a configuration. -/
def toJson (c : AuthConfig) : Json :=
  Json.object [("password_hash", .str c.passwordHash), ("api_key", .str c.apiKey),
    ("device_name", .str c.deviceName), ("session_timeout_seconds", .int c.sessionTimeoutSeconds),
    ("setup_complete", .bool c.setupComplete)]

/-- What `save_config` writes: the indented document and a newline. -/
def text (c : AuthConfig) : Text := Json.dumpAt (Json.Layout.indented 2) 0 c.toJson ++ ['\n']

/-- Assign a field from a typed access; a type error stops with the fields as they are. -/
def assign {α : Type} (field : Option α) (c : AuthConfig) (set : α → AuthConfig) :
    Except AuthConfig AuthConfig :=
  match field with
  | some a => .ok (set a)
  | none => .error c

/-- The assignments of `load_config`, in order. -/
def readFields (c : AuthConfig) (j : Json) : Except AuthConfig AuthConfig := do
  let c ← assign (j.value Json.getString "password_hash" []) c fun a => { c with passwordHash := a }
  let c ← assign (j.value Json.getString "api_key" []) c fun a => { c with apiKey := a }
  let c ← assign (j.value Json.getString "device_name" "llamaste") c
    fun a => { c with deviceName := a }
  let c ← assign (j.value Json.getInt32 "session_timeout_seconds" 604800) c
    fun a => { c with sessionTimeoutSeconds := a }
  assign (j.value Json.getBool "setup_complete" false) c fun a => { c with setupComplete := a }

/-- A corrupted configuration: start fresh. -/
def startFresh (c : AuthConfig) : AuthConfig :=
  { c with passwordHash := [], setupComplete := false }

end AuthConfig

/-- `load_config` of a fresh manager, from the content of `device.json`. -/
def loadConfig (disk : Option Text) : AuthConfig :=
  match disk with
  | none => {}
  | some content =>
      match Json.parsePrefix content with
      | none => AuthConfig.startFresh {}
      | some j =>
          match AuthConfig.readFields {} j with
          | .ok c => c
          | .error c => c.startFresh

/-- The device after a start: `load_config` of whatever is on disk. -/
def Device.start (disk : Option Text) : Device := ⟨loadConfig disk, disk⟩

/-- `save_config`. -/
def saveConfig (o : TempRename) (d : Device) : Device :=
  { d with disk := o.unchecked d.config.text d.disk }

/-- `generate_token`, from its random bytes if there are any. -/
def generateToken {n : ℕ} (random : Option (Vector UInt8 n)) : Text :=
  random.elim [] fun bytes => bytes.toList.flatMap Text.hexByte

/-- `generate_api_key`. -/
def generateApiKey (random : Option (Vector UInt8 10)) : Text := "llm-" ++ generateToken random

section

variable (core : KeySchedule)

/-- The first part of `set_device_password`, outside the lock: the hash of an acceptable
password, from the random bytes of its salt. -/
def hashPassword (password : Text) (salt : Option (Vector UInt8 16)) : Option Text :=
  if password = [] ∨ 72 < password.length then none
  else
    let hash := bcryptHash core password 12 salt
    if hash = [] then none else some hash

/-- The second part of `set_device_password`, under the lock. -/
def storePassword (hash : Text) (random : Option (Vector UInt8 10)) (c : AuthConfig) :
    AuthConfig :=
  { c with
    passwordHash := hash
    setupComplete := true
    apiKey := if c.apiKey = [] then generateApiKey random else c.apiKey }

/-- `set_device_password`, with the random bytes of the salt and of a new API key, and
the outcome of the save: its result, and the device after it. -/
def setDevicePassword (password : Text) (salt : Option (Vector UInt8 16))
    (random : Option (Vector UInt8 10)) (o : TempRename) (d : Device) : Bool × Device :=
  match hashPassword core password salt with
  | none => (false, d)
  | some hash => (true, saveConfig o { d with config := storePassword hash random d.config })

/-- `verify_device_password`. -/
def verifyDevicePassword (c : AuthConfig) (password : Text) : Bool :=
  if c.passwordHash = [] then false else bcryptCheck core password c.passwordHash

end

/-- `set_session_timeout`: between a minute and a year. -/
def setSessionTimeout (seconds : ℤ) (o : TempRename) (d : Device) : Device :=
  saveConfig o { d with config :=
    { d.config with sessionTimeoutSeconds := min (max seconds 60) 31536000 } }

/-- `verify_api_key`: a comparison of 32 bytes, shorter keys padded with zeros. -/
def verifyApiKey (c : AuthConfig) (key : Text) : Bool :=
  key ≠ [] && c.apiKey ≠ [] &&
    (List.range 32).all fun i => key.getD i (Char.ofNat 0) = c.apiKey.getD i (Char.ofNat 0)

/-- `is_authenticated`, for a request with or without a valid session and with a bearer
token: before the setup everything is let through. -/
def isAuthenticated (c : AuthConfig) (validSession : Bool) (bearer : Text) : Bool :=
  !c.setupComplete || validSession || verifyApiKey c bearer

/-! ### Saving and loading -/

/-- A configuration that can be written: its strings are UTF-8 and its number an `int`. -/
structure AuthConfig.Writable (c : AuthConfig) : Prop where
  passwordHash : Utf8.valid c.passwordHash = true
  apiKey : Utf8.valid c.apiKey = true
  deviceName : Utf8.valid c.deviceName = true
  timeout : CInt.FitsInt32 c.sessionTimeoutSeconds

theorem AuthConfig.writable_default : AuthConfig.Writable {} :=
  ⟨rfl, rfl, by decide, by decide⟩

/-- The document of a writable configuration, its members in order. -/
theorem AuthConfig.toJson_eq (c : AuthConfig) :
    c.toJson = .obj [("api_key", .str c.apiKey), ("device_name", .str c.deviceName),
      ("password_hash", .str c.passwordHash),
      ("session_timeout_seconds", .int c.sessionTimeoutSeconds),
      ("setup_complete", .bool c.setupComplete)] := rfl

theorem AuthConfig.wellFormed_toJson {c : AuthConfig} (h : c.Writable) :
    Json.WellFormed c.toJson := by
  have hint : Json.FitsInteger c.sessionTimeoutSeconds := by
    have := h.timeout
    simp only [CInt.FitsInt32] at this
    simp only [Json.FitsInteger]
    omega
  rw [toJson_eq]
  refine .obj_of_keys (l := ["api_key", "device_name", "password_hash",
    "session_timeout_seconds", "setup_complete"]) rfl (by decide) (by decide) ?_
  simp only [List.map_cons, List.map_nil, List.forall_mem_cons]
  exact ⟨.str h.apiKey, .str h.deviceName, .str h.passwordHash, .int hint, .bool _,
    fun _ h => nomatch h⟩

/-- A configuration that was saved in full is loaded. -/
theorem loadConfig_text {c : AuthConfig} (h : c.Writable) : loadConfig (some c.text) = c := by
  have hparse : Json.parsePrefix c.text = some c.toJson :=
    Json.parsePrefix_dumpAt 0 (AuthConfig.wellFormed_toJson h) (by
      rintro d ⟨⟩
      decide)
  have hread : AuthConfig.readFields {} c.toJson =
      .ok { c with sessionTimeoutSeconds := CInt.toInt32 c.sessionTimeoutSeconds } := rfl
  simp only [loadConfig, hparse, hread, CInt.toInt32_eq_self_iff.mpr h.timeout]

/-- An acceptable password and a salt give a hash, and nothing else does. -/
theorem hashPassword_eq_some_iff {core : KeySchedule} {password hash : Text}
    {salt : Option (Vector UInt8 16)} :
    hashPassword core password salt = some hash ↔
      password ≠ [] ∧ password.length ≤ 72 ∧
        ∃ salt', salt = some salt' ∧ hash = bcryptHash core password 12 (some salt') := by
  rw [hashPassword]
  by_cases hpassword : password = []
  · simp [hpassword]
  by_cases hlength : 72 < password.length
  · rw [if_pos (Or.inr hlength)]
    exact iff_of_false (fun h => nomatch h) fun h => absurd h.2.1 (by omega)
  rw [if_neg (by simp [hpassword, hlength])]
  cases salt with
  | none => exact iff_of_false (fun h => nomatch h) fun ⟨_, _, _, h, _⟩ => nomatch h
  | some salt' =>
      have hne : bcryptHash core password 12 (some salt') ≠ [] := by
        rw [bcryptHash_eq core hpassword]
        exact List.cons_ne_nil _ _
      simp only [if_neg hne, Option.some.injEq, exists_eq_left']
      exact ⟨fun h => ⟨hpassword, by omega, h.symm⟩, fun h => h.2.2.symm⟩

/-- A password verifies against the hash that was made of it. -/
theorem verifyDevicePassword_of_hash {core : KeySchedule} {password hash : Text}
    {salt : Option (Vector UInt8 16)} (h : hashPassword core password salt = some hash)
    {c : AuthConfig} (hc : c.passwordHash = hash) :
    verifyDevicePassword core c password = true := by
  obtain ⟨hpassword, -, salt', -, rfl⟩ := hashPassword_eq_some_iff.mp h
  have hne : c.passwordHash ≠ [] := by
    rw [hc, bcryptHash_eq core hpassword]
    exact List.cons_ne_nil _ _
  rw [verifyDevicePassword, if_neg hne, hc]
  exact bcryptCheck_hash core hpassword 12 salt'

theorem AuthConfig.ends_assign {α : Type} {P : AuthConfig → Prop} {field : Option α}
    {c : AuthConfig} {set : α → AuthConfig} (hc : P c) (hset : ∀ a, field = some a → P (set a)) :
    Check.Ends P (assign field c set) := by
  cases field with
  | some a => exact hset a rfl
  | none => exact hc

/-- Reading the fields of a value that was read keeps a configuration writable. -/
theorem AuthConfig.writable_readFields {c : AuthConfig} {j : Json} (hc : c.Writable)
    (hj : Json.WellFormed j) : Check.Ends Writable (readFields c j) := by
  refine (ends_assign hc fun a ha => ?_).bind fun c hc => ?_
  · exact { hc with passwordHash := hj.valid_value rfl ha }
  refine (ends_assign hc fun a ha => ?_).bind fun c hc => ?_
  · exact { hc with apiKey := hj.valid_value rfl ha }
  refine (ends_assign hc fun a ha => ?_).bind fun c hc => ?_
  · exact { hc with deviceName := hj.valid_value (by decide) ha }
  refine (ends_assign hc fun a ha => ?_).bind fun c hc => ?_
  · exact { hc with timeout := Json.fitsInt32_value (by decide) ha }
  exact ends_assign hc fun a _ => { hc with }

/-- What is loaded can be written, whatever the file holds. -/
theorem writable_loadConfig (disk : Option Text) : (loadConfig disk).Writable := by
  have hfresh : ∀ c : AuthConfig, c.Writable → c.startFresh.Writable := fun c hc =>
    { hc with passwordHash := rfl }
  cases disk with
  | none => exact AuthConfig.writable_default
  | some content =>
      cases hparse : Json.parsePrefix content with
      | none =>
          simp only [loadConfig, hparse]
          exact hfresh _ AuthConfig.writable_default
      | some j =>
          have hends := AuthConfig.writable_readFields AuthConfig.writable_default
            (Json.wellFormed_of_parsePrefix hparse)
          cases hread : AuthConfig.readFields {} j with
          | ok c =>
              rw [hread] at hends
              simp only [loadConfig, hparse, hread]
              exact hends
          | error c =>
              rw [hread] at hends
              simp only [loadConfig, hparse, hread]
              exact hfresh c hends

end Llamaste
