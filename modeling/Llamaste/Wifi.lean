import Llamaste.Lib.JsonText
import Llamaste.Lib.Strto

/-!
# The Wi-Fi manager

The manager talks to `wpa_supplicant` over its control socket: a command is a line of text, and
so is the reply, which is empty when none comes. Source: `wifi.cpp`.
-/

namespace Llamaste

/-! ### Texts -/

/-- `str_trim`. -/
def strTrim (s : Text) : Text := Text.trim Json.isWs s

/-- `str_split` into at least one part and at most `n + 1`; the last part holds all that is
left. -/
def strSplit (delim : Char) : ℕ → Text → List Text
  | 0, s => [s]
  | n + 1, s =>
    match Text.splitFirst [delim] s with
    | none => [s]
    | some (part, rest) => part :: strSplit delim n rest

/-- A character of an SSID in hexadecimal. -/
def hexChar (c : Char) : Text := [Text.hexDigit (c.toNat / 16), Text.hexDigit (c.toNat % 16)]

/-- The characters of a passphrase that are sent. -/
def keptChars (psk : Text) : Text := psk.filter fun c => ¬ c.toNat < 0x20

/-- Quotes and backslashes are escaped. -/
def escapeQuotes (s : Text) : Text :=
  s.flatMap fun c => if c = '\\' ∨ c = '"' then ['\\', c] else [c]

/-- `psk_esc`. -/
def pskEsc (psk : Text) : Text := escapeQuotes (keptChars psk)

/-! ### Commands -/

/-- The commands of `connect`. -/
inductive WpaCommand
  | listNetworks
  | addNetwork
  | setSsid (id : ℤ) (hex : Text)
  | setKeyMgmtNone (id : ℤ)
  | setPsk (id : ℤ) (escaped : Text)
  | setBssidAny (id : ℤ)
  | selectNetwork (id : ℤ)
  | status
  | removeNetwork (id : ℤ)
  | saveConfig

/-- A command that sets a variable of a network. -/
def setNetworkText (id : ℤ) (setting : Text) : Text :=
  "SET_NETWORK ".toList ++ Json.dumpInt id ++ ' ' :: setting

/-- The text of a command. -/
def WpaCommand.text : WpaCommand → Text
  | .listNetworks => "LIST_NETWORKS"
  | .addNetwork => "ADD_NETWORK"
  | .setSsid id hex => setNetworkText id ("ssid ".toList ++ hex)
  | .setKeyMgmtNone id => setNetworkText id "key_mgmt NONE"
  | .setPsk id escaped => setNetworkText id ("psk \"".toList ++ escaped ++ ['"'])
  | .setBssidAny id => setNetworkText id "bssid any"
  | .selectNetwork id => "SELECT_NETWORK ".toList ++ Json.dumpInt id
  | .status => "STATUS"
  | .removeNetwork id => "REMOVE_NETWORK ".toList ++ Json.dumpInt id
  | .saveConfig => "SAVE_CONFIG"

/-! ### Networks -/

/-- `WiFiNetwork`. -/
structure WiFiNetwork where
  ssid : Text := []
  bssid : Text := []
  signalDbm : ℤ := 0
  freqMhz : ℤ := 0
  security : Text := []
  networkId : ℤ := -1
  connected : Bool := false
  saved : Bool := false
  deriving DecidableEq, Repr

/-- A line of the list, if it is an entry. -/
def parseListLine (line : Text) : Option WiFiNetwork :=
  match strSplit '\t' 3 line with
  | idText :: ssid :: bssid :: flags => do
    let networkId ← Strto.stoi (strTrim idText)
    some {
      networkId
      ssid := strTrim ssid
      bssid := strTrim bssid
      saved := true
      connected := (Text.afterFirst "CURRENT" (flags.flatMap strTrim)).isSome }
  | _ => none

/-- `parse_list_networks`: the first line that is not empty is the header. -/
def parseListNetworks (raw : Text) : List WiFiNetwork :=
  (((Text.lines raw).map strTrim).filter (· ≠ [])).tail.filterMap parseListLine

end Llamaste
