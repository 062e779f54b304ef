import Llamaste.Agent
import Llamaste.Lib.Inet
import Llamaste.Lib.JsonTag
import Llamaste.Lib.JsonWellFormed

/-!
# The network configuration

A tool saves a network configuration as JSON; at boot it is read by a search for the quoted
names of its fields. Source: `tools_network.cpp`, `init.cpp`.

## Main results

* `survivesReboot_iff`: which configurations are read back as they were saved.
-/

namespace Llamaste

open Text (quoted)

/-! ### The writer -/

/-- What is saved. -/
inductive NetworkConfig
  | dhcp
  | static (dns gateway interface ip netmask : Text)
  deriving DecidableEq

/-- The saved object. -/
def NetworkConfig.json : NetworkConfig → Json
  | .dhcp => .obj [("mode".toList, .str "dhcp".toList)]
  | .static dns gateway interface ip netmask => .obj [
      ("dns".toList, .str dns), ("gateway".toList, .str gateway),
      ("interface".toList, .str interface), ("ip".toList, .str ip),
      ("mode".toList, .str "static".toList), ("netmask".toList, .str netmask)]

/-- `inet_pton(AF_INET, s.c_str(), ..)`. -/
def isIpv4 (s : Text) : Bool := Inet.pton4 (Text.cStr s)

/-- `inet_pton(AF_INET6, s.c_str(), ..)`. -/
def isIpv6 (s : Text) : Bool := Inet.pton6 (Text.cStr s)

/-- The checks of `network.set_ip`: a configuration, or the text of an error. An exception is
`none`. -/
def setIpConfig (args : Text) : Option (Except Text NetworkConfig) :=
  match Json.parse args with
  | none => some (.error "invalid JSON arguments")
  | some j => do
    let mode ← j.value Json.getString "mode" []
    if mode ≠ "dhcp".toList ∧ mode ≠ "static".toList then
      some (.error "mode must be 'dhcp' or 'static'")
    else if mode = "dhcp".toList then some (.ok .dhcp)
    else do
      let ip ← j.value Json.getString "ip" []
      if ip = [] then some (.error "ip is required for static mode")
      else if !isIpv4 ip then some (.error "invalid IP address format")
      else do
        let netmask ← j.value Json.getString "netmask" "255.255.255.0"
        let gateway ← j.value Json.getString "gateway" []
        let dns ← j.value Json.getString "dns" "8.8.8.8"
        let interface ← j.value Json.getString "interface" "eth0"
        if !isIpv4 netmask then some (.error "invalid netmask format")
        else if gateway ≠ [] ∧ !isIpv4 gateway then some (.error "invalid gateway format")
        else if !isIpv4 dns && !isIpv6 dns then some (.error "invalid DNS address format")
        else some (.ok (.static dns gateway interface ip netmask))

/-- The message to a configuration that is saved. -/
def appliedMessage : NetworkConfig → Text
  | .dhcp => "Switched to DHCP. Config saved; reboot to fully apply."
  | .static _ _ _ _ _ => "Static IP applied and saved."

/-- The reply to a configuration that is saved. -/
def appliedReply (config : NetworkConfig) : Json :=
  .obj [("config".toList, config.json), ("message".toList, .str (appliedMessage config)),
    ("status".toList, .str "applied".toList)]

/-- `handle_network_set_ip`: the text that is written to the file, if any, and the reply. -/
def handleNetworkSetIp (opens : Bool) (args : Text) : Option (Option Text × Text) := do
  match ← setIpConfig args with
  | .error message => do
    let reply ← (ToolRegistry.errorJson message).dump
    some (none, reply)
  | .ok config =>
    if opens then do
      let file ← config.json.dumpIndented 2
      let reply ← (appliedReply config).dump
      some (some file, reply)
    else do
      let reply ← (ToolRegistry.errorJson "cannot write network config".toList).dump
      some (none, reply)

/-! ### The reader -/

/-- `get_val`: the quoted text behind the colon behind the first quoted key. -/
def getVal (content key : Text) : Text :=
  match ((((Text.afterFirst (quoted '"' key) content).map (quoted '"' key ++ ·)).bind
    (Text.afterFirst [':'])).bind (Text.afterFirst ['"'])).bind (Text.splitFirst ['"']) with
  | some (value, _) => value
  | none => []

/-- What is applied at boot. -/
inductive BootNetwork
  | dhcp
  | missingIp
  | static (interface ip netmask gateway dns : Text)
  deriving DecidableEq

/-- The part of `init_apply_network_config` that reads the file. -/
def bootNetwork (content : Text) : BootNetwork :=
  let mode := if content = [] then "dhcp".toList else getVal content "mode"
  if mode ≠ "static".toList then .dhcp
  else
    let interface := getVal content "interface"
    let ip := getVal content "ip"
    let netmask := getVal content "netmask"
    if ip = [] then .missingIp
    else .static (if interface = [] then "eth0".toList else interface) ip
      (if netmask = [] then "255.255.255.0".toList else netmask) (getVal content "gateway")
      (getVal content "dns")

/-! ### The saved text -/

/-- The text of some fields, from the quote before the first of them on. -/
def fieldsText : List (Text × Text) → Text
  | [] => []
  | (k, v) :: fs =>
    quoted '"' k ++ (": ".toList ++ (Json.dumpString v ++
      if fs = [] then "\n\x7d".toList else ",\n  ".toList ++ fieldsText fs))

/-- The fields of a static configuration. -/
def staticFields (dns gateway interface ip netmask : Text) : List (Text × Text) :=
  [("dns".toList, dns), ("gateway".toList, gateway), ("interface".toList, interface),
    ("ip".toList, ip), ("mode".toList, "static".toList), ("netmask".toList, netmask)]

/-- Fields are written one a line. -/
theorem dumpMembers_fields {fs : List (Text × Text)}
    (hkeys : ∀ kv ∈ fs, Json.dumpString kv.1 = quoted '"' kv.1) :
    Json.dumpMembers (.indented 2) 1 (fs.map fun kv => (kv.1, .str kv.2)) ++ "\n\x7d".toList =
      if fs = [] then "\n\x7d".toList else ",\n  ".toList ++ fieldsText fs := by
  induction fs with
  | nil => rfl
  | cons kv fs ih =>
    obtain ⟨hkey, hkeys⟩ := List.forall_mem_cons.mp hkeys
    rw [if_neg (List.cons_ne_nil _ _), List.map_cons, Json.dumpMembers, Json.dumpAt, hkey,
      fieldsText, ← ih hkeys]
    simp only [List.cons_append, List.append_assoc]
    rfl

theorem dumpAt_static (dns gateway interface ip netmask : Text) :
    Json.dumpAt (.indented 2) 0 (NetworkConfig.static dns gateway interface ip netmask).json =
      "\x7b\n  ".toList ++ fieldsText (staticFields dns gateway interface ip netmask) := by
  have hkeys : ∀ kv ∈ staticFields dns gateway interface ip netmask,
      Json.dumpString kv.1 = quoted '"' kv.1 := by
    have hall : ∀ k ∈ ["dns".toList, "gateway".toList, "interface".toList, "ip".toList,
        "mode".toList, "netmask".toList], Json.dumpString k = quoted '"' k := by decide
    exact fun kv hkv => hall kv.1 (List.mem_map_of_mem hkv)
  obtain ⟨hkey, hrest⟩ := List.forall_mem_cons.mp hkeys
  have htext := dumpMembers_fields hrest
  have hjson : (NetworkConfig.static dns gateway interface ip netmask).json =
      .obj (("dns".toList, .str dns) :: (staticFields dns gateway interface ip netmask).tail.map
        fun kv => (kv.1, .str kv.2)) := rfl
  have hfields : fieldsText (staticFields dns gateway interface ip netmask) =
      quoted '"' "dns".toList ++ (": ".toList ++ (Json.dumpString dns ++
        (Json.dumpMembers (.indented 2) 1 ((staticFields dns gateway interface ip netmask).tail.map
          fun kv => (kv.1, .str kv.2)) ++ "\n\x7d".toList))) := by
    rw [staticFields, List.tail_cons, htext, fieldsText]
  have hkey : Json.dumpString "dns".toList = quoted '"' "dns".toList := hkey
  rw [hjson, Json.dumpAt, Json.dumpAt, hkey, hfields]
  simp only [List.append_assoc, List.cons_append]
  rfl

/-! ### Searching for a field -/

/-- The text between the quotes of a value, as far as the next quote. -/
def readBack (v : Text) : Text := (v.flatMap Json.escapeChar).takeWhile (· ≠ '"')

/-- What is escaped grows, and a quote is only written for a quote. -/
theorem escapeChar_grows {c : Char} (hc : ¬ Json.Plain c) (hquote : c ≠ '"') :
    2 ≤ (Json.escapeChar c).length ∧ '"' ∉ Json.escapeChar c := by
  have hcontrol : ∀ n < 0x20, 2 ≤ (Json.escapeChar (Char.ofNat n)).length ∧
      '"' ∉ Json.escapeChar (Char.ofNat n) := by decide
  by_cases hslash : c = '\\'
  · rw [hslash]
    decide
  · have hlow : c.toNat < 0x20 := Decidable.not_not.mp fun h => hc ⟨hquote, hslash, h⟩
    have h := hcontrol c.toNat hlow
    rwa [Char.ofNat_toNat] at h

theorem flatMap_escapeChar_of_plain {v : Text} (hv : ∀ c ∈ v, Json.Plain c) :
    v.flatMap Json.escapeChar = v := by
  induction v with
  | nil => rfl
  | cons c v ih =>
    obtain ⟨hc, hv⟩ := List.forall_mem_cons.mp hv
    rw [List.flatMap_cons, Json.escapeChar_of_plain hc, ih hv]
    rfl

theorem length_le_flatMap_escapeChar (v : Text) :
    v.length ≤ (v.flatMap Json.escapeChar).length := by
  induction v with
  | nil => exact le_rfl
  | cons c v ih =>
    obtain ⟨e, he⟩ : ∃ b e, Json.escapeChar c = b :: e := by
      by_cases hc : Json.Plain c
      · exact ⟨c, [], Json.escapeChar_of_plain hc⟩
      · obtain ⟨e, he, -⟩ := Json.escapeChar_of_not_plain hc
        exact ⟨'\\', e, he⟩
    obtain ⟨e, he⟩ := he
    rw [List.flatMap_cons, he]
    simp only [List.cons_append, List.length_cons, List.length_append]
    omega

theorem plain_of_flatMap_escapeChar {v : Text} (hquote : '"' ∉ v)
    (h : v.flatMap Json.escapeChar = v) : ∀ c ∈ v, Json.Plain c := by
  induction v with
  | nil => exact nofun
  | cons c v ih =>
    have hne : c ≠ '"' := fun heq => hquote (heq ▸ List.mem_cons_self)
    rw [List.flatMap_cons] at h
    by_cases hc : Json.Plain c
    · rw [Json.escapeChar_of_plain hc, List.singleton_append, List.cons.injEq] at h
      exact List.forall_mem_cons.mpr ⟨hc, ih (fun hmem => hquote (List.mem_cons_of_mem c hmem)) h.2⟩
    · have hlen := congrArg List.length h
      have hgrows := (escapeChar_grows hc hne).1
      have hle := length_le_flatMap_escapeChar v
      simp only [List.length_append, List.length_cons] at hlen
      omega

theorem readBack_of_not_mem {v : Text} (hquote : '"' ∉ v) :
    readBack v = v.flatMap Json.escapeChar := by
  refine List.takeWhile_eq_self_iff.mpr fun b hb => ?_
  obtain ⟨c, hc, hb⟩ := List.mem_flatMap.mp hb
  have hne : c ≠ '"' := fun heq => hquote (heq ▸ hc)
  refine decide_eq_true fun heq => ?_
  subst heq
  by_cases hplain : Json.Plain c
  · rw [Json.escapeChar_of_plain hplain] at hb
    exact hne (List.mem_singleton.mp hb).symm
  · exact (escapeChar_grows hplain hne).2 hb

/-- A value is read as it is where it is written as it is. -/
theorem readBack_eq_iff (v : Text) : readBack v = v ↔ ∀ c ∈ v, Json.Plain c := by
  constructor
  · intro h
    have hquote : '"' ∉ v := by
      intro hmem
      rw [← h] at hmem
      exact absurd (List.mem_takeWhile_imp hmem) (by simp)
    exact plain_of_flatMap_escapeChar hquote ((readBack_of_not_mem hquote).symm.trans h)
  · intro hv
    rw [readBack_of_not_mem fun hmem => (hv _ hmem).1 rfl, flatMap_escapeChar_of_plain hv]

theorem readBack_eq_nil_iff (v : Text) : readBack v = [] ↔ v = [] := by
  refine ⟨fun h => ?_, fun h => by rw [h]; rfl⟩
  cases v with
  | nil => rfl
  | cons c v =>
    obtain ⟨b, e, he, hb⟩ : ∃ b e, Json.escapeChar c = b :: e ∧ b ≠ '"' := by
      by_cases hc : Json.Plain c
      · exact ⟨c, [], Json.escapeChar_of_plain hc, hc.1⟩
      · obtain ⟨e, he, -⟩ := Json.escapeChar_of_not_plain hc
        exact ⟨'\\', e, he, by decide⟩
    rw [readBack, List.flatMap_cons, he, List.cons_append,
      List.takeWhile_cons_of_pos (by simpa using hb)] at h
    cases h

/-- What `get_val` makes of the text behind the quoted key. -/
def valueAfter (key : Text) (found : Option Text) : Text :=
  match (((found.map (quoted '"' key ++ ·)).bind (Text.afterFirst [':'])).bind
    (Text.afterFirst ['"'])).bind (Text.splitFirst ['"']) with
  | some (value, _) => value
  | none => []

theorem getVal_eq (content key : Text) :
    getVal content key = valueAfter key (Text.afterFirst (quoted '"' key) content) := rfl

/-- The next value behind a colon. -/
theorem valueAfter_colon {key u : Text} (hkey : ':' ∉ quoted '"' key) (hu : ':' ∉ u) (v r : Text) :
    valueAfter key (some (u ++ (": ".toList ++ (Json.dumpString v ++ r)))) = readBack v := by
  have hcolon : ':' ∉ quoted '"' key ++ u := List.mem_append.not.mpr (not_or.mpr ⟨hkey, hu⟩)
  have hfirst : Text.afterFirst [':'] (quoted '"' key ++ (u ++ (": ".toList ++
      (Json.dumpString v ++ r)))) =
        some ([' '] ++ '"' :: (v.flatMap Json.escapeChar ++ '"' :: r)) := by
    rw [← List.append_assoc]
    have htext : ": ".toList ++ (Json.dumpString v ++ r) =
        ':' :: ([' '] ++ '"' :: (v.flatMap Json.escapeChar ++ '"' :: r)) := by
      simp [Json.dumpString]
    rw [htext, Text.afterFirst_singleton hcolon]
  obtain ⟨rest, hrest⟩ := Text.splitFirst_singleton_append '"' (v.flatMap Json.escapeChar) r
  rw [valueAfter, Option.map_some, Option.bind_some, hfirst, Option.bind_some,
    Text.afterFirst_singleton (by decide), Option.bind_some, hrest]
  rfl

/-- A field whose name and value are other words is passed over. -/
theorem afterFirst_fieldsText_skip {key k v : Text} {fs : List (Text × Text)} (hfs : fs ≠ [])
    (hkey : '"' ∉ key) (hspace : ' ' ∉ key) (hk : '"' ∉ k) (hv : ∀ c ∈ v, Json.Plain c)
    (hne : k ≠ key) (hvne : v ≠ key) :
    Text.afterFirst (quoted '"' key) (fieldsText ((k, v) :: fs)) =
      Text.afterFirst (quoted '"' key) (fieldsText fs) := by
  have hquote : '"' ∉ v := fun hmem => (hv _ hmem).1 rfl
  have hgap : ∀ u : Text, ' ' ∈ u → u ≠ key := fun u hu heq => hspace (heq ▸ hu)
  have htext : fieldsText ((k, v) :: fs) = '"' :: (k ++ '"' :: (": ".toList ++ '"' :: (v ++ '"' ::
      (",\n  ".toList ++ fieldsText fs)))) := by
    rw [fieldsText, if_neg hfs, Json.dumpString, flatMap_escapeChar_of_plain hv]
    simp [quoted]
  obtain ⟨t, ht⟩ : ∃ t, fieldsText fs = '"' :: t := by
    cases fs with
    | nil => exact absurd rfl hfs
    | cons f fs => exact ⟨_, rfl⟩
  rw [htext, Text.afterFirst_quoted hkey hk, if_neg hne,
    Text.afterFirst_quoted hkey (by decide), if_neg (hgap _ (by decide)),
    Text.afterFirst_quoted hkey hquote, if_neg hvne, ht,
    Text.afterFirst_quoted hkey (by decide), if_neg (hgap _ (by decide))]

/-- A word that can name a field. -/
def IsWord (s : Text) : Prop := '"' ∉ s ∧ ' ' ∉ s ∧ ':' ∉ s

instance (s : Text) : Decidable (IsWord s) := inferInstanceAs (Decidable (_ ∧ _))

theorem IsWord.colon_not_mem {s : Text} (h : IsWord s) : ':' ∉ quoted '"' s := by
  have hquote : ':' ≠ '"' := by decide
  simp [quoted, h.2.2]

/-- The value that the search for a field ends with. -/
def searchField (fs : List (Text × Text)) (key : Text) : Text :=
  valueAfter key (Text.afterFirst (quoted '"' key) (fieldsText fs))

theorem fieldsText_cons (k v : Text) (fs : List (Text × Text)) :
    ∃ r, fieldsText ((k, v) :: fs) =
      '"' :: (k ++ '"' :: ([] ++ (": ".toList ++ (Json.dumpString v ++ r)))) := by
  refine ⟨if fs = [] then "\n\x7d".toList else ",\n  ".toList ++ fieldsText fs, ?_⟩
  rw [fieldsText]
  simp only [quoted, List.cons_append, List.append_assoc, List.nil_append]

theorem searchField_here {key : Text} (hkey : IsWord key) (v : Text) (fs : List (Text × Text)) :
    searchField ((key, v) :: fs) key = readBack v := by
  obtain ⟨r, hr⟩ := fieldsText_cons key v fs
  rw [searchField, hr, Text.afterFirst_quoted hkey.1 hkey.1, if_pos rfl]
  exact valueAfter_colon hkey.colon_not_mem List.not_mem_nil v r

theorem searchField_skip {key k v : Text} {fs : List (Text × Text)} (hkey : IsWord key)
    (hk : IsWord k) (hfs : fs ≠ []) (hv : ∀ c ∈ v, Json.Plain c) (hne : k ≠ key) (hvne : v ≠ key) :
    searchField ((k, v) :: fs) key = searchField fs key := by
  rw [searchField, afterFirst_fieldsText_skip hfs hkey.1 hkey.2.1 hk.1 hv hne hvne, searchField]

/-- A value that is mistaken for the name of a field leads to the value of the next field. -/
theorem searchField_value {key k k' v' : Text} {fs : List (Text × Text)} (hkey : IsWord key)
    (hk : IsWord k) (hk' : IsWord k') (hne : k ≠ key) (hplain : ∀ c ∈ key, Json.Plain c) :
    searchField ((k, key) :: (k', v') :: fs) key = readBack v' := by
  have htext : fieldsText ((k, key) :: (k', v') :: fs) = '"' :: (k ++ '"' :: (": ".toList ++
      '"' :: (key ++ '"' :: (",\n  ".toList ++ fieldsText ((k', v') :: fs))))) := by
    rw [fieldsText, if_neg (List.cons_ne_nil _ _), Json.dumpString,
      flatMap_escapeChar_of_plain hplain]
    simp [quoted]
  have hgap : ": ".toList ≠ key := fun heq => hkey.2.1 (heq ▸ by decide)
  obtain ⟨r, hr⟩ := fieldsText_cons k' v' fs
  have hcolon : ':' ∉ ",\n  ".toList ++ quoted '"' k' :=
    List.mem_append.not.mpr (not_or.mpr ⟨by decide, hk'.colon_not_mem⟩)
  have hnext : ",\n  ".toList ++ fieldsText ((k', v') :: fs) =
      (",\n  ".toList ++ quoted '"' k') ++ (": ".toList ++ (Json.dumpString v' ++ r)) := by
    rw [hr]
    simp [quoted]
  rw [searchField, htext, Text.afterFirst_quoted hkey.1 hk.1, if_neg hne,
    Text.afterFirst_quoted hkey.1 (by decide), if_neg hgap,
    Text.afterFirst_quoted hkey.1 hkey.1, if_pos rfl, hnext]
  exact valueAfter_colon hkey.colon_not_mem hcolon v' r

/-! ### Addresses -/

/-- An address that is written as it is, or nothing, is none of the names. -/
theorem ne_of_address {s word : Text} (hs : ∀ c ∈ s, Inet.isAddressChar c = true)
    (hword : word.all Inet.isAddressChar = false) : s ≠ word := by
  rintro rfl
  rw [List.all_eq_true.mpr hs] at hword
  cases hword

theorem zero_not_plain : ¬ Json.Plain (Char.ofNat 0) := by decide

theorem address_of_plain {s : Text} (hs : ∀ c ∈ s, Json.Plain c)
    (h : isIpv4 s = true ∨ isIpv6 s = true) : ∀ c ∈ s, Inet.isAddressChar c = true := by
  rw [isIpv4, isIpv6, Text.cStr_eq_self fun hmem => zero_not_plain (hs _ hmem)] at h
  exact Inet.addressChars_of_pton h

theorem ne_nil_of_isIpv4 {s : Text} (h : isIpv4 s = true) : s ≠ [] := by
  rintro rfl
  revert h
  decide

/-- What the checks have found out about a static configuration. -/
structure Checked (dns gateway ip netmask : Text) : Prop where
  dns : isIpv4 dns = true ∨ isIpv6 dns = true
  gateway : gateway = [] ∨ isIpv4 gateway = true
  ip : isIpv4 ip = true
  netmask : isIpv4 netmask = true

/-- What is saved: DHCP, or the values of the arguments, which have passed the checks. -/
theorem saved_of_setIpConfig {args : Text} {config : NetworkConfig}
    (h : setIpConfig args = some (.ok config)) :
    config = .dhcp ∨ ∃ j, Json.parse args = some j ∧ ∃ dns gateway interface ip netmask,
      j.value Json.getString "dns" "8.8.8.8" = some dns ∧
      j.value Json.getString "gateway" [] = some gateway ∧
      j.value Json.getString "interface" "eth0" = some interface ∧
      j.value Json.getString "ip" [] = some ip ∧
      j.value Json.getString "netmask" "255.255.255.0" = some netmask ∧
      Checked dns gateway ip netmask ∧ config = .static dns gateway interface ip netmask := by
  rw [setIpConfig] at h
  split at h
  · cases Option.some.inj h
  rename_i j hparse
  obtain ⟨mode, -, h⟩ := Option.bind_eq_some_iff.mp h
  by_cases hmode : mode ≠ "dhcp".toList ∧ mode ≠ "static".toList
  · rw [if_pos hmode] at h
    cases Option.some.inj h
  rw [if_neg hmode] at h
  by_cases hdhcp : mode = "dhcp".toList
  · rw [if_pos hdhcp] at h
    exact Or.inl (Except.ok.inj (Option.some.inj h)).symm
  rw [if_neg hdhcp] at h
  obtain ⟨ip, hip, h⟩ := Option.bind_eq_some_iff.mp h
  split_ifs at h with hempty hipv4
  · cases Option.some.inj h
  · cases Option.some.inj h
  obtain ⟨netmask, hnetmask, h⟩ := Option.bind_eq_some_iff.mp h
  obtain ⟨gateway, hgateway, h⟩ := Option.bind_eq_some_iff.mp h
  obtain ⟨dns, hdns, h⟩ := Option.bind_eq_some_iff.mp h
  obtain ⟨interface, hinterface, h⟩ := Option.bind_eq_some_iff.mp h
  split_ifs at h with hmask hgate hname
  · cases Option.some.inj h
  · cases Option.some.inj h
  · cases Option.some.inj h
  simp only [Bool.not_eq_true', Bool.not_eq_false] at hipv4 hmask
  have hchecked : Checked dns gateway ip netmask := by
    refine ⟨?_, ?_, hipv4, hmask⟩
    · simpa [imp_iff_not_or, or_comm] using hname
    · simpa [imp_iff_not_or] using hgate
  exact Or.inr ⟨j, hparse, dns, gateway, interface, ip, netmask, hdns, hgateway, hinterface, hip,
    hnetmask, hchecked, (Except.ok.inj (Option.some.inj h)).symm⟩

/-- A configuration that is saved has passed the checks. -/
theorem checked_of_setIpConfig {args dns gateway interface ip netmask : Text}
    (h : setIpConfig args = some (.ok (.static dns gateway interface ip netmask))) :
    Checked dns gateway ip netmask := by
  obtain heq | ⟨-, -, _, _, _, _, _, -, -, -, -, -, hchecked, heq⟩ := saved_of_setIpConfig h
  · cases heq
  · obtain ⟨rfl, rfl, -, rfl, rfl⟩ := NetworkConfig.static.inj heq
    exact hchecked

/-! ### Which configurations survive -/

section

variable {dns gateway interface ip netmask : Text}

/-- What a static configuration needs to be read back: values that are written as they are, and
an interface that is no name of a later field (or of one that does not matter). -/
structure Restorable (dns gateway interface ip netmask : Text) : Prop where
  plain : ∀ s ∈ [dns, gateway, interface, ip, netmask], ∀ c ∈ s, Json.Plain c
  mode : interface ≠ "mode".toList
  mask : interface = "netmask".toList → ip = netmask

theorem getVal_static (dns gateway interface ip netmask key : Text) :
    getVal ("\x7b\n  ".toList ++ fieldsText (staticFields dns gateway interface ip netmask)) key =
      searchField (staticFields dns gateway interface ip netmask) key := by
  rw [getVal_eq, Text.afterFirst_quoted_append (by decide), searchField]

/-- Fields whose values are written as they are are passed over. -/
theorem searchField_behind_gateway (hdns : ∀ c ∈ dns, Json.Plain c)
    (hgateway : ∀ c ∈ gateway, Json.Plain c) (h : Checked dns gateway ip netmask) {key : Text}
    (hword : IsWord key) (hneDns : "dns".toList ≠ key) (hneGateway : "gateway".toList ≠ key)
    (haddress : key.all Inet.isAddressChar = false) :
    searchField (staticFields dns gateway interface ip netmask) key =
      searchField ((staticFields dns gateway interface ip netmask).drop 2) key := by
  have hdnsNe := ne_of_address (address_of_plain hdns h.dns) haddress
  have hgatewayNe : gateway ≠ key := by
    rcases h.gateway with rfl | hip
    · exact ne_of_address nofun haddress
    · exact ne_of_address (address_of_plain hgateway (Or.inl hip)) haddress
  rw [staticFields, searchField_skip hword (by decide) (List.cons_ne_nil _ _) hdns hneDns hdnsNe,
    searchField_skip hword (by decide) (List.cons_ne_nil _ _) hgateway hneGateway hgatewayNe]
  rfl

theorem searchField_ip (hdns : ∀ c ∈ dns, Json.Plain c) (hgateway : ∀ c ∈ gateway, Json.Plain c)
    (hinterface : ∀ c ∈ interface, Json.Plain c) (h : Checked dns gateway ip netmask) :
    searchField (staticFields dns gateway interface ip netmask) "ip".toList = readBack ip := by
  have hword : IsWord "ip".toList := by decide
  rw [searchField_behind_gateway hdns hgateway h hword (by decide) (by decide) (by decide)]
  have hfields : (staticFields dns gateway interface ip netmask).drop 2 =
      ("interface".toList, interface) :: ("ip".toList, ip) :: ("mode".toList, "static".toList) ::
        [("netmask".toList, netmask)] := rfl
  rw [hfields]
  by_cases heq : interface = "ip".toList
  · rw [heq, searchField_value hword (by decide) hword (by decide) (by decide)]
  · rw [searchField_skip hword (by decide) (List.cons_ne_nil _ _) hinterface (by decide) heq,
      searchField_here hword]

/-- A field behind the address is hidden by an interface of its name. -/
theorem searchField_behind_ip (hdns : ∀ c ∈ dns, Json.Plain c)
    (hgateway : ∀ c ∈ gateway, Json.Plain c) (hinterface : ∀ c ∈ interface, Json.Plain c)
    (hip : ∀ c ∈ ip, Json.Plain c) (h : Checked dns gateway ip netmask) {key : Text}
    (hkey : key = "mode".toList ∨ key = "netmask".toList) :
    searchField (staticFields dns gateway interface ip netmask) key =
      if interface = key then readBack ip
      else if key = "mode".toList then "static".toList else readBack netmask := by
  have hword : IsWord key := by rcases hkey with rfl | rfl <;> decide
  have hplain : ∀ c ∈ key, Json.Plain c := by rcases hkey with rfl | rfl <;> decide
  have haddress : key.all Inet.isAddressChar = false := by rcases hkey with rfl | rfl <;> decide
  have hne : ∀ k ∈ ["dns".toList, "gateway".toList, "interface".toList, "ip".toList], k ≠ key := by
    rcases hkey with rfl | rfl <;> decide
  have hipNe := ne_of_address (address_of_plain hip (Or.inl h.ip)) haddress
  have hstatic : ∀ c ∈ "static".toList, Json.Plain c := by decide
  rw [searchField_behind_gateway hdns hgateway h hword (hne _ (by simp)) (hne _ (by simp)) haddress]
  have hfields : (staticFields dns gateway interface ip netmask).drop 2 =
      ("interface".toList, interface) :: ("ip".toList, ip) :: ("mode".toList, "static".toList) ::
        [("netmask".toList, netmask)] := rfl
  rw [hfields]
  split_ifs with hinterfaceEq hmode
  · rw [hinterfaceEq, searchField_value hword (by decide) (by decide) (hne _ (by simp)) hplain]
  · rw [searchField_skip hword (by decide) (List.cons_ne_nil _ _) hinterface (hne _ (by simp))
      hinterfaceEq, searchField_skip hword (by decide) (List.cons_ne_nil _ _) hip (hne _ (by simp))
      hipNe, hmode, searchField_here (by decide), (readBack_eq_iff _).mpr hstatic]
  · obtain rfl := hkey.resolve_left hmode
    rw [searchField_skip hword (by decide) (List.cons_ne_nil _ _) hinterface (hne _ (by simp))
      hinterfaceEq, searchField_skip hword (by decide) (List.cons_ne_nil _ _) hip (hne _ (by simp))
      hipNe, searchField_skip hword (by decide) (List.cons_ne_nil _ _) hstatic (by decide)
      (by decide), searchField_here hword]

theorem searchField_gateway (hdns : ∀ c ∈ dns, Json.Plain c) (h : Checked dns gateway ip netmask) :
    searchField (staticFields dns gateway interface ip netmask) "gateway".toList =
      readBack gateway := by
  have hword : IsWord "gateway".toList := by decide
  have hne : dns ≠ "gateway".toList :=
    ne_of_address (address_of_plain hdns h.dns) (by decide)
  rw [staticFields, searchField_skip hword (by decide) (List.cons_ne_nil _ _) hdns (by decide) hne,
    searchField_here hword]

theorem searchField_interface (hdns : ∀ c ∈ dns, Json.Plain c)
    (hgateway : ∀ c ∈ gateway, Json.Plain c) (h : Checked dns gateway ip netmask) :
    searchField (staticFields dns gateway interface ip netmask) "interface".toList =
      readBack interface := by
  have hword : IsWord "interface".toList := by decide
  rw [searchField_behind_gateway hdns hgateway h hword (by decide) (by decide) (by decide)]
  exact searchField_here hword interface _

/-- The address and the mask of a checked configuration are not empty. -/
theorem Checked.readBack_ne_nil (h : Checked dns gateway ip netmask) :
    readBack ip ≠ [] ∧ readBack netmask ≠ [] :=
  ⟨(readBack_eq_nil_iff ip).not.mpr (ne_nil_of_isIpv4 h.ip),
    (readBack_eq_nil_iff netmask).not.mpr (ne_nil_of_isIpv4 h.netmask)⟩

/-- The fields of a file that is read as a static configuration. -/
theorem bootNetwork_eq_static {content interface' ip' netmask' gateway' dns' : Text} :
    bootNetwork content = .static interface' ip' netmask' gateway' dns' ↔
      (if content = [] then "dhcp".toList else getVal content "mode") = "static".toList ∧
      getVal content "ip" ≠ [] ∧
      (if getVal content "interface" = [] then "eth0".toList
        else getVal content "interface") = interface' ∧
      getVal content "ip" = ip' ∧
      (if getVal content "netmask" = [] then "255.255.255.0".toList
        else getVal content "netmask") = netmask' ∧
      getVal content "gateway" = gateway' ∧ getVal content "dns" = dns' := by
  rw [bootNetwork]
  dsimp only
  generalize (if content = [] then "dhcp".toList else getVal content "mode") = mode
  generalize (if getVal content "interface" = [] then "eth0".toList
    else getVal content "interface") = interface
  generalize (if getVal content "netmask" = [] then "255.255.255.0".toList
    else getVal content "netmask") = netmask
  by_cases hmode : mode = "static".toList
  · rw [if_neg (not_not.mpr hmode)]
    by_cases hip : getVal content "ip" = []
    · rw [if_pos hip]
      exact iff_of_false nofun fun h => h.2.1 hip
    · rw [if_neg hip, BootNetwork.static.injEq]
      exact ⟨fun h => ⟨hmode, hip, h⟩, fun h => h.2.2⟩
  · rw [if_pos hmode]
    exact iff_of_false nofun fun h => hmode h.1

/-- The values of a static configuration that are read at boot. -/
theorem bootNetwork_static_iff (h : Checked dns gateway ip netmask) :
    bootNetwork ("\x7b\n  ".toList ++
        fieldsText (staticFields dns gateway interface ip netmask)) =
      .static (if interface = [] then "eth0".toList else interface) ip netmask gateway dns ↔
      Restorable dns gateway interface ip netmask := by
  have hdnsFound : searchField (staticFields dns gateway interface ip netmask) "dns".toList =
      readBack dns := searchField_here (by decide) dns _
  have hcontent : "\x7b\n  ".toList ++ fieldsText (staticFields dns gateway interface ip netmask) ≠
      [] := List.append_ne_nil_of_left_ne_nil (by decide) _
  rw [bootNetwork_eq_static, if_neg hcontent]
  simp only [getVal_static, hdnsFound]
  constructor
  · rintro ⟨hmode, -, hinterface, hip, hnetmask, hgateway, hdns⟩
    have hdns := (readBack_eq_iff dns).mp hdns
    rw [searchField_gateway hdns h] at hgateway
    have hgateway := (readBack_eq_iff gateway).mp hgateway
    rw [searchField_interface hdns hgateway h] at hinterface
    have hinterface : ∀ c ∈ interface, Json.Plain c := by
      refine (readBack_eq_iff interface).mp ?_
      by_cases hempty : interface = []
      · exact hempty ▸ rfl
      · rwa [if_neg hempty, if_neg ((readBack_eq_nil_iff interface).not.mpr hempty)] at hinterface
    rw [searchField_ip hdns hgateway hinterface h] at hip
    have hplainIp := (readBack_eq_iff ip).mp hip
    rw [searchField_behind_ip hdns hgateway hinterface hplainIp h (Or.inl rfl), if_pos rfl]
      at hmode
    rw [searchField_behind_ip hdns hgateway hinterface hplainIp h (Or.inr rfl),
      if_neg (by decide : ¬ "netmask".toList = "mode".toList), hip] at hnetmask
    have hmask : interface = "netmask".toList → ip = netmask := by
      intro heq
      rwa [if_pos heq, if_neg (ne_nil_of_isIpv4 h.ip)] at hnetmask
    have hplainMask : ∀ c ∈ netmask, Json.Plain c := by
      by_cases heq : interface = "netmask".toList
      · exact hmask heq ▸ hplainIp
      · rw [if_neg heq, if_neg h.readBack_ne_nil.2] at hnetmask
        exact (readBack_eq_iff netmask).mp hnetmask
    refine ⟨?_, fun heq => ?_, hmask⟩
    · simp only [List.forall_mem_cons]
      exact ⟨hdns, hgateway, hinterface, hplainIp, hplainMask, nofun⟩
    · -- the mode would be the address
      rw [if_pos heq, hip] at hmode
      exact ne_of_address (address_of_plain hplainIp (Or.inl h.ip)) (by decide) hmode
  · rintro ⟨hplain, hmode, hmask⟩
    simp only [List.forall_mem_cons] at hplain
    obtain ⟨hdns, hgateway, hinterface, hip, hnetmask, -⟩ := hplain
    have hread : ∀ v : Text, (∀ c ∈ v, Json.Plain c) → readBack v = v :=
      fun v hv => (readBack_eq_iff v).mpr hv
    rw [searchField_behind_ip hdns hgateway hinterface hip h (Or.inl rfl),
      searchField_behind_ip hdns hgateway hinterface hip h (Or.inr rfl), if_neg hmode, if_pos rfl,
      if_neg (by decide : ¬ "netmask".toList = "mode".toList),
      searchField_gateway hdns h, searchField_interface hdns hgateway h,
      searchField_ip hdns hgateway hinterface h, hread _ hdns, hread _ hgateway,
      hread _ hinterface, hread _ hip, hread _ hnetmask]
    have hmaskRead : (if interface = "netmask".toList then ip else netmask) = netmask := by
      split_ifs with heq
      · exact hmask heq
      · rfl
    rw [hmaskRead, if_neg (ne_nil_of_isIpv4 h.netmask)]
    exact ⟨rfl, ne_nil_of_isIpv4 h.ip, rfl, rfl, rfl, rfl, rfl⟩

end

/-- A saved configuration is found at boot as it was saved. -/
def RestoredAs : NetworkConfig → BootNetwork → Prop
  | .dhcp, boot => boot = .dhcp
  | .static dns gateway interface ip netmask, boot =>
    boot = .static (if interface = [] then "eth0".toList else interface) ip netmask gateway dns

/-- What `network.set_ip` saves when the file can be written is found at boot. -/
def SurvivesReboot (args : Text) : Prop :=
  ∀ config file reply, setIpConfig args = some (.ok config) →
    handleNetworkSetIp true args = some (some file, reply) → RestoredAs config (bootNetwork file)

/-- What a configuration needs to be found. -/
def NetworkConfig.Restorable : NetworkConfig → Prop
  | .dhcp => True
  | .static dns gateway interface ip netmask => Llamaste.Restorable dns gateway interface ip netmask

/-- The strings of a configuration come from parsed arguments. -/
theorem utf8_of_setIpConfig {args : Text} {config : NetworkConfig}
    (h : setIpConfig args = some (.ok config)) : config.json.utf8 = true := by
  obtain rfl | ⟨j, hparse, dns, gateway, interface, ip, netmask, hdns, hgateway, hinterface, hip,
    hnetmask, -, rfl⟩ := saved_of_setIpConfig h
  · decide
  have hj := Json.wellFormed_of_parse hparse
  have hkeys : ∀ k ∈ ["dns".toList, "gateway".toList, "interface".toList, "ip".toList,
      "mode".toList, "netmask".toList, "static".toList], Utf8.valid k = true := by decide
  have hmembers : ∀ kv ∈ staticFields dns gateway interface ip netmask,
      Utf8.valid kv.1 = true ∧ Utf8.valid kv.2 = true := by
    simp only [staticFields, List.forall_mem_cons]
    refine ⟨⟨hkeys _ (by simp), hj.valid_value (by decide) hdns⟩,
      ⟨hkeys _ (by simp), hj.valid_value (by decide) hgateway⟩,
      ⟨hkeys _ (by simp), hj.valid_value (by decide) hinterface⟩,
      ⟨hkeys _ (by simp), hj.valid_value (by decide) hip⟩,
      ⟨hkeys _ (by simp), hkeys _ (by simp)⟩,
      ⟨hkeys _ (by simp), hj.valid_value (by decide) hnetmask⟩, nofun⟩
  have hjson : (NetworkConfig.static dns gateway interface ip netmask).json =
      .obj ((staticFields dns gateway interface ip netmask).map fun kv => (kv.1, .str kv.2)) := rfl
  rw [hjson, Json.utf8_obj, List.all_map, List.all_eq_true]
  intro kv hkv
  obtain ⟨hk, hv⟩ := hmembers kv hkv
  simp [hk, hv]

/-- The file that is written for a configuration. -/
theorem handleNetworkSetIp_eq {args : Text} {config : NetworkConfig}
    (h : setIpConfig args = some (.ok config)) : ∃ reply, handleNetworkSetIp true args =
      some (some (Json.dumpAt (.indented 2) 0 config.json), reply) := by
  have hutf8 := utf8_of_setIpConfig h
  have hreply : (appliedReply config).utf8 = true := by
    have hkeys : ∀ k ∈ ["config".toList, "message".toList, "status".toList, "applied".toList],
        Utf8.valid k = true := by decide
    have hmessage : Utf8.valid (appliedMessage config) = true := by
      cases config
      · decide
      · change Utf8.valid "Static IP applied and saved.".toList = true
        decide
    rw [appliedReply, Json.utf8_obj]
    simp only [List.all_cons, List.all_nil, Json.utf8_str, hutf8, hmessage,
      hkeys _ List.mem_cons_self, hkeys "message".toList (by simp),
      hkeys "status".toList (by simp), hkeys "applied".toList (by simp), Bool.and_self]
  refine ⟨Json.dumpAt .compact 0 (appliedReply config), ?_⟩
  have hfile : config.json.dumpIndented 2 = some (Json.dumpAt (.indented 2) 0 config.json) :=
    if_pos hutf8
  have hdump : (appliedReply config).dump = some (Json.dumpAt .compact 0 (appliedReply config)) :=
    if_pos hreply
  simp only [handleNetworkSetIp, h, Option.bind_eq_bind, Option.bind_some, if_true, hfile, hdump]

/-- What a saved configuration needs to be found at boot. -/
theorem restoredAs_iff {args : Text} {config : NetworkConfig}
    (h : setIpConfig args = some (.ok config)) :
    RestoredAs config (bootNetwork (Json.dumpAt (.indented 2) 0 config.json)) ↔
      config.Restorable := by
  cases config with
  | dhcp =>
    refine iff_of_true ?_ trivial
    rw [RestoredAs]
    decide +kernel
  | static dns gateway interface ip netmask =>
    rw [RestoredAs, dumpAt_static]
    exact bootNetwork_static_iff (checked_of_setIpConfig h)

theorem restorable_of_survivesReboot {args : Text} (hsurvives : SurvivesReboot args)
    {config : NetworkConfig} (h : setIpConfig args = some (.ok config)) : config.Restorable := by
  obtain ⟨reply, hreply⟩ := handleNetworkSetIp_eq h
  exact (restoredAs_iff h).mp (hsurvives config _ reply h hreply)

/-- **Which configurations survive a reboot.** -/
theorem survivesReboot_iff (args : Text) : SurvivesReboot args ↔
    ∀ config, setIpConfig args = some (.ok config) → config.Restorable := by
  refine ⟨fun hsurvives config h => restorable_of_survivesReboot hsurvives h, ?_⟩
  intro hall config file reply h hreply
  obtain ⟨reply', hreply'⟩ := handleNetworkSetIp_eq h
  obtain ⟨hfile, -⟩ := Prod.mk.inj (Option.some.inj (hreply.symm.trans hreply'))
  obtain rfl := Option.some.inj hfile
  exact (restoredAs_iff h).mpr (hall config h)

/-- Arguments with an interface that has the name of a field. -/
def modeInterface : Text :=
  "\x7b\"mode\":\"static\",\"ip\":\"10.0.0.1\",\"interface\":\"mode\"\x7d".toList

/-- **A configuration may be lost**: the name of the interface is taken for a field. -/
theorem not_survivesReboot : ¬ ∀ args : Text, SurvivesReboot args := by
  intro h
  have hconfig : setIpConfig modeInterface = some (.ok (.static "8.8.8.8".toList [] "mode".toList
      "10.0.0.1".toList "255.255.255.0".toList)) := by decide +kernel
  exact (restorable_of_survivesReboot (h modeInterface) hconfig).mode rfl

end Llamaste
