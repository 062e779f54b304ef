import Mathlib
import Llamaste.Lib.TextSearch
import Llamaste.WifiConnect

/-!
# The credentials of a connection

A network that is added gets the SSID and the passphrase of the call. A saved one is selected as
it is, with the passphrase that was set once. Source: `wifi.cpp`.

## Main results

* `usesCredentials_iff`: a call that succeeds used its SSID and its passphrase exactly when the
  saved network that it finds has them already, and quoting keeps the passphrase.
* `keptChars_pskEsc_iff`: a passphrase that is read as it was sent is kept exactly when it has
  no quote and no backslash.
-/

namespace Llamaste

/-! ### SSIDs in hexadecimal -/

theorem idxOf_hexDigit : ∀ n < 16,
    "0123456789abcdef".toList.idxOf (Text.hexDigit n) = n := by decide

/-- An SSID of bytes is read back. -/
theorem unhex_hexChars {ssid : Text} (h : ∀ c ∈ ssid, c.toNat < 256) :
    unhex (ssid.flatMap hexChar) = ssid := by
  induction ssid with
  | nil => rfl
  | cons c ssid ih =>
    obtain ⟨hc, hssid⟩ := List.forall_mem_cons.mp h
    rw [List.flatMap_cons, hexChar, List.cons_append, List.cons_append, List.nil_append, unhex,
      idxOf_hexDigit _ (by omega), idxOf_hexDigit _ (Nat.mod_lt _ (by decide)), Nat.div_add_mod,
      Char.ofNat_toNat, ih hssid]

/-! ### Quoted passphrases -/

theorem length_le_escapeQuotes (s : Text) : s.length ≤ (escapeQuotes s).length := by
  induction s with
  | nil => exact Nat.le_refl 0
  | cons c s ih =>
    rw [escapeQuotes, List.flatMap_cons, List.length_append, ← escapeQuotes, List.length_cons]
    split <;> simp only [List.length_cons, List.length_nil] <;> omega

theorem escapeQuotes_eq_self_iff {s : Text} :
    escapeQuotes s = s ↔ ∀ c ∈ s, ¬ (c = '\\' ∨ c = '"') := by
  induction s with
  | nil => exact iff_of_true rfl fun c hc => nomatch hc
  | cons c s ih =>
    rw [escapeQuotes, List.flatMap_cons, ← escapeQuotes, List.forall_mem_cons, ← ih]
    split
    · next hc =>
      refine iff_of_false (fun heq => ?_) fun h => h.1 hc
      have hlen := congrArg List.length heq
      have hle := length_le_escapeQuotes s
      simp only [List.length_append, List.length_cons, List.length_nil] at hlen
      omega
    · next hc =>
      rw [List.singleton_append, List.cons.injEq]
      exact ⟨fun h => ⟨hc, h.2⟩, fun h => ⟨rfl, h.2⟩⟩

/-- What is escaped is sent. -/
theorem keptChars_pskEsc (psk : Text) : keptChars (pskEsc psk) = pskEsc psk := by
  refine List.filter_eq_self.mpr fun c hc => ?_
  obtain ⟨a, ha, hc⟩ := List.mem_flatMap.mp hc
  have hkept : ¬ a.toNat < 0x20 := by simpa using (List.mem_filter.mp ha).2
  split at hc
  · rcases List.mem_pair.mp hc with rfl | rfl
    · rfl
    · simpa using hkept
  · rw [List.mem_singleton.mp hc]
    simpa using hkept

/-- A passphrase that is read as it was sent is kept when there is nothing to escape. -/
theorem keptChars_pskEsc_iff {psk : Text} :
    keptChars (id (pskEsc psk)) = keptChars psk ↔ ∀ c ∈ psk, ¬ (c = '\\' ∨ c = '"') := by
  rw [id, keptChars_pskEsc, pskEsc, escapeQuotes_eq_self_iff]
  refine ⟨fun h c hc hquote => ?_, fun h c hc => h c (List.mem_of_mem_filter hc)⟩
  refine h c (List.mem_filter.mpr ⟨hc, ?_⟩) hquote
  rcases hquote with rfl | rfl <;> rfl

/-! ### The selected network -/

/-- A network has the SSID, and the passphrase or none; up to the characters that are not sent. -/
def HasCredentials (ssid psk : Text) (n : WpaNetwork) : Prop :=
  n.ssid = some ssid ∧
    if psk = [] then n.keyMgmtNone = true else n.psk.map keptChars = some (keptChars psk)

/-- A call that succeeds selected a network with these credentials. -/
def UsesCredentials (unquote : Text → Text) (ssid psk : Text) (d : WpaDaemon) : Prop :=
  ∀ r, (connect unquote ssid psk d r).1 = [] →
    ∃ id n, (connect unquote ssid psk d r).2.selected = some id ∧
      (connect unquote ssid psk d r).2.find id = some n ∧ HasCredentials ssid psk n

section

variable {unquote : Text → Text} {ssid psk : Text} {d : WpaDaemon} {r : Replies}

theorem find_withNew (d : WpaDaemon) (n : WpaNetwork) :
    (d.withNew n).find d.nextId = some n := by
  have hnone : d.networks.find? (·.1 = d.nextId) = none :=
    List.find?_eq_none.mpr fun m hm => by simpa using d.nextId_fresh m hm
  rw [WpaState.find, WpaDaemon.withNew, List.find?_append, hnone, Option.none_or,
    List.find?_singleton, if_pos (decide_eq_true rfl)]
  rfl

/-- Only a network that is configured is selected. -/
theorem find_isSome_iff {s : WpaState} {id : ℤ} :
    (s.find id).isSome ↔ ∃ n ∈ s.networks, n.1 = id := by
  rw [WpaState.find, Option.isSome_map, List.find?_isSome]
  simp

/-- A selection that succeeds. -/
theorem selectAndPoll_eq_nil_iff {created : Bool} {id : ℤ} {s : WpaState} :
    (selectAndPoll unquote created id s r).1 = [] ↔
      r.select = .ok ∧ (s.find id).isSome ∧ pollState r.status [] = "COMPLETED".toList := by
  rw [find_isSome_iff]
  by_cases h : r.select = .ok ∧ ∃ n ∈ s.networks, n.1 = id
  · obtain ⟨e, he, hpoll⟩ := selectAndPoll_of_ok unquote created h.1 h.2
    rw [hpoll]
    split
    · next hdone => exact iff_of_true rfl ⟨h.1, h.2, hdone⟩
    · next hnot => exact iff_of_false he fun hall => hnot hall.2.2
  · exact iff_of_false (selectAndPoll_of_refused unquote created h).1 fun hall =>
      h ⟨hall.1, hall.2.1⟩

theorem selectAndPoll_selected {created : Bool} {id : ℤ} {s : WpaState}
    (h : (selectAndPoll unquote created id s r).1 = []) :
    (selectAndPoll unquote created id s r).2 = { s with selected := some id } := by
  obtain ⟨hselect, hfind, hdone⟩ := selectAndPoll_eq_nil_iff.mp h
  obtain ⟨e, -, hpoll⟩ := selectAndPoll_of_ok unquote created hselect (find_isSome_iff.mp hfind)
  rw [hpoll, if_pos hdone]

end

/-! ### The list of networks -/

/-- A field that the list shows as it is. -/
structure IsField (t : Text) : Prop where
  noTab : '\t' ∉ t
  noBreak : '\n' ∉ t
  trimmed : strTrim t = t

/-- A network whose line can be read back. -/
structure Listed (d : WpaDaemon) (n : ℤ × WpaNetwork) : Prop where
  id_int : 0 ≤ n.1 ∧ n.1 < 2 ^ 31
  ssid : IsField (n.2.ssid.getD [])
  bssid : IsField (d.columns n.1).1
  bssid_ne : (d.columns n.1).1 ≠ []
  flags : '\n' ∉ (d.columns n.1).2

/-- The line of a network up to its flags. -/
def lineStart (d : WpaDaemon) (n : ℤ × WpaNetwork) : Text :=
  Json.dumpInt n.1 ++ '\t' :: (n.2.ssid.getD [] ++ '\t' :: (d.columns n.1).1)

section

variable {d : WpaDaemon} {n : ℤ × WpaNetwork}

theorem listLine_eq (d : WpaDaemon) (n : ℤ × WpaNetwork) :
    d.listLine n = lineStart d n ++ '\t' :: (d.columns n.1).2 ++ ['\n'] := by
  simp only [WpaDaemon.listLine, lineStart, List.append_assoc, List.cons_append]
  rfl

theorem Listed.noBreak_line (h : Listed d n) :
    '\n' ∉ lineStart d n ++ '\t' :: (d.columns n.1).2 := by
  have hid : '\n' ∉ Json.dumpInt n.1 := Strto.not_mem_dumpInt (by decide) _
  simp only [lineStart, List.mem_append, List.mem_cons, not_or]
  exact ⟨⟨hid, by decide, h.ssid.noBreak, by decide, h.bssid.noBreak⟩, by decide, h.flags⟩

/-- A line starts with a digit. -/
theorem dropWhile_lineStart (d : WpaDaemon) (n : ℤ × WpaNetwork) (t : Text) :
    (lineStart d n ++ t).dropWhile Json.isWs = lineStart d n ++ t := by
  obtain ⟨c, r, hcons, -⟩ := Json.dumpInt_head n.1
  have hc : Json.isWs c = false := isWs_dumpInt n.1 c (hcons ▸ List.mem_cons_self)
  rw [lineStart, hcons, List.cons_append, List.cons_append, List.dropWhile_cons_of_neg]
  rw [hc]
  exact Bool.false_ne_true

theorem getLast_lineStart (h : Listed d n) (hne : lineStart d n ≠ []) :
    Json.isWs ((lineStart d n).getLast hne) = false := by
  have hend : (lineStart d n).getLast? = (d.columns n.1).1.getLast? := by
    have hsplit : lineStart d n =
        (Json.dumpInt n.1 ++ '\t' :: (n.2.ssid.getD [] ++ ['\t'])) ++ (d.columns n.1).1 := by
      simp [lineStart]
    rw [hsplit, List.getLast?_append_of_ne_nil _ h.bssid_ne]
  have hmem : (lineStart d n).getLast hne ∈ (strTrim (d.columns n.1).1).getLast? := by
    rw [h.bssid.trimmed, ← hend]
    exact List.getLast?_eq_some_getLast hne
  exact Text.trim_ends (Or.inr hmem)

/-- The flags of a line are trimmed, and nothing else. -/
theorem strTrim_listed (h : Listed d n) :
    ∃ rest, strTrim (lineStart d n ++ '\t' :: (d.columns n.1).2) = lineStart d n ++ rest ∧
      (rest = [] ∨ ∃ flags, rest = '\t' :: flags) := by
  have hne : lineStart d n ≠ [] := by simp [lineStart]
  refine ⟨('\t' :: (d.columns n.1).2).rdropWhile Json.isWs, ?_, ?_⟩
  · rw [strTrim, Text.trim, dropWhile_lineStart,
      Text.rdropWhile_append_of_last hne (getLast_lineStart h hne)]
  · cases hrest : ('\t' :: (d.columns n.1).2).rdropWhile Json.isWs with
    | nil => exact Or.inl rfl
    | cons c flags =>
      have hpre := List.rdropWhile_prefix Json.isWs (l := '\t' :: (d.columns n.1).2)
      rw [hrest] at hpre
      exact Or.inr ⟨flags, by rw [(List.cons_prefix_cons.mp hpre).1]⟩

theorem strTrim_dumpInt (n : ℤ) : strTrim (Json.dumpInt n) = Json.dumpInt n :=
  Text.trim_eq_self fun c hc =>
    isWs_dumpInt n c (hc.elim List.mem_of_mem_head? List.mem_of_getLast?)

theorem strSplit_append {delim : Char} {u : Text} (hu : delim ∉ u) (m : ℕ) (v : Text) :
    strSplit delim (m + 1) (u ++ delim :: v) = u :: strSplit delim m v := by
  rw [strSplit, Text.splitFirst_singleton hu]

theorem strSplit_of_not_mem {delim : Char} {u : Text} (hu : delim ∉ u) (m : ℕ) :
    strSplit delim m u = [u] := by
  cases m with
  | zero => rfl
  | succ m =>
    rw [strSplit, Text.splitFirst_eq_none_iff.mpr (Text.singleton_infix_iff.not.mpr hu)]

/-- A line is read back. -/
theorem parseListLine_listed (h : Listed d n) {rest : Text}
    (hrest : rest = [] ∨ ∃ flags, rest = '\t' :: flags) :
    ∃ found, parseListLine (lineStart d n ++ rest) = some found ∧ found.networkId = n.1 ∧
      found.ssid = n.2.ssid.getD [] := by
  have hid : '\t' ∉ Json.dumpInt n.1 := Strto.not_mem_dumpInt (by decide) _
  have hsplit : ∃ flags, strSplit '\t' 3 (lineStart d n ++ rest) =
      Json.dumpInt n.1 :: n.2.ssid.getD [] :: (d.columns n.1).1 :: flags := by
    rw [lineStart, List.append_assoc, List.cons_append, List.append_assoc, List.cons_append,
      strSplit_append hid, strSplit_append h.ssid.noTab]
    rcases hrest with rfl | ⟨flags, rfl⟩
    · rw [List.append_nil, strSplit_of_not_mem h.bssid.noTab]
      exact ⟨[], rfl⟩
    · rw [strSplit_append h.bssid.noTab]
      exact ⟨_, rfl⟩
  obtain ⟨flags, hsplit⟩ := hsplit
  rw [parseListLine, hsplit]
  dsimp only
  rw [strTrim_dumpInt, Strto.stoi_dumpInt ⟨by have := h.id_int.1; omega, h.id_int.2⟩]
  exact ⟨_, rfl, rfl, h.ssid.trimmed⟩

/-- The first line with an SSID is that of the first network with it. -/
theorem find_parseListLine {networks : List (ℤ × WpaNetwork)} (h : ∀ n ∈ networks, Listed d n)
    (ssid : Text) :
    (((networks.map fun n => strTrim (lineStart d n ++ '\t' :: (d.columns n.1).2)).filterMap
        parseListLine).find? (·.ssid = ssid)).elim (-1) WiFiNetwork.networkId =
      (networks.find? (·.2.ssid.getD [] = ssid)).elim (-1) Prod.fst := by
  induction networks with
  | nil => rfl
  | cons n networks ih =>
    obtain ⟨hn, hnetworks⟩ := List.forall_mem_cons.mp h
    obtain ⟨rest, htrim, hrest⟩ := strTrim_listed hn
    obtain ⟨found, hparse, hid, hssid⟩ := parseListLine_listed hn hrest
    rw [List.map_cons, htrim, List.filterMap_cons_some hparse, List.find?_cons, List.find?_cons,
      hssid]
    cases decide (n.2.ssid.getD [] = ssid) with
    | true => exact hid
    | false => exact ih hnetworks

/-- The list is read line by line. -/
theorem parseListNetworks_listing (h : ∀ n ∈ d.networks, Listed d n) :
    parseListNetworks d.listing = (d.networks.map fun n =>
      strTrim (lineStart d n ++ '\t' :: (d.columns n.1).2)).filterMap parseListLine := by
  have hlines : Text.lines d.listing = "network id / ssid / bssid / flags".toList ::
      d.networks.map fun n => lineStart d n ++ '\t' :: (d.columns n.1).2 := by
    have hsplit := Text.lines_flatMap (List.forall_mem_cons.mpr
      ⟨(by decide : '\n' ∉ "network id / ssid / bssid / flags".toList),
        List.forall_mem_map.mpr fun n hn => (h n hn).noBreak_line⟩)
    rwa [List.flatMap_cons, List.flatMap_map,
      ← List.flatMap_congr fun n _ => listLine_eq d n] at hsplit
  have hkept : ∀ t ∈ d.networks.map fun n =>
      strTrim (lineStart d n ++ '\t' :: (d.columns n.1).2), decide (t ≠ []) = true := by
    refine List.forall_mem_map.mpr fun n hn => ?_
    obtain ⟨rest, htrim, -⟩ := strTrim_listed (h n hn)
    rw [htrim]
    simp [lineStart]
  have hheader : strTrim "network id / ssid / bssid / flags".toList ≠ [] := by decide
  rw [parseListNetworks, hlines, List.map_cons, List.filter_cons,
    if_pos (decide_eq_true hheader), List.tail_cons, List.map_map]
  exact congrArg _ (List.filter_eq_self.mpr hkept)

/-- The saved network is the first one with the SSID. -/
theorem savedId_listing (h : ∀ n ∈ d.networks, Listed d n) (hlen : d.listing.length ≤ 65535)
    (ssid : Text) :
    savedId ssid d.listing = (d.networks.find? (·.2.ssid.getD [] = ssid)).elim (-1) Prod.fst := by
  rw [savedId, received, List.take_of_length_le hlen, parseListNetworks_listing h]
  exact find_parseListLine h ssid

/-- Ids are not shared. -/
theorem find_of_mem {n : ℤ × WpaNetwork} (hn : n ∈ d.networks) : d.find n.1 = some n.2 := by
  obtain ⟨m, hm⟩ := Option.isSome_iff_exists.mp
    (List.find?_isSome.mpr ⟨n, hn, decide_eq_true rfl⟩ : (d.networks.find? (·.1 = n.1)).isSome)
  have hid : m.1 = n.1 := by simpa using List.find?_some hm
  have heq := List.inj_on_of_nodup_map d.ids_nodup (List.mem_of_find?_eq_some hm) hn hid
  rw [WpaState.find, hm, heq]
  rfl

/-- The saved network that is found has the credentials. -/
def SavedHas (ssid psk : Text) (d : WpaDaemon) : Prop :=
  0 ≤ savedId ssid d.listing → ∀ n, d.find (savedId ssid d.listing) = some n →
    HasCredentials ssid psk n

/-- Where the list shows the SSIDs as they are, that is the first network with the SSID. -/
theorem savedHas_iff_of_listed (h : ∀ n ∈ d.networks, Listed d n)
    (hlen : d.listing.length ≤ 65535) (ssid psk : Text) :
    SavedHas ssid psk d ↔ ∀ n, d.networks.find? (·.2.ssid.getD [] = ssid) = some n →
      HasCredentials ssid psk n.2 := by
  rw [SavedHas, savedId_listing h hlen]
  cases hfind : d.networks.find? (·.2.ssid.getD [] = ssid) with
  | none => exact iff_of_true (fun hle => absurd hle (by decide)) fun n hn => nomatch hn
  | some n =>
    have hn := List.mem_of_find?_eq_some hfind
    rw [Option.elim_some, find_of_mem hn]
    constructor
    · rintro hsaved m ⟨⟩
      exact hsaved (h n hn).id_int.1 n.2 rfl
    · rintro hfirst - m ⟨⟩
      exact hfirst n rfl

end

section

variable {unquote : Text → Text} {ssid psk : Text} {d : WpaDaemon} {r : Replies}

/-! ### The two paths -/

/-- A network that is added has the credentials if quoting keeps the passphrase. -/
theorem hasCredentials_configured (hssid : ∀ c ∈ ssid, c.toNat < 256) :
    HasCredentials ssid psk (configured unquote ssid psk) ↔
      (psk ≠ [] → keptChars (unquote (pskEsc psk)) = keptChars psk) := by
  rw [HasCredentials, configured, withPsk, unhex_hexChars hssid]
  by_cases hpsk : psk = []
  · rw [if_pos hpsk, if_pos hpsk]
    exact iff_of_true ⟨rfl, rfl⟩ fun hne => absurd hpsk hne
  · rw [if_neg hpsk, if_neg hpsk]
    exact ⟨fun h _ => Option.some.inj h.2, fun h => ⟨rfl, congrArg some (h hpsk)⟩⟩

/-- Only a list that is received has a saved network. -/
theorem list_of_saved (h : 0 ≤ savedId ssid (d.answerList r.list)) :
    d.answerList r.list = d.listing := by
  cases hlist : r.list with
  | ok => rfl
  | fail =>
    have hnone : savedId ssid "FAIL\n".toList = -1 := rfl
    rw [hlist, WpaDaemon.answerList, hnone] at h
    exact absurd h (by decide)
  | lost done =>
    have hnone : savedId ssid [] = -1 := rfl
    rw [hlist, WpaDaemon.answerList, hnone] at h
    exact absurd h (by decide)

/-- What a call that succeeds selected. -/
theorem connect_selected (h : (connect unquote ssid psk d r).1 = []) :
    (∃ n, 0 ≤ savedId ssid d.listing ∧ d.find (savedId ssid d.listing) = some n ∧
      (connect unquote ssid psk d r).2 =
        { d.toWpaState with selected := some (savedId ssid d.listing) }) ∨
    (connect unquote ssid psk d r).2 =
      { d.withNew (configured unquote ssid psk) with selected := some d.nextId } := by
  have hwifi : r.hasWifi = true := by
    by_contra hno
    rw [connect, if_pos (by simpa using hno)] at h
    exact absurd h (by simp)
  have hrunning : r.running = true := by
    by_contra hno
    rw [connect, if_neg (by simpa using hwifi), if_pos (by simpa using hno)] at h
    exact absurd h (by simp)
  rcases Int.lt_or_le (savedId ssid (d.answerList r.list)) 0 with hnot | hsaved
  · refine Or.inr ?_
    rw [connect_of_notSaved hwifi hrunning hnot] at h ⊢
    by_cases hadd : r.add = .ok
    swap
    · obtain ⟨e, he, hcreate⟩ := createNetwork_of_ne_ok unquote ssid psk d hadd
      rw [hcreate] at h
      exact absurd h he
    by_cases hset : r.ssid = .ok ∧ r.credentials = .ok
    · rw [createNetwork_configured unquote hadd hset.1 hset.2] at h ⊢
      exact selectAndPoll_selected h
    · obtain ⟨e, n, he, hcreate⟩ := createNetwork_leftBehind unquote hadd hset
      rw [hcreate] at h
      exact absurd h he
  · rw [connect_of_saved hwifi hrunning hsaved] at h ⊢
    have hlist := list_of_saved hsaved
    rw [hlist] at h hsaved ⊢
    obtain ⟨n, hn⟩ := Option.isSome_iff_exists.mp (selectAndPoll_eq_nil_iff.mp h).2.1
    exact Or.inl ⟨n, hsaved, hn, selectAndPoll_selected h⟩

/-- Replies that a call succeeds with. -/
def succeeding (list : Outcome) : Replies where
  list := list
  status := ["wpa_state=COMPLETED\n".toList]

theorem selectAndPoll_succeeding {created : Bool} {id : ℤ} {s : WpaState} {list : Outcome}
    (h : (s.find id).isSome) :
    selectAndPoll unquote created id s (succeeding list) =
      ([], { s with selected := some id }) := by
  have hdone : pollState ["wpa_state=COMPLETED\n".toList] [] = "COMPLETED".toList := by
    decide +kernel
  have hnil : (selectAndPoll unquote created id s (succeeding list)).1 = [] :=
    selectAndPoll_eq_nil_iff.mpr ⟨rfl, h, hdone⟩
  exact Prod.ext hnil (selectAndPoll_selected hnil)

/-- A call adds a network when it gets no list. -/
theorem connect_succeeding_lost :
    connect unquote ssid psk d (succeeding (.lost false)) =
      ([], { d.withNew (configured unquote ssid psk) with selected := some d.nextId }) := by
  have hnone : savedId ssid (d.answerList (succeeding (.lost false)).list) = -1 := rfl
  rw [connect_of_notSaved rfl rfl (by rw [hnone]; decide),
    createNetwork_configured unquote rfl rfl rfl]
  exact selectAndPoll_succeeding (by rw [find_withNew]; rfl)

/-- A call selects the saved network that it finds. -/
theorem connect_succeeding_ok (unquote : Text → Text) (psk : Text) {n : WpaNetwork}
    (hsaved : 0 ≤ savedId ssid d.listing) (hfind : d.find (savedId ssid d.listing) = some n) :
    connect unquote ssid psk d (succeeding .ok) =
      ([], { d.toWpaState with selected := some (savedId ssid d.listing) }) := by
  have hlist : d.answerList (succeeding .ok).list = d.listing := rfl
  rw [connect_of_saved rfl rfl (by rwa [hlist]), hlist]
  exact selectAndPoll_succeeding (by rw [hfind]; rfl)

/-- **A call that succeeds used its credentials** exactly when the saved network that it finds has
them already, and quoting keeps the passphrase. -/
theorem usesCredentials_iff (unquote : Text → Text) {ssid : Text}
    (hssid : ∀ c ∈ ssid, c.toNat < 256) (psk : Text) (d : WpaDaemon) :
    UsesCredentials unquote ssid psk d ↔
      (psk ≠ [] → keptChars (unquote (pskEsc psk)) = keptChars psk) ∧ SavedHas ssid psk d := by
  rw [← hasCredentials_configured hssid]
  constructor
  · intro h
    constructor
    · obtain ⟨id, n, hselected, hfind, hhas⟩ := h (succeeding (.lost false))
        (by rw [connect_succeeding_lost])
      rw [connect_succeeding_lost] at hselected hfind
      obtain rfl := Option.some.inj hselected
      obtain rfl := Option.some.inj ((find_withNew d _).symm.trans hfind)
      exact hhas
    · intro hsaved m hm
      obtain ⟨id, n, hselected, hfind, hhas⟩ := h (succeeding .ok)
        (by rw [connect_succeeding_ok unquote psk hsaved hm])
      rw [connect_succeeding_ok unquote psk hsaved hm] at hselected hfind
      obtain rfl := Option.some.inj hselected
      obtain rfl := Option.some.inj (hm.symm.trans hfind)
      exact hhas
  · rintro ⟨hnew, hsaved⟩ r hr
    rcases connect_selected hr with ⟨n, hle, hn, hstate⟩ | hstate
    · exact ⟨_, n, by rw [hstate], by rw [hstate]; exact hn, hsaved hle n hn⟩
    · exact ⟨_, _, by rw [hstate], by rw [hstate]; exact find_withNew d _, hnew⟩

/-- The first network is added. -/
theorem usesCredentials_first : UsesCredentials id "home".toList "pass phrase".toList noNetworks :=
  (usesCredentials_iff id (by decide) _ _).mpr
    ⟨fun _ => keptChars_pskEsc_iff.mpr (by decide),
      fun hle => absurd hle (by decide +kernel)⟩

/-- A network that was saved with its passphrase. -/
def savedHome : WpaDaemon where
  networks := [(0, { ssid := some "home".toList, psk := some "old passphrase".toList })]
  nextId := 1
  ids_nodup := List.nodup_singleton 0
  nextId_int := by decide
  nextId_fresh := by simp

/-- A new passphrase is not used. -/
theorem not_usesCredentials : ¬ ∀ (unquote : Text → Text) (ssid psk : Text) (d : WpaDaemon),
    (∀ c ∈ ssid, c.toNat < 256) → UsesCredentials unquote ssid psk d := fun h => by
  have hsaved : savedId "home".toList savedHome.listing = 0 := by decide +kernel
  have hfind : savedHome.find (savedId "home".toList savedHome.listing) =
      some { ssid := some "home".toList, psk := some "old passphrase".toList } := by
    rw [hsaved]
    rfl
  have hle : 0 ≤ savedId "home".toList savedHome.listing := hsaved ▸ Int.le_refl 0
  have hconnect := connect_succeeding_ok id "new passphrase".toList hle hfind
  obtain ⟨id, n, hselected, hfound, -, hpsk⟩ :=
    h id "home".toList "new passphrase".toList savedHome (by decide) (succeeding .ok)
      (by rw [hconnect])
  rw [hconnect] at hselected hfound
  obtain rfl := Option.some.inj hselected
  obtain rfl := Option.some.inj (hfind.symm.trans hfound)
  revert hpsk
  decide

end

end Llamaste
