import Llamaste.Lib.BlockScan
import Llamaste.Lib.LastMatch
import Llamaste.Lib.Strongest
import Llamaste.Lib.TextSearch
import Llamaste.Wifi

/-!
# Scanning for Wi-Fi networks

The output of `iw scan` is read by two parsers, that of the supervisor and that of the Wi-Fi
manager. Both read blocks of lines, keep the strongest block of each SSID and sort what they kept.
Only the manager reads the frequency. Sources: `supervisor.cpp`, `wifi.cpp`.

## Main results

* `map_bss_supervisorScanWifi`, `map_bss_iwScan`: what a parser lists is what it keeps of its
  blocks.
* `scans_agree`: the parsers list the same SSIDs and signals, each SSID once with its strongest
  block, and the same security unless a frequency names authentication suites.
-/

namespace Llamaste

/-! ### Lines -/

/-- The places at which the lines of a text start, each with all the text from there. -/
def lineStarts : Bool → Text → List Text
  | _, [] => []
  | true, c :: s => (c :: s) :: lineStarts (c = '\n') s
  | false, c :: s => lineStarts (c = '\n') s

/-- The text up to the end of the line. -/
def lineAt (s : Text) : Text := s.takeWhile (· ≠ '\n')

/-- The text behind the indentation of a line. -/
def unindent (s : Text) : Text := s.dropWhile fun c => c = ' ' || c = '\t'

/-- A line that starts a block. -/
def isBss (s : Text) : Bool := "BSS ".toList.isPrefixOf (lineAt s)

/-- A line that has something behind a label. -/
def hasLabel (label line : Text) : Bool := label.length < line.length && label.isPrefixOf line

/-- A text occurs in a line. -/
def occursIn (pat line : Text) : Bool := (Text.afterFirst pat line).isSome

/-- An SSID without blanks and carriage returns behind it. -/
def trimSsid (s : Text) : Text := s.rdropWhile fun c => c = ' ' || c = '\r'

/-- A line about the protection of a network. -/
def isProtection (line : Text) : Bool :=
  "RSN:".toList.isPrefixOf line || "WPA:".toList.isPrefixOf line

/-- A line that names authentication suites of an enterprise network. -/
def namesEap (line : Text) : Bool :=
  occursIn "Authentication suites:" line && (occursIn "802.1X" line || occursIn "EAP" line)

/-! ### The parser of the supervisor -/

/-- The block that is read. -/
structure SupervisorBss where
  curSsid : Text := []
  curSignal : ℤ := -100
  curPrivacy : Bool := false
  curIsEap : Bool := false

/-- `WifiEntry`. -/
structure WifiEntry where
  ssid : Text
  flags : Text
  signalDb : ℤ

namespace SupervisorBss

/-- A line of a block is read. -/
def read (b : SupervisorBss) (start : Text) : SupervisorBss :=
  let tp := unindent start
  let line := lineAt tp
  if line = [] then b
  else if hasLabel "SSID: " line then { b with curSsid := trimSsid (line.drop 6) }
  else if hasLabel "signal: " line then { b with curSignal := Strto.atoi (tp.drop 8) }
  else if hasLabel "capability: " line then
    if occursIn "Privacy" (line.drop 12) then { b with curPrivacy := true } else b
  else if isProtection line then { b with curPrivacy := true }
  else if namesEap line then { b with curIsEap := true }
  else b

/-- The network of a block. -/
def entry (b : SupervisorBss) : WifiEntry where
  ssid := b.curSsid
  flags := if !b.curPrivacy then "[Open]" else if b.curIsEap then "[WPA-EAP]" else "[WPA-PSK]"
  signalDb := b.curSignal

/-- The network of a block is kept. -/
def flush (nets : List WifiEntry) (b : SupervisorBss) : List WifiEntry :=
  if b.curSsid = [] then nets else Strongest.keep WifiEntry.ssid WifiEntry.signalDb nets b.entry

end SupervisorBss

/-- The lines that the supervisor reads. -/
def supervisorReader : BlockScan Text SupervisorBss (List WifiEntry) where
  isHead := isBss
  start _ := {}
  read := SupervisorBss.read
  flush := SupervisorBss.flush

/-- `supervisor_scan_wifi`, from the output of `iw` on. -/
def supervisorScanWifi (sort : KeySort fun e : WifiEntry => -e.signalDb) (raw : Text) :
    List WifiEntry :=
  sort.sort (supervisorReader.run [] (lineStarts true (Text.cStr raw)))

/-! ### The parser of the Wi-Fi manager -/

/-- The block that is read. -/
structure IwBss where
  curSsid : Text := []
  curBssid : Text := []
  curSignal : ℤ := -100
  curFreq : ℤ := 0
  curPrivacy : Bool := false
  curIsEap : Bool := false

namespace IwBss

/-- A block starts with its BSSID. -/
def ofLine (start : Text) : IwBss where
  curBssid := ((lineAt start).drop 4).takeWhile fun c => c ≠ '(' && c ≠ ' '

/-- A line of a block is read. -/
def read (b : IwBss) (start : Text) : IwBss :=
  let tp := unindent start
  let line := lineAt tp
  if line = [] then b
  else if hasLabel "SSID: " line then { b with curSsid := trimSsid (line.drop 6) }
  else if hasLabel "signal: " line then { b with curSignal := Strto.atoi (tp.drop 8) }
  else if hasLabel "freq: " line then { b with curFreq := Strto.atoi (tp.drop 6) }
  else if hasLabel "capability: " line then
    if occursIn "Privacy" (line.drop 12) then { b with curPrivacy := true } else b
  else if isProtection line then { b with curPrivacy := true }
  else if namesEap line then { b with curIsEap := true }
  else b

/-- The network of a block. -/
def network (b : IwBss) : WiFiNetwork where
  ssid := b.curSsid
  bssid := b.curBssid
  signalDbm := b.curSignal
  freqMhz := b.curFreq
  security := if !b.curPrivacy then "OPEN" else if b.curIsEap then "WPA2-EAP" else "WPA2-PSK"

/-- The network of a block is kept. -/
def flush (nets : List WiFiNetwork) (b : IwBss) : List WiFiNetwork :=
  if b.curSsid = [] then nets
  else Strongest.keep WiFiNetwork.ssid WiFiNetwork.signalDbm nets b.network

end IwBss

/-- The lines that the manager reads. -/
def iwReader : BlockScan Text IwBss (List WiFiNetwork) where
  isHead := isBss
  start := IwBss.ofLine
  read := IwBss.read
  flush := IwBss.flush

/-- `iw_scan`, from the output of `iw` on. -/
def iwScan (sort : KeySort fun n : WiFiNetwork => -n.signalDbm) (raw : Text) : List WiFiNetwork :=
  if !occursIn "BSS " raw then []
  else sort.sort (iwReader.run [] (lineStarts true (Text.cStr raw)))

/-! ### Blocks -/

/-- What a scan says about a network. -/
structure Bss where
  ssid : Text
  signal : ℤ
  security : Text
  deriving DecidableEq

section

variable (start : Text)

/-- The SSID that a line gives. -/
def ssidValue : Option Text :=
  let line := lineAt (unindent start)
  if hasLabel "SSID: " line then some (trimSsid (line.drop 6)) else none

/-- The signal that a line gives. -/
def signalValue : Option ℤ :=
  if hasLabel "signal: " (lineAt (unindent start)) then
    some (Strto.atoi ((unindent start).drop 8))
  else none

/-- A line of a network that is protected. -/
def isPrivate : Bool :=
  let line := lineAt (unindent start)
  hasLabel "capability: " line && occursIn "Privacy" (line.drop 12) || isProtection line

/-- A line of an enterprise network, to the supervisor. -/
def isEnterprise : Bool :=
  let line := lineAt (unindent start)
  !(hasLabel "SSID: " line || hasLabel "signal: " line || hasLabel "capability: " line ||
    isProtection line) && namesEap line

/-- A frequency. -/
def isFreq : Bool := hasLabel "freq: " (lineAt (unindent start))

/-- A line of an enterprise network, to the manager. -/
def isEnterpriseIw : Bool := !isFreq start && isEnterprise start

end

/-- A block by its lines: the last SSID and the last signal, and the security. -/
def bssOf (enterprise : Text → Bool) (lines : List Text) : Bss where
  ssid := (lines.filterMap ssidValue).getLast?.getD []
  signal := (lines.filterMap signalValue).getLast?.getD (-100)
  security :=
    if !lines.any isPrivate then "OPEN"
    else if lines.any enterprise then "WPA2-EAP" else "WPA2-PSK"

/-- The blocks of a text, without their first lines. -/
def bssLines (raw : Text) : List (List Text) :=
  (BlockScan.blocks isBss (lineStarts true (Text.cStr raw))).map Prod.snd

/-! ### The lines of a block -/

section

variable {label line : Text} {c : Char}

theorem head_of_isPrefixOf (hc : label.head? = some c) (h : label.isPrefixOf line = true) :
    line.head? = some c := by
  obtain ⟨rest, rfl⟩ := List.isPrefixOf_iff_prefix.mp h
  rw [List.head?_append, hc]
  rfl

/-- Labels that start differently are not on one line. -/
theorem hasLabel_eq_false (hc : label.head? = some c) (hne : line.head? ≠ some c) :
    hasLabel label line = false :=
  Bool.eq_false_iff.mpr fun h => hne (head_of_isPrefixOf hc (Bool.and_eq_true_iff.mp h).2)

theorem head_of_isProtection (h : isProtection line = true) :
    line.head? = some 'R' ∨ line.head? = some 'W' :=
  (Bool.or_eq_true_iff.mp h).imp (head_of_isPrefixOf rfl) (head_of_isPrefixOf rfl)

theorem isProtection_eq_false (hR : line.head? ≠ some 'R') (hW : line.head? ≠ some 'W') :
    isProtection line = false :=
  Bool.eq_false_iff.mpr fun h => (head_of_isProtection h).elim hR hW

theorem ne_nil_of_hasLabel (h : hasLabel label line = true) : line ≠ [] := by
  rintro rfl
  exact absurd (of_decide_eq_true (Bool.and_eq_true_iff.mp h).1) (Nat.not_lt_zero _)

end

namespace SupervisorBss

variable (b : SupervisorBss) (start : Text)

theorem read_curSsid : (b.read start).curSsid = (ssidValue start).getD b.curSsid := by
  rw [read, ssidValue]
  by_cases hssid : hasLabel "SSID: " (lineAt (unindent start)) = true
  · simp only [if_neg (ne_nil_of_hasLabel hssid), if_pos hssid]
    rfl
  · simp only [if_neg hssid]
    split_ifs <;> rfl

theorem read_curSignal : (b.read start).curSignal = (signalValue start).getD b.curSignal := by
  rw [read, signalValue]
  by_cases hsignal : hasLabel "signal: " (lineAt (unindent start)) = true
  · have hhead : (lineAt (unindent start)).head? = some 's' :=
      head_of_isPrefixOf rfl (Bool.and_eq_true_iff.mp hsignal).2
    have hssid : hasLabel "SSID: " (lineAt (unindent start)) = false :=
      hasLabel_eq_false rfl (by rw [hhead]; decide)
    simp only [if_neg (ne_nil_of_hasLabel hsignal), if_pos hsignal, hssid, Bool.false_eq_true,
      if_false]
    rfl
  · simp only [if_neg hsignal]
    split_ifs <;> rfl

theorem read_curPrivacy :
    (b.read start).curPrivacy = (b.curPrivacy || isPrivate start) := by
  rw [read, isPrivate]
  by_cases hcap : hasLabel "capability: " (lineAt (unindent start)) = true
  · have hhead : (lineAt (unindent start)).head? = some 'c' :=
      head_of_isPrefixOf rfl (Bool.and_eq_true_iff.mp hcap).2
    have hssid : hasLabel "SSID: " (lineAt (unindent start)) = false :=
      hasLabel_eq_false rfl (by rw [hhead]; decide)
    have hsignal : hasLabel "signal: " (lineAt (unindent start)) = false :=
      hasLabel_eq_false rfl (by rw [hhead]; decide)
    have hprot : isProtection (lineAt (unindent start)) = false :=
      isProtection_eq_false (by rw [hhead]; decide) (by rw [hhead]; decide)
    simp only [if_neg (ne_nil_of_hasLabel hcap), hssid, hsignal, hcap, hprot, Bool.false_eq_true,
      if_false, if_true, Bool.true_and, Bool.or_false]
    split_ifs with hprivacy
    · rw [hprivacy, Bool.or_true]
    · rw [Bool.eq_false_iff.mpr hprivacy, Bool.or_false]
  by_cases hprot : isProtection (lineAt (unindent start)) = true
  · have hhead := head_of_isProtection hprot
    have hne : lineAt (unindent start) ≠ [] := by
      intro hnil
      rw [hnil] at hhead
      exact absurd hhead (by decide)
    have hssid : hasLabel "SSID: " (lineAt (unindent start)) = false :=
      hasLabel_eq_false rfl (by rcases hhead with h | h <;> rw [h] <;> decide)
    have hsignal : hasLabel "signal: " (lineAt (unindent start)) = false :=
      hasLabel_eq_false rfl (by rcases hhead with h | h <;> rw [h] <;> decide)
    simp only [if_neg hne, hssid, hsignal, hcap, hprot, Bool.false_eq_true, if_false, if_true,
      Bool.or_true]
  · rw [Bool.eq_false_iff.mpr hcap, Bool.eq_false_iff.mpr hprot, Bool.false_and, Bool.or_self,
      Bool.or_false]
    simp only [Bool.false_eq_true, if_false]
    split_ifs <;> rfl

theorem read_curIsEap : (b.read start).curIsEap = (b.curIsEap || isEnterprise start) := by
  rw [read, isEnterprise]
  split_ifs with hnil hssid hsignal hcap hprivacy hprot heap
  · rw [hnil]
    exact (Bool.or_false _).symm
  · rw [hssid]
    exact (Bool.or_false _).symm
  · rw [hsignal, Bool.or_true]
    exact (Bool.or_false _).symm
  · rw [hcap, Bool.or_true]
    exact (Bool.or_false _).symm
  · rw [hcap, Bool.or_true]
    exact (Bool.or_false _).symm
  · rw [hprot, Bool.or_true]
    exact (Bool.or_false _).symm
  · simp only [hssid, hsignal, hcap, hprot, heap, Bool.or_self, Bool.not_false, Bool.and_self,
      Bool.or_true]
  · simp only [heap, Bool.and_false, Bool.or_false]

end SupervisorBss

namespace IwBss

/-- What the supervisor reads, too. -/
def toSupervisor (b : IwBss) : SupervisorBss where
  curSsid := b.curSsid
  curSignal := b.curSignal
  curPrivacy := b.curPrivacy
  curIsEap := b.curIsEap

variable (b : IwBss) {start : Text}

theorem head_of_isFreq (h : isFreq start = true) : (lineAt (unindent start)).head? = some 'f' :=
  head_of_isPrefixOf rfl (Bool.and_eq_true_iff.mp h).2

/-- A frequency says nothing else. -/
theorem values_of_isFreq (h : isFreq start = true) :
    ssidValue start = none ∧ signalValue start = none ∧ isPrivate start = false := by
  have hhead := head_of_isFreq h
  have hssid : hasLabel "SSID: " (lineAt (unindent start)) = false :=
    hasLabel_eq_false rfl (by rw [hhead]; decide)
  have hsignal : hasLabel "signal: " (lineAt (unindent start)) = false :=
    hasLabel_eq_false rfl (by rw [hhead]; decide)
  have hcap : hasLabel "capability: " (lineAt (unindent start)) = false :=
    hasLabel_eq_false rfl (by rw [hhead]; decide)
  have hprot : isProtection (lineAt (unindent start)) = false :=
    isProtection_eq_false (by rw [hhead]; decide) (by rw [hhead]; decide)
  refine ⟨?_, ?_, ?_⟩
  · rw [ssidValue, hssid, if_neg Bool.false_ne_true]
  · rw [signalValue, hsignal, if_neg Bool.false_ne_true]
  · rw [isPrivate, hcap, hprot, Bool.false_and, Bool.or_self]

/-- A line is read as the supervisor reads it, unless it is a frequency. -/
theorem toSupervisor_read (start : Text) : (b.read start).toSupervisor =
    if isFreq start then b.toSupervisor else b.toSupervisor.read start := by
  cases hfreq : isFreq start with
  | true =>
    have hhead := head_of_isFreq hfreq
    have hssid : hasLabel "SSID: " (lineAt (unindent start)) = false :=
      hasLabel_eq_false rfl (by rw [hhead]; decide)
    have hsignal : hasLabel "signal: " (lineAt (unindent start)) = false :=
      hasLabel_eq_false rfl (by rw [hhead]; decide)
    rw [isFreq] at hfreq
    simp only [read, if_neg (ne_nil_of_hasLabel hfreq), hssid, hsignal, hfreq, Bool.false_eq_true,
      if_false, if_true]
    rfl
  | false =>
    rw [isFreq] at hfreq
    simp only [read, SupervisorBss.read, hfreq, Bool.false_eq_true, if_false]
    split_ifs <;> rfl

/-- A part that no frequency changes is read as the supervisor reads it. -/
theorem part_read {Part : Type*} (part : SupervisorBss → Part) (value : Text → Part → Part)
    (h : ∀ b start, part (SupervisorBss.read b start) = value start (part b))
    (hfreq : ∀ start, isFreq start = true → ∀ x, value start x = x) (start : Text) :
    part (b.read start).toSupervisor = value start (part b.toSupervisor) := by
  rw [toSupervisor_read]
  split_ifs with hstart
  · exact (hfreq start hstart _).symm
  · exact h _ start

theorem read_curSsid (start : Text) :
    (b.read start).curSsid = (ssidValue start).getD b.curSsid :=
  b.part_read SupervisorBss.curSsid (fun start x => (ssidValue start).getD x)
    SupervisorBss.read_curSsid
    (fun start h x => by rw [(values_of_isFreq h).1]; rfl) start

theorem read_curSignal (start : Text) :
    (b.read start).curSignal = (signalValue start).getD b.curSignal :=
  b.part_read SupervisorBss.curSignal (fun start x => (signalValue start).getD x)
    SupervisorBss.read_curSignal
    (fun start h x => by rw [(values_of_isFreq h).2.1]; rfl) start

theorem read_curPrivacy (start : Text) :
    (b.read start).curPrivacy = (b.curPrivacy || isPrivate start) :=
  b.part_read SupervisorBss.curPrivacy (fun start x => x || isPrivate start)
    SupervisorBss.read_curPrivacy
    (fun start h x => by rw [(values_of_isFreq h).2.2, Bool.or_false]) start

theorem read_curIsEap (start : Text) :
    (b.read start).curIsEap = (b.curIsEap || isEnterpriseIw start) := by
  have hread := congrArg SupervisorBss.curIsEap (b.toSupervisor_read start)
  rw [isEnterpriseIw]
  cases hfreq : isFreq start with
  | true =>
    rw [hfreq, if_pos rfl] at hread
    rw [Bool.not_true, Bool.false_and, Bool.or_false]
    exact hread
  | false =>
    rw [hfreq, if_neg Bool.false_ne_true, SupervisorBss.read_curIsEap] at hread
    exact hread

end IwBss

/-! ### The networks of a text -/

/-- The name that the manager gives to a security class of the supervisor. -/
def securityName (flags : Text) : Text :=
  if flags = "[Open]".toList then "OPEN" else if flags = "[WPA-EAP]".toList then "WPA2-EAP"
  else if flags = "[WPA-PSK]".toList then "WPA2-PSK" else flags

/-- What an entry says. -/
def WifiEntry.bss (e : WifiEntry) : Bss where
  ssid := e.ssid
  signal := e.signalDb
  security := securityName e.flags

/-- What a network says. -/
def WiFiNetwork.bss (n : WiFiNetwork) : Bss where
  ssid := n.ssid
  signal := n.signalDbm
  security := n.security

/-- The networks of a text, as one of the parsers sees them. -/
def bssOfText (enterprise : Text → Bool) (raw : Text) : List Bss :=
  ((bssLines raw).map (bssOf enterprise)).filter (·.ssid ≠ [])

theorem securityName_flags (privacy isEap : Bool) :
    securityName (if !privacy then "[Open]" else if isEap then "[WPA-EAP]" else "[WPA-PSK]") =
      (if !privacy then "OPEN" else if isEap then "WPA2-EAP" else "WPA2-PSK" : Text) := by
  cases privacy <;> cases isEap <;> decide

theorem bss_supervisorReader (b : Text × List Text) :
    (supervisorReader.ofBlock b).entry.bss = bssOf isEnterprise b.2 := by
  have hssid : (supervisorReader.ofBlock b).curSsid = _ :=
    BlockScan.foldl_last SupervisorBss.curSsid SupervisorBss.read_curSsid _ b.2
  have hsignal : (supervisorReader.ofBlock b).curSignal = _ :=
    BlockScan.foldl_last SupervisorBss.curSignal SupervisorBss.read_curSignal _ b.2
  have hprivacy : (supervisorReader.ofBlock b).curPrivacy = _ :=
    BlockScan.foldl_any SupervisorBss.curPrivacy SupervisorBss.read_curPrivacy _ b.2
  have heap : (supervisorReader.ofBlock b).curIsEap = _ :=
    BlockScan.foldl_any SupervisorBss.curIsEap SupervisorBss.read_curIsEap _ b.2
  rw [WifiEntry.bss, SupervisorBss.entry, securityName_flags, hssid, hsignal, hprivacy, heap]
  rfl

theorem bss_iwReader (b : Text × List Text) :
    (iwReader.ofBlock b).network.bss = bssOf isEnterpriseIw b.2 := by
  have hssid : (iwReader.ofBlock b).curSsid = _ :=
    BlockScan.foldl_last IwBss.curSsid IwBss.read_curSsid _ b.2
  have hsignal : (iwReader.ofBlock b).curSignal = _ :=
    BlockScan.foldl_last IwBss.curSignal IwBss.read_curSignal _ b.2
  have hprivacy : (iwReader.ofBlock b).curPrivacy = _ :=
    BlockScan.foldl_any IwBss.curPrivacy IwBss.read_curPrivacy _ b.2
  have heap : (iwReader.ofBlock b).curIsEap = _ :=
    BlockScan.foldl_any IwBss.curIsEap IwBss.read_curIsEap _ b.2
  rw [WiFiNetwork.bss, IwBss.network, hssid, hsignal, hprivacy, heap]
  rfl

/-- What a reader keeps of its blocks. -/
theorem map_bss_run {Block Net : Type*} {S : BlockScan Text Block (List Net)}
    {enterprise : Text → Bool} (net : Block → Net) (bss : Net → Bss) (hhead : S.isHead = isBss)
    (hblock : ∀ b, bss (net (S.ofBlock b)) = bssOf enterprise b.2)
    (hflush : ∀ nets b, S.flush nets b = if (bss (net b)).ssid = [] then nets else
      Strongest.keep (fun n => (bss n).ssid) (fun n => (bss n).signal) nets (net b))
    (raw : Text) : (S.run [] (lineStarts true (Text.cStr raw))).map bss =
      Strongest.kept Bss.ssid Bss.signal (bssOfText enterprise raw) := by
  have hkept : ∀ bs : List Block, bs.foldl S.flush [] =
      Strongest.kept (fun n => (bss n).ssid) (fun n => (bss n).signal)
        ((bs.filter fun b => (bss (net b)).ssid ≠ []).map net) := fun bs => by
    rw [Strongest.kept, List.foldl_map, List.foldl_filter]
    refine List.foldl_ext _ _ _ fun nets b _ => ?_
    rw [hflush]
    by_cases hssid : (bss (net b)).ssid = []
    · rw [if_pos hssid, if_neg (by simp [hssid])]
    · rw [if_neg hssid, if_pos (by simp [hssid])]
  have hblocks : (((BlockScan.blocks isBss (lineStarts true (Text.cStr raw))).map
      S.ofBlock).map net).map bss = (bssLines raw).map (bssOf enterprise) := by
    rw [bssLines, List.map_map, List.map_map, List.map_map]
    exact List.map_congr_left fun b _ => hblock b
  have hfilter : ∀ bs : List Block,
      ((bs.filter fun b => (bss (net b)).ssid ≠ []).map net).map bss =
        ((bs.map net).map bss).filter (·.ssid ≠ []) := fun bs => by
    rw [List.filter_map, List.filter_map]
    rfl
  rw [S.run_eq, hhead, hkept, Strongest.map_kept Bss.ssid Bss.signal (fun _ => rfl) fun _ => rfl,
    hfilter, hblocks]
  rfl

theorem map_bss_supervisorReader (raw : Text) :
    (supervisorReader.run [] (lineStarts true (Text.cStr raw))).map WifiEntry.bss =
      Strongest.kept Bss.ssid Bss.signal (bssOfText isEnterprise raw) :=
  map_bss_run SupervisorBss.entry WifiEntry.bss rfl bss_supervisorReader (fun _ _ => rfl) raw

theorem map_bss_iwReader (raw : Text) :
    (iwReader.run [] (lineStarts true (Text.cStr raw))).map WiFiNetwork.bss =
      Strongest.kept Bss.ssid Bss.signal (bssOfText isEnterpriseIw raw) :=
  map_bss_run IwBss.network WiFiNetwork.bss rfl bss_iwReader (fun _ _ => rfl) raw

/-! ### The lists -/

theorem suffix_of_mem_lineStarts {atStart : Bool} {s t : Text} (h : t ∈ lineStarts atStart s) :
    t <:+ s := by
  induction s generalizing atStart with
  | nil => cases h
  | cons c s ih =>
    cases atStart with
    | true =>
      rcases List.mem_cons.mp h with rfl | h
      · exact List.suffix_rfl
      · exact (ih h).trans (List.suffix_cons c s)
    | false => exact (ih h).trans (List.suffix_cons c s)

/-- A text in which no block starts is not read. -/
theorem bssLines_eq_nil {raw : Text} (h : occursIn "BSS " raw = false) : bssLines raw = [] := by
  have hno : ¬ "BSS ".toList <:+: raw := fun hin => by
    rw [occursIn, Text.isSome_afterFirst_iff.mpr hin] at h
    exact nomatch h
  have hheads : ∀ t ∈ lineStarts true (Text.cStr raw), isBss t = false := fun t ht =>
    Bool.eq_false_iff.mpr fun hbss => by
      have hline : lineAt t <+: t := List.takeWhile_prefix _
      have htext : Text.cStr raw <+: raw := List.takeWhile_prefix _
      exact hno ((((List.isPrefixOf_iff_prefix.mp hbss).trans hline).isInfix.trans
        (suffix_of_mem_lineStarts ht).isInfix).trans htext.isInfix)
  rw [bssLines, BlockScan.blocks_eq_nil hheads, List.map_nil]

/-- What a list says about the blocks of a text. -/
structure ListsBlocks (blocks nets : List Bss) : Prop where
  once : (nets.map Bss.ssid).Nodup
  complete : ∀ b ∈ blocks, b.ssid ≠ [] → b.ssid ∈ nets.map Bss.ssid
  strongest : ∀ n ∈ nets, n ∈ blocks ∧ n.ssid ≠ [] ∧
    ∀ b ∈ blocks, b.ssid = n.ssid → b.signal ≤ n.signal
  sorted : nets.Pairwise fun n m => m.signal ≤ n.signal

/-- The networks that are kept, in the order of their signals. -/
theorem listsBlocks_of_perm {enterprise : Text → Bool} {raw : Text} {nets : List Bss}
    (hperm : nets.Perm (Strongest.kept Bss.ssid Bss.signal (bssOfText enterprise raw)))
    (hsorted : nets.Pairwise fun n m => m.signal ≤ n.signal) :
    ListsBlocks ((bssLines raw).map (bssOf enterprise)) nets := by
  have hkept : Strongest.IsStrongest Bss.ssid Bss.signal _ _ :=
    Strongest.kept_spec (bssOfText enterprise raw)
  have htext : ∀ b, b ∈ bssOfText enterprise raw ↔
      b ∈ (bssLines raw).map (bssOf enterprise) ∧ b.ssid ≠ [] := fun b =>
    List.mem_filter.trans (and_congr_right' decide_eq_true_iff)
  refine ⟨(hperm.map Bss.ssid).nodup_iff.mpr hkept.once, fun b hb hne => ?_, fun n hn => ?_,
    hsorted⟩
  · obtain ⟨n, hn, hssid, -⟩ := hkept.complete b ((htext b).mpr ⟨hb, hne⟩)
    exact List.mem_map.mpr ⟨n, hperm.mem_iff.mpr hn, hssid⟩
  · have hn' := hperm.mem_iff.mp hn
    obtain ⟨hblock, hne⟩ := (htext n).mp (hkept.mem n hn')
    refine ⟨hblock, hne, fun b hb hssid => ?_⟩
    exact hkept.rank_le hn' ((htext b).mpr ⟨hb, hssid ▸ hne⟩) hssid

/-- A list that is sorted by decreasing signals. -/
theorem pairwise_bss {Net : Type*} (bss : Net → Bss) (sort : KeySort fun n => -(bss n).signal)
    (l : List Net) : ((sort.sort l).map bss).Pairwise fun n m => m.signal ≤ n.signal :=
  List.pairwise_map.mpr ((sort.sorted l).imp fun h => Int.neg_le_neg_iff.mp h)

/-- A frequency that names authentication suites of an enterprise network. -/
def FreqNamesEap (raw : Text) : Prop :=
  ∃ lines ∈ bssLines raw, ∃ start ∈ lines, isFreq start = true ∧
    namesEap (lineAt (unindent start)) = true

/-- The supervisor's list. -/
theorem map_bss_supervisorScanWifi (sort : KeySort fun e : WifiEntry => -e.signalDb) (raw : Text) :
    ((supervisorScanWifi sort raw).map WifiEntry.bss).Perm
      (Strongest.kept Bss.ssid Bss.signal (bssOfText isEnterprise raw)) := by
  rw [← map_bss_supervisorReader]
  exact (sort.perm _).map _

/-- The manager's list, also when it is not read. -/
theorem map_bss_iwScan (sort : KeySort fun n : WiFiNetwork => -n.signalDbm) (raw : Text) :
    ((iwScan sort raw).map WiFiNetwork.bss).Perm
      (Strongest.kept Bss.ssid Bss.signal (bssOfText isEnterpriseIw raw)) := by
  rw [iwScan]
  split_ifs with hbss
  · rw [bssOfText, bssLines_eq_nil (by simpa using hbss)]
    exact List.Perm.refl []
  · rw [← map_bss_iwReader]
    exact (sort.perm _).map _

/-- Both lists are sorted by decreasing signals. -/
theorem sorted_supervisorScanWifi (sort : KeySort fun e : WifiEntry => -e.signalDb) (raw : Text) :
    ((supervisorScanWifi sort raw).map WifiEntry.bss).Pairwise fun n m => m.signal ≤ n.signal :=
  pairwise_bss WifiEntry.bss sort _

theorem sorted_iwScan (sort : KeySort fun n : WiFiNetwork => -n.signalDbm) (raw : Text) :
    ((iwScan sort raw).map WiFiNetwork.bss).Pairwise fun n m => m.signal ≤ n.signal := by
  rw [iwScan]
  split_ifs
  · exact List.Pairwise.nil
  · exact pairwise_bss WiFiNetwork.bss sort _

/-- SSIDs and signals do not depend on how enterprise networks are told. -/
theorem map_pair_kept (enterprise enterprise' : Text → Bool) (raw : Text) :
    (Strongest.kept Bss.ssid Bss.signal (bssOfText enterprise raw)).map
        (fun b => (b.ssid, b.signal)) =
      (Strongest.kept Bss.ssid Bss.signal (bssOfText enterprise' raw)).map
        fun b => (b.ssid, b.signal) := by
  have hpairs : ∀ enterprise, (bssOfText enterprise raw).map (fun b => (b.ssid, b.signal)) =
      ((bssLines raw).map fun lines => ((lines.filterMap ssidValue).getLast?.getD [],
        (lines.filterMap signalValue).getLast?.getD (-100))).filter (·.1 ≠ []) := by
    intro enterprise
    rw [bssOfText, List.filter_map, List.filter_map, List.map_map]
    rfl
  rw [Strongest.map_kept Prod.fst Prod.snd (fun _ => rfl) fun _ => rfl,
    Strongest.map_kept Prod.fst Prod.snd (fun _ => rfl) fun _ => rfl, hpairs, hpairs]

/-- Enterprise networks are told alike where no frequency names their suites. -/
theorem bssOfText_eq {raw : Text} (h : ¬ FreqNamesEap raw) :
    bssOfText isEnterprise raw = bssOfText isEnterpriseIw raw := by
  have hlines : ∀ lines ∈ bssLines raw, lines.any isEnterprise = lines.any isEnterpriseIw :=
    fun lines hlines => by
      refine Bool.eq_iff_iff.mpr (List.any_eq_true.trans
        (Iff.trans ?_ List.any_eq_true.symm))
      refine exists_congr fun start => and_congr_right fun hstart => ?_
      rw [isEnterpriseIw]
      cases hfreq : isFreq start with
      | false => rfl
      | true =>
        have hnames : namesEap (lineAt (unindent start)) = false :=
          Bool.eq_false_iff.mpr fun hnames => h ⟨lines, hlines, start, hstart, hfreq, hnames⟩
        rw [isEnterprise, hnames, Bool.and_false]
        rfl
  refine congrArg _ (List.map_congr_left fun lines hmem => ?_)
  rw [bssOf, bssOf, hlines lines hmem]

/-- **The two parsers list the same SSIDs and signals**, and the same security unless a frequency
names authentication suites; each lists every SSID once with its strongest block. -/
theorem scans_agree (sort : KeySort fun e : WifiEntry => -e.signalDb)
    (sort' : KeySort fun n : WiFiNetwork => -n.signalDbm) (raw : Text) :
    ((supervisorScanWifi sort raw).map fun e => (e.ssid, e.signalDb)).Perm
        ((iwScan sort' raw).map fun n => (n.ssid, n.signalDbm)) ∧
      (¬ FreqNamesEap raw → ((supervisorScanWifi sort raw).map WifiEntry.bss).Perm
        ((iwScan sort' raw).map WiFiNetwork.bss)) ∧
      ListsBlocks ((bssLines raw).map (bssOf isEnterprise))
        ((supervisorScanWifi sort raw).map WifiEntry.bss) ∧
      ListsBlocks ((bssLines raw).map (bssOf isEnterpriseIw))
        ((iwScan sort' raw).map WiFiNetwork.bss) := by
  have hsupervisor := map_bss_supervisorScanWifi sort raw
  have hiw := map_bss_iwScan sort' raw
  refine ⟨?_, fun hfreq => ?_, ?_, ?_⟩
  · have hpairs := (hsupervisor.map fun b => (b.ssid, b.signal)).trans
      ((List.Perm.of_eq (map_pair_kept isEnterprise isEnterpriseIw raw)).trans
        (hiw.map fun b => (b.ssid, b.signal)).symm)
    rwa [List.map_map, List.map_map] at hpairs
  · rw [bssOfText_eq hfreq] at hsupervisor
    exact hsupervisor.trans hiw.symm
  · exact listsBlocks_of_perm hsupervisor (sorted_supervisorScanWifi sort raw)
  · exact listsBlocks_of_perm hiw (sorted_iwScan sort' raw)

/-- A scan with a protected network. -/
def oneNetwork : Text :=
  "BSS 02:00:00:00:00:01(on wlan0)\n\tfreq: 2412\n\tsignal: -65.00 dBm\n\tSSID: home\n\tRSN:\n"

instance (raw : Text) : Decidable (FreqNamesEap raw) :=
  inferInstanceAs (Decidable (∃ lines ∈ _, ∃ start ∈ _, _))

/-- The network is listed alike. -/
theorem scans_agree_oneNetwork :
    ((supervisorScanWifi (LastMatch.stable _) oneNetwork).map WifiEntry.bss).Perm
      ((iwScan (LastMatch.stable _) oneNetwork).map WiFiNetwork.bss) :=
  (scans_agree _ _ oneNetwork).2.1 (by decide +kernel)

/-- A frequency that names authentication suites. -/
def namedSuites : Text :=
  "BSS 02:00:00:00:00:01(on wlan0)\n\tfreq: Authentication suites: EAP\n\tSSID: home\n\tRSN:\n"

/-- The supervisor takes it for an enterprise network, and the manager does not. -/
theorem not_scans_agree : ¬ ∀ (sort : KeySort fun e : WifiEntry => -e.signalDb)
    (sort' : KeySort fun n : WiFiNetwork => -n.signalDbm) (raw : Text),
    ((supervisorScanWifi sort raw).map WifiEntry.bss).Perm
      ((iwScan sort' raw).map WiFiNetwork.bss) := fun h => by
  have hsupervisor : Strongest.kept Bss.ssid Bss.signal (bssOfText isEnterprise namedSuites) =
      [⟨"home", -100, "WPA2-EAP"⟩] := by decide +kernel
  have hiw : Strongest.kept Bss.ssid Bss.signal (bssOfText isEnterpriseIw namedSuites) =
      [⟨"home", -100, "WPA2-PSK"⟩] := by decide +kernel
  have hperm := (map_bss_supervisorScanWifi _ namedSuites).symm.trans
    ((h (LastMatch.stable _) (LastMatch.stable _) namedSuites).trans (map_bss_iwScan _ namedSuites))
  rw [hsupervisor, hiw] at hperm
  exact absurd (List.singleton_perm_singleton.mp hperm) (by decide)

end Llamaste
