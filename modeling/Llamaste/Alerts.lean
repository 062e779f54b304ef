import Llamaste.Lib.CInt
import Llamaste.Lib.Strto
import Llamaste.Notifications

/-!
# Alerts

The scheduler looks at the memory, the disk, the model and the temperature again and again, and
queues an alert where a threshold is reached and the last alert of the kind is long enough ago. The
percentage of the memory is computed in 32 bits and that of the disk in 64, and the time of the last
alert is zero before the first one.

Source: `scheduler.cpp` (`Scheduler::check_alerts`), `scheduler.h` (`AlertConfig`).

## Main results

* `alertsWhenDue_of_along`: the runs in which alerts are queued exactly when they are due.
-/

namespace Llamaste

open CInt

/-! ### What is read and kept -/

/-- `AlertConfig`. -/
structure AlertConfig where
  ramThresholdPercent : ℤ := 85
  diskThresholdPercent : ℤ := 90
  tempThresholdC : ℤ := 80
  cooldownSeconds : ℤ := 300

/-- What `statvfs` says of the disk. -/
structure DiskBlocks where
  blocks : ℕ
  bfree : ℕ
  frsize : ℕ

/-- What one call reads, and the ids that its alerts get. The model check is there or not, and may
answer differently when it is asked twice. -/
structure AlertReadings where
  now : ℤ
  totalKb : ℤ
  availKb : ℤ
  disk : Option DiskBlocks
  modelFn : Option (Bool × Bool)
  temp : Text
  ramId : Text
  diskId : Text
  modelId : Text
  tempId : Text

/-- The times that are kept between the calls. -/
structure AlertState where
  startTime : ℤ
  lastRamAlert : ℤ := 0
  lastDiskAlert : ℤ := 0
  lastTempAlert : ℤ := 0
  lastModelAlert : ℤ := 0
  modelUnloadedSince : ℤ := 0

/-! ### The checks -/

def ramTitle : Text := "High RAM Usage"

def diskTitle : Text := "High Disk Usage"

/-- The last alert is long enough ago. -/
def cooled (cfg : AlertConfig) (now last : ℤ) : Prop := cfg.cooldownSeconds ≤ now - last

instance (cfg : AlertConfig) (now last : ℤ) : Decidable (cooled cfg now last) :=
  Int.decLe _ _

/-- `used_pct` of the memory. -/
def ramPercent (totalKb availKb : ℤ) : ℤ :=
  (toInt32 (toInt32 (totalKb - availKb) * 100)).tdiv totalKb

/-- The RAM check. -/
def checkRam (cfg : AlertConfig) (s : AlertState) (r : AlertReadings) :
    Option Notification × AlertState :=
  if 0 < cfg.ramThresholdPercent then
    if 0 < r.totalKb ∧ 0 ≤ r.availKb then
      let usedPct := ramPercent r.totalKb r.availKb
      if cfg.ramThresholdPercent ≤ usedPct then
        if cooled cfg r.now s.lastRamAlert then
          (some {
            id := r.ramId, type := "alert", title := ramTitle
            body := "RAM usage at " ++ Json.dumpInt usedPct ++ "% (" ++
              Json.dumpInt ((toInt32 (r.totalKb - r.availKb)).tdiv 1024) ++ " MB / " ++
              Json.dumpInt (r.totalKb.tdiv 1024) ++ " MB used)"
            time := r.now }, { s with lastRamAlert := r.now })
        else (none, s)
      else (none, s)
    else (none, s)
  else (none, s)

/-- `used` of the disk. -/
def diskUsed (d : DiskBlocks) : ℕ :=
  (toUInt64 ((d.blocks * d.frsize : ℤ) - (d.bfree * d.frsize : ℤ))).toNat

/-- `used_pct` of the disk. -/
def diskPercent (d : DiskBlocks) : ℤ :=
  toInt32 ((diskUsed d * 100 % 2 ^ 64 / (d.blocks * d.frsize % 2 ^ 64) : ℕ))

/-- The disk check. A division by zero ends the process: `none`. -/
def checkDisk (cfg : AlertConfig) (s : AlertState) (r : AlertReadings) :
    Option (Option Notification × AlertState) :=
  if 0 < cfg.diskThresholdPercent then
    match r.disk with
    | none => some (none, s)
    | some d =>
      if 0 < d.blocks then
        let total := d.blocks * d.frsize % 2 ^ 64
        if total = 0 then none
        else
          let usedPct := diskPercent d
          if cfg.diskThresholdPercent ≤ usedPct then
            if cooled cfg r.now s.lastDiskAlert then
              some (some {
                id := r.diskId, type := "alert", title := diskTitle
                body := "Disk usage at " ++ Json.dumpInt usedPct ++ "% (" ++
                  Text.ofNat (diskUsed d / (1024 * 1024)) ++ " MB / " ++
                  Text.ofNat (total / (1024 * 1024)) ++ " MB used)"
                time := r.now }, { s with lastDiskAlert := r.now })
            else some (none, s)
          else some (none, s)
      else some (none, s)
  else some (none, s)

/-- Since when the model has been missing. -/
def AlertState.trackModel (s : AlertState) (loaded : Bool) (now : ℤ) : AlertState :=
  { s with modelUnloadedSince :=
    if loaded then 0 else if s.modelUnloadedSince = 0 then now else s.modelUnloadedSince }

/-- The model check: a model that has been missing for two minutes, at most every half an hour. -/
def checkModel (s : AlertState) (r : AlertReadings) : Option Notification × AlertState :=
  match r.modelFn with
  | none => (none, s)
  | some (loaded, loadedStill) =>
    let s := s.trackModel loaded r.now
    if 0 < s.startTime ∧ 60 ≤ r.now - s.startTime ∧ loadedStill = false ∧
        0 < s.modelUnloadedSince ∧ 120 ≤ r.now - s.modelUnloadedSince ∧
        1800 ≤ r.now - s.lastModelAlert then
      (some {
        id := r.modelId, type := "alert", title := "No AI Model Loaded"
        body := "Chat is unavailable. Go to Dashboard " ++
          "\u00e2\u0086\u0092 Download a model to enable AI."
        time := r.now }, { s with lastModelAlert := r.now })
    else (none, s)

/-- `temp_c`, if the line starts with a number that is not out of range. -/
def tempC (line : Text) : Option ℤ :=
  match Strto.scan (Text.cStr line) with
  | none => none
  | some (neg, digits) =>
    let milliC := Json.signed neg digits
    if FitsInt64 milliC then some (toInt32 (milliC.tdiv 1000)) else none

/-- The temperature check. -/
def checkTemp (cfg : AlertConfig) (s : AlertState) (r : AlertReadings) :
    Option Notification × AlertState :=
  if 0 < cfg.tempThresholdC then
    match tempC r.temp with
    | none => (none, s)
    | some degrees =>
      if cfg.tempThresholdC ≤ degrees then
        if cooled cfg r.now s.lastTempAlert then
          (some {
            id := r.tempId, type := "alert", title := "High CPU Temperature"
            body := "CPU temperature at " ++ Json.dumpInt degrees ++ " C (threshold: " ++
              Json.dumpInt cfg.tempThresholdC ++ " C)"
            time := r.now }, { s with lastTempAlert := r.now })
        else (none, s)
      else (none, s)
  else (none, s)

/-- `check_alerts`: the notifications in the order in which they are queued. -/
def checkAlerts (cfg : AlertConfig) (s : AlertState) (r : AlertReadings) :
    Option (List Notification × AlertState) := do
  let (ram, s) := checkRam cfg s r
  let (disk, s) ← checkDisk cfg s r
  let (model, s) := checkModel s r
  let (temp, s) := checkTemp cfg s r
  return (ram.toList ++ disk.toList ++ model.toList ++ temp.toList, s)

/-- One call of a run; the process may have ended. -/
def alertStep (cfg : AlertConfig) (s : Option AlertState) (r : AlertReadings) :
    List Notification × Option AlertState :=
  match s.bind (checkAlerts cfg · r) with
  | some (notifs, s) => (notifs, some s)
  | none => ([], none)

/-! ### When alerts are due -/

/-- An alert with this title is queued. -/
def Queues (title : Text) (notifs : List Notification) : Prop := ∃ n ∈ notifs, n.title = title

instance (title : Text) (notifs : List Notification) : Decidable (Queues title notifs) :=
  List.decidableBEx _ _

section

variable (cfg : AlertConfig) (startTime : ℤ) (es : List AlertReadings) (e : AlertReadings)

/-- What a call queues after these calls. -/
def queued : List Notification :=
  (alertStep cfg (Machine.final (alertStep cfg) (some { startTime }) es) e).1

/-- The time of the last call that queued an alert with this title. -/
def lastAlert (title : Text) : Option ℤ :=
  (((es.zip (Machine.outputs (alertStep cfg) (some { startTime }) es)).filter
    fun call => Queues title call.2).getLast?).map fun call => call.1.now

/-- The last alert, if there was one, is long enough ago. -/
def LongAgo (title : Text) : Prop :=
  ∀ t ∈ lastAlert cfg startTime es title, cfg.cooldownSeconds ≤ e.now - t

/-- The memory that is used reaches its threshold. -/
def RamReached : Prop :=
  cfg.ramThresholdPercent ≤ 100 * (e.totalKb - e.availKb) / e.totalKb

instance : Decidable (RamReached cfg e) := Int.decLe _ _

/-- The disk space that is used reaches its threshold. -/
def DiskReached : Prop := ∃ d, e.disk = some d ∧
  cfg.diskThresholdPercent ≤ 100 * ((d.blocks : ℤ) - d.bfree) / d.blocks

/-- A call queues the alerts that are due. -/
structure AlertsWhenDue : Prop where
  ram : Queues ramTitle (queued cfg startTime es e) ↔
    RamReached cfg e ∧ LongAgo cfg startTime es e ramTitle
  disk : Queues diskTitle (queued cfg startTime es e) ↔
    DiskReached cfg e ∧ LongAgo cfg startTime es e diskTitle

/-- What a call reads can be computed with: the size of the disk is no multiple of 2^64 bytes, and
where the last alert is long ago, the products do not overflow, there is not more space free than
there is, and the time is not in the first cooldown when a threshold is reached for the first
time. -/
structure AlertFits : Prop where
  ram : LongAgo cfg startTime es e ramTitle → (e.totalKb - e.availKb) * 100 < 2 ^ 31 ∧
    (lastAlert cfg startTime es ramTitle = none → RamReached cfg e → cfg.cooldownSeconds ≤ e.now)
  size : ∀ d ∈ e.disk, 0 < d.blocks → d.blocks * d.frsize % 2 ^ 64 ≠ 0
  disk : LongAgo cfg startTime es e diskTitle → (∀ d ∈ e.disk, 0 < d.blocks →
      d.bfree ≤ d.blocks ∧ d.blocks * d.frsize < 2 ^ 64 ∧
        (d.blocks - d.bfree) * d.frsize * 100 < 2 ^ 64) ∧
    (lastAlert cfg startTime es diskTitle = none → DiskReached cfg e →
      cfg.cooldownSeconds ≤ e.now)

end

/-! ### One call -/

section

variable {cfg : AlertConfig} {s : AlertState} {r : AlertReadings}

/-- The RAM check queues an alert. -/
def RamFires (cfg : AlertConfig) (s : AlertState) (r : AlertReadings) : Prop :=
  0 < cfg.ramThresholdPercent ∧ (0 < r.totalKb ∧ 0 ≤ r.availKb) ∧
    cfg.ramThresholdPercent ≤ ramPercent r.totalKb r.availKb ∧ cooled cfg r.now s.lastRamAlert

instance (cfg : AlertConfig) (s : AlertState) (r : AlertReadings) : Decidable (RamFires cfg s r) :=
  inferInstanceAs (Decidable (_ ∧ _))

/-- The disk check queues an alert. -/
def DiskFires (cfg : AlertConfig) (s : AlertState) (r : AlertReadings) : Prop :=
  0 < cfg.diskThresholdPercent ∧ ∃ d ∈ r.disk, 0 < d.blocks ∧
    cfg.diskThresholdPercent ≤ diskPercent d ∧ cooled cfg r.now s.lastDiskAlert

/-- What a check does: it queues an alert with its title and keeps the time, or nothing. -/
structure Checks (title : Text) (fires : Prop) (now : ℤ) (last : AlertState → ℤ) (s : AlertState)
    (result : Option Notification × AlertState) : Prop where
  queues : Queues title result.1.toList ↔ fires
  title : ∀ n ∈ result.1, n.title = title
  fired : fires → last result.2 = now
  kept : ¬fires → last result.2 = last s

theorem Checks.none {title : Text} {fires : Prop} {now : ℤ} {last : AlertState → ℤ}
    (h : ¬fires) : Checks title fires now last s (none, s) where
  queues := iff_of_false nofun h
  title := nofun
  fired hfires := absurd hfires h
  kept _ := rfl

variable (cfg s r) in
theorem checks_checkRam : Checks ramTitle (RamFires cfg s r) r.now AlertState.lastRamAlert s
    (checkRam cfg s r) := by
  rw [checkRam]
  by_cases hthreshold : 0 < cfg.ramThresholdPercent
  · rw [if_pos hthreshold]
    by_cases hread : 0 < r.totalKb ∧ 0 ≤ r.availKb
    · rw [if_pos hread]
      dsimp only
      split_ifs with hreached hcooled
      · have hfires : RamFires cfg s r := ⟨hthreshold, hread, hreached, hcooled⟩
        refine ⟨iff_of_true ⟨_, List.mem_singleton_self _, rfl⟩ hfires, fun n hn => ?_,
          fun _ => rfl, fun h => absurd hfires h⟩
        rw [← Option.some.inj hn]
      · exact Checks.none fun h => hcooled h.2.2.2
      · exact Checks.none fun h => hreached h.2.2.1
    · rw [if_neg hread]
      exact Checks.none fun h => hread h.2.1
  · rw [if_neg hthreshold]
    exact Checks.none fun h => hthreshold h.1

variable (cfg s) in
/-- The disk check of a disk whose size can be computed with. -/
theorem checks_checkDisk (h : ∀ d ∈ r.disk, 0 < d.blocks → d.blocks * d.frsize % 2 ^ 64 ≠ 0) :
    ∃ result, checkDisk cfg s r = some result ∧
      Checks diskTitle (DiskFires cfg s r) r.now AlertState.lastDiskAlert s result ∧
      result.2.lastRamAlert = s.lastRamAlert := by
  rw [checkDisk]
  by_cases hthreshold : 0 < cfg.diskThresholdPercent
  · rw [if_pos hthreshold]
    cases hdisk : r.disk with
    | none =>
        refine ⟨_, rfl, Checks.none ?_, rfl⟩
        rintro ⟨-, d, hd, -⟩
        exact nomatch hdisk.symm.trans hd
    | some d =>
        have hfires : DiskFires cfg s r ↔ 0 < d.blocks ∧
            cfg.diskThresholdPercent ≤ diskPercent d ∧ cooled cfg r.now s.lastDiskAlert := by
          rw [DiskFires, hdisk, and_iff_right hthreshold]
          simp only [Option.mem_some_iff, exists_eq_left']
        dsimp only
        by_cases hblocks : 0 < d.blocks
        · rw [if_pos hblocks, if_neg (h d hdisk hblocks)]
          split_ifs with hreached hcooled
          · refine ⟨_, rfl, ⟨iff_of_true ⟨_, List.mem_singleton_self _, rfl⟩
              (hfires.mpr ⟨hblocks, hreached, hcooled⟩), ?_, fun _ => rfl,
              fun hn => absurd (hfires.mpr ⟨hblocks, hreached, hcooled⟩) hn⟩, rfl⟩
            intro n hn
            rw [← Option.some.inj hn]
          · exact ⟨_, rfl, Checks.none fun hf => hcooled (hfires.mp hf).2.2, rfl⟩
          · exact ⟨_, rfl, Checks.none fun hf => hreached (hfires.mp hf).2.1, rfl⟩
        · rw [if_neg hblocks]
          exact ⟨_, rfl, Checks.none fun hf => hblocks (hfires.mp hf).1, rfl⟩
  · rw [if_neg hthreshold]
    exact ⟨_, rfl, Checks.none fun hf => hthreshold hf.1, rfl⟩

variable (s r) in
theorem title_checkModel : ∀ n ∈ (checkModel s r).1, n.title = "No AI Model Loaded".toList := by
  intro n hn
  rw [checkModel] at hn
  cases hmodel : r.modelFn with
  | none =>
      rw [hmodel] at hn
      exact nomatch hn
  | some answers =>
      rw [hmodel] at hn
      dsimp only at hn
      split_ifs at hn
      · rw [← Option.some.inj hn]
      · exact nomatch hn

variable (s r) in
theorem checkModel_keeps : (checkModel s r).2.lastRamAlert = s.lastRamAlert ∧
    (checkModel s r).2.lastDiskAlert = s.lastDiskAlert := by
  rw [checkModel]
  cases r.modelFn with
  | none => exact ⟨rfl, rfl⟩
  | some answers =>
      dsimp only
      split_ifs <;> exact ⟨rfl, rfl⟩

variable (cfg s r) in
theorem checkTemp_keeps : (∀ n ∈ (checkTemp cfg s r).1, n.title = "High CPU Temperature".toList) ∧
    (checkTemp cfg s r).2.lastRamAlert = s.lastRamAlert ∧
    (checkTemp cfg s r).2.lastDiskAlert = s.lastDiskAlert := by
  rw [checkTemp]
  by_cases hthreshold : 0 < cfg.tempThresholdC
  · rw [if_pos hthreshold]
    cases tempC r.temp with
    | none => exact ⟨nofun, rfl, rfl⟩
    | some degrees =>
        dsimp only
        split_ifs
        · refine ⟨fun n hn => ?_, rfl, rfl⟩
          rw [← Option.some.inj hn]
        · exact ⟨nofun, rfl, rfl⟩
        · exact ⟨nofun, rfl, rfl⟩
  · rw [if_neg hthreshold]
    exact ⟨nofun, rfl, rfl⟩

variable (cfg s r) in
theorem lastDiskAlert_checkRam : (checkRam cfg s r).2.lastDiskAlert = s.lastDiskAlert := by
  rw [checkRam]
  dsimp only
  split_ifs <;> rfl

theorem queues_append {title : Text} {a b : List Notification} :
    Queues title (a ++ b) ↔ Queues title a ∨ Queues title b := by
  simp only [Queues, List.mem_append, or_and_right, exists_or]

theorem not_queues {title title' : Text} {n : Option Notification}
    (h : ∀ notif ∈ n, notif.title = title') (hne : title' ≠ title) : ¬Queues title n.toList := by
  rintro ⟨notif, hmem, htitle⟩
  exact hne ((h notif (Option.mem_toList.mp hmem)).symm.trans htitle)

/-- What a call does about one kind of alert. -/
structure Handles (title : Text) (fires : Prop) (now : ℤ) (last : AlertState → ℤ) (s : AlertState)
    (notifs : List Notification) (s' : AlertState) : Prop where
  queues : Queues title notifs ↔ fires
  fired : fires → last s' = now
  kept : ¬fires → last s' = last s

variable (cfg s r) in
theorem checkAlerts_eq : checkAlerts cfg s r =
    (checkDisk cfg (checkRam cfg s r).2 r).map fun disk =>
      ((checkRam cfg s r).1.toList ++ disk.1.toList ++ (checkModel disk.2 r).1.toList ++
          (checkTemp cfg (checkModel disk.2 r).2 r).1.toList,
        (checkTemp cfg (checkModel disk.2 r).2 r).2) := by
  rw [checkAlerts]
  dsimp only
  cases checkDisk cfg (checkRam cfg s r).2 r <;> rfl

variable (cfg s) in
/-- A call whose disk size can be computed with does what its checks do. -/
theorem handles_checkAlerts
    (h : ∀ d ∈ r.disk, 0 < d.blocks → d.blocks * d.frsize % 2 ^ 64 ≠ 0) :
    ∃ notifs s', checkAlerts cfg s r = some (notifs, s') ∧
      Handles ramTitle (RamFires cfg s r) r.now AlertState.lastRamAlert s notifs s' ∧
      Handles diskTitle (DiskFires cfg s r) r.now AlertState.lastDiskAlert s notifs s' := by
  obtain ⟨disk, hdisk, hchecks, hkeeps⟩ := checks_checkDisk cfg (checkRam cfg s r).2 h
  have hram := checks_checkRam cfg s r
  obtain ⟨htempTitle, htempRam, htempDisk⟩ := checkTemp_keeps cfg (checkModel disk.2 r).2 r
  obtain ⟨hmodelRam, hmodelDisk⟩ := checkModel_keeps disk.2 r
  have hmodelTitle := title_checkModel disk.2 r
  have hfires : DiskFires cfg (checkRam cfg s r).2 r ↔ DiskFires cfg s r := by
    rw [DiskFires, DiskFires, lastDiskAlert_checkRam]
  refine ⟨_, _, by rw [checkAlerts_eq, hdisk, Option.map_some], ⟨?_, ?_, ?_⟩, ⟨?_, ?_, ?_⟩⟩
  · rw [queues_append, queues_append, queues_append,
      or_iff_left (not_queues htempTitle (by decide)),
      or_iff_left (not_queues hmodelTitle (by decide)),
      or_iff_left (not_queues hchecks.title (by decide))]
    exact hram.queues
  · rw [htempRam, hmodelRam, hkeeps]
    exact hram.fired
  · rw [htempRam, hmodelRam, hkeeps]
    exact hram.kept
  · rw [queues_append, queues_append, queues_append,
      or_iff_left (not_queues htempTitle (by decide)),
      or_iff_left (not_queues hmodelTitle (by decide)),
      or_iff_right (not_queues hram.title (by decide)), ← hfires]
    exact hchecks.queues
  · rw [htempDisk, hmodelDisk, ← hfires]
    exact hchecks.fired
  · rw [htempDisk, hmodelDisk, ← hfires, ← lastDiskAlert_checkRam cfg s r]
    exact hchecks.kept

/-! ### The percentages -/

/-- The percentage of the memory, as long as the product fits. -/
theorem ramPercent_eq {total avail : ℤ} (hle : avail ≤ total)
    (hfit : (total - avail) * 100 < 2 ^ 31) :
    ramPercent total avail = 100 * (total - avail) / total := by
  have hused : toInt32 (total - avail) = total - avail :=
    toInt32_eq_self_iff.mpr ⟨by omega, by omega⟩
  have hproduct : toInt32 ((total - avail) * 100) = (total - avail) * 100 :=
    toInt32_eq_self_iff.mpr ⟨by omega, hfit⟩
  rw [ramPercent, hused, hproduct, Int.tdiv_eq_ediv_of_nonneg (by omega), Int.mul_comm]

/-- The percentage of the disk, as long as the products fit. -/
theorem diskPercent_eq {d : DiskBlocks} (hfree : d.bfree ≤ d.blocks) (hpos : 0 < d.frsize)
    (htotal : d.blocks * d.frsize < 2 ^ 64)
    (hfit : (d.blocks - d.bfree) * d.frsize * 100 < 2 ^ 64) :
    diskPercent d = 100 * ((d.blocks : ℤ) - d.bfree) / d.blocks := by
  have hle : d.bfree * d.frsize ≤ d.blocks * d.frsize := Nat.mul_le_mul_right _ hfree
  have hused : diskUsed d = (d.blocks - d.bfree) * d.frsize := by
    rw [diskUsed, toUInt64, Nat.sub_mul]
    omega
  have hquotient : (d.blocks - d.bfree) * d.frsize * 100 / (d.blocks * d.frsize) =
      100 * (d.blocks - d.bfree) / d.blocks := by
    rw [Nat.mul_right_comm, Nat.mul_comm (d.blocks - d.bfree), Nat.mul_div_mul_right _ _ hpos]
  have hsmall : 100 * (d.blocks - d.bfree) / d.blocks ≤ 100 :=
    Nat.div_le_of_le_mul (by rw [Nat.mul_comm]; exact Nat.mul_le_mul_right _ (Nat.sub_le _ _))
  have hfits : FitsInt32 ((100 * (d.blocks - d.bfree) / d.blocks : ℕ) : ℤ) :=
    ⟨Int.le_trans (by decide) (Int.natCast_nonneg _), by omega⟩
  rw [diskPercent, hused, Nat.mod_eq_of_lt hfit, Nat.mod_eq_of_lt htotal, hquotient,
    toInt32_eq_self_iff.mpr hfits, Int.natCast_ediv, Int.natCast_mul,
    Int.ofNat_sub hfree]
  rfl

end

/-! ### Runs -/

section

variable {cfg : AlertConfig} {startTime : ℤ} {es : List AlertReadings} {e : AlertReadings}

theorem lastAlert_concat (title : Text) : lastAlert cfg startTime (es ++ [e]) title =
    if Queues title (queued cfg startTime es e) then some e.now
    else lastAlert cfg startTime es title := by
  rw [lastAlert, Machine.outputs_append, List.zip_append (Machine.length_outputs _ _).symm,
    List.filter_append]
  change (List.getLast? (_ ++ [(e, queued cfg startTime es e)].filter fun call =>
    Queues title call.2)).map _ = _
  by_cases hqueues : Queues title (queued cfg startTime es e)
  · have hone : ([(e, queued cfg startTime es e)].filter fun call => Queues title call.2) =
        [(e, queued cfg startTime es e)] := List.filter_cons_of_pos (decide_eq_true hqueues)
    rw [hone, List.getLast?_concat, if_pos hqueues]
    rfl
  · have hnone : ([(e, queued cfg startTime es e)].filter fun call => Queues title call.2) = [] :=
      List.filter_cons_of_neg fun h => hqueues (of_decide_eq_true h)
    rw [hnone, List.append_nil, if_neg hqueues]
    rfl

/-- A call after which the process goes on. -/
theorem handles_queued {s : AlertState}
    (hfinal : Machine.final (alertStep cfg) (some { startTime }) es = some s)
    (hsize : ∀ d ∈ e.disk, 0 < d.blocks → d.blocks * d.frsize % 2 ^ 64 ≠ 0) :
    ∃ s', Machine.final (alertStep cfg) (some { startTime }) (es ++ [e]) = some s' ∧
      Handles ramTitle (RamFires cfg s e) e.now AlertState.lastRamAlert s
        (queued cfg startTime es e) s' ∧
      Handles diskTitle (DiskFires cfg s e) e.now AlertState.lastDiskAlert s
        (queued cfg startTime es e) s' := by
  obtain ⟨notifs, s', hcheck, hram, hdisk⟩ := handles_checkAlerts cfg s hsize
  have hstep : alertStep cfg (some s) e = (notifs, some s') := by
    rw [alertStep, Option.bind_some, hcheck]
  refine ⟨s', ?_, ?_⟩
  · rw [Machine.final_append, hfinal, Machine.final_cons, hstep]
    rfl
  · rw [queued, hfinal, hstep]
    exact ⟨hram, hdisk⟩

/-- The kept times are those of the last alerts. -/
structure AlertsKept (cfg : AlertConfig) (startTime : ℤ) (es : List AlertReadings)
    (s : AlertState) : Prop where
  ram : s.lastRamAlert = (lastAlert cfg startTime es ramTitle).getD 0
  disk : s.lastDiskAlert = (lastAlert cfg startTime es diskTitle).getD 0

/-- A call after which the process goes on keeps the times. -/
theorem AlertsKept.concat {s : AlertState} (h : AlertsKept cfg startTime es s)
    (hfinal : Machine.final (alertStep cfg) (some { startTime }) es = some s)
    (hsize : ∀ d ∈ e.disk, 0 < d.blocks → d.blocks * d.frsize % 2 ^ 64 ≠ 0) :
    ∃ s', Machine.final (alertStep cfg) (some { startTime }) (es ++ [e]) = some s' ∧
      AlertsKept cfg startTime (es ++ [e]) s' := by
  obtain ⟨s', hfinal', hram, hdisk⟩ := handles_queued hfinal hsize
  refine ⟨s', hfinal', ?_, ?_⟩
  · rw [lastAlert_concat]
    by_cases hfires : RamFires cfg s e
    · rw [if_pos (hram.queues.mpr hfires), hram.fired hfires]
      rfl
    · rw [if_neg (hram.queues.not.mpr hfires), hram.kept hfires, h.ram]
  · rw [lastAlert_concat]
    by_cases hfires : DiskFires cfg s e
    · rw [if_pos (hdisk.queues.mpr hfires), hdisk.fired hfires]
      rfl
    · rw [if_neg (hdisk.queues.not.mpr hfires), hdisk.kept hfires, h.disk]

/-- Where the times are kept, an alert is due exactly when its check queues it, if the percentage is
right and it is not the first one in the first cooldown. -/
theorem fires_iff {reached computed : Prop} {last : Option ℤ} {now : ℤ}
    (hfit : (∀ t ∈ last, cfg.cooldownSeconds ≤ now - t) →
      (computed ↔ reached) ∧ (last = none → reached → cfg.cooldownSeconds ≤ now)) :
    computed ∧ cooled cfg now (last.getD 0) ↔
      reached ∧ ∀ t ∈ last, cfg.cooldownSeconds ≤ now - t := by
  cases last with
  | none =>
      obtain ⟨hcomputed, hfirst⟩ := hfit nofun
      rw [hcomputed, Option.getD_none, cooled, Int.sub_zero]
      exact ⟨fun h => ⟨h.1, nofun⟩, fun h => ⟨h.1, hfirst rfl h.1⟩⟩
  | some t =>
      simp only [Option.mem_some_iff, forall_eq', Option.getD_some, cooled] at hfit ⊢
      exact and_congr_left fun hlong => (hfit hlong).1

/-- The memory of a call whose readings can be computed with. -/
theorem ramFires_iff {s : AlertState} (hthreshold : 0 < cfg.ramThresholdPercent)
    (hread : 0 ≤ e.availKb ∧ e.availKb ≤ e.totalKb) (h : AlertsKept cfg startTime es s)
    (hfits : AlertFits cfg startTime es e) : RamFires cfg s e ↔
      RamReached cfg e ∧ LongAgo cfg startTime es e ramTitle := by
  rw [RamFires, h.ram, and_iff_right hthreshold, ← and_assoc]
  refine fires_iff fun hlong => ⟨?_, (hfits.ram hlong).2⟩
  rw [ramPercent_eq hread.2 (hfits.ram hlong).1, RamReached]
  refine and_iff_right_of_imp fun hreached => ⟨?_, hread.1⟩
  by_contra htotal
  have hzero : e.totalKb = 0 := by omega
  rw [hzero, Int.ediv_zero] at hreached
  omega

/-- The disk of such a call. -/
theorem diskFires_iff {s : AlertState} (hthreshold : 0 < cfg.diskThresholdPercent)
    (h : AlertsKept cfg startTime es s) (hfits : AlertFits cfg startTime es e) : DiskFires cfg s e ↔
      DiskReached cfg e ∧ LongAgo cfg startTime es e diskTitle := by
  have hfires : DiskFires cfg s e ↔
      (∃ d ∈ e.disk, 0 < d.blocks ∧ cfg.diskThresholdPercent ≤ diskPercent d) ∧
        cooled cfg e.now ((lastAlert cfg startTime es diskTitle).getD 0) := by
    rw [DiskFires, h.disk, and_iff_right hthreshold]
    constructor
    · rintro ⟨d, hd, hblocks, hreached, hcooled⟩
      exact ⟨⟨d, hd, hblocks, hreached⟩, hcooled⟩
    · rintro ⟨⟨d, hd, hblocks, hreached⟩, hcooled⟩
      exact ⟨d, hd, hblocks, hreached, hcooled⟩
  rw [hfires]
  refine fires_iff fun hlong => ⟨exists_congr fun d => and_congr_right fun hd => ?_,
    (hfits.disk hlong).2⟩
  by_cases hblocks : 0 < d.blocks
  · obtain ⟨hfree, htotal, hfit⟩ := (hfits.disk hlong).1 d hd hblocks
    have hfrsize : 0 < d.frsize := Nat.pos_of_ne_zero fun hzero =>
      hfits.size d hd hblocks (by rw [hzero, Nat.mul_zero, Nat.zero_mod])
    rw [and_iff_right hblocks, diskPercent_eq hfree hfrsize htotal hfit]
  · have hzero : d.blocks = 0 := Nat.eq_zero_of_not_pos hblocks
    rw [hzero, Int.natCast_zero, Int.ediv_zero]
    exact iff_of_false (fun h => absurd h.1 (by decide)) (by omega)

/-- The process goes on, and the times are kept. -/
theorem exists_keeps (hfits : ∀ before r after, es = before ++ r :: after →
      AlertFits cfg startTime before r) :
    ∃ s, Machine.final (alertStep cfg) (some { startTime }) es = some s ∧
      AlertsKept cfg startTime es s := by
  induction es using List.reverseRecOn with
  | nil => exact ⟨_, rfl, rfl, rfl⟩
  | append_singleton es e ih =>
      obtain ⟨s, hfinal, hkeeps⟩ := ih fun before r after heq =>
        hfits before r (after ++ [e]) (by rw [heq, List.append_assoc, List.cons_append])
      exact hkeeps.concat hfinal (hfits es e [] rfl).size

/-- **Alerts are queued exactly when they are due** in a run in which all readings can be computed
with. -/
theorem alertsWhenDue_of_along (hram : 0 < cfg.ramThresholdPercent)
    (hdisk : 0 < cfg.diskThresholdPercent)
    (hread : ∀ r ∈ es ++ [e], 0 ≤ r.availKb ∧ r.availKb ≤ r.totalKb)
    (hfits : ∀ before r after, es ++ [e] = before ++ r :: after →
      AlertFits cfg startTime before r) : AlertsWhenDue cfg startTime es e := by
  have hbefore : ∀ before r after, es = before ++ r :: after →
      AlertFits cfg startTime before r := fun before r after heq =>
    hfits before r (after ++ [e]) (by rw [heq, List.append_assoc, List.cons_append])
  obtain ⟨s, hfinal, hkeeps⟩ := exists_keeps hbefore
  have hfit := hfits es e [] rfl
  obtain ⟨s', -, hramCheck, hdiskCheck⟩ := handles_queued hfinal hfit.size
  have hlast := hread e (List.mem_append_right _ List.mem_cons_self)
  exact ⟨hramCheck.queues.trans (ramFires_iff hram hlast hkeeps hfit),
    hdiskCheck.queues.trans (diskFires_iff hdisk hkeeps hfit)⟩

end

/-- Readings of a memory, with half of the disk free. -/
def memoryReadings (totalKb availKb : ℤ) : AlertReadings :=
  { now := 1000000, totalKb, availKb, disk := some { blocks := 1000, bfree := 500, frsize := 4096 }
    modelFn := none, temp := [], ramId := "a", diskId := "b", modelId := "c", tempId := "d" }

/-- Eight gigabytes that are nearly used up. -/
theorem alertsWhenDue_memoryReadings :
    AlertsWhenDue {} 0 [] (memoryReadings 8000000 1000000) := by
  refine alertsWhenDue_of_along (by decide) (by decide)
    (List.forall_mem_singleton.mpr ⟨by decide, by decide⟩) fun before r after heq => ?_
  obtain ⟨rfl, heq⟩ := (List.append_eq_cons_iff.mp heq.symm).resolve_right fun ⟨l, _, hnil⟩ =>
    absurd (List.append_eq_nil_iff.mp hnil.symm).2 (List.cons_ne_nil _ _)
  obtain rfl := (List.cons.inj heq).1
  refine ⟨fun _ => ⟨by decide, fun _ _ => by decide⟩, ?_, fun _ => ⟨?_, fun _ _ => by decide⟩⟩
  · rintro d hd -
    obtain rfl := Option.some.inj hd
    decide
  · rintro d hd -
    obtain rfl := Option.some.inj hd
    decide

/-- Thirty-two gigabytes that are used up. -/
theorem not_alertsWhenDue : ¬∀ (cfg : AlertConfig) (startTime : ℤ) (es : List AlertReadings)
    (e : AlertReadings), 0 < cfg.cooldownSeconds → 0 < cfg.ramThresholdPercent →
      0 < cfg.diskThresholdPercent →
      (∀ r ∈ es ++ [e], 0 ≤ r.availKb ∧ r.availKb ≤ r.totalKb ∧ r.totalKb < 2 ^ 31) →
      (es ++ [e]).Pairwise (fun r r' => r.now ≤ r'.now) → AlertsWhenDue cfg startTime es e :=
    fun h => by
  have hdue := h {} 0 [] (memoryReadings 33554432 0) (by decide) (by decide) (by decide)
    (List.forall_mem_singleton.mpr ⟨by decide, by decide, by decide⟩) (List.pairwise_singleton _ _)
  have hsilent : ¬Queues ramTitle (queued {} 0 [] (memoryReadings 33554432 0)) := by
    decide +kernel
  exact hsilent (hdue.ram.mpr ⟨by decide +kernel, nofun⟩)

end Llamaste
