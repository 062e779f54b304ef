import Llamaste.Lib.Text

/-!
# Mounting the data partition

At boot the data partition is searched in two phases: first under the names where it is
expected, then among all partitions that the system lists. A visit of a device reads its
superblock, mounts it, retries without the journal after an I/O error, and as a last
resort of the first phase makes a new file system on it. What the system answers in a
visit is a parameter of the visit; what is done to the devices is listed as effects.

Source: `init.cpp`, `try_mount_data_partition`, `init_mount_data`.

## Main results

* `mem_dataCandidates_of_mkfs`: what is formatted is an expected device that could not be
  read, or that carries the ext4 magic.
* `initMountData_spares_data_iff`: when no device that may hold data is formatted.
* `not_initMountData_spares_data`: an ext4 file system that does not mount is formatted.
-/

namespace Llamaste

/-! ### One visit -/

/-- `EIO`. -/
def eio : ℕ := 5

/-- What the system answers while one device is visited. A mount answers `none` for
success or an error number; `superblock` is what `pread` returned, `none` if the device
did not open. -/
structure Visit where
  present : Bool
  superblock : Option Bytes
  mount : Option ℕ
  noload : Option ℕ
  remount : Option ℕ
  executable : Text → Bool
  forks : Bool
  mkfsStatus : ℕ
  mountAfterMkfs : Option ℕ

/-- What is done to the devices and to `/data`. -/
inductive MountEffect
  | growGpt (device : Text)
  | growExt4 (device : Text)
  | mountData (device : Text)
  | remountData
  | mkfs (device : Text)
  | mountTmpfs
  deriving DecidableEq

/-- The number of bytes that a read must return to contain the magic. -/
def superblockSize : ℕ := 1082

/-- The ext4 magic, at offset 1080, of a read that is long enough. -/
def superblockMagic (sb : Bytes) : Option ℕ :=
  if superblockSize ≤ sb.length then
    some ((sb.getD 1080 0).toNat + 256 * (sb.getD 1081 0).toNat)
  else none

/-- The magic of ext4. -/
def ext4Magic : ℕ := 0xEF53

/-- The superblock was read and does not carry the ext4 magic. -/
def Visit.notExt4 (v : Visit) : Bool :=
  match v.superblock.bind superblockMagic with
  | some magic => magic ≠ ext4Magic
  | none => false

/-- `mkfs_paths`. -/
def mkfsPaths : List Text :=
  ["/sbin/mkfs.ext4", "/usr/sbin/mkfs.ext4", "/bin/mkfs.ext4", "/usr/bin/mkfs.ext4"]

/-- The last resort: make a file system and mount it. -/
def recreate (device : Text) (v : Visit) : Bool × List MountEffect :=
  if (mkfsPaths.find? v.executable).isSome then
    if v.forks then
      if v.mkfsStatus = 0 ∧ v.mountAfterMkfs = none then
        (true, [.mkfs device, .mountData device])
      else (false, [.mkfs device])
    else (false, [])
  else (false, [])

/-- `try_mount_data_partition`: whether the device is mounted on `/data`, and what was
done. -/
def tryMountDataPartition (device : Text) (v : Visit) (allowFormat : Bool) :
    Bool × List MountEffect :=
  if v.notExt4 then (false, [])
  else
    match v.mount with
    | none => (true, [.growGpt device, .mountData device, .growExt4 device])
    | some e =>
        if e = eio ∧ v.noload = none then
          (true, [.growGpt device, .mountData device] ++
            (if v.remount = none then [.remountData] else []) ++ [.growExt4 device])
        else if allowFormat then
          ((recreate device v).1, .growGpt device :: (recreate device v).2)
        else (false, [.growGpt device])

/-! ### The two phases -/

/-- The static candidates. -/
def dataCandidates : List Text :=
  ["/dev/vda5", "/dev/sda5", "/dev/sdb5", "/dev/sdc5", "/dev/nvme0n1p5",
   "/dev/vda4", "/dev/sda4", "/dev/sdb4", "/dev/sdc4", "/dev/nvme0n1p4"]

/-- One phase: devices are visited in order until one is mounted. -/
def mountPhase (allowFormat : Bool) : List (Text × Visit) → Bool × List MountEffect
  | [] => (false, [])
  | (device, v) :: rest =>
      if v.present then
        let (mounted, effects) := tryMountDataPartition device v allowFormat
        if mounted then (true, effects)
        else
          let (mounted, more) := mountPhase allowFormat rest
          (mounted, effects ++ more)
      else mountPhase allowFormat rest

/-- What the system answers during the whole search: the visits of the candidates, and
the discovered partitions with their visits. -/
structure MountEnv where
  candidate : Text → Visit
  discovered : List (Text × Visit)

/-- The candidates with their visits. -/
def MountEnv.phase1 (env : MountEnv) : List (Text × Visit) :=
  dataCandidates.map fun device => (device, env.candidate device)

/-- The discovered partitions that have not been tried. -/
def MountEnv.phase2 (env : MountEnv) : List (Text × Visit) :=
  env.discovered.filter fun dv => dv.1 ∉ dataCandidates

/-- `init_mount_data`. -/
def initMountData (env : MountEnv) : Bool × List MountEffect :=
  let (mounted, effects) := mountPhase true env.phase1
  if mounted then (true, effects)
  else
    let (mounted, more) := mountPhase false env.phase2
    if mounted then (true, effects ++ more) else (false, effects ++ more ++ [.mountTmpfs])

/-! ### What is formatted -/

/-- The device can be mounted as it is: at once, or without its journal after an I/O
error. -/
def Visit.Mountable (v : Visit) : Prop :=
  v.mount = none ∨ v.mount = some eio ∧ v.noload = none

/-- The visit ends with the device mounted as it is. -/
def Visit.Mounts (v : Visit) : Prop :=
  v.present = true ∧ v.notExt4 = false ∧ v.Mountable

/-- The visit ends with a new file system: the device is not skipped, does not mount, and
the program that makes file systems can be run. -/
def Visit.Reformats (v : Visit) : Prop :=
  v.present = true ∧ v.notExt4 = false ∧ ¬ v.Mountable ∧
    (mkfsPaths.find? v.executable).isSome ∧ v.forks = true

/-- How a visit can go: the device is skipped, mounted as it is, or left to the last
resort. -/
theorem tryMount_cases (device : Text) (v : Visit) (allowFormat : Bool) :
    (v.notExt4 = true ∧ tryMountDataPartition device v allowFormat = (false, [])) ∨
    (v.notExt4 = false ∧ v.Mountable ∧ ∃ effects, (∀ d, MountEffect.mkfs d ∉ effects) ∧
      tryMountDataPartition device v allowFormat = (true, effects)) ∨
    (v.notExt4 = false ∧ ¬ v.Mountable ∧
      tryMountDataPartition device v allowFormat =
        if allowFormat then
          ((recreate device v).1, .growGpt device :: (recreate device v).2)
        else (false, [.growGpt device])) := by
  rw [tryMountDataPartition]
  cases hskip : v.notExt4 with
  | true => exact Or.inl ⟨rfl, rfl⟩
  | false =>
      right
      simp only [Bool.false_eq_true, if_false, true_and]
      cases hmount : v.mount with
      | none =>
          exact Or.inl ⟨Or.inl hmount, _, by simp, rfl⟩
      | some e =>
          dsimp only
          by_cases hnoload : e = eio ∧ v.noload = none
          · rw [if_pos hnoload]
            refine Or.inl ⟨Or.inr ⟨hnoload.1 ▸ hmount, hnoload.2⟩, _, ?_, rfl⟩
            intro d
            split_ifs <;> simp
          · rw [if_neg hnoload]
            refine Or.inr ⟨?_, rfl⟩
            rintro (h | ⟨h, hn⟩)
            · rw [hmount] at h
              exact nomatch h
            · rw [hmount] at h
              exact hnoload ⟨Option.some.inj h, hn⟩

/-- The last resort formats the device it is given, if it can run the program at all. -/
theorem mkfs_mem_recreate_iff {device d : Text} {v : Visit} :
    MountEffect.mkfs d ∈ (recreate device v).2 ↔
      d = device ∧ (mkfsPaths.find? v.executable).isSome ∧ v.forks = true := by
  rw [recreate]
  split_ifs <;> simp_all

/-- The last resort mounts nothing that it did not format. -/
theorem recreate_fst_of_not_run {device : Text} {v : Visit}
    (h : ¬ ((mkfsPaths.find? v.executable).isSome ∧ v.forks = true)) :
    (recreate device v).1 = false := by
  rw [recreate]
  split_ifs <;> simp_all

/-- What a visit formats is the visited device, in the last resort, with permission. -/
theorem mkfs_mem_tryMount_iff {device d : Text} {v : Visit} {allowFormat : Bool}
    (hpresent : v.present = true) :
    MountEffect.mkfs d ∈ (tryMountDataPartition device v allowFormat).2 ↔
      d = device ∧ allowFormat = true ∧ v.Reformats := by
  rw [Visit.Reformats]
  rcases tryMount_cases device v allowFormat with
    ⟨hskip, htry⟩ | ⟨hskip, hmount, effects, heffects, htry⟩ | ⟨hskip, hmount, htry⟩
  · simp [htry, hskip]
  · simp [htry, hskip, hmount, heffects]
  · cases allowFormat with
    | true =>
        simp only [htry, if_true, List.mem_cons, reduceCtorEq, false_or, mkfs_mem_recreate_iff,
          hpresent, hskip, hmount, not_false_eq_true, true_and]
    | false => simp [htry]

/-- A visit that formats nothing mounts the device exactly when it can be mounted as it
is. -/
theorem tryMount_fst_iff {d : Text} {v : Visit} {f : Bool}
    (hpresent : v.present = true) (h : ¬ v.Reformats) :
    (tryMountDataPartition d v f).1 = true ↔ v.Mounts := by
  unfold Visit.Reformats at h
  rw [Visit.Mounts]
  rcases tryMount_cases d v f with
    ⟨hskip, htry⟩ | ⟨hskip, hmount, effects, heffects, htry⟩ | ⟨hskip, hmount, htry⟩
  · simp [htry, hskip]
  · simp [htry, hskip, hmount, hpresent]
  · have hrun : ¬ ((mkfsPaths.find? v.executable).isSome ∧ v.forks = true) := fun hrun =>
      h ⟨hpresent, hskip, hmount, hrun⟩
    cases f with
    | true => simp [htry, hmount, recreate_fst_of_not_run hrun]
    | false => simp [htry, hmount]

/-- What a phase formats are visited devices whose visit ends in the last resort, and
only with permission. -/
theorem reformats_of_mkfs_mem_mountPhase {allowFormat : Bool} {l : List (Text × Visit)}
    {d : Text} (h : MountEffect.mkfs d ∈ (mountPhase allowFormat l).2) :
    allowFormat = true ∧ ∃ v, (d, v) ∈ l ∧ v.Reformats := by
  induction l with
  | nil => exact nomatch h
  | cons dv l ih =>
      obtain ⟨device, v⟩ := dv
      have hrest : MountEffect.mkfs d ∈ (mountPhase allowFormat l).2 →
          allowFormat = true ∧ ∃ v', (d, v') ∈ (device, v) :: l ∧ v'.Reformats := by
        intro h
        obtain ⟨hallow, v', hmem, hv'⟩ := ih h
        exact ⟨hallow, v', List.mem_cons_of_mem _ hmem, hv'⟩
      have hhere : v.present = true →
          MountEffect.mkfs d ∈ (tryMountDataPartition device v allowFormat).2 →
          allowFormat = true ∧ ∃ v', (d, v') ∈ (device, v) :: l ∧ v'.Reformats := by
        intro hpresent h
        obtain ⟨rfl, hallow, hv⟩ := (mkfs_mem_tryMount_iff hpresent).mp h
        exact ⟨hallow, v, List.mem_cons_self, hv⟩
      unfold mountPhase at h
      by_cases hpresent : v.present = true
      · simp only [hpresent, if_true] at h
        split_ifs at h
        · exact hhere hpresent h
        · rcases List.mem_append.mp h with h | h
          · exact hhere hpresent h
          · exact hrest h
      · simp only [hpresent, if_false, Bool.false_eq_true] at h
        exact hrest h

/-- With permission, a phase formats something exactly when it comes to a device whose
visit ends in the last resort, before one is mounted. -/
theorem exists_mkfs_mem_mountPhase_iff (l : List (Text × Visit)) :
    (∃ d, MountEffect.mkfs d ∈ (mountPhase true l).2) ↔
      ∃ before dv after, l = before ++ dv :: after ∧ (∀ y ∈ before, ¬ y.2.Mounts) ∧
        dv.2.Reformats := by
  induction l with
  | nil => simp [mountPhase]
  | cons dv l ih =>
      obtain ⟨device, v⟩ := dv
      by_cases hv : v.Reformats
      · refine iff_of_true ⟨device, ?_⟩ ⟨[], (device, v), l, rfl, (fun _ h => nomatch h), hv⟩
        have hmem : MountEffect.mkfs device ∈ (tryMountDataPartition device v true).2 :=
          (mkfs_mem_tryMount_iff hv.1).mpr ⟨rfl, rfl, hv⟩
        simp only [mountPhase, hv.1, if_true]
        split_ifs
        · exact hmem
        · exact List.mem_append_left _ hmem
      · have hgoal : (∃ before dv after, (device, v) :: l = before ++ dv :: after ∧
            (∀ y ∈ before, ¬ y.2.Mounts) ∧ dv.2.Reformats) ↔
            ¬ v.Mounts ∧ ∃ before dv after, l = before ++ dv :: after ∧
              (∀ y ∈ before, ¬ y.2.Mounts) ∧ dv.2.Reformats := by
          constructor
          · rintro ⟨before, dv, after, hsplit, hbefore, hdv⟩
            cases before with
            | nil =>
                obtain ⟨rfl, -⟩ := List.cons.inj hsplit
                exact absurd hdv hv
            | cons b before =>
                obtain ⟨rfl, hl⟩ := List.cons.inj hsplit
                exact ⟨hbefore _ List.mem_cons_self, before, dv, after, hl,
                  fun y hy => hbefore y (List.mem_cons_of_mem _ hy), hdv⟩
          · rintro ⟨hmounts, before, dv, after, rfl, hbefore, hdv⟩
            exact ⟨(device, v) :: before, dv, after, rfl,
              List.forall_mem_cons.mpr ⟨hmounts, hbefore⟩, hdv⟩
        rw [hgoal, ← ih]
        by_cases hpresent : v.present = true
        · have hnone : ∀ d, MountEffect.mkfs d ∉ (tryMountDataPartition device v true).2 :=
            fun d hd => hv ((mkfs_mem_tryMount_iff hpresent).mp hd).2.2
          rw [← tryMount_fst_iff (d := device) (f := true) hpresent hv]
          simp only [mountPhase, hpresent, if_true]
          split_ifs with hmounted
          · simp [hmounted, hnone]
          · simp [hmounted, hnone]
        · have hmounts : ¬ v.Mounts := fun h => hpresent h.1
          simp [mountPhase, hpresent, hmounts]

/-! ### The whole search -/

/-- The whole search formats what its first phase formats. -/
theorem mkfs_mem_initMountData_iff {env : MountEnv} {d : Text} :
    MountEffect.mkfs d ∈ (initMountData env).2 ↔
      MountEffect.mkfs d ∈ (mountPhase true env.phase1).2 := by
  have hphase2 : MountEffect.mkfs d ∉ (mountPhase false env.phase2).2 := fun h =>
    absurd (reformats_of_mkfs_mem_mountPhase h).1 Bool.false_ne_true
  rw [initMountData]
  dsimp only
  split_ifs
  · rfl
  · simp [hphase2]
  · simp [hphase2]

/-- What is formatted is a static candidate whose visit ends in the last resort. In
particular, no partition that only the second phase finds is ever formatted. -/
theorem mem_dataCandidates_of_mkfs {env : MountEnv} {d : Text}
    (h : MountEffect.mkfs d ∈ (initMountData env).2) :
    d ∈ dataCandidates ∧ (env.candidate d).Reformats := by
  obtain ⟨-, v, hmem, hv⟩ :=
    reformats_of_mkfs_mem_mountPhase (mkfs_mem_initMountData_iff.mp h)
  obtain ⟨device, hdevice, heq⟩ := List.mem_map.mp hmem
  obtain ⟨rfl, rfl⟩ := Prod.mk.inj heq
  exact ⟨hdevice, hv⟩

/-- The last resort is in reach: a candidate that could not be read or carries the ext4
magic does not mount, and no candidate before it does. -/
def MountEnv.Endangered (env : MountEnv) : Prop :=
  ∃ before device after, dataCandidates = before ++ device :: after ∧
    (∀ c ∈ before, ¬ (env.candidate c).Mounts) ∧ (env.candidate device).Reformats

/-- **When data survives the boot.** The search formats nothing but candidates whose
superblock was read and is not ext4 exactly when the last resort is out of reach. -/
theorem initMountData_spares_data_iff (env : MountEnv) :
    (∀ d, MountEffect.mkfs d ∈ (initMountData env).2 →
      d ∈ dataCandidates ∧ (env.candidate d).notExt4 = true) ↔ ¬ env.Endangered := by
  have hreach : (∃ d, MountEffect.mkfs d ∈ (initMountData env).2) ↔ env.Endangered := by
    simp only [mkfs_mem_initMountData_iff]
    rw [exists_mkfs_mem_mountPhase_iff]
    unfold MountEnv.phase1 MountEnv.Endangered
    constructor
    · rintro ⟨before, dv, after, hsplit, hbefore, hdv⟩
      obtain ⟨before, rest, hcandidates, rfl, hrest⟩ := List.map_eq_append_iff.mp hsplit
      obtain ⟨device, after, rfl, rfl, rfl⟩ := List.map_eq_cons_iff.mp hrest
      exact ⟨before, device, after, hcandidates,
        fun c hc => hbefore _ (List.mem_map_of_mem hc), hdv⟩
    · rintro ⟨before, device, after, hcandidates, hbefore, hdevice⟩
      refine ⟨before.map fun c => (c, env.candidate c), (device, env.candidate device),
        after.map fun c => (c, env.candidate c), by rw [hcandidates]; simp, ?_, hdevice⟩
      intro y hy
      obtain ⟨c, hc, rfl⟩ := List.mem_map.mp hy
      exact hbefore c hc
  rw [← hreach, not_exists]
  constructor
  · intro h d hd
    have hskip := (h d hd).2
    rw [(mem_dataCandidates_of_mkfs hd).2.2.1] at hskip
    cases hskip
  · exact fun h d hd => absurd hd (h d)

/-- A disk whose ext4 data partition cannot be mounted for want of memory. -/
def enomemVisit : Visit where
  present := true
  superblock := some (List.replicate 1080 0 ++ [0x53, 0xEF] ++ List.replicate 966 0)
  mount := some 12
  noload := some 12
  remount := none
  executable _ := true
  forks := true
  mkfsStatus := 0
  mountAfterMkfs := none

/-- Its file system is made anew. -/
theorem not_initMountData_spares_data :
    ¬ ∀ (env : MountEnv) (d : Text), MountEffect.mkfs d ∈ (initMountData env).2 →
      d ∈ dataCandidates ∧ (env.candidate d).notExt4 = true := by
  intro h
  have hmkfs : MountEffect.mkfs "/dev/vda5" ∈
      (initMountData ⟨fun _ => enomemVisit, []⟩).2 := by decide +kernel
  have hext4 : enomemVisit.notExt4 = false := by decide +kernel
  have := (h _ _ hmkfs).2
  rw [hext4] at this
  cases this

end Llamaste
