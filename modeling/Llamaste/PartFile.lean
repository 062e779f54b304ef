import Mathlib
import Llamaste.Lib.Text
import Llamaste.Lib.Threads

/-!
# Part files

A model file is fetched into a part file, from where an earlier attempt has left it, and gets its
final name when it is complete. Attempts are made by the model tools and by the automatic upgrade,
which differ in what they do with the body of an error; an attempt may break off at any point.
Source: `tools_model_download.cpp`, `child_main.cpp`.

## Main results

* `dest_of_along`: when attempts do not overlap and no part of the body of an error is left in the
  part file, a file under the final name is the remote file.
* `not_dest`: the automatic upgrade leaves the body of an error in the part file.
-/

namespace Llamaste

/-! ### Open files -/

/-- An open file: writes go to its end, or to a position of its own. -/
structure OpenFile where
  inode : ℕ
  append : Bool
  pos : ℕ := 0
  deriving DecidableEq

namespace OpenFile

/-- The content of the file after a write. -/
def write (f : OpenFile) (chunk content : Bytes) : Bytes :=
  if f.append then content ++ chunk
  else content.takeD f.pos 0 ++ chunk ++ content.drop (f.pos + chunk.length)

/-- The open file after a write. -/
def advance (f : OpenFile) (chunk : Bytes) : OpenFile := { f with pos := f.pos + chunk.length }

/-- A write goes to the end of the content. -/
def AtEnd (f : OpenFile) (content : Bytes) : Prop := f.append = true ∨ f.pos = content.length

theorem AtEnd.write {f : OpenFile} {content : Bytes} (h : f.AtEnd content) (chunk : Bytes) :
    f.write chunk content = content ++ chunk := by
  rw [OpenFile.write]
  split_ifs with happend
  · rfl
  · have hpos : f.pos = content.length := h.resolve_left happend
    rw [hpos, List.takeD_eq_take _ le_rfl, List.take_length,
      List.drop_eq_nil_of_le (Nat.le_add_right _ _), List.append_nil]

theorem AtEnd.advance {f : OpenFile} {content : Bytes} (h : f.AtEnd content) (chunk : Bytes) :
    (f.advance chunk).AtEnd (content ++ chunk) := by
  refine h.imp id fun hpos => ?_
  rw [OpenFile.advance, List.length_append, hpos]

end OpenFile

/-! ### Attempts -/

/-- Who fetches: `download_single_file`, or the thread of `do_auto_upgrade_check`. -/
inductive AttemptKind
  | single
  | upgrade
  deriving DecidableEq

/-- An attempt and what the system and the server do in it: whether the part file can be opened
and the transfer set up, the status, the sizes of the chunks in which the rest of the file comes
or the chunks of the body of an error, whether the transfer breaks off behind them, and whether
the part file can be deleted and renamed. A process that ends during an attempt ends it at the
next of these points. -/
structure Attempt where
  kind : AttemptKind
  opens : Bool := true
  inits : Bool := true
  code : ℕ := 200
  sizes : List ℕ := []
  errorBody : List Bytes := []
  broken : Bool := false
  unlinks : Bool := true
  renames : Bool := true

/-- The bytes of files by number, the files that the two names stand for, and
`g_upgrade_downloading`. -/
structure PartState where
  files : List Bytes := []
  part : Option ℕ := none
  dest : Option ℕ := none
  upgrading : Bool := false

namespace PartState

/-- The size of the part file, and 0 if there is none. -/
def partSize (g : PartState) : ℕ := ((g.part.bind (g.files[·]?)).map List.length).getD 0

/-- The content of a file changes. -/
def change (g : PartState) (n : ℕ) (f : Bytes → Bytes) : PartState :=
  { g with files := g.files.modify n f }

/-- A new empty part file. -/
def create (g : PartState) : PartState :=
  { g with files := g.files ++ [[]], part := some g.files.length }

/-- `fopen` of the part file, for appending if it was found to have bytes, else for writing. -/
def openPart (g : PartState) (existing : ℕ) : PartState × OpenFile :=
  match g.part with
  | some n =>
    if 0 < existing then (g, { inode := n, append := true })
    else (g.change n fun _ => [], { inode := n, append := false })
  | none => (g.create, { inode := g.files.length, append := decide (0 < existing) })

/-- A chunk is written to an open file. -/
def write (g : PartState) (f : OpenFile) (chunk : Bytes) : PartState :=
  g.change f.inode (f.write chunk)

/-- `unlink` of the part file. -/
def unlinkPart (g : PartState) : PartState := { g with part := none }

/-- `rename` of the part file to its final name. -/
def renamePart (g : PartState) : PartState :=
  match g.part with
  | some n => { g with dest := some n, part := none }
  | none => g

end PartState

/-- Where an attempt stands. -/
inductive AttemptPc
  | waiting
  | passed
  | measuring
  | measured (existing : ℕ)
  | opened (f : OpenFile) (existing : ℕ)
  | receiving (f : OpenFile) (chunks : List Bytes) (received : ℕ)
  | closed (received : ℕ)
  | leaving
  | ended
  deriving DecidableEq

/-- The attempt has measured the part file and is not through with it. -/
def AttemptPc.inside : AttemptPc → Bool
  | measured _ | opened _ _ | receiving _ _ _ | closed _ => true
  | _ => false

/-- Bytes in chunks of the given sizes, with what is left at the end unless it breaks off. -/
def chunksOf (broken : Bool) : List ℕ → Bytes → List Bytes
  | [], rest => if broken then [] else [rest]
  | size :: sizes, rest => rest.take size :: chunksOf broken sizes (rest.drop size)

variable (remote : Bytes)

/-- What the server sends to a request from the given offset on. -/
def Attempt.body (a : Attempt) (existing : ℕ) : List Bytes :=
  if 400 ≤ a.code then a.errorBody else chunksOf a.broken a.sizes (remote.drop existing)

/-- What follows a complete transfer. -/
def Attempt.settle (a : Attempt) (g : PartState) : PartState :=
  if 400 ≤ a.code then
    match a.kind with
    | .single => if a.unlinks then g.unlinkPart else g
    | .upgrade => g
  else if a.renames then g.renamePart else g

/-- One step of an attempt. -/
def Attempt.move (a : Attempt) (g : PartState) : AttemptPc → PartState × AttemptPc
  | .waiting => if g.dest.isSome then (g, .ended) else (g, .passed)
  | .passed =>
    match a.kind with
    | .single => (g, .measuring)
    | .upgrade => if g.upgrading then (g, .ended) else ({ g with upgrading := true }, .measuring)
  | .measuring => (g, .measured g.partSize)
  | .measured existing =>
    if a.opens then ((g.openPart existing).1, .opened (g.openPart existing).2 existing)
    else (g, .leaving)
  | .opened f existing =>
    if a.inits then (g, .receiving f (a.body remote existing) 0) else (g, .leaving)
  | .receiving _ [] received => if a.broken then (g, .leaving) else (g, .closed received)
  | .receiving f (chunk :: chunks) received =>
    (g.write f chunk, .receiving (f.advance chunk) chunks (received + chunk.length))
  | .closed _ => (a.settle g, .leaving)
  | .leaving =>
    match a.kind with
    | .single => (g, .ended)
    | .upgrade => ({ g with upgrading := false }, .ended)
  | .ended => (g, .ended)

variable {ι : Type*} (attempts : ι → Attempt)

/-- One step of a thread. -/
def attemptAct (i : ι) (s : PartState × AttemptPc) : PartState × AttemptPc :=
  (attempts i).move remote s.1 s.2

/-- Before the first attempt. -/
def partStart : PartState × (ι → AttemptPc) := ({}, fun _ => .waiting)

/-- What the next step of an attempt needs: it measures the part file when no other attempt is at
it; and it neither breaks off behind bytes of the body of an error nor leaves them in the file. -/
def OrderlyAt (s : PartState × (ι → AttemptPc)) (a : Attempt) : AttemptPc → Prop
  | .measuring => ∀ j, (s.2 j).inside = false
  | .receiving _ [] received => 400 ≤ a.code → a.broken = true → received = 0
  | .closed received => 400 ≤ a.code → received = 0 ∨ (a.kind = .single ∧ a.unlinks = true)
  | _ => True

/-- A step is orderly. -/
def Orderly (s : PartState × (ι → AttemptPc)) (i : ι) : Prop := OrderlyAt s (attempts i) (s.2 i)

instance [Fintype ι] (s : PartState × (ι → AttemptPc)) (a : Attempt) :
    ∀ pc, Decidable (OrderlyAt s a pc)
  | .measuring => inferInstanceAs (Decidable (∀ _, _ = false))
  | .receiving _ [] _ => inferInstanceAs (Decidable (_ → _ → _))
  | .closed _ => inferInstanceAs (Decidable (_ → _))
  | .waiting | .passed | .measured _ | .opened _ _ | .receiving _ (_ :: _) _ | .leaving
  | .ended => isTrue trivial

instance [Fintype ι] (s : PartState × (ι → AttemptPc)) (i : ι) :
    Decidable (Orderly attempts s i) :=
  inferInstanceAs (Decidable (OrderlyAt s (attempts i) (s.2 i)))

/-! ### What attempts keep -/

variable {remote attempts}

theorem initial_chunksOf (broken : Bool) (sizes : List ℕ) (rest : Bytes) :
    (chunksOf broken sizes rest).flatten <+: rest := by
  induction sizes generalizing rest with
  | nil =>
    rw [chunksOf]
    split_ifs
    · exact List.nil_prefix
    · simp
  | cons size sizes ih =>
    rw [chunksOf, List.flatten_cons]
    conv_rhs => rw [← List.take_append_drop size rest]
    exact (List.prefix_append_right_inj _).mpr (ih _)

theorem chunksOf_complete (sizes : List ℕ) (rest : Bytes) :
    (chunksOf false sizes rest).flatten = rest := by
  induction sizes generalizing rest with
  | nil => simp [chunksOf]
  | cons size sizes ih => rw [chunksOf, List.flatten_cons, ih, List.take_append_drop]

namespace PartState

/-- The file under the final name is the remote file, and another one than the part file. -/
def Final (remote : Bytes) (g : PartState) : Prop :=
  ∀ n, g.dest = some n → g.files[n]? = some remote ∧ g.part ≠ some n

/-- The part file is the given content. -/
def PartIs (g : PartState) (n : ℕ) (content : Bytes) : Prop :=
  g.part = some n ∧ g.files[n]? = some content

/-- The part file, if there is one, is a beginning of the remote file. -/
def Resumable (remote : Bytes) (g : PartState) : Prop :=
  ∀ n, g.part = some n → ∃ content, g.files[n]? = some content ∧ content <+: remote

/-- No attempt is at the part file. -/
def Clean (remote : Bytes) (g : PartState) : Prop := g.Final remote ∧ g.Resumable remote

/-- What the files are while an attempt is at the part file. -/
def OwnedBy (remote : Bytes) (a : Attempt) (g : PartState) (pc : AttemptPc) : Prop :=
  g.Final remote ∧ match pc with
    | .measured existing => g.Resumable remote ∧ g.partSize = existing
    | .opened f existing => ∃ content, g.PartIs f.inode content ∧ f.AtEnd content ∧
        content <+: remote ∧ content.length = existing
    | .receiving f chunks received => ∃ content, g.PartIs f.inode content ∧ f.AtEnd content ∧
        if 400 ≤ a.code then received = 0 → content <+: remote
        else content ++ chunks.flatten <+: remote ∧
          (a.broken = false → content ++ chunks.flatten = remote)
    | .closed received => ∃ n content, g.PartIs n content ∧
        if 400 ≤ a.code then received = 0 → content <+: remote else content = remote
    | _ => False

theorem PartIs.resumable {g : PartState} {n : ℕ} {content : Bytes} (h : g.PartIs n content)
    (hcontent : content <+: remote) : g.Resumable remote := by
  intro m hm
  obtain rfl : n = m := Option.some.inj (h.1.symm.trans hm)
  exact ⟨content, h.2, hcontent⟩

theorem PartIs.lt {g : PartState} {n : ℕ} {content : Bytes} (h : g.PartIs n content) :
    n < g.files.length := (List.getElem?_eq_some_iff.mp h.2).1

/-- A change of the part file leaves the file under the final name alone. -/
theorem Final.change {g : PartState} (h : g.Final remote) {n : ℕ} (hn : g.part = some n)
    (f : Bytes → Bytes) : (g.change n f).Final remote := by
  intro m hm
  obtain ⟨hremote, hne⟩ := h m hm
  have hnm : n ≠ m := by
    rintro rfl
    exact hne hn
  refine ⟨?_, hne⟩
  rw [PartState.change, List.getElem?_modify, hremote, Option.map_eq_map, Option.map_some,
    if_neg hnm]

theorem PartIs.change {g : PartState} {n : ℕ} {content : Bytes} (h : g.PartIs n content)
    (f : Bytes → Bytes) : (g.change n f).PartIs n (f content) := by
  refine ⟨h.1, ?_⟩
  rw [PartState.change, List.getElem?_modify, h.2, Option.map_eq_map, Option.map_some, if_pos rfl]

theorem partSize_of_partIs {g : PartState} {n : ℕ} {content : Bytes} (h : g.PartIs n content) :
    g.partSize = content.length := by
  rw [partSize, h.1, Option.bind_some, h.2]
  rfl

theorem Final.create {g : PartState} (h : g.Final remote) : g.create.Final remote := by
  intro n hn
  obtain ⟨hremote, -⟩ := h n hn
  have hlt : n < g.files.length := (List.getElem?_eq_some_iff.mp hremote).1
  refine ⟨?_, fun hpart => ?_⟩
  · rw [PartState.create, List.getElem?_append_left hlt]
    exact hremote
  · exact absurd (Option.some.inj hpart) hlt.ne'

theorem partIs_create (g : PartState) : g.create.PartIs g.files.length [] :=
  ⟨rfl, by rw [create, List.getElem?_append_right le_rfl, Nat.sub_self]; rfl⟩

/-- Opening the part file at the size that was measured. -/
theorem ownedBy_openPart {g : PartState} {a : Attempt} {existing : ℕ}
    (h : g.OwnedBy remote a (.measured existing)) :
    (g.openPart existing).1.OwnedBy remote a (.opened (g.openPart existing).2 existing) := by
  obtain ⟨hfinal, hresumable, hsize⟩ := h
  cases hpart : g.part with
  | none =>
    have hzero : existing = 0 := by
      rw [← hsize, partSize, hpart]
      rfl
    rw [openPart, hpart]
    exact ⟨hfinal.create, [], partIs_create g, .inr rfl, List.nil_prefix, hzero.symm⟩
  | some n =>
    obtain ⟨content, hcontent, hprefix⟩ := hresumable n hpart
    have hpartIs : g.PartIs n content := ⟨hpart, hcontent⟩
    have hlen : content.length = existing := (partSize_of_partIs hpartIs).symm.trans hsize
    rw [openPart, hpart]
    dsimp only
    split_ifs with hexisting
    · exact ⟨hfinal, content, hpartIs, .inl rfl, hprefix, hlen⟩
    · exact ⟨hfinal.change hpart _, [], hpartIs.change _, .inr rfl, List.nil_prefix,
        (Nat.eq_zero_of_not_pos hexisting).symm⟩

/-- A chunk goes to the end of the part file. -/
theorem ownedBy_write {g : PartState} {a : Attempt} {f : OpenFile} {chunk : Bytes}
    {chunks : List Bytes} {received : ℕ}
    (h : g.OwnedBy remote a (.receiving f (chunk :: chunks) received)) :
    (g.write f chunk).OwnedBy remote a
      (.receiving (f.advance chunk) chunks (received + chunk.length)) := by
  obtain ⟨hfinal, content, hpart, hend, hcontent⟩ := h
  have hpart' := hpart.change (f.write chunk)
  rw [hend.write] at hpart'
  refine ⟨hfinal.change hpart.1 _, content ++ chunk, hpart', hend.advance chunk, ?_⟩
  split_ifs at hcontent ⊢ with hcode
  · intro hreceived
    obtain ⟨hzero, hchunk⟩ := Nat.add_eq_zero_iff.mp hreceived
    rw [List.eq_nil_of_length_eq_zero hchunk, List.append_nil]
    exact hcontent hzero
  · rw [List.flatten_cons, ← List.append_assoc] at hcontent
    exact hcontent

/-- The request asks for what is missing. -/
theorem ownedBy_request {g : PartState} {a : Attempt} {f : OpenFile} {existing : ℕ}
    (h : g.OwnedBy remote a (.opened f existing)) :
    g.OwnedBy remote a (.receiving f (a.body remote existing) 0) := by
  obtain ⟨hfinal, content, hpart, hend, hprefix, hlen⟩ := h
  refine ⟨hfinal, content, hpart, hend, ?_⟩
  rw [Attempt.body]
  split_ifs with hcode
  · exact fun _ => hprefix
  · have hremote : content ++ remote.drop existing = remote := by
      obtain ⟨missing, rfl⟩ := hprefix
      rw [← hlen, List.drop_left]
    refine ⟨?_, fun hbroken => ?_⟩
    · conv_rhs => rw [← hremote]
      exact (List.prefix_append_right_inj _).mpr (initial_chunksOf _ _ _)
    · rw [hbroken, chunksOf_complete, hremote]

/-- Where an attempt is left: it is still at the part file, or it leaves it clean. -/
def LeftBy (remote : Bytes) (a : Attempt) (g : PartState) (pc : AttemptPc) : Prop :=
  (g.Clean remote ∧ pc.inside = false) ∨ g.OwnedBy remote a pc

/-- What follows a transfer leaves the part file clean. -/
theorem clean_settle {g : PartState} {a : Attempt} {received : ℕ}
    (h : g.OwnedBy remote a (.closed received))
    (horderly : 400 ≤ a.code → received = 0 ∨ (a.kind = .single ∧ a.unlinks = true)) :
    (a.settle g).Clean remote := by
  obtain ⟨hfinal, n, content, hpart, hcontent⟩ := h
  have hunlinked : g.unlinkPart.Clean remote :=
    ⟨fun m hm => ⟨(hfinal m hm).1, nofun⟩, nofun⟩
  rw [Attempt.settle]
  by_cases hcode : 400 ≤ a.code
  · rw [if_pos hcode] at hcontent ⊢
    rcases horderly hcode with hreceived | ⟨hkind, hunlinks⟩
    · have hclean : g.Clean remote := ⟨hfinal, hpart.resumable (hcontent hreceived)⟩
      cases a.kind with
      | upgrade => exact hclean
      | single =>
        dsimp only
        split_ifs
        · exact hunlinked
        · exact hclean
    · rw [hkind, hunlinks]
      exact hunlinked
  · rw [if_neg hcode] at hcontent ⊢
    rw [hcontent] at hpart
    split_ifs
    · rw [renamePart, hpart.1]
      refine ⟨fun m hm => ⟨?_, nofun⟩, nofun⟩
      obtain rfl : n = m := Option.some.inj hm
      exact hpart.2
    · exact ⟨hfinal, hpart.resumable (List.prefix_refl remote)⟩

end PartState

/-- The attempt at the part file goes on with the files in its hands. -/
theorem leftBy_move {s : PartState × (ι → AttemptPc)} {a : Attempt} {pc : AttemptPc}
    (horderly : OrderlyAt s a pc) (h : s.1.OwnedBy remote a pc) :
    (a.move remote s.1 pc).1.LeftBy remote a (a.move remote s.1 pc).2 := by
  cases pc with
  | measured existing =>
    rw [Attempt.move]
    split_ifs
    · exact .inr (PartState.ownedBy_openPart h)
    · exact .inl ⟨⟨h.1, h.2.1⟩, rfl⟩
  | opened f existing =>
    rw [Attempt.move]
    split_ifs
    · exact .inr (PartState.ownedBy_request h)
    · obtain ⟨hfinal, content, hpart, -, hprefix, -⟩ := h
      exact .inl ⟨⟨hfinal, hpart.resumable hprefix⟩, rfl⟩
  | receiving f chunks received =>
    cases chunks with
    | cons chunk chunks => exact .inr (PartState.ownedBy_write h)
    | nil =>
      obtain ⟨hfinal, content, hpart, -, hcontent⟩ := h
      rw [List.flatten_nil, List.append_nil] at hcontent
      rw [Attempt.move]
      split_ifs with hbroken
      · refine .inl ⟨⟨hfinal, hpart.resumable ?_⟩, rfl⟩
        split_ifs at hcontent with hcode
        · exact hcontent (horderly hcode hbroken)
        · exact hcontent.1
      · refine .inr ⟨hfinal, f.inode, content, hpart, ?_⟩
        split_ifs at hcontent ⊢ with hcode
        · exact hcontent
        · exact hcontent.2 (Bool.eq_false_iff.mpr hbroken)
  | closed received => exact .inl ⟨PartState.clean_settle h horderly, rfl⟩
  | _ => exact h.2.elim

/-- Outside, an attempt changes at most `g_upgrade_downloading`, and it comes in by measuring. -/
theorem move_outside (remote : Bytes) {a : Attempt} {g : PartState} {pc : AttemptPc}
    (h : pc.inside = false) :
    (∃ upgrading, (a.move remote g pc).1 = { g with upgrading }) ∧
      ((a.move remote g pc).2.inside = false ∨
        pc = .measuring ∧ (a.move remote g pc).2 = .measured g.partSize) := by
  cases pc with
  | waiting =>
    rw [Attempt.move]
    split_ifs
    · exact ⟨⟨_, rfl⟩, .inl rfl⟩
    · exact ⟨⟨_, rfl⟩, .inl rfl⟩
  | passed =>
    rw [Attempt.move]
    cases a.kind with
    | single => exact ⟨⟨_, rfl⟩, .inl rfl⟩
    | upgrade =>
      dsimp only
      split_ifs
      · exact ⟨⟨_, rfl⟩, .inl rfl⟩
      · exact ⟨⟨_, rfl⟩, .inl rfl⟩
  | measuring => exact ⟨⟨_, rfl⟩, .inr ⟨rfl, rfl⟩⟩
  | leaving =>
    rw [Attempt.move]
    cases a.kind with
    | single => exact ⟨⟨_, rfl⟩, .inl rfl⟩
    | upgrade => exact ⟨⟨_, rfl⟩, .inl rfl⟩
  | ended => exact ⟨⟨_, rfl⟩, .inl rfl⟩
  | _ => exact nomatch h

/-- What an owner relies on does not read `g_upgrade_downloading`. -/
theorem PartState.OwnedBy.upgrading {a : Attempt} {g : PartState} {pc : AttemptPc}
    (h : g.OwnedBy remote a pc) (upgrading : Bool) :
    PartState.OwnedBy remote a { g with upgrading } pc := by
  cases pc <;> exact h

theorem PartState.OwnedBy.inside {a : Attempt} {g : PartState} {pc : AttemptPc}
    (h : g.OwnedBy remote a pc) : pc.inside = true := by
  cases pc <;> first | rfl | exact h.2.elim

/-- Either no attempt is at the part file, or one is. -/
def PartPhase (remote : Bytes) (attempts : ι → Attempt) : PartState × (ι → AttemptPc) → Prop :=
  Threads.OneOwner (·.Clean remote) (·.inside = false)
    fun i => PartState.OwnedBy remote (attempts i)

variable [DecidableEq ι]

theorem PartPhase.step {s : PartState × (ι → AttemptPc)} {i : ι}
    (horderly : Orderly attempts s i) (h : PartPhase remote attempts s) :
    PartPhase remote attempts (Threads.step (attemptAct remote attempts) s i) := by
  rw [Orderly] at horderly
  refine Threads.OneOwner.step h (fun hclean hout => ?_) (fun howned => leftBy_move horderly howned)
    fun k _ howned hout => ?_
  · obtain ⟨⟨upgrading, hsame⟩, hpc | ⟨-, hpc⟩⟩ :=
      move_outside remote (a := attempts i) (g := s.1) hout
    · rw [attemptAct, hsame]
      exact .inl ⟨hclean, hpc⟩
    · rw [attemptAct, hsame, hpc]
      exact .inr ⟨hclean.1, hclean.2, rfl⟩
  · obtain ⟨⟨upgrading, hsame⟩, hpc | ⟨hmeasuring, -⟩⟩ :=
      move_outside remote (a := attempts i) (g := s.1) hout
    · rw [attemptAct, hsame]
      exact ⟨hpc, howned.upgrading upgrading⟩
    · rw [hmeasuring] at horderly
      exact absurd howned.inside (Bool.eq_false_iff.mp (horderly k))

omit [DecidableEq ι] in
theorem clean_start (remote : Bytes) : (partStart (ι := ι)).1.Clean remote :=
  ⟨fun _ h => absurd h.symm (Option.some_ne_none _),
    fun _ h => absurd h.symm (Option.some_ne_none _)⟩

/-- **A resumed download is the remote file**, as long as the attempts are orderly. -/
theorem dest_of_along (remote : Bytes) (attempts : ι → Attempt) {schedule : List ι}
    (h : Threads.Along (attemptAct remote attempts) (Orderly attempts) partStart schedule) {n : ℕ}
    (hdest : (Threads.run (attemptAct remote attempts) partStart schedule).1.dest = some n) :
    (Threads.run (attemptAct remote attempts) partStart schedule).1.files[n]? = some remote := by
  have hphase : PartPhase remote attempts
      (Threads.run (attemptAct remote attempts) partStart schedule) :=
    h.run_invariant (I := PartPhase remote attempts) (fun _ _ horderly hs => hs.step horderly)
      (.inl ⟨clean_start remote, fun _ => rfl⟩)
  rcases hphase with ⟨hclean, -⟩ | ⟨k, -, howned⟩
  · exact (hclean.1 n hdest).1
  · exact (howned.1 n hdest).1

/-- A transfer that breaks off behind two bytes, one that gets an error, and two complete ones. -/
def sampleAttempts : Fin 4 → Attempt
  | 0 => { kind := .single, sizes := [2], broken := true }
  | 1 => { kind := .upgrade, code := 503 }
  | 2 => { kind := .upgrade, sizes := [1] }
  | 3 => { kind := .single }

theorem dest_sampleAttempts :
    (Threads.run (attemptAct [1, 2, 3, 4, 5] sampleAttempts) partStart
      (List.replicate 9 0 ++ List.replicate 9 1 ++ List.replicate 10 2 ++ [3, 3])).1.files[0]? =
        some [1, 2, 3, 4, 5] :=
  dest_of_along [1, 2, 3, 4, 5] sampleAttempts (by decide +kernel) (by decide +kernel)

/-- The automatic upgrade gets an error with a body, and the next download resumes behind it. -/
theorem not_dest :
    ¬ ∀ (remote : Bytes) (attempts : Bool → Attempt) (schedule : List Bool) (n : ℕ),
      (Threads.run (attemptAct remote attempts) partStart schedule).1.dest = some n →
      (Threads.run (attemptAct remote attempts) partStart schedule).1.files[n]? = some remote := by
  intro h
  have hdest := h [1, 2, 3] (fun second => if second then { kind := .single }
      else { kind := .upgrade, code := 404, errorBody := [[9]] })
    (List.replicate 9 false ++ List.replicate 9 true) 0 (by decide +kernel)
  exact absurd hdest (by decide +kernel)

end Llamaste
