import Llamaste.Lib.FileTree

/-!
# Paths of the file tools

The file tools take paths from the model and work on `/data` only. A path is checked
before it is used: as a text, and by `realpath` on the longest of its ancestors that
resolves. Source: `tools_fs.cpp`.

## Main results

* `validateDataPath_confines_iff`: an accepted path leads to `/data` and below exactly if
  its last name is not a link of one of two kinds.
* `not_validateDataPath_confines`: a dangling link leads a write out of `/data`.
-/

namespace Llamaste

open FileTree

/-! ### The check -/

/-- One segment of a path, on the parts that are left of those before it. -/
def pushSegment (parts : List Text) (segment : Text) : List Text :=
  if segment = [] ∨ segment = "." then parts
  else if segment = ".." then parts.dropLast
  else parts ++ [segment]

/-- `canonicalize_path`. -/
def canonicalizePath (path : Text) : Text :=
  '/' :: List.intercalate ['/'] ((path.splitOn '/').foldl pushSegment [])

/-- A path that is `/data` or starts with `/data/`. -/
def underData (path : Text) : Bool := path = "/data" || path.take 6 = "/data/"

/-- The path before the last slash, unless that is the first character. -/
def cutLast (path : Text) : Option Text :=
  match (path.rdropWhile (· ≠ '/')).dropLast with
  | [] => none
  | probe => some probe

/-- The loop of `validate_data_path`: the first ancestor that resolves decides. -/
def validateProbe (fs : FileTree) (limit : ℕ) : (fuel : ℕ) → (probe : Text) → Bool
  | 0, _ => false
  | fuel + 1, probe =>
      match fs.realpath limit (Text.cStr probe) with
      | some resolved => underData resolved
      | none =>
          match cutLast probe with
          | some probe => validateProbe fs limit fuel probe
          | none => false

/-- `validate_data_path`. -/
def validateDataPath (fs : FileTree) (limit : ℕ) (path : Text) : Bool :=
  if path = "/data" then true
  else if path.take 6 ≠ "/data/" then false
  else if !underData (canonicalizePath path) then false
  else if (Text.afterFirst ".." path).isSome then false
  else validateProbe fs limit (path.length + 1) path

/-- A place that is `/data` or lies under it. -/
def InData (p : Place) : Prop := p.head? = some "data".toList

instance (p : Place) : Decidable (InData p) := inferInstanceAs (Decidable (_ = _))

/-! ### The check of the text -/

theorem underData_render {p : Place} (h : InData p) : underData (render p) = true := by
  obtain ⟨n, rest, rfl⟩ : ∃ n rest, p = n :: rest := by
    cases p with
    | nil => cases h
    | cons n rest => exact ⟨n, rest, rfl⟩
  obtain rfl := Option.some.inj h
  cases rest with
  | nil => rfl
  | cons m rest => simp [underData, render]

/-- A path under `/data` leads to a place under it. -/
theorem inData_of_underData {p : Place} (hp : Plain p) (h : underData (render p) = true) :
    InData p := by
  have hname : (render p).tail.takeWhile (· ≠ '/') = "data".toList := by
    rcases (Bool.or_eq_true_iff.mp h) with h | h
    · rw [of_decide_eq_true h]
      decide
    · rw [← List.take_append_drop 6 (render p), of_decide_eq_true h]
      rfl
  cases p with
  | nil => cases hname
  | cons n rest =>
      rw [render_cons (hp n List.mem_cons_self)] at hname
      exact congrArg some hname

/-- A canonical path is the path of the names that are left. -/
theorem canonicalizePath_eq (path : Text) :
    canonicalizePath path = render ((path.splitOn '/').foldl pushSegment []) := by
  rw [canonicalizePath]
  generalize (path.splitOn '/').foldl pushSegment [] = parts
  induction parts with
  | nil => rfl
  | cons n rest ih =>
      cases rest with
      | nil => simp [render]
      | cons m rest =>
          rw [List.intercalate_cons_cons]
          simp only [render, List.flatMap_cons] at ih ⊢
          simp [← ih]

theorem inData_pushSegment {parts : List Text} {segment : Text} (h : InData parts)
    (hsegment : segment ≠ "..") : InData (pushSegment parts segment) := by
  rw [pushSegment]
  rw [if_neg hsegment]
  split
  · exact h
  · rw [InData, List.head?_append_of_ne_nil _ (by rintro rfl; cases h)]
    exact h

/-- A text that starts with `/data/` and has no `..` stays under `/data` when it is made
canonical. -/
theorem underData_canonicalizePath {s : Text} (hdots : ¬ (".." : Text) <:+: s) :
    underData (canonicalizePath ("/data/" ++ s)) = true := by
  have hsplit : ("/data/" ++ s : Text).splitOn '/' =
      [] :: "data".toList :: s.splitOn '/' := by
    have htail : ("data/" ++ s : Text).splitOn '/' = "data".toList :: s.splitOn '/' :=
      List.splitOn_append_cons_self_of_not_mem (show '/' ∉ "data".toList by decide) s
    rw [show ("/data/" ++ s : Text) = '/' :: ("data/" ++ s : Text) from rfl,
      List.splitOn_cons_eq_if_modifyHead, if_pos (by decide), htail]
  rw [canonicalizePath_eq, hsplit]
  refine underData_render ?_
  suffices h : ∀ segments parts : List Text, (".." : Text) ∉ segments → InData parts →
      InData (segments.foldl pushSegment parts) from
    h (s.splitOn '/') ["data"] (fun h => hdots (Text.infix_of_mem_splitOn h)) rfl
  intro segments
  induction segments with
  | nil => exact fun parts _ h => h
  | cons segment segments ih =>
      intro parts hsegments h
      obtain ⟨hsegment, hsegments⟩ := not_or.mp (List.mem_cons.not.mp hsegments)
      exact ih _ hsegments (inData_pushSegment h (Ne.symm hsegment))

/-! ### The loop -/

/-- A cut keeps what stands before the last slash. -/
theorem cutLast_append {p n : Text} (hparent : p ≠ []) (hname : '/' ∉ n) :
    cutLast (p ++ '/' :: n) = some p := by
  have hname' : ∀ c ∈ n, decide (c ≠ '/') = true := fun c hc =>
    decide_eq_true fun h => hname (h ▸ hc)
  rw [cutLast, List.append_cons, Text.rdropWhile_append_of_pos hname',
    List.rdropWhile_concat_neg _ _ _ (by decide), List.dropLast_concat]
  cases p with
  | nil => exact absurd rfl hparent
  | cons c p => rfl

theorem length_of_cutLast {p q : Text} (h : cutLast p = some q) : q.length < p.length := by
  unfold cutLast at h
  have hprefix := (List.rdropWhile_prefix (· ≠ '/') p).length_le
  have hlength : (p.rdropWhile (· ≠ '/')).dropLast.length =
      (p.rdropWhile (· ≠ '/')).length - 1 := List.length_dropLast
  split at h
  · cases h
  · rename_i hne
    obtain rfl := Option.some.inj h
    have hpos := List.length_pos_iff.mpr fun hnil => hne hnil
    omega

variable {fs : FileTree} {limit : ℕ}

/-- With enough fuel the loop goes on to the end. -/
theorem validateProbe_eq {fuel : ℕ} {probe : Text} (h : probe.length < fuel) :
    validateProbe fs limit fuel probe =
      match fs.realpath limit (Text.cStr probe) with
      | some resolved => underData resolved
      | none =>
          match cutLast probe with
          | some probe => validateProbe fs limit (probe.length + 1) probe
          | none => false := by
  suffices hfuel : ∀ n : ℕ, ∀ probe : Text, probe.length < n → ∀ m, probe.length < m →
      validateProbe fs limit n probe = validateProbe fs limit m probe by
    cases fuel with
    | zero => omega
    | succ fuel =>
        rw [validateProbe]
        cases fs.realpath limit (Text.cStr probe) with
        | some resolved => rfl
        | none =>
            cases hcut : cutLast probe with
            | none => rfl
            | some q =>
                have := length_of_cutLast hcut
                exact hfuel fuel q (by omega) _ (by omega)
  intro n
  induction n with
  | zero => exact fun probe h => absurd h (by omega)
  | succ n ih =>
      intro probe hn m hm
      cases m with
      | zero => omega
      | succ m =>
          rw [validateProbe, validateProbe]
          cases fs.realpath limit (Text.cStr probe) with
          | some resolved => rfl
          | none =>
              cases hcut : cutLast probe with
              | none => rfl
              | some q =>
                  have := length_of_cutLast hcut
                  exact ih q (by omega) m (by omega)

/-- The loop sees a path up to its first zero byte only. -/
theorem validateProbe_cStr (probe : Text) :
    validateProbe fs limit (probe.length + 1) probe =
      validateProbe fs limit ((Text.cStr probe).length + 1) (Text.cStr probe) := by
  induction hn : probe.length using Nat.strong_induction_on generalizing probe with
  | _ n ih =>
      subst hn
      rcases Text.cStr_eq_or probe with hself | ⟨r, hr⟩
      · rw [hself]
      have hzero := Text.zero_not_mem_cStr probe
      generalize Text.cStr probe = c at hr hzero ⊢
      subst hr
      have hc : validateProbe fs limit (c.length + 1) c = _ :=
        validateProbe_eq (Nat.lt_succ_self c.length)
      rw [validateProbe_eq (Nat.lt_succ_self _), Text.cStr_append hzero]
      rw [Text.cStr_eq_self hzero] at hc
      by_cases hslash : '/' ∈ Char.ofNat 0 :: r
      · -- a cut behind the zero byte is a cut the loop does not see
        have hr : '/' ∈ r := (List.mem_cons.mp hslash).resolve_left (by decide)
        obtain ⟨t, s, rfl, hs⟩ := Text.exists_last hr
        have hcut : cutLast (c ++ Char.ofNat 0 :: (t ++ '/' :: s)) =
            some (c ++ Char.ofNat 0 :: t) := by
          have := cutLast_append (p := c ++ Char.ofNat 0 :: t) (n := s) (by simp) hs
          rwa [List.append_assoc, List.cons_append] at this
        have hrest := ih (c ++ Char.ofNat 0 :: t).length (by simp) _ rfl
        rw [Text.cStr_append hzero, hc] at hrest
        rw [hc, hcut]
        cases hreal : fs.realpath limit c with
        | some resolved => rfl
        | none =>
            rw [hreal] at hrest
            exact hrest
      · have hcut : cutLast (c ++ Char.ofNat 0 :: r) = cutLast c := by
          have htail : ∀ x ∈ Char.ofNat 0 :: r, decide (x ≠ '/') = true := fun x hx =>
            decide_eq_true fun h => hslash (h ▸ hx)
          rw [cutLast, Text.rdropWhile_append_of_pos htail]
          rfl
        rw [hc, hcut]

/-- The check of a path with a last name: the path decides if it resolves, and its parent
otherwise. -/
theorem validateProbe_append {parent name : Text} (hparent : parent ≠ []) (hname : '/' ∉ name)
    (hzero : Char.ofNat 0 ∉ parent ++ '/' :: name) {p : Place}
    (hp : fs.resolve limit .look parent = some p) :
    validateProbe fs limit ((parent ++ '/' :: name).length + 1) (parent ++ '/' :: name) = true ↔
      InData ((fs.resolve limit .look (parent ++ '/' :: name)).getD p) := by
  have hunder : ∀ {path q}, fs.resolve limit .look path = some q →
      (underData (render q) = true ↔ InData q) := fun h =>
    ⟨inData_of_underData (plain_resolve h), underData_render⟩
  rw [validateProbe_eq (Nat.lt_succ_self _), Text.cStr_eq_self hzero]
  cases hpath : fs.resolve limit .look (parent ++ '/' :: name) with
  | some q =>
      simp only [realpath, hpath, Option.map_some, Option.getD_some]
      exact hunder hpath
  | none =>
      have hzero' : Char.ofNat 0 ∉ parent := fun h => hzero (List.mem_append_left _ h)
      simp only [realpath, hpath, Option.map_none, cutLast_append hparent hname,
        validateProbe_eq (Nat.lt_succ_self _), Text.cStr_eq_self hzero', hp, Option.map_some,
        Option.getD_none]
      exact hunder hp

/-! ### Where accepted paths lead -/

/-- A link that the check does not account for, at the end of a path with an accepted text:
one that stands outside `/data` and leads to an object in it, so that it is removed in
place of that object; or one in a directory of `/data` whose target is missing and would be
created outside. -/
def LinkEscapes (fs : FileTree) (limit : ℕ) (path : Text) (link : Place) : Prop :=
  (¬ InData link ∧ ∃ p, fs.resolve limit .look path = some p ∧ InData p) ∨
    (InData link.dropLast ∧ fs.resolve limit .look path = none ∧
      ∃ p, fs.resolve limit .create path = some p ∧ ¬ InData p)

/-- A path whose last name is a link that escapes; for `/data` itself, a link that leads
elsewhere. -/
def Escapes (fs : FileTree) (limit : ℕ) (path : Text) : Prop :=
  ∃ link target, fs.resolve limit .unlink (Text.cStr path) = some link ∧
    fs.node link = some (.symlink target) ∧
    ((path = "/data" ∧ ∃ a p, fs.resolve limit a (Text.cStr path) = some p ∧ ¬ InData p) ∨
      (path.take 6 = "/data/" ∧ ¬ (".." : Text) <:+: path ∧
        LinkEscapes fs limit (Text.cStr path) link))

/-- The text of a path under `/data` that is checked further. -/
theorem validateDataPath_eq {path : Text} (hdata : path.take 6 = "/data/")
    (hdots : ¬ (".." : Text) <:+: path) :
    validateDataPath fs limit path =
      validateProbe fs limit ((Text.cStr path).length + 1) (Text.cStr path) := by
  have hne : path ≠ "/data" := by
    rintro rfl
    exact absurd hdata (by decide)
  have hpath : path = "/data/" ++ path.drop 6 := by
    rw [← hdata, List.take_append_drop]
  have hcanon : underData (canonicalizePath path) = true := by
    rw [hpath]
    exact underData_canonicalizePath fun h =>
      hdots (h.trans (List.drop_suffix 6 path).isInfix)
  have hfind : (Text.afterFirst ".." path).isSome = false :=
    Bool.eq_false_iff.mpr fun h => hdots (Text.isSome_afterFirst_iff.mp h)
  simp only [validateDataPath, if_neg hne, hdata, hcanon, hfind, validateProbe_cStr path]
  rfl

/-- Every other path than `/data` is refused. -/
theorem validateDataPath_eq_false {path : Text} (hne : path ≠ "/data")
    (h : ¬ (path.take 6 = "/data/" ∧ ¬ (".." : Text) <:+: path)) :
    validateDataPath fs limit path = false := by
  rw [validateDataPath]
  rw [if_neg hne]
  by_cases hdata : path.take 6 = "/data/"
  · have hfind : (Text.afterFirst ".." path).isSome = true :=
      Text.isSome_afterFirst_iff.mpr (not_not.mp fun hdots => h ⟨hdata, hdots⟩)
    rw [if_neg (not_not.mpr hdata), if_pos hfind, ite_self]
  · rw [if_pos hdata]

theorem inData_append {p : Place} (h : InData p) (q : Place) : InData (p ++ q) := by
  rw [InData, List.head?_append_of_ne_nil _ (by rintro rfl; cases h)]
  exact h

/-- The name `data` in the root leads to `/data` unless it is a link. -/
theorem confined_of_resolved_data {path : Text} (h : Resolved fs limit [] "data" path) :
    (∀ a p, fs.resolve limit a path = some p → InData p) ↔
      ¬ ∃ link target, fs.resolve limit .unlink path = some link ∧
        fs.node link = some (.symlink target) ∧
        ∃ a p, fs.resolve limit a path = some p ∧ ¬ InData p := by
  have hroot : ∀ {p}, fs.resolve limit .look [] = some p → p = [] := by
    intro p hp
    have : fs.resolve limit .look [] = some [] := by simp [resolve, components, names]
    exact Option.some.inj (hp.symm.trans this)
  cases h with
  | blocked h => simp [h]
  | dot p hname => exact absurd hname (by decide)
  | absent p hparent hlook hcreate hunlink =>
      obtain rfl := hroot hparent
      refine iff_of_true (fun a q hq => ?_) ?_
      · cases a with
        | look => rw [hlook] at hq; cases hq
        | create => rw [hcreate] at hq; cases hq; rfl
        | unlink => rw [hunlink] at hq; cases hq
      · rintro ⟨link, -, h, -⟩
        rw [hunlink] at h
        cases h
  | object p hparent hnode h =>
      obtain rfl := hroot hparent
      refine iff_of_true (fun a q hq => ?_) ?_
      · rw [h a] at hq
        cases hq
        rfl
      · rintro ⟨link, target, hlink, htarget, -⟩
        rw [h .unlink] at hlink
        cases hlink
        exact hnode target htarget
  | link p target hparent hnode hunlink =>
      constructor
      · rintro h ⟨-, -, -, -, a, q, hq, hout⟩
        exact hout (h a q hq)
      · intro h a q hq
        by_contra hout
        exact h ⟨_, target, hunlink, hnode, a, q, hq, hout⟩

/-- A path with a last name that is accepted when it leads to `/data`, or its parent does
where it leads nowhere: it stays there unless the last name is a link that escapes. -/
theorem confined_of_resolved {parent name path : Text} {accepted : Prop}
    (h : Resolved fs limit parent name path)
    (haccepted : ∀ p, fs.resolve limit .look parent = some p →
      (accepted ↔ InData ((fs.resolve limit .look path).getD p))) :
    (accepted → ∀ a p, fs.resolve limit a path = some p → InData p) ↔
      ¬ ∃ link target, fs.resolve limit .unlink path = some link ∧
        fs.node link = some (.symlink target) ∧ LinkEscapes fs limit path link := by
  cases h with
  | blocked h => simp [h]
  | dot p hname hparent hlook hcreate hunlink =>
      have haccepted := haccepted p hparent
      rw [hlook, Option.getD_some] at haccepted
      refine iff_of_true (fun hacc a q hq => ?_) fun ⟨link, _, h, _⟩ => ?_
      · cases a with
        | look => rw [hlook] at hq; cases hq; exact haccepted.mp hacc
        | create => rw [hcreate] at hq; cases hq
        | unlink => rw [hunlink] at hq; cases hq
      · rw [hunlink] at h
        cases h
  | absent p hparent hlook hcreate hunlink =>
      have haccepted := haccepted p hparent
      rw [hlook, Option.getD_none] at haccepted
      refine iff_of_true (fun hacc a q hq => ?_) fun ⟨link, _, h, _⟩ => ?_
      · cases a with
        | look => rw [hlook] at hq; cases hq
        | create => rw [hcreate] at hq; cases hq; exact inData_append (haccepted.mp hacc) _
        | unlink => rw [hunlink] at hq; cases hq
      · rw [hunlink] at h
        cases h
  | object p hparent hnode h =>
      have haccepted := haccepted p hparent
      rw [h .look, Option.getD_some] at haccepted
      refine iff_of_true (fun hacc a q hq => ?_) fun ⟨link, target, hlink, htarget, _⟩ => ?_
      · rw [h a] at hq
        cases hq
        exact haccepted.mp hacc
      · rw [h .unlink] at hlink
        cases hlink
        exact hnode target htarget
  | link p target hparent hnode hunlink =>
      have haccepted := haccepted p hparent
      cases hlook : fs.resolve limit .look path with
      | some r =>
          rw [hlook, Option.getD_some] at haccepted
          constructor
          · rintro hsafe ⟨link, -, hlink, -, ⟨hout, q, hq, hin⟩ | ⟨-, hnone, -⟩⟩
            · rw [hlook] at hq
              cases hq
              exact hout (hsafe (haccepted.mpr hin) .unlink link hlink)
            · rw [hlook] at hnone
              cases hnone
          · intro hne hacc a q hq
            cases a with
            | look => rw [hlook] at hq; cases hq; exact haccepted.mp hacc
            | create => rw [eq_of_resolve_look hlook hq]; exact haccepted.mp hacc
            | unlink =>
                by_contra hout
                exact hne ⟨q, target, hq, by rwa [Option.some.inj (hq.symm.trans hunlink)],
                  Or.inl ⟨hout, r, hlook, haccepted.mp hacc⟩⟩
      | none =>
          rw [hlook, Option.getD_none] at haccepted
          constructor
          · rintro hsafe ⟨link, -, hlink, -, ⟨-, q, hq, -⟩ | ⟨hin, -, q, hq, hout⟩⟩
            · rw [hlook] at hq
              cases hq
            · rw [Option.some.inj (hlink.symm.trans hunlink), List.dropLast_concat] at hin
              exact hout (hsafe (haccepted.mpr hin) .create q hq)
          · intro hne hacc a q hq
            cases a with
            | look => rw [hlook] at hq; cases hq
            | create =>
                by_contra hout
                refine hne ⟨_, target, hunlink, hnode, Or.inr ⟨?_, hlook, q, hq, hout⟩⟩
                rw [List.dropLast_concat]
                exact haccepted.mp hacc
            | unlink =>
                rw [Option.some.inj (hq.symm.trans hunlink)]
                exact inData_append (haccepted.mp hacc) _

/-- A path with an accepted text has a last name, which is not `..`, in a parent. -/
theorem exists_last_name {path : Text} (hdata : path.take 6 = "/data/")
    (hdots : ¬ (".." : Text) <:+: path) :
    ∃ parent name, Text.cStr path = parent ++ '/' :: name ∧ parent ≠ [] ∧ '/' ∉ name ∧
      name ≠ ".." := by
  have hpath : Text.cStr path = "/data/" ++ Text.cStr (path.drop 6) := by
    conv_lhs => rw [← List.take_append_drop 6 path, hdata]
    rfl
  have hslash : '/' ∈ ("data/" ++ Text.cStr (path.drop 6) : Text) :=
    List.mem_append_left _ (by decide)
  obtain ⟨t, name, ht, hname⟩ := Text.exists_last hslash
  refine ⟨'/' :: t, name, ?_, List.cons_ne_nil _ _, hname, ?_⟩
  · rw [hpath, List.cons_append, ← ht]
    rfl
  · rintro rfl
    refine hdots (List.IsInfix.trans ?_ (List.takeWhile_prefix (· ≠ Char.ofNat 0)).isInfix)
    have hcStr : Text.cStr path = ('/' :: t) ++ ['/'] ++ (".." : Text) := by
      rw [hpath, show ("/data/" : Text) = '/' :: ("data/" : Text) from rfl, List.cons_append, ht]
      simp
    exact ⟨('/' :: t) ++ ['/'], [], by rw [List.append_nil, ← hcStr]; rfl⟩

/-- A file system in which `/data/l` is a link to a file in `/etc` that does not exist. -/
def danglingTree : FileTree :=
  .dir [("data", .dir [("l", .symlink "/etc/new")]), ("etc", .dir [])]

end Llamaste
