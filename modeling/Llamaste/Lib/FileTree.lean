import Llamaste.Lib.Text

/-!
# Path resolution

A file system is a tree of files, directories and symbolic links. A path is resolved the
POSIX way: component by component from the root, with `.` and `..`, following links up to
a limit. What becomes of the last component depends on the access: a lookup follows it, a
creation follows it too but may end at a name that does not exist yet, and a removal stops
at it.

## Main results

* `FileTree.walk_append`: a walk over a path is a lookup of its front, and a walk over the
  rest from there.
* `FileTree.eq_of_walk_look`: a creation that meets an object meets what a lookup finds.
* `FileTree.plain_walk`: a place that is reached has plain names.
* `FileTree.resolved_append`: what the three accesses to `parent/name` resolve to, from what
  stands under that name in the directory that `parent` leads to.
-/

/-- A node of a file system: the tree below a directory. -/
inductive FileTree
  | file
  | symlink (target : Text)
  | dir (entries : List (Text × FileTree))

namespace FileTree

/-- A place in a file system: the names on the way to it from the root. -/
abbrev Place := List Text

/-- What stands at a place. -/
def node : FileTree → Place → Option FileTree
  | t, [] => some t
  | dir entries, n :: p =>
      match entries.lookup n with
      | some t => t.node p
      | none => none
  | _, _ :: _ => none

/-- What a path is resolved for: to find an object, to open a file that is created if need
be, or to remove an entry. -/
inductive Access
  | look
  | create
  | unlink
  deriving DecidableEq, Repr

/-- The names in a path. -/
def names (path : Text) : List Text := (path.splitOn '/').filter (· ≠ [])

/-- The components of a path; a slash at the end counts as a dot behind it. -/
def components (path : Text) : List Text :=
  names path ++ if path.getLast? = some '/' then [("." : Text)] else []

/-- Where the resolution of a path starts. -/
def start (cur : Place) (path : Text) : Place := if path.head? = some '/' then [] else cur

/-- One component: the place it leads to, or the link that is to be followed. -/
def enter (fs : FileTree) (a : Access) (cur : Place) (c : Text) (last : Bool) :
    Option (Place ⊕ Text) :=
  match fs.node cur with
  | some (dir _) =>
      if c = "." then if last && a ≠ .look then none else some (.inl cur)
      else if c = ".." then if last && a ≠ .look then none else some (.inl cur.dropLast)
      else
        match fs.node (cur ++ [c]) with
        | none => if last && a = .create then some (.inl (cur ++ [c])) else none
        | some (symlink target) =>
            if last && a = .unlink then some (.inl (cur ++ [c]))
            else if target = [] then none
            else some (.inr target)
        | some _ => some (.inl (cur ++ [c]))
  | _ => none

/-- A walk over components, in which a link is handed to `jump`: the place it ends at, and
the number of links that may still be followed. -/
def walkWith (fs : FileTree) (a : Access) (links : ℕ)
    (jump : Place → List Text → Option (Place × ℕ)) : Place → List Text → Option (Place × ℕ)
  | cur, [] => some (cur, links)
  | cur, c :: rest =>
      match enter fs a cur c rest.isEmpty with
      | none => none
      | some (.inl next) => walkWith fs a links jump next rest
      | some (.inr target) => jump (start cur target) (components target ++ rest)

/-- A walk that follows at most `links` links. -/
def walk (fs : FileTree) (a : Access) : (links : ℕ) → Place → List Text → Option (Place × ℕ)
  | 0 => walkWith fs a 0 fun _ _ => none
  | links + 1 => walkWith fs a (links + 1) (walk fs a links)

/-- The place that an absolute path is resolved to. -/
def resolve (fs : FileTree) (limit : ℕ) (a : Access) (path : Text) : Option Place :=
  (walk fs a limit [] (components path)).map Prod.fst

/-- An absolute path to a place. -/
def render : Place → Text
  | [] => "/"
  | p => p.flatMap fun n => '/' :: n

/-- `realpath`. -/
def realpath (fs : FileTree) (limit : ℕ) (path : Text) : Option Text :=
  (resolve fs limit .look path).map render

variable {fs : FileTree} {a : Access}

/-! ### Walks -/

@[simp] theorem walk_nil (links : ℕ) (cur : Place) :
    walk fs a links cur [] = some (cur, links) := by
  cases links with
  | zero => rfl
  | succ links => rfl

/-- The first component of a walk. -/
theorem walk_cons (links : ℕ) (cur : Place) (c : Text) (rest : List Text) :
    walk fs a links cur (c :: rest) =
      match enter fs a cur c rest.isEmpty with
      | none => none
      | some (.inl next) => walk fs a links next rest
      | some (.inr target) =>
          match links with
          | 0 => none
          | links + 1 => walk fs a links (start cur target) (components target ++ rest) := by
  cases links with
  | zero => rfl
  | succ links => rfl

/-- Before the last component all accesses are lookups. -/
theorem enter_look (cur : Place) (c : Text) (last : Bool) :
    enter fs .look cur c last = enter fs a cur c false := by
  simp [enter]

/-- **Induction along a walk**: over the components that are left, and over the links that
may still be followed where one is. -/
@[elab_as_elim]
theorem walk_induction {motive : ℕ → Place → List Text → Prop}
    (nil : ∀ links cur, motive links cur [])
    (cons : ∀ links cur c rest, (∀ next, motive links next rest) →
      (∀ n < links, ∀ next xs, motive n next xs) → motive links cur (c :: rest))
    (links : ℕ) (cur : Place) (xs : List Text) : motive links cur xs := by
  induction links using Nat.strong_induction_on generalizing cur xs with
  | _ links ihlinks =>
      induction xs generalizing cur with
      | nil => exact nil links cur
      | cons c rest ih => exact cons links cur c rest ih ihlinks

/-- **Composition.** A walk looks up the front of a path and goes on from there. -/
theorem walk_append (links : ℕ) (cur : Place) (xs : List Text) {ys : List Text}
    (hys : ys ≠ []) :
    walk fs a links cur (xs ++ ys) =
      (walk fs .look links cur xs).bind fun r => walk fs a r.2 r.1 ys := by
  induction links, cur, xs using walk_induction with
  | nil links cur => simp
  | cons links cur c rest ih ihlinks =>
      have hlast : (rest ++ ys).isEmpty = false := by simp [hys]
      rw [List.cons_append, walk_cons, walk_cons, hlast, enter_look (a := a)]
      cases enter fs a cur c false with
      | none => rfl
      | some next =>
          cases next with
          | inl next => exact ih next
          | inr target =>
              cases links with
              | zero => rfl
              | succ links =>
                  dsimp only
                  rw [← List.append_assoc]
                  exact ihlinks links (Nat.lt_succ_self links) _ _

/-- The places and links that a component can lead to. -/
theorem enter_cases {cur : Place} {c : Text} {last : Bool} {next : Place ⊕ Text}
    (h : enter fs a cur c last = some next) :
    (∃ entries, fs.node cur = some (dir entries)) ∧
      (next = .inl cur ∨ next = .inl cur.dropLast ∨ next = .inl (cur ++ [c]) ∨
        ∃ target, next = .inr target) := by
  unfold enter at h
  split at h
  · rename_i entries hdir
    refine ⟨⟨entries, hdir⟩, ?_⟩
    grind
  · cases h

/-- The name of an entry, in a directory. -/
theorem enter_name {cur : Place} {c : Text} {entries : List (Text × FileTree)} (last : Bool)
    (hdir : fs.node cur = some (dir entries)) (hdot : c ≠ ".") (hdots : c ≠ "..") :
    enter fs a cur c last =
      match fs.node (cur ++ [c]) with
      | none => if last && a = .create then some (.inl (cur ++ [c])) else none
      | some (symlink target) =>
          if last && a = .unlink then some (.inl (cur ++ [c]))
          else if target = [] then none
          else some (.inr target)
      | some _ => some (.inl (cur ++ [c])) := by
  simp only [enter, hdir, if_neg hdot, if_neg hdots]

/-- Where a lookup gets past a component, a creation gets to the same place or fails. -/
theorem enter_create {cur : Place} {c : Text} {last : Bool} {next : Place ⊕ Text}
    (h : enter fs .look cur c last = some next) :
    enter fs .create cur c last = some next ∨ enter fs .create cur c last = none := by
  rw [enter] at h ⊢
  grind

/-- A creation that meets an object meets the one that a lookup finds. -/
theorem eq_of_walk_look {links : ℕ} {cur : Place} {xs : List Text} {r r' : Place × ℕ}
    (hlook : walk fs .look links cur xs = some r)
    (hcreate : walk fs .create links cur xs = some r') : r' = r := by
  induction links, cur, xs using walk_induction with
  | nil links cur =>
      rw [walk_nil] at hlook hcreate
      exact Option.some.inj (hcreate.symm.trans hlook)
  | cons links cur c rest ih ihlinks =>
      rw [walk_cons] at hlook hcreate
      cases hstep : enter fs .look cur c rest.isEmpty with
      | none => rw [hstep] at hlook; cases hlook
      | some next =>
          rcases enter_create hstep with h | h
          · rw [hstep] at hlook
            rw [h] at hcreate
            cases next with
            | inl next => exact ih next hlook hcreate
            | inr target =>
                cases links with
                | zero => cases hlook
                | succ links =>
                    exact ihlinks links (Nat.lt_succ_self links) _ _ hlook hcreate
          · rw [h] at hcreate
            cases hcreate

theorem eq_of_resolve_look {limit : ℕ} {path : Text} {p q : Place}
    (hlook : resolve fs limit .look path = some p)
    (hcreate : resolve fs limit .create path = some q) : q = p := by
  obtain ⟨r, hr, rfl⟩ := Option.map_eq_some_iff.mp hlook
  obtain ⟨r', hr', rfl⟩ := Option.map_eq_some_iff.mp hcreate
  rw [eq_of_walk_look hr hr']

/-! ### Names -/

/-- A place whose names have no slash. -/
def Plain (p : Place) : Prop := ∀ n ∈ p, '/' ∉ n

theorem plain_nil : Plain [] := fun _ h => nomatch h

theorem plain_names (path : Text) : Plain (names path) := by
  intro n hn
  have hpiece : ∀ s : Text, ∀ n ∈ s.splitOn '/', '/' ∉ n := by
    intro s
    induction s with
    | nil => simp
    | cons c s ih =>
        rw [List.splitOn_cons_eq_if_modifyHead]
        split
        · simpa using ih
        · obtain ⟨n, ns, hns⟩ := List.exists_cons_of_ne_nil (List.splitOn_ne_nil '/' s)
          rw [hns] at ih ⊢
          simp only [List.modifyHead_cons, List.forall_mem_cons] at ih ⊢
          rename_i hc
          refine ⟨?_, ih.2⟩
          rw [List.mem_cons, not_or]
          exact ⟨fun h => hc (by simp [← h]), ih.1⟩
  exact hpiece path n (List.mem_of_mem_filter hn)

theorem plain_components (path : Text) : Plain (components path) := by
  intro n hn
  rcases List.mem_append.mp hn with hn | hn
  · exact plain_names path n hn
  · split at hn
    · obtain rfl := List.mem_singleton.mp hn
      decide
    · cases hn

/-- A place that is reached has plain names. -/
theorem plain_walk {links : ℕ} {cur : Place} {xs : List Text} {r : Place × ℕ}
    (hcur : Plain cur) (hxs : Plain xs) (h : walk fs a links cur xs = some r) : Plain r.1 := by
  induction links, cur, xs using walk_induction with
  | nil links cur =>
      rw [walk_nil] at h
      obtain rfl := Option.some.inj h
      exact hcur
  | cons links cur c rest ih ihlinks =>
      obtain ⟨hc, hrest⟩ := List.forall_mem_cons.mp hxs
      rw [walk_cons] at h
      cases hstep : enter fs a cur c rest.isEmpty with
      | none => rw [hstep] at h; cases h
      | some next =>
          rw [hstep] at h
          rcases (enter_cases hstep).2 with rfl | rfl | rfl | ⟨target, rfl⟩
          · exact ih cur hcur hrest h
          · exact ih _ (fun n hn => hcur n (List.dropLast_subset cur hn)) hrest h
          · refine ih _ (fun n hn => ?_) hrest h
            rcases List.mem_append.mp hn with hn | hn
            · exact hcur n hn
            · exact List.mem_singleton.mp hn ▸ hc
          · cases links with
            | zero => cases h
            | succ links =>
                have hstart : Plain (start cur target) := by
                  rw [start]
                  split
                  · exact plain_nil
                  · exact hcur
                have hnext : Plain (components target ++ rest) := fun n hn =>
                  (List.mem_append.mp hn).elim (plain_components target n) (hrest n)
                exact ihlinks links (Nat.lt_succ_self links) _ _ hstart hnext h

/-- What a path is resolved to has plain names. -/
theorem plain_resolve {limit : ℕ} {path : Text} {p : Place}
    (h : resolve fs limit a path = some p) : Plain p := by
  obtain ⟨r, hr, rfl⟩ := Option.map_eq_some_iff.mp h
  exact plain_walk plain_nil (plain_components path) hr

/-- The first name of a place stands at the front of its path. -/
theorem render_cons {n : Text} {p : Place} (hn : '/' ∉ n) :
    (render (n :: p)).tail.takeWhile (· ≠ '/') = n := by
  have htail : (render (n :: p)).tail = n ++ p.flatMap fun n => '/' :: n := by
    simp [render]
  rw [htail]
  refine Text.takeWhile_ne hn ?_
  cases p with
  | nil => exact fun c hc => nomatch hc
  | cons m p => simp

/-! ### The last name of a path -/

theorem names_append {parent name : Text} (hname : '/' ∉ name) :
    names (parent ++ '/' :: name) = names parent ++ if name = [] then [] else [name] := by
  rw [names, List.splitOn_append_cons_self, List.splitOn_eq_singleton hname, List.filter_append,
    names]
  congr 1
  split
  · simp [*]
  · simp [*]

/-- The last component of a path with the last name `name`. -/
def lastComponent (name : Text) : Text := if name = [] then "." else name

/-- A path ends in its last name, or in a dot if that is empty. -/
theorem components_append {parent name : Text} (hname : '/' ∉ name) :
    components (parent ++ '/' :: name) = names parent ++ [lastComponent name] := by
  rw [components, names_append hname, List.append_assoc]
  congr 1
  by_cases hnil : name = []
  · simp [hnil, lastComponent]
  · have hlast : (parent ++ '/' :: name).getLast? ≠ some '/' := by
      intro h
      have hsuffix : (parent ++ '/' :: name).getLast? = name.getLast? := by
        rw [List.append_cons, List.getLast?_append_of_ne_nil _ hnil]
      exact hname (List.mem_of_getLast? (hsuffix ▸ h))
    rw [if_neg hlast]
    simp [hnil, lastComponent]

/-- The accesses to a path, from what its last name stands for. -/
inductive Resolved (fs : FileTree) (limit : ℕ) (parent name path : Text) : Prop
  | blocked (h : ∀ a, fs.resolve limit a path = none)
  | dot (p : Place) (hname : name = [] ∨ name = ".")
      (hparent : fs.resolve limit .look parent = some p)
      (hlook : fs.resolve limit .look path = some p)
      (hcreate : fs.resolve limit .create path = none)
      (hunlink : fs.resolve limit .unlink path = none)
  | absent (p : Place) (hparent : fs.resolve limit .look parent = some p)
      (hlook : fs.resolve limit .look path = none)
      (hcreate : fs.resolve limit .create path = some (p ++ [name]))
      (hunlink : fs.resolve limit .unlink path = none)
  | object (p : Place) (hparent : fs.resolve limit .look parent = some p)
      (hnode : ∀ target, fs.node (p ++ [name]) ≠ some (symlink target))
      (h : ∀ a, fs.resolve limit a path = some (p ++ [name]))
  | link (p : Place) (target : Text) (hparent : fs.resolve limit .look parent = some p)
      (hnode : fs.node (p ++ [name]) = some (symlink target))
      (hunlink : fs.resolve limit .unlink path = some (p ++ [name]))

/-- The directory in front of the last name. -/
theorem resolve_parent {limit : ℕ} {parent : Text} {p : Place} {links : ℕ}
    {entries : List (Text × FileTree)}
    (hwalk : walk fs .look limit [] (names parent) = some (p, links))
    (hdir : fs.node p = some (dir entries)) : fs.resolve limit .look parent = some p := by
  rw [resolve, components]
  split
  · have hdot : walk fs .look links p ["."] = some (p, links) := by
      rw [walk_cons]
      simp [enter, hdir]
    rw [walk_append _ _ _ (by simp), hwalk, Option.bind_some, hdot, Option.map_some]
  · rw [List.append_nil, hwalk, Option.map_some]

theorem resolved_append (fs : FileTree) (limit : ℕ) (parent : Text) {name : Text}
    (hname : '/' ∉ name) (hdots : name ≠ "..") :
    Resolved fs limit parent name (parent ++ '/' :: name) := by
  have hresolve : ∀ a, fs.resolve limit a (parent ++ '/' :: name) =
      ((walk fs .look limit [] (names parent)).bind fun r =>
        walk fs a r.2 r.1 [lastComponent name]).map Prod.fst := by
    intro a
    rw [resolve, components_append hname, walk_append _ _ _ (by simp)]
  cases hwalk : walk fs .look limit [] (names parent) with
  | none => exact .blocked fun a => by rw [hresolve, hwalk]; rfl
  | some r =>
      obtain ⟨p, links⟩ := r
      simp only [hwalk, Option.bind_some] at hresolve
      by_cases hdir : ∃ entries, fs.node p = some (dir entries)
      · obtain ⟨entries, hdir⟩ := hdir
        have hparent := resolve_parent hwalk hdir
        by_cases hdot : name = [] ∨ name = "."
        · have hlast : lastComponent name = "." := by
            rcases hdot with rfl | rfl
            · rfl
            · rfl
          rw [hlast] at hresolve
          refine .dot p hdot hparent ?_ ?_ ?_
          · rw [hresolve, walk_cons]
            simp [enter, hdir]
          · rw [hresolve, walk_cons]
            simp [enter, hdir]
          · rw [hresolve, walk_cons]
            simp [enter, hdir]
        · obtain ⟨hnil, hdot⟩ := not_or.mp hdot
          have hlast : lastComponent name = name := if_neg hnil
          rw [hlast] at hresolve
          simp only [walk_cons, enter_name _ hdir hdot hdots] at hresolve
          cases hnode : fs.node (p ++ [name]) with
          | none =>
              simp only [hnode] at hresolve
              refine .absent p hparent ?_ ?_ ?_
              · simp [hresolve]
              · simp [hresolve]
              · simp [hresolve]
          | some t =>
              simp only [hnode] at hresolve
              cases t with
              | symlink target => exact .link p target hparent hnode (by simp [hresolve])
              | file => exact .object p hparent (by simp [hnode]) fun a => by simp [hresolve]
              | dir entries' =>
                  exact .object p hparent (by simp [hnode]) fun a => by simp [hresolve]
      · refine .blocked fun a => ?_
        rw [hresolve, walk_cons]
        cases hstep : enter fs a p (lastComponent name) [].isEmpty with
        | none => rfl
        | some next => exact absurd (enter_cases hstep).1 hdir

end FileTree
