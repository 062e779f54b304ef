import Llamaste.Grubenv
import Llamaste.Lib.TempRename

/-!
# Changing variables of the environment block

The block is read into a map, variables are assigned or erased, and the map is written back.
A map whose lines fit comes back whole. A larger one is cut to the size of the block, and the
cut block is stored like any other. Source: `updater.cpp`, GRUB environment block.

## Main results

* `Grubenv.parse_serialize_eq_iff`: a map is read back exactly when no more than its last line
  break is cut off.
* `readModifyWrite_iff`: changing variables loses nothing exactly when the lines fit.
-/

namespace Llamaste

namespace Grubenv

/-- `grubenv_read`; a file that does not open holds no variable. -/
def read (file : Option Text) : Grubenv := file.elim ∅ parse

/-- `grubenv_write`: whether it succeeds, and the file after it. -/
def write (save : TempRename) (vars : Grubenv) (old : Option Text) : Bool × Option Text :=
  save.checked (serialize vars) old

/-- A key and a value that stand in a line of the block. -/
structure IsBinding (kv : Text × Text) : Prop where
  noEquals : '=' ∉ kv.1
  noBreak : '\n' ∉ kv.1
  noComment : kv.1.head? ≠ some '#'
  plain : '\n' ∉ kv.2

/-- The line of a binding. -/
def bindingLine (kv : Text × Text) : Text := kv.1 ++ '=' :: kv.2

/-- The header and the lines of bindings, without padding. -/
def blockText (bindings : List (Text × Text)) : Text :=
  header ++ bindings.flatMap fun kv => bindingLine kv ++ ['\n']

/-- The content of a block as GRUB keeps it: a header, lines of bindings, and padding. -/
structure IsBlock (content : Text) : Prop where
  length : content.length = size
  lines : ∃ bindings n, content = blockText bindings ++ List.replicate n '#' ∧
    ∀ kv ∈ bindings, kv.1 ≠ [] ∧ IsBinding kv

/-- The lines of the map fit into the block. -/
def Fits (vars : Grubenv) : Prop := (blockText vars.toList).length ≤ size

instance (vars : Grubenv) : Decidable vars.Fits := inferInstanceAs (Decidable (_ ≤ _))

theorem serialize_eq (vars : Grubenv) :
    serialize vars =
      if (blockText vars.toList).length < size then
        blockText vars.toList ++ List.replicate (size - (blockText vars.toList).length) '#'
      else (blockText vars.toList).take size := by
  simp only [serialize, blockText, bindingLine]
  rfl

/-- A block always has its size. -/
theorem length_serialize (vars : Grubenv) : (serialize vars).length = size := by
  rw [serialize_eq]
  split_ifs with h
  · rw [List.length_append, List.length_replicate]
    omega
  · rw [List.length_take]
    omega

/-! ### Lines -/

theorem mem_lookup {vars : Grubenv} {key val : Text} :
    (key, val) ∈ vars.toList ↔ lookup vars key = some val :=
  Std.ExtTreeMap.mem_toList_iff_getElem?_eq_some

theorem keys_nodup (vars : Grubenv) : (vars.toList.map Prod.fst).Nodup := by
  have h := Std.ExtTreeMap.distinct_keys_toList (t := vars)
  rw [List.Nodup, List.pairwise_map]
  exact h.imp fun hne heq => hne (by rw [heq]; exact Std.ReflCmp.compare_self)

/-- The key of a line ends at the first `=`. -/
theorem key_bindingLine {kv : Text × Text} (h : '=' ∉ kv.1) :
    (bindingLine kv).takeWhile (· ≠ '=') = kv.1 ∧
      (bindingLine kv).dropWhile (· ≠ '=') = '=' :: kv.2 := by
  have hhead : ∀ c ∈ ('=' :: kv.2).head?, c = '=' := by
    rintro c ⟨⟩
    rfl
  exact ⟨Text.takeWhile_ne h hhead, Text.dropWhile_ne h hhead⟩

/-- A line that starts with another line has its key. -/
theorem key_eq_of_prefix {kv kv' : Text × Text} (h : '=' ∉ kv.1) (h' : '=' ∉ kv'.1)
    (hinit : bindingLine kv <+: bindingLine kv') : kv.1 = kv'.1 := by
  obtain ⟨t, ht⟩ := hinit
  have hhead : ∀ c ∈ ('=' :: (kv.2 ++ t)).head?, c = '=' := by
    rintro c ⟨⟩
    rfl
  rw [← (key_bindingLine h').1, ← ht, bindingLine, List.append_assoc, List.cons_append,
    Text.takeWhile_ne h hhead]

theorem parseLine_binding {kv : Text × Text} (h : IsBinding kv) (vars : Grubenv) :
    parseLine vars (bindingLine kv) = vars.insert kv.1 kv.2 := by
  have hhead : ¬ (bindingLine kv = [] ∨ (bindingLine kv).head? = some '#') := by
    rw [bindingLine]
    rintro (hnil | hhash)
    · simp at hnil
    · cases hkey : kv.1 with
      | nil =>
        rw [hkey] at hhash
        exact absurd hhash (by simp)
      | cons c key =>
        rw [hkey] at hhash
        exact h.noComment (by rw [hkey]; exact hhash)
  rw [parseLine, if_neg hhead, (key_bindingLine h.noEquals).1, (key_bindingLine h.noEquals).2]

/-- A variable after a line had its value before, or the line is its binding. -/
theorem lookup_parseLine {vars : Grubenv} {line key val : Text}
    (h : lookup (parseLine vars line) key = some val) :
    lookup vars key = some val ∨
      line = bindingLine (key, val) ∧ '=' ∉ key ∧ key.head? ≠ some '#' := by
  rw [parseLine] at h
  split_ifs at h with hskip
  · exact Or.inl h
  split at h
  · exact Or.inl h
  · rename_i c rest hrest
    rw [lookup_insert] at h
    split_ifs at h with hkey
    · have hline := List.takeWhile_append_dropWhile (p := (· ≠ '=')) (l := line)
      have heq : c = '=' := by
        have hhead := List.head?_dropWhile_not (· ≠ '=') line
        rw [hrest] at hhead
        simpa using hhead
      rw [hrest, hkey, heq, Option.some.inj h] at hline
      refine Or.inr ⟨hline.symm, ?_, fun hhash => hskip (Or.inr ?_)⟩
      · rw [← hkey]
        intro hmem
        simpa using List.mem_takeWhile_imp hmem
      · rw [← hline]
        cases key with
        | nil => cases hhash
        | cons c key => exact hhash
    · exact Or.inl h

/-- A variable that lines bind has one of the lines for its binding. -/
theorem lookup_foldl_parseLine {lines : List Text} {vars : Grubenv} {key val : Text}
    (h : lookup (lines.foldl parseLine vars) key = some val) :
    lookup vars key = some val ∨
      bindingLine (key, val) ∈ lines ∧ '=' ∉ key ∧ key.head? ≠ some '#' := by
  induction lines generalizing vars with
  | nil => exact Or.inl h
  | cons line lines ih =>
    rcases ih h with hfirst | ⟨hmem, hkey⟩
    · rcases lookup_parseLine hfirst with hvars | ⟨rfl, hkey⟩
      · exact Or.inl hvars
      · exact Or.inr ⟨List.mem_cons_self, hkey⟩
    · exact Or.inr ⟨List.mem_cons_of_mem _ hmem, hkey⟩

theorem bindingLine_mem_of_lookup_parse {content key val : Text}
    (h : lookup (parse content) key = some val) :
    bindingLine (key, val) ∈ content.splitOn '\n' ∧ '=' ∉ key ∧ key.head? ≠ some '#' := by
  rcases lookup_foldl_parseLine h with hempty | hline
  · simp [lookup] at hempty
  · exact hline

/-- What is read stands in lines. -/
theorem isBinding_of_lookup_parse {content key val : Text}
    (h : lookup (parse content) key = some val) : IsBinding (key, val) := by
  obtain ⟨hmem, hequals, hhash⟩ := bindingLine_mem_of_lookup_parse h
  have hbreak := Text.not_mem_of_mem_splitOn hmem
  rw [bindingLine, List.mem_append, List.mem_cons, not_or, not_or] at hbreak
  exact ⟨hequals, hbreak.1, hhash, hbreak.2.2⟩

/-- The bindings of a map are those that its lines assign. -/
theorem lookup_foldl_insert {bindings : List (Text × Text)}
    (hnodup : (bindings.map Prod.fst).Nodup) {vars : Grubenv} {key : Text}
    (hnone : ∀ kv ∈ bindings, lookup vars kv.1 = none) {val : Text} :
    lookup (bindings.foldl (fun m kv => m.insert kv.1 kv.2) vars) key = some val ↔
      lookup vars key = some val ∨ (key, val) ∈ bindings := by
  induction bindings generalizing vars with
  | nil => simp
  | cons kv bindings ih =>
    obtain ⟨hkey, hnodup⟩ := List.nodup_cons.mp hnodup
    rw [List.foldl_cons, ih hnodup]
    · rw [lookup_insert, List.mem_cons]
      by_cases h : kv.1 = key
      · have hvars : lookup vars key = none := h ▸ hnone kv List.mem_cons_self
        simp only [h, if_true, hvars, reduceCtorEq, false_or, Option.some.injEq]
        refine or_congr_left ⟨fun hval => ?_, fun heq => ?_⟩
        · rw [← h, ← hval]
        · rw [← heq]
      · have hne : (key, val) ≠ kv := fun heq => h (by rw [← heq])
        simp [h, hne]
    · intro kv' hkv'
      have hne : kv.1 ≠ kv'.1 := fun heq => hkey (heq ▸ List.mem_map_of_mem hkv')
      rw [lookup_insert, if_neg hne]
      exact hnone kv' (List.mem_cons_of_mem _ hkv')

theorem ext_lookup {vars vars' : Grubenv}
    (h : ∀ key val, lookup vars key = some val ↔ lookup vars' key = some val) : vars = vars' :=
  Std.ExtTreeMap.ext_getElem? fun key => Option.ext (h key)

/-! ### Reading back -/

/-- The header is a line of its own. -/
def headerLine : Text := "# GRUB Environment Block"

theorem IsBinding.noBreak_line {kv : Text × Text} (h : IsBinding kv) : '\n' ∉ bindingLine kv := by
  rw [bindingLine, List.mem_append, List.mem_cons, not_or, not_or]
  exact ⟨h.noBreak, by decide, h.plain⟩

/-- The lines of a block whose last line has no break. -/
theorem splitOn_blockText {bindings : List (Text × Text)} (h : ∀ kv ∈ bindings, IsBinding kv)
    {last : Text} (hlast : '\n' ∉ last) :
    (blockText bindings ++ last).splitOn '\n' =
      headerLine :: (bindings.map bindingLine ++ [last]) := by
  have hlines : ((bindings.flatMap fun kv => bindingLine kv ++ ['\n']) ++ last).splitOn '\n' =
      bindings.map bindingLine ++ [last] := by
    rw [← Text.splitOn_lines (List.forall_mem_map.mpr fun kv hkv => (h kv hkv).noBreak_line) hlast,
      List.flatMap_map]
  have hheader : header = headerLine ++ ['\n'] := rfl
  rw [blockText, hheader, List.append_assoc, List.append_assoc, List.singleton_append,
    List.splitOn_append_cons_self_of_not_mem (by decide), hlines]

/-- Lines behind the header are read as their bindings, and then a last line without a break. -/
theorem parse_lines {bindings : List (Text × Text)} (h : ∀ kv ∈ bindings, IsBinding kv)
    {last : Text} (hlast : '\n' ∉ last) :
    parse (blockText bindings ++ last) =
      parseLine (bindings.foldl (fun m kv => m.insert kv.1 kv.2) ∅) last := by
  have hfirst : parseLine ∅ headerLine = ∅ := by
    rw [parseLine]
    exact if_pos (Or.inr rfl)
  rw [parse, splitOn_blockText h hlast, List.foldl_cons, hfirst, List.foldl_append,
    List.foldl_map, List.foldl_cons, List.foldl_nil,
    List.foldl_ext _ _ _ fun vars kv hkv => parseLine_binding (h kv hkv) vars]

variable {vars : Grubenv}

/-- Every binding of the map stands in a line. -/
def Valid (vars : Grubenv) : Prop := ∀ kv ∈ vars.toList, IsBinding kv

theorem valid_parse (content : Text) : (parse content).Valid :=
  fun _ hkv => isBinding_of_lookup_parse (mem_lookup.mp hkv)

/-- A map is built from its bindings. -/
theorem foldl_toList (vars : Grubenv) :
    vars.toList.foldl (fun m kv => m.insert kv.1 kv.2) ∅ = vars := by
  refine ext_lookup fun key val => ?_
  rw [lookup_foldl_insert (keys_nodup vars) (fun _ _ => by simp [lookup]), ← mem_lookup]
  simp [lookup]

/-- The last binding of a map, and the text of its block. -/
theorem exists_last (h : vars.Valid) (hlt : header.length < (blockText vars.toList).length) :
    ∃ bindings kv, vars.toList = bindings ++ [kv] ∧ IsBinding kv ∧
      (∀ kv' ∈ bindings, IsBinding kv' ∧ kv'.1 ≠ kv.1) ∧
      blockText vars.toList = blockText bindings ++ bindingLine kv ++ ['\n'] := by
  rcases List.eq_nil_or_concat vars.toList with hnil | ⟨bindings, kv, hconcat⟩
  · rw [hnil] at hlt
    exact absurd hlt (by decide)
  rw [List.concat_eq_append] at hconcat
  have hnodup := keys_nodup vars
  rw [hconcat, List.map_append, List.nodup_append] at hnodup
  refine ⟨bindings, kv, hconcat, h kv (by rw [hconcat]; simp), fun kv' hkv' => ⟨?_, ?_⟩, ?_⟩
  · exact h kv' (by rw [hconcat]; simp [hkv'])
  · exact hnodup.2.2 _ (List.mem_map_of_mem hkv') _ (List.mem_singleton_self _)
  · rw [hconcat, blockText, List.flatMap_append, List.flatMap_singleton, blockText]
    simp only [List.append_assoc]

/-- What is written is read back when no more than the last line break is cut off. -/
theorem parse_serialize (h : vars.Valid) (hfits : (blockText vars.toList).length ≤ size + 1) :
    parse (serialize vars) = vars := by
  rw [serialize_eq]
  split_ifs with hlt
  · rw [parse_lines h (by simp [List.mem_replicate]), foldl_toList, parseLine, if_pos (Or.inr ?_)]
    rw [List.head?_replicate, if_neg (by omega)]
  · rcases Nat.lt_or_ge (blockText vars.toList).length (size + 1) with hle | hge
    · rw [List.take_of_length_le (by omega), ← List.append_nil (blockText vars.toList),
        parse_lines h List.not_mem_nil, foldl_toList, parseLine, if_pos (Or.inl rfl)]
    · -- the last line is read without its break
      have hheader : header.length ≤ size := by decide
      obtain ⟨bindings, kv, hlist, hkv, hbindings, htext⟩ := exists_last h (by omega)
      have hcut : (blockText vars.toList).take size = blockText bindings ++ bindingLine kv := by
        have hlength := congrArg List.length htext
        rw [List.length_append, List.length_singleton] at hlength
        rw [htext, List.take_append_of_le_length (by omega), List.take_of_length_le (by omega)]
      rw [hcut, parse_lines (fun kv' hkv' => (hbindings kv' hkv').1) hkv.noBreak_line,
        parseLine_binding hkv]
      have hfold := foldl_toList vars
      rwa [hlist, List.foldl_append] at hfold

/-- When more is cut off, the last binding is lost or cut short. -/
theorem exists_lost (h : vars.Valid) (hlt : size + 1 < (blockText vars.toList).length) :
    ∃ key val, lookup vars key = some val ∧ lookup (parse (serialize vars)) key ≠ some val := by
  have hheader : header.length ≤ size := by decide
  obtain ⟨bindings, kv, hlist, hkv, hbindings, htext⟩ := exists_last h (by omega)
  refine ⟨kv.1, kv.2, mem_lookup.mp (by rw [hlist]; simp), fun hread => ?_⟩
  have hlength := congrArg List.length htext
  rw [List.length_append, List.length_singleton] at hlength
  have hcut : serialize vars <+: blockText bindings ++ (bindingLine kv).dropLast := by
    rw [serialize_eq, if_neg (by omega), htext, List.take_append_of_le_length (by omega)]
    have hdrop : blockText bindings ++ (bindingLine kv).dropLast =
        (blockText bindings ++ bindingLine kv).take
          ((blockText bindings ++ bindingLine kv).length - 1) := by
      rw [← List.dropLast_eq_take, List.dropLast_append_of_ne_nil]
      simp [bindingLine]
    rw [hdrop]
    exact List.take_prefix_take_left (by omega)
  obtain ⟨hmem, -, hcomment⟩ := bindingLine_mem_of_lookup_parse hread
  obtain ⟨whole, hwhole, hprefix⟩ := Text.exists_prefix_of_mem_splitOn hcut hmem
  rw [splitOn_blockText (fun kv' hkv' => (hbindings kv' hkv').1)
    fun hbreak => hkv.noBreak_line (List.dropLast_subset _ hbreak)] at hwhole
  rcases List.mem_cons.mp hwhole with rfl | hwhole
  · -- a line does not start the header
    obtain ⟨t, ht⟩ := hprefix
    have hhead := congrArg List.head? ht
    cases hkey : kv.1 with
    | nil =>
      rw [hkey] at hhead
      cases hhead
    | cons c key =>
      rw [hkey] at hhead hcomment
      exact hcomment hhead
  rcases List.mem_append.mp hwhole with hwhole | hwhole
  · obtain ⟨kv', hkv', rfl⟩ := List.mem_map.mp hwhole
    have heq := key_eq_of_prefix hkv.noEquals (hbindings kv' hkv').1.noEquals hprefix
    exact (hbindings kv' hkv').2 heq.symm
  · obtain rfl := List.mem_singleton.mp hwhole
    have hle := hprefix.length_le
    rw [List.length_dropLast] at hle
    have hpos : 0 < (bindingLine kv).length := by
      rw [bindingLine, List.length_append, List.length_cons]
      omega
    have heq : bindingLine (kv.1, kv.2) = bindingLine kv := rfl
    rw [heq] at hle
    omega

/-- **A map is read back** exactly when no more than its last line break is cut off. -/
theorem parse_serialize_eq_iff (h : vars.Valid) :
    parse (serialize vars) = vars ↔ (blockText vars.toList).length ≤ size + 1 := by
  refine ⟨fun heq => not_lt.mp fun hlt => ?_, parse_serialize h⟩
  obtain ⟨key, val, hvars, hread⟩ := exists_lost h hlt
  rw [heq] at hread
  exact hread hvars

/-! ### Read, modify, write -/

/-- A change of one variable. -/
inductive Edit
  | assign (key val : Text) (h : IsBinding (key, val))
  | erase (key : Text)

def Edit.apply (vars : Grubenv) : Edit → Grubenv
  | .assign key val _ => vars.insert key val
  | .erase key => vars.erase key

theorem Valid.apply (h : vars.Valid) (edit : Edit) : (edit.apply vars).Valid := by
  rintro ⟨key, val⟩ hmem
  rw [mem_lookup] at hmem
  cases edit with
  | assign key' val' hedit =>
    rw [Edit.apply, lookup_insert] at hmem
    split_ifs at hmem with hkey
    · obtain rfl := Option.some.inj hmem
      rwa [hkey] at hedit
    · exact h _ (mem_lookup.mpr hmem)
  | erase key' =>
    rw [Edit.apply, lookup_erase] at hmem
    split_ifs at hmem
    exact h _ (mem_lookup.mpr hmem)

theorem Valid.edit (h : vars.Valid) (edits : List Edit) : (edits.foldl Edit.apply vars).Valid := by
  induction edits generalizing vars with
  | nil => exact h
  | cons edit edits ih => exact ih (h.apply edit)

theorem isBinding_of_plain {key val : Text} (hkey : ∀ c ∈ key, c ≠ '=' ∧ c ≠ '\n' ∧ c ≠ '#')
    (hval : ∀ c ∈ val, c ≠ '\n') : IsBinding (key, val) :=
  ⟨fun h => (hkey _ h).1 rfl, fun h => (hkey _ h).2.1 rfl,
    fun h => (hkey _ (List.mem_of_mem_head? h)).2.2 rfl, fun h => hval _ h rfl⟩

/-- The changes that arm a slot. -/
def armEdits (target : Slot) : List Edit :=
  [.assign activeSlot target.toText
      (isBinding_of_plain (by decide) (by cases target <;> decide)),
    .assign bootSuccess "0" (isBinding_of_plain (by decide) (by decide)),
    .assign bootCounter "3" (isBinding_of_plain (by decide) (by decide))]

theorem armSlot_eq (vars : Grubenv) (target : Slot) :
    armSlot vars target = (armEdits target).foldl Edit.apply vars := rfl

/-- The changes that confirm a boot. -/
def confirmEdits : List Edit :=
  [.assign bootSuccess "1" (isBinding_of_plain (by decide) (by decide)), .erase bootCounter]

theorem markBootSuccess_eq (vars : Grubenv) :
    markBootSuccess vars = confirmEdits.foldl Edit.apply vars := rfl

/-- Nothing is lost when a map is written: it makes a block that is read back as the map, and a
map that does not fit is not written. -/
structure LosesNothing (vars : Grubenv) : Prop where
  length : (serialize vars).length = size
  parse : vars.Fits → parse (serialize vars) = vars
  refuse : ¬ vars.Fits → ∀ save old, write save vars old = (false, old)

end Grubenv

/-- **Changing variables of the block** loses nothing exactly when the changed map fits. -/
theorem readModifyWrite_iff (content : Text) (edits : List Grubenv.Edit) :
    (edits.foldl Grubenv.Edit.apply (Grubenv.parse content)).LosesNothing ↔
      (edits.foldl Grubenv.Edit.apply (Grubenv.parse content)).Fits := by
  have hvalid := (Grubenv.valid_parse content).edit edits
  constructor
  · intro h
    by_contra hfits
    have hrefuse := h.refuse hfits ⟨true, none, true⟩ none
    cases hrefuse
  · intro hfits
    refine ⟨Grubenv.length_serialize _, fun _ => Grubenv.parse_serialize hvalid ?_,
      fun hnot => absurd hfits hnot⟩
    exact le_trans hfits (Nat.le_succ _)

/-- A full block with one long variable. -/
def fullBlock : Text := Grubenv.blockText [("x".toList, List.replicate 996 'a')]

theorem isBlock_fullBlock : Grubenv.IsBlock fullBlock := by
  refine ⟨by decide +kernel, [("x".toList, List.replicate 996 'a')], 0,
    (List.append_nil fullBlock).symm, ?_⟩
  rintro kv hkv
  obtain rfl := List.mem_singleton.mp hkv
  exact ⟨by decide, Grubenv.isBinding_of_plain (by decide) fun c hc =>
    List.eq_of_mem_replicate hc ▸ by decide⟩

/-- Arming a slot cuts the variable short, and the block is stored. -/
theorem not_readModifyWrite :
    ¬ ∀ (content : Text) (edits : List Grubenv.Edit), Grubenv.IsBlock content →
      (edits.foldl Grubenv.Edit.apply (Grubenv.parse content)).LosesNothing := by
  intro h
  have hfits := (h fullBlock (Grubenv.armEdits .B) isBlock_fullBlock).refuse
    (by decide +kernel) ⟨true, none, true⟩ none
  cases hfits

end Llamaste
