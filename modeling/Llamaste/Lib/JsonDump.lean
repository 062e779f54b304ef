import Llamaste.Lib.JsonWellFormed

/-!
# Writing JSON that may fail

A strict library refuses to write a string or a key that is not UTF-8. What it does write
is UTF-8 itself, and it always writes what was read.

## Main results

* `Json.valid_dump`: a written text is UTF-8.
* `Json.WellFormed.utf8`: a well-formed value can be written.
-/

namespace Utf8

/-- Behind whole characters a reader stands between characters. -/
theorem validFrom_append {q : State} {s : Text} (hs : validFrom q s = true) (t : Text) :
    validFrom q (s ++ t) = validFrom start t := by
  induction s generalizing q with
  | nil =>
      have h0 : q.owed = 0 := by simpa [validFrom] using hs
      exact Json.validFrom_of_owed_zero h0 t
  | cons c s ih =>
      cases hq : step q c.toNat with
      | none => simp [validFrom, hq] at hs
      | some q' =>
          rw [validFrom_cons hq] at hs
          rw [List.cons_append, validFrom_cons hq]
          exact ih hs

/-- Texts behind a valid one are valid with it. -/
theorem valid_append_iff {s t : Text} (hs : valid s = true) :
    valid (s ++ t) = true ↔ valid t = true := by
  rw [valid, validFrom_append hs, valid]

theorem valid_append {s t : Text} (hs : valid s = true) (ht : valid t = true) :
    valid (s ++ t) = true := (valid_append_iff hs).mpr ht

theorem valid_cons_ascii {c : Char} {s : Text} (hc : c.toNat < 0x80) (hs : valid s = true) :
    valid (c :: s) = true :=
  valid_append (valid_of_ascii (s := [c]) (by simpa using hc)) hs

end Utf8

namespace Json

mutual

/-- All strings and keys of a value are UTF-8. -/
def utf8 : Json → Bool
  | .str s => Utf8.valid s
  | .arr js => utf8Elems js
  | .obj ms => utf8Members ms
  | _ => true

def utf8Elems : List Json → Bool
  | [] => true
  | j :: js => utf8 j && utf8Elems js

def utf8Members : List (Text × Json) → Bool
  | [] => true
  | (k, j) :: ms => Utf8.valid k && utf8 j && utf8Members ms

end

/-- `dump()`: a text, or an exception where a string is not UTF-8. -/
def dump (j : Json) : Option Text := if j.utf8 then some (dumpAt .compact 0 j) else none

/-- `dump(width)`. -/
def dumpIndented (width : ℕ) (j : Json) : Option Text :=
  if j.utf8 then some (dumpAt (.indented width) 0 j) else none

@[simp] theorem isSome_dump (j : Json) : j.dump.isSome = j.utf8 := by
  cases h : j.utf8 <;> simp [dump, h]

theorem utf8Elems_eq_all (js : List Json) : utf8Elems js = js.all utf8 := by
  induction js with
  | nil => rfl
  | cons j js ih => rw [utf8Elems, List.all_cons, ih]

theorem utf8Members_eq_all (ms : List (Text × Json)) :
    utf8Members ms = ms.all fun kv => Utf8.valid kv.1 && utf8 kv.2 := by
  induction ms with
  | nil => rfl
  | cons kv ms ih => rw [utf8Members, List.all_cons, ih]

@[simp] theorem utf8_str (s : Text) : (Json.str s).utf8 = Utf8.valid s := by rw [utf8]

@[simp] theorem utf8_arr (js : List Json) : (Json.arr js).utf8 = js.all utf8 := by
  rw [utf8, utf8Elems_eq_all]

@[simp] theorem utf8_obj (ms : List (Text × Json)) :
    (Json.obj ms).utf8 = ms.all fun kv => Utf8.valid kv.1 && utf8 kv.2 := by
  rw [utf8, utf8Members_eq_all]

/-- Members can be written if their keys can, as far as their values can. -/
theorem utf8_obj_iff {ms : List (Text × Json)}
    (hkeys : ∀ key ∈ ms.map Prod.fst, Utf8.valid key = true) :
    (Json.obj ms).utf8 = true ↔ ∀ j ∈ ms.map Prod.snd, j.utf8 = true := by
  rw [utf8_obj, List.all_eq_true, List.forall_mem_map]
  refine forall₂_congr fun kv hkv => ?_
  rw [hkeys kv.1 (List.mem_map_of_mem hkv), Bool.true_and]

/-- An object can be written if its keys can, as far as its values can. -/
theorem utf8_object {ms : List (Text × Json)} (hnodup : (ms.map Prod.fst).Nodup)
    (hkeys : ∀ key ∈ ms.map Prod.fst, Utf8.valid key = true) :
    (Json.object ms).utf8 = true ↔ ∀ j ∈ ms.map Prod.snd, j.utf8 = true := by
  obtain ⟨l, hobject, hperm⟩ := perm_object hnodup
  rw [hobject, utf8_obj_iff fun key hkey => hkeys key ((hperm.map Prod.fst).mem_iff.mp hkey)]
  exact forall_congr' fun j => imp_congr_left (hperm.map Prod.snd).mem_iff

/-- A well-formed value can be written. -/
theorem WellFormed.utf8 {j : Json} (hj : WellFormed j) : j.utf8 = true := by
  induction hj with
  | null => rfl
  | bool b => rfl
  | int h => rfl
  | float h => rfl
  | str h =>
      rw [utf8_str]
      exact h
  | arr h ih =>
      rw [utf8_arr]
      exact List.all_eq_true.mpr ih
  | obj hsorted hkeys h ih =>
      rw [utf8_obj]
      exact List.all_eq_true.mpr fun kv hkv => by rw [hkeys kv hkv, ih kv hkv]; rfl

/-! ### A written text is UTF-8 -/

/-- Before an ASCII byte a reader stands between characters. -/
theorem validFrom_of_append_ascii {q : Utf8.State} {s t : Text} {c : Char} (ho : Owes q)
    (hc : c.toNat < 0x80) (h : Utf8.validFrom q (s ++ c :: t) = true) :
    Utf8.validFrom q s = true := by
  induction s generalizing q with
  | nil =>
      cases hq : Utf8.step q c.toNat with
      | none => simp [Utf8.validFrom, hq] at h
      | some q' => simpa [Utf8.validFrom] using (step_ascii hc ho hq).1
  | cons b s ih =>
      rw [List.cons_append] at h
      cases hq : Utf8.step q b.toNat with
      | none => simp [Utf8.validFrom, hq] at h
      | some q' =>
          rw [Utf8.validFrom_cons hq] at h ⊢
          exact ih (Owes.step hq) h

theorem escapeChar_ascii {c : Char} (hc : c.toNat < 0x80) :
    ∀ b ∈ escapeChar c, b.toNat < 0x80 := by
  have hhigh := Text.hexDigit_ascii (c.toNat / 16) (by omega)
  have hlow := Text.hexDigit_ascii (c.toNat % 16) (by omega)
  rw [escapeChar]
  split_ifs
  all_goals simp_all

/-- A byte inside a character. -/
def IsTail (c : Char) : Prop := 0x80 ≤ c.toNat ∧ c.toNat ≤ 0xBF

instance (c : Char) : Decidable (IsTail c) := inferInstanceAs (Decidable (_ ∧ _))

/-- The states the reader is in owe continuation bytes up to 0xBF. -/
def OwesTail (q : Utf8.State) : Prop := q.owed ≠ 0 → q.high ≤ 0xBF

theorem OwesTail.step {q q' : Utf8.State} {b : ℕ} (hq : Utf8.step q b = some q') : OwesTail q' :=
  fun _ => (bounds_step hq).2

/-- A reader is inside a character exactly when the next byte is. -/
theorem isTail_iff {q q' : Utf8.State} {c : Char} (hq : Utf8.step q c.toNat = some q')
    (ho : Owes q) (ht : OwesTail q) : IsTail c ↔ q.owed ≠ 0 := by
  by_cases h0 : q.owed = 0
  · refine iff_of_false (fun h => ?_) (not_not.mpr h0)
    rw [Utf8.step, if_pos h0, Utf8.lead, if_neg (Nat.not_lt.mpr h.1), if_pos] at hq
    · cases hq
    · exact Nat.lt_of_le_of_lt h.2 (by decide)
  · rw [Utf8.step, if_neg h0] at hq
    split_ifs at hq with hrange
    exact iff_of_true ⟨(ho h0).trans hrange.1, hrange.2.trans (ht h0)⟩ h0

theorem validFrom_take_iff {q : Utf8.State} {s : Text} (h : Utf8.validFrom q s = true)
    (ho : Owes q) (ht : OwesTail q) (n : ℕ) :
    Utf8.validFrom q (s.take n) = true ↔ ∀ c ∈ s[n]?, ¬IsTail c := by
  induction s generalizing q n with
  | nil =>
      rw [List.take_nil]
      exact iff_of_true h nofun
  | cons c s ih =>
      cases hq : Utf8.step q c.toNat with
      | none => simp [Utf8.validFrom, hq] at h
      | some q' =>
          rw [Utf8.validFrom_cons hq] at h
          cases n with
          | zero =>
              rw [List.take_zero, Utf8.validFrom, beq_iff_eq, List.getElem?_cons_zero]
              simp only [Option.mem_some_iff, forall_eq', isTail_iff hq ho ht, not_not]
          | succ n =>
              rw [List.take_succ_cons, Utf8.validFrom_cons hq, List.getElem?_cons_succ]
              exact ih h (Owes.step hq) (OwesTail.step hq) n

/-- **A text can be cut** exactly where no character is. -/
theorem valid_take_iff {s : Text} (h : Utf8.valid s = true) (n : ℕ) :
    Utf8.valid (s.take n) = true ↔ ∀ c ∈ s[n]?, ¬IsTail c :=
  validFrom_take_iff h owes_start (fun hne => absurd rfl hne) n

/-- An ASCII end changes nothing. -/
theorem valid_append_ascii_iff {s t : Text} (ht : ∀ c ∈ t, c.toNat < 0x80) :
    Utf8.valid (s ++ t) = true ↔ Utf8.valid s = true := by
  refine ⟨fun h => ?_, fun h => Utf8.valid_append h (Utf8.valid_of_ascii ht)⟩
  cases t with
  | nil => rwa [List.append_nil] at h
  | cons c t => exact validFrom_of_append_ascii owes_start (ht c List.mem_cons_self) h

theorem valid_ofNat (n : ℕ) : Utf8.valid (Text.ofNat n) = true :=
  Utf8.valid_of_ascii fun c hc => by
    have := Text.toNat_of_isDigit (Text.isDigit_toDigits c hc)
    omega

theorem validFrom_ascii {q : Utf8.State} (hq : q.owed = 0) {s : Text}
    (hs : ∀ c ∈ s, c.toNat < 0x80) (t : Text) :
    Utf8.validFrom q (s ++ t) = Utf8.validFrom Utf8.start t := by
  rw [validFrom_of_owed_zero hq]
  exact Utf8.validFrom_append (Utf8.valid_of_ascii hs) t

/-- Escaping keeps a text UTF-8. -/
theorem validFrom_flatMap_escapeChar {q : Utf8.State} {s : Text} (ho : Owes q)
    (hs : Utf8.validFrom q s = true) : Utf8.validFrom q (s.flatMap escapeChar) = true := by
  induction s generalizing q with
  | nil => exact hs
  | cons c s ih =>
      cases hq : Utf8.step q c.toNat with
      | none => simp [Utf8.validFrom, hq] at hs
      | some q' =>
          rw [Utf8.validFrom_cons hq] at hs
          have hrest := ih (Owes.step hq) hs
          rw [List.flatMap_cons]
          by_cases hascii : c.toNat < 0x80
          · obtain ⟨h0, rfl⟩ := step_ascii hascii ho hq
            rw [validFrom_ascii h0 (escapeChar_ascii hascii)]
            exact hrest
          · rw [escapeChar_of_not_ascii hascii, List.singleton_append, Utf8.validFrom_cons hq]
            exact hrest

theorem valid_dumpString {s : Text} (hs : Utf8.valid s = true) :
    Utf8.valid (dumpString s) = true := by
  refine Utf8.valid_cons_ascii (by decide) (Utf8.valid_append ?_ (by decide))
  exact validFrom_flatMap_escapeChar owes_start hs

theorem dumpInt_ascii (n : ℤ) : ∀ c ∈ dumpInt n, c.toNat < 0x80 := by
  have hdigits : ∀ c ∈ Nat.toDigits 10 n.natAbs, c.toNat < 0x80 := fun c hc =>
    toNat_lt_of_isDigit (Text.isDigit_toDigits c hc)
  rw [dumpInt]
  split_ifs
  · intro c hc
    rcases List.mem_cons.mp hc with rfl | hc
    · decide
    · exact hdigits c hc
  · exact hdigits

theorem valid_ws {ws : Text} (hws : ws.all isWs = true) : Utf8.valid ws = true := by
  refine Utf8.valid_of_ascii fun c hc => ?_
  have hc := List.all_eq_true.mp hws c hc
  simp only [isWs, Bool.or_eq_true, decide_eq_true_eq] at hc
  rcases hc with ((rfl | rfl) | rfl) | rfl <;> decide

variable (L : Layout)

/-- A key, the colon and what follows, behind the white space of a new line. -/
theorem valid_member (d : ℕ) {k v : Text} (hk : Utf8.valid k = true) (hv : Utf8.valid v = true) :
    Utf8.valid (L.newline d ++ dumpString k ++ ':' :: L.afterColon ++ v) = true :=
  Utf8.valid_append (Utf8.valid_append
    (Utf8.valid_append (valid_ws (L.newline_ws d)) (valid_dumpString hk))
    (Utf8.valid_cons_ascii (by decide) (valid_ws L.afterColon_ws))) hv

mutual

theorem valid_dumpAt (d : ℕ) : ∀ j : Json, j.utf8 = true → Utf8.valid (dumpAt L d j) = true
  | .null, _ => by rw [dumpAt]; decide
  | .bool b, _ => by cases b <;> rw [dumpAt] <;> decide
  | .int n, _ => by rw [dumpAt]; exact Utf8.valid_of_ascii (dumpInt_ascii n)
  | .float m e, _ => by
      rw [dumpAt]
      exact Utf8.valid_append (Utf8.valid_of_ascii (dumpInt_ascii m))
        (Utf8.valid_cons_ascii (by decide) (Utf8.valid_of_ascii (dumpInt_ascii e)))
  | .str s, h => by
      rw [dumpAt]
      exact valid_dumpString ((utf8_str s).symm.trans h)
  | .arr [], _ => by rw [dumpAt]; decide
  | .arr (j :: js), h => by
      rw [utf8, utf8Elems, Bool.and_eq_true] at h
      rw [dumpAt]
      exact Utf8.valid_cons_ascii (by decide) (Utf8.valid_append (Utf8.valid_append
        (Utf8.valid_append (Utf8.valid_append (valid_ws (L.newline_ws _))
          (valid_dumpAt (d + 1) j h.1)) (valid_dumpElems (d + 1) js h.2))
        (valid_ws (L.newline_ws _))) (by decide))
  | .obj [], _ => by rw [dumpAt]; decide
  | .obj ((k, j) :: ms), h => by
      rw [utf8, utf8Members, Bool.and_eq_true, Bool.and_eq_true] at h
      rw [dumpAt]
      exact Utf8.valid_cons_ascii (by decide) (Utf8.valid_append (Utf8.valid_append
        (Utf8.valid_append (valid_member L (d + 1) h.1.1 (valid_dumpAt (d + 1) j h.1.2))
          (valid_dumpMembers (d + 1) ms h.2)) (valid_ws (L.newline_ws _))) (by decide))

theorem valid_dumpElems (d : ℕ) : ∀ js : List Json, utf8Elems js = true →
    Utf8.valid (dumpElems L d js) = true
  | [], _ => by rw [dumpElems]; decide
  | j :: js, h => by
      rw [utf8Elems, Bool.and_eq_true] at h
      rw [dumpElems]
      exact Utf8.valid_cons_ascii (by decide) (Utf8.valid_append
        (Utf8.valid_append (valid_ws (L.newline_ws _)) (valid_dumpAt d j h.1))
        (valid_dumpElems d js h.2))

theorem valid_dumpMembers (d : ℕ) : ∀ ms : List (Text × Json), utf8Members ms = true →
    Utf8.valid (dumpMembers L d ms) = true
  | [], _ => by rw [dumpMembers]; decide
  | (k, j) :: ms, h => by
      rw [utf8Members, Bool.and_eq_true, Bool.and_eq_true] at h
      rw [dumpMembers]
      exact Utf8.valid_cons_ascii (by decide) (Utf8.valid_append
        (valid_member L d h.1.1 (valid_dumpAt d j h.1.2)) (valid_dumpMembers d ms h.2))

end

/-- **A written text is UTF-8.** -/
theorem valid_dump {j : Json} {s : Text} (h : j.dump = some s) : Utf8.valid s = true := by
  rw [dump] at h
  split_ifs at h with hj
  obtain rfl := Option.some.inj h
  exact valid_dumpAt .compact 0 j hj

/-! ### Texts of one line -/

theorem newline_notMem_dumpInt (n : ℤ) : '\n' ∉ dumpInt n := by
  have hdigits : '\n' ∉ Nat.toDigits 10 n.natAbs := fun h =>
    absurd (Text.isDigit_toDigits _ h) (by decide)
  rw [dumpInt]
  split_ifs
  · exact fun h => (List.mem_cons.mp h).elim (by decide) hdigits
  · exact hdigits

theorem newline_notMem_escapeChar (c : Char) : '\n' ∉ escapeChar c := by
  have hhex : ∀ n < 0x20, '\n' ∉ "\\u00".toList ++
      [Text.hexDigit (n / 16), Text.hexDigit (n % 16)] := by decide
  rw [escapeChar]
  split_ifs with h1 h2 h3 h4 h5 h6 h7 h8
  · decide
  · decide
  · decide
  · decide
  · decide
  · decide
  · decide
  · exact hhex _ h8
  · exact fun h => h3 (List.mem_singleton.mp h).symm

theorem newline_notMem_dumpString (s : Text) : '\n' ∉ dumpString s := by
  simp only [dumpString, List.cons_append, List.mem_cons, List.mem_append, List.mem_flatMap,
    List.not_mem_nil, or_false]
  rintro (h | ⟨c, -, h⟩ | h)
  · exact absurd h (by decide)
  · exact newline_notMem_escapeChar c h
  · exact absurd h (by decide)

@[simp] theorem newline_compact (d : ℕ) : Layout.compact.newline d = [] := rfl

@[simp] theorem afterColon_compact : Layout.compact.afterColon = [] := rfl

mutual

/-- The compact text of a value is one line. -/
theorem newline_notMem_dumpAt (d : ℕ) : ∀ j : Json, '\n' ∉ dumpAt .compact d j
  | .null => by rw [dumpAt]; decide
  | .bool b => by cases b <;> rw [dumpAt] <;> decide
  | .int n => by rw [dumpAt]; exact newline_notMem_dumpInt n
  | .float m e => by
      rw [dumpAt]
      simp [newline_notMem_dumpInt]
  | .str s => by rw [dumpAt]; exact newline_notMem_dumpString s
  | .arr [] => by rw [dumpAt]; decide
  | .arr (j :: js) => by
      rw [dumpAt]
      simp [newline_notMem_dumpAt (d + 1) j, newline_notMem_dumpElems (d + 1) js]
  | .obj [] => by rw [dumpAt]; decide
  | .obj ((k, j) :: ms) => by
      rw [dumpAt]
      simp [newline_notMem_dumpString, newline_notMem_dumpAt (d + 1) j,
        newline_notMem_dumpMembers (d + 1) ms]

theorem newline_notMem_dumpElems (d : ℕ) : ∀ js : List Json, '\n' ∉ dumpElems .compact d js
  | [] => by rw [dumpElems]; decide
  | j :: js => by
      rw [dumpElems]
      simp [newline_notMem_dumpAt d j, newline_notMem_dumpElems d js]

theorem newline_notMem_dumpMembers (d : ℕ) :
    ∀ ms : List (Text × Json), '\n' ∉ dumpMembers .compact d ms
  | [] => by rw [dumpMembers]; decide
  | (k, j) :: ms => by
      rw [dumpMembers]
      simp [newline_notMem_dumpString, newline_notMem_dumpAt d j,
        newline_notMem_dumpMembers d ms]

end

end Json
