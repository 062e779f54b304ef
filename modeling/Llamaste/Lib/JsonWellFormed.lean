import Llamaste.Lib.JsonText

/-!
# What a reader produces

A value that was read is one that can be written: its strings are UTF-8, its numbers in
range, its members in order.

## Main results

* `Json.wellFormed_of_parse`, `Json.wellFormed_of_parsePrefix`.
-/

namespace Utf8

theorem toNat_ofNat_of_lt {n : ℕ} (h : n < 0x100) : (Char.ofNat n).toNat = n := by
  rw [Char.ofNat, dif_pos (Or.inl (by omega))]
  rfl

theorem validFrom_cons {q q' : State} {c : Char} (h : step q c.toNat = some q') (s : Text) :
    validFrom q (c :: s) = validFrom q' s := by
  simp only [validFrom, h]

/-- A continuation byte in range pays one owed byte. -/
theorem step_tail {owed low high b : ℕ} (howed : owed ≠ 0) (hlow : low ≤ b) (hhigh : b ≤ high) :
    step ⟨owed, low, high⟩ b = some ⟨owed - 1, 0x80, 0xBF⟩ := by
  rw [step, if_neg howed, if_pos ⟨hlow, hhigh⟩]

/-- The first byte of a two-byte character. -/
theorem lead_two {b : ℕ} (hlow : 0xC2 ≤ b) (hhigh : b ≤ 0xDF) :
    lead b = some ⟨1, 0x80, 0xBF⟩ := by
  rw [lead, if_neg (by omega), if_neg (by omega), if_pos hhigh]

/-- The first byte of a three-byte character admits its second byte. -/
theorem lead_three {cp : ℕ} (hlow : 0x800 ≤ cp) (hhigh : cp < 0x10000)
    (hsur : cp < 0xD800 ∨ 0xDFFF < cp) :
    ∃ low high, lead (0xE0 + cp / 0x1000) = some ⟨2, low, high⟩ ∧
      low ≤ 0x80 + cp / 0x40 % 0x40 ∧ 0x80 + cp / 0x40 % 0x40 ≤ high := by
  rw [lead, if_neg (by omega), if_neg (by omega), if_neg (by omega)]
  by_cases hE0 : 0xE0 + cp / 0x1000 = 0xE0
  · rw [if_pos hE0]
    exact ⟨_, _, rfl, by omega, by omega⟩
  · rw [if_neg hE0]
    by_cases hED : 0xE0 + cp / 0x1000 = 0xED
    · rw [if_pos hED]
      exact ⟨_, _, rfl, by omega, by omega⟩
    · rw [if_neg hED, if_pos (by omega)]
      exact ⟨_, _, rfl, by omega, by omega⟩

/-- The first byte of a four-byte character admits its second byte. -/
theorem lead_four {cp : ℕ} (hlow : 0x10000 ≤ cp) (hhigh : cp < 0x110000) :
    ∃ low high, lead (0xF0 + cp / 0x40000) = some ⟨3, low, high⟩ ∧
      low ≤ 0x80 + cp / 0x1000 % 0x40 ∧ 0x80 + cp / 0x1000 % 0x40 ≤ high := by
  rw [lead, if_neg (by omega), if_neg (by omega), if_neg (by omega), if_neg (by omega),
    if_neg (by omega), if_neg (by omega)]
  by_cases hF0 : 0xF0 + cp / 0x40000 = 0xF0
  · rw [if_pos hF0]
    exact ⟨_, _, rfl, by omega, by omega⟩
  · rw [if_neg hF0]
    by_cases hF3 : 0xF0 + cp / 0x40000 ≤ 0xF3
    · rw [if_pos hF3]
      exact ⟨_, _, rfl, by omega, by omega⟩
    · rw [if_neg hF3, if_pos (by omega)]
      exact ⟨_, _, rfl, by omega, by omega⟩

theorem toNat_tail (n : ℕ) : (tail n).toNat = 0x80 + n % 0x40 :=
  toNat_ofNat_of_lt (by omega)

/-- A continuation byte without a further restriction. -/
theorem validFrom_tail {owed : ℕ} (howed : owed ≠ 0) (n : ℕ) (s : Text) :
    validFrom ⟨owed, 0x80, 0xBF⟩ (tail n :: s) = validFrom ⟨owed - 1, 0x80, 0xBF⟩ s := by
  refine validFrom_cons ?_ s
  rw [toNat_tail]
  exact step_tail howed (by omega) (by omega)

/-- The bytes of a code point that is not a surrogate are a whole character. -/
theorem validFrom_encode {cp : ℕ} (hcp : cp < 0x110000) (hsur : cp < 0xD800 ∨ 0xDFFF < cp)
    (s : Text) : validFrom start (encode cp ++ s) = validFrom start s := by
  rw [encode]
  split_ifs with h1 h2 h3
  · have hlead : step start (Char.ofNat cp).toNat = some start := by
      rw [toNat_ofNat_of_lt (by omega)]
      exact if_pos h1
    exact validFrom_cons hlead s
  · have hlead : step start (Char.ofNat (0xC0 + cp / 0x40)).toNat = some ⟨1, 0x80, 0xBF⟩ := by
      rw [toNat_ofNat_of_lt (by omega)]
      exact lead_two (by omega) (by omega)
    rw [List.cons_append, validFrom_cons hlead, List.cons_append, validFrom_tail (by decide)]
    rfl
  · obtain ⟨low, high, hb, hle, hge⟩ := lead_three (by omega) h3 hsur
    have hlead : step start (Char.ofNat (0xE0 + cp / 0x1000)).toNat = some ⟨2, low, high⟩ := by
      rw [toNat_ofNat_of_lt (by omega)]
      exact hb
    have hsecond : step ⟨2, low, high⟩ (tail (cp / 0x40)).toNat = some ⟨1, 0x80, 0xBF⟩ := by
      rw [toNat_tail]
      exact step_tail (by decide) hle hge
    rw [List.cons_append, validFrom_cons hlead, List.cons_append, validFrom_cons hsecond,
      List.cons_append, validFrom_tail (by decide)]
    rfl
  · obtain ⟨low, high, hb, hle, hge⟩ := lead_four (by omega) hcp
    have hlead : step start (Char.ofNat (0xF0 + cp / 0x40000)).toNat = some ⟨3, low, high⟩ := by
      rw [toNat_ofNat_of_lt (by omega)]
      exact hb
    have hsecond : step ⟨3, low, high⟩ (tail (cp / 0x1000)).toNat = some ⟨2, 0x80, 0xBF⟩ := by
      rw [toNat_tail]
      exact step_tail (by decide) hle hge
    rw [List.cons_append, validFrom_cons hlead, List.cons_append, validFrom_cons hsecond,
      List.cons_append, validFrom_tail (by decide), List.cons_append,
      validFrom_tail (by decide)]
    rfl

end Utf8

namespace Json

/-! ### Strings -/

/-- The UTF-8 state in which the bytes that follow a scanner state start. -/
def StrState.utf8 : StrState → Utf8.State
  | .text q => q
  | _ => Utf8.start

/-- A `\u` escape that is being read has at most three digits behind it, whose value it
holds, and a high surrogate that waits is one. -/
def StrState.Ok : StrState → Prop
  | .hex high digits acc => digits ≤ 3 ∧ acc < 16 ^ digits ∧ ∀ h ∈ high, 0xD800 ≤ h ∧ h ≤ 0xDBFF
  | .lowEscape h => 0xD800 ≤ h ∧ h ≤ 0xDBFF
  | .lowU h => 0xD800 ≤ h ∧ h ≤ 0xDBFF
  | _ => True

theorem hexVal_lt {c : Char} {v : ℕ} (h : hexVal c = some v) : v < 16 := by
  unfold hexVal at h
  split_ifs at h with h1 h2 h3
  · obtain rfl := Option.some.inj h
    have : c.toNat ≤ '9'.toNat := h1.2
    have : '9'.toNat = 57 := rfl
    have : '0'.toNat = 48 := rfl
    omega
  · obtain rfl := Option.some.inj h
    have : c.toNat ≤ 'F'.toNat := h2.2
    have : 'F'.toNat = 70 := rfl
    have : 'A'.toNat = 65 := rfl
    omega
  · obtain rfl := Option.some.inj h
    have : c.toNat ≤ 'f'.toNat := h3.2
    have : 'f'.toNat = 102 := rfl
    have : 'a'.toNat = 97 := rfl
    omega

/-- The bytes that the short escapes stand for are ASCII. -/
theorem unescape_ascii {c b : Char} (h : unescape c = some b) : b.toNat < 0x80 := by
  unfold unescape at h
  split_ifs at h with h1
  · obtain rfl := Option.some.inj h
    rcases h1 with rfl | rfl | rfl <;> decide
  all_goals
    obtain rfl := Option.some.inj h
    decide

/-- Between characters it does not matter how the last one ended. -/
theorem validFrom_of_owed_zero {q : Utf8.State} (h : q.owed = 0) (s : Text) :
    Utf8.validFrom q s = Utf8.validFrom Utf8.start s := by
  cases s with
  | nil => simp [Utf8.validFrom, h, Utf8.start]
  | cons c s => simp [Utf8.validFrom, Utf8.step, h, Utf8.start]

/-- The end of a `\u` escape completes a character, or leaves half of a pair. -/
theorem endHex_ok {high : Option ℕ} {cp : ℕ} {q' : StrState} {out : Text} (hcp : cp < 0x10000)
    (hhigh : ∀ h ∈ high, 0xD800 ≤ h ∧ h ≤ 0xDBFF) (h : endHex high cp = some (out, q')) :
    q'.Ok ∧ ∀ s, Utf8.validFrom Utf8.start (out ++ s) = Utf8.validFrom q'.utf8 s := by
  cases high with
  | none =>
      simp only [endHex] at h
      split_ifs at h with h1 h2
      · obtain ⟨rfl, rfl⟩ := Prod.mk.inj (Option.some.inj h)
        exact ⟨h1, fun _ => rfl⟩
      · obtain ⟨rfl, rfl⟩ := Prod.mk.inj (Option.some.inj h)
        exact ⟨trivial, Utf8.validFrom_encode (by omega) (by omega)⟩
  | some hi =>
      obtain ⟨hlow, hup⟩ := hhigh hi rfl
      simp only [endHex] at h
      split_ifs at h with h1
      obtain ⟨rfl, rfl⟩ := Prod.mk.inj (Option.some.inj h)
      exact ⟨trivial, Utf8.validFrom_encode (by omega) (by omega)⟩

/-- One byte keeps the state consistent, and what it completes are whole characters. -/
theorem strStep_ok {q q' : StrState} {c : Char} {out : Text} (hq : q.Ok)
    (h : strStep q c = some (out, q')) :
    q'.Ok ∧ ∀ s, Utf8.validFrom q.utf8 (out ++ s) = Utf8.validFrom q'.utf8 s := by
  cases q with
  | text q =>
      simp only [strStep] at h
      split_ifs at h with hesc
      · obtain ⟨rfl, rfl⟩ := Prod.mk.inj (Option.some.inj h)
        exact ⟨trivial, validFrom_of_owed_zero hesc.1⟩
      · obtain ⟨u, hstep, heq⟩ := Option.map_eq_some_iff.mp h
        obtain ⟨rfl, rfl⟩ := Prod.mk.inj heq
        exact ⟨trivial, fun s => Utf8.validFrom_cons hstep s⟩
  | escape =>
      simp only [strStep] at h
      split_ifs at h
      · obtain ⟨rfl, rfl⟩ := Prod.mk.inj (Option.some.inj h)
        exact ⟨⟨Nat.zero_le 3, Nat.one_pos, by rintro _ ⟨⟩⟩, fun _ => rfl⟩
      · obtain ⟨b, hb, heq⟩ := Option.map_eq_some_iff.mp h
        obtain ⟨rfl, rfl⟩ := Prod.mk.inj heq
        have hstep : Utf8.step Utf8.start b.toNat = some Utf8.start := if_pos (unescape_ascii hb)
        exact ⟨trivial, Utf8.validFrom_cons hstep⟩
  | hex high digits acc =>
      obtain ⟨hdigits, hacc, hhigh⟩ := hq
      simp only [strStep] at h
      cases hv : hexVal c with
      | none => simp [hv] at h
      | some v =>
          have hv16 := hexVal_lt hv
          simp only [hv] at h
          split_ifs at h with hlt
          · obtain ⟨rfl, rfl⟩ := Prod.mk.inj (Option.some.inj h)
            refine ⟨⟨by omega, ?_, hhigh⟩, fun _ => rfl⟩
            rw [Nat.pow_succ]
            omega
          · obtain rfl : digits = 3 := by omega
            exact endHex_ok (by omega) hhigh h
  | lowEscape high =>
      simp only [strStep] at h
      split_ifs at h
      obtain ⟨rfl, rfl⟩ := Prod.mk.inj (Option.some.inj h)
      exact ⟨hq, fun _ => rfl⟩
  | lowU high =>
      simp only [strStep] at h
      split_ifs at h
      obtain ⟨rfl, rfl⟩ := Prod.mk.inj (Option.some.inj h)
      refine ⟨⟨Nat.zero_le 3, Nat.one_pos, ?_⟩, fun _ => rfl⟩
      rintro h ⟨⟩
      exact hq

/-- The contents of a string literal are valid UTF-8. -/
theorem validFrom_of_scanString {q : StrState} {r s r' : Text} (hq : q.Ok)
    (h : scanString q r = some (s, r')) : Utf8.validFrom q.utf8 s = true := by
  induction r generalizing q s with
  | nil => cases h
  | cons c r ih =>
      unfold scanString at h
      split_ifs at h with hclose
      · obtain ⟨rfl, -⟩ := Prod.mk.inj (Option.some.inj h)
        cases q with
        | text q =>
            simp only [closes, Bool.and_eq_true, decide_eq_true_eq] at hclose
            simpa [StrState.utf8, Utf8.validFrom] using hclose.1
        | escape => cases hclose
        | hex high digits acc => cases hclose
        | lowEscape high => cases hclose
        | lowU high => cases hclose
      · split at h
        · cases h
        · rename_i out q' hstep
          obtain ⟨⟨s', r''⟩, hscan, heq⟩ := Option.map_eq_some_iff.mp h
          obtain ⟨rfl, rfl⟩ := Prod.mk.inj heq
          obtain ⟨hq', hout⟩ := strStep_ok hq hstep
          rw [hout]
          exact ih hq' hscan

theorem valid_of_scanString {r s r' : Text}
    (h : scanString (.text Utf8.start) r = some (s, r')) : Utf8.valid s = true :=
  validFrom_of_scanString (q := .text Utf8.start) trivial h

/-! ### Numbers -/

theorem wellFormed_of_mkFloat {m e : ℤ} {j : Json} (h : mkFloat m e = some j) :
    WellFormed j := by
  unfold mkFloat at h
  split_ifs at h with hfits
  obtain rfl := Option.some.inj h
  exact .float hfits

theorem wellFormed_of_mkNumber {neg : Bool} {ip fp : Text} {ex : Option ℤ} {j : Json}
    (h : mkNumber neg ip fp ex = some j) : WellFormed j := by
  unfold mkNumber at h
  split at h
  · split_ifs at h with hfits
    · obtain rfl := Option.some.inj h
      exact .int hfits
    · exact wellFormed_of_mkFloat h
  · exact wellFormed_of_mkFloat h

theorem wellFormed_of_parseScalar {s r : Text} {j : Json} (h : parseScalar s = some (j, r)) :
    WellFormed j := by
  unfold parseScalar at h
  split_ifs at h
  · obtain ⟨rfl, -⟩ := Prod.mk.inj (Option.some.inj h)
    exact .null
  · obtain ⟨rfl, -⟩ := Prod.mk.inj (Option.some.inj h)
    exact .bool true
  · obtain ⟨rfl, -⟩ := Prod.mk.inj (Option.some.inj h)
    exact .bool false
  · simp only [parseNumber, Option.bind_eq_bind, Option.bind_eq_some_iff] at h
    obtain ⟨⟨ip, r1⟩, -, ⟨fp, r2⟩, -, ⟨ex, r3⟩, -, h⟩ := h
    obtain ⟨j', hj, heq⟩ := Option.map_eq_some_iff.mp h
    obtain ⟨rfl, -⟩ := Prod.mk.inj heq
    exact wellFormed_of_mkNumber hj

/-! ### Objects -/

/-- Member lists that an object can have. -/
def MembersOk (ms : List (Text × Json)) : Prop :=
  (ms.Pairwise fun a b => a.1 < b.1) ∧ ∀ kv ∈ ms, Utf8.valid kv.1 = true ∧ WellFormed kv.2

theorem mem_insertMember {key : Text} {val : Json} {ms : List (Text × Json)}
    {kv : Text × Json} (h : kv ∈ insertMember key val ms) : kv = (key, val) ∨ kv ∈ ms := by
  induction ms with
  | nil => exact Or.inl (List.mem_singleton.mp h)
  | cons kv' ms ih =>
      obtain ⟨k, v⟩ := kv'
      unfold insertMember at h
      split_ifs at h
      · rcases List.mem_cons.mp h with h | h
        · exact Or.inl h
        · exact Or.inr (List.mem_cons_of_mem _ h)
      · rcases List.mem_cons.mp h with h | h
        · exact Or.inl h
        · exact Or.inr h
      · rcases List.mem_cons.mp h with rfl | h
        · exact Or.inr List.mem_cons_self
        · exact (ih h).imp_right (List.mem_cons_of_mem _)

/-- Inserting a member keeps the order. -/
theorem pairwise_insertMember {key : Text} {val : Json} {ms : List (Text × Json)}
    (h : ms.Pairwise fun a b => a.1 < b.1) :
    (insertMember key val ms).Pairwise fun a b => a.1 < b.1 := by
  induction ms with
  | nil => exact List.pairwise_singleton _ _
  | cons kv ms ih =>
      obtain ⟨k, v⟩ := kv
      obtain ⟨hk, hms⟩ := List.pairwise_cons.mp h
      rw [insertMember]
      split_ifs with heq hlt
      · subst heq
        exact List.pairwise_cons.mpr ⟨hk, hms⟩
      · refine List.pairwise_cons.mpr ⟨?_, h⟩
        intro kv' hkv'
        rcases List.mem_cons.mp hkv' with rfl | hkv'
        · exact hlt
        · exact lt_trans hlt (hk kv' hkv')
      · refine List.pairwise_cons.mpr ⟨?_, ih hms⟩
        intro kv' hkv'
        rcases mem_insertMember hkv' with rfl | hkv'
        · exact lt_of_le_of_ne (not_lt.mp hlt) (Ne.symm heq)
        · exact hk kv' hkv'

theorem MembersOk.insertMember {key : Text} {val : Json} {ms : List (Text × Json)}
    (h : MembersOk ms) (hkey : Utf8.valid key = true) (hval : WellFormed val) :
    MembersOk (insertMember key val ms) := by
  refine ⟨pairwise_insertMember h.1, fun kv hkv => ?_⟩
  rcases mem_insertMember hkv with rfl | hkv
  · exact ⟨hkey, hval⟩
  · exact h.2 kv hkv

/-- An object of well-formed members is well-formed, in whatever order they come. -/
theorem wellFormed_object {l : List (Text × Json)}
    (h : ∀ kv ∈ l, Utf8.valid kv.1 = true ∧ WellFormed kv.2) : WellFormed (object l) := by
  suffices hfold : ∀ acc, MembersOk acc →
      MembersOk (l.foldl (fun ms kv => Json.insertMember kv.1 kv.2 ms) acc) by
    obtain ⟨hsorted, hms⟩ := hfold [] ⟨List.Pairwise.nil, fun _ h => nomatch h⟩
    exact .obj hsorted (fun kv hkv => (hms kv hkv).1) fun kv hkv => (hms kv hkv).2
  induction l with
  | nil => exact fun acc hacc => hacc
  | cons kv l ih =>
      intro acc hacc
      obtain ⟨hkey, hval⟩ := h kv List.mem_cons_self
      exact ih (fun kv hkv => h kv (List.mem_cons_of_mem _ hkv)) _
        (hacc.insertMember hkey hval)

/-! ### Values -/

/-- What is read with fuel `n` is well-formed. -/
def ReadsWellFormed (n : ℕ) : Prop :=
  (∀ s j r, parseValue n s = some (j, r) → WellFormed j) ∧
  (∀ s js r, parseElems n s = some (js, r) → ∀ j ∈ js, WellFormed j) ∧
  (∀ s ms r, parseMembers n s = some (ms, r) →
    ∀ kv ∈ ms, Utf8.valid kv.1 = true ∧ WellFormed kv.2)

theorem wellFormed_of_parseValue_succ {n : ℕ} (ih : ReadsWellFormed n) {s r : Text} {j : Json}
    (h : parseValue (n + 1) s = some (j, r)) : WellFormed j := by
  rw [parseValue] at h
  split at h
  · obtain ⟨⟨t, r'⟩, hscan, heq⟩ := Option.map_eq_some_iff.mp h
    obtain ⟨rfl, -⟩ := Prod.mk.inj heq
    exact .str (valid_of_scanString hscan)
  · split at h
    · obtain ⟨rfl, -⟩ := Prod.mk.inj (Option.some.inj h)
      exact .arr (List.forall_mem_nil _)
    · obtain ⟨⟨js, r'⟩, hjs, heq⟩ := Option.map_eq_some_iff.mp h
      obtain ⟨rfl, -⟩ := Prod.mk.inj heq
      exact .arr (ih.2.1 _ _ _ hjs)
  · split at h
    · obtain ⟨rfl, -⟩ := Prod.mk.inj (Option.some.inj h)
      exact wellFormed_object (l := []) (List.forall_mem_nil _)
    · obtain ⟨⟨ms, r'⟩, hms, heq⟩ := Option.map_eq_some_iff.mp h
      obtain ⟨rfl, -⟩ := Prod.mk.inj heq
      exact wellFormed_object (ih.2.2 _ _ _ hms)
  · exact wellFormed_of_parseScalar h

theorem wellFormed_of_parseElems_succ {n : ℕ} (ih : ReadsWellFormed n) {s r : Text}
    {js : List Json} (h : parseElems (n + 1) s = some (js, r)) : ∀ j ∈ js, WellFormed j := by
  rw [parseElems] at h
  cases hj : parseValue n s with
  | none => simp [hj] at h
  | some jr =>
      obtain ⟨j, r'⟩ := jr
      have hhead := ih.1 _ _ _ hj
      simp only [hj] at h
      split at h
      · obtain ⟨⟨js', r''⟩, hjs, heq⟩ := Option.map_eq_some_iff.mp h
        obtain ⟨rfl, -⟩ := Prod.mk.inj heq
        exact List.forall_mem_cons.mpr ⟨hhead, ih.2.1 _ _ _ hjs⟩
      · obtain ⟨rfl, -⟩ := Prod.mk.inj (Option.some.inj h)
        exact List.forall_mem_singleton.mpr hhead
      · cases h

theorem wellFormed_of_parseMembers_succ {n : ℕ} (ih : ReadsWellFormed n) {s r : Text}
    {ms : List (Text × Json)} (h : parseMembers (n + 1) s = some (ms, r)) :
    ∀ kv ∈ ms, Utf8.valid kv.1 = true ∧ WellFormed kv.2 := by
  rw [parseMembers] at h
  split at h
  · split at h
    · cases h
    · rename_i k rk hkey
      have hk := valid_of_scanString hkey
      split at h
      · rename_i rv _
        cases hj : parseValue n rv with
        | none => simp [hj] at h
        | some jr =>
            obtain ⟨j, r'⟩ := jr
            have hhead := ih.1 _ _ _ hj
            simp only [hj] at h
            split at h
            · obtain ⟨⟨ms', r''⟩, hms, heq⟩ := Option.map_eq_some_iff.mp h
              obtain ⟨rfl, -⟩ := Prod.mk.inj heq
              exact List.forall_mem_cons.mpr ⟨⟨hk, hhead⟩, ih.2.2 _ _ _ hms⟩
            · obtain ⟨rfl, -⟩ := Prod.mk.inj (Option.some.inj h)
              exact List.forall_mem_singleton.mpr ⟨hk, hhead⟩
            · cases h
      · cases h
  · cases h

theorem readsWellFormed (n : ℕ) : ReadsWellFormed n := by
  induction n with
  | zero =>
      refine ⟨fun _ _ _ h => ?_, fun _ _ _ h => ?_, fun _ _ _ h => ?_⟩
      · simp [parseValue] at h
      · simp [parseElems] at h
      · simp [parseMembers] at h
  | succ n ih =>
      exact ⟨fun _ _ _ => wellFormed_of_parseValue_succ ih,
        fun _ _ _ => wellFormed_of_parseElems_succ ih,
        fun _ _ _ => wellFormed_of_parseMembers_succ ih⟩

/-- A value read from a whole text is well-formed. -/
theorem wellFormed_of_parse {s : Text} {j : Json} (h : parse s = some j) : WellFormed j := by
  unfold parse at h
  split at h
  · rename_i hparse
    split_ifs at h
    obtain rfl := Option.some.inj h
    exact (readsWellFormed _).1 _ _ _ hparse
  · exact nomatch h

/-- A value read from the start of a text is well-formed. -/
theorem wellFormed_of_parsePrefix {s : Text} {j : Json} (h : parsePrefix s = some j) :
    WellFormed j := by
  obtain ⟨⟨j', r⟩, hparse, rfl⟩ := Option.map_eq_some_iff.mp h
  exact (readsWellFormed _).1 _ _ _ hparse

/-! ### Members -/

/-- An object with the given keys, in order, is well-formed if its values are. -/
theorem WellFormed.obj_of_keys {ms : List (Text × Json)} {l : List Text}
    (hkeys : ms.map Prod.fst = l) (hsorted : l.Pairwise (· < ·))
    (hvalid : ∀ k ∈ l, Utf8.valid k = true) (h : ∀ v ∈ ms.map Prod.snd, WellFormed v) :
    WellFormed (.obj ms) := by
  subst hkeys
  exact .obj (List.pairwise_map.mp hsorted) (fun kv hkv => hvalid _ (List.mem_map_of_mem hkv))
    fun kv hkv => h _ (List.mem_map_of_mem hkv)

/-- A member of a well-formed value is well-formed. -/
theorem WellFormed.find {j v : Json} {k : Text} (hj : WellFormed j) (h : j.find k = some v) :
    WellFormed v := by
  cases hj with
  | @obj ms hsorted hkeys hms =>
      obtain ⟨l, r, hms', -⟩ := List.lookup_eq_some_iff.mp h
      exact hms (k, v) (by rw [hms']; simp)
  | _ => exact nomatch h

/-- A string of a well-formed value is UTF-8. -/
theorem WellFormed.valid_getString {j : Json} {s : Text} (hj : WellFormed j)
    (h : j.getString = some s) : Utf8.valid s = true := by
  cases hj with
  | str hs =>
      obtain rfl := Option.some.inj h
      exact hs
  | _ => exact nomatch h

theorem fitsInt32_getInt32 {j : Json} {n : ℤ} (h : j.getInt32 = some n) : CInt.FitsInt32 n := by
  cases j with
  | int m =>
      obtain rfl := Option.some.inj h
      exact CInt.fitsInt32_toInt32 m
  | float m e =>
      obtain rfl := Option.some.inj h
      exact CInt.fitsInt32_toInt32 _
  | bool b =>
      obtain rfl := Option.some.inj h
      cases b <;> decide
  | null => exact nomatch h
  | str s => exact nomatch h
  | arr js => exact nomatch h
  | obj ms => exact nomatch h

theorem fitsInt64_getInt64 {j : Json} {n : ℤ} (h : j.getInt64 = some n) : CInt.FitsInt64 n := by
  cases j with
  | int m =>
      obtain rfl := Option.some.inj h
      exact CInt.fitsInt64_toInt64 m
  | float m e =>
      obtain rfl := Option.some.inj h
      exact CInt.fitsInt64_toInt64 _
  | null => exact nomatch h
  | bool b => exact nomatch h
  | str s => exact nomatch h
  | arr js => exact nomatch h
  | obj ms => exact nomatch h

/-- A typed access gives the default, or what the member is read as. -/
theorem value_eq_some {α : Type*} {get : Json → Option α} {j : Json} {key : Text} {default a : α}
    (h : j.value get key default = some a) :
    a = default ∨ ∃ v, j.find key = some v ∧ get v = some a := by
  cases j with
  | obj ms =>
      simp only [value] at h
      cases hv : ms.lookup key with
      | none =>
          rw [hv] at h
          exact Or.inl (Option.some.inj h).symm
      | some v =>
          rw [hv] at h
          exact Or.inr ⟨v, hv, h⟩
  | _ => cases h

/-- A string that is read from a well-formed value is UTF-8, if its default is. -/
theorem WellFormed.valid_value {j : Json} {key default s : Text} (hj : WellFormed j)
    (hdefault : Utf8.valid default = true) (h : j.value getString key default = some s) :
    Utf8.valid s = true := by
  rcases value_eq_some h with rfl | ⟨v, hv, hs⟩
  · exact hdefault
  · exact (hj.find hv).valid_getString hs

/-- An `int` that is read fits, if its default does. -/
theorem fitsInt32_value {j : Json} {key : Text} {default n : ℤ}
    (hdefault : CInt.FitsInt32 default) (h : j.value getInt32 key default = some n) :
    CInt.FitsInt32 n := by
  rcases value_eq_some h with rfl | ⟨v, -, hn⟩
  · exact hdefault
  · exact fitsInt32_getInt32 hn

/-- An `int64_t` that is read fits, if its default does. -/
theorem fitsInt64_value {j : Json} {key : Text} {default n : ℤ}
    (hdefault : CInt.FitsInt64 default) (h : j.value getInt64 key default = some n) :
    CInt.FitsInt64 n := by
  rcases value_eq_some h with rfl | ⟨v, -, hn⟩
  · exact hdefault
  · exact fitsInt64_getInt64 hn

end Json
