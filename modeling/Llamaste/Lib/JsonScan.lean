import Llamaste.Lib.JsonLex

/-!
# What is parsed as JSON is scanned

The scanner reads any text that the parser accepts, and what it reports says where the string
members of an object come from.

## Main results

* `Json.scanned_of_parse`: what is parsed is scanned, and string members are reported.
* `Json.scanned_dumpAt`: a written value is scanned whole.
-/

namespace Json

variable {s : Text} {ts us : List Token}

/-- All literals stand at least this deep. -/
def Below (d : ℕ) (ts : List Token) : Prop := ∀ e t, Token.lit e t ∈ ts → d ≤ e

theorem Below.nil (d : ℕ) : Below d [] := fun _ _ h => nomatch h

theorem Below.append {d : ℕ} (h : Below d ts) (h' : Below d us) : Below d (ts ++ us) :=
  fun e t hmem => (List.mem_append.mp hmem).elim (h e t) (h' e t)

theorem Below.mono {d e : ℕ} (h : Below e ts) (hle : d ≤ e) : Below d ts :=
  fun f t hmem => le_trans hle (h f t hmem)

/-- A member with a string is reported: its key, a colon and its value, at a depth. -/
def ReportsMember (d : ℕ) (k v : Text) (ts : List Token) : Prop :=
  ∃ kt vt, [.lit d kt, .colon, .lit d vt] <:+: ts ∧ Decodes kt k ∧ Decodes vt v

/-- What is reported of a value that stands at a depth. -/
def Reports (d : ℕ) : Json → List Token → Prop
  | .str v, ts => ∃ t, ts = [.lit d t] ∧ Decodes t v
  | .obj ms, ts => Below (d + 1) ts ∧ ∀ k v, (k, .str v) ∈ ms → ReportsMember (d + 1) k v ts
  | _, ts => Below (d + 1) ts

theorem ReportsMember.append {d : ℕ} {k v : Text} (h : ReportsMember d k v ts)
    (us vs : List Token) : ReportsMember d k v (us ++ ts ++ vs) := by
  obtain ⟨kt, vt, hin, hk, hv⟩ := h
  exact ⟨kt, vt, hin.trans (List.infix_append us ts vs), hk, hv⟩

theorem Reports.below {d : ℕ} {j : Json} (h : Reports d j ts) : Below d ts := by
  have hlt : d ≤ d + 1 := Nat.le_succ d
  cases j with
  | str v =>
    obtain ⟨t, rfl, -⟩ := h
    intro e t' hmem
    obtain ⟨rfl, -⟩ := Token.lit.inj (List.mem_singleton.mp hmem)
    exact le_rfl
  | obj ms => exact h.1.mono hlt
  | null => exact Below.mono h hlt
  | bool b => exact Below.mono h hlt
  | int n => exact Below.mono h hlt
  | float m e => exact Below.mono h hlt
  | arr js => exact Below.mono h hlt

theorem stepOut_filler {c : Char} (hc : isFiller c = true) (d : ℕ) :
    stepOut d c = some ([], d, .out) := by
  have hne : ∀ a : Char, isFiller a = false → c ≠ a := by
    rintro a ha rfl
    exact Bool.false_ne_true (ha.symm.trans hc)
  rw [stepOut, if_neg (hne '"' (by decide)),
    if_neg (not_or.mpr ⟨hne _ (by decide), hne _ (by decide)⟩),
    if_neg (not_or.mpr ⟨hne _ (by decide), hne _ (by decide)⟩), if_neg (hne ':' (by decide)),
    if_neg (hne ',' (by decide)), if_pos hc]

theorem lexes_filler (hs : ∀ c ∈ s, isFiller c = true) (d : ℕ) :
    Lexes (d, .out) s [] (d, .out) := by
  induction s with
  | nil => exact Lexes.nil _
  | cons c s ih =>
    obtain ⟨hc, hs⟩ := List.forall_mem_cons.mp hs
    exact lexes_cons.mpr ⟨[], [], _, stepOut_filler hc d, ih hs, rfl⟩

theorem isFiller_of_isWs {c : Char} (hc : isWs c = true) : isFiller c = true := by
  rw [isFiller, hc]
  rfl

theorem isFiller_of_isDigit {c : Char} (hc : c.isDigit = true) : isFiller c = true := by
  rw [isFiller, hc, Bool.or_true]
  rfl

/-- White space is skipped. -/
theorem eq_append_skipWs (s : Text) :
    ∃ ws, s = ws ++ skipWs s ∧ ∀ d, Lexes (d, .out) ws [] (d, .out) :=
  ⟨s.takeWhile isWs, (List.takeWhile_append_dropWhile).symm, fun d =>
    lexes_filler (fun _ hc => isFiller_of_isWs (List.mem_takeWhile_imp hc)) d⟩

/-! #### Numbers and names -/

/-- The text is behind characters of numbers and names. -/
def FilledBefore (s r : Text) : Prop := ∃ c, s = c ++ r ∧ ∀ a ∈ c, isFiller a = true

theorem FilledBefore.refl (s : Text) : FilledBefore s s := ⟨[], rfl, fun _ h => nomatch h⟩

theorem FilledBefore.trans {s r u : Text} (h : FilledBefore s r) (h' : FilledBefore r u) :
    FilledBefore s u := by
  obtain ⟨c, rfl, hc⟩ := h
  obtain ⟨c', rfl, hc'⟩ := h'
  exact ⟨c ++ c', (List.append_assoc _ _ _).symm, List.forall_mem_append.mpr ⟨hc, hc'⟩⟩

theorem FilledBefore.cons {c : Char} {s r : Text} (hc : isFiller c = true)
    (h : FilledBefore s r) : FilledBefore (c :: s) r :=
  FilledBefore.trans ⟨[c], rfl, List.forall_mem_singleton.mpr hc⟩ h

theorem filledBefore_digits (s : Text) : FilledBefore s (s.dropWhile Char.isDigit) :=
  ⟨s.takeWhile Char.isDigit, (List.takeWhile_append_dropWhile).symm,
    fun _ hc => isFiller_of_isDigit (List.mem_takeWhile_imp hc)⟩

theorem filledBefore_scanInt {s r ip : Text} (h : scanInt s = some (ip, r)) :
    FilledBefore s r := by
  rw [scanInt.eq_def] at h
  split at h
  · obtain ⟨-, rfl⟩ := Prod.mk.inj (Option.some.inj h)
    exact .cons (by decide) (.refl _)
  · split_ifs at h
    obtain ⟨-, rfl⟩ := Prod.mk.inj (Option.some.inj h)
    exact filledBefore_digits s

theorem filledBefore_scanFrac {s r fp : Text} (h : scanFrac s = some (fp, r)) :
    FilledBefore s r := by
  rw [scanFrac.eq_def] at h
  split at h
  · split_ifs at h
    obtain ⟨-, rfl⟩ := Prod.mk.inj (Option.some.inj h)
    exact .cons (by decide) (filledBefore_digits _)
  · obtain ⟨-, rfl⟩ := Prod.mk.inj (Option.some.inj h)
    exact .refl s

theorem filledBefore_scanSign (s : Text) : FilledBefore s (scanSign s).2 := by
  rw [scanSign.eq_def]
  split
  · exact .cons (by decide) (.refl _)
  · exact .cons (by decide) (.refl _)
  · exact .refl s

theorem filledBefore_scanExp {s r : Text} {ex : Option ℤ} (h : scanExp s = some (ex, r)) :
    FilledBefore s r := by
  cases s with
  | nil =>
    obtain ⟨-, rfl⟩ := Prod.mk.inj (Option.some.inj h)
    exact .refl _
  | cons c s =>
    rw [scanExp] at h
    split_ifs at h with hc
    · simp only at h
      split_ifs at h
      obtain ⟨-, rfl⟩ := Prod.mk.inj (Option.some.inj h)
      have hfiller : isFiller c = true := by rcases hc with rfl | rfl <;> decide
      exact .cons hfiller ((filledBefore_scanSign s).trans (filledBefore_digits _))
    · obtain ⟨-, rfl⟩ := Prod.mk.inj (Option.some.inj h)
      exact .refl _

/-- A number is no string and holds none. -/
theorem reports_mkNumber {neg : Bool} {ip fp : Text} {ex : Option ℤ} {j : Json}
    (h : mkNumber neg ip fp ex = some j) (d : ℕ) : Reports d j [] := by
  have hfloat : ∀ m e, mkFloat m e = some j → Reports d j [] := by
    intro m e h
    rw [mkFloat] at h
    split_ifs at h
    obtain rfl := Option.some.inj h
    exact Below.nil _
  rw [mkNumber.eq_def] at h
  split at h
  · split_ifs at h
    · obtain rfl := Option.some.inj h
      exact Below.nil _
    · exact hfloat _ _ h
  · exact hfloat _ _ h

theorem filledBefore_parseNumber {s r : Text} {j : Json} (h : parseNumber s = some (j, r)) :
    FilledBefore s r ∧ ∀ d, Reports d j [] := by
  simp only [parseNumber, Option.bind_eq_bind, Option.bind_eq_some_iff, Option.map_eq_some_iff,
    Prod.exists, Prod.mk.injEq] at h
  obtain ⟨ip, r1, hint, fp, r2, hfrac, ex, r3, hexp, j', hnumber, rfl, rfl⟩ := h
  refine ⟨?_, reports_mkNumber hnumber⟩
  have hrest := (filledBefore_scanFrac hfrac).trans (filledBefore_scanExp hexp)
  have hint := (filledBefore_scanInt hint).trans hrest
  split_ifs at hint with hneg
  · cases s with
    | nil => exact hint
    | cons c s =>
      have hminus : c = '-' := by simpa using hneg
      exact .cons (hminus ▸ rfl) hint
  · exact hint

theorem filledBefore_name {name s : Text} (hname : ∀ c ∈ name, isFiller c = true)
    (h : name.isPrefixOf s = true) : FilledBefore s (s.drop name.length) := by
  obtain ⟨t, rfl⟩ := List.isPrefixOf_iff_prefix.mp h
  exact ⟨name, by rw [List.drop_left], hname⟩

theorem filledBefore_parseScalar {s r : Text} {j : Json} (h : parseScalar s = some (j, r)) :
    FilledBefore s r ∧ ∀ d, Reports d j [] := by
  rw [parseScalar] at h
  split_ifs at h with hnull htrue hfalse
  · obtain ⟨rfl, rfl⟩ := Prod.mk.inj (Option.some.inj h)
    exact ⟨filledBefore_name (by decide) hnull, fun d => Below.nil _⟩
  · obtain ⟨rfl, rfl⟩ := Prod.mk.inj (Option.some.inj h)
    exact ⟨filledBefore_name (by decide) htrue, fun d => Below.nil _⟩
  · obtain ⟨rfl, rfl⟩ := Prod.mk.inj (Option.some.inj h)
    exact ⟨filledBefore_name (by decide) hfalse, fun d => Below.nil _⟩
  · exact filledBefore_parseNumber h

/-! #### Values -/

/-- A consumed text, read at every depth, with a report of what it was parsed as. -/
def ScannedAs (c : Text) (P : ℕ → List Token → Prop) : Prop :=
  ∀ d, ∃ ts, Lexes (d, .out) c ts (d, .out) ∧ P d ts

/-- A member list reports its strings, and nothing above its depth. -/
def ReportsMembers (ms : List (Text × Json)) (d : ℕ) (ts : List Token) : Prop :=
  Below d ts ∧ ∀ k v, (k, Json.str v) ∈ ms → ReportsMember d k v ts

/-- With this fuel, what is parsed is scanned. -/
def Scans (n : ℕ) : Prop :=
  (∀ s j r, parseValue n s = some (j, r) →
    ∃ c, s = c ++ r ∧ ScannedAs c fun d => Reports d j) ∧
  (∀ s js r, parseElems n s = some (js, r) →
    ∃ c, s = c ++ ']' :: r ∧ ScannedAs c Below) ∧
  (∀ s ms r, parseMembers n s = some (ms, r) →
    ∃ c, s = c ++ '\x7d' :: r ∧ ScannedAs c (ReportsMembers ms))

theorem lexes_open {c : Char} (hc : c = '\x7b' ∨ c = '[') (d : ℕ) :
    Lexes (d, .out) [c] [] (d + 1, .out) := by
  rcases hc with rfl | rfl <;> rfl

theorem lexes_close {c : Char} (hc : c = '\x7d' ∨ c = ']') (d : ℕ) :
    Lexes (d + 1, .out) [c] [] (d, .out) := by
  rcases hc with rfl | rfl <;> rfl

/-- What stands between brackets stands deeper. -/
theorem lexes_brackets {a b : Char} (ha : a = '\x7b' ∨ a = '[') (hb : b = '\x7d' ∨ b = ']') {d : ℕ}
    {c : Text} (h : Lexes (d + 1, .out) c ts (d + 1, .out)) :
    Lexes (d, .out) (a :: c ++ [b]) ts (d, .out) := by
  have hall := ((lexes_open ha d).append h).append (lexes_close hb d)
  rwa [List.nil_append, List.append_nil, List.singleton_append] at hall

/-- A bracketed text behind white space. -/
theorem ScannedAs.brackets {a b : Char} (ha : a = '\x7b' ∨ a = '[') (hb : b = '\x7d' ∨ b = ']')
    {P Q : ℕ → List Token → Prop} (hPQ : ∀ d ts, P (d + 1) ts → Q d ts) {s c r : Text}
    (hs : skipWs s = c ++ b :: r) (h : ScannedAs c P) :
    ∃ c', a :: s = c' ++ r ∧ ScannedAs c' Q := by
  obtain ⟨ws, hws, hlex⟩ := eq_append_skipWs s
  refine ⟨a :: (ws ++ c) ++ [b], ?_, fun d => ?_⟩
  · rw [hws, hs]
    simp
  · obtain ⟨ts, hc, hP⟩ := h (d + 1)
    exact ⟨ts, lexes_brackets ha hb ((hlex (d + 1)).append hc), hPQ d ts hP⟩

theorem ScannedAs.nil {P : ℕ → List Token → Prop} (h : ∀ d, P d []) : ScannedAs [] P :=
  fun d => ⟨[], Lexes.nil _, h d⟩

/-- The members of an object are some of those that were read. -/
theorem mem_object {ms members : List (Text × Json)} {kv : Text × Json}
    (h : object ms = .obj members) (hkv : kv ∈ members) : kv ∈ ms := by
  have hfold : ∀ acc, kv ∈ ms.foldl (fun ms kv => insertMember kv.1 kv.2 ms) acc →
      kv ∈ acc ∨ kv ∈ ms := by
    clear h
    induction ms with
    | nil => exact fun acc h => Or.inl h
    | cons kv' ms ih =>
      intro acc h
      rcases ih (insertMember kv'.1 kv'.2 acc) h with h | h
      · rcases mem_insertMember h with rfl | h
        · exact Or.inr List.mem_cons_self
        · exact Or.inl h
      · exact Or.inr (List.mem_cons_of_mem _ h)
  obtain rfl := Json.obj.inj h
  exact (hfold [] hkv).resolve_left List.not_mem_nil

/-- An object reports what its member list reports, a level deeper. -/
theorem ReportsMembers.object {ms : List (Text × Json)} {d : ℕ}
    (h : ReportsMembers ms (d + 1) ts) : Reports d (object ms) ts := by
  obtain ⟨members, hobject⟩ : ∃ members, Json.object ms = .obj members := ⟨_, rfl⟩
  rw [hobject]
  exact ⟨h.1, fun k v hkv => h.2 k v (mem_object hobject hkv)⟩

theorem scans_parseValue_succ {n : ℕ} (ih : Scans n) {s r : Text} {j : Json}
    (h : parseValue (n + 1) s = some (j, r)) :
    ∃ c, s = c ++ r ∧ ScannedAs c fun d => Reports d j := by
  obtain ⟨ws, hs, hws⟩ := eq_append_skipWs s
  -- it is enough to scan the text behind the white space
  suffices hafter : ∃ c, skipWs s = c ++ r ∧ ScannedAs c fun d => Reports d j by
    obtain ⟨c, hc, hscan⟩ := hafter
    refine ⟨ws ++ c, by rw [List.append_assoc, ← hc, ← hs], fun d => ?_⟩
    obtain ⟨ts, hlex, hreports⟩ := hscan d
    exact ⟨ts, (hws d).append hlex, hreports⟩
  rw [parseValue] at h
  split at h
  · rename_i r' hquote
    obtain ⟨⟨v, r''⟩, hscan, heq⟩ := Option.map_eq_some_iff.mp h
    obtain ⟨rfl, rfl⟩ := Prod.mk.inj heq
    obtain ⟨t, rfl, hdec, hlex⟩ := decodes_of_scanString hscan
    exact ⟨'"' :: t ++ ['"'], by rw [hquote]; simp, fun d => ⟨_, hlex d, t, rfl, hdec⟩⟩
  · rename_i r' hbracket
    rw [hbracket]
    split at h
    · rename_i r'' hempty
      obtain ⟨rfl, rfl⟩ := Prod.mk.inj (Option.some.inj h)
      exact ScannedAs.brackets (P := Below) (Or.inr rfl) (Or.inr rfl) (fun d ts h => h)
        (c := []) hempty (.nil Below.nil)
    · obtain ⟨⟨js, r''⟩, helems, heq⟩ := Option.map_eq_some_iff.mp h
      obtain ⟨rfl, rfl⟩ := Prod.mk.inj heq
      obtain ⟨c, hc, hscan⟩ := ih.2.1 _ _ _ helems
      exact ScannedAs.brackets (Or.inr rfl) (Or.inr rfl) (fun d ts h => h) hc hscan
  · rename_i r' hbrace
    rw [hbrace]
    split at h
    · rename_i r'' hempty
      obtain ⟨rfl, rfl⟩ := Prod.mk.inj (Option.some.inj h)
      exact ScannedAs.brackets (P := Below) (Or.inl rfl) (Or.inl rfl)
        (fun d ts h => ⟨h, fun _ _ h => nomatch h⟩) (c := []) hempty (.nil Below.nil)
    · obtain ⟨⟨ms, r''⟩, hmembers, heq⟩ := Option.map_eq_some_iff.mp h
      obtain ⟨rfl, rfl⟩ := Prod.mk.inj heq
      obtain ⟨c, hc, hscan⟩ := ih.2.2 _ _ _ hmembers
      exact ScannedAs.brackets (Or.inl rfl) (Or.inl rfl)
        (fun d ts h => ReportsMembers.object h) hc hscan
  · obtain ⟨⟨c, hc, hfiller⟩, hreports⟩ := filledBefore_parseScalar h
    exact ⟨c, hc, fun d => ⟨[], lexes_filler hfiller d, hreports d⟩⟩

theorem lexes_comma (d : ℕ) : Lexes (d, .out) [','] [.comma] (d, .out) := rfl

theorem lexes_colon (d : ℕ) : Lexes (d, .out) [':'] [.colon] (d, .out) := rfl

theorem Below.cons_colon {d : ℕ} (h : Below d ts) : Below d (.colon :: ts) := by
  intro e t hmem
  rcases List.mem_cons.mp hmem with heq | hmem
  · cases heq
  · exact h e t hmem

theorem Below.cons_comma {d : ℕ} (h : Below d ts) : Below d (.comma :: ts) := by
  intro e t hmem
  rcases List.mem_cons.mp hmem with heq | hmem
  · cases heq
  · exact h e t hmem

theorem scans_parseElems_succ {n : ℕ} (ih : Scans n) {s r : Text} {js : List Json}
    (h : parseElems (n + 1) s = some (js, r)) : ∃ c, s = c ++ ']' :: r ∧ ScannedAs c Below := by
  rw [parseElems] at h
  cases hj : parseValue n s with
  | none => simp [hj] at h
  | some jr =>
    obtain ⟨j, r'⟩ := jr
    obtain ⟨c, rfl, hscan⟩ := ih.1 _ _ _ hj
    obtain ⟨ws, hr', hws⟩ := eq_append_skipWs r'
    simp only [hj] at h
    split at h
    · rename_i r'' hcomma
      obtain ⟨⟨js', r3⟩, hjs, heq⟩ := Option.map_eq_some_iff.mp h
      obtain ⟨rfl, rfl⟩ := Prod.mk.inj heq
      obtain ⟨c', rfl, hscan'⟩ := ih.2.1 _ _ _ hjs
      refine ⟨c ++ (ws ++ ([','] ++ c')), by rw [hr', hcomma]; simp, fun d => ?_⟩
      obtain ⟨ts, hlex, hreports⟩ := hscan d
      obtain ⟨us, hlex', hbelow⟩ := hscan' d
      exact ⟨_, hlex.append ((hws d).append ((lexes_comma d).append hlex')),
        hreports.below.append hbelow.cons_comma⟩
    · rename_i r'' hend
      obtain ⟨rfl, rfl⟩ := Prod.mk.inj (Option.some.inj h)
      refine ⟨c ++ ws, by rw [hr', hend]; simp, fun d => ?_⟩
      obtain ⟨ts, hlex, hreports⟩ := hscan d
      exact ⟨_, hlex.append (hws d), hreports.below.append (Below.nil d)⟩
    · cases h

/-- A key, a colon and a value report the member, if the value is a string. -/
theorem reportsMembers_single {d : ℕ} {k kt : Text} {j : Json} (hk : Decodes kt k)
    (h : Reports d j ts) : ReportsMembers [(k, j)] d (.lit d kt :: .colon :: ts) := by
  constructor
  · intro e t hmem
    rcases List.mem_cons.mp hmem with heq | hmem
    · obtain ⟨rfl, -⟩ := Token.lit.inj heq
      exact le_rfl
    · exact h.below.cons_colon e t hmem
  · intro k' v hkv
    obtain ⟨rfl, rfl⟩ := Prod.mk.inj (List.mem_singleton.mp hkv)
    obtain ⟨t, rfl, ht⟩ := h
    exact ⟨kt, t, List.infix_refl _, hk, ht⟩

theorem ReportsMembers.cons {d : ℕ} {kv : Text × Json} {ms : List (Text × Json)}
    (h : ReportsMembers [kv] d ts) (h' : ReportsMembers ms d us) :
    ReportsMembers (kv :: ms) d (ts ++ .comma :: us) := by
  refine ⟨h.1.append h'.1.cons_comma, fun k v hkv => ?_⟩
  rcases List.mem_cons.mp hkv with heq | hkv
  · exact (h.2 k v (List.mem_singleton.mpr heq)).append [] (.comma :: us)
  · have := (h'.2 k v hkv).append (ts ++ [.comma]) []
    simpa using this

theorem scans_parseMembers_succ {n : ℕ} (ih : Scans n) {s r : Text} {ms : List (Text × Json)}
    (h : parseMembers (n + 1) s = some (ms, r)) :
    ∃ c, s = c ++ '\x7d' :: r ∧ ScannedAs c (ReportsMembers ms) := by
  obtain ⟨ws, hs, hws⟩ := eq_append_skipWs s
  rw [parseMembers] at h
  split at h
  · rename_i r1 hquote
    split at h
    · cases h
    · rename_i k r2 hkey
      obtain ⟨kt, rfl, hk, hlexkey⟩ := decodes_of_scanString hkey
      obtain ⟨ws2, hr2, hws2⟩ := eq_append_skipWs r2
      split at h
      · rename_i r3 hcolon
        cases hj : parseValue n r3 with
        | none => simp [hj] at h
        | some jr =>
          obtain ⟨j, r4⟩ := jr
          obtain ⟨c, rfl, hscan⟩ := ih.1 _ _ _ hj
          obtain ⟨ws4, hr4, hws4⟩ := eq_append_skipWs r4
          -- the member, with the white space around its tokens
          obtain ⟨c0, hc0, hmember⟩ : ∃ c0, s = c0 ++ skipWs r4 ∧
              ScannedAs c0 (ReportsMembers [(k, j)]) := by
            refine ⟨ws ++ (('"' :: kt ++ ['"']) ++ (ws2 ++ ([':'] ++ (c ++ ws4)))), ?_,
              fun d => ?_⟩
            · rw [hs, hquote, hr2, hcolon, hr4]
              simp [← hr4]
            · obtain ⟨ts, hlex, hreports⟩ := hscan d
              refine ⟨_, (hws d).append ((hlexkey d).append ((hws2 d).append
                ((lexes_colon d).append (hlex.append (hws4 d))))), ?_⟩
              simpa using reportsMembers_single hk hreports
          rw [hc0]
          simp only [hj] at h
          split at h
          · rename_i r5 hcomma
            obtain ⟨⟨ms', r6⟩, hms, heq⟩ := Option.map_eq_some_iff.mp h
            obtain ⟨rfl, rfl⟩ := Prod.mk.inj heq
            obtain ⟨c', rfl, hscan'⟩ := ih.2.2 _ _ _ hms
            refine ⟨c0 ++ ([','] ++ c'), by rw [hcomma]; simp, fun d => ?_⟩
            obtain ⟨ts, hlex, hreports⟩ := hmember d
            obtain ⟨us, hlex', hreports'⟩ := hscan' d
            exact ⟨_, hlex.append ((lexes_comma d).append hlex'), hreports.cons hreports'⟩
          · rename_i r5 hend
            obtain ⟨rfl, rfl⟩ := Prod.mk.inj (Option.some.inj h)
            exact ⟨c0, by rw [hend], hmember⟩
          · cases h
      · cases h
  · cases h

theorem scans (n : ℕ) : Scans n := by
  induction n with
  | zero =>
    refine ⟨fun _ _ _ h => ?_, fun _ _ _ h => ?_, fun _ _ _ h => ?_⟩
    · simp [parseValue] at h
    · simp [parseElems] at h
    · simp [parseMembers] at h
  | succ n ih =>
    exact ⟨fun _ _ _ => scans_parseValue_succ ih, fun _ _ _ => scans_parseElems_succ ih,
      fun _ _ _ => scans_parseMembers_succ ih⟩

/-- **What is parsed is scanned**: behind a byte order mark, up to the end of the text or a
zero byte. -/
theorem scanned_of_parse {s : Text} {j : Json} (h : parse s = some j) :
    ∃ bom c r, s = bom ++ (c ++ r) ∧ (bom = [] ∨ bom.head? = some (Char.ofNat 0xEF)) ∧
      '"' ∉ bom ∧ '\\' ∉ bom ∧ (r = [] ∨ r.head? = some (Char.ofNat 0)) ∧
      ScannedAs c fun d => Reports d j := by
  obtain ⟨bom, hbom, hs⟩ : ∃ bom : Text, (bom = [] ∨
      bom = [Char.ofNat 0xEF, Char.ofNat 0xBB, Char.ofNat 0xBF]) ∧ s = bom ++ skipBom s := by
    rw [skipBom]
    split_ifs with hprefix
    · obtain ⟨t, rfl⟩ := List.isPrefixOf_iff_prefix.mp hprefix
      exact ⟨_, Or.inr rfl, rfl⟩
    · exact ⟨[], Or.inl rfl, rfl⟩
  rw [parse] at h
  split at h
  · rename_i j' r hvalue
    split_ifs at h with hend
    obtain rfl := Option.some.inj h
    obtain ⟨c, hc, hscan⟩ := (scans _).1 _ _ _ hvalue
    obtain ⟨ws, hr, hws⟩ := eq_append_skipWs r
    refine ⟨bom, c ++ ws, skipWs r, ?_, ?_, ?_, ?_, hend, fun d => ?_⟩
    · rw [List.append_assoc, ← hr, ← hc, ← hs]
    · exact hbom.imp_right fun h => by rw [h]; rfl
    · rcases hbom with rfl | rfl <;> decide
    · rcases hbom with rfl | rfl <;> decide
    · obtain ⟨ts, hlex, hreports⟩ := hscan d
      exact ⟨_, hlex.append (hws d), by rwa [List.append_nil]⟩
  · cases h

/-- A written value is scanned whole. -/
theorem scanned_dumpAt {j : Json} (hj : WellFormed j) (L : Layout) (n : ℕ) :
    ScannedAs (dumpAt L n j) fun d => Reports d j := by
  have hnil : Delimited [] := by rintro c ⟨⟩
  have hparse := parseValue_dumpAt (L := L) (d := n) hj le_rfl hnil
  obtain ⟨c, hc, hscan⟩ := (scans _).1 _ _ _ hparse
  rw [List.append_nil, List.append_nil] at hc
  rwa [hc]

/-! ### Members one by one -/

section

variable {n : ℕ} {u w kt k s r r' : Text} {j : Json}

/-- A member before a comma. -/
theorem parseMembers_next (hws : u.all isWs = true) (hws' : w.all isWs = true)
    (hk : Decodes kt k) (hvalue : parseValue n s = some (j, r)) (hr : skipWs r = ',' :: r') :
    parseMembers (n + 1) (u ++ '"' :: (kt ++ '"' :: (w ++ ':' :: s))) =
      (parseMembers n r').map fun (ms, r) => ((k, j) :: ms, r) := by
  rw [parseMembers, skipWs_append hws, skipWs_cons rfl]
  simp only [hk (w ++ ':' :: s), skipWs_append hws', skipWs_cons (show isWs ':' = false from rfl),
    hvalue, hr]

/-- The last member. -/
theorem parseMembers_last (hws : u.all isWs = true) (hws' : w.all isWs = true)
    (hk : Decodes kt k) (hvalue : parseValue n s = some (j, r)) (hr : skipWs r = '\x7d' :: r') :
    parseMembers (n + 1) (u ++ '"' :: (kt ++ '"' :: (w ++ ':' :: s))) =
      some ([(k, j)], r') := by
  rw [parseMembers, skipWs_append hws, skipWs_cons rfl]
  simp only [hk (w ++ ':' :: s), skipWs_append hws', skipWs_cons (show isWs ':' = false from rfl),
    hvalue, hr]

/-- A member whose value is none. -/
theorem parseMembers_none (hws : u.all isWs = true) (hws' : w.all isWs = true)
    (hk : Decodes kt k) (hvalue : parseValue n s = none) :
    parseMembers (n + 1) (u ++ '"' :: (kt ++ '"' :: (w ++ ':' :: s))) = none := by
  rw [parseMembers, skipWs_append hws, skipWs_cons rfl]
  simp only [hk (w ++ ':' :: s), skipWs_append hws', skipWs_cons (show isWs ':' = false from rfl),
    hvalue]

end

/-- A string value is read by its literal. -/
theorem parseValue_literal {n : ℕ} {u t v : Text} (hws : u.all isWs = true) (ht : Decodes t v)
    (r : Text) : parseValue (n + 1) (u ++ '"' :: (t ++ '"' :: r)) = some (.str v, r) := by
  rw [parseValue_quote hws, ht]
  rfl

/-- A plain text in UTF-8 is its own literal. -/
theorem decodes_of_plain {t : Text} (ht : ∀ c ∈ t, Plain c) (hvalid : Utf8.valid t = true) :
    Decodes t t := by
  intro r
  have hflat : t.flatMap escapeChar = t := by
    clear hvalid
    induction t with
    | nil => rfl
    | cons c t ih =>
      obtain ⟨hc, ht⟩ := List.forall_mem_cons.mp ht
      rw [List.flatMap_cons, escapeChar_of_plain hc, ih ht, List.singleton_append]
  have hscan := scanString_flatMap_escapeChar r owes_start hvalid
  rwa [hflat] at hscan

end Json
