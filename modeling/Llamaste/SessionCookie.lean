import Llamaste.Lib.TextSearch

/-!
# The session cookie

The token of a session is searched for in the header that holds all cookies of a request. The
text that is searched for may also stand in the name or the value of another cookie. Source:
`auth.cpp`.

## Main results

* `extractSessionCookie_header`: the first pair that holds the text decides.
* `sessionCookie_iff`: when this is the value of the session cookie.
-/

namespace Llamaste

/-! ### The headers -/

/-- What is read of a request: two headers, where it has them. -/
structure Request where
  cookie : Option Text := none
  authorization : Option Text := none

/-- The name of the session cookie. -/
def sidName : Text := "llamaste_sid"

/-- The text that is searched for. -/
def sidPrefix : Text := sidName ++ ['=']

/-- The value of the session cookie in a header. -/
def findSid (cookies : Text) : Text :=
  match Text.afterFirst sidPrefix cookies with
  | none => []
  | some rest => rest.takeWhile (· ≠ ';')

/-- `extract_session_cookie`. -/
def extractSessionCookie (req : Request) : Text := req.cookie.elim [] findSid

/-- `extract_bearer_token`. -/
def extractBearerToken (req : Request) : Text :=
  match req.authorization with
  | none => []
  | some auth =>
    if auth.length > 7 ∧ auth.take 7 = "Bearer ".toList then auth.drop 7 else []

/-! ### Lists of cookies -/

/-- A cookie: a name and a value that can stand in a list. -/
structure Cookie where
  name : Text
  value : Text
  name_plain : '=' ∉ name ∧ ';' ∉ name ∧ ' ' ∉ name
  value_plain : ';' ∉ value

/-- A cookie as it stands in the list. -/
def Cookie.text (p : Cookie) : Text := p.name ++ '=' :: p.value

/-- A header that lists cookies. -/
def cookieHeader (pairs : List Cookie) : Text :=
  "; ".toList.intercalate (pairs.map Cookie.text)

/-- The value of the first cookie with the name of the session cookie. -/
def sessionValue (pairs : List Cookie) : Text :=
  ((pairs.find? (·.name = sidName)).map Cookie.value).getD []

/-- The cookie holds the text that is searched for. -/
def Cookie.Holds (p : Cookie) : Prop := sidPrefix <:+: p.text

instance (p : Cookie) : Decidable p.Holds := inferInstanceAs (Decidable (_ <:+: _))

theorem Cookie.not_mem_text (p : Cookie) : ';' ∉ p.text := by
  rw [text, List.mem_append, List.mem_cons]
  rintro (h | h | h)
  · exact p.name_plain.2.1 h
  · cases h
  · exact p.value_plain h

/-- The session cookie holds the text at its start. -/
theorem Cookie.text_of_name {p : Cookie} (h : p.name = sidName) :
    p.text = sidPrefix ++ p.value := by
  rw [text, h, sidPrefix]
  simp

theorem not_mem_sidName : '=' ∉ sidName := by decide

theorem not_mem_sidPrefix : ';' ∉ sidPrefix ∧ ' ' ∉ sidPrefix := by decide

/-- What stands behind the text, where it stands first. -/
theorem afterFirst_sidPrefix_iff {s v : Text} : Text.afterFirst sidPrefix s = some v ↔
    ∃ u, s = u ++ (sidPrefix ++ v) ∧ ¬ sidPrefix <:+: u := by
  constructor
  · intro h
    obtain ⟨u, rfl⟩ := Text.eq_append_of_afterFirst h
    exact ⟨u, by rw [List.append_assoc], Text.not_infix_of_afterFirst (by decide) h⟩
  · rintro ⟨u, rfl, hu⟩
    exact Text.afterFirst_append_of_last not_mem_sidName hu v

/-! ### The search -/

/-- A cookie that holds the text ends the search. -/
theorem findSid_of_holds {p : Cookie} {u v : Text} (hu : ¬ sidPrefix <:+: u)
    (htext : p.text = u ++ (sidPrefix ++ v)) {r : Text} (hr : ∀ c ∈ r.head?, c = ';') :
    findSid (p.text ++ r) = v := by
  have hv : ';' ∉ v := fun h => p.not_mem_text (by rw [htext]; simp [h])
  have hfirst := Text.afterFirst_append_of_some (by decide)
    (afterFirst_sidPrefix_iff.mpr ⟨u, htext, hu⟩) r
  rw [findSid, hfirst]
  exact Text.takeWhile_ne hv hr

/-- Any other is passed over. -/
theorem findSid_of_not_holds {p : Cookie} (h : ¬ p.Holds) (r : Text) :
    findSid (p.text ++ ';' :: ' ' :: r) = findSid r := by
  have hspace := Text.afterFirst_append_cons not_mem_sidPrefix.2 (u := [])
    (mt List.eq_nil_of_infix_nil (by decide)) r
  rw [findSid, Text.afterFirst_append_cons not_mem_sidPrefix.1 h]
  exact congrArg (fun o : Option Text => match o with
    | none => []
    | some rest => rest.takeWhile (· ≠ ';')) hspace

/-- The list from a cookie on. -/
theorem cookieHeader_cons (p : Cookie) (pairs : List Cookie) :
    cookieHeader (p :: pairs) =
      p.text ++ if pairs = [] then [] else ';' :: ' ' :: cookieHeader pairs := by
  cases pairs with
  | nil => simp [cookieHeader]
  | cons q pairs => simp [cookieHeader, List.intercalate_cons_cons]

/-- **The first cookie that holds the text** decides, by what stands behind the text in it. -/
theorem findSid_cookieHeader {pairs : List Cookie} {p : Cookie}
    (h : pairs.find? (·.Holds) = some p) {u v : Text} (hu : ¬ sidPrefix <:+: u)
    (htext : p.text = u ++ (sidPrefix ++ v)) : findSid (cookieHeader pairs) = v := by
  induction pairs with
  | nil => cases h
  | cons q pairs ih =>
    rw [List.find?_cons] at h
    rw [cookieHeader_cons]
    by_cases hq : q.Holds
    · simp only [hq, decide_true, Option.some.injEq] at h
      subst h
      refine findSid_of_holds hu htext ?_
      split
      · exact fun c hc => nomatch hc
      · rintro c ⟨⟩
        rfl
    · simp only [hq, decide_false] at h
      rw [if_neg (List.ne_nil_of_mem (List.mem_of_find?_eq_some h)), findSid_of_not_holds hq]
      exact ih h

/-- Without such a cookie nothing is found. -/
theorem findSid_cookieHeader_of_none {pairs : List Cookie}
    (h : pairs.find? (·.Holds) = none) : findSid (cookieHeader pairs) = [] := by
  induction pairs with
  | nil => rfl
  | cons q pairs ih =>
    rw [List.find?_cons] at h
    by_cases hq : q.Holds
    · simp [hq] at h
    · simp only [hq, decide_false] at h
      rw [cookieHeader_cons]
      split
      · rw [List.append_nil, findSid, Text.afterFirst_eq_none_iff.mpr hq]
      · rw [findSid_of_not_holds hq]
        exact ih h

theorem Cookie.holds_of_name {p : Cookie} (h : p.name = sidName) : p.Holds :=
  ⟨[], p.value, (text_of_name h).symm⟩

/-- A session cookie that holds the text first is the first session cookie. -/
theorem sessionValue_of_find {pairs : List Cookie} {p : Cookie}
    (h : pairs.find? (·.Holds) = some p) (hname : p.name = sidName) :
    sessionValue pairs = p.value := by
  obtain ⟨-, before, after, rfl, hbefore⟩ := List.find?_eq_some_iff_append.mp h
  have hfind : (before ++ p :: after).find? (·.name = sidName) = some p := by
    refine List.find?_eq_some_iff_append.mpr ⟨decide_eq_true hname, before, after, rfl, ?_⟩
    intro q hq
    have hnot : ¬ q.Holds := by simpa using hbefore q hq
    simpa using mt Cookie.holds_of_name hnot
  rw [sessionValue, hfind]
  rfl

theorem sessionValue_of_none {pairs : List Cookie} (h : pairs.find? (·.Holds) = none) :
    sessionValue pairs = [] := by
  have hfind : pairs.find? (·.name = sidName) = none := by
    rw [List.find?_eq_none] at h ⊢
    intro q hq hname
    exact h q hq (decide_eq_true (Cookie.holds_of_name (of_decide_eq_true hname)))
  rw [sessionValue, hfind]
  rfl

/-- **The session cookie is found** in a list of cookies exactly when the first one that holds
its name and an equals sign is the session cookie, or has behind them what is looked for. -/
theorem sessionCookie_iff (pairs : List Cookie) :
    extractSessionCookie { cookie := some (cookieHeader pairs) } = sessionValue pairs ↔
      ∀ p, pairs.find? (·.Holds) = some p → p.name = sidName ∨
        ∃ u, p.text = u ++ (sidPrefix ++ sessionValue pairs) ∧ ¬ sidPrefix <:+: u := by
  rw [extractSessionCookie, Option.elim_some]
  cases hfind : pairs.find? (·.Holds) with
  | none =>
    rw [findSid_cookieHeader_of_none hfind, sessionValue_of_none hfind]
    exact iff_of_true rfl fun p hp => nomatch hp
  | some p =>
    have hholds : p.Holds := by simpa using List.find?_some hfind
    obtain ⟨v, hv⟩ := Option.isSome_iff_exists.mp (Text.isSome_afterFirst_iff.mpr hholds)
    obtain ⟨u, htext, hu⟩ := afterFirst_sidPrefix_iff.mp hv
    constructor
    · rintro hvalue q ⟨⟩
      rw [findSid_cookieHeader hfind hu htext] at hvalue
      exact Or.inr ⟨u, hvalue ▸ htext, hu⟩
    · intro h
      rcases h p rfl with hname | ⟨u', htext', hu'⟩
      · rw [sessionValue_of_find hfind hname]
        exact findSid_cookieHeader hfind (u := []) (mt List.eq_nil_of_infix_nil (by decide))
          (Cookie.text_of_name hname)
      · exact findSid_cookieHeader hfind hu' htext'

/-- A cookie whose name ends with the name of the session cookie. -/
def shadowingCookies : List Cookie :=
  [⟨"xllamaste_sid", "evil", by decide, by decide⟩, ⟨sidName, "good", by decide, by decide⟩]

theorem not_sessionCookie :
    ¬ ∀ pairs, extractSessionCookie { cookie := some (cookieHeader pairs) } =
      sessionValue pairs := by
  intro h
  have hfound := h shadowingCookies
  exact absurd hfound (by decide +kernel)

end Llamaste
