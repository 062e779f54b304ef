import Llamaste.CronExact

/-!
# The language of cron expressions

A field is read by `strtol`: what has no number at its start counts as `*`, and so does a number
that is no `long`; a number at the start is taken whatever follows it, and cut to an `int`.
Source: `scheduler.cpp`, cron parser.

## Main results

* `acceptsDocumented_iff`: exactly the documented expressions are accepted, as what they say, when
  each of the five fields is `*` or a decimal `int`.
-/

namespace Llamaste

/-- A field is `*` or a decimal integer in its range. -/
def DocumentedField (field : Text) (low high : ℤ) : Prop :=
  field = ['*'] ∨ ∃ v, Strto.Numeral field v ∧ low ≤ v ∧ v ≤ high

/-- The text starts with five documented fields. -/
def DocumentedCron (expr : Text) : Prop :=
  ∃ min hour day month wday rest, words expr = min :: hour :: day :: month :: wday :: rest ∧
    DocumentedField min 0 59 ∧ DocumentedField hour 0 23 ∧ DocumentedField day 1 31 ∧
    DocumentedField month 1 12 ∧ DocumentedField wday 0 6

/-- What is not documented gives 0, and the fields that are read are read as what they are. -/
structure AcceptsDocumented (expr : Text) : Prop where
  rejects : ¬ DocumentedCron expr → ∀ after, computeNextCron expr after = 0
  reads : 5 ≤ (words expr).length → ∀ field ∈ (words expr).take 5,
    (parseField field = none → field = ['*']) ∧
      ∀ v, parseField field = some v → Strto.Numeral field v

/-- A field is `*` or a decimal `int`. -/
def PlainField (field : Text) : Prop :=
  field = ['*'] ∨ ∃ v, Strto.Numeral field v ∧ CInt.FitsInt32 v

theorem fitsInt32_of_parseField {field : Text} {v : ℤ} (h : parseField field = some v) :
    CInt.FitsInt32 v := by
  rw [parseField] at h
  split_ifs at h
  cases hread : Strto.strtol (Text.cStr field) with
  | none =>
    rw [hread] at h
    cases h
  | some w =>
    rw [hread] at h
    dsimp only at h
    split_ifs at h
    obtain rfl := Option.some.inj h
    exact CInt.fitsInt32_toInt32 w

/-- A plain field that is in its range is documented. -/
theorem PlainField.documented {field : Text} (h : PlainField field) {low high : ℤ}
    (hrange : InRange (parseField field) low high) : DocumentedField field low high := by
  rcases h with hstar | ⟨v, hv, hfits⟩
  · exact .inl hstar
  · rw [parseField_of_numeral hv hfits] at hrange
    exact .inr ⟨v, hv, hrange v rfl⟩

/-- Five plain fields in their ranges are documented. -/
theorem documented_of_parseCron {expr : Text} {cron : Cron}
    (hplain : ∀ field ∈ (words expr).take 5, PlainField field)
    (h : parseCron expr = some cron) : DocumentedCron expr := by
  rw [parseCron] at h
  split at h
  · rename_i min hour day month wday rest hwords
    dsimp only at h
    split_ifs at h with hranges
    obtain ⟨hmin, hhour, hday, hmonth, hwday⟩ := hranges
    rw [hwords] at hplain
    simp only [List.take_succ_cons, List.take_zero, List.forall_mem_cons] at hplain
    obtain ⟨pmin, phour, pday, pmonth, pwday, -⟩ := hplain
    exact ⟨min, hour, day, month, wday, rest, hwords, pmin.documented hmin, phour.documented hhour,
      pday.documented hday, pmonth.documented hmonth, pwday.documented hwday⟩
  · cases h

/-- Fewer than five fields are not parsed. -/
theorem parseCron_of_length_lt {expr : Text} (h : (words expr).length < 5) :
    parseCron expr = none := by
  rw [parseCron]
  split
  · rename_i hwords
    rw [hwords] at h
    simp only [List.length_cons] at h
    omega
  · rfl

/-- **The parser accepts exactly the documented language** when each field is `*` or a decimal
`int`, and for no other five fields. -/
theorem acceptsDocumented_iff (expr : Text) :
    AcceptsDocumented expr ↔
      (5 ≤ (words expr).length → ∀ field ∈ (words expr).take 5, PlainField field) := by
  constructor
  · intro h hlen field hfield
    obtain ⟨hany, hnumber⟩ := h.reads hlen field hfield
    cases hparse : parseField field with
    | none => exact .inl (hany hparse)
    | some v => exact .inr ⟨v, hnumber v hparse, fitsInt32_of_parseField hparse⟩
  · intro h
    refine ⟨fun hundocumented after => ?_, fun hlen field hfield => ?_⟩
    · have hnone : parseCron expr = none := by
        by_cases hlen : 5 ≤ (words expr).length
        · cases hparse : parseCron expr with
          | none => rfl
          | some cron => exact absurd (documented_of_parseCron (h hlen) hparse) hundocumented
        · exact parseCron_of_length_lt (Nat.lt_of_not_le hlen)
      rw [computeNextCron, hnone]
    · rcases h hlen field hfield with hstar | ⟨v, hv, hfits⟩
      · rw [hstar]
        exact ⟨fun _ => rfl, by rintro v ⟨⟩⟩
      · rw [parseField_of_numeral hv hfits]
        exact ⟨by rintro ⟨⟩, fun w hw => Option.some.inj hw ▸ hv⟩

/-- A step is read as `*`. -/
theorem not_acceptsDocumented : ¬ ∀ expr, AcceptsDocumented expr := by
  intro h
  have hany := ((h "*/5 * * * *").reads (by decide) "*/5".toList (by decide)).1 (by decide)
  exact absurd hany (by decide)

end Llamaste
