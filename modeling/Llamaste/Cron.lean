import Llamaste.Lib.CInt
import Llamaste.Lib.Calendar
import Llamaste.Lib.SkipSearch
import Llamaste.Lib.Strto

/-!
# Cron expressions

A cron expression has five fields, each of them `*` or a number, and names the minutes
whose broken-down time has these numbers. The next such minute is searched for by jumps:
a wrong month goes on with the next month, a wrong day with the next day, and so on. The
device has no time zone data, so its local time is UTC; times are integers without bound.
Source: `scheduler.cpp`, cron parser.

## Main results

* `computeNextCron_later`: the next minute stays the next one until it comes.
* `computeNextCron_eq_zero_or`: a minute that is found lies in the future.
-/

namespace Llamaste

/-- The fields of a cron expression; a field that stands for anything is `none`. -/
structure Cron where
  min : Option ℤ
  hour : Option ℤ
  day : Option ℤ
  month : Option ℤ
  wday : Option ℤ
  deriving DecidableEq, Repr

/-- The words between white space, as `>>` reads them. -/
def words (s : Text) : List Text := (s.splitOnP Text.isSpace).filter (· ≠ [])

/-- The lambda `parse_field`. What is not a number counts as `*`. -/
def parseField (field : Text) : Option ℤ :=
  if field = ['*'] then none
  else
    match Strto.strtol (Text.cStr field) with
    | none => none
    | some v => if v = 2 ^ 63 - 1 ∨ v = -2 ^ 63 then none else some (CInt.toInt32 v)

/-- A field is `*` or in its range. -/
def InRange (want : Option ℤ) (low high : ℤ) : Prop := ∀ v ∈ want, low ≤ v ∧ v ≤ high

/-- A field is `*` or the number of the candidate. -/
def Wants (want : Option ℤ) (v : ℤ) : Prop := ∀ w ∈ want, v = w

instance (want : Option ℤ) (low high : ℤ) : Decidable (InRange want low high) :=
  inferInstanceAs (Decidable (∀ v ∈ want, _))

instance (want : Option ℤ) (v : ℤ) : Decidable (Wants want v) :=
  inferInstanceAs (Decidable (∀ w ∈ want, _))

/-- The first half of `compute_next_cron`: the five fields, if they are there and in
range. -/
def parseCron (expr : Text) : Option Cron :=
  match words expr with
  | min :: hour :: day :: month :: wday :: _ =>
      let cron : Cron := ⟨parseField min, parseField hour, parseField day, parseField month,
        parseField wday⟩
      if InRange cron.min 0 59 ∧ InRange cron.hour 0 23 ∧ InRange cron.day 1 31 ∧
          InRange cron.month 1 12 ∧ InRange cron.wday 0 6 then
        some cron
      else none
  | _ => none

/-- One round of the search: where it goes on after a candidate that does not match. -/
def Cron.next (cron : Cron) (candidate : ℤ) : Option ℤ :=
  let ctm := Calendar.localtime candidate
  if ¬ Wants cron.month (ctm.mon + 1) then
    some (Calendar.mktime
      { ctm with mon := ctm.mon + 1, mday := 1, hour := 0, min := 0, sec := 0 })
  else if ¬ Wants cron.day ctm.mday then
    some (Calendar.mktime { ctm with mday := ctm.mday + 1, hour := 0, min := 0, sec := 0 })
  else if ¬ Wants cron.wday ctm.wday then
    some (Calendar.mktime { ctm with mday := ctm.mday + 1, hour := 0, min := 0, sec := 0 })
  else if ¬ Wants cron.hour ctm.hour then
    some (Calendar.mktime { ctm with hour := ctm.hour + 1, min := 0, sec := 0 })
  else if ¬ Wants cron.min ctm.min then
    some (Calendar.mktime { ctm with min := ctm.min + 1, sec := 0 })
  else none

/-- The minute from which the search starts. -/
def cronStart (after : ℤ) : ℤ :=
  Calendar.mktime { Calendar.localtime (after + 60) with sec := 0 }

/-- `compute_next_cron`: 0 if the expression is invalid or nothing is found. -/
def computeNextCron (expr : Text) (after : ℤ) : ℤ :=
  match parseCron expr with
  | none => 0
  | some cron => (SkipSearch.search cron.next (366 * 24 * 60) (cronStart after)).getD 0

/-! ### Jumps -/

/-- A round in terms of the months, days, hours and minutes since the epoch. -/
theorem Cron.next_eq (cron : Cron) (c : ℤ) :
    cron.next c =
      if ¬ Wants cron.month (Calendar.monthOf (c / 86400) % 12 + 1) then
        some (Calendar.monthStart (Calendar.monthOf (c / 86400) + 1) * 86400)
      else if ¬ Wants cron.day
          (c / 86400 - Calendar.monthStart (Calendar.monthOf (c / 86400)) + 1) then
        some ((c / 86400 + 1) * 86400)
      else if ¬ Wants cron.wday ((c / 86400 + 4) % 7) then some ((c / 86400 + 1) * 86400)
      else if ¬ Wants cron.hour (c / 3600 % 24) then some ((c / 3600 + 1) * 3600)
      else if ¬ Wants cron.min (c / 60 % 60) then some ((c / 60 + 1) * 60)
      else none := by
  simp only [next, Calendar.mktime_month_succ, Calendar.mktime_mday_succ,
    Calendar.mktime_hour_succ, Calendar.mktime_min_succ]
  rfl

/-- A jump goes to the start of the next month, day, hour or minute. -/
theorem Cron.dvd_of_next {cron : Cron} {c d : ℤ} (h : cron.next c = some d) : 60 ∣ d := by
  rw [next_eq] at h
  split_ifs at h <;> obtain rfl := Option.some.inj h <;> omega

theorem Cron.skips_next (cron : Cron) : SkipSearch.Skips cron.next := by
  constructor
  · intro c d h
    obtain ⟨-, hmonth⟩ := Calendar.monthStart_monthOf (c / 86400)
    rw [next_eq] at h
    split_ifs at h <;> obtain rfl := Option.some.inj h <;> omega
  · intro c c' d h hc hd
    obtain ⟨hlow, hhigh⟩ := Calendar.monthStart_monthOf (c / 86400)
    rw [next_eq] at h
    have hday : c / 86400 ≤ c' / 86400 := Int.ediv_le_ediv (by omega) hc
    split_ifs at h with hmonth hmday hwday hhour hmin <;> obtain rfl := Option.some.inj h
    · have hsame : c' / 86400 = c / 86400 := by omega
      have hsame' : c' / 3600 = c / 3600 := by omega
      have hsame'' : c' / 60 = c / 60 := by omega
      simp [next_eq, hsame, hsame', hsame'', hmonth, hmday, hwday, hhour, hmin]
    · have hsame : c' / 86400 = c / 86400 := by omega
      have hsame' : c' / 3600 = c / 3600 := by omega
      simp [next_eq, hsame, hsame', hmonth, hmday, hwday, hhour]
    · have hsame : c' / 86400 = c / 86400 := by omega
      simp [next_eq, hsame, hmonth, hmday, hwday]
    · have hsame : c' / 86400 = c / 86400 := by omega
      simp [next_eq, hsame, hmonth, hmday]
    · have hsame : Calendar.monthOf (c' / 86400) = Calendar.monthOf (c / 86400) :=
        Calendar.monthOf_eq (by omega) (by omega)
      simp [next_eq, hsame, hmonth]

/-! ### The next minute -/

theorem cronStart_eq (after : ℤ) : cronStart after = (after + 60) / 60 * 60 :=
  Calendar.mktime_sec_zero _

/-- What a search finds is a minute after the start. -/
theorem search_next {cron : Cron} {n : ℕ} {after r : ℤ}
    (h : SkipSearch.search cron.next n (cronStart after) = some r) : after < r ∧ 60 ∣ r := by
  have hstart := cronStart_eq after
  have hle := cron.skips_next.le_of_search h
  refine ⟨by omega, ?_⟩
  exact SkipSearch.search_invariant (I := fun x => 60 ∣ x) (fun _ _ _ hd => Cron.dvd_of_next hd)
    (by rw [hstart]; exact Int.dvd_mul_left _ _) h

/-- A minute that is found lies in the future. -/
theorem computeNextCron_eq_zero_or (expr : Text) (after : ℤ) :
    computeNextCron expr after = 0 ∨ after < computeNextCron expr after := by
  cases hcron : parseCron expr with
  | none => exact Or.inl (by rw [computeNextCron, hcron])
  | some cron =>
      simp only [computeNextCron, hcron]
      cases hsearch : SkipSearch.search cron.next (366 * 24 * 60) (cronStart after) with
      | none => exact Or.inl rfl
      | some r => exact Or.inr (search_next hsearch).1

/-- The next minute stays the next one until it comes. -/
theorem computeNextCron_later {expr : Text} {after now : ℤ} (hafter : after ≤ now)
    (hnow : 0 ≤ now) (h : now < computeNextCron expr after) :
    computeNextCron expr now = computeNextCron expr after := by
  cases hcron : parseCron expr with
  | none =>
      simp only [computeNextCron, hcron] at h
      omega
  | some cron =>
      simp only [computeNextCron, hcron] at h ⊢
      cases hsearch : SkipSearch.search cron.next (366 * 24 * 60) (cronStart after) with
      | none =>
          rw [hsearch, Option.getD_none] at h
          omega
      | some r =>
          rw [hsearch, Option.getD_some] at h
          obtain ⟨-, hr⟩ := search_next hsearch
          have hstart := cronStart_eq after
          have hstart' := cronStart_eq now
          rw [cron.skips_next.search_later hsearch (by omega) (by omega)]

end Llamaste
