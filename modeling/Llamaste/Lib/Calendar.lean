import Mathlib

/-!
# Calendar time

Seconds since the epoch and the broken-down time of the proleptic Gregorian calendar, in
UTC. Months are counted in one sequence, the month `12 * year + mon`, so that a month
that runs over is the next one without a case for the year's end.

## Main results

* `Calendar.monthStart_monthOf`: every day lies in its month.
* `Calendar.monthStart_lt_succ`: months follow each other.
* `Calendar.mktime_localtime`: broken-down time determines the second.
-/

namespace Calendar

/-- The first day of a month, in days since the epoch. Years are counted from March, so
that the leap day ends them. -/
def monthStart (m : ℤ) : ℤ :=
  let y := (m - 2) / 12
  let k := (m - 2) % 12
  365 * y + y / 4 - y / 100 + y / 400 + (153 * k + 2) / 5 - 719468

/-- The month of a day: the month at the average length of one, or a neighbour of it. -/
def monthOf (d : ℤ) : ℤ :=
  let m := 4800 * (d + 719468) / 146097 + 2
  if d < monthStart m then m - 1
  else if monthStart (m + 1) ≤ d then m + 1
  else m

/-- Broken-down time. `year` counts from the year 0, `mon` from January as 0, and `wday`
from Sunday as 0. -/
structure Tm where
  sec : ℤ
  min : ℤ
  hour : ℤ
  mday : ℤ
  mon : ℤ
  year : ℤ
  wday : ℤ
  deriving DecidableEq, Repr

/-- `localtime_r`, without a time zone. -/
def localtime (t : ℤ) : Tm :=
  let d := t / 86400
  let m := monthOf d
  { sec := t % 60, min := t / 60 % 60, hour := t / 3600 % 24, mday := d - monthStart m + 1,
    mon := m % 12, year := m / 12, wday := (d + 4) % 7 }

/-- `mktime`: fields outside their ranges run over into the next ones. -/
def mktime (tm : Tm) : ℤ :=
  (monthStart (12 * tm.year + tm.mon) + tm.mday - 1) * 86400 + tm.hour * 3600 + tm.min * 60 +
    tm.sec

example : mktime ⟨0, 0, 0, 29, 1, 2024, 0⟩ = 1709164800 := by decide

example : localtime 1709164800 = ⟨0, 0, 0, 29, 1, 2024, 4⟩ := by decide

/-! ### Months -/

/-- A month starts within five days of where months of average length would start it. -/
theorem monthStart_near (m : ℤ) :
    4800 * (monthStart m + 719468) ≤ 146097 * (m - 2) + 24000 ∧
      146097 * (m - 2) ≤ 4800 * (monthStart m + 719468) + 24000 := by
  simp only [monthStart]
  omega

/-- Months follow each other. -/
theorem monthStart_lt_succ (m : ℤ) : monthStart m < monthStart (m + 1) := by
  simp only [monthStart]
  omega

theorem monthStart_strictMono : StrictMono monthStart :=
  strictMono_int_of_lt_succ monthStart_lt_succ

/-- Every day lies in its month. -/
theorem monthStart_monthOf (d : ℤ) :
    monthStart (monthOf d) ≤ d ∧ d < monthStart (monthOf d + 1) := by
  have hbefore := monthStart_near (4800 * (d + 719468) / 146097 + 2 - 1)
  have hafter := monthStart_near (4800 * (d + 719468) / 146097 + 2 + 1 + 1)
  simp only [monthOf]
  split_ifs with hlow hhigh
  · refine ⟨by omega, ?_⟩
    rwa [sub_add_cancel]
  · exact ⟨hhigh, by omega⟩
  · exact ⟨not_lt.mp hlow, not_le.mp hhigh⟩

/-- A day that lies in a month has that month. -/
theorem monthOf_eq {m d : ℤ} (hlow : monthStart m ≤ d) (hhigh : d < monthStart (m + 1)) :
    monthOf d = m := by
  obtain ⟨hlow', hhigh'⟩ := monthStart_monthOf d
  have h := monthStart_strictMono.lt_iff_lt.mp (hlow.trans_lt hhigh')
  have h' := monthStart_strictMono.lt_iff_lt.mp (hlow'.trans_lt hhigh)
  omega

/-! ### Broken-down time -/

theorem month_localtime (t : ℤ) :
    12 * (localtime t).year + (localtime t).mon = monthOf (t / 86400) := by
  simp only [localtime]
  omega

/-- Broken-down time determines the second. -/
theorem mktime_localtime (t : ℤ) : mktime (localtime t) = t := by
  rw [mktime, month_localtime]
  simp only [localtime]
  omega

/-! ### Cycles -/

/-- The calendar repeats after 400 years, which are whole weeks. -/
theorem monthStart_add_cycle (m k : ℤ) :
    monthStart (m + 4800 * k) = monthStart m + 146097 * k := by
  have hyear : (m + 4800 * k - 2) / 12 = (m - 2) / 12 + 400 * k := by omega
  have hmonth : (m + 4800 * k - 2) % 12 = (m - 2) % 12 := by omega
  simp only [monthStart, hyear, hmonth]
  omega

theorem monthOf_add_cycle (d k : ℤ) : monthOf (d + 146097 * k) = monthOf d + 4800 * k := by
  obtain ⟨hlow, hhigh⟩ := monthStart_monthOf d
  refine monthOf_eq ?_ ?_
  · rw [monthStart_add_cycle]
    omega
  · rw [add_right_comm, monthStart_add_cycle]
    omega

/-- After a cycle, broken-down time differs in the year only. -/
theorem localtime_add_cycle (t k : ℤ) :
    localtime (t + 12622780800 * k) =
      { localtime t with year := (localtime t).year + 400 * k } := by
  have hday : (t + 12622780800 * k) / 86400 = t / 86400 + 146097 * k := by omega
  simp only [localtime, hday, monthOf_add_cycle, monthStart_add_cycle, Tm.mk.injEq]
  omega

/-! ### Running over -/

/-- One month past the month of a second is the start of the next month. -/
theorem mktime_month_succ (t : ℤ) :
    mktime { localtime t with mon := (localtime t).mon + 1, mday := 1, hour := 0, min := 0,
                              sec := 0 } = monthStart (monthOf (t / 86400) + 1) * 86400 := by
  simp only [mktime, ← add_assoc, month_localtime]
  omega

/-- One day past the day of a second is the start of the next day. -/
theorem mktime_mday_succ (t : ℤ) :
    mktime { localtime t with mday := (localtime t).mday + 1, hour := 0, min := 0, sec := 0 } =
      (t / 86400 + 1) * 86400 := by
  simp only [mktime, month_localtime]
  simp only [localtime]
  omega

theorem mktime_hour_succ (t : ℤ) :
    mktime { localtime t with hour := (localtime t).hour + 1, min := 0, sec := 0 } =
      (t / 3600 + 1) * 3600 := by
  simp only [mktime, month_localtime]
  simp only [localtime]
  omega

theorem mktime_min_succ (t : ℤ) :
    mktime { localtime t with min := (localtime t).min + 1, sec := 0 } = (t / 60 + 1) * 60 := by
  simp only [mktime, month_localtime]
  simp only [localtime]
  omega

/-- Without its seconds, a second is the start of its minute. -/
theorem mktime_sec_zero (t : ℤ) : mktime { localtime t with sec := 0 } = t / 60 * 60 := by
  simp only [mktime, month_localtime]
  simp only [localtime]
  omega

end Calendar
