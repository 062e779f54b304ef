import Mathlib
import Llamaste.Cron

/-!
# The search for the next minute is exact

The calendar repeats after 400 years, which are whole weeks, so a pattern that any minute
matches is matched by a minute of the next 400 years. A search goes through the rest of its
first day minute by minute at the worst, then from midnight to midnight, and through the day
of the match; that is fewer rounds than it has. Source: `scheduler.cpp`, cron parser.

## Main results

* `computeNextCron_exact`: the search finds the first minute that matches, and nothing only
  when no minute ever matches.
-/

namespace Llamaste

/-! ### Expressions -/

/-- What a field asks for. -/
inductive FieldReads : Text → Option ℤ → Prop
  | any : FieldReads ['*'] none
  | number {field : Text} {v : ℤ} (h : Strto.Numeral field v) : FieldReads field (some v)

/-- The numbers of a pattern are in their ranges. -/
structure Cron.Valid (cron : Cron) : Prop where
  min : InRange cron.min 0 59
  hour : InRange cron.hour 0 23
  day : InRange cron.day 1 31
  month : InRange cron.month 1 12
  wday : InRange cron.wday 0 6

/-- The text is the five fields of a pattern, with white space between them. -/
def Expresses (expr : Text) (cron : Cron) : Prop :=
  cron.Valid ∧ ∃ min hour day month wday, words expr = [min, hour, day, month, wday] ∧
    FieldReads min cron.min ∧ FieldReads hour cron.hour ∧ FieldReads day cron.day ∧
    FieldReads month cron.month ∧ FieldReads wday cron.wday

/-- A number that fits an `int` is read as it is written. -/
theorem parseField_of_numeral {field : Text} {v : ℤ} (h : Strto.Numeral field v)
    (hfits : CInt.FitsInt32 v) : parseField field = some v := by
  have hstar : field ≠ ['*'] := by
    rintro rfl
    rcases h.mem '*' List.mem_cons_self with h | h | h <;> exact absurd h (by decide)
  have hbounds : ¬ (v = 2 ^ 63 - 1 ∨ v = -2 ^ 63) := by
    rw [CInt.FitsInt32] at hfits
    omega
  rw [parseField, if_neg hstar, h.cStr,
    Strto.strtol_of_numeral h hfits.fitsInt64.1 (Int.le_sub_one_of_lt hfits.fitsInt64.2)]
  simp only [if_neg hbounds, CInt.toInt32_eq_self_iff.mpr hfits]

/-- What a field in its range asks for. -/
theorem parseField_of_reads {field : Text} {want : Option ℤ} (h : FieldReads field want)
    {low high : ℤ} (hrange : InRange want low high) (hlow : 0 ≤ low) (hhigh : high ≤ 59) :
    parseField field = want := by
  cases h with
  | any => rfl
  | @number field v h =>
    obtain ⟨hv, hv'⟩ := hrange v rfl
    exact parseField_of_numeral h ⟨by omega, by omega⟩

theorem parseCron_of_expresses {expr : Text} {cron : Cron} (h : Expresses expr cron) :
    parseCron expr = some cron := by
  obtain ⟨hvalid, min, hour, day, month, wday, hwords, hmin, hhour, hday, hmonth, hwday⟩ := h
  rw [parseCron, hwords]
  simp only [parseField_of_reads hmin hvalid.min le_rfl le_rfl,
    parseField_of_reads hhour hvalid.hour le_rfl (by omega),
    parseField_of_reads hday hvalid.day (by omega) (by omega),
    parseField_of_reads hmonth hvalid.month (by omega) (by omega),
    parseField_of_reads hwday hvalid.wday le_rfl (by omega)]
  exact if_pos ⟨hvalid.min, hvalid.hour, hvalid.day, hvalid.month, hvalid.wday⟩

/-! ### Matches -/

/-- The broken-down time of a second has the numbers of the pattern. -/
structure Cron.Matches (cron : Cron) (t : ℤ) : Prop where
  min : Wants cron.min (Calendar.localtime t).min
  hour : Wants cron.hour (Calendar.localtime t).hour
  mday : Wants cron.day (Calendar.localtime t).mday
  month : Wants cron.month ((Calendar.localtime t).mon + 1)
  wday : Wants cron.wday (Calendar.localtime t).wday

/-- The day of a second, counted from the epoch, has the numbers of the pattern. -/
structure Cron.MatchesDay (cron : Cron) (d : ℤ) : Prop where
  mday : Wants cron.day (d - Calendar.monthStart (Calendar.monthOf d) + 1)
  month : Wants cron.month (Calendar.monthOf d % 12 + 1)
  wday : Wants cron.wday ((d + 4) % 7)

theorem Cron.matches_iff {cron : Cron} {t : ℤ} :
    cron.Matches t ↔ cron.MatchesDay (t / 86400) ∧ Wants cron.hour (t / 3600 % 24) ∧
      Wants cron.min (t / 60 % 60) :=
  ⟨fun h => ⟨⟨h.mday, h.month, h.wday⟩, h.hour, h.min⟩,
    fun ⟨hday, hhour, hmin⟩ => ⟨hmin, hhour, hday.mday, hday.month, hday.wday⟩⟩

/-- The search stops exactly at a match. -/
theorem Cron.next_eq_none_iff {cron : Cron} {c : ℤ} : cron.next c = none ↔ cron.Matches c := by
  rw [next_eq, matches_iff]
  split_ifs with hmonth hmday hwday hhour hmin
  · exact iff_of_true rfl ⟨⟨hmday, hmonth, hwday⟩, hhour, hmin⟩
  · exact iff_of_false nofun fun h => hmin h.2.2
  · exact iff_of_false nofun fun h => hhour h.2.1
  · exact iff_of_false nofun fun h => hwday h.1.wday
  · exact iff_of_false nofun fun h => hmday h.1.mday
  · exact iff_of_false nofun fun h => hmonth h.1.month

/-- A jump leaves a day that does not match for a midnight, and goes on within one that does. -/
theorem Cron.next_cases {cron : Cron} {c d : ℤ} (h : cron.next c = some d) :
    c < d ∧ 60 ∣ d ∧ (86400 ∣ d ∨ cron.MatchesDay (c / 86400) ∧ d ≤ (c / 86400 + 1) * 86400) := by
  refine ⟨cron.skips_next.lt h, dvd_of_next h, ?_⟩
  rw [next_eq] at h
  split_ifs at h with hmonth hmday hwday hhour hmin <;> obtain rfl := Option.some.inj h
  · exact Or.inr ⟨⟨hmday, hmonth, hwday⟩, by omega⟩
  · exact Or.inr ⟨⟨hmday, hmonth, hwday⟩, by omega⟩
  · exact Or.inl (Int.dvd_mul_left _ _)
  · exact Or.inl (Int.dvd_mul_left _ _)
  · exact Or.inl (Int.dvd_mul_left _ _)

/-- Of a day that matches, a minute does. -/
theorem Cron.MatchesDay.exists_minute {cron : Cron} (hvalid : cron.Valid) {d : ℤ}
    (h : cron.MatchesDay d) : ∃ t, t / 86400 = d ∧ 60 ∣ t ∧ cron.Matches t := by
  have hpick : ∀ {want : Option ℤ} {high : ℤ}, 0 ≤ high → InRange want 0 high →
      ∃ v, 0 ≤ v ∧ v ≤ high ∧ Wants want v := by
    rintro want high hhigh hrange
    cases want with
    | none => exact ⟨0, le_rfl, hhigh, nofun⟩
    | some v => exact ⟨v, (hrange v rfl).1, (hrange v rfl).2, fun w hw => Option.some.inj hw⟩
  obtain ⟨hour, hh, hh', hhour⟩ := hpick (by omega) hvalid.hour
  obtain ⟨min, hm, hm', hmin⟩ := hpick (by omega) hvalid.min
  have hday : (d * 86400 + hour * 3600 + min * 60) / 86400 = d := by omega
  have hhour' : (d * 86400 + hour * 3600 + min * 60) / 3600 % 24 = hour := by omega
  have hmin' : (d * 86400 + hour * 3600 + min * 60) / 60 % 60 = min := by omega
  refine ⟨d * 86400 + hour * 3600 + min * 60, hday, by omega, matches_iff.mpr ?_⟩
  rw [hday, hhour', hmin']
  exact ⟨h, hhour, hmin⟩

/-- The seconds of a minute match alike. -/
theorem Cron.Matches.minute {cron : Cron} {t : ℤ} (h : cron.Matches t) :
    cron.Matches (t / 60 * 60) := by
  have hday : t / 60 * 60 / 86400 = t / 86400 := by omega
  have hhour : t / 60 * 60 / 3600 = t / 3600 := by omega
  have hmin : t / 60 * 60 / 60 = t / 60 := by omega
  rw [matches_iff] at h ⊢
  rwa [hday, hhour, hmin]

/-- What matches matches in every cycle of the calendar. -/
theorem Cron.Matches.add_cycle {cron : Cron} {t : ℤ} (h : cron.Matches t) (k : ℤ) :
    cron.Matches (t + 12622780800 * k) := by
  have heq := Calendar.localtime_add_cycle t k
  constructor
  · rw [heq]
    exact h.min
  · rw [heq]
    exact h.hour
  · rw [heq]
    exact h.mday
  · rw [heq]
    exact h.month
  · rw [heq]
    exact h.wday

/-! ### The search -/

/-- The minutes after a time that match. -/
def Cron.After (cron : Cron) (after : ℤ) : Set ℤ := {t | after < t ∧ 60 ∣ t ∧ cron.Matches t}

/-- The first minute that matches comes within one cycle of the calendar. -/
theorem Cron.exists_isLeast {cron : Cron} {t : ℤ} (h : cron.Matches t) (after : ℤ) :
    ∃ r, IsLeast (cron.After after) r ∧ r ≤ after + 12622780800 := by
  have hminute : 60 ∣ t / 60 * 60 := Int.dvd_mul_left _ _
  have hcycle := Int.mul_ediv_add_emod (t / 60 * 60 - after - 1) 12622780800
  have hmod := Int.emod_nonneg (t / 60 * 60 - after - 1) (b := 12622780800) (by omega)
  have hlt := Int.emod_lt_of_pos (t / 60 * 60 - after - 1) (b := 12622780800) (by omega)
  have hmem : t / 60 * 60 + 12622780800 * -((t / 60 * 60 - after - 1) / 12622780800) ∈
      cron.After after := ⟨by omega, by omega, h.minute.add_cycle _⟩
  obtain ⟨r, hr, hleast⟩ := Int.exists_least_of_bdd (P := (· ∈ cron.After after))
    ⟨after, fun _ hz => hz.1.le⟩ ⟨_, hmem⟩
  exact ⟨r, ⟨hr, hleast⟩, (hleast _ hmem).trans (by omega)⟩

/-- The rounds that a search needs at most from a candidate to a match: minutes on the days of
both, and days in between. -/
def searchRank (r c : ℤ) : ℕ :=
  if r / 86400 ≤ c / 86400 then (r / 60 - c / 60).toNat
  else if 86400 ∣ c then (r / 86400 - c / 86400).toNat + 1440
  else ((c / 86400 + 1) * 1440 - c / 60).toNat + (r / 86400 - c / 86400).toNat + 1440

/-- Every jump on the way to the first match needs one round less. -/
theorem Cron.searchRank_lt {cron : Cron} (hvalid : cron.Valid) {start r c d : ℤ}
    (hstart : start ≤ c) (hc : 60 ∣ c) (hnext : cron.next c = some d) (hd : d ≤ r) (hr : 60 ∣ r)
    (hmin : ∀ x, 60 ∣ x → start ≤ x → cron.Matches x → r ≤ x) :
    searchRank r d < searchRank r c := by
  obtain ⟨hlt, hdvd, hcases⟩ := next_cases hnext
  have hpast : cron.MatchesDay (c / 86400) → 86400 ∣ c → r / 86400 ≤ c / 86400 := by
    intro hday hmidnight
    obtain ⟨t, ht, hdvd, hmatches⟩ := hday.exists_minute hvalid
    have hle := hmin t hdvd (by omega) hmatches
    omega
  simp only [searchRank]
  rcases hcases with hmidnight | ⟨hday, hsame⟩
  · split_ifs <;> omega
  · by_cases hmidnight : 86400 ∣ c
    · have hle := hpast hday hmidnight
      rw [if_pos hle, if_pos (by omega)]
      omega
    · split_ifs <;> omega

/-- The search comes to the first match. -/
theorem Cron.search_isLeast {cron : Cron} (hvalid : cron.Valid) {after r : ℤ}
    (h : IsLeast (cron.After after) r) (hr : r ≤ after + 12622780800) :
    SkipSearch.search cron.next (366 * 24 * 60) (cronStart after) = some r := by
  obtain ⟨⟨hafter, hdvd, hmatches⟩, hleast⟩ := h
  have hstart := cronStart_eq after
  have hmin : ∀ x, 60 ∣ x → cronStart after ≤ x → cron.Matches x → r ≤ x := by
    intro x hx hle hm
    exact hleast ⟨by omega, hx, hm⟩
  refine cron.skips_next.search_first (I := fun c => 60 ∣ c ∧ cronStart after ≤ c)
    (searchRank r) ?_ ?_ ⟨by omega, le_rfl⟩ (by omega) ?_
    (next_eq_none_iff.mpr hmatches) ?_
  · rintro c d ⟨-, hle⟩ hnext
    exact ⟨dvd_of_next hnext, hle.trans (cron.skips_next.lt hnext).le⟩
  · rintro c d ⟨hc, hle⟩ hnext hd
    exact searchRank_lt hvalid hle hc hnext hd hdvd hmin
  · rintro x ⟨hx, hle⟩ - hnext
    exact hmin x hx hle (next_eq_none_iff.mp hnext)
  · simp only [searchRank]
    split_ifs <;> omega

/-- **The search is exact.** It finds the first minute after the given time that has the numbers
of the expression, and gives 0 exactly when no minute of the calendar has them. -/
theorem computeNextCron_exact {expr : Text} {cron : Cron} (h : Expresses expr cron) {after : ℤ}
    (hafter : 0 ≤ after) :
    ((∃ t, 60 ∣ t ∧ cron.Matches t) →
      IsLeast {t | after < t ∧ 60 ∣ t ∧ cron.Matches t} (computeNextCron expr after)) ∧
    (computeNextCron expr after = 0 ↔ ∀ t, 60 ∣ t → ¬ cron.Matches t) := by
  have hfound : (∃ t, 60 ∣ t ∧ cron.Matches t) →
      IsLeast (cron.After after) (computeNextCron expr after) := by
    rintro ⟨t, -, ht⟩
    obtain ⟨r, hr, hle⟩ := Cron.exists_isLeast ht after
    simp only [computeNextCron, parseCron_of_expresses h, Cron.search_isLeast h.1 hr hle,
      Option.getD_some]
    exact hr
  refine ⟨hfound, ⟨fun hzero t hdvd ht => ?_, fun hnone => ?_⟩⟩
  · have hleast := (hfound ⟨t, hdvd, ht⟩).1.1
    omega
  · simp only [computeNextCron, parseCron_of_expresses h]
    cases hsearch : SkipSearch.search cron.next (366 * 24 * 60) (cronStart after) with
    | none => rfl
    | some r =>
      exact absurd (Cron.next_eq_none_iff.mp (SkipSearch.next_of_search hsearch))
        (hnone r (search_next hsearch).2)

/-- Midnight of every leap day. -/
def leapDays : Cron := ⟨some 0, some 0, some 29, some 2, none⟩

theorem expresses_leapDays : Expresses "0 0 29 2 *".toList leapDays := by
  refine ⟨by constructor <;> decide, "0".toList, "0".toList, "29".toList, "2".toList, "*".toList,
    by decide, ?_, ?_, ?_, ?_, .any⟩
  · exact .number (.plain (by decide) (by decide))
  · exact .number (.plain (by decide) (by decide))
  · exact .number (.plain (by decide) (by decide))
  · exact .number (.plain (by decide) (by decide))

theorem computeNextCron_leapDays :
    IsLeast {t | 0 < t ∧ 60 ∣ t ∧ leapDays.Matches t} (computeNextCron "0 0 29 2 *" 0) :=
  (computeNextCron_exact expresses_leapDays le_rfl).1
    ⟨68169600, by decide, by constructor <;> decide⟩

end Llamaste
