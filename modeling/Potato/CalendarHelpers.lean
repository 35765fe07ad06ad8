import Mathlib.Algebra.BigOperators.Intervals
import Potato.Date

/-!
# Calendar helpers

The leap-year rule and the month table of `Date` against the day count behind `addDays`, which goes
through the microseconds of a timestamp.
-/
namespace Potato.Date
open Machine Gregorian

variable {d d' : Date} {z : Zone} {n : ℤ}

theorem isLeapYear_iff (y : ℤ) : isLeapYear y = true ↔ Leap y := by
  have hdvd (k : ℤ) : y.tmod k = 0 ↔ k ∣ y := Int.dvd_iff_tmod_eq_zero.symm
  simp only [isLeapYear, Bool.or_eq_true, Bool.and_eq_true, beq_iff_eq, bne_iff_ne, ne_eq, hdvd,
    Leap]
  omega

theorem getYearDays_eq (y : ℤ) : getYearDays y = yearLength y := by
  unfold getYearDays yearLength
  by_cases h : Leap y
  · rw [if_pos ((isLeapYear_iff y).mpr h), if_pos h]
  · rw [if_neg (fun hl => h ((isLeapYear_iff y).mp hl)), if_neg h]

/-- The table of the months is right for every year. -/
theorem getDaysInMonth_eq (y : ℤ) {k : ℕ} (hk : k < 12) :
    getDaysInMonth y (k + 1) = .next (monthLength (12 * y + k)) := by
  have hmonth : (1 : ℤ) ≤ k + 1 ∧ (k : ℤ) + 1 ≤ 12 := by omega
  rw [monthLength_eq y hk, getDaysInMonth, Outcome.check_pos hmonth, Outcome.next_bind]
  by_cases hfeb : k = 1
  · subst hfeb
    by_cases hleap : Leap y
    · rw [if_pos ⟨by norm_num, (isLeapYear_iff y).mpr hleap⟩]
      simp [monthLengths, hleap]
    · rw [if_neg (fun h => hleap ((isLeapYear_iff y).mp h.2))]
      simp [monthLengths, hleap, Outcome.deref]
  · have htable : [(31 : ℤ), 28, 31, 30, 31, 30, 31, 31, 30, 31, 30, 31][k]? =
        some (monthLengths y)[k] := by
      interval_cases k <;> first | rfl | exact absurd rfl hfeb
    have hindex : ((k : ℤ) + 1 - 1).toNat = k := by omega
    rw [if_neg (fun h => hfeb (by omega)), hindex, htable]
    rfl

theorem Local.daysInMonth_eq (hd : d.Local z) :
    d.daysInMonth = .next (monthLength (monthOf (d.clockDay z))) := by
  obtain ⟨k, hk⟩ : ∃ k : ℕ, d.month = k + 1 := ⟨(d.month - 1).toNat, by
    have := hd.month_bounds
    omega⟩
  have hindex := hd.monthIndex_eq
  have := hd.month_bounds
  rw [daysInMonth, hk, getDaysInMonth_eq d.year (by omega), ← hindex, monthIndex, hk]
  congr 2
  ring

/-- The day of the week, from 1 for Monday to 7 for Sunday. -/
theorem Local.weekday_eq (hd : d.Local z) : d.weekday = (d.clockDay z + 3) % 7 + 1 := by
  have hday : d.tm.wday = (d.clockDay z + 4) % 7 := by
    rw [hd.tm_eq]
    rfl
  rw [weekday, hday]
  split_ifs <;> omega

theorem Local.dayInYear_eq (hd : d.Local z) :
    d.dayInYear = d.clockDay z - yearStart d.year + 1 := by
  rw [hd.year_eq, dayInYear, hd.tm_eq]
  rfl

/-- `addDays` moves the day on the clocks and leaves the time of day, in a zone without daylight
time and as far as the microseconds reach. -/
theorem addDays_eq (hz : z.Fixed) (h : -10 ^ 7 ≤ d.clockDay z)
    (h' : d.clockDay z ≤ 10 ^ 7) (hn : -10 ^ 7 ≤ d.clockDay z + n)
    (hn' : d.clockDay z + n ≤ 10 ^ 7) :
    ∃ d', d.addDays z n = .next d' ∧ d'.Local z ∧ d'.clockDay z = d.clockDay z + n ∧
      z.clock d'.seconds % 86400 = z.clock d.seconds % 86400 := by
  have hstd := z.standard_int
  have hclock := hz.clock_eq d.seconds
  unfold InInt at hstd
  unfold clockDay at *
  have hfrom : InInt64 (d.seconds * 1000000) := by
    unfold InInt64
    omega
  have hshift : InInt64 (n * 60 * 60 * 24 * 1000000) := by
    unfold InInt64
    omega
  have hto : InInt64 ((d.seconds + n * 60 * 60 * 24) * 1000000) := by
    unfold InInt64
    omega
  have hadd : d.addDays z n = .next (d.later z (n * 60 * 60 * 24)) :=
    (shift_eq_next (Timestamp.addDay_adds n) hfrom).mpr ⟨hshift, hto, rfl⟩
  have hlocal : (ofTimestamp z ⟨_, hto⟩).Local z := ofTimestamp_local _ _
  rw [ofTimestamp, Timestamp.toSeconds_eq rfl] at hlocal
  refine ⟨_, hadd, hlocal, ?_, ?_⟩
  · rw [later, hz.clock_eq, hz.clock_eq]
    dsimp only
    omega
  · rw [later, hz.clock_eq, hz.clock_eq]
    dsimp only
    omega

/-- The same hour, minute and second. -/
structure SameTime (d d' : Date) : Prop where
  hour : d'.hour = d.hour
  minute : d'.minute = d.minute
  second : d'.second = d.second

theorem Local.sameTime (hd : d.Local z) (hd' : d'.Local z)
    (h : z.clock d'.seconds % 86400 = z.clock d.seconds % 86400) : d.SameTime d' :=
  ⟨by rw [hd'.hour_eq, hd.hour_eq, h], by rw [hd'.minute_eq, hd.minute_eq, h],
    by rw [hd'.second_eq, hd.second_eq, h]⟩

/-- The days of the years from 1970 to 9999. -/
theorem clockDay_range (h : 1970 ≤ yearOf n) (h' : yearOf n ≤ 9999) : 0 ≤ n ∧ n < 2932897 := by
  have hlast : ¬ 10000 ≤ yearOf n := by omega
  rw [le_yearOf_iff] at h hlast
  have hfirst : yearStart 1970 = 0 := by decide
  have hend : yearStart 10000 = 2932897 := by decide
  omega

/-- Behind the last day of a month comes the first of the next one. -/
theorem Local.addDays_month (hd : d.Local z) (hz : z.Fixed) (h : 1970 ≤ d.year)
    (h' : d.year ≤ 9999) : ∃ length d', d.daysInMonth = .next length ∧
      d.addDays z (length - d.day + 1) = .next d' ∧
      12 * d'.year + d'.month = 12 * d.year + d.month + 1 ∧ d'.day = 1 ∧ d.SameTime d' := by
  rw [hd.year_eq] at h h'
  obtain ⟨hlo, hhi⟩ := clockDay_range h h'
  have hday := hd.day_eq
  have hbounds := dayOf_bounds (d.clockDay z)
  have hlength := monthLength_bounds (monthOf (d.clockDay z))
  have hfirst := monthStart_add_dayOf (d.clockDay z)
  obtain ⟨d', hadd, hd', hclock, htime⟩ := addDays_eq (d := d)
    (n := monthLength (monthOf (d.clockDay z)) - d.day + 1) hz (by omega) (by omega) (by omega)
    (by omega)
  -- the new day is the first of the month behind that of `d`
  have hnext : d'.clockDay z = monthStart (monthOf (d.clockDay z) + 1) + 0 := by
    rw [hclock, monthStart_succ]
    omega
  have hmonth : monthOf (d'.clockDay z) = monthOf (d.clockDay z) + 1 := by
    have := (monthLength_bounds (monthOf (d.clockDay z) + 1)).1
    rw [hnext, monthOf_add le_rfl (by omega)]
  refine ⟨_, d', hd.daysInMonth_eq, hadd, ?_, ?_, hd.sameTime hd' htime⟩
  · have hindex := hd.monthIndex_eq
    have hindex' := hd'.monthIndex_eq
    unfold monthIndex at hindex hindex'
    omega
  · rw [hd'.day_eq, dayOf, hmonth, hnext]
    ring

/-- Behind the last day of a year comes 1 January. -/
theorem Local.addDays_year (hd : d.Local z) (hz : z.Fixed) (h : 1970 ≤ d.year)
    (h' : d.year ≤ 9999) : ∃ d', d.addDays z (d.daysInYear - d.dayInYear + 1) = .next d' ∧
      d'.year = d.year + 1 ∧ d'.month = 1 ∧ d'.day = 1 ∧ d.SameTime d' := by
  have hyear := hd.year_eq
  have hdays := hd.dayInYear_eq
  have hrange := clockDay_range (hyear ▸ h) (hyear ▸ h')
  have hlength : d.daysInYear = yearLength d.year := getYearDays_eq d.year
  obtain ⟨hlo, hhi⟩ := yearOf_spec (d.clockDay z)
  rw [← hyear] at hlo hhi
  have hsucc := yearStart_succ d.year
  have hyearLength : 0 < yearLength d.year ∧ yearLength d.year ≤ 366 := by
    unfold yearLength
    split_ifs <;> omega
  obtain ⟨d', hadd, hd', hclock, htime⟩ := addDays_eq (d := d)
    (n := d.daysInYear - d.dayInYear + 1) hz (by omega) (by omega) (by omega) (by omega)
  have hnext : d'.clockDay z = yearStart (d.year + 1) := by omega
  have hyear' : d'.year = d.year + 1 := by
    rw [hd'.year_eq, hnext]
    exact yearOf_eq le_rfl (yearStart_lt_succ _)
  have hjanuary := monthStart_january (d.year + 1)
  have hmonth : monthOf (d'.clockDay z) = 12 * (d.year + 1) := by
    have := (monthLength_bounds (12 * (d.year + 1))).1
    rw [hnext, ← hjanuary, ← add_zero (monthStart _), monthOf_add le_rfl (by omega)]
  refine ⟨d', hadd, hyear', ?_, ?_, hd.sameTime hd' htime⟩
  · have hindex := hd'.monthIndex_eq
    unfold monthIndex at hindex
    omega
  · rw [hd'.day_eq, dayOf, hmonth, hjanuary, hnext]
    ring

/-- The day of the year counts the days of the months before. -/
theorem Local.dayInYear_sum (hd : d.Local z) : ∃ length : ℕ → ℤ,
    (∀ k < (d.month - 1).toNat, getDaysInMonth d.year (k + 1) = .next (length k)) ∧
      d.dayInYear = d.day + ∑ k ∈ Finset.range (d.month - 1).toNat, length k := by
  have hmonth := hd.month_bounds
  refine ⟨fun k => monthLength (12 * d.year + k), ?_, ?_⟩
  · intro k hk
    exact getDaysInMonth_eq d.year (by omega)
  · have hindex : d.monthIndex = 12 * d.year + ((d.month - 1).toNat : ℤ) := by
      unfold monthIndex
      omega
    have hfirst := monthStart_add_dayOf (d.clockDay z)
    rw [← hd.monthIndex_eq, ← hd.day_eq, hindex, monthStart_add, monthStart_january] at hfirst
    rw [hd.dayInYear_eq]
    dsimp only
    omega

/-- The day of the week goes round with the days. -/
theorem Local.addDays_weekday (hd : d.Local z) (hz : z.Fixed) (h : 1970 ≤ d.year)
    (h' : d.year ≤ 9999) (hn : 1970 ≤ yearOf (d.clockDay z + n))
    (hn' : yearOf (d.clockDay z + n) ≤ 9999) : ∃ d', d.addDays z n = .next d' ∧
      d'.year = yearOf (d.clockDay z + n) ∧ d'.weekday = (d.weekday - 1 + n) % 7 + 1 := by
  have hyear := hd.year_eq
  have hrange := clockDay_range (hyear ▸ h) (hyear ▸ h')
  have hrange' := clockDay_range hn hn'
  obtain ⟨d', hadd, hd', hclock, -⟩ := addDays_eq (d := d) (n := n) hz (by omega) (by omega)
    (by omega) (by omega)
  refine ⟨d', hadd, by rw [hd'.year_eq, hclock], ?_⟩
  rw [hd'.weekday_eq, hd.weekday_eq, hclock]
  omega

/-- The calendar helpers agree with `addDays` in the years from 1970 to 9999. -/
theorem calendar_helpers_agree (z : Zone) (hz : z.Fixed) (d : Date) (hd : d.Local z)
    (h : 1970 ≤ d.year) (h' : d.year ≤ 9999) :
    (∃ length d', d.daysInMonth = .next length ∧
      d.addDays z (length - d.day + 1) = .next d' ∧
      12 * d'.year + d'.month = 12 * d.year + d.month + 1 ∧ d'.day = 1 ∧ d.SameTime d') ∧
    (∃ d', d.addDays z (d.daysInYear - d.dayInYear + 1) = .next d' ∧
      d'.year = d.year + 1 ∧ d'.month = 1 ∧ d'.day = 1 ∧ d.SameTime d') ∧
    (∃ length : ℕ → ℤ,
      (∀ k < (d.month - 1).toNat, getDaysInMonth d.year (k + 1) = .next (length k)) ∧
        d.dayInYear = d.day + ∑ k ∈ Finset.range (d.month - 1).toNat, length k) ∧
    ∀ n, 1970 ≤ yearOf (d.clockDay z + n) → yearOf (d.clockDay z + n) ≤ 9999 →
      ∃ d', d.addDays z n = .next d' ∧ d'.year = yearOf (d.clockDay z + n) ∧
        d'.weekday = (d.weekday - 1 + n) % 7 + 1 :=
  ⟨hd.addDays_month hz h h', hd.addDays_year hz h h', hd.dayInYear_sum,
    fun _ => hd.addDays_weekday hz h h'⟩

/-- 29 February 2000 was a Tuesday, and a hundred days earlier it was a Sunday. -/
theorem calendar_helpers_agree_leap : ∃ d',
    (ofTimestamp .utc ⟨951827696000000, by decide⟩).addDays .utc (-100) = .next d' ∧
      d'.year = 1999 ∧ d'.weekday = 7 := by
  obtain ⟨d', hadd, hyear, hweekday⟩ := (calendar_helpers_agree .utc (fun _ => rfl)
    (ofTimestamp .utc ⟨951827696000000, by decide⟩) (ofTimestamp_local _ _) (by decide +kernel)
    (by decide +kernel)).2.2.2 (-100) (by decide +kernel) (by decide +kernel)
  exact ⟨d', hadd, hyear.trans (by decide +kernel), hweekday.trans (by decide +kernel)⟩

end Potato.Date
