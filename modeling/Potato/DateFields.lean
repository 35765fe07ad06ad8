import Potato.Date

/-!
# Dates from the fields of dates

`addMonths` and `addYears` hand the fields of a date to `mktime`, with the month or the year moved.
A day that the target month does not have runs over into the next month; and since the constructor
leaves `tm_isdst` zero, the fields are always taken for standard time.
-/
namespace Potato.Date
open Machine Gregorian

variable {d d' : Date} {z : Zone} {n : ℤ}

/-- `d'` lies in the calendar month `n` months behind that of `d`, at the same time of day, and on
the same day if that month has it. -/
structure MonthsLater (d : Date) (n : ℤ) (d' : Date) : Prop where
  month : 12 * d'.year + d'.month = 12 * d.year + d.month + n
  hour : d'.hour = d.hour
  minute : d'.minute = d.minute
  second : d'.second = d.second
  day : d.day ≤ monthLength (d.monthIndex + n) → d'.day = d.day

/-- The day on which the fields fall when only their month moves. -/
theorem Local.moved (hd : d.Local z) (m : ℤ) :
    yearOf (monthStart m + d.day - 1) = m / 12 ∧
      (monthOf (monthStart m + d.day - 1) = m ↔ d.day ≤ monthLength m) := by
  have hday := hd.day_eq
  have hbounds := dayOf_bounds (d.clockDay z)
  have hlength := monthLength_bounds (monthOf (d.clockDay z))
  have hyear := month_in_year m
  refine ⟨yearOf_eq (by omega) (by omega), ?_⟩
  constructor
  · intro h
    have hlt := (monthOf_spec (monthStart m + d.day - 1)).2
    rw [h, monthStart_succ] at hlt
    omega
  · intro h
    have := monthOf_add (m := m) (n := d.day - 1) (by omega) (by omega)
    rwa [← add_sub_assoc] at this

/-- The fields of a date with another month, in a zone without daylight time: the day counts from
the first of that month, and the time of day stays. -/
theorem Local.ofFields_moved (hd : d.Local z) (hz : z.Fixed) {year month : ℤ}
    (hy : InInt (year - 1900)) (hm : InInt (month - 1))
    (hyear : InInt ((12 * year + month - 1) / 12 - 1900)) :
    ∃ d', ofFields z year month d.day d.hour d.minute d.second = .next d' ∧ d'.Local z ∧
      d'.clockDay z = monthStart (12 * year + month - 1) + d.day - 1 ∧
      z.clock d'.seconds % 86400 = z.clock d.seconds % 86400 := by
  obtain ⟨m, hm'⟩ : ∃ m, m = 12 * year + month - 1 := ⟨_, rfl⟩
  obtain ⟨t, ht⟩ : ∃ t, t = (monthStart (12 * year + month - 1) + d.day - 1) * 86400 +
      d.hour * 3600 + d.minute * 60 + d.second - z.standard := ⟨_, rfl⟩
  have htime := hd.time_eq
  have hclock : z.clock t =
      (monthStart m + d.day - 1) * 86400 + z.clock d.seconds % 86400 := by
    rw [hz.clock_eq t, ht, hm']
    omega
  have hday : z.clock t / 86400 = monthStart m + d.day - 1 := by omega
  have hrep : z.Representable t := by
    rw [Zone.Representable, hday, (hd.moved m).1, hm']
    exact hyear
  obtain ⟨d', hd', hlocal, hseconds⟩ := ofFields_eq hy hm (ht ▸ hrep)
  rw [← ht] at hseconds
  refine ⟨d', hd', hlocal, ?_, ?_⟩
  · rw [clockDay, hseconds, hday, hm']
  · rw [hseconds, hclock]
    omega

/-- Such a date lies in the target month if and only if that month has the day. -/
theorem Local.monthsLater_iff (hd : d.Local z) (hd' : d'.Local z)
    (hday : d'.clockDay z = monthStart (d.monthIndex + n) + d.day - 1)
    (htime : z.clock d'.seconds % 86400 = z.clock d.seconds % 86400) :
    d.MonthsLater n d' ↔ d.day ≤ monthLength (d.monthIndex + n) := by
  have hindex : d'.monthIndex = monthOf (monthStart (d.monthIndex + n) + d.day - 1) := by
    rw [hd'.monthIndex_eq, hday]
  have hmonth : 12 * d'.year + d'.month = 12 * d.year + d.month + n ↔
      d'.monthIndex = d.monthIndex + n := by
    unfold monthIndex
    omega
  rw [← (hd.moved (d.monthIndex + n)).2, ← hindex, ← hmonth]
  refine ⟨MonthsLater.month, fun h => ⟨h, ?_, ?_, ?_, ?_⟩⟩
  · rw [hd'.hour_eq, hd.hour_eq, htime]
  · rw [hd'.minute_eq, hd.minute_eq, htime]
  · rw [hd'.second_eq, hd.second_eq, htime]
  · intro _
    rw [hmonth] at h
    rw [hd'.day_eq, dayOf, ← hd'.monthIndex_eq, h, hday]
    ring

theorem Local.month_int (hd : d.Local z) : InInt d.month := by
  have := hd.month_bounds
  unfold InInt
  omega

theorem Local.addMonths_iff (hd : d.Local z) (hz : z.Fixed) (hn : InInt n)
    (hyear : InInt ((d.monthIndex + n) / 12 - 1900)) :
    (∃ d', d.addMonths z n = .next d' ∧ d.MonthsLater n d') ↔
      InInt d.year ∧ InInt (d.month + n) ∧ d.day ≤ monthLength (d.monthIndex + n) := by
  have hmonth := hd.month_bounds
  have hindex : 12 * d.year + (d.month + n) - 1 = d.monthIndex + n := by
    unfold monthIndex
    ring
  -- the months of an `int` leave room for the one that the constructor takes off
  have hbuilt (hm : InInt (d.month + n)) : ∃ d',
      ofFields z d.year (d.month + n) d.day d.hour d.minute d.second = .next d' ∧
        (d.MonthsLater n d' ↔ d.day ≤ monthLength (d.monthIndex + n)) := by
    have hm' : InInt (d.month + n - 1) := by
      unfold InInt at *
      omega
    obtain ⟨d', hd', hlocal, hday, htime⟩ :=
      hd.ofFields_moved hz hd.tmYear_int hm' (by rwa [hindex])
    rw [hindex] at hday
    exact ⟨d', hd', hd.monthsLater_iff hlocal hday htime⟩
  constructor
  · rintro ⟨d', hadd, hlater⟩
    simp only [addMonths, Outcome.bind_eq_next, int_eq_next] at hadd
    obtain ⟨_, ⟨hy, rfl⟩, _, ⟨-, rfl⟩, _, ⟨hm, rfl⟩, hadd⟩ := hadd
    obtain ⟨d₁, hd₁, hiff⟩ := hbuilt hm
    obtain rfl : d₁ = d' := Outcome.next.inj (hd₁.symm.trans hadd)
    exact ⟨hy, hm, hiff.mp hlater⟩
  · rintro ⟨hy, hm, hfits⟩
    obtain ⟨d', hd', hiff⟩ := hbuilt hm
    refine ⟨d', ?_, hiff.mpr hfits⟩
    simp only [addMonths, int_eq hy, int_eq hd.month_int, int_eq hm, Outcome.next_bind, hd']

theorem Local.addYears_iff (hd : d.Local z) (hz : z.Fixed) {k : ℤ}
    (hyear : InInt ((d.monthIndex + 12 * k) / 12 - 1900)) :
    (∃ d', d.addYears z k = .next d' ∧ d.MonthsLater (12 * k) d') ↔
      InInt d.year ∧ InInt (d.year + k) ∧ d.day ≤ monthLength (d.monthIndex + 12 * k) := by
  have hmonth := hd.month_bounds
  have hindex : 12 * (d.year + k) + d.month - 1 = d.monthIndex + 12 * k := by
    unfold monthIndex
    ring
  have hyear' : InInt (d.year + k - 1900) := by
    have hdiv : (d.monthIndex + 12 * k) / 12 = d.year + k := by
      unfold monthIndex
      omega
    rwa [hdiv] at hyear
  have hm : InInt (d.month - 1) := by
    unfold InInt
    omega
  obtain ⟨d₁, hd₁, hlocal, hday, htime⟩ := hd.ofFields_moved hz hyear' hm (by rwa [hindex])
  rw [hindex] at hday
  have hiff := hd.monthsLater_iff hlocal hday htime
  constructor
  · rintro ⟨d', hadd, hlater⟩
    simp only [addYears, Outcome.bind_eq_next, int_eq_next] at hadd
    obtain ⟨_, ⟨hy, rfl⟩, _, ⟨hy', rfl⟩, _, ⟨-, rfl⟩, hadd⟩ := hadd
    obtain rfl : d₁ = d' := Outcome.next.inj (hd₁.symm.trans hadd)
    exact ⟨hy, hy', hiff.mp hlater⟩
  · rintro ⟨hy, hy', hfits⟩
    refine ⟨d₁, ?_, hiff.mpr hfits⟩
    simp only [addYears, int_eq hy, int_eq hy', int_eq hd.month_int, Outcome.next_bind, hd₁]

/-- `addMonths` and `addYears` move by whole calendar months if and only if the target month has
the day of the date, and no sum on the way overflows. -/
theorem addMonths_addYears_iff (z : Zone) (hz : z.Fixed) (d : Date) (hd : d.Local z) :
    (∀ n, InInt n → InInt ((d.monthIndex + n) / 12 - 1900) →
      ((∃ d', d.addMonths z n = .next d' ∧ d.MonthsLater n d') ↔
        InInt d.year ∧ InInt (d.month + n) ∧ d.day ≤ monthLength (d.monthIndex + n))) ∧
    ∀ k, InInt k → InInt ((d.monthIndex + 12 * k) / 12 - 1900) →
      ((∃ d', d.addYears z k = .next d' ∧ d.MonthsLater (12 * k) d') ↔
        InInt d.year ∧ InInt (d.year + k) ∧ d.day ≤ monthLength (d.monthIndex + 12 * k)) :=
  ⟨fun _ hn hyear => hd.addMonths_iff hz hn hyear, fun _ _ hyear => hd.addYears_iff hz hyear⟩

/-- 31 January 2000, and 29 February 2000, at 12:34:56. -/
def lastOfJanuary : Date := ofTimestamp .utc ⟨949322096000000, by decide⟩

def leapDay : Date := ofTimestamp .utc ⟨951827696000000, by decide⟩

/-- Two months and eight years later both days exist. -/
theorem addMonths_addYears_iff_exists :
    (∃ d', lastOfJanuary.addMonths .utc 2 = .next d' ∧ lastOfJanuary.MonthsLater 2 d') ∧
      ∃ d', leapDay.addYears .utc 8 = .next d' ∧ leapDay.MonthsLater (12 * 8) d' :=
  ⟨((addMonths_addYears_iff .utc (fun _ => rfl) lastOfJanuary (ofTimestamp_local _ _)).1 2
      (by decide) (by decide +kernel)).mpr (by decide +kernel),
    ((addMonths_addYears_iff .utc (fun _ => rfl) leapDay (ofTimestamp_local _ _)).2 8
      (by decide) (by decide +kernel)).mpr (by decide +kernel)⟩

/-- One month behind 31 January is 2 March, and one year behind 29 February is 1 March. -/
theorem addMonths_runs_over :
    (¬ ∃ d', lastOfJanuary.addMonths .utc 1 = .next d' ∧ lastOfJanuary.MonthsLater 1 d') ∧
      ¬ ∃ d', leapDay.addYears .utc 1 = .next d' ∧ leapDay.MonthsLater 12 d' := by
  constructor
  · rintro ⟨d', hadd, hlater⟩
    have hbuilt : lastOfJanuary.addMonths .utc 1 = .next
        ⟨952000496, { sec := 56, min := 34, hour := 12, mday := 2, mon := 2, year := 100, wday := 4
                      yday := 61 }⟩ := by
      decide +kernel
    obtain rfl := Outcome.next.inj (hbuilt.symm.trans hadd)
    exact absurd hlater.month (by decide +kernel)
  · rintro ⟨d', hadd, hlater⟩
    have hbuilt : leapDay.addYears .utc 1 = .next
        ⟨983450096, { sec := 56, min := 34, hour := 12, mday := 1, mon := 2, year := 101, wday := 4
                      yday := 59 }⟩ := by
      decide +kernel
    obtain rfl := Outcome.next.inj (hbuilt.symm.trans hadd)
    exact absurd hlater.month (by decide +kernel)

/-- The date that its own fields give back, and the one that no month or year later is, are the
date. -/
structure Rebuilds (z : Zone) (d : Date) : Prop where
  fields : ∃ d', ofFields z d.year d.month d.day d.hour d.minute d.second = .next d' ∧
    d'.equal d = .next true
  months : ∃ d', d.addMonths z 0 = .next d' ∧ d'.equal d = .next true
  years : ∃ d', d.addYears z 0 = .next d' ∧ d'.equal d = .next true

/-- No other instant has the same local time. -/
def Unambiguous (z : Zone) (d : Date) : Prop := ∀ t, z.clock t = z.clock d.seconds → t = d.seconds

/-- The instant for which the fields of a date are taken. -/
theorem Local.ofFields_own (hd : d.Local z) (h : InInt64 (d.seconds * 1000000)) :
    ∃ d', ofFields z d.year d.month d.day d.hour d.minute d.second = .next d' ∧
      d'.seconds = if z.daylight d.seconds then d.seconds + z.saving else d.seconds := by
  have hm := hd.month_bounds
  have hsav := z.saving_int
  have hpos := z.saving_pos
  have hindex : 12 * (d.tm.year + 1900) + d.tm.mon = 12 * d.year + d.month - 1 := by
    unfold year month
    ring
  have hlocal := hd.toLocal_eq
  rw [Tm.toLocal, hindex] at hlocal
  have hseconds : (monthStart (12 * d.year + d.month - 1) + d.day - 1) * 86400 + d.hour * 3600 +
      d.minute * 60 + d.second - z.standard =
      if z.daylight d.seconds then d.seconds + z.saving else d.seconds := by
    change (monthStart (12 * d.year + d.month - 1) + d.tm.mday - 1) * 86400 + d.tm.hour * 3600 +
      d.tm.min * 60 + d.tm.sec - z.standard = _
    rw [hlocal, Zone.clock, Zone.offset]
    split_ifs <;> ring
  have hrep : z.Representable
      (if z.daylight d.seconds then d.seconds + z.saving else d.seconds) := by
    unfold InInt64 at h
    unfold InInt at hsav
    apply Zone.representable_of_bounds <;> split_ifs <;> omega
  rw [← hseconds] at hrep
  have hmonth : InInt (d.month - 1) := by
    unfold InInt
    omega
  obtain ⟨d', hd', -, hs⟩ := ofFields_eq hd.tmYear_int hmonth hrep
  exact ⟨d', hd', hs.trans hseconds⟩

/-- A date is rebuilt from its own fields if and only if standard time is in force at it, as far as
its microseconds fit into a `Timestamp`, which `operator==` needs. -/
theorem rebuilds_iff (z : Zone) (d : Date) (hd : d.Local z) :
    Rebuilds z d ↔ z.daylight d.seconds = false ∧ InInt64 (d.seconds * 1000000) := by
  constructor
  · rintro ⟨⟨d', hfields, hequal⟩, -, -⟩
    obtain ⟨hseconds, hint⟩ := equal_eq_true.mp hequal
    refine ⟨?_, hint⟩
    obtain ⟨d₁, hd₁, hs⟩ := hd.ofFields_own hint
    obtain rfl : d₁ = d' := Outcome.next.inj (hd₁.symm.trans hfields)
    by_contra hdst
    rw [Bool.not_eq_false] at hdst
    rw [if_pos hdst] at hs
    have := z.saving_pos
    omega
  · rintro ⟨hdst, hint⟩
    obtain ⟨d', hd', hs⟩ := hd.ofFields_own hint
    rw [hdst, if_neg Bool.false_ne_true] at hs
    have hequal : d'.equal d = .next true := equal_eq_true.mpr ⟨hs, hint⟩
    have hyear : InInt d.year := by
      unfold InInt64 at hint
      have := Zone.year_bounds (z := z) (t := d.seconds) (by omega) (by omega)
      rw [hd.year_eq, clockDay]
      unfold InInt
      omega
    refine ⟨⟨d', hd', hequal⟩, ⟨d', ?_, hequal⟩, d', ?_, hequal⟩
    · simp only [addMonths, int_eq hyear, int_eq hd.month_int, Outcome.next_bind, add_zero, hd']
    · simp only [addYears, int_eq hyear, int_eq hd.month_int, Outcome.next_bind, add_zero, hd']

/-- One hour of daylight time in the summer half of 2024, in a zone one hour ahead. -/
def summerTime : Zone :=
  { Zone.utc with
    standard := 3600
    daylight := fun t => 1711846800 ≤ t && t < 1729994400
    standard_int := Zone.utc.saving_int }

/-- In January the fields of a date give the date back. -/
theorem rebuilds_iff_winter :
    Rebuilds summerTime (ofTimestamp summerTime ⟨1705000000000000, by decide⟩) :=
  (rebuilds_iff summerTime _ (ofTimestamp_local _ _)).mpr (by decide +kernel)

/-- 3 July 2024. -/
def summerDay : Date := ofTimestamp summerTime ⟨1720000000000000, by decide⟩

/-- In July they give the date one hour later, though no other instant has the same local time. -/
theorem rebuild_in_summer : summerDay.Local summerTime ∧ summerDay.Unambiguous summerTime ∧
    ¬ Rebuilds summerTime summerDay := by
  refine ⟨ofTimestamp_local _ _, ?_, ?_⟩
  · intro t ht
    have hnow : summerTime.clock summerDay.seconds = 1720007200 := by decide +kernel
    change t = 1720000000
    rw [hnow, Zone.clock, Zone.offset] at ht
    split_ifs at ht with hdst
    · change t + (3600 + 3600) = 1720007200 at ht
      omega
    · change t + 3600 = 1720007200 at ht
      obtain rfl : t = 1720003600 := by omega
      exact absurd rfl hdst
  · rintro ⟨⟨d', hfields, hequal⟩, -, -⟩
    have hbuilt : ofFields summerTime summerDay.year summerDay.month summerDay.day summerDay.hour
        summerDay.minute summerDay.second = .next ⟨1720003600,
          { sec := 40, min := 46, hour := 12, mday := 3, mon := 6, year := 124, wday := 3
            yday := 184, isdst := 1 }⟩ := by
      decide +kernel
    obtain rfl := Outcome.next.inj (hbuilt.symm.trans hfields)
    exact absurd (equal_eq_true.mp hequal).1 (by decide +kernel)

end Potato.Date
