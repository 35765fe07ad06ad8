import Potato.LocalTime

/-!
# Dates

A `Date` holds an instant and its local time. It is built from an instant by `localtime_r`, or from
fields by `mktime`; the shifts go one way or the other.
-/
namespace Potato
open Machine Gregorian

structure Date where
  seconds : ℤ
  tm : Tm
  deriving DecidableEq, Repr

namespace Date

/-- `LOCAL_TIME`, which leaves the fields zero when `localtime_r` fails. -/
def localTime (z : Zone) (seconds : ℤ) : Tm := (z.localtime seconds).getD {}

/-- The constructor from a timestamp. An invalid one is only logged. -/
def ofTimestamp (z : Zone) (t : Timestamp) : Date := ⟨t.toSeconds, localTime z t.toSeconds⟩

/-- The constructor from fields. A negative result of `mktime` is only logged. -/
def ofFields (z : Zone) (year month day hour minute second : ℤ) : Outcome Fault Date := do
  let tmYear ← int (year - 1900)
  let tmMon ← int (month - 1)
  let (seconds, tm) := z.mktime
    { year := tmYear, mon := tmMon, mday := day, hour := hour, min := minute, sec := second }
  return ⟨seconds, tm⟩

variable (d : Date)

/-- `year()`, whose sum is checked where it is used. -/
def year : ℤ := d.tm.year + 1900

def month : ℤ := d.tm.mon + 1

def day : ℤ := d.tm.mday

def hour : ℤ := d.tm.hour

def minute : ℤ := d.tm.min

def second : ℤ := d.tm.sec

def weekday : ℤ := if d.tm.wday = 0 then 7 else d.tm.wday

def dayInYear : ℤ := d.tm.yday + 1

/-- `Date::isLeapYear(int)`, with the remainders of the language. -/
def isLeapYear (year : ℤ) : Bool :=
  (year.tmod 4 == 0 && year.tmod 100 != 0) || year.tmod 400 == 0

def getYearDays (year : ℤ) : ℤ := if isLeapYear year then 366 else 365

def getDaysInMonth (year month : ℤ) : Outcome Fault ℤ := do
  Outcome.check (1 ≤ month ∧ month ≤ 12) .assertion
  if month = 2 ∧ isLeapYear year = true then return 29
  else
    Outcome.deref [31, 28, 31, 30, 31, 30, 31, 31, 30, 31, 30, 31][(month - 1).toNat]? .outOfRange

def daysInMonth : Outcome Fault ℤ := getDaysInMonth d.year d.month

def daysInYear : ℤ := getYearDays d.year

def toSeconds : ℤ := d.seconds

def toTimestamp : Outcome Fault Timestamp := Timestamp.parseFromSeconds d.toSeconds

def addHours (z : Zone) (hours : ℤ) : Outcome Fault Date := do
  let t ← d.toTimestamp
  let t ← t.addHour hours
  return ofTimestamp z t

def addMinutes (z : Zone) (minutes : ℤ) : Outcome Fault Date := do
  let t ← d.toTimestamp
  let t ← t.addMinutes minutes
  return ofTimestamp z t

def addSeconds (z : Zone) (seconds : ℤ) : Outcome Fault Date := do
  let t ← d.toTimestamp
  let t ← t.addSeconds seconds
  return ofTimestamp z t

def addDays (z : Zone) (days : ℤ) : Outcome Fault Date := do
  let t ← d.toTimestamp
  let t ← t.addDay days
  return ofTimestamp z t

def addMonths (z : Zone) (months : ℤ) : Outcome Fault Date := do
  let year ← int d.year
  let month ← int d.month
  let month ← int (month + months)
  ofFields z year month d.day d.hour d.minute d.second

def addYears (z : Zone) (years : ℤ) : Outcome Fault Date := do
  let year ← int d.year
  let year ← int (year + years)
  let month ← int d.month
  ofFields z year month d.day d.hour d.minute d.second

/-- The cast of the result to `int` wraps. -/
def dayDistance (other : Date) : Outcome Fault ℤ := do
  let x ← int64 (d.seconds - other.seconds)
  let secondsDistance ← int64 |x|
  return (secondsDistance.tdiv (24 * 60 * 60)).bmod (2 ^ 32)

/-- `operator==` -/
def equal (lhs rhs : Date) : Outcome Fault Bool := do
  let a ← lhs.toTimestamp
  let b ← rhs.toTimestamp
  return a == b

/-- The fields are the local time of the instant. -/
def Local (z : Zone) : Prop := z.localtime d.seconds = some d.tm

/-- The month of the fields, counted from year 0 on. -/
def monthIndex : ℤ := 12 * d.year + d.month - 1

variable {d} {z : Zone}

/-- The day on the clocks. -/
def clockDay (d : Date) (z : Zone) : ℤ := z.clock d.seconds / 86400

theorem Local.tm_eq (h : d.Local z) :
    d.tm = .ofLocal (z.clock d.seconds) (if z.daylight d.seconds then 1 else 0) :=
  (Zone.localtime_eq_some.mp h).2

theorem Local.representable (h : d.Local z) : z.Representable d.seconds :=
  (Zone.localtime_eq_some.mp h).1

theorem Local.toLocal_eq (h : d.Local z) : d.tm.toLocal = z.clock d.seconds := by
  rw [h.tm_eq, Tm.toLocal_ofLocal]

theorem Local.year_eq (h : d.Local z) : d.year = yearOf (d.clockDay z) := by
  rw [year, h.tm_eq]
  exact sub_add_cancel _ _

theorem Local.monthIndex_eq (h : d.Local z) : d.monthIndex = monthOf (d.clockDay z) := by
  rw [monthIndex, h.year_eq, month, h.tm_eq]
  change 12 * yearOf (d.clockDay z) +
    (monthOf (d.clockDay z) - 12 * yearOf (d.clockDay z) + 1) - 1 = _
  ring

theorem Local.day_eq (h : d.Local z) : d.day = dayOf (d.clockDay z) := by
  rw [day, h.tm_eq]
  rfl

theorem Local.month_bounds (h : d.Local z) : 1 ≤ d.month ∧ d.month ≤ 12 := by
  have hindex := h.monthIndex_eq
  have hyear := h.year_eq
  have hdiv := monthOf_div (d.clockDay z)
  unfold monthIndex at hindex
  omega

theorem Local.tmYear_int (h : d.Local z) : InInt (d.year - 1900) := by
  rw [h.year_eq]
  exact h.representable

theorem Local.hour_eq (h : d.Local z) : d.hour = z.clock d.seconds % 86400 / 3600 := by
  rw [hour, h.tm_eq]
  rfl

theorem Local.minute_eq (h : d.Local z) : d.minute = z.clock d.seconds % 86400 / 60 % 60 := by
  rw [minute, h.tm_eq]
  rfl

theorem Local.second_eq (h : d.Local z) : d.second = z.clock d.seconds % 86400 % 60 := by
  rw [second, h.tm_eq]
  rfl

/-- The time of day is what the clocks show behind the days. -/
theorem Local.time_eq (h : d.Local z) :
    d.hour * 3600 + d.minute * 60 + d.second = z.clock d.seconds % 86400 := by
  rw [h.hour_eq, h.minute_eq, h.second_eq]
  omega

theorem ofTimestamp_local (z : Zone) (t : Timestamp) : (ofTimestamp z t).Local z := by
  have hbounds := t.toSeconds_bounds
  have hrep : z.Representable t.toSeconds :=
    Zone.representable_of_bounds (by omega) (by omega)
  have hsome := Zone.localtime_eq_some.mpr ⟨hrep, rfl⟩
  rw [Local, ofTimestamp, localTime, hsome]
  rfl

/-- A date whose microseconds a `Timestamp` holds. -/
theorem toTimestamp_eq (h : InInt64 (d.seconds * 1000000)) :
    d.toTimestamp = .next ⟨d.seconds * 1000000, h⟩ := Timestamp.make_eq h

theorem toTimestamp_eq_next {t : Timestamp} :
    d.toTimestamp = .next t ↔ t.timestamp = d.seconds * 1000000 := Timestamp.make_eq_next

/-- Two dates are equal when they are the same instant and a `Timestamp` holds it. -/
theorem equal_eq_true {d' : Date} :
    d'.equal d = .next true ↔ d'.seconds = d.seconds ∧ InInt64 (d.seconds * 1000000) := by
  simp only [equal, Outcome.bind_eq_next, toTimestamp_eq_next, Outcome.pure_eq, Outcome.next.injEq,
    beq_iff_eq]
  constructor
  · rintro ⟨a, ha, b, hb, rfl⟩
    exact ⟨by omega, hb ▸ a.inInt64⟩
  · rintro ⟨hs, h⟩
    exact ⟨⟨_, h⟩, by rw [hs], ⟨_, h⟩, rfl, rfl⟩

/-- The date `k` seconds behind. -/
def later (d : Date) (z : Zone) (k : ℤ) : Date := ⟨d.seconds + k, localTime z (d.seconds + k)⟩

/-- A shift by `k` seconds succeeds when a `Timestamp` holds their microseconds and the result. -/
theorem shift_eq_next {add : Timestamp → Outcome Fault Timestamp} {k : ℤ} {d' : Date}
    (hadd : Timestamp.Adds add k) (h : InInt64 (d.seconds * 1000000)) :
    (d.toTimestamp >>= fun t => add t >>= fun t => pure (ofTimestamp z t)) = .next d' ↔
      InInt64 (k * 1000000) ∧ InInt64 ((d.seconds + k) * 1000000) ∧ d' = d.later z k := by
  have hsum : d.seconds * 1000000 + k * 1000000 = (d.seconds + k) * 1000000 := by ring
  have hlater {t : Timestamp} (ht : t.timestamp = (d.seconds + k) * 1000000) :
      ofTimestamp z t = d.later z k := by
    rw [ofTimestamp, Timestamp.toSeconds_eq ht]
    rfl
  rw [toTimestamp_eq h, Outcome.next_bind]
  simp only [Outcome.bind_eq_next, hadd _ _, Outcome.pure_eq, Outcome.next.injEq]
  constructor
  · rintro ⟨t, ⟨hk, ht⟩, rfl⟩
    replace ht : t.timestamp = (d.seconds + k) * 1000000 := ht.trans hsum
    exact ⟨hk, ht ▸ t.inInt64, hlater ht⟩
  · rintro ⟨hk, hto, rfl⟩
    exact ⟨⟨_, hto⟩, ⟨hk, hsum.symm⟩, hlater rfl⟩

/-- What the constructor from fields builds while the result is representable: the fields are
taken for standard time. -/
theorem ofFields_eq {year month day hour minute second : ℤ} (hy : InInt (year - 1900))
    (hm : InInt (month - 1))
    (hrep : z.Representable ((monthStart (12 * year + month - 1) + day - 1) * 86400 +
      hour * 3600 + minute * 60 + second - z.standard)) :
    ∃ d, ofFields z year month day hour minute second = .next d ∧ d.Local z ∧
      d.seconds = (monthStart (12 * year + month - 1) + day - 1) * 86400 + hour * 3600 +
        minute * 60 + second - z.standard := by
  obtain ⟨tm, htm⟩ : ∃ tm : Tm, tm =
    { year := year - 1900, mon := month - 1, mday := day, hour := hour, min := minute,
      sec := second } := ⟨_, rfl⟩
  have hlocal : z.instant tm = (monthStart (12 * year + month - 1) + day - 1) * 86400 +
      hour * 3600 + minute * 60 + second - z.standard := by
    have hindex : 12 * (year - 1900 + 1900) + (month - 1) = 12 * year + month - 1 := by ring
    rw [Zone.instant_standard (by rw [htm]), htm]
    simp only [Tm.toLocal, hindex]
  rw [← hlocal] at hrep ⊢
  refine ⟨⟨z.instant tm, .ofLocal (z.clock (z.instant tm))
    (if z.daylight (z.instant tm) then 1 else 0)⟩, ?_,
    Zone.localtime_eq_some.mpr ⟨hrep, rfl⟩, rfl⟩
  simp only [ofFields, int_eq hy, int_eq hm, Outcome.next_bind, Outcome.pure_eq, ← htm,
    Zone.mktime_eq hrep]

end Date
end Potato
