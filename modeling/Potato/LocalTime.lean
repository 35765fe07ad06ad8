import Potato.Gregorian
import Potato.Timestamp

/-!
# Local time

`localtime_r` and `mktime` of the C library over the Gregorian calendar, for a zone with a standard
offset and any set of instants at which daylight time is in force.
-/
namespace Potato
open Gregorian

/-- `struct tm`. -/
structure Tm where
  sec : ℤ := 0
  min : ℤ := 0
  hour : ℤ := 0
  mday : ℤ := 0
  mon : ℤ := 0
  year : ℤ := 0
  wday : ℤ := 0
  yday : ℤ := 0
  isdst : ℤ := 0
  deriving DecidableEq, Repr

namespace Tm

/-- The fields at `l` seconds of a clock that shows 1 January 1970 at 0. -/
def ofLocal (l : ℤ) (isdst : ℤ) : Tm where
  sec := l % 86400 % 60
  min := l % 86400 / 60 % 60
  hour := l % 86400 / 3600
  mday := dayOf (l / 86400)
  mon := monthOf (l / 86400) - 12 * yearOf (l / 86400)
  year := yearOf (l / 86400) - 1900
  wday := weekday (l / 86400)
  yday := dayOfYear (l / 86400)
  isdst := isdst

/-- The seconds of that clock for fields inside or outside of their ranges. -/
def toLocal (tm : Tm) : ℤ :=
  (monthStart (12 * (tm.year + 1900) + tm.mon) + tm.mday - 1) * 86400 + tm.hour * 3600 +
    tm.min * 60 + tm.sec

theorem toLocal_ofLocal (l isdst : ℤ) : (ofLocal l isdst).toLocal = l := by
  have hmonth : 12 * (yearOf (l / 86400) - 1900 + 1900) +
      (monthOf (l / 86400) - 12 * yearOf (l / 86400)) = monthOf (l / 86400) := by ring
  have hday := monthStart_add_dayOf (l / 86400)
  simp only [toLocal, ofLocal, hmonth, hday]
  omega

end Tm

/-- A time zone. `daylight` tells when daylight time is in force; offsets have 32 bits. -/
structure Zone where
  standard : ℤ
  saving : ℤ
  daylight : ℤ → Bool
  standard_int : InInt standard
  saving_pos : 0 < saving
  saving_int : InInt saving

namespace Zone

def utc : Zone where
  standard := 0
  saving := 3600
  daylight := fun _ => false
  standard_int := by decide
  saving_pos := by decide
  saving_int := by decide

/-- The offset is the same at all times. -/
def Fixed (z : Zone) : Prop := ∀ t, z.daylight t = false

def offset (z : Zone) (t : ℤ) : ℤ := if z.daylight t then z.standard + z.saving else z.standard

/-- What the clocks show at the instant `t`. -/
def clock (z : Zone) (t : ℤ) : ℤ := t + z.offset t

/-- The year of what the clocks show fits into `tm_year`. -/
def Representable (z : Zone) (t : ℤ) : Prop := InInt (yearOf (z.clock t / 86400) - 1900)

instance (z : Zone) (t : ℤ) : Decidable (z.Representable t) :=
  inferInstanceAs (Decidable (InInt _))

/-- `localtime_r`, which fails when the year does not fit. -/
def localtime (z : Zone) (t : ℤ) : Option Tm :=
  if z.Representable t then some (.ofLocal (z.clock t) (if z.daylight t then 1 else 0)) else none

/-- The instant that `mktime` takes the fields for. -/
def instant (z : Zone) (tm : Tm) : ℤ :=
  if 0 < tm.isdst then tm.toLocal - (z.standard + z.saving)
  else if tm.isdst = 0 then tm.toLocal - z.standard
  else if z.daylight (tm.toLocal - (z.standard + z.saving)) then
    tm.toLocal - (z.standard + z.saving)
  else tm.toLocal - z.standard

/-- `mktime`: what it returns, and the fields behind it. -/
def mktime (z : Zone) (tm : Tm) : ℤ × Tm :=
  match z.localtime (z.instant tm) with
  | some tm' => (z.instant tm, tm')
  | none => (-1, tm)

variable {z : Zone} {t : ℤ} {tm : Tm}

theorem Fixed.clock_eq (hz : z.Fixed) (t : ℤ) : z.clock t = t + z.standard := by
  rw [clock, offset, hz t, if_neg Bool.false_ne_true]

theorem offset_bounds (z : Zone) (t : ℤ) : -2 ^ 31 ≤ z.offset t ∧ z.offset t < 2 ^ 32 := by
  have hstd := z.standard_int
  have hsav := z.saving_int
  have := z.saving_pos
  unfold InInt at hstd hsav
  unfold offset
  split_ifs <;> omega

@[simp] theorem localtime_eq_some : z.localtime t = some tm ↔ z.Representable t ∧
    tm = .ofLocal (z.clock t) (if z.daylight t then 1 else 0) := by
  by_cases h : z.Representable t
  · rw [localtime, if_pos h, Option.some.injEq, eq_comm]
    exact (and_iff_right h).symm
  · rw [localtime, if_neg h]
    exact iff_of_false (fun h => nomatch h) (fun hsome => h hsome.1)

theorem mktime_eq (h : z.Representable (z.instant tm)) :
    z.mktime tm = (z.instant tm, .ofLocal (z.clock (z.instant tm))
      (if z.daylight (z.instant tm) then 1 else 0)) := by
  rw [mktime, localtime_eq_some.mpr ⟨h, rfl⟩]

/-- Fields whose `tm_isdst` is zero are standard time. -/
theorem instant_standard (h : tm.isdst = 0) : z.instant tm = tm.toLocal - z.standard := by
  rw [instant, h, if_neg (lt_irrefl 0), if_pos rfl]

/-- The clocks show years of at most seven digits around the instants that have a `Timestamp`. -/
theorem year_bounds (h : -10 ^ 14 ≤ t) (h' : t ≤ 10 ^ 14) :
    -4000000 ≤ yearOf (z.clock t / 86400) ∧ yearOf (z.clock t / 86400) < 4000000 := by
  have hoff := z.offset_bounds t
  rw [le_yearOf_iff, ← not_le, le_yearOf_iff]
  have hlo : yearStart (-4000000) ≤ -1460000000 := by decide
  have hhi : 1460000000 ≤ yearStart 4000000 := by decide
  unfold clock
  omega

theorem representable_of_bounds (h : -10 ^ 14 ≤ t) (h' : t ≤ 10 ^ 14) : z.Representable t := by
  have := year_bounds (z := z) h h'
  unfold Representable InInt
  omega

end Zone
end Potato
