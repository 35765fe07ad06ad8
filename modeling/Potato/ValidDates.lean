import Potato.CalendarHelpers
import Potato.TextOrder

/-!
# The fields of a date

Fields name a date when the months and days are those of the calendar. The constructor keeps such
fields and changes all others, and the text of the date is that of its fields.
-/
namespace Potato
open Machine Gregorian Decimal

/-- What a date is built from, and what it gives back. -/
structure Fields where
  year : ℤ
  month : ℤ
  day : ℤ
  hour : ℤ
  minute : ℤ
  second : ℤ
  deriving DecidableEq, Repr

namespace Fields

/-- A day of the calendar and a time of the day. -/
structure Valid (f : Fields) : Prop where
  month : 1 ≤ f.month ∧ f.month ≤ 12
  day : ∃ length, Date.getDaysInMonth f.year f.month = .next length ∧ 1 ≤ f.day ∧ f.day ≤ length
  hour : 0 ≤ f.hour ∧ f.hour ≤ 23
  minute : 0 ≤ f.minute ∧ f.minute ≤ 59
  second : 0 ≤ f.second ∧ f.second ≤ 59

/-- The constructor from fields. -/
def build (f : Fields) (z : Zone) : Outcome Fault Date :=
  Date.ofFields z f.year f.month f.day f.hour f.minute f.second

/-- The text of a year of four digits and what follows it. -/
def text (f : Fields) : List Char :=
  pad 4 f.year.toNat ++ field '-' 2 f.month.toNat ++ field '-' 2 f.day.toNat ++
    field ' ' 2 f.hour.toNat ++ field ':' 2 f.minute.toNat ++ field ':' 2 f.second.toNat

/-- The clocks at the fields. -/
def clock (f : Fields) : ℤ :=
  (monthStart (12 * f.year + f.month - 1) + f.day - 1) * 86400 + f.hour * 3600 + f.minute * 60 +
    f.second

variable {f : Fields} {z : Zone}

/-- The day and the time of valid fields. -/
structure Shows (f : Fields) (l : ℤ) : Prop where
  month : monthOf (l / 86400) = 12 * f.year + f.month - 1
  day : dayOf (l / 86400) = f.day
  hour : l % 86400 / 3600 = f.hour
  minute : l % 86400 / 60 % 60 = f.minute
  second : l % 86400 % 60 = f.second

theorem Valid.monthLength (h : f.Valid) :
    1 ≤ f.day ∧ f.day ≤ monthLength (12 * f.year + f.month - 1) := by
  obtain ⟨length, hlength, hday⟩ := h.day
  have hmonth := h.month
  obtain ⟨k, hk⟩ : ∃ k : ℕ, f.month = k + 1 := ⟨(f.month - 1).toNat, by omega⟩
  have hindex : 12 * f.year + f.month - 1 = 12 * f.year + k := by omega
  rw [hk, Date.getDaysInMonth_eq f.year (by omega), Outcome.next.injEq] at hlength
  rw [hindex, hlength]
  exact hday

theorem Valid.shows (h : f.Valid) : f.Shows f.clock := by
  have hday := h.monthLength
  have hhour := h.hour
  have hminute := h.minute
  have hsecond := h.second
  have hdays : f.clock / 86400 = monthStart (12 * f.year + f.month - 1) + (f.day - 1) := by
    unfold clock
    omega
  have hmonth : monthOf (f.clock / 86400) = 12 * f.year + f.month - 1 := by
    rw [hdays]
    exact monthOf_add (by omega) (by omega)
  refine ⟨hmonth, ?_, ?_, ?_, ?_⟩
  · rw [dayOf, hmonth, hdays]
    ring
  all_goals
    unfold clock
    omega

end Fields

namespace Date
variable {d d' : Date} {z : Zone} {f : Fields}

def fields (d : Date) : Fields := ⟨d.year, d.month, d.day, d.hour, d.minute, d.second⟩

theorem Local.clock_fields (hd : d.Local z) : d.fields.clock = z.clock d.seconds := by
  have hmonth : 12 * d.fields.year + d.fields.month - 1 = d.monthIndex := rfl
  have hday := monthStart_add_dayOf (d.clockDay z)
  have htime := hd.time_eq
  rw [Fields.clock, hmonth, hd.monthIndex_eq]
  change (monthStart (monthOf (d.clockDay z)) + d.day - 1) * 86400 + d.hour * 3600 +
    d.minute * 60 + d.second = _
  rw [hd.day_eq, hday, clockDay]
  omega

theorem Local.valid_fields (hd : d.Local z) : d.fields.Valid where
  month := hd.month_bounds
  day := by
    have hday := dayOf_bounds (d.clockDay z)
    rw [← hd.day_eq] at hday
    exact ⟨_, hd.daysInMonth_eq, hday⟩
  hour := by
    have hpart := (Timestamp.clock_parts (z.clock d.seconds)).2.2.1
    rw [← hd.hour_eq] at hpart
    exact ⟨hpart.1, by change d.hour ≤ 23; omega⟩
  minute := by
    have hpart := (Timestamp.clock_parts (z.clock d.seconds)).2.2.2.1
    rw [← hd.minute_eq] at hpart
    exact ⟨hpart.1, by change d.minute ≤ 59; omega⟩
  second := by
    have hpart := (Timestamp.clock_parts (z.clock d.seconds)).2.2.2.2
    rw [← hd.second_eq] at hpart
    exact ⟨hpart.1, by change d.second ≤ 59; omega⟩

/-- A date that shows valid fields has them. -/
theorem Local.fields_eq (hd : d.Local z) (h : f.Shows (z.clock d.seconds)) (hm : 1 ≤ f.month)
    (hm' : f.month ≤ 12) : d.fields = f := by
  have hindex := hd.monthIndex_eq
  have hmonth := hd.month_bounds
  have hshown := h.month
  change monthOf (d.clockDay z) = _ at hshown
  rw [hshown, monthIndex] at hindex
  have hyear : d.year = f.year := by omega
  have hmonth' : d.month = f.month := by omega
  have hday : d.day = f.day := hd.day_eq.trans h.day
  have hhour : d.hour = f.hour := hd.hour_eq.trans h.hour
  have hminute : d.minute = f.minute := hd.minute_eq.trans h.minute
  have hsecond : d.second = f.second := hd.second_eq.trans h.second
  rw [fields, hyear, hmonth', hday, hhour, hminute, hsecond]

/-- Valid fields with a year that fits into `tm_year` are kept. -/
theorem ofFields_valid (hz : z.Fixed) (h : f.Valid) (hyear : InInt (f.year - 1900)) :
    ∃ d, f.build z = .next d ∧ d.Local z ∧ d.fields = f := by
  have hmonth := h.month
  have hint : InInt (f.month - 1) := by
    unfold InInt
    omega
  have hseconds : (monthStart (12 * f.year + f.month - 1) + f.day - 1) * 86400 + f.hour * 3600 +
      f.minute * 60 + f.second - z.standard = f.clock - z.standard := rfl
  have hclock : z.clock (f.clock - z.standard) = f.clock := by
    rw [hz.clock_eq]
    ring
  have hshows := h.shows
  have hrep : z.Representable (f.clock - z.standard) := by
    have hdiv := monthOf_div (f.clock / 86400)
    rw [hshows.month] at hdiv
    have hyear' : yearOf (f.clock / 86400) = f.year := by omega
    rw [Zone.Representable, hclock, hyear']
    exact hyear
  rw [← hseconds] at hrep
  obtain ⟨d, hbuilt, hlocal, hd⟩ := ofFields_eq hyear hint hrep
  rw [hseconds] at hd
  rw [← hclock, ← hd] at hshows
  exact ⟨d, hbuilt, hlocal, hlocal.fields_eq hshows hmonth.1 hmonth.2⟩

/-- In a zone without daylight time the fields are those of one instant. -/
theorem Local.eq_of_fields (hz : z.Fixed) (hd : d.Local z) (hd' : d'.Local z)
    (h : d.fields = d'.fields) : d = d' := by
  have hclock := congrArg Fields.clock h
  rw [hd.clock_fields, hd'.clock_fields, hz.clock_eq, hz.clock_eq] at hclock
  have hseconds : d.seconds = d'.seconds := by omega
  have htm : d.tm = d'.tm := by rw [hd.tm_eq, hd'.tm_eq, hseconds]
  cases d
  cases d'
  cases hseconds
  cases htm
  rfl

theorem Local.text_eq (hd : d.Local z) (hyear : d.FourDigitYear) :
    d.toString = .next d.fields.text := by
  have hint : InInt d.year := by
    unfold FourDigitYear at hyear
    unfold InInt
    omega
  rw [hd.toString_eq hyear.1 hint, Outcome.next.injEq, Fields.text, fields]
  have hindex := hd.monthIndex_eq
  unfold monthIndex at hindex
  have hmonth : d.month = monthOf (d.clockDay z) - 12 * yearOf (d.clockDay z) + 1 := by
    have := hd.year_eq
    omega
  dsimp only
  rw [hmonth, hd.year_eq, hd.day_eq, hd.hour_eq, hd.minute_eq, hd.second_eq]
  rfl

/-- Fields that `mktime` cannot give an instant stay as they are, with the time -1. -/
theorem ofFields_local_or (hbuilt : f.build z = .next d) :
    d.Local z ∨ (d.seconds = -1 ∧ d.fields = f) := by
  simp only [Fields.build, ofFields, Outcome.bind_eq_next, int_eq_next, Outcome.pure_eq,
    Outcome.next.injEq] at hbuilt
  obtain ⟨tmYear, ⟨-, rfl⟩, tmMon, ⟨-, rfl⟩, rfl⟩ := hbuilt
  obtain ⟨tm, htm⟩ : ∃ tm : Tm, tm =
      { year := f.year - 1900, mon := f.month - 1, mday := f.day
        hour := f.hour, min := f.minute, sec := f.second } := ⟨_, rfl⟩
  rw [← htm, Zone.mktime]
  cases hlocal : z.localtime (z.instant tm) with
  | some tm' => exact .inl hlocal
  | none =>
    subst htm
    refine .inr ⟨rfl, ?_⟩
    simp [fields, year, month, day, hour, minute, second]

/-- The constructor keeps exactly the fields of the calendar whose year fits. All others become
other fields, those of a day of the calendar, unless `mktime` fails and leaves them with the time
-1. No two dates have the same fields, and the text of a date is that of its fields. -/
theorem fields_kept_iff (z : Zone) (hz : z.Fixed) (f : Fields) :
    ((∃ d, f.build z = .next d ∧ d.Local z ∧ d.fields = f) ↔ f.Valid ∧ InInt (f.year - 1900)) ∧
    (∀ d, f.build z = .next d → (d.Local z ∧ d.fields.Valid ∧ (d.fields = f ↔ f.Valid)) ∨
      (d.seconds = -1 ∧ d.fields = f ∧ ¬ f.Valid)) ∧
    (∀ d d' : Date, d.Local z → d'.Local z → d.fields = f → d'.fields = f → d = d') ∧
    (∀ d : Date, d.Local z → d.fields = f → 0 ≤ f.year → f.year ≤ 9999 →
      d.toString = .next f.text) := by
  refine ⟨⟨?_, fun h => ofFields_valid hz h.1 h.2⟩, ?_, ?_, ?_⟩
  · rintro ⟨d, -, hd, rfl⟩
    exact ⟨hd.valid_fields, hd.tmYear_int⟩
  · intro d hbuilt
    by_cases hvalid : f.Valid
    · have hyear : InInt (f.year - 1900) := by
        simp only [Fields.build, ofFields, Outcome.bind_eq_next, int_eq_next] at hbuilt
        obtain ⟨_, ⟨hint, -⟩, -⟩ := hbuilt
        exact hint
      obtain ⟨d', hbuilt', hd, hfields⟩ := ofFields_valid hz hvalid hyear
      obtain rfl : d = d' := Outcome.next.inj (hbuilt.symm.trans hbuilt')
      exact .inl ⟨hd, hd.valid_fields, iff_of_true hfields hvalid⟩
    · rcases ofFields_local_or hbuilt with hd | ⟨hseconds, hfields⟩
      · refine .inl ⟨hd, hd.valid_fields, iff_of_false (fun h => hvalid ?_) hvalid⟩
        exact h ▸ hd.valid_fields
      · exact .inr ⟨hseconds, hfields, hvalid⟩
  · intro d d' hd hd' h h'
    exact hd.eq_of_fields hz hd' (h.trans h'.symm)
  · rintro d hd rfl hlow hhigh
    exact hd.text_eq ⟨hlow, hhigh⟩

/-- The leap day of 2024, kept; and that of 2023, which is none. -/
theorem fields_kept_iff_leap :
    (∃ d, Fields.build ⟨2024, 2, 29, 23, 59, 59⟩ .utc = .next d ∧ d.Local .utc ∧
      d.fields = ⟨2024, 2, 29, 23, 59, 59⟩) ∧
    ¬ ∃ d, Fields.build ⟨2023, 2, 29, 0, 0, 0⟩ .utc = .next d ∧ d.Local .utc ∧
      d.fields = ⟨2023, 2, 29, 0, 0, 0⟩ := by
  constructor
  · refine ((fields_kept_iff .utc (fun _ => rfl) ⟨2024, 2, 29, 23, 59, 59⟩).1).mpr ⟨?_, by decide⟩
    exact ⟨by decide, ⟨29, by decide, by decide, by decide⟩, by decide, by decide, by decide⟩
  · intro h
    obtain ⟨⟨-, ⟨length, hlength, -, hday⟩, -⟩, -⟩ :=
      ((fields_kept_iff .utc (fun _ => rfl) ⟨2023, 2, 29, 0, 0, 0⟩).1).mp h
    cases (show Outcome.next 28 = .next length from hlength)
    exact absurd hday (by decide)

end Date
end Potato
