import Potato.DateFields
import Potato.TimestampText

/-!
# The order of the texts

A text has its fields from the year down, each of a fixed width. With years of four digits, and in
a zone without daylight time, the texts compare like the instants: the operators of `Date` and
`Timestamp` and the order of the texts agree.
-/
namespace Potato
open Machine Gregorian Decimal

/-- What the clocks show in the years from 0 to 9999. -/
def yearsOfFourDigits : Set ℤ := {l | 0 ≤ yearOf (l / 86400) ∧ yearOf (l / 86400) < 10 ^ 4}

theorem sorts_years : Sorts {y : ℤ | 0 ≤ y ∧ y < 10 ^ 4} (fun y => pad 4 y.toNat) 4 := by
  refine sorts_pad (by decide) ?_ ?_
  · rintro y ⟨hlow, hhigh⟩
    omega
  · rintro y ⟨hlow, hhigh⟩ y' ⟨hlow', hhigh'⟩ hlt
    change y.toNat < y'.toNat
    omega

theorem sorts_months : Sorts {m : ℤ | 0 ≤ m / 12 ∧ m / 12 < 10 ^ 4}
    (fun m => pad 4 (m / 12).toNat ++ field '-' 2 (m % 12 + 1).toNat) 7 := by
  refine sorts_years.append_field '-' (· / 12) _ (by decide) (fun m hm => hm) ?_ ?_
  · intro m _
    omega
  · intro m _ m' _ hlt
    omega

/-- A later day is in a later month, or later in the same month. -/
theorem day_lex {d d' : ℤ} (h : d < d') :
    monthOf d < monthOf d' ∨ (monthOf d = monthOf d' ∧ dayOf d < dayOf d') := by
  have hmono : Monotone monthStart := (strictMono_int_of_lt_succ monthStart_lt_succ).monotone
  obtain hlt | heq | hgt := lt_trichotomy (monthOf d) (monthOf d')
  · exact .inl hlt
  · refine .inr ⟨heq, ?_⟩
    unfold dayOf
    rw [heq]
    omega
  · have hstart := hmono (Int.add_one_le_iff.mpr hgt)
    have hlow := (monthOf_spec d).1
    have hhigh := (monthOf_spec d').2
    omega

theorem sorts_days : Sorts {d : ℤ | 0 ≤ monthOf d / 12 ∧ monthOf d / 12 < 10 ^ 4}
    (fun d => pad 4 (monthOf d / 12).toNat ++ field '-' 2 (monthOf d % 12 + 1).toNat ++
      field '-' 2 (dayOf d).toNat) 10 := by
  refine sorts_months.append_field '-' monthOf _ (by decide) (fun d hd => hd) ?_ ?_
  · intro d _
    have hday := dayOf_bounds d
    have hlength := monthLength_bounds (monthOf d)
    omega
  · intro d _ d' _ hlt
    have hday := dayOf_bounds d
    have hlex := day_lex hlt
    omega

/-- The hour, the minute and the second are the last places of the number of seconds. -/
theorem sorts_clockText : Sorts yearsOfFourDigits Timestamp.clockText 19 := by
  have hhours : Sorts {h : ℤ | 0 ≤ monthOf (h / 24) / 12 ∧ monthOf (h / 24) / 12 < 10 ^ 4} _ 13 :=
    sorts_days.append_field ' ' (· / 24) (fun h => (h % 24).toNat) (by decide : 0 < 2)
      (fun h hh => hh) (fun h _ => by omega) (fun h _ h' _ hlt => by omega)
  have hminutes : Sorts {m : ℤ | 0 ≤ monthOf (m / 60 / 24) / 12 ∧
      monthOf (m / 60 / 24) / 12 < 10 ^ 4} _ 16 :=
    hhours.append_field ':' (· / 60) (fun m => (m % 60).toNat) (by decide : 0 < 2)
      (fun m hm => hm) (fun m _ => by omega) (fun m _ m' _ hlt => by omega)
  have hseconds : Sorts {l : ℤ | 0 ≤ monthOf (l / 60 / 60 / 24) / 12 ∧
      monthOf (l / 60 / 60 / 24) / 12 < 10 ^ 4} _ 19 :=
    hminutes.append_field ':' (· / 60) (fun l => (l % 60).toNat) (by decide : 0 < 2)
      (fun l hl => hl) (fun l _ => by omega) (fun l _ l' _ hlt => by omega)
  have hday (l : ℤ) : l / 60 / 60 / 24 = l / 86400 := by omega
  have hmonth (d : ℤ) : monthOf d % 12 = monthOf d - 12 * yearOf d := by
    have := monthOf_div d
    omega
  have hyears : yearsOfFourDigits = {l : ℤ | 0 ≤ monthOf (l / 60 / 60 / 24) / 12 ∧
      monthOf (l / 60 / 60 / 24) / 12 < 10 ^ 4} := by
    simp only [hday, monthOf_div]
    rfl
  have htext : Timestamp.clockText = fun l => pad 4 (monthOf (l / 60 / 60 / 24) / 12).toNat ++
      field '-' 2 (monthOf (l / 60 / 60 / 24) % 12 + 1).toNat ++
      field '-' 2 (dayOf (l / 60 / 60 / 24)).toNat ++ field ' ' 2 (l / 60 / 60 % 24).toNat ++
      field ':' 2 (l / 60 % 60).toNat ++ field ':' 2 (l % 60).toNat := by
    funext l
    have hhour : l / 60 / 60 % 24 = l % 86400 / 3600 := by omega
    have hminute : l / 60 % 60 = l % 86400 / 60 % 60 := by omega
    have hsecond : l % 60 = l % 86400 % 60 := by omega
    rw [hday, hmonth, hhour, hminute, hsecond, monthOf_div]
    rfl
  rw [hyears, htext]
  exact hseconds

namespace Timestamp

/-- `operator<` -/
def less (lhs rhs : Timestamp) : Bool := lhs.timestamp < rhs.timestamp

def greater (lhs rhs : Timestamp) : Bool := rhs.less lhs

def lessEqual (lhs rhs : Timestamp) : Bool := !lhs.greater rhs

def greaterEqual (lhs rhs : Timestamp) : Bool := !lhs.less rhs

end Timestamp

namespace Date

/-- `operator<` -/
def less (lhs rhs : Date) : Outcome Fault Bool := do
  let a ← lhs.toTimestamp
  let b ← rhs.toTimestamp
  return a.less b

def greater (lhs rhs : Date) : Outcome Fault Bool := rhs.less lhs

def lessEqual (lhs rhs : Date) : Outcome Fault Bool := do
  let b ← lhs.greater rhs
  return !b

def greaterEqual (lhs rhs : Date) : Outcome Fault Bool := do
  let b ← lhs.less rhs
  return !b

def notEqual (lhs rhs : Date) : Outcome Fault Bool := do
  let b ← lhs.equal rhs
  return !b

def toString (d : Date) : Outcome Fault (List Char) := do
  let year ← int (d.tm.year + 1900)
  let month ← int (d.tm.mon + 1)
  return format 4 year ++ '-' :: format 2 month ++ '-' :: format 2 d.tm.mday ++
    ' ' :: format 2 d.tm.hour ++ ':' :: format 2 d.tm.min ++ ':' :: format 2 d.tm.sec

/-- The year of the fields has four digits. -/
def FourDigitYear (d : Date) : Prop := 0 ≤ d.year ∧ d.year ≤ 9999

instance (d : Date) : Decidable d.FourDigitYear := inferInstanceAs (Decidable (_ ∧ _))

variable {d d' : Date} {z : Zone}

theorem Local.toString_eq (hd : d.Local z) (h : 0 ≤ d.year) (hint : InInt d.year) :
    d.toString = .next (Timestamp.clockText (z.clock d.seconds)) := by
  obtain ⟨hmonth, hday, hhour, hmin, hsecond⟩ := Timestamp.clock_parts (z.clock d.seconds)
  have hyear := hd.year_eq
  have hy : int (d.tm.year + 1900) = .next (yearOf (z.clock d.seconds / 86400)) :=
    int_eq_next.mpr ⟨hint, hyear⟩
  have hm : int (d.tm.mon + 1) = .next (monthOf (z.clock d.seconds / 86400) -
      12 * yearOf (z.clock d.seconds / 86400) + 1) := by
    rw [int_eq_next, hd.tm_eq]
    refine ⟨?_, rfl⟩
    unfold InInt
    simp only [Tm.ofLocal]
    omega
  rw [hyear] at h
  change 0 ≤ yearOf (z.clock d.seconds / 86400) at h
  rw [toString, hy, Outcome.next_bind, hm, Outcome.next_bind, Outcome.pure_eq, hd.tm_eq]
  simp only [Tm.ofLocal]
  rw [format_of_nonneg _ h, format_of_nonneg _ (by omega), format_of_nonneg _ (by omega),
    format_of_nonneg _ (by omega), format_of_nonneg _ (by omega), format_of_nonneg _ (by omega)]
  rfl

theorem FourDigitYear.clock (h : d.FourDigitYear) (hd : d.Local z) :
    z.clock d.seconds ∈ yearsOfFourDigits := by
  have hyear := hd.year_eq
  unfold FourDigitYear at h
  change 0 ≤ yearOf (d.clockDay z) ∧ yearOf (d.clockDay z) < 10 ^ 4
  omega

/-- A `Timestamp` holds the instants of the years of four digits. -/
theorem FourDigitYear.int64 (h : d.FourDigitYear) (hd : d.Local z) :
    InInt64 (d.seconds * 1000000) := by
  have hclock := h.clock hd
  have hoff := z.offset_bounds d.seconds
  have hfirst : yearStart 0 = -719528 := by decide
  have hlast : yearStart (10 ^ 4) = 2932897 := by decide
  have hlow := le_yearOf_iff.mp hclock.1
  have hhigh := mt le_yearOf_iff.mpr (not_le.mpr hclock.2)
  unfold Zone.clock at hlow hhigh
  unfold InInt64
  omega

theorem less_eq (hd : InInt64 (d.seconds * 1000000)) (hd' : InInt64 (d'.seconds * 1000000)) :
    d.less d' = .next (decide (d.seconds < d'.seconds)) := by
  rw [less, toTimestamp_eq hd, toTimestamp_eq hd', Outcome.next_bind, Outcome.next_bind,
    Outcome.pure_eq, Outcome.next.injEq, Timestamp.less, decide_eq_decide]
  change d.seconds * 1000000 < d'.seconds * 1000000 ↔ _
  omega

theorem equal_eq (hd : InInt64 (d.seconds * 1000000)) (hd' : InInt64 (d'.seconds * 1000000)) :
    d.equal d' = .next (decide (d.seconds = d'.seconds)) := by
  rw [equal, toTimestamp_eq hd, toTimestamp_eq hd', Outcome.next_bind, Outcome.next_bind,
    Outcome.pure_eq, Outcome.next.injEq, beq_eq_decide, decide_eq_decide, Timestamp.mk.injEq]
  omega

/-- The operators of dates are those of their texts. -/
theorem text_order (z : Zone) (hz : z.Fixed) (d d' : Date) (hd : d.Local z) (hd' : d'.Local z)
    (hyear : d.FourDigitYear) (hyear' : d'.FourDigitYear) :
    ∃ text text' : List Char, d.toString = .next text ∧ d'.toString = .next text' ∧
      text.length = 19 ∧ text'.length = 19 ∧
      d.less d' = .next (decide (text < text')) ∧
      d.greater d' = .next (decide (text > text')) ∧
      d.lessEqual d' = .next (decide (text ≤ text')) ∧
      d.greaterEqual d' = .next (decide (text ≥ text')) ∧
      d.equal d' = .next (decide (text = text')) ∧
      d.notEqual d' = .next (decide (text ≠ text')) := by
  have hint : InInt d.year := by
    unfold FourDigitYear at hyear
    unfold InInt
    omega
  have hint' : InInt d'.year := by
    unfold FourDigitYear at hyear'
    unfold InInt
    omega
  have hsecs := hyear.int64 hd
  have hsecs' := hyear'.int64 hd'
  have hclock := hyear.clock hd
  have hclock' := hyear'.clock hd'
  have hlt : Timestamp.clockText (z.clock d.seconds) < Timestamp.clockText (z.clock d'.seconds) ↔
      d.seconds < d'.seconds := by
    rw [sorts_clockText.lt_iff hclock hclock', hz.clock_eq, hz.clock_eq]
    omega
  have hgt : Timestamp.clockText (z.clock d'.seconds) < Timestamp.clockText (z.clock d.seconds) ↔
      d'.seconds < d.seconds := by
    rw [sorts_clockText.lt_iff hclock' hclock, hz.clock_eq, hz.clock_eq]
    omega
  have heq : Timestamp.clockText (z.clock d.seconds) = Timestamp.clockText (z.clock d'.seconds) ↔
      d.seconds = d'.seconds := by
    rw [sorts_clockText.eq_iff hclock hclock', hz.clock_eq, hz.clock_eq]
    omega
  refine ⟨_, _, hd.toString_eq hyear.1 hint, hd'.toString_eq hyear'.1 hint',
    sorts_clockText.length _ hclock, sorts_clockText.length _ hclock', ?_, ?_, ?_, ?_, ?_, ?_⟩
  · rw [less_eq hsecs hsecs', Outcome.next.injEq, decide_eq_decide, hlt]
  · rw [greater, less_eq hsecs' hsecs, Outcome.next.injEq, decide_eq_decide, gt_iff_lt, hgt]
  · rw [lessEqual, greater, less_eq hsecs' hsecs, Outcome.next_bind, Outcome.pure_eq,
      Outcome.next.injEq, ← decide_not, decide_eq_decide, ← not_lt, hgt]
  · rw [greaterEqual, less_eq hsecs hsecs', Outcome.next_bind, Outcome.pure_eq,
      Outcome.next.injEq, ← decide_not, decide_eq_decide, ge_iff_le, ← not_lt, hlt]
  · rw [equal_eq hsecs hsecs', Outcome.next.injEq, decide_eq_decide, heq]
  · rw [notEqual, equal_eq hsecs hsecs', Outcome.next_bind, Outcome.pure_eq,
      Outcome.next.injEq, ← decide_not, decide_eq_decide, ne_eq, heq]

/-- The last second before 1970, and a leap day. -/
theorem text_order_leap : ∃ text text' : List Char,
    (ofTimestamp .utc ⟨-1000000, by decide⟩).toString = .next text ∧
      leapDay.toString = .next text' ∧ text < text' := by
  obtain ⟨text, text', htext, htext', -, -, hless, -⟩ := text_order .utc (fun _ => rfl)
    (ofTimestamp .utc ⟨-1000000, by decide⟩) leapDay (ofTimestamp_local _ _)
    (ofTimestamp_local _ _) (by decide +kernel) (by decide +kernel)
  have hlater : (ofTimestamp .utc ⟨-1000000, by decide⟩).less leapDay = .next true := by
    decide +kernel
  rw [hlater, Outcome.next.injEq, eq_comm, decide_eq_true_eq] at hless
  exact ⟨text, text', htext, htext', hless⟩

end Date

namespace Timestamp

variable {a b : Timestamp} {z : Zone} {tm₀ tm₁ : Tm}

/-- The instants that a text tells, as a number: its seconds or its milliseconds. -/
def unit (withMilliSeconds : Bool) : ℤ := if withMilliSeconds then 1000 else 1000000

theorem year_ofTimestamp (z : Zone) (a : Timestamp) :
    (Date.ofTimestamp z a).year = yearOf (z.clock a.toSeconds / 86400) :=
  (Date.ofTimestamp_local z a).year_eq

theorem clock_fourDigits (z : Zone) (h : 0 ≤ a.timestamp)
    (hyear : (Date.ofTimestamp z a).year ≤ 9999) : z.clock a.toSeconds ∈ yearsOfFourDigits := by
  have hrange := year_range z h
  rw [year_ofTimestamp] at hyear
  exact ⟨hrange.1, by omega⟩

/-- A date and a timestamp of the same second have one text. -/
theorem dateText_eq (z : Zone) (h : 0 ≤ a.timestamp) :
    (Date.ofTimestamp z a).toString = .next (text z a false) := by
  have hlocal := Date.ofTimestamp_local z a
  have hyear := year_ofTimestamp z a
  have hrange := year_range z h
  have hint : InInt (Date.ofTimestamp z a).year := by
    unfold InInt
    omega
  rw [hlocal.toString_eq (by omega) hint, text, if_neg Bool.false_ne_true, List.append_nil]
  rfl

theorem sorts_milliseconds (z : Zone) :
    Sorts {m : ℤ | m / 1000 + z.standard ∈ yearsOfFourDigits}
      (fun m => clockText (m / 1000 + z.standard) ++ field ':' 3 (m % 1000).toNat) 23 := by
  refine sorts_clockText.append_field ':' (· / 1000 + z.standard) _ (by decide)
    (fun m hm => hm) ?_ ?_
  · intro m _
    omega
  · intro m _ m' _ hlt
    omega

theorem text_lt_iff (hz : z.Fixed) (ha : 0 ≤ a.timestamp) (hb : 0 ≤ b.timestamp)
    (hyear : (Date.ofTimestamp z a).year ≤ 9999) (hyear' : (Date.ofTimestamp z b).year ≤ 9999)
    (ms : Bool) :
    text z a ms < text z b ms ↔ a.timestamp / unit ms < b.timestamp / unit ms := by
  have hmem := clock_fourDigits z ha hyear
  have hmem' := clock_fourDigits z hb hyear'
  have hclock : z.clock a.toSeconds = a.timestamp / 1000 / 1000 + z.standard := by
    rw [hz.clock_eq, toSeconds_of_nonneg ha, kMicroSecondsPerSecond]
    omega
  have hclock' : z.clock b.toSeconds = b.timestamp / 1000 / 1000 + z.standard := by
    rw [hz.clock_eq, toSeconds_of_nonneg hb, kMicroSecondsPerSecond]
    omega
  rw [hclock] at hmem
  rw [hclock'] at hmem'
  unfold text milliText unit
  rw [hclock, hclock']
  cases ms with
  | false =>
    rw [if_neg Bool.false_ne_true, if_neg Bool.false_ne_true, if_neg Bool.false_ne_true,
      List.append_nil, List.append_nil, sorts_clockText.lt_iff hmem hmem']
    omega
  | true =>
    rw [if_pos rfl, if_pos rfl, if_pos rfl]
    exact (sorts_milliseconds z).lt_iff hmem hmem'

/-- Where the offset of the zone is fixed, the texts of valid timestamps compare like the seconds or
the milliseconds that they tell: a sorted list of texts is sorted by time. A date prints the text
without milliseconds. -/
theorem text_sorts (z : Zone) (hz : z.Fixed) (tm₀ tm₁ : Tm) (a b : Timestamp)
    (ha : a.valid = true) (hb : b.valid = true) (hyear : (Date.ofTimestamp z a).year ≤ 9999)
    (hyear' : (Date.ofTimestamp z b).year ≤ 9999) (ms : Bool) :
    ∃ text text' : List Char, a.toString z tm₀ ms = .next text ∧
      b.toString z tm₁ ms = .next text' ∧
      (text < text' ↔ a.timestamp / unit ms < b.timestamp / unit ms) ∧
      (text < text' → a.less b = true) ∧ (a.less b = true → text ≤ text') ∧
      (ms = false → (Date.ofTimestamp z a).toString = .next text) := by
  have ha' : 0 ≤ a.timestamp := of_decide_eq_true ha
  have hb' : 0 ≤ b.timestamp := of_decide_eq_true hb
  have hunit : 0 < unit ms := by cases ms <;> decide
  have hlt := text_lt_iff hz ha' hb' hyear hyear' ms
  have hgt := text_lt_iff hz hb' ha' hyear' hyear ms
  refine ⟨_, _, toString_eq ha' ms, toString_eq hb' ms, hlt, ?_, ?_, ?_⟩
  · intro h
    rw [less, decide_eq_true_eq]
    by_contra hle
    exact absurd (hlt.mp h) (not_lt.mpr (Int.ediv_le_ediv hunit (not_lt.mp hle)))
  · intro h
    rw [less, decide_eq_true_eq] at h
    rw [← not_lt, hgt, not_lt]
    exact Int.ediv_le_ediv hunit h.le
  · rintro rfl
    exact dateText_eq z ha'

/-- Two milliseconds of one second, one behind the other. -/
theorem text_sorts_milliseconds : ∃ text text' : List Char,
    toString .utc {} ⟨951827696001999, by decide⟩ true = .next text ∧
      toString .utc {} ⟨951827696002000, by decide⟩ true = .next text' ∧ text < text' := by
  obtain ⟨text, text', htext, htext', hlt, -⟩ := text_sorts .utc (fun _ => rfl) {} {}
    ⟨951827696001999, by decide⟩ ⟨951827696002000, by decide⟩ (by decide) (by decide)
    (by decide +kernel) (by decide +kernel) true
  exact ⟨text, text', htext, htext', hlt.mpr (by decide)⟩

/-- The year 10000 is printed before the year 9999. -/
example : ∃ text text', toString .utc {} ⟨253402300799000000, by decide⟩ false = .next text ∧
    toString .utc {} ⟨253402300800000000, by decide⟩ false = .next text' ∧ text' < text :=
  ⟨"9999-12-31 23:59:59".toList, "10000-01-01 00:00:00".toList, by decide +kernel,
    by decide +kernel, by decide⟩

end Timestamp
end Potato
