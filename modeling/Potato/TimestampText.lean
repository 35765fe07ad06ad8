import Potato.Decimal
import Potato.LocalTime

/-!
# The text of a timestamp

`toString` formats the local time into a buffer of 32 zero bytes and reads it back up to the first
zero. The text tells the second or the millisecond of the timestamp, and leaves a zero behind it.
-/
namespace Potato.Timestamp
open Machine Gregorian Decimal

/-- The byte that ends a text in C. -/
def nul : Char := Char.ofNat 0

/-- `formatTo`, with what `tm_` holds before `localtime_r`: the buffer behind it, and the size of
the text. `format_to_n` writes no more than the buffer has room for. -/
def formatTo (z : Zone) (tm₀ : Tm) (t : Timestamp) (buf : List Char) (withMilliSeconds : Bool) :
    Outcome Fault (List Char × ℕ) := do
  let seconds := t.toSeconds
  let whole ← int64 (seconds * kMicroSecondsPerSecond)
  let rest ← int64 (t.timestamp - whole)
  let milliSeconds := rest.tdiv 1000
  let tm := (z.localtime seconds).getD tm₀
  let year ← int (tm.year + 1900)
  let month ← int (tm.mon + 1)
  let text := format 4 year ++ '-' :: format 2 month ++ '-' :: format 2 tm.mday ++
    ' ' :: format 2 tm.hour ++ ':' :: format 2 tm.min ++ ':' :: format 2 tm.sec
  let text := if withMilliSeconds then text ++ ':' :: format 3 milliSeconds else text
  return (text.take buf.length ++ buf.drop text.length, text.length)

/-- `toString`, whose result is read up to the first zero byte. -/
def toString (z : Zone) (tm₀ : Tm) (t : Timestamp) (withMilliSeconds : Bool) :
    Outcome Fault (List Char) := do
  let (buf, _) ← t.formatTo z tm₀ (List.replicate 32 nul) withMilliSeconds
  Outcome.check (nul ∈ buf) .outOfRange
  return buf.takeWhile (· ≠ nul)

/-- The text of what the clocks show. -/
def clockText (l : ℤ) : List Char :=
  pad 4 (yearOf (l / 86400)).toNat ++
    field '-' 2 (monthOf (l / 86400) - 12 * yearOf (l / 86400) + 1).toNat ++
    field '-' 2 (dayOf (l / 86400)).toNat ++ field ' ' 2 (l % 86400 / 3600).toNat ++
    field ':' 2 (l % 86400 / 60 % 60).toNat ++ field ':' 2 (l % 86400 % 60).toNat

/-- The milliseconds in their second. -/
def milliText (t : Timestamp) : List Char := field ':' 3 (t.timestamp / 1000 % 1000).toNat

variable {l l' : ℤ} {t : Timestamp} {z : Zone} {tm₀ : Tm}

/-- The parts of what the clocks show have two digits. -/
theorem clock_parts (l : ℤ) :
    (1 ≤ monthOf (l / 86400) - 12 * yearOf (l / 86400) + 1 ∧
      monthOf (l / 86400) - 12 * yearOf (l / 86400) + 1 ≤ 12) ∧
    (1 ≤ dayOf (l / 86400) ∧ dayOf (l / 86400) ≤ 31) ∧
    (0 ≤ l % 86400 / 3600 ∧ l % 86400 / 3600 < 24) ∧
    (0 ≤ l % 86400 / 60 % 60 ∧ l % 86400 / 60 % 60 < 60) ∧
    (0 ≤ l % 86400 % 60 ∧ l % 86400 % 60 < 60) := by
  have hmonth := monthOf_div (l / 86400)
  have hday := dayOf_bounds (l / 86400)
  have hlength := monthLength_bounds (monthOf (l / 86400))
  omega

theorem toNat_inj {x y : ℤ} (hx : 0 ≤ x) (hy : 0 ≤ y) (h : x.toNat = y.toNat) : x = y := by
  rw [← Int.toNat_of_nonneg hx, h, Int.toNat_of_nonneg hy]

/-- The hour, the minute and the second make the time of day. -/
theorem time_inj {s s' : ℤ} (hhour : s / 3600 = s' / 3600) (hmin : s / 60 % 60 = s' / 60 % 60)
    (hsec : s % 60 = s' % 60) : s = s' := by
  omega

/-- The text tells what the clocks show, as long as the year is not negative. -/
theorem clockText_inj (h : 0 ≤ yearOf (l / 86400)) (h' : 0 ≤ yearOf (l' / 86400))
    (heq : clockText l = clockText l') : l = l' := by
  obtain ⟨hmonth, hday, hhour, hmin, hsec⟩ := clock_parts l
  obtain ⟨hmonth', hday', hhour', hmin', hsec'⟩ := clock_parts l'
  unfold clockText at heq
  obtain ⟨heq, esec⟩ := append_field_inj (by decide) (by omega) (by omega) heq
  obtain ⟨heq, emin⟩ := append_field_inj (by decide) (by omega) (by omega) heq
  obtain ⟨heq, ehour⟩ := append_field_inj (by decide) (by omega) (by omega) heq
  obtain ⟨heq, eday⟩ := append_field_inj (by decide) (by omega) (by omega) heq
  obtain ⟨heq, emonth⟩ := append_field_inj (by decide) (by omega) (by omega) heq
  have eyear := toNat_inj h h' (pad_injective 4 heq)
  replace emonth := toNat_inj (by omega) (by omega) emonth
  replace eday := toNat_inj (by omega) (by omega) eday
  -- the same month and day of the month make the same day
  have hmonths : monthOf (l / 86400) = monthOf (l' / 86400) := by
    linarith only [emonth, eyear]
  have hdays : l / 86400 = l' / 86400 := by
    rw [← monthStart_add_dayOf (l / 86400), hmonths, eday, monthStart_add_dayOf]
  have htime : l % 86400 = l' % 86400 :=
    time_inj (toNat_inj hhour.1 hhour'.1 ehour) (toNat_inj hmin.1 hmin'.1 emin)
      (toNat_inj hsec.1 hsec'.1 esec)
  rw [← Int.mul_ediv_add_emod l 86400, ← Int.mul_ediv_add_emod l' 86400, hdays, htime]

theorem length_clockText_le (h : yearOf (l / 86400) < 10 ^ 6) : (clockText l).length ≤ 21 := by
  obtain ⟨hmonth, hday, hhour, hmin, hsec⟩ := clock_parts l
  have hyear : (pad 4 (yearOf (l / 86400)).toNat).length ≤ 6 :=
    length_pad_le (by decide) (by decide) (by omega)
  unfold clockText
  simp only [List.length_append]
  rw [length_field (by decide) (by omega), length_field (by decide) (by omega),
    length_field (by decide) (by omega), length_field (by decide) (by omega),
    length_field (by decide) (by omega)]
  omega

theorem length_milliText (t : Timestamp) : t.milliText.length = 4 :=
  length_field (by decide) (by omega)

theorem nul_not_mem_pad (w n : ℕ) : nul ∉ pad w n := by
  intro h
  have := isDigit_of_mem_pad h
  cases this

theorem nul_not_mem_field {separator : Char} (h : separator ≠ nul) (w n : ℕ) :
    nul ∉ field separator w n := by
  rw [field, List.mem_cons, not_or]
  exact ⟨h.symm, nul_not_mem_pad w n⟩

/-- What `formatTo` formats. -/
def text (z : Zone) (t : Timestamp) (withMilliSeconds : Bool) : List Char :=
  clockText (z.clock t.toSeconds) ++ if withMilliSeconds then t.milliText else []

theorem nul_not_mem_text (z : Zone) (t : Timestamp) (ms : Bool) : nul ∉ text z t ms := by
  have hdash : '-' ≠ nul := by decide
  have hspace : ' ' ≠ nul := by decide
  have hcolon : ':' ≠ nul := by decide
  unfold text clockText milliText
  simp only [List.mem_append, not_or]
  refine ⟨⟨⟨⟨⟨⟨nul_not_mem_pad _ _, ?_⟩, ?_⟩, ?_⟩, ?_⟩, ?_⟩, ?_⟩
  · exact nul_not_mem_field hdash _ _
  · exact nul_not_mem_field hdash _ _
  · exact nul_not_mem_field hspace _ _
  · exact nul_not_mem_field hcolon _ _
  · exact nul_not_mem_field hcolon _ _
  · split_ifs
    · exact nul_not_mem_field hcolon _ _
    · exact List.not_mem_nil

/-- The years of the valid timestamps have no sign and at most six digits. -/
theorem year_range (z : Zone) (h : 0 ≤ t.timestamp) :
    0 ≤ yearOf (z.clock t.toSeconds / 86400) ∧ yearOf (z.clock t.toSeconds / 86400) < 10 ^ 6 := by
  have hoff := z.offset_bounds t.toSeconds
  have hhi := t.toSeconds_bounds.2
  have hlo : 0 ≤ t.toSeconds := by
    rw [toSeconds_of_nonneg h]
    exact Int.ediv_nonneg h (by decide)
  have hzero : yearStart 0 ≤ -24856 := by decide
  have hlast : 200000000 ≤ yearStart (10 ^ 6) := by decide
  rw [le_yearOf_iff, ← not_le, le_yearOf_iff]
  unfold Zone.clock
  omega

theorem length_text_le (z : Zone) (h : 0 ≤ t.timestamp) (ms : Bool) :
    (text z t ms).length ≤ 25 := by
  have hclock := length_clockText_le (year_range z h).2
  have hmilli := t.length_milliText
  rw [text, List.length_append]
  split_ifs
  · omega
  · rw [List.length_nil]
    omega

theorem formatTo_eq (h : 0 ≤ t.timestamp) (buf : List Char) (ms : Bool) :
    t.formatTo z tm₀ buf ms = .next ((text z t ms).take buf.length ++
      buf.drop (text z t ms).length, (text z t ms).length) := by
  have ht := t.inInt64
  have hyear := year_range z h
  have hsec := toSeconds_of_nonneg h
  have hbounds := t.toSeconds_bounds
  obtain ⟨hmonth, hday, hhour, hmin, hsecond⟩ := clock_parts (z.clock t.toSeconds)
  unfold kMicroSecondsPerSecond at hsec
  unfold InInt64 at ht
  have hwhole : InInt64 (t.toSeconds * kMicroSecondsPerSecond) := by
    unfold InInt64 kMicroSecondsPerSecond
    omega
  have hrest : InInt64 (t.timestamp - t.toSeconds * kMicroSecondsPerSecond) := by
    unfold InInt64 kMicroSecondsPerSecond
    omega
  have hmilli : (t.timestamp - t.toSeconds * kMicroSecondsPerSecond).tdiv 1000 =
      t.timestamp / 1000 % 1000 := by
    unfold kMicroSecondsPerSecond
    rw [Int.tdiv_eq_ediv_of_nonneg (by omega)]
    omega
  have hrep : z.Representable t.toSeconds := Zone.representable_of_bounds (by omega) (by omega)
  have htm := Zone.localtime_eq_some.mpr ⟨hrep, rfl⟩
  obtain ⟨tm, htm'⟩ : ∃ tm, tm = Tm.ofLocal (z.clock t.toSeconds)
    (if z.daylight t.toSeconds then 1 else 0) := ⟨_, rfl⟩
  rw [← htm'] at htm
  have hy : int (tm.year + 1900) = .next (yearOf (z.clock t.toSeconds / 86400)) := by
    rw [int_eq_next, htm']
    exact ⟨by unfold InInt; simp only [Tm.ofLocal]; omega, sub_add_cancel _ _⟩
  have hm : int (tm.mon + 1) = .next (monthOf (z.clock t.toSeconds / 86400) -
      12 * yearOf (z.clock t.toSeconds / 86400) + 1) := by
    rw [int_eq_next, htm']
    exact ⟨by unfold InInt; simp only [Tm.ofLocal]; omega, rfl⟩
  have hclock : format 4 (yearOf (z.clock t.toSeconds / 86400)) ++
      '-' :: format 2 (monthOf (z.clock t.toSeconds / 86400) -
        12 * yearOf (z.clock t.toSeconds / 86400) + 1) ++ '-' :: format 2 tm.mday ++
      ' ' :: format 2 tm.hour ++ ':' :: format 2 tm.min ++ ':' :: format 2 tm.sec =
      clockText (z.clock t.toSeconds) := by
    rw [htm']
    simp only [Tm.ofLocal]
    rw [format_of_nonneg _ hyear.1, format_of_nonneg _ (by omega), format_of_nonneg _ (by omega),
      format_of_nonneg _ (by omega), format_of_nonneg _ (by omega), format_of_nonneg _ (by omega)]
    rfl
  have htail : ':' :: format 3 (t.timestamp / 1000 % 1000) = t.milliText := by
    rw [format_of_nonneg _ (by omega)]
    rfl
  simp only [formatTo, int64_eq hwhole, int64_eq hrest, Outcome.next_bind, hmilli, htm,
    Option.getD_some, hy, hm, hclock, htail, Outcome.pure_eq, text]
  cases ms <;> simp

/-- `toString` returns the whole text. -/
theorem toString_eq (h : 0 ≤ t.timestamp) (ms : Bool) :
    t.toString z tm₀ ms = .next (text z t ms) := by
  have hlen := length_text_le z h ms
  have hfull : (text z t ms).take 32 = text z t ms := List.take_of_length_le (by omega)
  have hzero : nul ∈ text z t ms ++ List.replicate (32 - (text z t ms).length) nul := by
    rw [List.mem_append, List.mem_replicate]
    exact .inr ⟨by omega, rfl⟩
  have hread : (text z t ms ++ List.replicate (32 - (text z t ms).length) nul).takeWhile
      (· ≠ nul) = text z t ms := by
    rw [List.takeWhile_append_of_pos, List.takeWhile_replicate]
    · simp
    · intro c hc
      rw [decide_eq_true_eq]
      rintro rfl
      exact nul_not_mem_text z t ms hc
  simp only [toString, formatTo_eq h, Outcome.next_bind, List.length_replicate,
    List.drop_replicate, hfull, Outcome.check_pos hzero, hread, Outcome.pure_eq]

variable {a b : Timestamp}

/-- In a zone without daylight time the clocks tell the second. -/
theorem clockText_eq_iff (hz : z.Fixed) (ha : 0 ≤ a.timestamp) (hb : 0 ≤ b.timestamp) :
    clockText (z.clock a.toSeconds) = clockText (z.clock b.toSeconds) ↔
      a.timestamp / 1000000 = b.timestamp / 1000000 := by
  have hseca : a.toSeconds = a.timestamp / 1000000 := toSeconds_of_nonneg ha
  have hsecb : b.toSeconds = b.timestamp / 1000000 := toSeconds_of_nonneg hb
  rw [← hseca, ← hsecb]
  constructor
  · intro h
    have := clockText_inj (year_range z ha).1 (year_range z hb).1 h
    rw [hz.clock_eq, hz.clock_eq] at this
    omega
  · intro h
    rw [h]

theorem text_seconds_iff (hz : z.Fixed) (ha : 0 ≤ a.timestamp) (hb : 0 ≤ b.timestamp) :
    text z a false = text z b false ↔ a.timestamp / 1000000 = b.timestamp / 1000000 := by
  rw [← clockText_eq_iff hz ha hb]
  simp [text]

theorem text_milliseconds_iff (hz : z.Fixed) (ha : 0 ≤ a.timestamp) (hb : 0 ≤ b.timestamp) :
    text z a true = text z b true ↔ a.timestamp / 1000 = b.timestamp / 1000 := by
  have hclock := clockText_eq_iff hz ha hb
  constructor
  · intro h
    obtain ⟨hfront, hmilli⟩ := append_field_inj (by decide) (by omega) (by omega) h
    have := hclock.mp hfront
    omega
  · intro h
    have hseconds : a.timestamp / 1000000 = b.timestamp / 1000000 := by omega
    have hmilli : a.milliText = b.milliText := by rw [milliText, milliText, h]
    rw [text, text, hclock.mpr hseconds, hmilli]

/-- The text of a valid timestamp tells its millisecond, or its second; the milliseconds have three
digits; and the text leaves a zero byte in the buffer. -/
theorem toString_identifies (z : Zone) (hz : z.Fixed) (tm₀ tm₁ : Tm) (a b : Timestamp)
    (ha : a.valid = true) (hb : b.valid = true) :
    (a.toString z tm₀ true = b.toString z tm₁ true ↔
      a.timestamp / 1000 = b.timestamp / 1000) ∧
    (a.toString z tm₀ false = b.toString z tm₁ false ↔
      a.timestamp / 1000000 = b.timestamp / 1000000) ∧
    ∀ ms, ∃ text, a.toString z tm₀ ms = .next text ∧ text.length < 32 ∧ nul ∉ text ∧
      a.formatTo z tm₀ (List.replicate 32 nul) ms =
        .next (text ++ List.replicate (32 - text.length) nul, text.length) ∧
      (ms = true → ∃ front milli, text = front ++ ':' :: milli ∧ milli.length = 3 ∧
        (∀ c ∈ milli, c.isDigit = true) ∧
        (Nat.ofDigitChars 10 milli 0 : ℤ) = a.timestamp / 1000 % 1000) := by
  have ha' : 0 ≤ a.timestamp := of_decide_eq_true ha
  have hb' : 0 ≤ b.timestamp := of_decide_eq_true hb
  simp only [toString_eq ha', toString_eq hb', Outcome.next.injEq]
  refine ⟨text_milliseconds_iff hz ha' hb', text_seconds_iff hz ha' hb', fun ms => ?_⟩
  have hlen := length_text_le z ha' ms
  refine ⟨text z a ms, rfl, by omega, nul_not_mem_text z a ms, ?_, ?_⟩
  · have hfull : (text z a ms).take 32 = text z a ms := List.take_of_length_le (by omega)
    rw [formatTo_eq ha', List.length_replicate, hfull, List.drop_replicate]
  · rintro rfl
    refine ⟨_, _, rfl, length_pad (by decide) (by omega), fun c => isDigit_of_mem_pad, ?_⟩
    rw [ofDigitChars_pad]
    omega

/-- The last millisecond that a timestamp can hold has one text, and the one before another. -/
theorem toString_identifies_last :
    toString .utc {} ⟨9223372036854775807, by decide⟩ true =
        toString .utc {} ⟨9223372036854775000, by decide⟩ true ∧
      toString .utc {} ⟨9223372036854775807, by decide⟩ true ≠
        toString .utc {} ⟨9223372036854774999, by decide⟩ true := by
  refine ⟨?_, fun h => ?_⟩
  · exact (toString_identifies .utc (fun _ => rfl) {} {} ⟨9223372036854775807, by decide⟩
      ⟨9223372036854775000, by decide⟩ (by decide) (by decide)).1.mpr (by decide)
  · have := (toString_identifies .utc (fun _ => rfl) {} {} ⟨9223372036854775807, by decide⟩
      ⟨9223372036854774999, by decide⟩ (by decide) (by decide)).1.mp h
    exact absurd this (by decide)

/-- The text with the most letters for UTC. -/
example : (toString .utc {} ⟨9223372036854775807, by decide⟩ true) =
    .next "294247-01-10 04:00:54:775".toList := by decide +kernel

end Potato.Timestamp
