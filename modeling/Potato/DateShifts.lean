import Potato.Date

/-!
# Shifts of dates by whole units

`addSeconds`, `addMinutes`, `addHours` and `addDays` go through the microseconds of a timestamp.
These have room for every `int` of seconds, minutes and hours, but not for every `int` of days.
-/
namespace Potato.Date
open Machine Gregorian

variable {d : Date} {z : Zone} {n : ℤ}

/-- The call returns a date whose instant is `k` seconds behind that of `d`. -/
def Moves (d : Date) (x : Outcome Fault Date) (k : ℤ) : Prop :=
  ∃ d', x = .next d' ∧ d'.toSeconds = d.toSeconds + k

/-- Both calls return, and what they return compares equal. -/
def Agree (x y : Outcome Fault Date) : Prop :=
  ∃ a b, x = .next a ∧ y = .next b ∧ a.equal b = .next true

/-- The shifts by `n` in all units move the instant by exactly that much, and agree. -/
structure ShiftsExactly (z : Zone) (d : Date) (n : ℤ) : Prop where
  seconds : d.Moves (d.addSeconds z n) n
  minutes : d.Moves (d.addMinutes z n) (60 * n)
  hours : d.Moves (d.addHours z n) (3600 * n)
  days : d.Moves (d.addDays z n) (86400 * n)
  distance : InInt |n| → ∃ d', d.addDays z n = .next d' ∧ d.dayDistance d' = .next |n|
  inHours : InInt (24 * n) → Agree (d.addDays z n) (d.addHours z (24 * n))
  inMinutes : InInt (1440 * n) → Agree (d.addDays z n) (d.addMinutes z (1440 * n))
  inSeconds : InInt (86400 * n) → Agree (d.addDays z n) (d.addSeconds z (86400 * n))

/-- The instants from 1970 to the end of the year 9999. -/
def FourDigits (d : Date) : Prop := 0 ≤ d.toSeconds ∧ d.toSeconds < 86400 * yearStart 10000

theorem FourDigits.bounds (h : d.FourDigits) : 0 ≤ d.seconds ∧ d.seconds < 253402300800 := by
  have hend : yearStart 10000 = 2932897 := by decide
  unfold FourDigits toSeconds at h
  rw [hend] at h
  omega

theorem FourDigits.int64 (h : d.FourDigits) : InInt64 (d.seconds * 1000000) := by
  have := h.bounds
  unfold InInt64
  omega

/-- Up to as many seconds as an `int` of hours has, a shift succeeds. -/
theorem FourDigits.shift_eq (h : d.FourDigits) {add : Timestamp → Outcome Fault Timestamp} {k : ℤ}
    (hadd : Timestamp.Adds add k) (hlow : -3600 * 2 ^ 31 ≤ k) (hhigh : k < 3600 * 2 ^ 31) :
    (d.toTimestamp >>= fun t => add t >>= fun t => pure (ofTimestamp z t)) =
      .next (d.later z k) := by
  have hd := h.bounds
  have hk : InInt64 (k * 1000000) := by
    unfold InInt64
    omega
  have hto : InInt64 ((d.seconds + k) * 1000000) := by
    unfold InInt64
    omega
  exact (shift_eq_next hadd h.int64).mpr ⟨hk, hto, rfl⟩

theorem FourDigits.addSeconds_eq (h : d.FourDigits) (hn : InInt n) :
    d.addSeconds z n = .next (d.later z n) := by
  unfold InInt at hn
  exact h.shift_eq (Timestamp.addSeconds_adds n) (by omega) (by omega)

theorem FourDigits.addMinutes_eq (h : d.FourDigits) (hn : InInt n) :
    d.addMinutes z n = .next (d.later z (n * 60)) := by
  unfold InInt at hn
  exact h.shift_eq (Timestamp.addMinutes_adds n) (by omega) (by omega)

theorem FourDigits.addHours_eq (h : d.FourDigits) (hn : InInt n) :
    d.addHours z n = .next (d.later z (n * 60 * 60)) := by
  unfold InInt at hn
  exact h.shift_eq (Timestamp.addHour_adds n) (by omega) (by omega)

/-- The microseconds of `n` days, and of the instant that they lead to. -/
def DaysFit (d : Date) (n : ℤ) : Prop :=
  InInt64 (n * 86400 * 1000000) ∧ InInt64 ((d.toSeconds + n * 86400) * 1000000)

instance (d : Date) (n : ℤ) : Decidable (d.DaysFit n) := inferInstanceAs (Decidable (_ ∧ _))

theorem FourDigits.addDays_eq_next (h : d.FourDigits) {d' : Date} :
    d.addDays z n = .next d' ↔ d.DaysFit n ∧ d' = d.later z (n * 86400) := by
  have hday : n * 60 * 60 * 24 = n * 86400 := by ring
  have hiff : d.addDays z n = .next d' ↔ _ := shift_eq_next (Timestamp.addDay_adds n) h.int64
  rw [hday] at hiff
  rw [DaysFit, and_assoc]
  exact hiff

/-- The distance to a date that is whole days away is the number of these days. -/
theorem dayDistance_later (h : InInt64 (n * 86400 * 1000000)) (hn : InInt |n|) :
    d.dayDistance (d.later z (n * 86400)) = .next |n| := by
  have hback : d.seconds - (d.later z (n * 86400)).seconds = -(n * 86400) := sub_add_cancel_left ..
  have habs : |-(n * 86400)| = |n| * 86400 := by
    rw [abs_neg, abs_mul]
    rfl
  have hx : InInt64 (-(n * 86400)) := by
    unfold InInt64 at *
    omega
  have hy : InInt64 (|n| * 86400) := by
    unfold InInt InInt64 at *
    omega
  have hdays : (|n| * 86400).tdiv (24 * 60 * 60) = |n| := Int.mul_tdiv_cancel _ (by decide)
  unfold InInt at hn
  simp only [dayDistance, hback, int64_eq hx, Outcome.next_bind, habs, int64_eq hy, hdays,
    Outcome.pure_eq, Int.bmod_eq_of_le (n := |n|) (m := 2 ^ 32) (by omega) (by omega)]

theorem moves_later {x : Outcome Fault Date} {k m : ℤ} (hx : x = .next (d.later z k))
    (hk : k = m) : d.Moves x m := ⟨_, hx, by rw [← hk]; rfl⟩

/-- Every shift by an `int` of seconds, minutes or hours is exact. One by an `int` of days is, and
agrees with the others, if and only if a `Timestamp` holds the days and the result. -/
theorem shifts_exactly_iff (z : Zone) (d : Date) (n : ℤ) (h : d.FourDigits) (hn : InInt n) :
    d.Moves (d.addSeconds z n) n ∧ d.Moves (d.addMinutes z n) (60 * n) ∧
      d.Moves (d.addHours z n) (3600 * n) ∧ (d.ShiftsExactly z n ↔ d.DaysFit n) := by
  have hseconds : d.Moves (d.addSeconds z n) n := moves_later (h.addSeconds_eq hn) rfl
  have hminutes : d.Moves (d.addMinutes z n) (60 * n) :=
    moves_later (h.addMinutes_eq hn) (by ring)
  have hhours : d.Moves (d.addHours z n) (3600 * n) := moves_later (h.addHours_eq hn) (by ring)
  refine ⟨hseconds, hminutes, hhours, ?_⟩
  constructor
  · intro hshifts
    obtain ⟨d', hd', -⟩ := hshifts.days
    exact (h.addDays_eq_next.mp hd').1
  · intro hfit
    have hdays : d.addDays z n = .next (d.later z (n * 86400)) :=
      h.addDays_eq_next.mpr ⟨hfit, rfl⟩
    have hself : (d.later z (n * 86400)).equal (d.later z (n * 86400)) = .next true :=
      equal_eq_true.mpr ⟨rfl, hfit.2⟩
    have hagree {k : ℤ} {y : Outcome Fault Date} (hy : y = .next (d.later z k))
        (hk : k = n * 86400) : Agree (d.addDays z n) y := by
      subst hk
      exact ⟨_, _, hdays, hy, hself⟩
    exact ⟨hseconds, hminutes, hhours, moves_later hdays (by ring),
      fun habs => ⟨_, hdays, dayDistance_later hfit.1 habs⟩,
      fun hk => hagree (h.addHours_eq hk) (by ring),
      fun hk => hagree (h.addMinutes_eq hk) (by ring),
      fun hk => hagree (h.addSeconds_eq hk) (by ring)⟩

/-- 1 January 1970. -/
def epoch : Date := ofTimestamp .utc ⟨0, by decide⟩

/-- The largest number of days that can be added there. -/
theorem shifts_exactly_iff_last : epoch.ShiftsExactly .utc 106751991 :=
  (shifts_exactly_iff .utc epoch 106751991 ⟨by decide, by decide⟩ (by decide)).2.2.2.mpr
    (by decide +kernel)

/-- One day more overflows. -/
theorem addDays_overflows : epoch.FourDigits ∧ InInt 106751992 ∧
    epoch.addDays .utc 106751992 = .fault .intOverflow ∧
      ¬ epoch.ShiftsExactly .utc 106751992 := by
  have hfault : epoch.addDays .utc 106751992 = .fault .intOverflow := by decide +kernel
  refine ⟨⟨by decide, by decide⟩, by decide, hfault, fun hshifts => ?_⟩
  obtain ⟨d', hd', -⟩ := hshifts.days
  rw [hfault] at hd'
  cases hd'

end Potato.Date
