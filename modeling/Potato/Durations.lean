import Potato.DateShifts
import Potato.TextOrder

/-!
# Durations and distances

The members of `Timestamp` that add a number of units are one shift by as many microseconds. The
distance of two dates is the number of whole days that fit between them.
-/
namespace Potato
open Machine Gregorian

/-- The units of the members `addMicroSeconds` to `addDay`. -/
inductive TimeUnit where
  | microSecond
  | milliSecond
  | second
  | minute
  | hour
  | day
  deriving DecidableEq, Repr

namespace Timestamp

def addMicroSeconds (t : Timestamp) (microSeconds : ℤ) : Outcome Fault Timestamp :=
  make (t.timestamp + microSeconds)

def addMilliSeconds (t : Timestamp) (milliSeconds : ℤ) : Outcome Fault Timestamp := do
  let x ← int64 (milliSeconds * 1000)
  make (t.timestamp + x)

/-- The sum with a number of microseconds that has been computed before. -/
def shift (t : Timestamp) (x : ℤ) : Outcome Fault Timestamp := do
  let x ← int64 x
  make (t.timestamp + x)

end Timestamp

namespace TimeUnit

def micros : TimeUnit → ℤ
  | microSecond => 1
  | milliSecond => 1000
  | second => 1000000
  | minute => 60000000
  | hour => 3600000000
  | day => 86400000000

/-- The member for the unit. -/
def add : TimeUnit → Timestamp → ℤ → Outcome Fault Timestamp
  | microSecond => Timestamp.addMicroSeconds
  | milliSecond => Timestamp.addMilliSeconds
  | second => Timestamp.addSeconds
  | minute => Timestamp.addMinutes
  | hour => Timestamp.addHour
  | day => Timestamp.addDay

variable {t t' : Timestamp} {n : ℤ}

/-- A product that is built in steps overflows when the whole does. -/
theorem int64_chain {x k : ℤ} (hk : 0 < k) (f : ℤ → Outcome Fault Timestamp) :
    (int64 x >>= fun x => int64 (x * k) >>= f) = (int64 (x * k) >>= f) := by
  by_cases h : InInt64 (x * k)
  · rw [int64_eq (Timestamp.int64_of_mul hk h), Outcome.next_bind]
  · have hfault : int64 (x * k) = .fault .intOverflow := by
      simp [int64, Outcome.check, h]
    by_cases hx : InInt64 x
    · rw [int64_eq hx, Outcome.next_bind]
    · have hfault' : int64 x = .fault .intOverflow := by
        simp [int64, Outcome.check, hx]
      rw [hfault, hfault', Outcome.fault_bind, Outcome.fault_bind]

/-- Every member is a shift, for the arguments of its type. -/
theorem add_eq (u : TimeUnit) (t : Timestamp) (h : InInt64 n) :
    u.add t n = t.shift (n * u.micros) := by
  cases u with
  | microSecond =>
    rw [micros, mul_one, Timestamp.shift, int64_eq h, Outcome.next_bind]
    rfl
  | milliSecond => rfl
  | second => rfl
  | minute =>
    change (int64 (n * 1000000) >>= fun x => int64 (x * 60) >>= fun x => _) = _
    rw [int64_chain (by decide), mul_assoc]
    rfl
  | hour =>
    change (int64 (n * 1000000) >>= fun x => int64 (x * 60) >>= fun x => int64 (x * 60) >>= fun x =>
      _) = _
    rw [int64_chain (by decide), int64_chain (by decide), mul_assoc, mul_assoc]
    rfl
  | day =>
    change (int64 (n * 1000000) >>= fun x => int64 (x * 60) >>= fun x => int64 (x * 60) >>= fun x =>
      int64 (x * 24) >>= fun x => _) = _
    rw [int64_chain (by decide), int64_chain (by decide), int64_chain (by decide), mul_assoc,
      mul_assoc, mul_assoc]
    rfl

theorem shift_eq_next {x : ℤ} :
    t.shift x = .next t' ↔ InInt64 x ∧ t'.timestamp = t.timestamp + x := by
  simp only [Timestamp.shift, Outcome.bind_eq_next, int64_eq_next, Timestamp.make_eq_next]
  constructor
  · rintro ⟨_, ⟨h, rfl⟩, ht⟩
    exact ⟨h, ht⟩
  · rintro ⟨h, ht⟩
    exact ⟨x, ⟨h, rfl⟩, ht⟩

theorem add_eq_next {u : TimeUnit} (h : InInt64 n) : u.add t n = .next t' ↔
    InInt64 (n * u.micros) ∧ t'.timestamp = t.timestamp + n * u.micros := by
  rw [add_eq u t h, shift_eq_next]

/-- The smallest value of an `int64_t` is no number of larger units. -/
theorem neg_int64 {u : TimeUnit} (h : InInt64 (-n)) (h' : InInt64 (n * u.micros)) :
    InInt64 (-n * u.micros) := by
  unfold InInt64 at *
  cases u <;> simp only [micros] at * <;> omega

end TimeUnit

namespace Timestamp

theorem eq_of_timestamp {s t : Timestamp} (h : s.timestamp = t.timestamp) : s = t := by
  cases s
  cases t
  cases h
  rfl

/-- The arithmetic of timestamps. Equal durations in two units have one outcome, overflows
included; shifts commute as far as they succeed, can be taken back, and keep the order. -/
theorem durations (u v : TimeUnit) (t : Timestamp) (m n : ℤ) (hm : InInt64 m) (hn : InInt64 n) :
    (m * u.micros = n * v.micros → u.add t m = v.add t n) ∧
    (∀ a b a' b', u.add t m = .next a → v.add a n = .next b → v.add t n = .next a' →
      u.add a' m = .next b' → b = b') ∧
    (∀ a, u.add t m = .next a → InInt64 (-m) → u.add a (-m) = .next t) ∧
    (∀ s a b, u.add t m = .next a → u.add s m = .next b →
      a.less b = t.less s ∧ a.lessEqual b = t.lessEqual s ∧ (a = b ↔ t = s)) := by
  refine ⟨fun h => ?_, ?_, ?_, ?_⟩
  · rw [u.add_eq t hm, v.add_eq t hn, h]
  · intro a b a' b' ha hb ha' hb'
    rw [TimeUnit.add_eq_next hm] at ha hb'
    rw [TimeUnit.add_eq_next hn] at hb ha'
    refine eq_of_timestamp ?_
    rw [hb.2, ha.2, hb'.2, ha'.2]
    ring
  · intro a ha hneg
    rw [TimeUnit.add_eq_next hm] at ha
    rw [TimeUnit.add_eq_next hneg]
    refine ⟨TimeUnit.neg_int64 hneg ha.1, ?_⟩
    rw [ha.2]
    ring
  · intro s a b ha hb
    rw [TimeUnit.add_eq_next hm] at ha hb
    have hinj : a = b ↔ t = s := by
      constructor
      · rintro rfl
        exact eq_of_timestamp (by linarith [ha.2, hb.2])
      · rintro rfl
        exact eq_of_timestamp (ha.2.trans hb.2.symm)
    have hlt (x y : ℤ) : decide (x + m * u.micros < y + m * u.micros) = decide (x < y) := by
      rw [decide_eq_decide, add_lt_add_iff_right]
    refine ⟨?_, ?_, hinj⟩
    · rw [less, less, ha.2, hb.2, hlt]
    · rw [lessEqual, lessEqual, greater, greater, less, less, ha.2, hb.2, hlt]

/-- A week in hours and in days, and a duration that overflows in either of its units. -/
theorem durations_week :
    TimeUnit.hour.add ⟨0, by decide⟩ 168 = TimeUnit.day.add ⟨0, by decide⟩ 7 ∧
    TimeUnit.milliSecond.add ⟨0, by decide⟩ (10 ^ 18) =
      TimeUnit.second.add ⟨0, by decide⟩ (10 ^ 15) ∧
    TimeUnit.second.add ⟨0, by decide⟩ (10 ^ 15) = .fault .intOverflow :=
  ⟨(durations .hour .day ⟨0, by decide⟩ 168 7 (by decide) (by decide)).1 (by decide),
    (durations .milliSecond .second ⟨0, by decide⟩ (10 ^ 18) (10 ^ 15) (by decide)
      (by decide)).1 (by decide), by decide⟩

end Timestamp

namespace Date
variable {d d' : Date} {z : Zone}

/-- The seconds of the years of four digits. -/
theorem FourDigitYear.seconds_bounds (h : d.FourDigitYear) (hd : d.Local z) :
    -10 ^ 11 ≤ d.seconds ∧ d.seconds ≤ 3 * 10 ^ 11 := by
  have hclock := h.clock hd
  have hoff := z.offset_bounds d.seconds
  have hfirst : yearStart 0 = -719528 := by decide
  have hlast : yearStart (10 ^ 4) = 2932897 := by decide
  have hlow := le_yearOf_iff.mp hclock.1
  have hhigh := mt le_yearOf_iff.mpr (not_le.mpr hclock.2)
  unfold Zone.clock at hlow hhigh
  omega

/-- The distance is the number of whole days in the seconds between the dates, in either order. -/
theorem dayDistance_eq (hlow : -10 ^ 12 ≤ d.seconds - d'.seconds)
    (hhigh : d.seconds - d'.seconds ≤ 10 ^ 12) :
    d.dayDistance d' = .next (|d.seconds - d'.seconds| / 86400) := by
  have habs : |d.seconds - d'.seconds| ≤ 10 ^ 12 := abs_le.mpr ⟨hlow, hhigh⟩
  have hnonneg := abs_nonneg (d.seconds - d'.seconds)
  have hx : InInt64 (d.seconds - d'.seconds) := by
    unfold InInt64
    omega
  have hy : InInt64 |d.seconds - d'.seconds| := by
    unfold InInt64
    omega
  have hdays : |d.seconds - d'.seconds|.tdiv (24 * 60 * 60) = |d.seconds - d'.seconds| / 86400 :=
    Int.tdiv_eq_ediv_of_nonneg hnonneg
  simp only [dayDistance, int64_eq hx, Outcome.next_bind, int64_eq hy, hdays, Outcome.pure_eq]
  rw [Int.bmod_eq_of_le (by omega) (by omega)]

theorem lessEqual_eq (hd : InInt64 (d.seconds * 1000000)) (hd' : InInt64 (d'.seconds * 1000000)) :
    d.lessEqual d' = .next (decide (d.seconds ≤ d'.seconds)) := by
  rw [lessEqual, greater, less_eq hd' hd, Outcome.next_bind, Outcome.pure_eq, Outcome.next.injEq,
    ← decide_not, decide_eq_decide, not_lt]

/-- The days from one date to a later one are the largest number that can be added to the one
without passing the other: of all numbers that `addDays` takes, those up to it do not pass, and the
rest do. The distance does not depend on the order, and a way over a third date is shorter by
one day at most, for the parts of days that are left out. -/
theorem dayDistance_spec (z : Zone) (d d' d'' : Date) (hd : d.Local z) (hd' : d'.Local z)
    (hd'' : d''.Local z) (hyear : d.FourDigitYear) (hyear' : d'.FourDigitYear)
    (hyear'' : d''.FourDigitYear) (hle : d.lessEqual d' = .next true) :
    ∃ k k₁ k₂ a b, d.dayDistance d' = .next k ∧ d'.dayDistance d = .next k ∧
      d.addDays z k = .next a ∧ a.lessEqual d' = .next true ∧
      d.addDays z (k + 1) = .next b ∧ d'.less b = .next true ∧
      (∀ n e, d.addDays z n = .next e → (e.lessEqual d' = .next true ↔ n ≤ k)) ∧
      d.dayDistance d'' = .next k₁ ∧ d''.dayDistance d' = .next k₂ ∧ k ≤ k₁ + k₂ + 1 := by
  have hint := hyear.int64 hd
  have hint' := hyear'.int64 hd'
  have hs := hyear.seconds_bounds hd
  have hs' := hyear'.seconds_bounds hd'
  have hs'' := hyear''.seconds_bounds hd''
  rw [lessEqual_eq hint hint', Outcome.next.injEq, decide_eq_true_eq] at hle
  obtain ⟨k, hk⟩ : ∃ k, k = |d.seconds - d'.seconds| / 86400 := ⟨_, rfl⟩
  have habs : |d.seconds - d'.seconds| = d'.seconds - d.seconds := by
    rw [abs_sub_comm, abs_of_nonneg (by omega)]
  have hlater {n : ℤ} (hlow : 0 ≤ n) (hhigh : n ≤ k + 1) :
      d.addDays z n = .next (d.later z (n * 60 * 60 * 24)) ∧
        InInt64 ((d.seconds + n * 60 * 60 * 24) * 1000000) := by
    have hn : InInt64 (n * 60 * 60 * 24 * 1000000) := by
      unfold InInt64
      omega
    have hto : InInt64 ((d.seconds + n * 60 * 60 * 24) * 1000000) := by
      unfold InInt64
      omega
    exact ⟨(shift_eq_next (Timestamp.addDay_adds n) hint).mpr ⟨hn, hto, rfl⟩, hto⟩
  obtain ⟨ha, haint⟩ := hlater (n := k) (by omega) (by omega)
  obtain ⟨hb, hbint⟩ := hlater (n := k + 1) (by omega) (by omega)
  refine ⟨k, _, _, _, _, ?_, ?_, ha, ?_, hb, ?_, fun n e he => ?_, dayDistance_eq (by omega) (by omega),
    dayDistance_eq (by omega) (by omega), ?_⟩
  · rw [dayDistance_eq (by omega) (by omega), hk]
  · rw [dayDistance_eq (by omega) (by omega), hk, abs_sub_comm]
  · rw [lessEqual_eq haint hint', Outcome.next.injEq, decide_eq_true_eq]
    change d.seconds + k * 60 * 60 * 24 ≤ d'.seconds
    omega
  · rw [less_eq hint' hbint, Outcome.next.injEq, decide_eq_true_eq]
    change d'.seconds < d.seconds + (k + 1) * 60 * 60 * 24
    omega
  · obtain ⟨-, hint, rfl⟩ := (shift_eq_next (Timestamp.addDay_adds n) hint).mp he
    rw [lessEqual_eq hint hint', Outcome.next.injEq, decide_eq_true_eq]
    change d.seconds + n * 60 * 60 * 24 ≤ d'.seconds ↔ n ≤ k
    omega
  · have htriangle := abs_sub_le d.seconds d''.seconds d'.seconds
    omega

/-- From a leap day to noon of 3 March, almost three days later. -/
theorem dayDistance_spec_march : ∃ k a b,
    leapDay.dayDistance (ofTimestamp .utc ⟨952084800000000, by decide⟩) = .next k ∧ k = 2 ∧
      leapDay.addDays .utc k = .next a ∧ leapDay.addDays .utc (k + 1) = .next b := by
  obtain ⟨k, -, -, a, b, hk, -, ha, -, hb, -⟩ := dayDistance_spec .utc leapDay
    (ofTimestamp .utc ⟨952084800000000, by decide⟩) (ofTimestamp .utc ⟨951868800000000, by decide⟩)
    (ofTimestamp_local _ _) (ofTimestamp_local _ _) (ofTimestamp_local _ _) (by decide +kernel)
    (by decide +kernel) (by decide +kernel) (by decide +kernel)
  have htwo : leapDay.dayDistance (ofTimestamp .utc ⟨952084800000000, by decide⟩) = .next 2 := by
    decide +kernel
  exact ⟨k, a, b, hk, Outcome.next.inj (hk.symm.trans htwo), ha, hb⟩

end Date
end Potato
