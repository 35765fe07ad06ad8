import Potato.Buffer

/-!
# Timestamps

A `Timestamp` is a number of microseconds in an `int64_t`. Signed arithmetic that leaves its type
is a fault.
-/
namespace Potato
open Machine

/-- The values of an `int`. -/
def InInt (x : ℤ) : Prop := -2 ^ 31 ≤ x ∧ x < 2 ^ 31

/-- The values of an `int64_t`. -/
def InInt64 (x : ℤ) : Prop := -2 ^ 63 ≤ x ∧ x < 2 ^ 63

instance (x : ℤ) : Decidable (InInt x) := inferInstanceAs (Decidable (_ ∧ _))

instance (x : ℤ) : Decidable (InInt64 x) := inferInstanceAs (Decidable (_ ∧ _))

/-- The result of an `int` operation. -/
def int (x : ℤ) : Outcome Fault ℤ := do
  Outcome.check (InInt x) .intOverflow
  return x

/-- The result of an `int64_t` operation. -/
def int64 (x : ℤ) : Outcome Fault ℤ := do
  Outcome.check (InInt64 x) .intOverflow
  return x

@[simp] theorem int_eq_next {x y : ℤ} : int x = .next y ↔ InInt x ∧ x = y := by
  simp [int]

@[simp] theorem int64_eq_next {x y : ℤ} : int64 x = .next y ↔ InInt64 x ∧ x = y := by
  simp [int64]

theorem int_eq {x : ℤ} (h : InInt x) : int x = .next x := int_eq_next.mpr ⟨h, rfl⟩

theorem int64_eq {x : ℤ} (h : InInt64 x) : int64 x = .next x := int64_eq_next.mpr ⟨h, rfl⟩

structure Timestamp where
  timestamp : ℤ
  inInt64 : InInt64 timestamp
  deriving DecidableEq, Repr

namespace Timestamp

def kMicroSecondsPerSecond : ℤ := 1000 * 1000

/-- A timestamp from the result of an `int64_t` operation. -/
def make (x : ℤ) : Outcome Fault Timestamp :=
  if h : InInt64 x then .next ⟨x, h⟩ else .fault .intOverflow

def valid (t : Timestamp) : Bool := 0 ≤ t.timestamp

/-- The division of the language, which rounds towards zero. -/
def toSeconds (t : Timestamp) : ℤ := t.timestamp.tdiv kMicroSecondsPerSecond

def addSeconds (t : Timestamp) (seconds : ℤ) : Outcome Fault Timestamp := do
  let x ← int64 (seconds * kMicroSecondsPerSecond)
  make (t.timestamp + x)

def addMinutes (t : Timestamp) (minutes : ℤ) : Outcome Fault Timestamp := do
  let x ← int64 (minutes * kMicroSecondsPerSecond)
  let x ← int64 (x * 60)
  make (t.timestamp + x)

def addHour (t : Timestamp) (hour : ℤ) : Outcome Fault Timestamp := do
  let x ← int64 (hour * kMicroSecondsPerSecond)
  let x ← int64 (x * 60)
  let x ← int64 (x * 60)
  make (t.timestamp + x)

def addDay (t : Timestamp) (day : ℤ) : Outcome Fault Timestamp := do
  let x ← int64 (day * kMicroSecondsPerSecond)
  let x ← int64 (x * 60)
  let x ← int64 (x * 60)
  let x ← int64 (x * 24)
  make (t.timestamp + x)

def parseFromSeconds (seconds : ℤ) : Outcome Fault Timestamp :=
  make (seconds * kMicroSecondsPerSecond)

variable {t : Timestamp} {x n : ℤ}

theorem make_eq (h : InInt64 x) : make x = .next ⟨x, h⟩ := dif_pos h

@[simp] theorem make_eq_next : make x = .next t ↔ t.timestamp = x := by
  unfold make
  split_ifs with h
  · rw [Outcome.next.injEq, Timestamp.mk.injEq, eq_comm]
  · refine iff_of_false (fun h => nomatch h) ?_
    rintro rfl
    exact h t.inInt64

/-- Whole seconds come back. -/
theorem toSeconds_eq (h : t.timestamp = n * kMicroSecondsPerSecond) : t.toSeconds = n := by
  rw [toSeconds, h]
  exact Int.mul_tdiv_cancel n (by decide)

theorem toSeconds_of_nonneg (h : 0 ≤ t.timestamp) :
    t.toSeconds = t.timestamp / kMicroSecondsPerSecond :=
  Int.tdiv_eq_ediv_of_nonneg h

theorem toSeconds_bounds (t : Timestamp) : -10 ^ 13 ≤ t.toSeconds ∧ t.toSeconds ≤ 10 ^ 13 := by
  have ht := t.inInt64
  unfold InInt64 at ht
  rw [toSeconds, kMicroSecondsPerSecond]
  obtain h | h := le_total 0 t.timestamp
  · rw [Int.tdiv_eq_ediv_of_nonneg h]
    omega
  · rw [← neg_neg t.timestamp, Int.neg_tdiv, Int.tdiv_eq_ediv_of_nonneg (by omega)]
    omega

/-- A factor of a product that does not overflow does not overflow. -/
theorem int64_of_mul {k : ℤ} (hk : 0 < k) (h : InInt64 (n * k)) : InInt64 n := by
  unfold InInt64 at *
  constructor <;> nlinarith

/-- A member that adds whole seconds: it succeeds when their microseconds and the sum fit. -/
def Adds (add : Timestamp → Outcome Fault Timestamp) (seconds : ℤ) : Prop :=
  ∀ t t', add t = .next t' ↔ InInt64 (seconds * kMicroSecondsPerSecond) ∧
    t'.timestamp = t.timestamp + seconds * kMicroSecondsPerSecond

theorem addSeconds_adds (n : ℤ) : Adds (·.addSeconds n) n := by
  intro t t'
  simp only [addSeconds, Outcome.bind_eq_next, int64_eq_next, make_eq_next]
  constructor
  · rintro ⟨_, ⟨h, rfl⟩, ht⟩
    exact ⟨h, ht⟩
  · rintro ⟨h, ht⟩
    exact ⟨_, ⟨h, rfl⟩, ht⟩

theorem addMinutes_adds (n : ℤ) : Adds (·.addMinutes n) (n * 60) := by
  intro t t'
  rw [mul_right_comm]
  simp only [addMinutes, Outcome.bind_eq_next, int64_eq_next, make_eq_next]
  constructor
  · rintro ⟨_, ⟨-, rfl⟩, _, ⟨h, rfl⟩, ht⟩
    exact ⟨h, ht⟩
  · rintro ⟨h, ht⟩
    exact ⟨_, ⟨int64_of_mul (by decide) h, rfl⟩, _, ⟨h, rfl⟩, ht⟩

theorem addHour_adds (n : ℤ) : Adds (·.addHour n) (n * 60 * 60) := by
  intro t t'
  rw [mul_right_comm, mul_right_comm n]
  simp only [addHour, Outcome.bind_eq_next, int64_eq_next, make_eq_next]
  constructor
  · rintro ⟨_, ⟨-, rfl⟩, _, ⟨-, rfl⟩, _, ⟨h, rfl⟩, ht⟩
    exact ⟨h, ht⟩
  · rintro ⟨h, ht⟩
    have hminutes := int64_of_mul (by decide) h
    exact ⟨_, ⟨int64_of_mul (by decide) hminutes, rfl⟩, _, ⟨hminutes, rfl⟩, _, ⟨h, rfl⟩, ht⟩

theorem addDay_adds (n : ℤ) : Adds (·.addDay n) (n * 60 * 60 * 24) := by
  intro t t'
  rw [mul_right_comm, mul_right_comm (n * 60), mul_right_comm n]
  simp only [addDay, Outcome.bind_eq_next, int64_eq_next, make_eq_next]
  constructor
  · rintro ⟨_, ⟨-, rfl⟩, _, ⟨-, rfl⟩, _, ⟨-, rfl⟩, _, ⟨h, rfl⟩, ht⟩
    exact ⟨h, ht⟩
  · rintro ⟨h, ht⟩
    have hhours := int64_of_mul (by decide) h
    have hminutes := int64_of_mul (by decide) hhours
    exact ⟨_, ⟨int64_of_mul (by decide) hminutes, rfl⟩, _, ⟨hminutes, rfl⟩, _, ⟨hhours, rfl⟩, _,
      ⟨h, rfl⟩, ht⟩

end Timestamp
end Potato
