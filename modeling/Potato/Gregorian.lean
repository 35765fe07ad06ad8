import Mathlib.Algebra.BigOperators.Group.Finset.Basic
import Mathlib.Algebra.Order.Group.Int
import Mathlib.Order.SuccPred.Basic
import Mathlib.Tactic

/-!
# The proleptic Gregorian calendar

Days, months and years are integers. Day 0 is 1 January 1970, month `12 * y` is January of the
year `y`. Years and months are rows of intervals of days: each is given by the days on which
its members start, and a day lies in one member of each row.
-/
namespace Gregorian

/-- A day lies in one member of a row of intervals. -/
theorem interval_unique {start : ℤ → ℤ} (hs : ∀ i, start i < start (i + 1)) {i j d : ℤ}
    (hi : start i ≤ d) (hi' : d < start (i + 1)) (hj : start j ≤ d) (hj' : d < start (j + 1)) :
    i = j := by
  have hmono : StrictMono start := strictMono_int_of_lt_succ hs
  have hij := hmono.lt_iff_lt.mp (hi.trans_lt hj')
  have hji := hmono.lt_iff_lt.mp (hj.trans_lt hi')
  omega

/-- The interval of a list of lengths in which `d` falls. -/
def locate : List ℤ → ℤ → ℕ
  | [], _ => 0
  | l :: ls, d => if d < l then 0 else locate ls (d - l) + 1

theorem locate_spec {ls : List ℤ} {d : ℤ} (h : 0 ≤ d) (hd : d < ls.sum) :
    locate ls d < ls.length ∧ (ls.take (locate ls d)).sum ≤ d ∧
      d < (ls.take (locate ls d + 1)).sum := by
  induction ls generalizing d with
  | nil =>
    rw [List.sum_nil] at hd
    omega
  | cons l ls ih =>
    rw [List.sum_cons] at hd
    rw [locate]
    split_ifs with hl
    · refine ⟨Nat.succ_pos _, ?_, ?_⟩
      · simpa using h
      · simpa using hl
    · obtain ⟨hlt, hle, hgt⟩ := ih (d := d - l) (by omega) (by omega)
      refine ⟨Nat.succ_lt_succ hlt, ?_, ?_⟩
      · rw [List.take_succ_cons, List.sum_cons]
        omega
      · rw [List.take_succ_cons, List.sum_cons]
        omega

/-- The days of the first `n` years. -/
def elapsed (n : ℤ) : ℤ := 365 * n + n / 4 - n / 100 + n / 400

/-- Four hundred years have 146097 days, and the leap days in them come early or late by little. -/
theorem elapsed_bounds (n : ℤ) :
    146097 * n - 699 ≤ 400 * elapsed n ∧ 400 * elapsed n ≤ 146097 * n + 396 := by
  unfold elapsed
  omega

def Leap (y : ℤ) : Prop := 4 ∣ y ∧ (100 ∣ y → 400 ∣ y)

instance (y : ℤ) : Decidable (Leap y) := inferInstanceAs (Decidable (_ ∧ _))

def yearLength (y : ℤ) : ℤ := if Leap y then 366 else 365

/-- 1 January of the year `y`. -/
def yearStart (y : ℤ) : ℤ := elapsed (y - 1) - 719162

theorem yearStart_succ (y : ℤ) : yearStart (y + 1) = yearStart y + yearLength y := by
  unfold yearStart elapsed yearLength Leap
  split_ifs <;> omega

theorem yearStart_lt_succ (y : ℤ) : yearStart y < yearStart (y + 1) := by
  rw [yearStart_succ, yearLength]
  split_ifs <;> omega

/-- The year of a day: the one of its share of the 146097 days, or the next one. -/
def yearOf (d : ℤ) : ℤ :=
  let n := 400 * (d + 719162) / 146097
  if yearStart (n + 2) ≤ d then n + 2 else n + 1

theorem yearOf_spec (d : ℤ) : yearStart (yearOf d) ≤ d ∧ d < yearStart (yearOf d + 1) := by
  obtain ⟨n, hn⟩ : ∃ n, n = 400 * (d + 719162) / 146097 := ⟨_, rfl⟩
  have h₀ := elapsed_bounds n
  have h₂ := elapsed_bounds (n + 2)
  have e₀ : yearStart (n + 1) = elapsed n - 719162 := by rw [yearStart, add_sub_cancel_right]
  have e₂ : yearStart (n + 2 + 1) = elapsed (n + 2) - 719162 := by
    rw [yearStart, add_sub_cancel_right]
  rw [yearOf, ← hn]
  split_ifs with h
  · refine ⟨h, ?_⟩
    omega
  · rw [add_assoc]
    refine ⟨?_, not_le.mp h⟩
    omega

theorem yearOf_eq {d y : ℤ} (h : yearStart y ≤ d) (h' : d < yearStart (y + 1)) : yearOf d = y :=
  interval_unique yearStart_lt_succ (yearOf_spec d).1 (yearOf_spec d).2 h h'

theorem le_yearOf_iff {d y : ℤ} : y ≤ yearOf d ↔ yearStart y ≤ d := by
  have hmono : StrictMono yearStart := strictMono_int_of_lt_succ yearStart_lt_succ
  obtain ⟨hle, hlt⟩ := yearOf_spec d
  constructor
  · intro h
    exact (hmono.le_iff_le.mpr h).trans hle
  · intro h
    have := hmono.lt_iff_lt.mp (h.trans_lt hlt)
    omega

/-- The lengths of the months of a year. -/
def monthLengths (y : ℤ) : List ℤ :=
  [31, if Leap y then 29 else 28, 31, 30, 31, 30, 31, 31, 30, 31, 30, 31]

@[simp] theorem length_monthLengths (y : ℤ) : (monthLengths y).length = 12 := rfl

theorem sum_monthLengths (y : ℤ) : (monthLengths y).sum = yearLength y := by
  unfold monthLengths yearLength
  split_ifs <;> rfl

def monthLength (m : ℤ) : ℤ := (monthLengths (m / 12)).getD (m % 12).toNat 0

/-- The first day of the month `m`. -/
def monthStart (m : ℤ) : ℤ := yearStart (m / 12) + ((monthLengths (m / 12)).take (m % 12).toNat).sum

/-- The months of a year, by their place in it. -/
theorem month_parts (m : ℤ) : ∃ y : ℤ, ∃ k : ℕ, k < 12 ∧ m = 12 * y + k :=
  ⟨m / 12, (m % 12).toNat, by omega, by omega⟩

theorem monthLength_eq (y : ℤ) {k : ℕ} (hk : k < 12) :
    monthLength (12 * y + k) = (monthLengths y)[k] := by
  have hdiv : (12 * y + k) / 12 = y := by omega
  have hmod : ((12 * y + k) % 12).toNat = k := by omega
  rw [monthLength, hdiv, hmod, List.getD_eq_getElem?_getD, List.getElem?_eq_getElem hk,
    Option.getD_some]

theorem monthStart_eq (y : ℤ) {k : ℕ} (hk : k ≤ 12) :
    monthStart (12 * y + k) = yearStart y + ((monthLengths y).take k).sum := by
  obtain rfl | hlt : k = 12 ∨ k < 12 := by omega
  · -- the thirteenth month is January of the next year
    have hdiv : (12 * y + (12 : ℕ)) / 12 = y + 1 := by omega
    have hmod : ((12 * y + (12 : ℕ)) % 12).toNat = 0 := by omega
    rw [monthStart, hdiv, hmod, yearStart_succ, ← sum_monthLengths, List.take_zero, List.sum_nil,
      add_zero, List.take_of_length_le (length_monthLengths y).le]
  · have hdiv : (12 * y + k) / 12 = y := by omega
    have hmod : ((12 * y + k) % 12).toNat = k := by omega
    rw [monthStart, hdiv, hmod]

theorem monthStart_succ (m : ℤ) : monthStart (m + 1) = monthStart m + monthLength m := by
  obtain ⟨y, k, hk, rfl⟩ := month_parts m
  have hnext : 12 * y + (k : ℤ) + 1 = 12 * y + ((k + 1 : ℕ) : ℤ) := by push_cast; ring
  rw [hnext, monthStart_eq y hk, monthStart_eq y hk.le, monthLength_eq y hk,
    List.sum_take_succ (monthLengths y) k hk, add_assoc]

theorem monthLength_bounds (m : ℤ) : 28 ≤ monthLength m ∧ monthLength m ≤ 31 := by
  obtain ⟨y, k, hk, rfl⟩ := month_parts m
  rw [monthLength_eq y hk]
  have hall : ∀ l ∈ monthLengths y, 28 ≤ l ∧ l ≤ 31 := by
    unfold monthLengths
    split_ifs <;> decide
  exact hall _ (List.getElem_mem _)

theorem monthStart_lt_succ (m : ℤ) : monthStart m < monthStart (m + 1) := by
  have := (monthLength_bounds m).1
  rw [monthStart_succ]
  omega

theorem monthStart_january (y : ℤ) : monthStart (12 * y) = yearStart y := by
  have := monthStart_eq y (k := 0) (by decide)
  simpa using this

theorem monthStart_add (m : ℤ) (n : ℕ) :
    monthStart (m + n) = monthStart m + ∑ k ∈ Finset.range n, monthLength (m + k) := by
  induction n with
  | zero => simp
  | succ n ih =>
    rw [Finset.sum_range_succ, ← add_assoc, ← ih, ← monthStart_succ]
    push_cast
    rw [add_assoc]

/-- The last month of a year has 31 days, so 31 days from the first of any month on are in its
year. -/
theorem month_in_year (m : ℤ) :
    yearStart (m / 12) ≤ monthStart m ∧ monthStart m + 31 ≤ yearStart (m / 12 + 1) := by
  obtain ⟨y, k, hk, rfl⟩ := month_parts m
  have hdiv : (12 * y + (k : ℤ)) / 12 = y := by omega
  have hparts : ∀ k < 12, 0 ≤ ((monthLengths y).take k).sum ∧
      ((monthLengths y).take k).sum + 31 ≤ yearLength y := by
    unfold monthLengths yearLength
    split_ifs <;> decide
  rw [hdiv, monthStart_eq y hk.le, yearStart_succ]
  have := hparts k hk
  omega

/-- The month of a day. -/
def monthOf (d : ℤ) : ℤ :=
  12 * yearOf d + locate (monthLengths (yearOf d)) (d - yearStart (yearOf d))

theorem locate_month (d : ℤ) :
    locate (monthLengths (yearOf d)) (d - yearStart (yearOf d)) < 12 ∧
      monthStart (monthOf d) ≤ d ∧ d < monthStart (monthOf d + 1) := by
  obtain ⟨hle, hlt⟩ := yearOf_spec d
  rw [yearStart_succ, ← sum_monthLengths] at hlt
  obtain ⟨hk, hlo, hhi⟩ := locate_spec (sub_nonneg.mpr hle) (sub_lt_iff_lt_add'.mpr hlt)
  rw [length_monthLengths] at hk
  have hnext : monthOf d + 1 = 12 * yearOf d +
      ((locate (monthLengths (yearOf d)) (d - yearStart (yearOf d)) + 1 : ℕ) : ℤ) := by
    rw [monthOf]
    push_cast
    ring
  refine ⟨hk, ?_, ?_⟩
  · rw [monthOf, monthStart_eq _ hk.le]
    omega
  · rw [hnext, monthStart_eq _ (Nat.succ_le_of_lt hk)]
    exact sub_lt_iff_lt_add'.mp hhi

theorem monthOf_spec (d : ℤ) : monthStart (monthOf d) ≤ d ∧ d < monthStart (monthOf d + 1) :=
  (locate_month d).2

theorem monthOf_eq {d m : ℤ} (h : monthStart m ≤ d) (h' : d < monthStart (m + 1)) :
    monthOf d = m :=
  interval_unique monthStart_lt_succ (monthOf_spec d).1 (monthOf_spec d).2 h h'

theorem monthOf_div (d : ℤ) : monthOf d / 12 = yearOf d := by
  have := (locate_month d).1
  rw [monthOf]
  omega

/-- The day of the month, from 1 on. -/
def dayOf (d : ℤ) : ℤ := d - monthStart (monthOf d) + 1

theorem dayOf_bounds (d : ℤ) : 1 ≤ dayOf d ∧ dayOf d ≤ monthLength (monthOf d) := by
  obtain ⟨hle, hlt⟩ := monthOf_spec d
  rw [monthStart_succ] at hlt
  rw [dayOf]
  omega

/-- A day is given by its month and its day of the month. -/
theorem monthStart_add_dayOf (d : ℤ) : monthStart (monthOf d) + dayOf d - 1 = d := by
  rw [dayOf]
  ring

theorem monthOf_add {m n : ℤ} (h : 0 ≤ n) (h' : n < monthLength m) :
    monthOf (monthStart m + n) = m :=
  monthOf_eq (by omega) (by rw [monthStart_succ]; omega)

/-- The day of the year, from 0 on. -/
def dayOfYear (d : ℤ) : ℤ := d - yearStart (yearOf d)

/-- The day of the week, from 0 for Sunday on. -/
def weekday (d : ℤ) : ℤ := (d + 4) % 7

end Gregorian
