import Mathlib.Data.Int.CardIntervalMod
import Mathlib.Tactic

/-!
# Dealing around a ring

Picks that go around a list, one place further each time. The pick number `k` is
at place `k` modulo the length, and no element is ever two picks ahead of another.
-/
namespace RoundRobin
variable {α : Type*}

/-- The first `k` picks around `ring`. -/
def deal (ring : List α) (k : ℕ) : List (Option α) :=
  (List.range k).map fun j => ring[j % ring.length]?

theorem deal_succ (ring : List α) (k : ℕ) :
    deal ring (k + 1) = deal ring k ++ [ring[k % ring.length]?] := by
  simp [deal, List.range_succ]

theorem getElem?_deal {ring : List α} {j k : ℕ} (h : j < k) :
    (deal ring k)[j]? = some ring[j % ring.length]? := by
  simp [deal, List.getElem?_range h]

/-- The index that is moved on and set back at the end is the number of picks, modulo `n`. -/
theorem succ_mod_eq {n : ℕ} (hn : 0 < n) (k : ℕ) :
    (k + 1) % n = if n ≤ k % n + 1 then 0 else k % n + 1 := by
  have hk := Nat.mod_lt k hn
  have hmod : (k + 1) % n = (k % n + 1) % n := (Nat.mod_add_mod k n 1).symm
  rw [hmod]
  split_ifs with h
  · have hlast : k % n + 1 = n := by omega
    rw [hlast, Nat.mod_self]
  · exact Nat.mod_eq_of_lt (by omega)

variable [DecidableEq α]

theorem count_deal_eq {ring : List α} (hring : ring.Nodup) {i : ℕ} (hi : i < ring.length) (k : ℕ) :
    (deal ring k).count (some ring[i]) = Nat.count (· ≡ i [MOD ring.length]) k := by
  induction k with
  | zero => rfl
  | succ k ih =>
    have hk := Nat.mod_lt k (Nat.zero_lt_of_lt hi)
    rw [deal_succ, List.count_append, ih, Nat.count_succ, List.getElem?_eq_getElem hk]
    have hmod : k ≡ i [MOD ring.length] ↔ ring[k % ring.length] = ring[i] := by
      rw [hring.getElem_inj_iff, Nat.ModEq, Nat.mod_eq_of_lt hi]
    by_cases h : ring[k % ring.length] = ring[i]
    · simp [hmod.mpr h, h]
    · simp [hmod, h]

/-- The element at place `i` is picked once in every round, and once more when the round that is
under way has passed it. -/
theorem count_deal {ring : List α} (hring : ring.Nodup) {i : ℕ} (hi : i < ring.length) (k : ℕ) :
    (deal ring k).count (some ring[i]) =
      k / ring.length + if i < k % ring.length then 1 else 0 := by
  rw [count_deal_eq hring hi, Nat.count_modEq_card k (Nat.zero_lt_of_lt hi) i, Nat.mod_eq_of_lt hi]

theorem deal_balanced {ring : List α} (hring : ring.Nodup) {x y : α} (hx : x ∈ ring)
    (hy : y ∈ ring) (k : ℕ) :
    (deal ring k).count (some x) ≤ (deal ring k).count (some y) + 1 := by
  obtain ⟨i, hi, rfl⟩ := List.getElem_of_mem hx
  obtain ⟨j, hj, rfl⟩ := List.getElem_of_mem hy
  rw [count_deal hring hi, count_deal hring hj]
  split_ifs <;> omega

end RoundRobin
