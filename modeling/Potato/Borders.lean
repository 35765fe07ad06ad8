import Mathlib.Data.List.Basic
import Mathlib.Tactic

/-!
# Prefixes of a pattern at the end of a text

The longest prefix of a pattern that a text ends with, below a bound, and how it
changes when the text grows by one letter. The prefixes that a text ends with are
nested: each shorter one is at the end of each longer one. So the candidates for a
longer prefix are found by falling back from prefix to prefix.
-/
namespace Borders

variable {α : Type} {p xs ys : List α} {c : α} {b j k v : ℕ}

/-- The text ends with the first `k` letters of the pattern. -/
def Ends (p xs : List α) (k : ℕ) : Prop := k ≤ p.length ∧ p.take k <:+ xs

/-- Below `b`, the text ends with the first `j` letters of the pattern and no more. -/
structure Longest (p xs : List α) (b j : ℕ) : Prop where
  lt : j < b
  ends : Ends p xs j
  max : ∀ k < b, Ends p xs k → k ≤ j

/-- No prefix below `b` that can be continued with `c` is longer than `j`. -/
structure Covers (p xs : List α) (b : ℕ) (c : α) (j : ℕ) : Prop where
  lt : j < b
  ends : Ends p xs j
  max : ∀ k < b, Ends p xs k → p[k]? = some c → k ≤ j

theorem ends_zero (p xs : List α) : Ends p xs 0 := ⟨Nat.zero_le _, List.nil_suffix⟩

theorem Ends.le_length (h : Ends p xs k) : k ≤ xs.length := by
  have := h.2.length_le
  rw [List.length_take, Nat.min_eq_left h.1] at this
  exact this

theorem ends_length : Ends p xs p.length ↔ p <:+ xs := by
  rw [Ends, List.take_length]
  exact ⟨fun h => h.2, fun h => ⟨Nat.le_refl _, h⟩⟩

/-- The prefixes at the end of a text are nested. -/
theorem Ends.nested (hj : Ends p xs j) (h : k ≤ j) : Ends p xs k ↔ Ends p (p.take j) k := by
  have hlen : (p.take k).length ≤ (p.take j).length := by
    simp only [List.length_take]
    omega
  constructor
  · intro hk
    exact ⟨hk.1, List.suffix_of_suffix_length_le hk.2 hj.2 hlen⟩
  · intro hk
    exact ⟨hk.1, hk.2.trans hj.2⟩

/-- A text that grows by `c` ends with a longer prefix exactly when it did with a shorter one
that `c` continues. -/
theorem ends_snoc : Ends p (xs ++ [c]) (k + 1) ↔ Ends p xs k ∧ p[k]? = some c := by
  have htake (hk : k < p.length) : p.take (k + 1) = p.take k ++ [p[k]] :=
    (List.take_concat_get' p k hk).symm
  constructor
  · rintro ⟨hk, hsuffix⟩
    rw [htake hk] at hsuffix
    obtain ⟨front, hfront⟩ := hsuffix
    rw [← List.append_assoc, List.append_singleton_inj] at hfront
    exact ⟨⟨Nat.le_of_lt hk, front, hfront.1⟩, by rw [List.getElem?_eq_getElem hk, hfront.2]⟩
  · rintro ⟨⟨-, front, hfront⟩, hc⟩
    obtain ⟨hk, hc⟩ := List.getElem?_eq_some_iff.mp hc
    exact ⟨hk, front, by rw [htake hk, ← List.append_assoc, hfront, hc]⟩

theorem Longest.covers (h : Longest p xs b j) (c : α) : Covers p xs b c j :=
  ⟨h.lt, h.ends, fun k hk he _ => h.max k hk he⟩

/-- Falling back from `j` to the longest shorter prefix loses no candidate but `j`. -/
theorem Covers.fall (h : Covers p xs b c j) (hno : p[j]? ≠ some c)
    (hv : Longest p (p.take j) j v) : Covers p xs b c v := by
  refine ⟨hv.lt.trans h.lt, (h.ends.nested hv.lt.le).mpr hv.ends, fun k hk he hc => ?_⟩
  have hkj : k ≤ j := h.max k hk he hc
  have hne : k ≠ j := by
    rintro rfl
    exact hno hc
  exact hv.max k (by omega) ((h.ends.nested hkj).mp he)

/-- Where falling back ends, the next letter is tried. -/
theorem Covers.snoc [DecidableEq α] (h : Covers p xs b c j) (hend : j = 0 ∨ p[j]? = some c) :
    Longest p (xs ++ [c]) (b + 1) (if p[j]? = some c then j + 1 else j) := by
  have hlt := h.lt
  by_cases hc : p[j]? = some c
  · rw [if_pos hc]
    refine ⟨by omega, ends_snoc.mpr ⟨h.ends, hc⟩, fun k hk he => ?_⟩
    cases k with
    | zero => omega
    | succ k =>
      obtain ⟨hk', hkc⟩ := ends_snoc.mp he
      have := h.max k (by omega) hk' hkc
      omega
  · rw [if_neg hc]
    have hzero : j = 0 := hend.resolve_right hc
    subst hzero
    refine ⟨by omega, ends_zero _ _, fun k hk he => ?_⟩
    cases k with
    | zero => omega
    | succ k =>
      obtain ⟨hk', hkc⟩ := ends_snoc.mp he
      have := h.max k (by omega) hk' hkc
      have hk0 : k = 0 := by omega
      subst hk0
      exact absurd hkc hc

/-- A bound that no prefix reaches can be lowered. -/
theorem Longest.below (h : Longest p xs (b + 1) j) (hj : j < b) : Longest p xs b j :=
  ⟨hj, h.ends, fun k hk he => h.max k (by omega) he⟩

/-- `k` is the length of the longest prefix, short of the word itself, that is also a suffix. -/
structure LongestBorder (xs : List α) (k : ℕ) : Prop where
  proper : k < xs.length
  suffix : xs.take k <:+ xs
  max : ∀ m < xs.length, xs.take m <:+ xs → m ≤ k

/-- In a prefix of the pattern, the prefixes of the pattern at its end are its borders. -/
theorem Longest.border {i : ℕ} (h : Longest p (p.take i) i v) (hi : i ≤ p.length) :
    LongestBorder (p.take i) v := by
  have hlen : (p.take i).length = i := by
    rw [List.length_take]
    exact Nat.min_eq_left hi
  have htake {m : ℕ} (hm : m < i) : (p.take i).take m = p.take m := by
    rw [List.take_take, Nat.min_eq_left hm.le]
  refine ⟨hlen.symm ▸ h.lt, ?_, fun m hm hsuffix => ?_⟩
  · rw [htake h.lt]
    exact h.ends.2
  · rw [hlen] at hm
    rw [htake hm] at hsuffix
    exact h.max m hm ⟨by omega, hsuffix⟩

end Borders
