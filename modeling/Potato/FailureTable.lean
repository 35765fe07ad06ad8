import Mathlib.Logic.Relation
import Potato.StringSlice

/-!
# The failure table of the substring search

What the first loop of `find` leaves behind are the borders of the prefixes of the needle. Every
index that the `while` loop inside comes to is smaller than the one before and lies in the needle.
-/
namespace Potato
open Words Machine Borders Relation

namespace StringSlice

/-- One round of `while (j > 0 && c != slice[j])`, from `j` to `j'`. -/
def Falls (slice : StringSlice) (next : List ℕ) (c : Byte) (j j' : ℕ) : Prop :=
  0 < j ∧ (∃ d, slice.get j = .next d ∧ c ≠ d) ∧ next[j - 1]? = some j'

variable {slice : StringSlice} {next : List ℕ} {c : Byte} {i j k m r : ℕ}

/-- A round of the `while` loop lowers `j`, as far as the table is filled. -/
theorem Falls.lt (ht : slice.IsTable next m) (hj : j ≤ m) (h : slice.Falls next c j k) : k < j := by
  obtain ⟨hpos, -, hentry⟩ := h
  obtain ⟨v, hv, hlongest⟩ := ht j hpos hj
  obtain rfl : v = k := Option.some.inj (hv.symm.trans hentry)
  exact hlongest.lt

theorem falls_le (ht : slice.IsTable next m) (hj : j ≤ m)
    (h : ReflTransGen (slice.Falls next c) j k) : k ≤ j := by
  induction h with
  | refl => exact le_rfl
  | tail _ hlast ih => exact (hlast.lt ht (ih.trans hj)).le.trans ih

/-- Where the `while` loop ends, it has come by its own rounds, and there is no other. -/
theorem fallBack_falls {fuel : ℕ} (h : fallBack slice next c fuel j = .next r) :
    ReflTransGen (slice.Falls next c) j r ∧ ∀ k, ¬ slice.Falls next c r k := by
  induction fuel generalizing j with
  | zero => cases h
  | succ fuel ih =>
    unfold fallBack at h
    by_cases hpos : j > 0
    · rw [if_pos hpos, Outcome.bind_eq_next] at h
      obtain ⟨d, hd, h⟩ := h
      by_cases hc : c = d
      · rw [if_neg (not_not.mpr hc), Outcome.pure_eq, Outcome.next.injEq] at h
        subst h
        refine ⟨.refl, ?_⟩
        rintro k ⟨-, ⟨d', hd', hne⟩, -⟩
        rw [hd, Outcome.next.injEq] at hd'
        exact hne (hc.trans hd')
      · rw [if_pos hc, Outcome.bind_eq_next] at h
        obtain ⟨v, hv, h⟩ := h
        obtain ⟨hreach, hend⟩ := ih h
        exact ⟨.head ⟨hpos, ⟨d, hd, hc⟩, Outcome.deref_eq_next.mp hv⟩ hreach, hend⟩
    · rw [if_neg hpos, Outcome.pure_eq, Outcome.next.injEq] at h
      subst h
      exact ⟨.refl, fun k hk => hpos hk.1⟩

/-- The `while` loop in the round for the index `i`: it returns, and every index on its way is
smaller than the one before and lies in the needle. -/
structure FallsWithin (slice : StringSlice) (i : ℕ) (next : List ℕ) (j : ℕ) (c : Byte) : Prop where
  returns : ∃ r, fallBack slice next c (j + 1) j = .next r ∧
    ReflTransGen (slice.Falls next c) j r ∧ ∀ k, ¬ slice.Falls next c r k
  inside : ∀ k, ReflTransGen (slice.Falls next c) j k → k < slice.size
  lowers : ∀ k k', ReflTransGen (slice.Falls next c) j k → slice.Falls next c k k' → k' < k

theorem Filled.fallsWithin (h : slice.Filled i (next, j)) (hi : i < slice.size) :
    slice.FallsWithin i next j c := by
  have hlt : j < i := h.longest.lt
  obtain ⟨r, hr, -, -⟩ :=
    fallBack_spec h.table hi.le (h.longest.covers c) hlt.le (Nat.lt_succ_self j)
  refine ⟨⟨r, hr, fallBack_falls hr⟩, fun k hk => ?_, fun k k' hk hlast => ?_⟩
  · have := falls_le h.table hlt.le hk
    omega
  · exact hlast.lt h.table ((falls_le h.table hlt.le hk).trans hlt.le)

/-- For every needle that is not empty: each entry of the failure table is the length of the longest
proper border of the prefix that ends there, and in each round of the loop that fills it the inner
loop ends and stays inside the needle. -/
theorem failureTable_borders (slice : StringSlice) (nonempty : slice.data ≠ []) :
    (∃ next, slice.failureTable = .next next ∧ next.length = slice.size ∧
      ∀ i < slice.size, ∃ v, next[i]? = some v ∧ LongestBorder (slice.data.take (i + 1)) v) ∧
    ∀ i, 1 ≤ i → i < slice.size → ∃ next j c, slice.tableUpTo i = .next (next, j) ∧
      slice.get i = .next c ∧ slice.FallsWithin i next j c := by
  have hpos : 0 < slice.size := List.length_pos_iff.mpr nonempty
  constructor
  · obtain ⟨next, hnext, hlen, htable⟩ := failureTable_spec hpos
    refine ⟨next, hnext, hlen, fun i hi => ?_⟩
    obtain ⟨v, hv, hlongest⟩ := htable (i + 1) (Nat.succ_pos i) hi
    exact ⟨v, hv, hlongest.border hi⟩
  · intro i hone hi
    obtain ⟨⟨next, j⟩, hrun, hfilled⟩ := tableUpTo_spec hone hi.le
    exact ⟨next, j, slice.data[i], hrun, get_eq_next.mpr (List.getElem?_eq_getElem hi),
      hfilled.fallsWithin hi⟩

/-- The needle `aabaaab`, whose fifth entry falls back inside a border. -/
theorem failureTable_borders_nested : ∃ next,
    failureTable ⟨[97, 97, 98, 97, 97, 97, 98], by decide⟩ = .next next ∧
      next[5]? = some 2 ∧ LongestBorder [97, 97, 98, 97, 97, (97 : Byte)] 2 := by
  obtain ⟨⟨next, htable, -, hborders⟩, -⟩ :=
    failureTable_borders ⟨[97, 97, 98, 97, 97, 97, 98], by decide⟩ (by decide)
  obtain ⟨v, hv, hborder⟩ := hborders 5 (by decide)
  have hcomputed : failureTable ⟨[97, 97, 98, 97, 97, 97, 98], by decide⟩ =
      .next [0, 1, 0, 1, 2, 2, 3] := by
    decide +kernel
  obtain rfl : [0, 1, 0, 1, 2, 2, 3] = next := Outcome.next.inj (hcomputed.symm.trans htable)
  obtain rfl : 2 = v := Option.some.inj hv
  exact ⟨_, htable, rfl, hborder⟩

end StringSlice
end Potato
