import Mathlib.Data.List.Basic
import Mathlib.Tactic

/-!
# Words between two runs of a letter

A word can be written in one way only as a run of a letter, a middle part that neither starts nor
ends with the letter, and another run. The middle part lies between the first and the last index
with another letter, or is empty.
-/
namespace Trimming

variable {α : Type} {a : α} {xs core core' : List α} {front back n m : ℕ}

/-- The word does not start and does not end with the letter. -/
def Bare (a : α) (xs : List α) : Prop := xs.head? ≠ some a ∧ xs.getLast? ≠ some a

/-- `core` is what is left of `xs` without the runs of the letter at both ends. -/
structure Trims (a : α) (xs core : List α) : Prop where
  runs : ∃ n m, xs = List.replicate n a ++ core ++ List.replicate m a
  bare : Bare a core

/-- The first and the last index with another letter. -/
structure Outermost (a : α) (xs : List α) (front back : ℕ) : Prop where
  le : front ≤ back
  lt : back < xs.length
  before : ∀ k < front, xs[k]? = some a
  first : xs[front]? ≠ some a
  last : xs[back]? ≠ some a
  behind : ∀ k, back < k → k < xs.length → xs[k]? = some a

theorem Bare.trims (h : Bare a xs) : Trims a xs xs := ⟨⟨0, 0, by simp⟩, h⟩

theorem trims_nil : Trims a xs [] ↔ ∀ x ∈ xs, x = a := by
  constructor
  · rintro ⟨⟨n, m, rfl⟩, -⟩ x hx
    simp only [List.append_nil, List.mem_append, List.mem_replicate] at hx
    exact hx.elim And.right And.right
  · intro h
    refine ⟨⟨xs.length, 0, ?_⟩, nofun, nofun⟩
    simpa using List.eq_replicate_of_mem h

/-- All letters of a range are the same. -/
theorem eq_replicate (h : ∀ k < xs.length, xs[k]? = some a) :
    xs = List.replicate xs.length a := by
  refine List.eq_replicate_of_mem fun x hx => ?_
  obtain ⟨k, hk, rfl⟩ := List.mem_iff_getElem.mp hx
  have := h k hk
  rwa [List.getElem?_eq_getElem hk, Option.some.injEq] at this

theorem Outermost.trims (h : Outermost a xs front back) :
    Trims a xs ((xs.drop front).take (back + 1 - front)) := by
  have hle := h.le
  have hlt := h.lt
  have hlen : ((xs.drop front).take (back + 1 - front)).length = back + 1 - front := by
    rw [List.length_take, List.length_drop]
    omega
  refine ⟨⟨(xs.take front).length, (xs.drop (back + 1)).length, ?_⟩, ?_, ?_⟩
  · have hfront : xs.take front = List.replicate (xs.take front).length a := by
      refine eq_replicate fun k hk => ?_
      rw [List.length_take] at hk
      rw [List.getElem?_take_of_lt (by omega)]
      exact h.before k (by omega)
    have hback : xs.drop (back + 1) = List.replicate (xs.drop (back + 1)).length a := by
      refine eq_replicate fun k hk => ?_
      rw [List.length_drop] at hk
      rw [List.getElem?_drop]
      exact h.behind _ (by omega) (by omega)
    have hrest : xs.drop (back + 1) = (xs.drop front).drop (back + 1 - front) := by
      rw [List.drop_drop]
      congr 1
      omega
    rw [← hfront, ← hback, hrest, List.append_assoc, List.take_append_drop, List.take_append_drop]
  · rw [List.head?_take, if_neg (by omega), List.head?_drop]
    exact h.first
  · rw [List.getLast?_eq_getElem?, hlen, List.getElem?_take_of_lt (by omega), List.getElem?_drop]
    have hindex : front + (back + 1 - front - 1) = back := by omega
    rw [hindex]
    exact h.last

/-- A word that starts with another letter ends a run in front of it. -/
theorem append_run_inj {ys zs : List α} (hys : ys.head? ≠ some a) (hzs : zs.head? ≠ some a)
    (h : List.replicate n a ++ ys = List.replicate m a ++ zs) : ys = zs := by
  induction n generalizing m with
  | zero =>
    cases m with
    | zero => exact h
    | succ m =>
      rw [List.replicate_zero, List.nil_append] at h
      rw [h] at hys
      exact absurd rfl hys
  | succ n ih =>
    cases m with
    | zero =>
      rw [List.replicate_zero, List.nil_append] at h
      rw [← h] at hzs
      exact absurd rfl hzs
    | succ m =>
      rw [List.replicate_succ, List.replicate_succ, List.cons_append, List.cons_append,
        List.cons.injEq] at h
      exact ih h.2

/-- The middle part is unique. -/
theorem Trims.unique (h : Trims a xs core) (h' : Trims a xs core') : core = core' := by
  -- an empty middle part leaves letters `a` only
  have key {c : List α} (hnil : Trims a xs []) (hc : Trims a xs c) : c = [] := by
    obtain ⟨n, m, hruns⟩ := hc.runs
    cases c with
    | nil => rfl
    | cons x c =>
      have hx : x = a := trims_nil.mp hnil x (by simp [hruns])
      exact absurd (by rw [hx]; rfl) hc.bare.1
  obtain rfl | hne := eq_or_ne core []
  · exact (key h h').symm
  obtain rfl | hne' := eq_or_ne core' []
  · exact key h' h
  obtain ⟨n, m, hruns⟩ := h.runs
  obtain ⟨n', m', hruns'⟩ := h'.runs
  have hfront : core ++ List.replicate m a = core' ++ List.replicate m' a := by
    refine append_run_inj (a := a) (n := n) (m := n') ?_ ?_ ?_
    · rw [List.head?_append_of_ne_nil _ hne]
      exact h.bare.1
    · rw [List.head?_append_of_ne_nil _ hne']
      exact h'.bare.1
    · rw [← List.append_assoc, ← List.append_assoc, ← hruns, hruns']
  have hback := congrArg List.reverse hfront
  rw [List.reverse_append, List.reverse_append, List.reverse_replicate,
    List.reverse_replicate] at hback
  refine List.reverse_injective (append_run_inj ?_ ?_ hback)
  · rw [List.head?_reverse]
    exact h.bare.2
  · rw [List.head?_reverse]
    exact h'.bare.2

end Trimming
