import Mathlib.Data.List.Basic
import Mathlib.Tactic

/-!
# Who holds what

Objects in a table, each with a list of the things that it holds. What the table
holds is counted thing by thing, so that a change of one object changes the count by
what that object gains and loses.
-/
namespace Custody
variable {α δ : Type*} (holds : α → List δ)

/-- What the objects of a table hold together. -/
def holdings (objects : List α) : List δ := objects.flatMap holds

variable {holds} in
theorem mem_holdings {objects : List α} {d : δ} :
    d ∈ holdings holds objects ↔ ∃ x ∈ objects, d ∈ holds x := by
  simp [holdings]

variable {holds} in
theorem holdings_eq_nil {objects : List α} :
    holdings holds objects = [] ↔ ∀ x ∈ objects, holds x = [] := by
  simp [holdings]

variable [DecidableEq δ]

theorem count_snoc (objects : List α) (x : α) (d : δ) :
    (holdings holds (objects ++ [x])).count d =
      (holdings holds objects).count d + (holds x).count d := by
  simp [holdings]

theorem count_set {objects : List α} {i : ℕ} {x : α} (h : objects[i]? = some x) (y : α) (d : δ) :
    (holdings holds (objects.set i y)).count d + (holds x).count d =
      (holdings holds objects).count d + (holds y).count d := by
  induction objects generalizing i with
  | nil => simp at h
  | cons z objects ih =>
    cases i with
    | zero =>
      obtain rfl : z = x := by simpa using h
      simp only [holdings, List.set_cons_zero, List.flatMap_cons, List.count_append]
      omega
    | succ i =>
      have hrest := ih (i := i) (by simpa using h)
      simp only [holdings, List.set_cons_succ, List.flatMap_cons, List.count_append] at hrest ⊢
      omega

/-- A change that neither gives nor takes. -/
theorem count_set_of_eq {objects : List α} {i : ℕ} {x y : α} (h : objects[i]? = some x)
    (he : holds y = holds x) (d : δ) :
    (holdings holds (objects.set i y)).count d = (holdings holds objects).count d := by
  have hset := count_set holds h y d
  rw [he] at hset
  omega

end Custody
