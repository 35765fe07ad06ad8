import Mathlib.Data.List.Basic

/-!
# First-in first-out ledgers

The abstract form of a byte queue or a byte stream: everything that was ever
appended, everything that was ever taken from the front, and what lies between.
The three lists balance by construction.
-/
structure Ledger (α : Type*) where
  appended : List α
  consumed : List α
  content : List α
  balanced : appended = consumed ++ content

namespace Ledger
variable {α : Type*}

def empty : Ledger α := ⟨[], [], [], rfl⟩

def push (q : Ledger α) (xs : List α) : Ledger α where
  appended := q.appended ++ xs
  consumed := q.consumed
  content := q.content ++ xs
  balanced := by rw [q.balanced, List.append_assoc]

/-- Take the `n` oldest elements from the front. -/
def pop (q : Ledger α) (n : ℕ) : Ledger α where
  appended := q.appended
  consumed := q.consumed ++ q.content.take n
  content := q.content.drop n
  balanced := by rw [List.append_assoc, List.take_append_drop, q.balanced]

@[simp] theorem empty_content : (empty : Ledger α).content = [] := rfl

@[simp] theorem push_content (q : Ledger α) (xs : List α) :
    (q.push xs).content = q.content ++ xs := rfl

@[simp] theorem pop_content (q : Ledger α) (n : ℕ) : (q.pop n).content = q.content.drop n := rfl

end Ledger
