import Mathlib.Logic.Function.Basic

/-!
# A lock that is one flag

Threads stand at places of a program. A thread comes inside by setting a flag that
was clear, and clears the flag when it leaves. A thread that is inside may hold a
copy of the data that the lock guards. Nothing here depends on what the places are.
-/
namespace TestAndSet

section Lock
variable {ι π : Type} {inside : π → Bool} {flag : Bool} {place : ι → π} {i j : ι} {b : π}

/-- The flag is set just when a thread is inside, and there are never two. -/
structure Exclusive (inside : π → Bool) (flag : Bool) (place : ι → π) : Prop where
  held : flag = true ↔ ∃ i, inside (place i) = true
  alone : ∀ i j, inside (place i) = true → inside (place j) = true → i = j

theorem Exclusive.start (h : ∀ i, inside (place i) = false) : Exclusive inside false place where
  held := by simp [h]
  alone := fun i _ hi => by simp [h i] at hi

theorem Exclusive.outside (h : Exclusive inside false place) (i : ι) :
    inside (place i) = false := by
  by_contra hi
  exact absurd (h.held.mpr ⟨i, by simpa using hi⟩) Bool.false_ne_true

theorem Exclusive.others (h : Exclusive inside flag place) (hi : inside (place i) = true)
    (hj : j ≠ i) : inside (place j) = false := by
  by_contra hno
  exact hj (h.alone j i (by simpa using hno) hi)

/-- What holds of every place outside alike is known of the thread inside, or of all if there is
none, once it is known of one that is inside when any is. -/
theorem Exclusive.forall_owner {P : π → Prop} (h : Exclusive inside flag place)
    (hin : flag = true → inside (place i) = true)
    (hout : ∀ a b, inside a = false → inside b = false → P a → P b) (hi : P (place i)) :
    ∀ j, (flag = true → inside (place j) = true) → P (place j) := by
  intro j hj
  cases hflag : flag with
  | true =>
    obtain rfl : j = i := h.alone j i (hj hflag) (hin hflag)
    exact hi
  | false =>
    subst hflag
    exact hout _ _ (h.outside i) (h.outside j) hi

variable [DecidableEq ι]

/-- The same when a thread moves outside. -/
theorem forall_owner_outside {P : π → Prop} (hi : inside (place i) = false)
    (hb : inside b = false) (hout : ∀ a b, inside a = false → inside b = false → P a → P b)
    (h : ∀ j, (flag = true → inside (place j) = true) → P (place j)) :
    ∀ j, (flag = true → inside (Function.update place i b j) = true) →
      P (Function.update place i b j) := by
  intro j hj
  by_cases he : j = i
  · subst he
    rw [Function.update_self] at hj ⊢
    have hfree : ¬ flag = true := fun hflag => by
      rw [hb] at hj
      exact Bool.false_ne_true (hj hflag)
    exact hout _ _ hi hb (h j fun hflag => absurd hflag hfree)
  · rw [Function.update_of_ne he] at hj ⊢
    exact h j hj

theorem Exclusive.acquire (h : Exclusive inside false place) (hb : inside b = true) :
    Exclusive inside true (Function.update place i b) := by
  have hother : ∀ j, inside (Function.update place i b j) = true → j = i := by
    intro j hj
    by_contra hne
    rw [Function.update_of_ne hne, h.outside j] at hj
    cases hj
  refine ⟨iff_of_true rfl ⟨i, by rwa [Function.update_self]⟩, fun j k hj hk => ?_⟩
  rw [hother j hj, hother k hk]

theorem Exclusive.move (h : Exclusive inside flag place) (hb : inside b = inside (place i)) :
    Exclusive inside flag (Function.update place i b) := by
  have hsame : ∀ j, inside (Function.update place i b j) = inside (place j) := by
    intro j
    by_cases hj : j = i
    · rw [hj, Function.update_self, hb]
    · rw [Function.update_of_ne hj]
  refine ⟨?_, fun j k => ?_⟩
  · simp only [hsame]
    exact h.held
  · simp only [hsame]
    exact h.alone j k

theorem Exclusive.release (h : Exclusive inside flag place) (hi : inside (place i) = true)
    (hb : inside b = false) : Exclusive inside false (Function.update place i b) := by
  refine .start fun j => ?_
  by_cases hj : j = i
  · rw [hj, Function.update_self, hb]
  · rw [Function.update_of_ne hj, h.others hi hj]

end Lock

section Data
variable {ι π δ : Type} {inside : π → Bool} {seen : π → Option δ} {flag : Bool} {place : ι → π}
  {i : ι} {b : π} {data new : δ}

/-- A copy that a thread holds is what is there. -/
def Current (seen : π → Option δ) (data : δ) (place : ι → π) : Prop :=
  ∀ i d, seen (place i) = some d → d = data

theorem Current.start (h : ∀ i, seen (place i) = none) : Current seen data place :=
  fun i d hd => by simp [h i] at hd

variable [DecidableEq ι]

theorem Current.move (h : Current seen data place) (hb : ∀ d, seen b = some d → d = data) :
    Current seen data (Function.update place i b) := by
  intro j d hd
  by_cases hj : j = i
  · rw [hj, Function.update_self] at hd
    exact hb d hd
  · rw [Function.update_of_ne hj] at hd
    exact h j d hd

/-- Only the thread inside writes, so nobody is left with an old copy. -/
theorem Current.write (hseen : ∀ p d, seen p = some d → inside p = true)
    (he : Exclusive inside flag place) (hi : inside (place i) = true) (hb : seen b = none) :
    Current seen new (Function.update place i b) := by
  intro j d hd
  by_cases hj : j = i
  · rw [hj, Function.update_self, hb] at hd
    cases hd
  · rw [Function.update_of_ne hj] at hd
    have hin := hseen _ d hd
    rw [he.others hi hj] at hin
    cases hin

end Data
end TestAndSet
