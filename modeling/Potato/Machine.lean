import Mathlib.Data.List.Basic
import Mathlib.Tactic

/-!
# Machines whose steps can be refused or can fail

A step on a label either is refused (the environment cannot offer the label in
that state), stops with a fault, or yields the next state. Runs are lists of
labels. Invariants are proved for one step and lifted here, also for runs whose
steps all meet a condition on the state before the step and its label.
-/
namespace Machine

/-- Result of an operation: impossible here, stopped by a fault, or a value. -/
inductive Outcome (ε σ : Type) where
  | refused
  | fault (e : ε)
  | next (s : σ)
  deriving DecidableEq, Repr

namespace Outcome
variable {ε σ τ : Type}

def bind (x : Outcome ε σ) (f : σ → Outcome ε τ) : Outcome ε τ :=
  match x with
  | .refused => .refused
  | .fault e => .fault e
  | .next s => f s

instance : Monad (Outcome ε) where
  pure := .next
  bind := Outcome.bind

@[simp] theorem pure_eq (s : σ) : (pure s : Outcome ε σ) = .next s := rfl

@[simp] theorem refused_bind (f : σ → Outcome ε τ) : (.refused : Outcome ε σ) >>= f = .refused := rfl

@[simp] theorem fault_bind (e : ε) (f : σ → Outcome ε τ) :
    (.fault e : Outcome ε σ) >>= f = .fault e := rfl

@[simp] theorem next_bind (s : σ) (f : σ → Outcome ε τ) : (.next s : Outcome ε σ) >>= f = f s := rfl

theorem bind_assoc {υ : Type} (x : Outcome ε σ) (f : σ → Outcome ε τ) (g : τ → Outcome ε υ) :
    (x >>= f) >>= g = x >>= fun s => f s >>= g := by
  cases x <;> rfl

@[simp] theorem bind_eq_next {x : Outcome ε σ} {f : σ → Outcome ε τ} {t : τ} :
    x >>= f = .next t ↔ ∃ s, x = .next s ∧ f s = .next t := by
  cases x <;> simp

@[simp] theorem bind_eq_fault {x : Outcome ε σ} {f : σ → Outcome ε τ} {e : ε} :
    x >>= f = .fault e ↔ x = .fault e ∨ ∃ s, x = .next s ∧ f s = .fault e := by
  cases x <;> simp

/-- The environment offers the label only under `p`. -/
def require (p : Prop) [Decidable p] : Outcome ε Unit := if p then .next () else .refused

/-- An assertion of the program, with the fault of its failure. -/
def check (p : Prop) [Decidable p] (e : ε) : Outcome ε Unit := if p then .next () else .fault e

/-- The use of a value that may be absent, with the fault of its absence. -/
def deref (o : Option σ) (e : ε) : Outcome ε σ :=
  match o with
  | some s => .next s
  | none => .fault e

theorem check_pos {p : Prop} [Decidable p] (h : p) (e : ε) : check p e = .next () := if_pos h

@[simp] theorem require_eq_next {p : Prop} [Decidable p] {u : Unit} :
    (require p : Outcome ε Unit) = .next u ↔ p := by
  by_cases h : p <;> simp [require, h]

@[simp] theorem require_ne_fault {p : Prop} [Decidable p] {e : ε} :
    (require p : Outcome ε Unit) ≠ .fault e := by
  by_cases h : p <;> simp [require, h]

@[simp] theorem check_eq_next {p : Prop} [Decidable p] {e : ε} {u : Unit} :
    check p e = .next u ↔ p := by
  by_cases h : p <;> simp [check, h]

@[simp] theorem check_eq_fault {p : Prop} [Decidable p] {e e' : ε} :
    check p e = .fault e' ↔ ¬ p ∧ e = e' := by
  by_cases h : p <;> simp [check, h]

@[simp] theorem deref_eq_next {o : Option σ} {e : ε} {s : σ} :
    deref o e = .next s ↔ o = some s := by
  cases o <;> simp [deref]

@[simp] theorem deref_eq_fault {o : Option σ} {e e' : ε} :
    deref o e = .fault e' ↔ o = none ∧ e = e' := by
  cases o <;> simp [deref]

/-- A fault of a part, as a fault of the whole. -/
def mapFault {ε' : Type} (f : ε → ε') : Outcome ε σ → Outcome ε' σ
  | .refused => .refused
  | .fault e => .fault (f e)
  | .next s => .next s

@[simp] theorem mapFault_eq_next {ε' : Type} {f : ε → ε'} {x : Outcome ε σ} {s : σ} :
    x.mapFault f = .next s ↔ x = .next s := by
  cases x <;> simp [mapFault]

/-- The outcome is a value that passes the test `p`. -/
def yields (x : Outcome ε σ) (p : σ → Bool) : Bool :=
  match x with
  | .next s => p s
  | _ => false

theorem yields_eq_true {x : Outcome ε σ} {p : σ → Bool} :
    x.yields p = true ↔ ∃ s, x = .next s ∧ p s = true := by
  cases x <;> simp [yields]

/-- The outcome is the fault `e`. -/
def faults [DecidableEq ε] (x : Outcome ε σ) (e : ε) : Bool :=
  match x with
  | .fault e' => e' = e
  | _ => false

theorem faults_eq_true [DecidableEq ε] {x : Outcome ε σ} {e : ε} :
    x.faults e = true ↔ x = .fault e := by
  cases x <;> simp [faults]

/-- Every fault of the outcome satisfies `P`. -/
def Raises (P : ε → Prop) (x : Outcome ε σ) : Prop := ∀ e, x = .fault e → P e

variable {P : ε → Prop}

@[simp] theorem raises_next (s : σ) : (Outcome.next s).Raises P := fun _ h => nomatch h

@[simp] theorem raises_pure (s : σ) : (pure s : Outcome ε σ).Raises P := fun _ h => nomatch h

@[simp] theorem raises_refused : (Outcome.refused : Outcome ε σ).Raises P := fun _ h => nomatch h

@[simp] theorem raises_require {p : Prop} [Decidable p] :
    (require p : Outcome ε Unit).Raises P := fun _ h => absurd h require_ne_fault

@[simp] theorem raises_check {p : Prop} [Decidable p] {e : ε} :
    (check p e).Raises P ↔ (¬ p → P e) := by
  unfold Raises
  simp only [check_eq_fault]
  constructor
  · intro h hp
    exact h e ⟨hp, rfl⟩
  · rintro h e' ⟨hp, rfl⟩
    exact h hp

@[simp] theorem raises_deref {o : Option σ} {e : ε} :
    (deref o e).Raises P ↔ (o = none → P e) := by
  cases o <;> simp [deref, Raises]

@[simp] theorem raises_mapFault {ε' : Type} {f : ε' → ε} {x : Outcome ε' σ} :
    (x.mapFault f).Raises P ↔ x.Raises fun e => P (f e) := by
  cases x <;> simp [mapFault, Raises]

@[simp] theorem raises_bind {x : Outcome ε σ} {f : σ → Outcome ε τ} :
    (x >>= f).Raises P ↔ x.Raises P ∧ ∀ s, x = .next s → (f s).Raises P := by
  unfold Raises
  constructor
  · intro h
    exact ⟨fun e he => h e (bind_eq_fault.mpr (.inl he)),
      fun s hs e he => h e (bind_eq_fault.mpr (.inr ⟨s, hs, he⟩))⟩
  · rintro ⟨hx, hf⟩ e h
    rcases bind_eq_fault.mp h with h | ⟨s, hs, h⟩
    · exact hx e h
    · exact hf s hs e h

@[simp] theorem raises_ite {p : Prop} [Decidable p] {x y : Outcome ε σ} :
    (if p then x else y).Raises P ↔ (p → x.Raises P) ∧ (¬ p → y.Raises P) := by
  by_cases hp : p <;> simp [hp]

/-- Two outcomes agree when, whenever both yield a value, the values are related.
Refused and faulting outcomes are related to everything. -/
def Agree (R : σ → τ → Prop) (x : Outcome ε σ) (y : Outcome ε τ) : Prop :=
  ∀ s t, x = .next s → y = .next t → R s t

end Outcome

section Runs
variable {ε σ ℓ : Type} (step : σ → ℓ → Outcome ε σ)

/-- Execute a list of labels, stopping at the first refusal or fault. -/
def run (s : σ) : List ℓ → Outcome ε σ
  | [] => .next s
  | l :: ls => step s l >>= fun t => run t ls

/-- Every step that the run takes meets `C` in the state before it. -/
def StepsMeet (C : σ → ℓ → Prop) (s : σ) : List ℓ → Prop
  | [] => True
  | l :: ls => C s l ∧ ∀ t, step s l = .next t → StepsMeet C t ls

/-- The largest value that `f` takes at a step of the run, on the state before it and its label. -/
def peak (f : σ → ℓ → ℕ) (s : σ) : List ℓ → ℕ
  | [] => 0
  | l :: ls =>
    max (f s l) (match step s l with
      | .next t => peak f t ls
      | _ => 0)

/-- The value of `f` behind a step. -/
def behind (f : σ → ℕ) (s : σ) (l : ℓ) : ℕ :=
  match step s l with
  | .next t => f t
  | _ => 0

/-- The largest value that `f` takes in the states of the run. -/
def peakState (f : σ → ℕ) (s : σ) (ls : List ℓ) : ℕ := max (f s) (peak step (behind step f) s ls)

/-- The number of steps of the run that meet `C` in the state before them. -/
def tally (C : σ → ℓ → Bool) (s : σ) : List ℓ → ℕ
  | [] => 0
  | l :: ls =>
    (C s l).toNat + (match step s l with
      | .next t => tally C t ls
      | _ => 0)

instance decidableStepsMeet (C : σ → ℓ → Prop) [∀ s l, Decidable (C s l)] :
    ∀ s ls, Decidable (StepsMeet step C s ls)
  | _, [] => isTrue trivial
  | s, l :: ls =>
    match h : step s l with
    | .next t =>
      have := decidableStepsMeet C t ls
      decidable_of_iff (C s l ∧ StepsMeet step C t ls) (by simp [StepsMeet, h])
    | .refused => decidable_of_iff (C s l) (by simp [StepsMeet, h])
    | .fault _ => decidable_of_iff (C s l) (by simp [StepsMeet, h])

variable {step}

@[simp] theorem run_nil (s : σ) : run step s [] = .next s := rfl

theorem run_cons (s : σ) (l : ℓ) (ls : List ℓ) :
    run step s (l :: ls) = step s l >>= fun t => run step t ls := rfl

theorem run_append (s : σ) (ls ms : List ℓ) :
    run step s (ls ++ ms) = run step s ls >>= fun t => run step t ms := by
  induction ls generalizing s with
  | nil => rfl
  | cons l ls ih =>
    simp only [List.cons_append, run_cons]
    cases step s l with
    | refused => rfl
    | fault e => rfl
    | next t => exact ih t

theorem run_snoc {s t u : σ} {ls : List ℓ} {l : ℓ} (h : run step s ls = .next t)
    (hl : step t l = .next u) : run step s (ls ++ [l]) = .next u := by
  rw [run_append, h, Outcome.next_bind, run_cons, hl]
  rfl

/-- A condition on labels alone is met when all labels satisfy it. -/
theorem stepsMeet_of_forall {C : ℓ → Prop} {s : σ} {ls : List ℓ} (h : ∀ l ∈ ls, C l) :
    StepsMeet step (fun _ l => C l) s ls := by
  induction ls generalizing s with
  | nil => trivial
  | cons l ls ih =>
    exact ⟨h l List.mem_cons_self, fun t _ => ih fun l' hl' => h l' (List.mem_cons_of_mem l hl')⟩

/-- A condition that a run meets is met by its front and, from where that leads, by the rest. -/
theorem StepsMeet.append {C : σ → ℓ → Prop} {s t : σ} {ls ms : List ℓ}
    (hc : StepsMeet step C s (ls ++ ms)) (h : run step s ls = .next t) :
    StepsMeet step C s ls ∧ StepsMeet step C t ms := by
  induction ls generalizing s with
  | nil =>
    cases h
    exact ⟨trivial, hc⟩
  | cons l ls ih =>
    obtain ⟨u, hu, hrun⟩ := Outcome.bind_eq_next.mp h
    have hrest := ih (hc.2 u hu) hrun
    refine ⟨⟨hc.1, fun v hv => ?_⟩, hrest.2⟩
    rw [hu] at hv
    cases hv
    exact hrest.1

theorem StepsMeet.and {C D : σ → ℓ → Prop} {s : σ} {ls : List ℓ} (hc : StepsMeet step C s ls)
    (hd : StepsMeet step D s ls) : StepsMeet step (fun s l => C s l ∧ D s l) s ls := by
  induction ls generalizing s with
  | nil => trivial
  | cons l ls ih => exact ⟨⟨hc.1, hd.1⟩, fun t ht => ih (hc.2 t ht) (hd.2 t ht)⟩

/-- A bound on a peak is a bound at every step. -/
theorem peak_le_iff {f : σ → ℓ → ℕ} {s : σ} {ls : List ℓ} {n : ℕ} :
    peak step f s ls ≤ n ↔ StepsMeet step (fun s l => f s l ≤ n) s ls := by
  induction ls generalizing s with
  | nil => exact iff_of_true (Nat.zero_le n) trivial
  | cons l ls ih =>
    rw [peak, max_le_iff, StepsMeet]
    refine and_congr_right fun _ => ?_
    cases step s l with
    | refused => exact iff_of_true (Nat.zero_le n) nofun
    | fault e => exact iff_of_true (Nat.zero_le n) nofun
    | next t =>
      refine ih.trans ⟨?_, fun h => h t rfl⟩
      rintro h _ ⟨⟩
      exact h

theorem tally_cons {C : σ → ℓ → Bool} {s t : σ} {l : ℓ} {ls : List ℓ} (h : step s l = .next t) :
    tally step C s (l :: ls) = (C s l).toNat + tally step C t ls := by
  rw [tally, h]

theorem behind_eq {f : σ → ℕ} {s t : σ} {l : ℓ} (h : step s l = .next t) :
    behind step f s l = f t := by
  rw [behind, h]

/-- Conditions that agree under an invariant are met by the same runs. -/
theorem stepsMeet_iff {C D : σ → ℓ → Prop} {I : σ → Prop}
    (hiff : ∀ s l, I s → (C s l ↔ D s l))
    (hstep : ∀ s l t, I s → D s l → step s l = .next t → I t) {s : σ} {ls : List ℓ} (hs : I s) :
    StepsMeet step C s ls ↔ StepsMeet step D s ls := by
  induction ls generalizing s with
  | nil => exact Iff.rfl
  | cons l ls ih =>
    simp only [StepsMeet, hiff s l hs]
    refine and_congr_right fun hd => ?_
    exact forall_congr' fun t => imp_congr_right fun ht => ih (hstep s l t hs hd ht)

/-- A step that meets `C` and keeps `I` carries `I` along runs that meet `C`. -/
theorem run_invariant_of {C : σ → ℓ → Prop} {I : σ → Prop}
    (hstep : ∀ s l t, I s → C s l → step s l = .next t → I t) {s t : σ} {ls : List ℓ}
    (hs : I s) (hc : StepsMeet step C s ls) (h : run step s ls = .next t) : I t := by
  induction ls generalizing s with
  | nil => cases h; exact hs
  | cons l ls ih =>
    obtain ⟨u, hu, hrun⟩ := Outcome.bind_eq_next.mp h
    exact ih (hstep s l u hs hc.1 hu) (hc.2 u hu) hrun

theorem run_invariant {I : σ → Prop} (hstep : ∀ s l t, I s → step s l = .next t → I t)
    {s t : σ} {ls : List ℓ} (hs : I s) (h : run step s ls = .next t) : I t := by
  induction ls generalizing s with
  | nil => cases h; exact hs
  | cons l ls ih =>
    obtain ⟨u, hu, hrun⟩ := Outcome.bind_eq_next.mp h
    exact ih (hstep s l u hs hu) hrun

/-- The same for a step that keeps `I` between states in which `f` is at most `n`. -/
theorem run_invariant_peak {C : σ → ℓ → Prop} {I : σ → Prop} {f : σ → ℕ} {n : ℕ}
    (hstep : ∀ s l t, I s → C s l → f s ≤ n → f t ≤ n → step s l = .next t → I t)
    {s t : σ} {ls : List ℓ} (hs : I s) (hn : peakState step f s ls ≤ n)
    (hc : StepsMeet step C s ls) (h : run step s ls = .next t) : I t := by
  obtain ⟨hfirst, hrest⟩ := max_le_iff.mp hn
  have hkeep : ∀ s l t, I s ∧ f s ≤ n → C s l ∧ behind step f s l ≤ n → step s l = .next t →
      I t ∧ f t ≤ n := by
    rintro s l t ⟨hi, hf⟩ ⟨hc, hf'⟩ ht
    rw [behind_eq ht] at hf'
    exact ⟨hstep s l t hi hc hf hf' ht, hf'⟩
  exact (run_invariant_of hkeep ⟨hs, hfirst⟩ (hc.and (peak_le_iff.mp hrest)) h).1

/-- A fault that no step from an invariant state raises is raised by no run. -/
theorem run_ne_fault_of {C : σ → ℓ → Prop} {I : σ → Prop} {e : ε}
    (hstep : ∀ s l t, I s → C s l → step s l = .next t → I t)
    (hfault : ∀ s l, I s → C s l → step s l ≠ .fault e) {s : σ} {ls : List ℓ}
    (hs : I s) (hc : StepsMeet step C s ls) : run step s ls ≠ .fault e := by
  induction ls generalizing s with
  | nil => simp
  | cons l ls ih =>
    intro h
    rcases Outcome.bind_eq_fault.mp h with hl | ⟨u, hu, hrun⟩
    · exact hfault s l hs hc.1 hl
    · exact ih (hstep s l u hs hc.1 hu) (hc.2 u hu) hrun

theorem run_ne_fault {I : σ → Prop} {e : ε}
    (hstep : ∀ s l t, I s → step s l = .next t → I t)
    (hfault : ∀ s l, I s → step s l ≠ .fault e) {s : σ} {ls : List ℓ}
    (hs : I s) : run step s ls ≠ .fault e := by
  induction ls generalizing s with
  | nil => simp
  | cons l ls ih =>
    intro h
    rcases Outcome.bind_eq_fault.mp h with hl | ⟨u, hu, hrun⟩
    · exact hfault s l hs hl
    · exact ih (hstep s l u hs hu) hrun

/-- Forward simulation: steps that meet `C` succeed and follow an abstract step function. -/
theorem run_simulates {α : Type} {astep : α → ℓ → α} {C : σ → ℓ → Prop} {R : σ → α → Prop}
    (hstep : ∀ s a l, R s a → C s l → ∃ t, step s l = .next t ∧ R t (astep a l))
    {s : σ} {a : α} {ls : List ℓ} (hs : R s a) (hc : StepsMeet step C s ls) :
    ∃ t, run step s ls = .next t ∧ R t (ls.foldl astep a) := by
  induction ls generalizing s a with
  | nil => exact ⟨s, rfl, hs⟩
  | cons l ls ih =>
    obtain ⟨u, hu, hr⟩ := hstep s a l hs hc.1
    obtain ⟨t, ht, hrt⟩ := ih hr (hc.2 u hu)
    exact ⟨t, by rw [run_cons, hu, Outcome.next_bind, ht], hrt⟩

/-- A machine of which each step is a run of a part, on labels that meet `D`, runs that part. -/
theorem run_projects {τ κ : Type} {part : τ → κ → Outcome ε τ} {π : σ → τ} {C : ℓ → Prop}
    {D : κ → Prop}
    (hstep : ∀ s l t, C l → step s l = .next t →
      ∃ ks, (∀ k ∈ ks, D k) ∧ run part (π s) ks = .next (π t))
    {s t : σ} {ls : List ℓ} (hc : ∀ l ∈ ls, C l) (h : run step s ls = .next t) :
    ∃ ks, (∀ k ∈ ks, D k) ∧ run part (π s) ks = .next (π t) := by
  induction ls generalizing s with
  | nil =>
    cases h
    exact ⟨[], by simp, rfl⟩
  | cons l ls ih =>
    obtain ⟨u, hu, hrun⟩ := Outcome.bind_eq_next.mp h
    obtain ⟨ks, hks, hpart⟩ := hstep s l u (hc l List.mem_cons_self) hu
    obtain ⟨ms, hms, hrest⟩ := ih (fun l' hl' => hc l' (List.mem_cons_of_mem l hl')) hrun
    refine ⟨ks ++ ms, fun k hk => (List.mem_append.mp hk).elim (hks k) (hms k), ?_⟩
    rw [run_append, hpart, Outcome.next_bind, hrest]

/-- Two runs on the same labels stay related when every pair of steps does. -/
theorem run_agree {R : σ → σ → Prop} {C : ℓ → Prop}
    (hstep : ∀ s s' l, R s s' → C l → Outcome.Agree R (step s l) (step s' l))
    {s s' : σ} {ls : List ℓ} (hs : R s s') (hc : ∀ l ∈ ls, C l) :
    Outcome.Agree R (run step s ls) (run step s' ls) := by
  induction ls generalizing s s' with
  | nil => intro t t' h h'; cases h; cases h'; exact hs
  | cons l ls ih =>
    intro t t' h h'
    obtain ⟨u, hu, hrun⟩ := Outcome.bind_eq_next.mp h
    obtain ⟨u', hu', hrun'⟩ := Outcome.bind_eq_next.mp h'
    exact ih (hstep s s' l hs (hc l List.mem_cons_self) u u' hu hu')
      (fun l' hl' => hc l' (List.mem_cons_of_mem l hl')) t t' hrun hrun'

end Runs
end Machine
