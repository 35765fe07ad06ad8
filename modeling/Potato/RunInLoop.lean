import Potato.EventLoop

/-!
# What becomes of a functor given to `runInLoop`

A functor is queued, in the batch that is being run, or started. Only the functors
of other threads pass through the queue, so a step leaves the order of each
thread's functors as it is.
-/
namespace Potato
open Machine

namespace EventLoop

/-- The functors by their places: started, still to run in the batch, in the queue. -/
def places (e : EventLoop) : List Task :=
  e.started.map Prod.fst ++ (e.functors ++ e.pendingFunctors)

/-- The functors of one thread, in the order of a list. -/
def ofThread (thread : Option ℕ) (tasks : List Task) : List Task :=
  tasks.filter (·.thread = thread)

variable {e e' : EventLoop} {l : LoopLabel}

@[simp] theorem ofThread_append (thread : Option ℕ) (tasks tasks' : List Task) :
    ofThread thread (tasks ++ tasks') = ofThread thread tasks ++ ofThread thread tasks' :=
  List.filter_append ..

theorem ofThread_none_of_posted {tasks : List Task} (h : ∀ task ∈ tasks, task.thread ≠ none) :
    ofThread none tasks = [] := by
  simpa [ofThread, List.filter_eq_nil_iff] using h

/-- The invariant: the loop thread posts nothing, a batch is there only while it runs, and every
thread finds its functors in the places in the order in which it submitted them. -/
structure Delivered (e : EventLoop) : Prop where
  posted : ∀ task ∈ e.functors ++ e.pendingFunctors, task.thread ≠ none
  batch : e.pc ≠ .run → e.functors = []
  exact : e.places.Perm e.submitted
  inOrder : ∀ thread, ofThread thread e.places = ofThread thread e.submitted
  onLoop : ∀ s ∈ e.started, s.2 = none

theorem Delivered.start (etMode : Bool) (n : ℕ) : Delivered (start etMode n) where
  posted := fun _ h => nomatch h
  batch := fun _ => rfl
  exact := .refl _
  inOrder := fun _ => rfl
  onLoop := fun _ h => nomatch h

/-- A step that leaves the functors where they are. -/
theorem Delivered.frame (h : Delivered e) (hbatch : e'.pc ≠ .run → e.pc ≠ .run)
    (hf : e'.functors = e.functors) (hp : e'.pendingFunctors = e.pendingFunctors)
    (hst : e'.started = e.started) (hsub : e'.submitted = e.submitted) : Delivered e' := by
  have hplaces : e'.places = e.places := by rw [places, places, hf, hp, hst]
  refine ⟨?_, fun hpc => hf.trans (h.batch (hbatch hpc)), ?_, ?_, ?_⟩
  · rw [hf, hp]
    exact h.posted
  · rw [hplaces, hsub]
    exact h.exact
  · rw [hplaces, hsub]
    exact h.inOrder
  · rw [hst]
    exact h.onLoop

/-- Another thread pushes at the back of the queue. -/
theorem Delivered.push (h : Delivered e) {j functor : ℕ} {threads : List ThreadPc} :
    Delivered { e.push ⟨some j, functor⟩ with threads := threads } := by
  have hplaces : places { e.push ⟨some j, functor⟩ with threads := threads } =
      e.places ++ [⟨some j, functor⟩] := by simp [places, EventLoop.push]
  refine ⟨fun task ht => ?_, h.batch, ?_, fun thread => ?_, h.onLoop⟩
  · simp only [EventLoop.push, List.mem_append, List.mem_singleton] at ht
    rcases ht with ht | ht | rfl
    · exact h.posted task (List.mem_append_left _ ht)
    · exact h.posted task (List.mem_append_right _ ht)
    · simp
  · rw [hplaces]
    exact h.exact.append_right _
  · rw [hplaces]
    simp only [EventLoop.push, ofThread_append, h.inOrder thread]

/-- A functor of the loop thread starts in front of everything that is still to run. -/
theorem Delivered.inline (h : Delivered e) {task : Task} (hloop : task.thread = none) :
    Delivered ({ e with submitted := e.submitted ++ [task] }.call task none) := by
  have hplaces : places ({ e with submitted := e.submitted ++ [task] }.call task none) =
      e.started.map Prod.fst ++ ([task] ++ (e.functors ++ e.pendingFunctors)) := by
    simp [places, call]
  refine ⟨h.posted, h.batch, ?_, fun thread => ?_, fun s hs => ?_⟩
  · rw [hplaces]
    have hback : (e.started.map Prod.fst ++ ([task] ++
        (e.functors ++ e.pendingFunctors))).Perm (e.places ++ [task]) := by
      rw [places, List.append_assoc]
      exact List.perm_append_comm.append_left _
    exact hback.trans (h.exact.append_right _)
  · rw [hplaces]
    have hin := h.inOrder thread
    simp only [places, ofThread_append] at hin
    simp only [call, ofThread_append, ← hin]
    by_cases ht : thread = none
    · subst ht
      have hposted := ofThread_none_of_posted h.posted
      simp only [ofThread_append, List.append_eq_nil_iff] at hposted
      simp [hposted]
    · have hother : ofThread thread [task] = [] := by
        simp [ofThread, hloop, Ne.symm ht]
      simp [hother]
  · simp only [call, List.mem_append, List.mem_singleton] at hs
    rcases hs with hs | rfl
    · exact h.onLoop s hs
    · rfl

theorem Delivered.step (h : Delivered e) (hs : step e l = .next e') : Delivered e' := by
  cases step_next hs with
  | test hpc | wait hpc | handled hpc => exact h.frame (fun _ => by simp [hpc]) rfl rfl rfl rfl
  | drain hpc =>
    unfold readWakeup
    split_ifs
    · exact h.frame (fun _ => by simp [hpc]) rfl rfl rfl rfl
    · exact h.frame (fun _ => by simp [hpc]) rfl rfl rfl rfl
  | swap hpc =>
    have hnone : e.functors = [] := h.batch (by simp [hpc])
    have hplaces : places { e with functors := e.pendingFunctors, pendingFunctors := [], pc := .run }
        = e.places := by simp [places, hnone]
    refine ⟨fun task ht => h.posted task ?_, fun hno => absurd rfl hno, ?_, ?_, h.onLoop⟩
    · simpa [hnone] using ht
    · rw [hplaces]
      exact h.exact
    · rw [hplaces]
      exact h.inOrder
  | @functor task functors hpc hf =>
    have hplaces : places ({ e with functors := functors }.call task none) = e.places := by
      simp [places, call, hf]
    refine ⟨fun t ht => h.posted t ?_, fun hno => absurd hpc hno, ?_, ?_, fun s hs => ?_⟩
    · rw [hf]
      exact List.mem_cons_of_mem task ht
    · rw [hplaces]
      exact h.exact
    · rw [hplaces]
      exact h.inOrder
    · simp only [call, List.mem_append, List.mem_singleton] at hs
      rcases hs with hs | rfl
      · exact h.onLoop s hs
      · rfl
  | done _ hnone => exact ⟨h.posted, fun _ => hnone, h.exact, h.inOrder, h.onLoop⟩
  | inline => exact h.inline rfl
  | push => exact h.push
  | lock | stopHere | stop | wakeup | unlock | clear | leave => exact h.frame id rfl rfl rfl rfl

/-- In every reachable state the functors that were submitted are the ones in the three places,
those of each thread in the order in which it submitted them, and all that have started did so on
the loop thread. -/
theorem delivered_once_in_order (etMode : Bool) (n : ℕ) (ls : List LoopLabel) (e : EventLoop)
    (run_eq : run step (start etMode n) ls = .next e) :
    (e.started.map Prod.fst ++ (e.functors ++ e.pendingFunctors)).Perm e.submitted ∧
      (∀ thread, ofThread thread (e.started.map Prod.fst ++ (e.functors ++ e.pendingFunctors)) =
        ofThread thread e.submitted) ∧ ∀ s ∈ e.started, s.2 = none := by
  have h : Delivered e :=
    run_invariant (fun _ _ _ h hs => Delivered.step h hs) (.start etMode n) run_eq
  exact ⟨h.exact, h.inOrder, h.onLoop⟩

/-- Two threads post, and a functor submits another one while it runs. -/
theorem delivered_once_in_order_nested : ∃ e,
    run step (start false 2) [.test, .wait false, .submit (some 1) 3, .go 1, .go 1, .go 1,
      .handled, .submit (some 0) 4, .go 0, .go 0, .go 0, .swap, .functor, .submit none 5,
      .functor] = .next e ∧
    (e.started.map Prod.fst ++ (e.functors ++ e.pendingFunctors)).Perm e.submitted ∧
      (∀ thread, ofThread thread (e.started.map Prod.fst ++ (e.functors ++ e.pendingFunctors)) =
        ofThread thread e.submitted) ∧ ∀ s ∈ e.started, s.2 = none := by
  obtain ⟨e, he, -⟩ := Outcome.yields_eq_true.mp (show
    (run step (start false 2) [.test, .wait false, .submit (some 1) 3, .go 1, .go 1, .go 1,
      .handled, .submit (some 0) 4, .go 0, .go 0, .go 0, .swap, .functor, .submit none 5,
      .functor]).yields (fun _ => true) = true by decide +kernel)
  exact ⟨e, he, delivered_once_in_order false 2 _ e he⟩

end EventLoop
end Potato
