import Potato.Machine
import Potato.Buffer

/-!
# The event loop and the threads that post to it

One loop thread in `startLoop` and any number of other threads in `runInLoop` and
`stopLoop`. A step is one access to what they share: the mutex, the queue, the
flag, the wakeup socket pair. `wakeup` reads from its end of the pair, so nothing
ever arrives at the other. A functor is noticed in time only while the loop thread
is on its way to the queue, and a stop only while it is on its way to the flag.
-/
namespace Potato
open Machine

/-- Where the loop thread is in `startLoop`. -/
inductive LoopPc where
  /-- at `while (looping_)` -/
  | test
  /-- about to enter `epoll_wait`, or in it -/
  | wait
  /-- handling its entries; `woken` while the callback of the wakeup event is still to read -/
  | handle (woken : Bool)
  /-- about to swap the queue -/
  | swap
  /-- running the functors that were swapped -/
  | run
  /-- out of the loop -/
  | left
  deriving DecidableEq, Repr

/-- Where another thread is. -/
inductive ThreadPc where
  | outside
  /-- in `runInLoop`, with the mutex -/
  | locked (functor : ℕ)
  /-- behind `push_back` -/
  | pushed
  /-- behind `wakeup` -/
  | unlocking
  /-- in `stopLoop`, behind its assertion -/
  | stopping
  /-- behind the store of the flag -/
  | stopped
  deriving DecidableEq, Repr

/-- A functor, known by a number, and the thread that submits it: the loop thread or one of the
others. -/
structure Task where
  thread : Option ℕ
  functor : ℕ
  deriving DecidableEq, Repr

/-- An `EventLoop`. `first` and `second` count the unread bytes at the two ends of the wakeup
pair. `submitted` lists what `runInLoop` was given, `started` what was run and on which thread. -/
structure EventLoop where
  etMode : Bool
  pc : LoopPc := .test
  looping : Bool := true
  mutex : Option ℕ := none
  pendingFunctors : List Task := []
  functors : List Task := []
  first : ℕ := 0
  second : ℕ := 0
  submitted : List Task := []
  started : List (Task × Option ℕ) := []
  threads : List ThreadPc
  deriving DecidableEq, Repr

inductive LoopLabel where
  /-- The loop thread tests the flag. -/
  | test
  /-- `epoll_wait` returns, with or without the wakeup event. -/
  | wait (woken : Bool)
  /-- The callback of the wakeup event reads. -/
  | drain
  /-- `handleIOEvent` returns. -/
  | handled
  | swap
  /-- The next functor of the batch runs. -/
  | functor
  /-- The batch is done. -/
  | done
  /-- A thread calls `runInLoop`: user code on the loop thread, or another one. -/
  | submit (thread : Option ℕ) (functor : ℕ)
  /-- User code on the loop thread calls `stopLoop`. -/
  | stopHere
  /-- Another thread calls `stopLoop`. -/
  | stop (j : ℕ)
  /-- Another thread goes on by one step. -/
  | go (j : ℕ)
  deriving DecidableEq, Repr

namespace EventLoop

/-- The loop behind the first lines of `startLoop`, with `n` other threads. -/
def start (etMode : Bool) (n : ℕ) : EventLoop :=
  { etMode := etMode, threads := List.replicate n .outside }

/-- `sizeof(dummy)` in `wakeup` and in the callback. -/
def wakeupSize : ℕ := 4

/-- `wakeup` reads an `int` from its end of the pair, or as much as there is of one. -/
def wakeup (e : EventLoop) : EventLoop := { e with first := e.first - wakeupSize }

/-- One turn of the loop in the callback of the wakeup event. -/
def readWakeup (e : EventLoop) : EventLoop :=
  if e.second < wakeupSize then { e with second := 0, pc := .handle false }
  else { e with second := e.second - wakeupSize, pc := .handle e.etMode }

/-- User code can run on the loop thread. -/
def UserTurn (e : EventLoop) : Bool :=
  match e.pc with
  | .handle _ | .run => true
  | _ => false

def moveThread (e : EventLoop) (j : ℕ) (pc : ThreadPc) : EventLoop :=
  { e with threads := e.threads.set j pc }

/-- `func()`, on the given thread. -/
def call (e : EventLoop) (task : Task) (thread : Option ℕ) : EventLoop :=
  { e with started := e.started ++ [(task, thread)] }

/-- `runInLoop` up to the mutex, with the test of `inLoopThread`. -/
def runInLoop (e : EventLoop) (functor : ℕ) : Option ℕ → Outcome Fault EventLoop
  | none => do
    Outcome.require (e.UserTurn = true)
    let task : Task := ⟨none, functor⟩
    return { e with submitted := e.submitted ++ [task] }.call task none
  | some j => do
    Outcome.require (e.threads[j]? = some .outside ∧ e.mutex = none)
    return { e with mutex := some j }.moveThread j (.locked functor)

/-- `push_back`, by the thread `j`. -/
def push (e : EventLoop) (task : Task) : EventLoop :=
  { e with
    pendingFunctors := e.pendingFunctors ++ [task]
    submitted := e.submitted ++ [task] }

/-- A step of the thread `j`, wherever it is. -/
def goThread (e : EventLoop) (j : ℕ) : Option ThreadPc → Outcome Fault EventLoop
  | some (.locked functor) => return (e.push ⟨some j, functor⟩).moveThread j .pushed
  | some .pushed => return e.wakeup.moveThread j .unlocking
  | some .unlocking => return { e with mutex := none }.moveThread j .outside
  | some .stopping => return { e with looping := false }.moveThread j .stopped
  | some .stopped => return e.wakeup.moveThread j .outside
  | some .outside | none => .refused

def step (e : EventLoop) : LoopLabel → Outcome Fault EventLoop
  | .test => do
    Outcome.require (e.pc = .test)
    return { e with pc := if e.looping then .wait else .left }
  | .wait woken => do
    Outcome.require (e.pc = .wait ∧ (woken = true → 0 < e.second))
    return { e with pc := .handle woken }
  | .drain => do
    Outcome.require (e.pc = .handle true)
    return e.readWakeup
  | .handled => do
    Outcome.require (e.pc = .handle false)
    return { e with pc := .swap }
  | .swap => do
    Outcome.require (e.pc = .swap ∧ e.mutex = none)
    return { e with functors := e.pendingFunctors, pendingFunctors := [], pc := .run }
  | .functor => do
    Outcome.require (e.pc = .run)
    match e.functors with
    | [] => .refused
    | task :: functors => return { e with functors := functors }.call task none
  | .done => do
    Outcome.require (e.pc = .run ∧ e.functors = [])
    return { e with pc := .test }
  | .submit thread functor => e.runInLoop functor thread
  | .stopHere => do
    Outcome.require (e.UserTurn = true)
    Outcome.check (e.looping = true) .assertion
    return { e with looping := false }
  | .stop j => do
    Outcome.require (e.threads[j]? = some .outside)
    Outcome.check (e.looping = true) .assertion
    return e.moveThread j .stopping
  | .go j => e.goThread j e.threads[j]?

/-- No other thread is in the locked section of `runInLoop`, or in `stopLoop`. -/
def Quiet (e : EventLoop) : Prop := ∀ pc ∈ e.threads, pc = .outside

/-- A loop thread that is to wait has nothing to wake up for, or finds the wakeup socket
readable. -/
def NoLostWakeup (e : EventLoop) : Prop :=
  e.Quiet → e.pc = .wait → e.pendingFunctors ≠ [] ∨ e.looping = false → 0 < e.second

instance (e : EventLoop) : Decidable e.Quiet :=
  inferInstanceAs (Decidable (∀ pc ∈ e.threads, pc = .outside))

instance (e : EventLoop) : Decidable e.NoLostWakeup :=
  inferInstanceAs (Decidable (e.Quiet → e.pc = .wait →
    e.pendingFunctors ≠ [] ∨ e.looping = false → 0 < e.second))

/-- The loop thread waits before it looks at the queue again. -/
def WaitsFirst (e : EventLoop) : Bool :=
  match e.pc with
  | .wait => true
  | .run | .test => e.looping
  | _ => false

/-- No thread leaves `runInLoop` while the loop thread waits before it looks at the queue again,
and none leaves `stopLoop` while it waits. -/
def InTime (e : EventLoop) : LoopLabel → Bool
  | .go j =>
    match e.threads[j]? with
    | some .unlocking => !e.WaitsFirst
    | some .stopped => e.pc != .wait
    | _ => true
  | _ => true

variable {e e' : EventLoop} {l : LoopLabel}

/-- A thread that has pushed a functor is still in the locked section. -/
def Pushing (e : EventLoop) : Prop := .pushed ∈ e.threads ∨ .unlocking ∈ e.threads

/-- A thread that has cleared the flag is still in `stopLoop`. -/
def Stopping (e : EventLoop) : Prop := .stopped ∈ e.threads

/-- The invariant: whoever has left the loop thread something to wake up for is still inside. -/
structure Noticed (e : EventLoop) : Prop where
  queue : e.WaitsFirst = true → e.pendingFunctors ≠ [] → e.Pushing
  flag : e.pc = .wait → e.looping = false → e.Stopping

theorem Noticed.start (etMode : Bool) (n : ℕ) : Noticed (start etMode n) :=
  ⟨fun _ hne => absurd rfl hne, fun _ hno => nomatch hno⟩

theorem Noticed.noLostWakeup (h : Noticed e) : NoLostWakeup e := by
  intro hquiet hpc hwake
  rcases hwake with hne | hstop
  · rcases h.queue (by simp [WaitsFirst, hpc]) hne with hin | hin
    · cases hquiet _ hin
    · cases hquiet _ hin
  · cases hquiet _ (h.flag hpc hstop)

/-- A step of one thread leaves the others where they are. -/
theorem mem_set_of_ne {threads : List ThreadPc} {j : ℕ} {pc pc₁ pc₂ : ThreadPc}
    (hj : threads[j]? = some pc₁) (hne : pc₁ ≠ pc) (hm : pc ∈ threads) :
    pc ∈ threads.set j pc₂ := by
  obtain ⟨k, hk⟩ := List.mem_iff_getElem?.mp hm
  have hkj : j ≠ k := by
    rintro rfl
    rw [hj, Option.some.injEq] at hk
    exact hne hk
  exact List.mem_iff_getElem?.mpr ⟨k, by rw [List.getElem?_set_ne hkj, hk]⟩

theorem mem_set_here {threads : List ThreadPc} {j : ℕ} {pc pc₁ : ThreadPc}
    (hj : threads[j]? = some pc₁) : pc ∈ threads.set j pc :=
  List.mem_set (List.getElem?_eq_some_iff.mp hj).1 pc

theorem WaitsFirst.of_cleared (h : WaitsFirst { e with looping := false } = true) :
    e.WaitsFirst = true := by
  cases hpc : e.pc <;> simp [WaitsFirst, hpc] at h ⊢

/-- Every step is one of these. -/
inductive Step (e : EventLoop) : LoopLabel → EventLoop → Prop
  | test : e.pc = .test → Step e .test { e with pc := if e.looping then .wait else .left }
  | wait {woken : Bool} : e.pc = .wait → Step e (.wait woken) { e with pc := .handle woken }
  | drain : e.pc = .handle true → Step e .drain e.readWakeup
  | handled : e.pc = .handle false → Step e .handled { e with pc := .swap }
  | swap : e.pc = .swap →
      Step e .swap { e with functors := e.pendingFunctors, pendingFunctors := [], pc := .run }
  | functor {task : Task} {functors : List Task} : e.pc = .run → e.functors = task :: functors →
      Step e .functor ({ e with functors := functors }.call task none)
  | done : e.pc = .run → e.functors = [] → Step e .done { e with pc := .test }
  | inline {functor : ℕ} : e.UserTurn = true → Step e (.submit none functor)
      ({ e with submitted := e.submitted ++ [(⟨none, functor⟩ : Task)] }.call ⟨none, functor⟩ none)
  | lock {j functor : ℕ} : e.threads[j]? = some .outside →
      Step e (.submit (some j) functor) ({ e with mutex := some j }.moveThread j (.locked functor))
  | stopHere : e.UserTurn = true → Step e .stopHere { e with looping := false }
  | stop {j : ℕ} : e.threads[j]? = some .outside → Step e (.stop j) (e.moveThread j .stopping)
  | push {j functor : ℕ} : e.threads[j]? = some (.locked functor) →
      Step e (.go j) ((e.push ⟨some j, functor⟩).moveThread j .pushed)
  | wakeup {j : ℕ} : e.threads[j]? = some .pushed →
      Step e (.go j) (e.wakeup.moveThread j .unlocking)
  | unlock {j : ℕ} : e.threads[j]? = some .unlocking →
      Step e (.go j) ({ e with mutex := none }.moveThread j .outside)
  | clear {j : ℕ} : e.threads[j]? = some .stopping →
      Step e (.go j) ({ e with looping := false }.moveThread j .stopped)
  | leave {j : ℕ} : e.threads[j]? = some .stopped →
      Step e (.go j) (e.wakeup.moveThread j .outside)

theorem step_next (h : step e l = .next e') : Step e l e' := by
  cases l with
  | go j =>
    simp only [step] at h
    cases hpc : e.threads[j]? with
    | none => simp [hpc, goThread] at h
    | some pc =>
      rw [hpc] at h
      cases pc with
      | outside => cases h
      | locked functor => cases h; exact .push hpc
      | pushed => cases h; exact .wakeup hpc
      | unlocking => cases h; exact .unlock hpc
      | stopping => cases h; exact .clear hpc
      | stopped => cases h; exact .leave hpc
  | submit thread functor =>
    cases thread with
    | none =>
      simp only [step, runInLoop, Outcome.bind_eq_next, Outcome.require_eq_next, Outcome.pure_eq,
        Outcome.next.injEq] at h
      obtain ⟨-, hturn, rfl⟩ := h
      exact .inline hturn
    | some j =>
      simp only [step, runInLoop, Outcome.bind_eq_next, Outcome.require_eq_next, Outcome.pure_eq,
        Outcome.next.injEq] at h
      obtain ⟨-, ⟨hj, -⟩, rfl⟩ := h
      exact .lock hj
  | functor =>
    simp only [step, Outcome.bind_eq_next, Outcome.require_eq_next] at h
    obtain ⟨-, hpc, h⟩ := h
    split at h
    · cases h
    · next task functors hf =>
      cases h
      exact .functor hpc hf
  | test =>
    simp only [step, Outcome.bind_eq_next, Outcome.require_eq_next, Outcome.pure_eq,
      Outcome.next.injEq] at h
    obtain ⟨-, hpc, rfl⟩ := h
    exact .test hpc
  | wait woken =>
    simp only [step, Outcome.bind_eq_next, Outcome.require_eq_next, Outcome.pure_eq,
      Outcome.next.injEq] at h
    obtain ⟨-, ⟨hpc, -⟩, rfl⟩ := h
    exact .wait hpc
  | drain =>
    simp only [step, Outcome.bind_eq_next, Outcome.require_eq_next, Outcome.pure_eq,
      Outcome.next.injEq] at h
    obtain ⟨-, hpc, rfl⟩ := h
    exact .drain hpc
  | handled =>
    simp only [step, Outcome.bind_eq_next, Outcome.require_eq_next, Outcome.pure_eq,
      Outcome.next.injEq] at h
    obtain ⟨-, hpc, rfl⟩ := h
    exact .handled hpc
  | swap =>
    simp only [step, Outcome.bind_eq_next, Outcome.require_eq_next, Outcome.pure_eq,
      Outcome.next.injEq] at h
    obtain ⟨-, ⟨hpc, -⟩, rfl⟩ := h
    exact .swap hpc
  | done =>
    simp only [step, Outcome.bind_eq_next, Outcome.require_eq_next, Outcome.pure_eq,
      Outcome.next.injEq] at h
    obtain ⟨-, ⟨hpc, hf⟩, rfl⟩ := h
    exact .done hpc hf
  | stopHere =>
    simp only [step, Outcome.bind_eq_next, Outcome.require_eq_next, Outcome.check_eq_next,
      Outcome.pure_eq, Outcome.next.injEq] at h
    obtain ⟨-, hturn, -, -, rfl⟩ := h
    exact .stopHere hturn
  | stop j =>
    simp only [step, Outcome.bind_eq_next, Outcome.require_eq_next, Outcome.check_eq_next,
      Outcome.pure_eq, Outcome.next.injEq] at h
    obtain ⟨-, hj, -, -, rfl⟩ := h
    exact .stop hj

theorem Noticed.step (h : Noticed e) (hc : InTime e l = true) (hs : step e l = .next e') :
    Noticed e' := by
  cases step_next hs with
  | test hpc =>
    by_cases hl : e.looping = true
    · have hfirst : e.WaitsFirst = true := by simp [WaitsFirst, hpc, hl]
      refine ⟨fun _ hne => h.queue hfirst hne, fun _ hno => ?_⟩
      rw [hl] at hno
      cases hno
    · rw [if_neg hl]
      exact ⟨(fun hno => nomatch hno), (fun hno => nomatch hno)⟩
  | wait | handled => exact ⟨(fun hno => nomatch hno), (fun hno => nomatch hno)⟩
  | drain =>
    unfold readWakeup
    split_ifs
    · exact ⟨(fun hno => nomatch hno), (fun hno => nomatch hno)⟩
    · exact ⟨(fun hno => nomatch hno), (fun hno => nomatch hno)⟩
  | swap => exact ⟨fun _ hne => absurd rfl hne, (fun hno => nomatch hno)⟩
  | functor | inline => exact ⟨h.queue, h.flag⟩
  | done hpc =>
    refine ⟨fun hw hne => h.queue ?_ hne, (fun hno => nomatch hno)⟩
    have hl : e.looping = true := hw
    simp [WaitsFirst, hpc, hl]
  | stopHere hturn =>
    refine ⟨fun hw hne => h.queue (WaitsFirst.of_cleared hw) hne, fun hw _ => ?_⟩
    rw [UserTurn, show e.pc = .wait from hw] at hturn
    cases hturn
  | lock hj | stop hj =>
    exact ⟨fun hw hne => (h.queue hw hne).imp (mem_set_of_ne hj (by simp))
      (mem_set_of_ne hj (by simp)), fun hw hno => mem_set_of_ne hj (by simp) (h.flag hw hno)⟩
  | push hj =>
    exact ⟨fun _ _ => .inl (mem_set_here hj),
      fun hw hno => mem_set_of_ne hj (by simp) (h.flag hw hno)⟩
  | wakeup hj =>
    exact ⟨fun _ _ => .inr (mem_set_here hj),
      fun hw hno => mem_set_of_ne hj (by simp) (h.flag hw hno)⟩
  | unlock hj =>
    simp only [InTime, hj, Bool.not_eq_true'] at hc
    refine ⟨fun hw => ?_, fun hw hno => mem_set_of_ne hj (by simp) (h.flag hw hno)⟩
    have hfirst : e.WaitsFirst = true := hw
    rw [hc] at hfirst
    cases hfirst
  | clear hj =>
    refine ⟨fun hw hne => ?_, fun _ _ => mem_set_here hj⟩
    exact (h.queue (WaitsFirst.of_cleared hw) hne).imp (mem_set_of_ne hj (by simp))
      (mem_set_of_ne hj (by simp))
  | leave hj =>
    simp only [InTime, hj, bne_iff_ne] at hc
    refine ⟨fun hw hne => ?_, fun hw => absurd hw hc⟩
    exact (h.queue hw hne).imp (mem_set_of_ne hj (by simp)) (mem_set_of_ne hj (by simp))

/-- No wakeup is lost, in any run in which no thread leaves behind something that the loop
thread comes to wait with. -/
theorem no_lost_wakeup (etMode : Bool) (n : ℕ) (ls : List LoopLabel) (e : EventLoop)
    (in_time : StepsMeet step (fun e l => InTime e l = true) (start etMode n) ls)
    (run_eq : run step (start etMode n) ls = .next e) : NoLostWakeup e := by
  have h : Noticed e :=
    run_invariant_of (fun _ _ _ h hc hs => Noticed.step h hc hs) (.start etMode n) in_time run_eq
  exact h.noLostWakeup

/-- A functor that is pushed in front of the swap runs before the loop thread waits again. -/
theorem no_lost_wakeup_swap : ∃ e,
    run step (start true 2) [.test, .wait false, .submit (some 1) 7, .go 1, .go 1, .go 1, .handled,
      .swap, .functor, .done, .test] = .next e ∧ e.NoLostWakeup := by
  obtain ⟨e, he, -⟩ := Outcome.yields_eq_true.mp (show
    (run step (start true 2) [.test, .wait false, .submit (some 1) 7, .go 1, .go 1, .go 1, .handled,
      .swap, .functor, .done, .test]).yields (fun _ => true) = true by decide +kernel)
  exact ⟨e, he, no_lost_wakeup true 2 _ e (by decide +kernel) he⟩

/-- A functor that is pushed behind the swap leaves the wakeup socket as it is. -/
theorem wakeup_lost : ∃ e,
    run step (start false 1) [.test, .submit (some 0) 7, .go 0, .go 0, .go 0] = .next e ∧
      e.Quiet ∧ e.pc = .wait ∧ e.pendingFunctors = [⟨some 0, 7⟩] ∧ ¬ e.NoLostWakeup := by
  obtain ⟨e, he, hc⟩ := Outcome.yields_eq_true.mp (show
    (run step (start false 1) [.test, .submit (some 0) 7, .go 0, .go 0, .go 0]).yields
      (fun e => decide (e.Quiet ∧ e.pc = .wait ∧ e.pendingFunctors = [⟨some 0, 7⟩] ∧
        ¬ e.NoLostWakeup)) = true by decide +kernel)
  exact ⟨e, he, of_decide_eq_true hc⟩

end EventLoop
end Potato
