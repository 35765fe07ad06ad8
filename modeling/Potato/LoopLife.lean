import Potato.Registration

/-!
# The life of an event loop

`startLoop` registers the wakeup event and `stopLoop` does not remove it; the
destructor removes it whether the loop has been started or not. So a loop lives
without a failed assertion exactly when it is started once.
-/
namespace Potato
open Machine

/-- The members of an `EventLoop` that its constructor, `startLoop`, `stopLoop` and its
destructor look at: the flag, and the wakeup event with the kernel's entry for its descriptor. -/
structure LoopLife where
  looping : Bool := false
  wakeupEvent : Registration
  deriving DecidableEq, Repr

namespace LoopLife

/-- The constructor. -/
def construct (etMode : Bool) : LoopLife :=
  { wakeupEvent := { event := { id := 0, etMode := etMode, readCallback := true } } }

/-- `startLoop` up to its loop. -/
def startLoop (e : LoopLife) : Outcome Fault LoopLife := do
  Outcome.check (e.looping = false) .assertion
  let event ← e.wakeupEvent.step .expectReading
  return { e with looping := true, wakeupEvent := event }

/-- `stopLoop`, on any thread. -/
def stopLoop (e : LoopLife) : Outcome Fault LoopLife := do
  Outcome.check (e.looping = true) .assertion
  return { e with looping := false }

/-- The body of the destructor. -/
def destroy (e : LoopLife) : Outcome Fault LoopLife := do
  let event ← e.wakeupEvent.step .removeThisEvent
  let e := { e with wakeupEvent := event }
  if e.looping then e.stopLoop else return e

/-- `k` times `startLoop` and `stopLoop`. -/
def cycles : ℕ → LoopLife → Outcome Fault LoopLife
  | 0, e => return e
  | k + 1, e => do
    let e ← e.startLoop
    let e ← e.stopLoop
    cycles k e

/-- A loop from its construction to its destruction. -/
def lifeCycle (etMode : Bool) (k : ℕ) : Outcome Fault LoopLife := do
  let e ← cycles k (construct etMode)
  e.destroy

/-- The loop behind its first cycle. -/
def stopped (etMode : Bool) : LoopLife :=
  { wakeupEvent :=
      { event := { id := 0, etMode := etMode, readCallback := true, inEpoll := true,
                   events := EPOLLIN ||| EPOLLPRI }
        entry := some (if etMode then EPOLLIN ||| EPOLLPRI ||| EPOLLET else EPOLLIN ||| EPOLLPRI) } }

theorem cycle_construct (etMode : Bool) (k : ℕ) :
    cycles (k + 1) (construct etMode) = cycles k (stopped etMode) := by
  cases etMode <;> rfl

theorem expectReading_construct (etMode : Bool) :
    (construct etMode).wakeupEvent.step .expectReading = .next (stopped etMode).wakeupEvent := by
  cases etMode <;> decide +kernel

theorem expectReading_stopped (etMode : Bool) :
    (stopped etMode).wakeupEvent.step .expectReading = .fault .assertion := by
  cases etMode <;> decide +kernel

theorem removeThisEvent_stopped (etMode : Bool) :
    ∃ r, (stopped etMode).wakeupEvent.step .removeThisEvent = .next r ∧ r.entry = none := by
  cases etMode <;> exact ⟨_, rfl, rfl⟩

theorem startLoop_construct (etMode : Bool) :
    (construct etMode).startLoop = .next { stopped etMode with looping := true } := by
  simp only [startLoop, expectReading_construct]
  rfl

/-- A registered wakeup event cannot be registered again. -/
theorem startLoop_stopped (etMode : Bool) : (stopped etMode).startLoop = .fault .assertion := by
  cases etMode <;> decide +kernel

theorem destroy_construct (etMode : Bool) : (construct etMode).destroy = .fault .assertion := by
  cases etMode <;> decide +kernel

theorem destroy_stopped (etMode : Bool) : ∃ e, (stopped etMode).destroy = .next e := by
  cases etMode <;> exact ⟨_, rfl⟩

/-- Over its whole life, from the constructor to the destructor, an event loop fails no assertion
and makes no illegal `epoll_ctl` call exactly when it is started and stopped once. -/
theorem lifeCycle_iff (etMode : Bool) (k : ℕ) : (∃ e, lifeCycle etMode k = .next e) ↔ k = 1 := by
  cases k with
  | zero => simp [lifeCycle, cycles, destroy_construct]
  | succ k =>
    rw [lifeCycle, cycle_construct]
    cases k with
    | zero => simpa [cycles] using destroy_stopped etMode
    | succ k => simp [cycles, startLoop_stopped]

/-- A loop that is never started, and one that is started twice. -/
theorem lifeCycle_fails :
    lifeCycle false 0 = .fault .assertion ∧ lifeCycle false 2 = .fault .assertion := by
  decide +kernel

end LoopLife
end Potato
