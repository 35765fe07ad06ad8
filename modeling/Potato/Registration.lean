import Potato.IOWatcher

/-!
# An event and the kernel, over any sequence of operations

`inEpoll_`, `events_` and `isWriting_` tell of the same registration, and the kernel
has its own record of it. `removeIOEvent` clears two of the three, so the four agree
as long as no event is removed while it waits for output.
-/
namespace Potato
open Machine

inductive EventOp where
  | expectReading
  | expectWriting
  | ignoreWriting
  | removeThisEvent
  deriving DecidableEq, Repr

def EventOp.apply : EventOp → IOEvent → Option Mask → Outcome Fault (IOEvent × Option Mask)
  | expectReading => IOEvent.expectReading
  | expectWriting => IOEvent.expectWriting
  | ignoreWriting => IOEvent.ignoreWriting
  | removeThisEvent => IOEvent.removeThisEvent

/-- An event with the kernel's entry for its descriptor. -/
structure Registration where
  event : IOEvent
  entry : Option Mask := none
  deriving DecidableEq, Repr

namespace Registration

def step (r : Registration) (op : EventOp) : Outcome Fault Registration := do
  let (event, entry) ← op.apply r.event r.entry
  return { event := event, entry := entry }

/-- The three members and the kernel agree. -/
structure Agrees (r : Registration) : Prop where
  registered : r.event.inEpoll = true ↔ r.event.events ≠ 0
  kernel : r.event.inEpoll = true ↔ r.entry ≠ none
  mask : ∀ mask, r.entry = some mask → mask = IOWatcher.interest r.event
  writing : r.event.isWriting = true ↔ r.event.events &&& EPOLLOUT ≠ 0

/-- What an operation has to achieve. -/
def Achieves (r : Registration) (op : EventOp) : Prop :=
  ∀ t, r.step op = .next t → t.Agrees ∧
    (op = .expectWriting → t.event.inEpoll = true →
      ∃ mask, t.entry = some mask ∧ mask &&& EPOLLOUT ≠ 0)

/-- The event is not removed while it waits for output. -/
def RemovesIdle (r : Registration) (op : EventOp) : Prop :=
  op = .removeThisEvent → r.event.isWriting = false

/-- The invariant behind the agreement. -/
structure Tidy (r : Registration) : Prop where
  synced : r.event.Synced r.entry
  waits : r.event.isWriting = true → r.event.inEpoll = true

variable {r t : Registration} {op : EventOp}

theorem Tidy.agrees (h : Tidy r) : r.Agrees := by
  have hevents := h.synced.events_eq
  have hentry := h.synced.entry_eq
  by_cases hin : r.event.inEpoll = true
  · rw [hin, if_pos rfl] at hevents hentry
    refine ⟨?_, by simp [hin, hentry], fun mask hm => ?_, ?_⟩
    · rw [hin, hevents]
      cases r.event.isWriting <;> decide
    · rw [hentry] at hm
      exact (Option.some.inj hm).symm
    · rw [hevents]
      cases r.event.isWriting <;> decide
  · rw [if_neg hin] at hevents hentry
    refine ⟨by simp [hin, hevents], by simp [hin, hentry], fun mask hm => ?_, ?_⟩
    · rw [hentry] at hm
      cases hm
    · rw [hevents]
      exact iff_of_false (fun hw => hin (h.waits hw)) (by decide)

theorem Tidy.armed (h : Tidy r) (hw : r.event.isWriting = true) :
    ∃ mask, r.entry = some mask ∧ mask &&& EPOLLOUT ≠ 0 := by
  obtain ⟨mask, hm⟩ := Option.ne_none_iff_exists'.mp (h.agrees.kernel.mp (h.waits hw))
  have hsynced := h.synced
  rw [hm] at hsynced
  exact ⟨mask, hm, hsynced.armed_iff.mpr hw⟩

theorem step_next (hs : r.step op = .next t) :
    op.apply r.event r.entry = .next (t.event, t.entry) := by
  simp only [step, Outcome.bind_eq_next, Outcome.pure_eq, Outcome.next.injEq] at hs
  obtain ⟨⟨event, entry⟩, hs, rfl⟩ := hs
  exact hs

theorem writing_of_expectWriting (hs : r.step .expectWriting = .next t) :
    t.event.isWriting = true := by
  rcases IOEvent.expectWriting_next (step_next hs) with ⟨hw, he, -⟩ | ⟨-, -, he, -⟩
  · rw [he, hw]
  · rw [he]

theorem Tidy.step (h : Tidy r) (hc : r.RemovesIdle op) (hs : r.step op = .next t) : Tidy t := by
  have hop := step_next hs
  cases op with
  | expectReading =>
    obtain ⟨-, hout, -, he, -⟩ := IOEvent.expectReading_next hop
    have hidle : r.event.isWriting = false := by
      by_contra hw
      rw [h.waits (by simpa using hw)] at hout
      cases hout
    exact ⟨.expectReading hidle hop, fun _ => by rw [he]⟩
  | expectWriting =>
    refine ⟨h.synced.expectWriting hop, fun _ => ?_⟩
    rcases IOEvent.expectWriting_next hop with ⟨hw, he, -⟩ | ⟨-, hin, he, -⟩
    · rw [he, h.waits hw]
    · rw [he, ← hin]
  | ignoreWriting =>
    refine ⟨h.synced.ignoreWriting hop, fun hw => ?_⟩
    rcases IOEvent.ignoreWriting_next hop with ⟨hno, he, -⟩ | ⟨-, -, he, -⟩
    · rw [he, hno] at hw
      cases hw
    · rw [he] at hw
      cases hw
  | removeThisEvent =>
    refine ⟨.removeThisEvent hop, fun hw => ?_⟩
    obtain ⟨-, he, -⟩ := IOEvent.removeThisEvent_next hop
    rw [he, hc rfl] at hw
    cases hw

/-- Removing an event that waits for output leaves `isWriting_` set over an empty mask. -/
theorem Tidy.removesIdle (h : Tidy r) (ha : r.Achieves .removeThisEvent) :
    r.event.isWriting = false := by
  by_contra hw
  have hwriting : r.event.isWriting = true := by simpa using hw
  have hin := h.waits hwriting
  have hentry := h.agrees.kernel.mp hin
  have hs : r.step .removeThisEvent =
      .next { event := { r.event with inEpoll := false, events := 0 }, entry := none } := by
    simp [Registration.step, EventOp.apply, IOEvent.removeThisEvent, IOWatcher.removeIOEvent,
      IOWatcher.deleteIOEvent, hin, hentry, Outcome.check_pos]
  exact (ha _ hs).1.writing.mp hwriting (BitVec.zero_and)

theorem Tidy.achieves_iff (h : Tidy r) : r.Achieves op ↔ r.RemovesIdle op := by
  constructor
  · rintro ha rfl
    exact h.removesIdle ha
  · intro hc t hs
    have ht := h.step hc hs
    refine ⟨ht.agrees, ?_⟩
    rintro rfl -
    exact ht.armed (writing_of_expectWriting hs)

/-- Over every sequence of operations on a new event, each operation leaves the members and the
kernel in agreement exactly when none of them removes the event while it waits for output. -/
theorem agrees_iff (id : ℕ) (etMode readCallback writeCallback closeCallback : Bool)
    (ops : List EventOp) :
    StepsMeet step Achieves { event := { id, etMode, readCallback, writeCallback, closeCallback } }
        ops ↔
      StepsMeet step RemovesIdle
        { event := { id, etMode, readCallback, writeCallback, closeCallback } } ops := by
  have hnew : Tidy { event := { id, etMode, readCallback, writeCallback, closeCallback } } :=
    ⟨.fresh rfl rfl, (fun hno => nomatch hno)⟩
  exact stepsMeet_iff (fun _ _ h => h.achieves_iff) (fun _ _ _ h hc hs => h.step hc hs) hnew

/-- An event that is removed while it waits for output, and registered again, is never armed. -/
theorem unarmed_behind_remove : ∃ t,
    run step { event := { id := 0, etMode := false } } [.expectReading, .expectWriting,
      .removeThisEvent, .expectReading, .expectWriting] = .next t ∧ t.event.inEpoll = true ∧
      t.event.isWriting = true ∧ t.entry = some (EPOLLIN ||| EPOLLPRI) ∧ ¬ t.Agrees := by
  obtain ⟨t, ht, hc⟩ := Outcome.yields_eq_true.mp (show
    (run step { event := { id := 0, etMode := false } } [.expectReading, .expectWriting,
      .removeThisEvent, .expectReading, .expectWriting]).yields (fun t =>
        decide (t.event.inEpoll = true ∧ t.event.isWriting = true ∧
          t.entry = some (EPOLLIN ||| EPOLLPRI) ∧ t.event.events &&& EPOLLOUT = 0)) = true by
      decide +kernel)
  obtain ⟨hin, hw, hentry, hout⟩ := of_decide_eq_true hc
  exact ⟨t, ht, hin, hw, hentry, fun h => h.writing.mp hw hout⟩

end Registration
end Potato
