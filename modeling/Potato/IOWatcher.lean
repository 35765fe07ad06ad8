import Potato.Buffer

/-!
# Registered events

`IOEvent` and the `epoll_ctl` calls that `IOWatcher` makes for it. An operation
takes the event and the kernel's entry for its descriptor, the interest mask or
nothing, and returns both. `epoll_ctl` fails exactly where the kernel refuses:
adding a registered descriptor, changing or deleting one that is not.
-/
namespace Potato
open Machine

abbrev Mask := BitVec 32

def EPOLLIN : Mask := 0x001
def EPOLLPRI : Mask := 0x002
def EPOLLOUT : Mask := 0x004
def EPOLLERR : Mask := 0x008
def EPOLLHUP : Mask := 0x010
def EPOLLRDHUP : Mask := 0x2000
def EPOLLET : Mask := 0x80000000

/-- An `IOEvent`. `id` tells the objects apart; its watcher and its descriptor never
change, and a callback is either set or not. -/
structure IOEvent where
  id : ℕ
  etMode : Bool
  inEpoll : Bool := false
  isWriting : Bool := false
  events : Mask := 0
  readCallback : Bool := false
  writeCallback : Bool := false
  closeCallback : Bool := false
  deriving DecidableEq, Repr

/-- The callback of an event that `handleIOEvent` runs. -/
inductive EventCallback where
  | close
  | read
  | write
  deriving DecidableEq, Repr

namespace IOWatcher

/-- `ev.events` as it is handed to `epoll_ctl`. -/
def interest (event : IOEvent) : Mask :=
  if event.etMode then event.events ||| EPOLLET else event.events

def addNewIOEvent (event : IOEvent) (entry : Option Mask) :
    Outcome Fault (IOEvent × Option Mask) := do
  Outcome.check (event.inEpoll = false) .assertion
  Outcome.check (entry = none) .epollAbort
  return ({ event with inEpoll := true }, some (interest event))

def modifyIOEvent (event : IOEvent) (entry : Option Mask) :
    Outcome Fault (IOEvent × Option Mask) := do
  Outcome.check (event.inEpoll = true) .assertion
  Outcome.check (entry ≠ none) .epollAbort
  return (event, some (interest event))

def deleteIOEvent (event : IOEvent) (entry : Option Mask) :
    Outcome Fault (IOEvent × Option Mask) := do
  Outcome.check (event.inEpoll = true) .assertion
  Outcome.check (entry ≠ none) .epollAbort
  return ({ event with inEpoll := false }, none)

def enableIOReading (event : IOEvent) (entry : Option Mask) :
    Outcome Fault (IOEvent × Option Mask) := do
  Outcome.check (event.events = 0) .assertion
  Outcome.check (event.inEpoll = false) .assertion
  addNewIOEvent { event with events := event.events ||| (EPOLLIN ||| EPOLLPRI) } entry

def enableIOWriting (event : IOEvent) (entry : Option Mask) :
    Outcome Fault (IOEvent × Option Mask) := do
  Outcome.check (event.isWriting = false) .assertion
  Outcome.check (event.inEpoll = true) .assertion
  Outcome.check (event.events &&& EPOLLIN ≠ 0) .assertion
  modifyIOEvent { event with events := event.events ||| EPOLLOUT } entry

def disableIOWriting (event : IOEvent) (entry : Option Mask) :
    Outcome Fault (IOEvent × Option Mask) := do
  Outcome.check (event.isWriting = true) .assertion
  Outcome.check (event.inEpoll = true) .assertion
  Outcome.check (event.events &&& EPOLLIN ≠ 0) .assertion
  modifyIOEvent { event with events := event.events &&& ~~~EPOLLOUT } entry

def removeIOEvent (event : IOEvent) (entry : Option Mask) :
    Outcome Fault (IOEvent × Option Mask) := do
  Outcome.check (event.inEpoll = true) .assertion
  let (event, entry) ← deleteIOEvent event entry
  return ({ event with events := 0 }, entry)

/-- The branch of the loop in `handleIOEvent` for an entry that reports `ev`. -/
def callbackFor (event : IOEvent) (ev : Mask) : Option EventCallback :=
  if ev &&& (EPOLLHUP ||| EPOLLRDHUP) ≠ 0 then
    if event.closeCallback then some .close else none
  else if ev &&& (EPOLLIN ||| EPOLLPRI) ≠ 0 then
    if event.readCallback then some .read else none
  else if ev &&& EPOLLOUT ≠ 0 then
    if event.writeCallback then some .write else none
  else none

end IOWatcher

namespace IOEvent

def expectReading (event : IOEvent) (entry : Option Mask) :
    Outcome Fault (IOEvent × Option Mask) :=
  IOWatcher.enableIOReading event entry

def expectWriting (event : IOEvent) (entry : Option Mask) :
    Outcome Fault (IOEvent × Option Mask) := do
  if event.isWriting then return (event, entry)
  else
    let (event, entry) ← IOWatcher.enableIOWriting event entry
    return ({ event with isWriting := true }, entry)

def ignoreWriting (event : IOEvent) (entry : Option Mask) :
    Outcome Fault (IOEvent × Option Mask) := do
  if event.isWriting = false then return (event, entry)
  else
    let (event, entry) ← IOWatcher.disableIOWriting event entry
    return ({ event with isWriting := false }, entry)

def removeThisEvent (event : IOEvent) (entry : Option Mask) :
    Outcome Fault (IOEvent × Option Mask) :=
  IOWatcher.removeIOEvent event entry

/-- While an event is registered, its mask asks for input, and for output exactly when
`isWriting_` is set, and the kernel holds that mask. Otherwise both are empty. -/
structure Synced (event : IOEvent) (entry : Option Mask) : Prop where
  events_eq : event.events = if event.inEpoll then
    (if event.isWriting then EPOLLIN ||| EPOLLPRI ||| EPOLLOUT else EPOLLIN ||| EPOLLPRI) else 0
  entry_eq : entry = if event.inEpoll then some (IOWatcher.interest event) else none

variable {event event' : IOEvent} {entry entry' : Option Mask}

theorem expectReading_next (h : event.expectReading entry = .next (event', entry')) :
    event.events = 0 ∧ event.inEpoll = false ∧ entry = none ∧
      event' = { event with events := EPOLLIN ||| EPOLLPRI, inEpoll := true } ∧
      entry' = some (IOWatcher.interest event') := by
  simp only [expectReading, IOWatcher.enableIOReading, IOWatcher.addNewIOEvent,
    Outcome.bind_eq_next, Outcome.check_eq_next, Outcome.pure_eq, Outcome.next.injEq,
    Prod.mk.injEq, exists_and_left, exists_const] at h
  obtain ⟨he, hin, -, hentry, rfl, rfl⟩ := h
  refine ⟨he, hin, hentry, by simp [he], rfl⟩

/-- What `expectWriting` and `ignoreWriting` have in common: where `isWriting_` is not yet as it
should be, it is set so and the kernel gets another mask. -/
theorem setWriting_next {writing : Bool} {mask : Mask}
    (h : (if event.isWriting = writing then pure (event, entry)
      else do
        Outcome.check (event.isWriting = !writing) .assertion
        Outcome.check (event.inEpoll = true) .assertion
        Outcome.check (event.events &&& EPOLLIN ≠ 0) .assertion
        let (event, entry) ← IOWatcher.modifyIOEvent { event with events := mask } entry
        pure ({ event with isWriting := writing }, entry)) = Outcome.next (event', entry')) :
    (event.isWriting = writing ∧ event' = event ∧ entry' = entry) ∨
    (event.isWriting = !writing ∧ event.inEpoll = true ∧
      event' = { event with events := mask, isWriting := writing } ∧
      entry' = some (IOWatcher.interest event')) := by
  split_ifs at h with hw
  · simp only [Outcome.pure_eq, Outcome.next.injEq, Prod.mk.injEq] at h
    exact .inl ⟨hw, h.1.symm, h.2.symm⟩
  · simp only [IOWatcher.modifyIOEvent, Outcome.bind_eq_next, Outcome.check_eq_next,
      Outcome.pure_eq, Outcome.next.injEq, exists_and_left, exists_const, Prod.exists,
      Prod.mk.injEq] at h
    obtain ⟨hno, hin, -, e, k, ⟨-, -, rfl, rfl⟩, rfl, rfl⟩ := h
    exact .inr ⟨hno, hin, rfl, rfl⟩

theorem expectWriting_next (h : event.expectWriting entry = .next (event', entry')) :
    (event.isWriting = true ∧ event' = event ∧ entry' = entry) ∨
    (event.isWriting = false ∧ event.inEpoll = true ∧
      event' = { event with events := event.events ||| EPOLLOUT, isWriting := true } ∧
      entry' = some (IOWatcher.interest event')) := by
  refine @setWriting_next event event' entry entry' true (event.events ||| EPOLLOUT) ?_
  simpa only [expectWriting, IOWatcher.enableIOWriting, Outcome.bind_assoc, Bool.not_true] using h

theorem ignoreWriting_next (h : event.ignoreWriting entry = .next (event', entry')) :
    (event.isWriting = false ∧ event' = event ∧ entry' = entry) ∨
    (event.isWriting = true ∧ event.inEpoll = true ∧
      event' = { event with events := event.events &&& ~~~EPOLLOUT, isWriting := false } ∧
      entry' = some (IOWatcher.interest event')) := by
  refine @setWriting_next event event' entry entry' false (event.events &&& ~~~EPOLLOUT) ?_
  simpa only [ignoreWriting, IOWatcher.disableIOWriting, Outcome.bind_assoc, Bool.not_false]
    using h

theorem removeThisEvent_next (h : event.removeThisEvent entry = .next (event', entry')) :
    event.inEpoll = true ∧ event' = { event with inEpoll := false, events := 0 } ∧
      entry' = none := by
  simp only [removeThisEvent, IOWatcher.removeIOEvent, IOWatcher.deleteIOEvent,
    Outcome.bind_eq_next, Outcome.check_eq_next, Outcome.pure_eq, Outcome.next.injEq,
    exists_and_left, exists_const, Prod.exists, Prod.mk.injEq] at h
  obtain ⟨hin, e, k, ⟨-, -, rfl, rfl⟩, rfl, rfl⟩ := h
  exact ⟨hin, rfl, rfl⟩

theorem Synced.fresh (hin : event.inEpoll = false) (he : event.events = 0) : Synced event none :=
  ⟨by simp [hin, he], by simp [hin]⟩

theorem Synced.expectReading (hw : event.isWriting = false)
    (h : event.expectReading entry = .next (event', entry')) : Synced event' entry' := by
  obtain ⟨-, -, -, rfl, rfl⟩ := expectReading_next h
  exact ⟨by simp [hw], by simp⟩

theorem Synced.expectWriting (hs : Synced event entry)
    (h : event.expectWriting entry = .next (event', entry')) : Synced event' entry' := by
  rcases expectWriting_next h with ⟨-, rfl, rfl⟩ | ⟨hw, hin, rfl, rfl⟩
  · exact hs
  · have he := hs.events_eq
    rw [hin, hw] at he
    exact ⟨by simp [he, hin], by simp [hin]⟩

theorem Synced.ignoreWriting (hs : Synced event entry)
    (h : event.ignoreWriting entry = .next (event', entry')) : Synced event' entry' := by
  rcases ignoreWriting_next h with ⟨-, rfl, rfl⟩ | ⟨hw, hin, rfl, rfl⟩
  · exact hs
  · have he := hs.events_eq
    rw [hin, hw] at he
    have hmask : (EPOLLIN ||| EPOLLPRI ||| EPOLLOUT) &&& ~~~EPOLLOUT = EPOLLIN ||| EPOLLPRI := by
      decide
    exact ⟨by simp [he, hin, hmask], by simp [hin]⟩

theorem Synced.removeThisEvent (h : event.removeThisEvent entry = .next (event', entry')) :
    Synced event' entry' := by
  obtain ⟨-, rfl, rfl⟩ := removeThisEvent_next h
  exact ⟨by simp, by simp⟩

/-- The kernel is armed for output only while `isWriting_` is set. -/
theorem Synced.armed_iff {mask : Mask} (hs : Synced event (some mask)) :
    mask &&& EPOLLOUT ≠ 0 ↔ event.isWriting = true := by
  have hentry := hs.entry_eq
  have hevents := hs.events_eq
  cases hin : event.inEpoll with
  | false => simp [hin] at hentry
  | true =>
    rw [hin, if_pos rfl, Option.some.injEq] at hentry
    subst hentry
    rw [IOWatcher.interest, hevents, hin]
    cases event.etMode <;> cases event.isWriting <;> decide

end IOEvent
end Potato
