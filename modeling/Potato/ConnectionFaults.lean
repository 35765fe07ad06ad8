import Potato.ConnectionMoves

/-!
# How a connection can fail

A piece of code that starts from `Held` fails for one of three reasons: an
assertion that its caller has to meet or the memory (plain faults),
`assert(isWriting())`, or a statement behind a callback that finds the pointers
cleared.
-/
namespace Potato
open Words Machine

/-- Faults that say nothing about pointers and armed events. -/
def Fault.Plain : Fault → Bool
  | assertion | outOfRange | noMemory | epollAbort => true
  | _ => false

theorem BufferOp.apply_raises (p : Platform) (b : Buffer) (op : BufferOp) :
    (op.apply p b).Raises (·.Plain = true) := by
  cases op <;> simp [BufferOp.apply, Buffer.write, Buffer.writeInt32, Buffer.writeInt64,
    Buffer.writeUint64, Buffer.fill, Buffer.hasWritten, Buffer.read, Buffer.retrieve,
    Buffer.retrieveChars, Buffer.retrieveUntil, Buffer.retrieveInt32, Buffer.retrieveInt64,
    Buffer.retrieveUint64, Buffer.readInt32, Buffer.readInt64, Buffer.readUint64,
    Buffer.retrieveAllAsString, Buffer.readAsSlice, Buffer.expandBuffer, Buffer.writeableBytes,
    Buffer.readableBytes, copyTo, copyFrom, Fault.Plain]

theorem Take.apply_raises (p : Platform) (b : Buffer) (t : Take) :
    (t.apply p b).Raises (·.Plain = true) := by
  cases t with
  | op operation => simp [Take.apply, BufferOp.apply_raises]
  | void len =>
    simp [Take.apply, Buffer.retrieveVoid, Buffer.retrieveChars, Buffer.read, Buffer.retrieve,
      Buffer.readableBytes, copyFrom, Fault.Plain]

theorem IOEvent.expectReading_raises (event : IOEvent) (entry : Option Mask) :
    (event.expectReading entry).Raises (·.Plain = true) := by
  simp [expectReading, IOWatcher.enableIOReading, IOWatcher.addNewIOEvent, Fault.Plain]

theorem IOEvent.expectWriting_raises (event : IOEvent) (entry : Option Mask) :
    (event.expectWriting entry).Raises (·.Plain = true) := by
  simp [expectWriting, IOWatcher.enableIOWriting, IOWatcher.modifyIOEvent, Fault.Plain]

theorem IOEvent.ignoreWriting_raises (event : IOEvent) (entry : Option Mask) :
    (event.ignoreWriting entry).Raises (·.Plain = true) := by
  simp [ignoreWriting, IOWatcher.disableIOWriting, IOWatcher.modifyIOEvent, Fault.Plain]

theorem IOEvent.removeThisEvent_raises (event : IOEvent) (entry : Option Mask) :
    (event.removeThisEvent entry).Raises (·.Plain = true) := by
  simp [removeThisEvent, IOWatcher.removeIOEvent, IOWatcher.deleteIOEvent, Fault.Plain]

theorem Buffer.allocate_raises (b : Buffer) (len : ℕ) :
    (b.allocate len).Raises (·.Plain = true) := by
  simp [allocate, Fault.Plain]

theorem Buffer.write_raises (b : Buffer) (data : Bytes) :
    (b.write data).Raises (·.Plain = true) := by
  have h := BufferOp.apply_raises ⟨.linux, .little⟩ b (.write data)
  simpa [BufferOp.apply] using h

theorem Buffer.expandBuffer_raises (b : Buffer) (len : ℕ) :
    (b.expandBuffer len).Raises (·.Plain = true) := by
  have h := BufferOp.apply_raises ⟨.linux, .little⟩ b (.expandBuffer len)
  simpa [BufferOp.apply] using h

theorem Socket.read_raises (socket : Socket) (len : ℕ) (r : ReadResult) :
    (socket.read len r).Raises (·.Plain = true) := by
  cases r <;> simp [Socket.read]

theorem Socket.write_raises (socket : Socket) (len : ℕ) (w : WriteResult) :
    (socket.write len w).Raises (·.Plain = true) := by
  cases w <;> simp [Socket.write]

namespace TcpConnection

/-- The code behind a callback that uses a pointer without a look at it. -/
def NeedsPointer (c : TcpConnection) : Act → Prop
  | .bindFunctor | .readBody _ | .readTest => True
  | .writeTail => c.writeBuffer.content = []
  | _ => False

/-- Why a piece of code failed. -/
inductive Cause (c : TcpConnection) (act : Act) : Fault → Prop
  | plain {f : Fault} : f.Plain = true → Cause c act f
  | notWriting {w : WriteResult} {event : IOEvent} : act = .handleWriteEvent w →
      c.ioEvent = some event → c.isConnected = true → event.isWriting = false →
      Cause c act .notWriting
  | nullPointer : c.Unbound → c.NeedsPointer act → Cause c act .nullPointer

variable {c : TcpConnection} {event : IOEvent} {socket : Socket}

theorem onEvent_raises {f : IOEvent → Option Mask → Outcome Fault (IOEvent × Option Mask)}
    (he : c.ioEvent = some event) (hf : ∀ event entry, (f event entry).Raises (·.Plain = true)) :
    (c.onEvent f).Raises (·.Plain = true) := by
  simp [onEvent, he, Outcome.deref, hf]

theorem Held.handleCloseEvent_raises (h : c.Held) :
    c.handleCloseEvent.Raises (·.Plain = true) := by
  rcases h.pointers with ⟨-, -, hs⟩ | ⟨event, socket, hb, hd⟩
  · simp [handleCloseEvent, hs]
  · have honEvent := onEvent_raises hb.event_eq IOEvent.removeThisEvent_raises
    simp only [handleCloseEvent, hb.socket_eq, hb.event_eq, hb.loop_set]
    simp [honEvent]
    intro _ c' hc' _
    obtain ⟨event', entry', hf, rfl⟩ := onEvent_next hb.event_eq hc'
    simp [destroyConnection, reset, hb.loop_set]

theorem Held.readBody_raises (h : c.Held) {r : ReadResult} (hs : c.socket = some socket) :
    (c.readBody r).Raises (·.Plain = true) := by
  have hwritten : ∀ b : Buffer, b.writeableBytes.Raises (·.Plain = true) := by
    simp [Buffer.writeableBytes, Fault.Plain]
  have hfill : ∀ b data, (Buffer.fill b data).Raises (·.Plain = true) := by
    simp [Buffer.fill, Buffer.hasWritten, Buffer.writeableBytes, copyTo, Fault.Plain]
  simp only [readBody, hs, Outcome.deref, Outcome.next_bind, Outcome.raises_bind]
  refine ⟨hwritten _, fun offered _ => ⟨Socket.read_raises _ _ _, fun _ _ => ?_⟩⟩
  cases r with
  | again => simp
  | error => simp [h.handleCloseEvent_raises]
  | data data =>
    cases data with
    | nil => simp [h.handleCloseEvent_raises]
    | cons byte bytes =>
      simp [hwritten, hfill, Buffer.allocate_raises, Buffer.expandBuffer_raises]

theorem Held.flush_raises (h : c.Held) {w : WriteResult} (hb : c.Bound event socket) :
    (c.flush socket w).Raises (·.Plain = true) := by
  have hread : ∀ b : Buffer, b.readableBytes.Raises (·.Plain = true) := by
    simp [Buffer.readableBytes, Fault.Plain]
  have hretrieve : ∀ b n, (Buffer.retrieve b n).Raises (·.Plain = true) := by
    simp [Buffer.retrieve, Buffer.readableBytes, Fault.Plain]
  simp only [flush, h.writeValid.readAsSlice_eq, Outcome.next_bind, Outcome.raises_ite,
    Outcome.raises_bind]
  refine ⟨fun _ => ⟨Socket.write_raises _ _ _, fun _ _ => ?_⟩, fun _ => Outcome.raises_pure _⟩
  cases w with
  | again => simp [onEvent_raises hb.event_eq IOEvent.expectWriting_raises]
  | error => simp [h.handleCloseEvent_raises]
  | sent n =>
    have honEvent (b : Buffer) := @onEvent_raises { c with writeBuffer := b } event _ hb.event_eq
      IOEvent.ignoreWriting_raises
    simp [hread, hretrieve, honEvent]

theorem Held.writeFunctor_raises (h : c.Held) (str : Bytes) (w : WriteResult) :
    (c.writeFunctor str w).Raises (·.Plain = true) := by
  rcases h.pointers with ⟨-, -, hs⟩ | ⟨event, socket, hb, -⟩
  · simp [writeFunctor, hs]
  · have honEvent (b : Buffer) := @onEvent_raises { c with writeBuffer := b } event _ hb.event_eq
      IOEvent.expectWriting_raises
    simp only [writeFunctor, hb.socket_eq, hb.event_eq, Outcome.deref, Outcome.next_bind,
      Outcome.check_pos hb.loop_set]
    simp [writeBuffered, writeDirect, Buffer.allocate_raises, Buffer.write_raises,
      Socket.write_raises, honEvent, h.handleCloseEvent_raises]

/-- A failure has one of the three causes. -/
theorem perform_cause {p : Platform} (h : c.Held) (act : Act) :
    (c.perform p act).Raises (c.Cause act) := by
  have hplain {x : Outcome Fault Effect} (hx : x.Raises (·.Plain = true)) :
      x.Raises (c.Cause act) := fun f hf => .plain (hx f hf)
  cases act with
  | handleCloseEvent => exact hplain h.handleCloseEvent_raises
  | handleReadEvent =>
    refine hplain ?_
    rcases h.pointers with ⟨-, -, hs⟩ | ⟨event, socket, hb, -⟩
    · simp [perform, handleReadEvent, hs]
    · simp [perform, handleReadEvent, hb.socket_eq, hb.event_eq]
  | writeFunctor str w => exact hplain (h.writeFunctor_raises str w)
  | close =>
    refine hplain ?_
    rcases h.pointers with ⟨-, -, hs⟩ | ⟨event, socket, hb, -⟩
    · simp [perform, close, hs]
    · obtain ⟨loop, hl⟩ := Option.isSome_iff_exists.mp hb.loop_set
      simp [perform, close, hb.socket_eq, hb.event_eq, hl, Outcome.deref,
        h.handleCloseEvent_raises]
  | write str w =>
    refine hplain ?_
    rcases h.pointers with ⟨-, -, hs⟩ | ⟨event, socket, hb, -⟩
    · simp [perform, write, hs]
    · obtain ⟨loop, hl⟩ := Option.isSome_iff_exists.mp hb.loop_set
      simp [perform, write, hb.socket_eq, hl, Outcome.deref, h.writeFunctor_raises]
  | take t =>
    refine hplain ?_
    simp [perform, take, Take.apply_raises]
  | resetTail => simp [perform]
  | bindFunctor =>
    rcases h.pointers with hu | ⟨event, socket, hb, -⟩
    · intro f hf
      simp [perform, bindFunctor, onEvent, hu.2.1, Outcome.deref] at hf
      exact hf ▸ .nullPointer hu trivial
    · refine hplain ?_
      simp [perform, bindFunctor, onEvent_raises hb.event_eq IOEvent.expectReading_raises]
  | readTest =>
    rcases h.pointers with hu | ⟨event, socket, hb, -⟩
    · intro f hf
      simp [perform, readTest, hu.2.1, Outcome.deref] at hf
      exact hf ▸ .nullPointer hu trivial
    · simp [perform, readTest, hb.event_eq, Outcome.deref]
  | readBody r =>
    rcases h.pointers with hu | ⟨event, socket, hb, -⟩
    · intro f hf
      simp [perform, readBody, hu.2.2, Outcome.deref] at hf
      exact hf ▸ .nullPointer hu trivial
    · exact hplain (h.readBody_raises hb.socket_eq)
  | writeTail =>
    simp only [perform, writeTail, h.writeValid.readableBytes_eq, Outcome.next_bind]
    by_cases hall : c.writeBuffer.content.length = 0
    · rw [if_pos hall]
      rcases h.pointers with hu | ⟨event, socket, hb, -⟩
      · intro f hf
        simp [onEvent, hu.2.1, Outcome.deref] at hf
        exact hf ▸ .nullPointer hu (List.length_eq_zero_iff.mp hall)
      · refine hplain ?_
        simp [onEvent_raises hb.event_eq IOEvent.ignoreWriting_raises]
    · rw [if_neg hall]
      exact Outcome.raises_pure _
  | handleWriteEvent w =>
    rcases h.pointers with ⟨-, -, hs⟩ | ⟨event, socket, hb, -⟩
    · simp [perform, handleWriteEvent, hs]
    · simp only [perform, handleWriteEvent, hb.socket_eq, hb.event_eq, Outcome.deref,
        Outcome.next_bind]
      by_cases hc : socket.isConnected = true
      · rw [if_pos hc]
        simp only [Outcome.raises_bind, Outcome.raises_check]
        refine ⟨fun hw => ?_, fun _ _ => hplain (h.flush_raises hb)⟩
        exact .notWriting rfl hb.event_eq (by rw [hb.isConnected]; exact hc) (by simpa using hw)
      · rw [if_neg hc]
        exact Outcome.raises_pure _

end TcpConnection
end Potato
