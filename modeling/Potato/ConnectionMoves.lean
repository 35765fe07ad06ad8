import Potato.TcpConnection

/-!
# What a connection can do

`Act` names the pieces of code that a loop thread runs for one connection, and
`Move` lists, once and for all, what each of them can do to a connection that
satisfies the invariant `Held`. Later modules reason on moves and never unfold
the handlers.
-/
namespace Potato
open Words Machine

/-- The `n` oldest readable bytes are dropped, and the storage is left alone. -/
structure Buffer.Consumed (b : Buffer) (n : ℕ) (b' : Buffer) : Prop where
  valid : b'.Valid
  enough : n ≤ b.content.length
  content : b'.content = b.content.drop n
  storage : b'.buf.length = b.buf.length
  free_le : b.free ≤ b'.free

theorem Buffer.Valid.consumed_refl {b : Buffer} (h : b.Valid) : b.Consumed 0 b :=
  ⟨h, Nat.zero_le _, rfl, rfl, le_rfl⟩

theorem Buffer.Valid.consumed_reset {b : Buffer} (h : b.Valid) :
    b.Consumed b.content.length b.reset :=
  ⟨h.reset, le_rfl, by rw [Buffer.content_reset, List.drop_length], rfl, Buffer.free_le⟩

theorem Buffer.Valid.consumed_retrieve {b b' : Buffer} {len : ℕ} (h : b.Valid)
    (hr : b.retrieve len = .next b') : b.Consumed len b' := by
  have hlen : len ≤ b.content.length := by
    simp only [Buffer.retrieve, h.readableBytes_eq, Outcome.next_bind, Outcome.bind_eq_next,
      Outcome.check_eq_next] at hr
    obtain ⟨u, hlen, -⟩ := hr
    exact hlen
  obtain ⟨b₁, hr₁, hv, hc, hbuf, hfree⟩ := h.retrieve_spec hlen
  rw [hr₁, Outcome.next.injEq] at hr
  subst hr
  exact ⟨hv, hlen, hc, by rw [hbuf], hfree⟩

theorem Buffer.Consumed.trans {a b d : Buffer} {n m : ℕ} (hab : a.Consumed n b)
    (hbd : b.Consumed m d) : a.Consumed (n + m) d := by
  have hn := hab.enough
  have hm := hbd.enough
  rw [hab.content, List.length_drop] at hm
  exact ⟨hbd.valid, by omega, by rw [hbd.content, hab.content, List.drop_drop],
    hbd.storage.trans hab.storage, hab.free_le.trans hbd.free_le⟩

/-- How many of `n` readable bytes user code consumes. -/
def Take.popped (n : ℕ) : Take → ℕ
  | op operation => operation.popped n
  | void len => len + len

theorem BufferOp.consumed {p : Platform} {b b' : Buffer} {op : BufferOp} {r : Reply} (h : b.Valid)
    (hop : op.Consumes = true) (he : op.apply p b = .next (b', r)) :
    b.Consumed (op.popped b.content.length) b' := by
  cases op <;> simp only [BufferOp.Consumes, Bool.false_eq_true] at hop <;>
    simp only [BufferOp.apply, Buffer.retrieveChars, Buffer.retrieveInt32, Buffer.retrieveInt64,
      Buffer.retrieveUint64, Buffer.retrieveAll, Buffer.retrieveAllAsString, Buffer.retrieveUntil,
      Outcome.bind_eq_next, Outcome.pure_eq, Outcome.next.injEq, Prod.exists, Prod.mk.injEq] at he
  case read len =>
    obtain ⟨-, -, rfl, -⟩ := he
    exact h.consumed_refl
  case retrieve len =>
    obtain ⟨b₁, hr, rfl, -⟩ := he
    exact h.consumed_retrieve hr
  case retrieveChars len =>
    obtain ⟨b₁, -, ⟨-, -, b₂, hr, rfl, -⟩, rfl, -⟩ := he
    exact h.consumed_retrieve hr
  case retrieveUntil n =>
    obtain ⟨b₁, ⟨-, -, -, -, hr⟩, rfl, -⟩ := he
    rw [Nat.add_sub_cancel_left] at hr
    exact h.consumed_retrieve hr
  case retrieveInt32 =>
    obtain ⟨b₁, -, ⟨-, -, b₂, hr, rfl, -⟩, rfl, -⟩ := he
    exact h.consumed_retrieve hr
  case retrieveInt64 =>
    obtain ⟨b₁, -, ⟨-, -, b₂, hr, rfl, -⟩, rfl, -⟩ := he
    exact h.consumed_retrieve hr
  case retrieveUint64 =>
    obtain ⟨b₁, -, ⟨-, -, b₂, hr, rfl, -⟩, rfl, -⟩ := he
    exact h.consumed_retrieve hr
  case retrieveAll =>
    obtain ⟨rfl, -⟩ := he
    exact h.consumed_reset
  case retrieveAllAsString =>
    obtain ⟨b₁, -, ⟨-, -, rfl, -⟩, rfl, -⟩ := he
    exact h.consumed_reset
  case reset =>
    obtain ⟨rfl, -⟩ := he
    exact h.consumed_reset

theorem Take.consumed {p : Platform} {b b' : Buffer} {t : Take} (h : b.Valid)
    (ht : t.apply p b = .next b') : b.Consumed (t.popped b.content.length) b' := by
  cases t with
  | op operation =>
    simp only [Take.apply, Outcome.bind_eq_next, Outcome.require_eq_next, Prod.exists,
      Outcome.pure_eq, Outcome.next.injEq] at ht
    obtain ⟨-, hop, b₁, r, happly, rfl⟩ := ht
    exact BufferOp.consumed h hop happly
  | void len =>
    simp only [Take.apply, Buffer.retrieveVoid, Buffer.retrieveChars, Outcome.bind_eq_next,
      Prod.exists, Outcome.pure_eq, Outcome.next.injEq, Prod.mk.injEq] at ht
    obtain ⟨b₁, -, ⟨b₂, -, ⟨-, -, b₃, hr₁, rfl, -⟩, b₄, hr₂, rfl, -⟩, rfl⟩ := ht
    have hc := h.consumed_retrieve hr₁
    exact hc.trans (hc.valid.consumed_retrieve hr₂)

/-- A piece of code that the loop thread runs, with the answers of the system calls. -/
inductive Act where
  | bindFunctor
  | handleCloseEvent
  | handleReadEvent
  | handleWriteEvent (w : WriteResult)
  | writeFunctor (str : Bytes) (w : WriteResult)
  | close
  | write (str : Bytes) (w : WriteResult)
  | take (t : Take)
  | readBody (r : ReadResult)
  | readTest
  | writeTail
  | resetTail
  deriving DecidableEq, Repr

namespace TcpConnection

/-- `runInLoop` runs its functor at once when it is called on the loop thread. -/
def perform (p : Platform) (c : TcpConnection) : Act → Outcome Fault Effect
  | .bindFunctor => c.bindFunctor
  | .handleCloseEvent => c.handleCloseEvent
  | .handleReadEvent => c.handleReadEvent
  | .handleWriteEvent w => c.handleWriteEvent w
  | .writeFunctor str w => c.writeFunctor str w
  | .close => do
    match ← c.close with
    | none => return { conn := c }
    | some _ => c.handleCloseEvent
  | .write str w => do
    match ← c.write with
    | none => return { conn := c }
    | some _ => c.writeFunctor str w
  | .take t => c.take p t
  | .readBody r => c.readBody r
  | .readTest => c.readTest
  | .writeTail => c.writeTail
  | .resetTail => return c.resetTail

/-- No pointer is set. -/
def Unbound (c : TcpConnection) : Prop := c.loop = none ∧ c.ioEvent = none ∧ c.socket = none

/-- All three pointers are set, the first and the last to these objects. -/
structure Bound (c : TcpConnection) (event : IOEvent) (socket : Socket) : Prop where
  loop_set : c.loop.isSome = true
  event_eq : c.ioEvent = some event
  socket_eq : c.socket = some socket
  same : event.id = socket.id

/-- The invariant of a connection between two pieces of code. -/
structure Held (c : TcpConnection) : Prop where
  readValid : c.readBuffer.Valid
  writeValid : c.writeBuffer.Valid
  room : 4096 ≤ c.readBuffer.free
  pointers : c.Unbound ∨ ∃ event socket, c.Bound event socket ∧ c.destroyCallback = true
  synced : ∀ event, c.ioEvent = some event → event.Synced c.entry
  removed : ∀ event, c.ioEvent = some event → c.isConnected = false → event.inEpoll = false
  idle : ∀ event, c.ioEvent = some event → c.isConnected = true → event.inEpoll = false →
    event.isWriting = false
  pending : ∀ event, c.ioEvent = some event → event.isWriting = true → c.writeBuffer.content ≠ []

/-- The connection behind a close: the event is removed and the socket is closed. -/
def shut (c : TcpConnection) (event : IOEvent) (socket : Socket) : TcpConnection :=
  { c with
    ioEvent := some { event with inEpoll := false, events := 0 }
    socket := some socket.close
    entry := none }

/-- The connection with another event, whose mask the kernel holds. -/
def armed (c : TcpConnection) (event : IOEvent) : TcpConnection :=
  { c with ioEvent := some event, entry := some (IOWatcher.interest event) }

variable {c : TcpConnection} {event : IOEvent} {socket : Socket}

theorem Unbound.event_ne (h : c.Unbound) : c.ioEvent ≠ some event := by simp [h.2.1]

theorem Unbound.socket_ne (h : c.Unbound) : c.socket ≠ some socket := by simp [h.2.2]

theorem Unbound.isConnected (h : c.Unbound) : c.isConnected = false := by
  simp [TcpConnection.isConnected, h.2.2]

theorem Bound.isConnected (h : c.Bound event socket) : c.isConnected = socket.connected := by
  rw [TcpConnection.isConnected, h.socket_eq]
  rfl

theorem Held.bound_of_connected (h : c.Held) (hc : c.isConnected = true) :
    ∃ event socket, c.Bound event socket ∧ c.destroyCallback = true ∧ socket.connected = true := by
  rcases h.pointers with ⟨-, -, hs⟩ | ⟨event, socket, hb, hd⟩
  · simp [TcpConnection.isConnected, hs] at hc
  · exact ⟨event, socket, hb, hd, by rw [← hb.isConnected, hc]⟩

/-- The pieces of code that hand `str` to the connection, with the answer of `write`. -/
def Submits (act : Act) (str : Bytes) (w : WriteResult) : Prop :=
  act = .writeFunctor str w ∨ act = .write str w

/-- The pieces of code that look at the socket before anything else. -/
def Guarded : Act → Bool
  | .handleCloseEvent | .handleReadEvent | .handleWriteEvent _ | .writeFunctor _ _ | .close
  | .write _ _ => true
  | _ => false

/-- The ways in which a connection is closed, with what is seen of each before the close
and what is left to run behind it. -/
inductive Closes (c : TcpConnection) (event : IOEvent) : Act → List Obs → List Frame → Prop
  | hangUp : Closes c event .handleCloseEvent [] []
  | user : Closes c event .close [] []
  | endOfStream : Closes c event (.readBody (.data [])) [.read c.readBuffer.free (.data [])] []
  | readError : Closes c event (.readBody .error) [.read c.readBuffer.free .error] []
  | writeError : event.isWriting = true → c.writeBuffer.content ≠ [] →
      Closes c event (.handleWriteEvent .error) [.wrote c.writeBuffer.content .error] [.writeTail]
  | directError {act : Act} {str : Bytes} : Submits act str .error → event.isWriting = false →
      Closes c event act [.submitted str, .wrote str .error] []

/-- The code, with these answers of the system calls, comes to close the connection. -/
def Shuts (c : TcpConnection) (act : Act) : Bool :=
  c.isConnected && match act with
    | .handleCloseEvent | .close | .readBody (.data []) | .readBody .error
    | .handleWriteEvent .error => true
    | .writeFunctor _ .error | .write _ .error => c.ioEvent.any (!·.isWriting)
    | _ => false

theorem Closes.shuts {act : Act} {seen : List Obs} {tail : List Frame}
    (h : Closes c event act seen tail) (hb : c.Bound event socket)
    (hc : socket.connected = true) : c.Shuts act = true := by
  have hconn : c.isConnected = true := by rw [hb.isConnected, hc]
  cases h with
  | directError hsub hw => rcases hsub with rfl | rfl <;> simp [Shuts, hconn, hb.event_eq, hw]
  | _ => simp [Shuts, hconn]

/-- What the code can do to a connection that satisfies the invariant. -/
inductive Move (c : TcpConnection) : Act → Effect → Prop
  | ignored {act : Act} : Guarded act = true → c.isConnected = false → Move c act { conn := c }
  | registered {event : IOEvent} {socket : Socket} : c.Bound event socket →
      event.inEpoll = false →
      Move c .bindFunctor
        ((c.armed { event with inEpoll := true, events := EPOLLIN ||| EPOLLPRI }).calling
          .connection (.connection c.isConnected) [])
  | closed {act : Act} {event : IOEvent} {socket : Socket} {seen : List Obs}
      {tail : List Frame} {e : Effect} : c.Bound event socket → socket.connected = true →
      event.inEpoll = true → Closes c event act seen tail →
      e = (c.shut event socket).calling .connection (.connection false) [.resetTail] →
      Move c act ⟨e.conn, e.frames ++ tail, seen ++ e.obs⟩
  | reading : c.isConnected = true → Move c .handleReadEvent { conn := c, frames := [.readBody] }
  | received {data : Bytes} {b : Buffer} {e : Effect} : c.isConnected = true → data ≠ [] →
      data.length ≤ c.readBuffer.free → b.Valid → b.content = c.readBuffer.content ++ data →
      4096 ≤ b.free →
      e = { c with readBuffer := b }.calling .message (.message b.content) [.readTest] →
      Move c (.readBody (.data data))
        ⟨e.conn, e.frames, .read c.readBuffer.free (.data data) :: e.obs⟩
  | blocked : Move c (.readBody .again) { conn := c, obs := [.read c.readBuffer.free .again] }
  | broken : c.isConnected = false →
      Move c (.readBody .error) { conn := c, obs := [.read c.readBuffer.free .error] }
  | looped {event : IOEvent} : c.ioEvent = some event →
      Move c .readTest { conn := c, frames := if event.etMode then [.readBody] else [] }
  | consumed {t : Take} {n : ℕ} {b : Buffer} : n = t.popped c.readBuffer.content.length →
      c.readBuffer.Consumed n b →
      Move c (.take t)
        { conn := { c with readBuffer := b }, obs := [.taken (c.readBuffer.content.take n)] }
  | appended {act : Act} {str : Bytes} {w : WriteResult} {event : IOEvent} {socket : Socket}
      {b : Buffer} : Submits act str w → c.Bound event socket → socket.connected = true →
      event.isWriting = true → b.Valid → b.content = c.writeBuffer.content ++ str →
      Move c act { conn := { c with writeBuffer := b }, obs := [.submitted str] }
  | sentAll {act : Act} {str : Bytes} {w : WriteResult} {event : IOEvent} {socket : Socket}
      {e : Effect} : Submits act str w → c.Bound event socket → socket.connected = true →
      event.isWriting = false → w ≠ .error → w.count = str.length →
      e = c.calling .writeComplete .writeComplete [] →
      Move c act ⟨e.conn, e.frames, [.submitted str, .wrote str w] ++ e.obs⟩
  | sentPart {act : Act} {str : Bytes} {w : WriteResult} {event : IOEvent} {socket : Socket}
      {b : Buffer} : Submits act str w → c.Bound event socket → socket.connected = true →
      event.isWriting = false → event.inEpoll = true → w ≠ .error → w.count < str.length →
      b.Valid → b.content = c.writeBuffer.content ++ str.drop w.count →
      Move c act
        { conn := { c with writeBuffer := b }.armed
            { event with events := event.events ||| EPOLLOUT, isWriting := true }
          obs := [.submitted str, .wrote str w] }
  | flushedAll {n : ℕ} {event : IOEvent} {socket : Socket} {b : Buffer} {e : Effect} :
      c.Bound event socket → socket.connected = true → event.isWriting = true →
      event.inEpoll = true → c.writeBuffer.content ≠ [] → n = c.writeBuffer.content.length →
      b.Valid → b.content = [] →
      e = ({ c with writeBuffer := b }.armed
        { event with events := event.events &&& ~~~EPOLLOUT, isWriting := false }).calling
          .writeComplete .writeComplete [.writeTail] →
      Move c (.handleWriteEvent (.sent n))
        ⟨e.conn, e.frames, .wrote c.writeBuffer.content (.sent n) :: e.obs⟩
  | flushedPart {n : ℕ} {event : IOEvent} {socket : Socket} {b : Buffer} :
      c.Bound event socket → socket.connected = true → event.isWriting = true → 0 < n →
      n < c.writeBuffer.content.length → b.Valid → b.content = c.writeBuffer.content.drop n →
      Move c (.handleWriteEvent (.sent n))
        { conn := { c with writeBuffer := b }, frames := [.writeTail]
          obs := [.wrote c.writeBuffer.content (.sent n)] }
  | stalled {event : IOEvent} {socket : Socket} : c.Bound event socket →
      socket.connected = true → event.isWriting = true → c.writeBuffer.content ≠ [] →
      Move c (.handleWriteEvent .again)
        { conn := c, frames := [.writeTail], obs := [.wrote c.writeBuffer.content .again] }
  | tailed : c.ioEvent.isSome = true ∨ c.writeBuffer.content ≠ [] → Move c .writeTail { conn := c }
  | unbound : Move c .resetTail c.resetTail

variable {e : Effect} {act : Act}

theorem onEvent_next {f : IOEvent → Option Mask → Outcome Fault (IOEvent × Option Mask)}
    {c' : TcpConnection} (he : c.ioEvent = some event) (h : c.onEvent f = .next c') :
    ∃ event' entry', f event c.entry = .next (event', entry') ∧
      c' = { c with ioEvent := some event', entry := entry' } := by
  simp only [onEvent, he, Outcome.deref, Outcome.next_bind, Outcome.bind_eq_next, Prod.exists,
    Outcome.pure_eq, Outcome.next.injEq] at h
  obtain ⟨event', entry', hf, rfl⟩ := h
  exact ⟨event', entry', hf, rfl⟩

theorem handleCloseEvent_next (h : c.Held) (he : c.handleCloseEvent = .next e) :
    (c.isConnected = false ∧ e = { conn := c }) ∨
    ∃ event socket, c.Bound event socket ∧ socket.connected = true ∧ event.inEpoll = true ∧
      e = (c.shut event socket).calling .connection (.connection false) [.resetTail] := by
  rcases h.pointers with ⟨-, -, hs⟩ | ⟨event, socket, hb, hd⟩
  · simp only [handleCloseEvent, hs, Outcome.pure_eq, Outcome.next.injEq] at he
    exact .inl ⟨by simp [TcpConnection.isConnected, hs], he.symm⟩
  · cases hc : socket.connected with
    | false =>
      simp only [handleCloseEvent, hb.socket_eq, Socket.isConnected, hc, Bool.false_eq_true,
        if_false, Outcome.bind_eq_next, Outcome.pure_eq, Outcome.next.injEq] at he
      obtain ⟨-, -, -, -, he⟩ := he
      exact .inl ⟨by rw [hb.isConnected, hc], he.symm⟩
    | true =>
      simp only [handleCloseEvent, hb.socket_eq, Socket.isConnected, hc, if_true,
        Outcome.bind_eq_next] at he
      obtain ⟨-, -, -, -, c', hc', he⟩ := he
      obtain ⟨event', entry', hf, rfl⟩ := onEvent_next hb.event_eq hc'
      obtain ⟨hin, rfl, rfl⟩ := IOEvent.removeThisEvent_next hf
      have hdestroy : (c.shut event socket).destroyCallback = true := hd
      change (if (c.shut event socket).destroyCallback = true then
        (c.shut event socket).destroyConnection else _) = _ at he
      simp only [if_pos hdestroy, destroyConnection, reset, Outcome.bind_eq_next, Outcome.pure_eq,
        Outcome.next.injEq] at he
      obtain ⟨-, -, -, -, -, -, -, -, he⟩ := he
      exact .inr ⟨event, socket, hb, hc, hin, he.symm⟩

theorem handleCloseEvent_open (h : c.Held) (hb : c.Bound event socket)
    (hc : socket.connected = true) (he : c.handleCloseEvent = .next e) :
    event.inEpoll = true ∧
      e = (c.shut event socket).calling .connection (.connection false) [.resetTail] := by
  rcases handleCloseEvent_next h he with ⟨hno, -⟩ | ⟨event', socket', hb', -, hin, he⟩
  · rw [hb.isConnected, hc] at hno
    cases hno
  · obtain rfl : event = event' := Option.some.inj (hb.event_eq.symm.trans hb'.event_eq)
    obtain rfl : socket = socket' := Option.some.inj (hb.socket_eq.symm.trans hb'.socket_eq)
    exact ⟨hin, he⟩

/-- Nothing is left to run behind the close. -/
theorem Move.closed_last {seen : List Obs} (hb : c.Bound event socket)
    (hc : socket.connected = true) (hin : event.inEpoll = true)
    (hclose : Closes c event act seen []) {e : Effect}
    (he : e = (c.shut event socket).calling .connection (.connection false) [.resetTail]) :
    Move c act { e with obs := seen ++ e.obs } := by
  have hm := Move.closed hb hc hin hclose he
  rwa [List.append_nil] at hm

theorem handleCloseEvent_move (h : c.Held) (hg : Guarded act = true)
    (hclose : ∀ event, Closes c event act [] []) (he : c.handleCloseEvent = .next e) :
    Move c act e := by
  rcases handleCloseEvent_next h he with ⟨hno, rfl⟩ | ⟨event, socket, hb, hc, hin, he⟩
  · exact .ignored hg hno
  · exact .closed_last hb hc hin (hclose event) he

theorem readBody_move {r : ReadResult} (h : c.Held) (he : c.readBody r = .next e) :
    Move c (.readBody r) e := by
  simp only [readBody, Outcome.bind_eq_next, Outcome.deref_eq_next,
    h.readValid.writeableBytes_eq, Outcome.next.injEq] at he
  obtain ⟨socket, hs, offered, rfl, u, hread, he⟩ := he
  cases r with
  | again =>
    simp only [Outcome.pure_eq, Outcome.next.injEq] at he
    exact he ▸ .blocked
  | error =>
    simp only [Outcome.bind_eq_next, Outcome.pure_eq, Outcome.next.injEq] at he
    obtain ⟨e', hclose, rfl⟩ := he
    rcases handleCloseEvent_next h hclose with ⟨hc, rfl⟩ | ⟨event, socket, hb, hc, hin, he⟩
    · exact .broken hc
    · exact .closed_last hb hc hin .readError he
  | data data =>
    simp only [Socket.read, Outcome.require_eq_next] at hread
    have hconn : c.isConnected = true := by
      rw [TcpConnection.isConnected, hs]
      exact hread.1
    cases data with
    | nil =>
      simp only [Outcome.bind_eq_next, Outcome.pure_eq, Outcome.next.injEq] at he
      obtain ⟨e', hclose, rfl⟩ := he
      rcases handleCloseEvent_next h hclose with ⟨hc, -⟩ | ⟨event, socket, hb, hc, hin, he⟩
      · rw [hconn] at hc
        cases hc
      · exact .closed_last hb hc hin .endOfStream he
    | cons byte bytes =>
      obtain ⟨b, hfill, hv, hcont, hlen⟩ := h.readValid.fill_spec hread.2
      simp only [hfill, Outcome.next_bind, hv.writeableBytes_eq] at he
      by_cases hroom : b.free < 4096
      · simp only [if_pos hroom, Outcome.bind_eq_next, Buffer.allocate, Outcome.check_eq_next,
          Outcome.pure_eq, Outcome.next.injEq] at he
        obtain ⟨u', hfits, b', hexp, rfl⟩ := he
        obtain ⟨b₁, hexp', hv₁, hcont₁, hfree₁, -⟩ := hv.expandBuffer_spec (hfits hroom)
        rw [hexp', Outcome.next.injEq] at hexp
        subst hexp
        exact .received hconn (by simp) hread.2 hv₁ (by rw [hcont₁, hcont]) hfree₁ rfl
      · simp only [if_neg hroom, Outcome.pure_eq, Outcome.next_bind, Outcome.next.injEq] at he
        subst he
        exact .received hconn (by simp) hread.2 hv hcont (by omega) rfl

theorem readTest_move (he : c.readTest = .next e) : Move c .readTest e := by
  simp only [readTest, Outcome.bind_eq_next, Outcome.deref_eq_next, Outcome.pure_eq,
    Outcome.next.injEq] at he
  obtain ⟨event, hevent, rfl⟩ := he
  exact .looped hevent

theorem bindFunctor_move (h : c.Held) (he : c.bindFunctor = .next e) : Move c .bindFunctor e := by
  simp only [bindFunctor, Outcome.bind_eq_next, Outcome.pure_eq, Outcome.next.injEq] at he
  obtain ⟨c', hc', rfl⟩ := he
  rcases h.pointers with ⟨-, hn, -⟩ | ⟨event, socket, hb, -⟩
  · simp [onEvent, hn, Outcome.deref] at hc'
  · obtain ⟨event', entry', hf, rfl⟩ := onEvent_next hb.event_eq hc'
    obtain ⟨-, hin, -, rfl, rfl⟩ := IOEvent.expectReading_next hf
    exact .registered hb hin

theorem handleReadEvent_move (he : c.handleReadEvent = .next e) : Move c .handleReadEvent e := by
  cases hs : c.socket with
  | none =>
    simp only [handleReadEvent, hs, Outcome.pure_eq, Outcome.next.injEq] at he
    exact he ▸ .ignored rfl (by simp [TcpConnection.isConnected, hs])
  | some socket =>
    simp only [handleReadEvent, hs, Outcome.bind_eq_next] at he
    obtain ⟨-, -, he⟩ := he
    have hconn : c.isConnected = socket.isConnected := by rw [TcpConnection.isConnected, hs]
    by_cases hc : socket.isConnected = true
    · simp only [if_pos hc, Outcome.pure_eq, Outcome.next.injEq] at he
      exact he ▸ .reading (by rw [hconn, hc])
    · simp only [if_neg hc, Outcome.pure_eq, Outcome.next.injEq] at he
      exact he ▸ .ignored rfl (by rw [hconn]; simpa using hc)

theorem Held.inEpoll_of_writing (h : c.Held) (he : c.ioEvent = some event)
    (hc : c.isConnected = true) (hw : event.isWriting = true) : event.inEpoll = true := by
  by_contra hin
  have hidle := h.idle event he hc (by simpa using hin)
  rw [hw] at hidle
  cases hidle

theorem flush_move {w : WriteResult} (h : c.Held) (hb : c.Bound event socket)
    (hc : socket.connected = true) (hw : event.isWriting = true)
    (he : c.flush socket w = .next e) : Move c (.handleWriteEvent w) e := by
  have hconn : c.isConnected = true := by rw [hb.isConnected, hc]
  have hin := h.inEpoll_of_writing hb.event_eq hconn hw
  have hne := h.pending event hb.event_eq hw
  have hpos : c.writeBuffer.content.length > 0 := List.length_pos_iff.mpr hne
  simp only [flush, h.writeValid.readAsSlice_eq, Outcome.next_bind, if_pos hpos,
    Outcome.bind_eq_next] at he
  obtain ⟨u, hwrite, he⟩ := he
  cases w with
  | again =>
    simp only [Outcome.bind_eq_next, Outcome.pure_eq, Outcome.next.injEq] at he
    obtain ⟨c', hc', rfl⟩ := he
    obtain ⟨event', entry', hf, rfl⟩ := onEvent_next hb.event_eq hc'
    rcases IOEvent.expectWriting_next hf with ⟨-, rfl, rfl⟩ | ⟨hno, -⟩
    · have hsame : { c with ioEvent := some event', entry := c.entry } = c := by
        rw [← hb.event_eq]
      rw [hsame]
      exact .stalled hb hc hw hne
    · rw [hw] at hno
      cases hno
  | error =>
    simp only [Outcome.bind_eq_next, Outcome.pure_eq, Outcome.next.injEq] at he
    obtain ⟨e', hclose, rfl⟩ := he
    obtain ⟨hin', he⟩ := handleCloseEvent_open h hb hc hclose
    exact .closed hb hc hin' (.writeError hw hne) he
  | sent n =>
    simp only [Socket.write, Outcome.require_eq_next] at hwrite
    obtain ⟨b, hret, hv, hcont, -, -⟩ := h.writeValid.retrieve_spec hwrite.2.1
    simp only [hret, Outcome.next_bind, hv.readableBytes_eq] at he
    by_cases hall : b.content.length = 0
    · simp only [if_pos hall, Outcome.bind_eq_next, Outcome.pure_eq, Outcome.next.injEq] at he
      obtain ⟨c', hc', rfl⟩ := he
      obtain ⟨event', entry', hf, rfl⟩ := @onEvent_next { c with writeBuffer := b } event _ _
        hb.event_eq hc'
      rcases IOEvent.ignoreWriting_next hf with ⟨hno, -⟩ | ⟨-, -, rfl, rfl⟩
      · rw [hw] at hno
        cases hno
      · have hn : n = c.writeBuffer.content.length := by
          rw [hcont, List.length_drop] at hall
          have := hwrite.2.1
          omega
        exact .flushedAll hb hc hw hin hne hn hv (List.length_eq_zero_iff.mp hall) rfl
    · simp only [if_neg hall, Outcome.pure_eq, Outcome.next.injEq] at he
      subst he
      rw [hcont, List.length_drop] at hall
      exact .flushedPart hb hc hw (hwrite.2.2 hpos) (by omega) hv hcont

theorem handleWriteEvent_move {w : WriteResult} (h : c.Held)
    (he : c.handleWriteEvent w = .next e) : Move c (.handleWriteEvent w) e := by
  rcases h.pointers with ⟨-, -, hs⟩ | ⟨event, socket, hb, -⟩
  · simp only [handleWriteEvent, hs, Outcome.pure_eq, Outcome.next.injEq] at he
    exact he ▸ .ignored rfl (by simp [TcpConnection.isConnected, hs])
  · simp only [handleWriteEvent, hb.socket_eq, hb.event_eq, Outcome.deref, Outcome.next_bind] at he
    by_cases hc : socket.isConnected = true
    · simp only [if_pos hc, Outcome.bind_eq_next, Outcome.check_eq_next] at he
      obtain ⟨u, hw, he⟩ := he
      exact flush_move h hb hc hw he
    · simp only [if_neg hc, Outcome.pure_eq, Outcome.next.injEq] at he
      exact he ▸ .ignored rfl (by rw [hb.isConnected]; simpa [Socket.isConnected] using hc)

theorem allocate_write {b b' : Buffer} {data : Bytes} {n : ℕ} {u : Unit} (hv : b.Valid)
    (hn : data.length = n) (ha : b.allocate n = .next u) (hw : b.write data = .next b') :
    b'.Valid ∧ b'.content = b.content ++ data := by
  subst hn
  rw [Buffer.allocate, Outcome.check_eq_next] at ha
  obtain ⟨b₁, hw₁, hv₁, hcont, -⟩ := hv.write_spec _ ha
  rw [hw₁, Outcome.next.injEq] at hw
  subst hw
  exact ⟨hv₁, hcont⟩

theorem writeDirect_move {str : Bytes} {w : WriteResult} (h : c.Held)
    (hb : c.Bound event socket) (hc : socket.connected = true) (hw : event.isWriting = false)
    (hact : Submits act str w) (he : c.writeDirect socket str w = .next e) : Move c act e := by
  simp only [writeDirect, Outcome.bind_eq_next] at he
  obtain ⟨u, hwrite, he⟩ := he
  by_cases herr : w = .error
  · subst herr
    simp only [if_true, Outcome.bind_eq_next, Outcome.pure_eq, Outcome.next.injEq] at he
    obtain ⟨e', hclose, rfl⟩ := he
    obtain ⟨hin, he⟩ := handleCloseEvent_open h hb hc hclose
    exact .closed_last hb hc hin (.directError hact hw) he
  · have hcount : w.count ≤ str.length := by
      cases w with
      | sent n => exact (Outcome.require_eq_next.mp hwrite).2.1
      | again => exact Nat.zero_le _
      | error => exact Nat.zero_le _
    rw [if_neg herr] at he
    by_cases hall : w.count = str.length
    · simp only [ne_eq, hall, not_true_eq_false, if_false, Outcome.pure_eq,
        Outcome.next.injEq] at he
      subst he
      exact .sentAll hact hb hc hw herr hall rfl
    · simp only [ne_eq, hall, not_false_eq_true, if_true, Outcome.bind_eq_next, Outcome.pure_eq,
        Outcome.next.injEq] at he
      obtain ⟨u', ha, b, hbw, c', hc', rfl⟩ := he
      obtain ⟨hv, hcont⟩ := allocate_write h.writeValid (List.length_drop) ha hbw
      obtain ⟨event', entry', hf, rfl⟩ := @onEvent_next { c with writeBuffer := b } event _ _
        hb.event_eq hc'
      rcases IOEvent.expectWriting_next hf with ⟨hno, -⟩ | ⟨-, hin, rfl, rfl⟩
      · rw [hw] at hno
        cases hno
      · exact .sentPart hact hb hc hw hin herr (by omega) hv hcont

theorem writeFunctor_move {str : Bytes} {w : WriteResult} (h : c.Held)
    (hact : Submits act str w) (he : c.writeFunctor str w = .next e) : Move c act e := by
  have hguard : Guarded act = true := by rcases hact with rfl | rfl <;> rfl
  rcases h.pointers with ⟨-, -, hs⟩ | ⟨event, socket, hb, -⟩
  · simp only [writeFunctor, hs, Outcome.pure_eq, Outcome.next.injEq] at he
    exact he ▸ .ignored hguard (by simp [TcpConnection.isConnected, hs])
  · simp only [writeFunctor, hb.socket_eq, hb.event_eq, Outcome.deref, Outcome.next_bind,
      Outcome.check_pos hb.loop_set] at he
    by_cases hc : socket.isConnected = true
    · by_cases hw : event.isWriting = true
      · simp only [if_pos hc, if_pos hw, writeBuffered, Outcome.bind_eq_next, Outcome.pure_eq,
          Outcome.next.injEq] at he
        obtain ⟨u, ha, b, hbw, rfl⟩ := he
        obtain ⟨hv, hcont⟩ := allocate_write h.writeValid rfl ha hbw
        exact .appended hact hb hc hw hv hcont
      · rw [if_pos hc, if_neg hw] at he
        exact writeDirect_move h hb hc (by simpa using hw) hact he
    · simp only [if_neg hc, Outcome.pure_eq, Outcome.next.injEq] at he
      exact he ▸ .ignored hguard (by rw [hb.isConnected]; simpa [Socket.isConnected] using hc)

theorem writeTail_move (h : c.Held) (he : c.writeTail = .next e) : Move c .writeTail e := by
  simp only [writeTail, h.writeValid.readableBytes_eq, Outcome.next_bind] at he
  by_cases hall : c.writeBuffer.content.length = 0
  · simp only [if_pos hall, Outcome.bind_eq_next, Outcome.pure_eq, Outcome.next.injEq] at he
    obtain ⟨c', hc', rfl⟩ := he
    rcases h.pointers with ⟨-, hn, -⟩ | ⟨event, socket, hb, -⟩
    · simp [onEvent, hn, Outcome.deref] at hc'
    · obtain ⟨event', entry', hf, rfl⟩ := onEvent_next hb.event_eq hc'
      rcases IOEvent.ignoreWriting_next hf with ⟨-, rfl, rfl⟩ | ⟨hw, -⟩
      · have hsame : { c with ioEvent := some event', entry := c.entry } = c := by
          rw [← hb.event_eq]
        rw [hsame]
        exact .tailed (.inl (by rw [hb.event_eq]; rfl))
      · exact absurd (List.length_eq_zero_iff.mp hall) (h.pending event hb.event_eq hw)
  · simp only [if_neg hall, Outcome.pure_eq, Outcome.next.injEq] at he
    exact he ▸ .tailed (.inr (fun hnil => hall (by rw [hnil]; rfl)))

theorem take_move {p : Platform} {t : Take} (h : c.Held) (he : c.take p t = .next e) :
    Move c (.take t) e := by
  simp only [take, Outcome.bind_eq_next, Outcome.pure_eq, Outcome.next.injEq] at he
  obtain ⟨b, ht, rfl⟩ := he
  have hc := Take.consumed h.readValid ht
  have hn : c.readBuffer.content.length - b.content.length =
      t.popped c.readBuffer.content.length := by
    have := hc.enough
    rw [hc.content, List.length_drop]
    omega
  rw [hn]
  exact .consumed rfl hc

/-- `close` and `write` post no functor only where there is no socket. -/
theorem close_none (h : c.close = .next none) : c.isConnected = false := by
  cases hs : c.socket with
  | none => simp [TcpConnection.isConnected, hs]
  | some socket => simp [TcpConnection.close, hs] at h

theorem write_none (h : c.write = .next none) : c.isConnected = false := by
  cases hs : c.socket with
  | none => simp [TcpConnection.isConnected, hs]
  | some socket => simp [TcpConnection.write, hs] at h

/-- Every piece of code that runs to its end makes one of the moves. -/
theorem perform_move {p : Platform} (h : c.Held) (he : c.perform p act = .next e) :
    Move c act e := by
  cases act with
  | bindFunctor => exact bindFunctor_move h he
  | handleCloseEvent => exact handleCloseEvent_move h rfl (fun _ => .hangUp) he
  | handleReadEvent => exact handleReadEvent_move he
  | handleWriteEvent w => exact handleWriteEvent_move h he
  | writeFunctor str w => exact writeFunctor_move h (.inl rfl) he
  | close =>
    simp only [perform, Outcome.bind_eq_next] at he
    obtain ⟨target, ht, he⟩ := he
    cases target with
    | none =>
      simp only [Outcome.pure_eq, Outcome.next.injEq] at he
      exact he ▸ .ignored rfl (close_none ht)
    | some loop => exact handleCloseEvent_move h rfl (fun _ => .user) he
  | write str w =>
    simp only [perform, Outcome.bind_eq_next] at he
    obtain ⟨target, ht, he⟩ := he
    cases target with
    | none =>
      simp only [Outcome.pure_eq, Outcome.next.injEq] at he
      exact he ▸ .ignored rfl (write_none ht)
    | some loop => exact writeFunctor_move h (.inr rfl) he
  | take t => exact take_move h he
  | readBody r => exact readBody_move h he
  | readTest => exact readTest_move he
  | writeTail => exact writeTail_move h he
  | resetTail =>
    simp only [perform, Outcome.pure_eq, Outcome.next.injEq] at he
    exact he ▸ .unbound

@[simp] theorem calling_conn (callback : Callback) (o : Obs) (rest : List Frame) :
    (c.calling callback o rest).conn = c := by
  unfold calling
  split_ifs <;> rfl

theorem calling_frames (callback : Callback) (o : Obs) (rest : List Frame) :
    (c.calling callback o rest).frames = rest ∨
      (c.calling callback o rest).frames = .user callback :: rest := by
  unfold calling
  split_ifs <;> simp

theorem calling_ne_nil {callback : Callback} {o : Obs} {rest : List Frame} (h : rest ≠ []) :
    (c.calling callback o rest).frames ≠ [] := by
  rcases c.calling_frames callback o rest with hf | hf <;> rw [hf]
  · exact h
  · exact List.cons_ne_nil _ _

theorem calling_obs (callback : Callback) (o : Obs) (rest : List Frame) :
    (c.calling callback o rest).obs = [] ∨ (c.calling callback o rest).obs = [o] := by
  unfold calling
  split_ifs <;> simp

theorem Held.withReadBuffer {b : Buffer} (h : c.Held) (hv : b.Valid) (hroom : 4096 ≤ b.free) :
    Held { c with readBuffer := b } where
  readValid := hv
  writeValid := h.writeValid
  room := hroom
  pointers := h.pointers.imp id fun ⟨event, socket, hb, hd⟩ =>
    ⟨event, socket, ⟨hb.loop_set, hb.event_eq, hb.socket_eq, hb.same⟩, hd⟩
  synced := h.synced
  removed := h.removed
  idle := h.idle
  pending := h.pending

theorem Held.withWriteBuffer {b : Buffer} (h : c.Held) (hv : b.Valid) (hne : b.content ≠ []) :
    Held { c with writeBuffer := b } where
  readValid := h.readValid
  writeValid := hv
  room := h.room
  pointers := h.pointers.imp id fun ⟨event, socket, hb, hd⟩ =>
    ⟨event, socket, ⟨hb.loop_set, hb.event_eq, hb.socket_eq, hb.same⟩, hd⟩
  synced := h.synced
  removed := h.removed
  idle := h.idle
  pending := fun _ _ _ => hne

variable {event event' : IOEvent} {socket : Socket}

/-- A new mask for a connected socket, in the event and in the kernel. -/
theorem Held.armed {b : Buffer} (h : c.Held) (hb : c.Bound event socket)
    (hc : c.isConnected = true) (hv : b.Valid) (hid : event'.id = event.id)
    (hin : event'.inEpoll = true) (hs : event'.Synced (some (IOWatcher.interest event')))
    (hp : event'.isWriting = true → b.content ≠ []) :
    Held ({ c with writeBuffer := b }.armed event') where
  readValid := h.readValid
  writeValid := hv
  room := h.room
  pointers := by
    rcases h.pointers with ⟨-, -, hn⟩ | ⟨event₁, socket₁, hb₁, hd⟩
    · rw [hb.socket_eq] at hn
      cases hn
    · exact .inr ⟨event', socket, ⟨hb.loop_set, rfl, hb.socket_eq, hid.trans hb.same⟩, hd⟩
  synced := by
    intro event₁ he
    cases he
    exact hs
  removed := by
    intro event₁ he hno
    change c.isConnected = false at hno
    rw [hc] at hno
    cases hno
  idle := by
    intro event₁ he _ hno
    cases he
    rw [hin] at hno
    cases hno
  pending := by
    intro event₁ he hw
    cases he
    exact hp hw

theorem Held.shut (h : c.Held) (hb : c.Bound event socket) : (c.shut event socket).Held where
  readValid := h.readValid
  writeValid := h.writeValid
  room := h.room
  pointers := by
    rcases h.pointers with ⟨-, -, hn⟩ | ⟨event₁, socket₁, hb₁, hd⟩
    · rw [hb.socket_eq] at hn
      cases hn
    · exact .inr ⟨_, _, ⟨hb.loop_set, rfl, rfl, hb.same⟩, hd⟩
  synced := by
    intro event₁ he
    cases he
    exact .fresh rfl rfl
  removed := by
    intro event₁ he _
    cases he
    rfl
  idle := by
    intro event₁ he hc
    cases hc
  pending := by
    intro event₁ he hw
    cases he
    exact h.pending event hb.event_eq hw

theorem Held.of_unbound (hr : c.readBuffer.Valid) (hw : c.writeBuffer.Valid)
    (hroom : 4096 ≤ c.readBuffer.free) (hu : c.Unbound) : c.Held where
  readValid := hr
  writeValid := hw
  room := hroom
  pointers := .inl hu
  synced := fun _ he => absurd he hu.event_ne
  removed := fun _ he => absurd he hu.event_ne
  idle := fun _ he => absurd he hu.event_ne
  pending := fun _ he => absurd he hu.event_ne

theorem Held.fresh (index : ℕ) : Held { index := index } :=
  .of_unbound .fresh .fresh (le_of_eq Buffer.free_fresh.symm) ⟨rfl, rfl, rfl⟩

theorem Held.resetTail (h : c.Held) : c.resetTail.conn.Held :=
  .of_unbound h.readValid h.writeValid h.room ⟨rfl, rfl, rfl⟩

/-- Every move keeps the invariant. The functor of `bindSocket` is the only one that has to
find the socket connected. -/
theorem Move.held (h : c.Held) (hbind : act = .bindFunctor → c.isConnected = true)
    (hm : Move c act e) : e.conn.Held := by
  have hconn {event : IOEvent} {socket : Socket} (hb : c.Bound event socket)
      (hc : socket.connected = true) : c.isConnected = true := by rw [hb.isConnected, hc]
  cases hm with
  | ignored | reading | blocked | broken | looped | stalled | tailed => exact h
  | registered hb hin =>
    rw [calling_conn]
    have hw := h.idle _ hb.event_eq (hbind rfl) hin
    refine h.armed hb (hbind rfl) h.writeValid rfl rfl ⟨?_, by simp⟩ ?_
    · simp [hw]
    · intro hno
      rw [hw] at hno
      cases hno
  | closed hb hc hin hclose he =>
    subst he
    rw [calling_conn]
    exact h.shut hb
  | received _ _ _ hv _ hroom he =>
    subst he
    rw [calling_conn]
    exact h.withReadBuffer hv hroom
  | consumed hn hc => exact h.withReadBuffer hc.valid (h.room.trans hc.free_le)
  | appended hact hb hc hw hv hcont =>
    refine h.withWriteBuffer hv ?_
    rw [hcont]
    simp [h.pending _ hb.event_eq hw]
  | sentAll _ _ _ _ _ _ he =>
    subst he
    rw [calling_conn]
    exact h
  | sentPart hact hb hc hw hin hne hlt hv hcont =>
    have hevents := (h.synced _ hb.event_eq).events_eq
    rw [hin, hw] at hevents
    refine h.armed hb (hconn hb hc) hv rfl hin ⟨by simp [hevents, hin], by simp [hin]⟩ ?_
    intro _
    rw [hcont]
    simp [hlt]
  | flushedAll hb hc hw hin hne hn hv hcont he =>
    subst he
    rw [calling_conn]
    have hevents := (h.synced _ hb.event_eq).events_eq
    rw [hin, hw] at hevents
    have hmask : (EPOLLIN ||| EPOLLPRI ||| EPOLLOUT) &&& ~~~EPOLLOUT = EPOLLIN ||| EPOLLPRI := by
      decide
    exact h.armed hb (hconn hb hc) hv rfl hin ⟨by simp [hevents, hin, hmask], by simp [hin]⟩
      (fun hno => nomatch hno)
  | flushedPart hb hc hw hpos hlt hv hcont =>
    refine h.withWriteBuffer hv ?_
    rw [hcont]
    simp [hlt]
  | unbound => exact h.resetTail

/-- What tells an event apart, and whether it is registered. -/
def eventKey (c : TcpConnection) : Option (ℕ × Bool × Bool) :=
  c.ioEvent.map fun event => (event.id, event.etMode, event.inEpoll)

/-- The four ways in which a move treats the pointers of a connection. -/
inductive Shape (c : TcpConnection) (act : Act) (e : Effect) : Prop
  | kept : e.conn.socket = c.socket → e.conn.loop = c.loop → e.conn.eventKey = c.eventKey →
      .resetTail ∉ e.frames → act ≠ .resetTail → act ≠ .bindFunctor → Shape c act e
  | registered {event : IOEvent} : act = .bindFunctor → e.conn.socket = c.socket →
      e.conn.loop = c.loop → c.ioEvent = some event → event.inEpoll = false →
      e.conn.eventKey = some (event.id, event.etMode, true) → .resetTail ∉ e.frames →
      Shape c act e
  | closed {event : IOEvent} {socket : Socket} : c.Bound event socket →
      socket.connected = true → event.inEpoll = true → e.conn = c.shut event socket →
      e.frames.count .resetTail = 1 → act ≠ .resetTail → act ≠ .bindFunctor → Shape c act e
  | unbound : act = .resetTail → e = c.resetTail → Shape c act e

theorem not_mem_calling {callback : Callback} {o : Obs} {rest : List Frame} {frame : Frame}
    (hne : ∀ callback, frame ≠ .user callback) (h : frame ∉ rest) :
    frame ∉ (c.calling callback o rest).frames := by
  rcases c.calling_frames callback o rest with hf | hf <;> rw [hf] <;> simp [hne, h]

theorem Closes.ne_resetTail {seen : List Obs} {tail : List Frame}
    (h : Closes c event act seen tail) :
    act ≠ .resetTail ∧ act ≠ .bindFunctor ∧ tail.count .resetTail = 0 := by
  cases h with
  | directError hact hw => rcases hact with rfl | rfl <;> simp
  | _ => simp

theorem Move.shape (hm : c.Move act e) : c.Shape act e := by
  have hsubmit {act : Act} {str : Bytes} {w : WriteResult} (h : Submits act str w) :
      act ≠ .resetTail ∧ act ≠ .bindFunctor := by rcases h with rfl | rfl <;> simp
  cases hm with
  | ignored hg hc =>
    exact .kept rfl rfl rfl (by simp) (by rintro rfl; cases hg) (by rintro rfl; cases hg)
  | reading | blocked | broken | stalled | tailed | consumed =>
    exact .kept rfl rfl rfl (by simp) (by simp) (by simp)
  | looped he => exact .kept rfl rfl rfl (by dsimp only; split_ifs <;> simp) (by simp) (by simp)
  | registered hb hin =>
    refine .registered rfl ?_ ?_ hb.event_eq hin ?_ (not_mem_calling (by simp) (by simp)) <;>
      rw [calling_conn] <;> rfl
  | @closed _ event socket seen tail _ hb hc hin hclose he =>
    subst he
    obtain ⟨hact, hact', htail⟩ := hclose.ne_resetTail
    refine .closed hb hc hin (calling_conn ..) ?_ hact hact'
    dsimp only
    rw [List.count_append, htail]
    rcases calling_frames .connection (.connection false) [.resetTail] with hf | hf <;>
      rw [hf] <;> simp
  | received _ _ _ _ _ _ he =>
    subst he
    exact .kept (by rw [calling_conn]) (by rw [calling_conn])
      (by dsimp only; rw [calling_conn]; rfl) (not_mem_calling (by simp) (by simp)) (by simp)
      (by simp)
  | appended hact => exact .kept rfl rfl rfl (by simp) (hsubmit hact).1 (hsubmit hact).2
  | sentAll hact _ _ _ _ _ he =>
    subst he
    exact .kept (by rw [calling_conn]) (by rw [calling_conn]) (by dsimp only; rw [calling_conn])
      (not_mem_calling (by simp) (by simp)) (hsubmit hact).1 (hsubmit hact).2
  | sentPart hact hb =>
    refine .kept rfl rfl ?_ (by simp) (hsubmit hact).1 (hsubmit hact).2
    simp [eventKey, TcpConnection.armed, hb.event_eq]
  | flushedAll hb _ _ _ _ _ _ _ he =>
    subst he
    refine .kept (by rw [calling_conn]; rfl) (by rw [calling_conn]; rfl) ?_
      (not_mem_calling (by simp) (by simp)) (by simp) (by simp)
    dsimp only
    rw [calling_conn]
    simp [eventKey, TcpConnection.armed, hb.event_eq]
  | flushedPart => exact .kept rfl rfl rfl (by simp) (by simp) (by simp)
  | unbound => exact .unbound rfl rfl

theorem isConnected_congr {d : TcpConnection} (h : c.socket = d.socket) :
    c.isConnected = d.isConnected := by
  rw [TcpConnection.isConnected, h, TcpConnection.isConnected]

theorem Move.isConnected_of (hm : c.Move act e) (h : e.conn.isConnected = true) :
    c.isConnected = true := by
  cases hm.shape with
  | kept hs | registered _ hs => rwa [← isConnected_congr hs]
  | closed _ _ _ hshut =>
    rw [hshut] at h
    cases h
  | unbound _ he =>
    subst he
    cases h

theorem Move.isConnected_eq_false (hm : c.Move act e) (h : c.isConnected = false) :
    e.conn.isConnected = false := by
  by_contra hup
  rw [hm.isConnected_of (by simpa using hup)] at h
  cases h

/-- What a connection keeps for life, and what it keeps for a session. -/
def settings (c : TcpConnection) : ℕ × Bool × Bool × Bool × Bool :=
  (c.index, c.messageCallback, c.writeCompleteCallback, c.connectionCallback, c.destroyCallback)

theorem Move.settings_eq (hm : c.Move act e) : e.conn.settings = c.settings := by
  cases hm with
  | registered =>
    rw [calling_conn]
    rfl
  | closed _ _ _ _ he | flushedAll _ _ _ _ _ _ _ _ he =>
    subst he
    dsimp only
    rw [calling_conn]
    rfl
  | received _ _ _ _ _ _ he =>
    subst he
    dsimp only
    rw [calling_conn]
    rfl
  | sentAll _ _ _ _ _ _ he =>
    subst he
    dsimp only
    rw [calling_conn]
  | _ => rfl

theorem Move.index_eq (hm : c.Move act e) : e.conn.index = c.index :=
  congrArg Prod.fst hm.settings_eq

theorem Move.messageCallback_eq (hm : c.Move act e) :
    e.conn.messageCallback = c.messageCallback :=
  congrArg (·.2.1) hm.settings_eq

theorem Move.connectionCallback_eq (hm : c.Move act e) :
    e.conn.connectionCallback = c.connectionCallback :=
  congrArg (·.2.2.2.1) hm.settings_eq

theorem bytesOf_calling {callback : Callback} {o : Obs} {rest : List Frame} {kind : Obs → Bytes}
    (h : kind o = []) : bytesOf kind (c.calling callback o rest).obs = [] := by
  rcases calling_obs callback o rest with ho | ho <;> rw [ho] <;> simp [h]

theorem any_calling {callback : Callback} {o : Obs} {rest : List Frame} {q : Obs → Bool}
    (h : q o = false) : (c.calling callback o rest).obs.any q = false := by
  rcases calling_obs callback o rest with ho | ho <;> rw [ho] <;> simp [h]

variable {o : Obs}

/-- Which code tells of reads, submissions and consumptions. -/
def Tells (act : Act) : Obs → Prop
  | .submitted str => ∃ w, Submits act str w
  | .taken _ => ∃ t, act = .take t
  | .read _ r => act = .readBody r
  | _ => True

theorem tells_calling {callback : Callback} {told : Obs} {rest : List Frame}
    (ho : o ∈ (c.calling callback told rest).obs) (h : Tells act told) : Tells act o := by
  rcases c.calling_obs callback told rest with hobs | hobs <;> rw [hobs] at ho
  · cases ho
  · rwa [List.mem_singleton.mp ho]

theorem Closes.tells {event : IOEvent} {seen : List Obs} {tail : List Frame}
    (h : Closes c event act seen tail) (ho : o ∈ seen) : Tells act o := by
  cases h with
  | hangUp | user => cases ho
  | endOfStream | readError =>
    rw [List.mem_singleton.mp ho]
    rfl
  | writeError =>
    rw [List.mem_singleton.mp ho]
    trivial
  | directError hsub =>
    simp only [List.mem_cons, List.not_mem_nil, or_false] at ho
    rcases ho with rfl | rfl
    · exact ⟨_, hsub⟩
    · trivial

theorem Move.tells (hm : c.Move act e) (ho : o ∈ e.obs) : Tells act o := by
  cases hm with
  | ignored | reading | looped | tailed => cases ho
  | registered => exact tells_calling ho trivial
  | closed _ _ _ hclose he =>
    subst he
    rcases List.mem_append.mp ho with ho | ho
    · exact hclose.tells ho
    · exact tells_calling ho trivial
  | received _ _ _ _ _ _ he =>
    subst he
    rcases List.mem_cons.mp ho with rfl | ho
    · rfl
    · exact tells_calling ho trivial
  | blocked | broken =>
    rw [List.mem_singleton.mp ho]
    rfl
  | consumed =>
    rw [List.mem_singleton.mp ho]
    exact ⟨_, rfl⟩
  | appended hsub =>
    rw [List.mem_singleton.mp ho]
    exact ⟨_, hsub⟩
  | sentAll hsub _ _ _ _ _ he =>
    subst he
    simp only [List.mem_append, List.mem_cons, List.not_mem_nil, or_false] at ho
    rcases ho with (rfl | rfl) | ho
    · exact ⟨_, hsub⟩
    · trivial
    · exact tells_calling ho trivial
  | sentPart hsub =>
    simp only [List.mem_cons, List.not_mem_nil, or_false] at ho
    rcases ho with rfl | rfl
    · exact ⟨_, hsub⟩
    · trivial
  | flushedAll _ _ _ _ _ _ _ _ he =>
    subst he
    rcases List.mem_cons.mp ho with rfl | ho
    · trivial
    · exact tells_calling ho trivial
  | flushedPart | stalled | unbound =>
    rw [List.mem_singleton.mp ho]
    trivial

theorem bytesOf_eq_nil {kind : Obs → Bytes} {trace : List Obs} (h : ∀ o ∈ trace, kind o = []) :
    bytesOf kind trace = [] := List.flatMap_eq_nil_iff.mpr h

end TcpConnection
end Potato
