import Potato.BufferFifo
import Potato.IOWatcher

/-!
# Pooled connections

`TcpConnection` and the parts of `Socket` and `TcpServer` that it calls, as the
loop thread of the connection runs them. A function stops where user code is
called or a system call has to answer; what it still has to do is a `Frame`.
The environment supplies the answers of `read` and `write`.
-/
namespace Potato
open Words Machine

/-- What `read` returns: bytes (none of them at the end of the stream), or -1. -/
inductive ReadResult where
  | data (bytes : Bytes)
  | again
  | error
  deriving DecidableEq, Repr

/-- What `write` returns: a count, or -1. -/
inductive WriteResult where
  | sent (n : ℕ)
  | again
  | error
  deriving DecidableEq, Repr

/-- The number of bytes that the kernel took. -/
def WriteResult.count : WriteResult → ℕ
  | sent n => n
  | _ => 0

/-- A `Socket` that `accept` made. `id` stands for the descriptor, which is never reused. -/
structure Socket where
  id : ℕ
  connected : Bool := true
  valid : Bool := true
  deriving DecidableEq, Repr

namespace Socket

def isConnected (s : Socket) : Bool := s.connected

def close (s : Socket) : Socket := { s with connected := false, valid := false }

/-- `read` into `len` bytes. A closed socket answers -1 and leaves `errno` as it is. -/
def read (s : Socket) (len : ℕ) : ReadResult → Outcome Fault Unit
  | .data bytes => Outcome.require (s.connected = true ∧ bytes.length ≤ len)
  | _ => .next ()

/-- `write` of `len` bytes, which takes at least one unless there are none. -/
def write (s : Socket) (len : ℕ) : WriteResult → Outcome Fault Unit
  | .sent n => Outcome.require (s.connected = true ∧ n ≤ len ∧ (0 < len → 0 < n))
  | _ => .next ()

end Socket

/-- The user callbacks of a connection. -/
inductive Callback where
  | connection
  | message
  | writeComplete
  deriving DecidableEq, Repr

/-- What a loop thread still has to run on behalf of a connection. -/
inductive Frame where
  /-- a user callback -/
  | user (callback : Callback)
  /-- the body of the loop in `handleReadEvent`, at its `read` -/
  | readBody
  /-- the condition of that loop -/
  | readTest
  /-- the last test of `handleWriteEvent` -/
  | writeTail
  /-- the rest of `reset` behind its callback, and `returnConnection` -/
  | resetTail
  deriving DecidableEq, Repr

/-- What can be seen of a connection from outside. -/
inductive Obs where
  | read (offered : ℕ) (result : ReadResult)
  | wrote (data : Bytes) (result : WriteResult)
  | submitted (msg : Bytes)
  | taken (data : Bytes)
  | connection (connected : Bool)
  | message (readable : Bytes)
  | writeComplete
  | returned
  deriving DecidableEq, Repr

/-- The bytes of one kind that a trace tells of, in order. -/
def bytesOf (kind : Obs → Bytes) (trace : List Obs) : Bytes := trace.flatMap kind

@[simp] theorem bytesOf_nil (kind : Obs → Bytes) : bytesOf kind [] = [] := rfl

@[simp] theorem bytesOf_cons (kind : Obs → Bytes) (o : Obs) (xs : List Obs) :
    bytesOf kind (o :: xs) = kind o ++ bytesOf kind xs := List.flatMap_cons

@[simp] theorem bytesOf_append (kind : Obs → Bytes) (xs ys : List Obs) :
    bytesOf kind (xs ++ ys) = bytesOf kind xs ++ bytesOf kind ys := List.flatMap_append

/-- A `TcpConnection`. `entry` is not a member: it is the mask that the kernel holds for
the descriptor of the socket, if it is registered. Callbacks are either set or not. -/
structure TcpConnection where
  index : ℕ
  loop : Option ℕ := none
  ioEvent : Option IOEvent := none
  socket : Option Socket := none
  entry : Option Mask := none
  readBuffer : Buffer := .fresh
  writeBuffer : Buffer := .fresh
  messageCallback : Bool := false
  writeCompleteCallback : Bool := false
  connectionCallback : Bool := false
  destroyCallback : Bool := false
  deriving DecidableEq, Repr

/-- The result of a function: the connection, what is left to run (innermost first), and
what was seen. -/
structure Effect where
  conn : TcpConnection
  frames : List Frame := []
  obs : List Obs := []
  deriving DecidableEq, Repr

/-- `std::vector` throws rather than hold more bytes than a `size_t` counts. -/
def Buffer.allocate (b : Buffer) (len : ℕ) : Outcome Fault Unit :=
  Outcome.check (b.free < len → b.Fits len) .noMemory

/-- What user code does with the read buffer: it consumes. -/
inductive Take where
  | op (operation : BufferOp)
  | void (len : ℕ)
  deriving DecidableEq, Repr

/-- The operations that add nothing and change no storage. -/
def BufferOp.Consumes : BufferOp → Bool
  | write _ | writeInt32 _ | writeInt64 _ | writeUint64 _ | fill _ | expandBuffer _ => false
  | _ => true

def Take.apply (p : Platform) (b : Buffer) : Take → Outcome Fault Buffer
  | op operation => do
    Outcome.require (operation.Consumes = true)
    let (b, _) ← operation.apply p b
    return b
  | void len => do
    let (b, _) ← b.retrieveVoid len
    return b

namespace TcpConnection

def isConnected (c : TcpConnection) : Bool :=
  match c.socket with
  | some socket => socket.isConnected
  | none => false

def isSet (c : TcpConnection) : Callback → Bool
  | .connection => c.connectionCallback
  | .message => c.messageCallback
  | .writeComplete => c.writeCompleteCallback

/-- A call of a user callback, if it is set, with `rest` behind it. -/
def calling (c : TcpConnection) (callback : Callback) (o : Obs) (rest : List Frame) : Effect :=
  if c.isSet callback then ⟨c, .user callback :: rest, [o]⟩ else ⟨c, rest, []⟩

/-- A member function of `*ioEvent_` that may change what the kernel holds. -/
def onEvent (c : TcpConnection)
    (f : IOEvent → Option Mask → Outcome Fault (IOEvent × Option Mask)) :
    Outcome Fault TcpConnection := do
  let event ← Outcome.deref c.ioEvent .nullPointer
  let (event, entry) ← f event c.entry
  return { c with ioEvent := some event, entry := entry }

/-- `socket` is a new connected socket; the event made for it carries its number. -/
def bindSocket (c : TcpConnection) (socket : Socket) (loop : ℕ) (etMode : Bool) :
    Outcome Fault TcpConnection := do
  Outcome.check (c.loop = none) .alreadyBound
  Outcome.check (c.socket = none) .alreadyBound
  Outcome.check (c.ioEvent = none) .alreadyBound
  Outcome.check (socket.valid = true ∧ socket.isConnected = true) .assertion
  let event : IOEvent :=
    { id := socket.id, etMode := etMode, readCallback := true, writeCallback := true,
      closeCallback := true }
  return { c with loop := some loop, ioEvent := some event, socket := some socket, entry := none }

/-- The functor that `bindSocket` passes to `runInLoop`. -/
def bindFunctor (c : TcpConnection) : Outcome Fault Effect := do
  let c ← c.onEvent IOEvent.expectReading
  return c.calling .connection (.connection c.isConnected) []

def reset (c : TcpConnection) : Outcome Fault Effect := do
  Outcome.check (c.ioEvent.isSome = true) .nullPointer
  Outcome.check (c.socket.isSome = true) .nullPointer
  Outcome.check (c.loop.isSome = true) .nullPointer
  return c.calling .connection (.connection c.isConnected) [.resetTail]

/-- The three pointers are cleared, and `returnConnection` puts the index back. -/
def resetTail (c : TcpConnection) : Effect :=
  { conn := { c with loop := none, ioEvent := none, socket := none }, obs := [.returned] }

/-- `TcpServer::destroyConnection`. Its functor runs at once, on the loop thread. -/
def destroyConnection (c : TcpConnection) : Outcome Fault Effect := do
  Outcome.check (c.loop.isSome = true) .nullPointer
  c.reset

def handleCloseEvent (c : TcpConnection) : Outcome Fault Effect :=
  match c.socket with
  | none => return { conn := c }
  | some socket => do
    Outcome.check (c.ioEvent.isSome = true) .nullPointer
    Outcome.check (c.loop.isSome = true) .nullPointer
    if socket.isConnected then
      let c ← c.onEvent IOEvent.removeThisEvent
      let c := { c with socket := some socket.close, entry := none }
      if c.destroyCallback then c.destroyConnection else return { conn := c }
    else return { conn := c }

/-- The part of `close` that its caller runs: the loop that gets the functor, if any. -/
def close (c : TcpConnection) : Outcome Fault (Option ℕ) :=
  match c.socket with
  | none => return none
  | some _ => do
    Outcome.check (c.ioEvent.isSome = true) .nullPointer
    let loop ← Outcome.deref c.loop .nullPointer
    return some loop

def handleReadEvent (c : TcpConnection) : Outcome Fault Effect :=
  match c.socket with
  | none => return { conn := c }
  | some socket => do
    Outcome.check (c.ioEvent.isSome = true) .nullPointer
    if socket.isConnected then return { conn := c, frames := [.readBody] }
    else return { conn := c }

/-- The body of the loop in `handleReadEvent`, from its `read` on. -/
def readBody (c : TcpConnection) (r : ReadResult) : Outcome Fault Effect := do
  let socket ← Outcome.deref c.socket .nullPointer
  let offered ← c.readBuffer.writeableBytes
  socket.read offered r
  match r with
  | .data (byte :: bytes) =>
    let b ← c.readBuffer.fill (byte :: bytes)
    let writeable ← b.writeableBytes
    let b ← if writeable < 4096 then do
        b.allocate 4096
        b.expandBuffer 4096
      else pure b
    let e := { c with readBuffer := b }.calling .message (.message b.content) [.readTest]
    return { e with obs := .read offered r :: e.obs }
  | .data [] =>
    let e ← c.handleCloseEvent
    return { e with obs := .read offered r :: e.obs }
  | .again => return { conn := c, obs := [.read offered r] }
  | .error =>
    let e ← c.handleCloseEvent
    return { e with obs := .read offered r :: e.obs }

/-- `while (ioEvent_->etMode())`. -/
def readTest (c : TcpConnection) : Outcome Fault Effect := do
  let event ← Outcome.deref c.ioEvent .nullPointer
  return { conn := c, frames := if event.etMode then [.readBody] else [] }

/-- The body of `if (writeBuffer_.readableBytes() > 0)` in `handleWriteEvent`. `w` is what
`write` returns, if the code comes to it. -/
def flush (c : TcpConnection) (socket : Socket) (w : WriteResult) : Outcome Fault Effect := do
  let data ← c.writeBuffer.readAsSlice
  if data.length > 0 then
    socket.write data.length w
    match w with
    | .sent n =>
      let b ← c.writeBuffer.retrieve n
      let c := { c with writeBuffer := b }
      let readable ← b.readableBytes
      if readable = 0 then
        let c ← c.onEvent IOEvent.ignoreWriting
        let e := c.calling .writeComplete .writeComplete [.writeTail]
        return { e with obs := .wrote data w :: e.obs }
      else return { conn := c, frames := [.writeTail], obs := [.wrote data w] }
    | .again =>
      let c ← c.onEvent IOEvent.expectWriting
      return { conn := c, frames := [.writeTail], obs := [.wrote data w] }
    | .error =>
      let e ← c.handleCloseEvent
      return { e with frames := e.frames ++ [.writeTail], obs := .wrote data w :: e.obs }
  else return { conn := c, frames := [.writeTail] }

def handleWriteEvent (c : TcpConnection) (w : WriteResult) : Outcome Fault Effect :=
  match c.socket with
  | none => return { conn := c }
  | some socket => do
    let event ← Outcome.deref c.ioEvent .nullPointer
    if socket.isConnected then
      Outcome.check (event.isWriting = true) .notWriting
      c.flush socket w
    else return { conn := c }

/-- The last statement of `handleWriteEvent`. -/
def writeTail (c : TcpConnection) : Outcome Fault Effect := do
  let readable ← c.writeBuffer.readableBytes
  if readable = 0 then return { conn := ← c.onEvent IOEvent.ignoreWriting }
  else return { conn := c }

/-- The part of `write` and `send` that the caller runs. -/
def write (c : TcpConnection) : Outcome Fault (Option ℕ) :=
  match c.socket with
  | none => return none
  | some _ => return some (← Outcome.deref c.loop .nullPointer)

/-- The functor below while `isWriting()`: the message waits behind what is buffered. -/
def writeBuffered (c : TcpConnection) (str : Bytes) : Outcome Fault Effect := do
  c.writeBuffer.allocate str.length
  let b ← c.writeBuffer.write str
  return { conn := { c with writeBuffer := b }, obs := [.submitted str] }

/-- The functor below otherwise: a direct write, and what is left goes to the buffer. -/
def writeDirect (c : TcpConnection) (socket : Socket) (str : Bytes) (w : WriteResult) :
    Outcome Fault Effect := do
  socket.write str.length w
  let seen := [.submitted str, .wrote str w]
  if w = .error then
    let e ← c.handleCloseEvent
    return { e with obs := seen ++ e.obs }
  else if w.count ≠ str.length then
    c.writeBuffer.allocate (str.length - w.count)
    let b ← c.writeBuffer.write (str.drop w.count)
    let c ← { c with writeBuffer := b }.onEvent IOEvent.expectWriting
    return { conn := c, obs := seen }
  else
    let e := c.calling .writeComplete .writeComplete []
    return { e with obs := seen ++ e.obs }

/-- The functor that `write` passes to `runInLoop`. -/
def writeFunctor (c : TcpConnection) (str : Bytes) (w : WriteResult) : Outcome Fault Effect :=
  match c.socket with
  | none => return { conn := c }
  | some socket => do
    let event ← Outcome.deref c.ioEvent .nullPointer
    Outcome.check (c.loop.isSome = true) .nullPointer
    if socket.isConnected then
      if event.isWriting then c.writeBuffered str
      else c.writeDirect socket str w
    else return { conn := c }

/-- A user consumes from `readBuffer()`. -/
def take (p : Platform) (c : TcpConnection) (t : Take) : Outcome Fault Effect := do
  let b ← t.apply p c.readBuffer
  let n := c.readBuffer.content.length - b.content.length
  return { conn := { c with readBuffer := b }, obs := [.taken (c.readBuffer.content.take n)] }

end TcpConnection
end Potato
