import Potato.Endian
import Potato.Machine

/-!
# The byte buffer

`Buffer` as `Buffer.h` and `Buffer.cpp` compute it: a vector and two indices. A
pointer into the storage is the index it points at. Every assertion and every
bound of a copy is checked, and `size_t` sums wrap. Growing the vector succeeds.
-/
namespace Potato
open Words Machine

abbrev Byte := UInt8
abbrev Bytes := List Byte

/-- The ways in which the code stops, or behaves in an undefined way. -/
inductive Fault where
  /-- an assertion that has no name of its own below -/
  | assertion
  /-- a copy that leaves its storage -/
  | outOfRange
  /-- a vector larger than `size_t` can count -/
  | noMemory
  /-- a null `ioEvent_`, `socket_` or `loop_` is asserted on or used -/
  | nullPointer
  /-- `assert(ioEvent_->isWriting())` in `handleWriteEvent` -/
  | notWriting
  /-- an assertion at the head of `bindSocket` -/
  | alreadyBound
  /-- `abort()` after a failed `epoll_ctl` -/
  | epollAbort
  /-- dispatch through a destroyed `IOEvent` -/
  | deadEvent
  /-- the first element of an empty `availIndex_` is taken -/
  | emptyPool
  /-- a signed integer overflows -/
  | intOverflow
  deriving DecidableEq, Repr

structure Buffer where
  buf : Bytes
  curReadIndex : ℕ
  curWriteIndex : ℕ
  deriving DecidableEq, Repr

/-- `std::copy` of `data` to index `i` of a vector. -/
def copyTo (buf : Bytes) (i : ℕ) (data : Bytes) : Outcome Fault Bytes := do
  Outcome.check (i + data.length ≤ buf.length) .outOfRange
  return buf.take i ++ data ++ buf.drop (i + data.length)

/-- The `n` bytes of a vector from index `i` on, as a copy out of it reads them. -/
def copyFrom (buf : Bytes) (i n : ℕ) : Outcome Fault Bytes := do
  Outcome.check (i + n ≤ buf.length) .outOfRange
  return (buf.drop i).take n

/-- `std::vector<char>::resize`. -/
def resize (buf : Bytes) (n : ℕ) : Bytes := buf.take n ++ List.replicate (n - buf.length) 0

namespace Buffer

/-- The buffer that the constructor makes. -/
def fresh : Buffer := ⟨List.replicate 4096 0, 0, 0⟩

def writeableBytes (b : Buffer) : Outcome Fault ℕ := do
  Outcome.check (b.curWriteIndex ≤ b.buf.length) .assertion
  return b.buf.length - b.curWriteIndex

def readableBytes (b : Buffer) : Outcome Fault ℕ := do
  Outcome.check (b.curReadIndex ≤ b.curWriteIndex) .assertion
  return b.curWriteIndex - b.curReadIndex

def reset (b : Buffer) : Buffer := { b with curReadIndex := 0, curWriteIndex := 0 }

def hasWritten (b : Buffer) (len : ℕ) : Outcome Fault Buffer := do
  let writeable ← b.writeableBytes
  Outcome.check (len ≤ writeable) .assertion
  return { b with curWriteIndex := addSize b.curWriteIndex len }

def retrieve (b : Buffer) (len : ℕ) : Outcome Fault Buffer := do
  let readable ← b.readableBytes
  Outcome.check (len ≤ readable) .assertion
  if len = readable then return b.reset
  else return { b with curReadIndex := addSize b.curReadIndex len }

def retrieveUntil (b : Buffer) (endIndex : ℕ) : Outcome Fault Buffer := do
  Outcome.check (b.curReadIndex ≤ endIndex) .assertion
  Outcome.check (endIndex ≤ b.curWriteIndex) .assertion
  b.retrieve (endIndex - b.curReadIndex)

def retrieveAll (b : Buffer) : Buffer := b.reset

def readAsSlice (b : Buffer) : Outcome Fault Bytes := do
  let readable ← b.readableBytes
  copyFrom b.buf b.curReadIndex readable

def read (b : Buffer) (len : ℕ) : Outcome Fault Bytes := do
  let readable ← b.readableBytes
  Outcome.check (len ≤ readable) .assertion
  copyFrom b.buf b.curReadIndex len

/-- The slice still points at the bytes when `reset` has run, so they are what is returned. -/
def retrieveAllAsString (b : Buffer) : Outcome Fault (Buffer × Bytes) := do
  let slice ← b.readAsSlice
  return (b.reset, slice)

def expandBuffer (b : Buffer) (len : ℕ) : Outcome Fault Buffer := do
  let writeable ← b.writeableBytes
  let availSize := addSize writeable b.curReadIndex
  if availSize > len then
    let readable ← b.readableBytes
    let moved ← copyFrom b.buf b.curReadIndex readable
    let buf ← copyTo b.buf 0 moved
    return ⟨buf, 0, readable⟩
  else
    return { b with buf := resize b.buf (addSize b.buf.length len) }

/-- The overloads for a slice and for a `void` pointer forward to this one. -/
def write (b : Buffer) (data : Bytes) : Outcome Fault Buffer := do
  let writeable ← b.writeableBytes
  let b ← if data.length > writeable then b.expandBuffer data.length else pure b
  let buf ← copyTo b.buf b.curWriteIndex data
  return { b with buf := buf, curWriteIndex := addSize b.curWriteIndex data.length }

/-- A caller fills `data` in at `beginWrite()` and then calls `hasWritten`. -/
def fill (b : Buffer) (data : Bytes) : Outcome Fault Buffer := do
  let buf ← copyTo b.buf b.curWriteIndex data
  hasWritten { b with buf := buf } data.length

def writeInt32 (p : Platform) (b : Buffer) (value : Int32) : Outcome Fault Buffer :=
  let big := hostToNetwork32 p value.toUInt32
  b.write (p.order.store 4 big.toNat)

def writeInt64 (p : Platform) (b : Buffer) (value : Int64) : Outcome Fault Buffer :=
  let big := hostToNetwork64 p value.toUInt64
  b.write (p.order.store 8 big.toNat)

def writeUint64 (p : Platform) (b : Buffer) (value : UInt64) : Outcome Fault Buffer :=
  let big := hostToNetwork64 p value
  b.write (p.order.store 8 big.toNat)

def readInt32 (p : Platform) (b : Buffer) : Outcome Fault Int32 := do
  let readable ← b.readableBytes
  Outcome.check (readable ≥ 4) .assertion
  let bytes ← copyFrom b.buf b.curReadIndex 4
  return (networkToHost32 p (UInt32.ofNat (p.order.load bytes))).toInt32

def readInt64 (p : Platform) (b : Buffer) : Outcome Fault Int64 := do
  let readable ← b.readableBytes
  Outcome.check (readable ≥ 8) .assertion
  let bytes ← copyFrom b.buf b.curReadIndex 8
  return (networkToHost64 p (UInt64.ofNat (p.order.load bytes))).toInt64

def readUint64 (p : Platform) (b : Buffer) : Outcome Fault UInt64 := do
  let readable ← b.readableBytes
  Outcome.check (readable ≥ 8) .assertion
  let bytes ← copyFrom b.buf b.curReadIndex 8
  return networkToHost64 p (UInt64.ofNat (p.order.load bytes))

/-- `retrieve(char *buf, size_t len)`, with the bytes it copies out. -/
def retrieveChars (b : Buffer) (len : ℕ) : Outcome Fault (Buffer × Bytes) := do
  let data ← b.read len
  let b ← b.retrieve len
  return (b, data)

/-- `retrieve(void *buf, size_t len)`: the forwarded call has already retrieved once. -/
def retrieveVoid (b : Buffer) (len : ℕ) : Outcome Fault (Buffer × Bytes) := do
  let (b, data) ← b.retrieveChars len
  let b ← b.retrieve len
  return (b, data)

def retrieveInt32 (p : Platform) (b : Buffer) : Outcome Fault (Buffer × Int32) := do
  let ret ← b.readInt32 p
  let b ← b.retrieve 4
  return (b, ret)

def retrieveInt64 (p : Platform) (b : Buffer) : Outcome Fault (Buffer × Int64) := do
  let ret ← b.readInt64 p
  let b ← b.retrieve 8
  return (b, ret)

def retrieveUint64 (p : Platform) (b : Buffer) : Outcome Fault (Buffer × UInt64) := do
  let ret ← b.readUint64 p
  let b ← b.retrieve 8
  return (b, ret)

end Buffer
end Potato
