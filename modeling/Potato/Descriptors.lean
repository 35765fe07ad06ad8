import Potato.Custody
import Potato.LoopLife

/-!
# The descriptors of a process

The objects that own descriptors: event loops, acceptors, sockets behind shared
pointers, and the connections that hold such a pointer. Descriptors are numbered in
the order in which system calls hand them out, so a second `close` of a descriptor
shows as such. Whatever else the objects do leaves the descriptors alone.
-/
namespace Potato
open Machine Custody

/-- How many descriptors were handed out, and which were closed, in that order. -/
structure FdTable where
  obtained : ℕ := 0
  closed : List ℕ := []
  deriving DecidableEq, Repr

/-- A descriptor, or `-1`. -/
abbrev Fd := Option ℕ

namespace FdTable

/-- Hand out `n` descriptors, from the number `obtained` on. -/
def obtain (k : FdTable) (n : ℕ) : FdTable := { k with obtained := k.obtained + n }

/-- `::close`, which fails on `-1`. -/
def close (k : FdTable) : Fd → FdTable
  | none => k
  | some d => { k with closed := k.closed ++ [d] }

end FdTable

/-- An `EventLoop` with the `epoll` descriptor of its watcher and its wakeup pair. -/
structure LoopObject where
  life : LoopLife
  holder : ℕ
  wakeupSocket : ℕ × ℕ
  alive : Bool := true
  deriving DecidableEq, Repr

/-- An `Acceptor`, which has its `listenSocket_` by value. -/
structure AcceptorObject where
  listenSocket : ℕ
  ioEvent : Registration
  idleFd : Fd
  newConnectionCallback : Bool := false
  alive : Bool := true
  deriving DecidableEq, Repr

/-- A `Socket` behind shared pointers, of which there are `useCount`. -/
structure SharedSocket where
  socket : Fd
  connected : Bool
  useCount : ℕ := 1
  deriving DecidableEq, Repr

/-- A `TcpConnection` with the number of the socket that it points to. -/
structure ConnectionObject where
  socket : Option ℕ := none
  alive : Bool := true
  deriving DecidableEq, Repr

/-- A process. `held` lists the shared pointers in variables, each by the number of its socket. -/
structure Process where
  table : FdTable := {}
  loops : List LoopObject := []
  acceptors : List AcceptorObject := []
  sockets : List SharedSocket := []
  connections : List ConnectionObject := []
  held : List ℕ := []
  deriving DecidableEq, Repr

/-- `perrno`. -/
inductive Errno where
  | EMFILE
  | EAGAIN
  | EBADF
  | other
  deriving DecidableEq, Repr

/-- What the system calls answer in one round of `handleAccept`. -/
inductive AcceptRound where
  | accepted
  | failed
  /-- `accept` fails with `EMFILE`. The second one fails with an error, or gives a descriptor, and
  `open` succeeds or not. -/
  | full (second : Option Errno) (opened : Bool)
  deriving DecidableEq, Repr

/-- The constructor, from the next descriptor on: `epoll_create`, then `socketpair`. -/
def LoopObject.construct (etMode : Bool) (d : ℕ) : LoopObject :=
  { life := .construct etMode, holder := d, wakeupSocket := (d + 1, d + 2) }

/-- The constructor, from the next descriptor on: `socket`, then `open`. -/
def AcceptorObject.construct (etMode opened : Bool) (d : ℕ) : AcceptorObject where
  listenSocket := d
  ioEvent := { event := { id := 0, etMode := etMode, readCallback := true } }
  idleFd := if opened then some (d + 1) else none

inductive ProcessLabel where
  | newLoop (etMode : Bool)
  | startLoop (i : ℕ)
  | stopLoop (i : ℕ)
  | destroyLoop (i : ℕ)
  | newAcceptor (etMode opened : Bool)
  | setNewConnectionCallback (i : ℕ)
  | listen (i : ℕ)
  | handleAccept (i : ℕ) (r : AcceptRound)
  | destroyAcceptor (i : ℕ)
  /-- `createTcpSocket`, with success or not. -/
  | newSocket (opened : Bool)
  | connect (k : ℕ)
  /-- A shared pointer is copied, or goes away. -/
  | copy (k : ℕ)
  | release (k : ℕ)
  /-- `Socket::close`. -/
  | closeSocket (k : ℕ)
  | newConnection
  | bindSocket (j k : ℕ)
  /-- `handleCloseEvent`, on whatever path. -/
  | handleCloseEvent (j : ℕ)
  | reset (j : ℕ)
  | destroyConnection (j : ℕ)
  deriving DecidableEq, Repr

/-- `Socket::close`. -/
def SharedSocket.close (s : SharedSocket) (k : FdTable) : SharedSocket × FdTable :=
  ({ s with socket := none, connected := false }, k.close s.socket)

/-- A shared pointer to the socket goes away, and the socket with the last one. -/
def SharedSocket.release (s : SharedSocket) (k : FdTable) : SharedSocket × FdTable :=
  if s.useCount = 1 then { s with useCount := 0 }.close k
  else ({ s with useCount := s.useCount - 1 }, k)

/-- `handleAccept` behind an `accept` that failed with `EMFILE`. -/
def AcceptorObject.reserve (a : AcceptorObject) (k : FdTable) (second : Option Errno)
    (opened : Bool) : AcceptorObject × FdTable :=
  let errno := if a.idleFd = none then .EBADF else .EMFILE
  let k := k.close a.idleFd
  let (idleFd, errno, k) := match second with
    | none => (some k.obtained, errno, k.obtain 1)
    | some errno => (none, errno, k)
  -- with `EAGAIN` there is no descriptor in `idleFd_`
  let k := if errno = .EAGAIN then k else k.close idleFd
  if opened then ({ a with idleFd := some k.obtained }, k.obtain 1)
  else ({ a with idleFd := none }, k)

namespace Process

/-- One round of `handleAccept`. -/
def handleAccept (w : Process) (i : ℕ) (a : AcceptorObject) : AcceptRound → Process
  | .accepted =>
    let s : SharedSocket := { socket := some w.table.obtained, connected := true }
    let table := w.table.obtain 1
    if a.newConnectionCallback then
      { w with table := table, sockets := w.sockets ++ [s], held := w.sockets.length :: w.held }
    else
      -- `ptr->close()`, and `ptr` goes out of scope
      let (s, table) := s.close table
      let (s, table) := s.release table
      { w with table := table, sockets := w.sockets ++ [s] }
  | .failed => w
  | .full second opened =>
    let (a, table) := a.reserve w.table second opened
    { w with table := table, acceptors := w.acceptors.set i a }

/-- A shared pointer to socket `k` goes away. -/
def release (w : Process) (k : ℕ) : Outcome Fault Process := do
  let s ← Outcome.deref w.sockets[k]? .nullPointer
  let (s, table) := s.release w.table
  return { w with table := table, sockets := w.sockets.set k s }

/-- `Socket::close` on socket `k`. -/
def closeSocket (w : Process) (k : ℕ) : Outcome Fault Process := do
  let s ← Outcome.deref w.sockets[k]? .nullPointer
  let (s, table) := s.close w.table
  return { w with table := table, sockets := w.sockets.set k s }

def step (w : Process) : ProcessLabel → Outcome Fault Process
  | .newLoop etMode =>
    return { w with
      table := w.table.obtain 3
      loops := w.loops ++ [.construct etMode w.table.obtained] }
  | .startLoop i => do
    let e ← Outcome.deref w.loops[i]? .nullPointer
    Outcome.require (e.alive = true)
    let life ← e.life.startLoop
    return { w with loops := w.loops.set i { e with life := life } }
  | .stopLoop i => do
    let e ← Outcome.deref w.loops[i]? .nullPointer
    Outcome.require (e.alive = true)
    let life ← e.life.stopLoop
    return { w with loops := w.loops.set i { e with life := life } }
  | .destroyLoop i => do
    let e ← Outcome.deref w.loops[i]? .nullPointer
    Outcome.require (e.alive = true)
    let life ← e.life.destroy
    -- the watcher is the only member that closes anything
    return { w with
      table := w.table.close (some e.holder)
      loops := w.loops.set i { e with life := life, alive := false } }
  | .newAcceptor etMode opened =>
    return { w with
      table := w.table.obtain (if opened then 2 else 1)
      acceptors := w.acceptors ++ [.construct etMode opened w.table.obtained] }
  | .setNewConnectionCallback i => do
    let a ← Outcome.deref w.acceptors[i]? .nullPointer
    Outcome.require (a.alive = true)
    return { w with acceptors := w.acceptors.set i { a with newConnectionCallback := true } }
  | .listen i => do
    let a ← Outcome.deref w.acceptors[i]? .nullPointer
    Outcome.require (a.alive = true)
    let ioEvent ← a.ioEvent.step .expectReading
    return { w with acceptors := w.acceptors.set i { a with ioEvent := ioEvent } }
  | .handleAccept i r => do
    let a ← Outcome.deref w.acceptors[i]? .nullPointer
    Outcome.require (a.alive = true ∧ a.ioEvent.event.inEpoll = true)
    return w.handleAccept i a r
  | .destroyAcceptor i => do
    let a ← Outcome.deref w.acceptors[i]? .nullPointer
    Outcome.require (a.alive = true)
    let table := w.table.close a.idleFd
    let ioEvent ← a.ioEvent.step .removeThisEvent
    return { w with
      table := table.close (some a.listenSocket)
      acceptors := w.acceptors.set i { a with ioEvent := ioEvent, alive := false } }
  | .newSocket opened =>
    let s : SharedSocket :=
      { socket := if opened then some w.table.obtained else none, connected := false }
    return { w with
      table := w.table.obtain (if opened then 1 else 0)
      sockets := w.sockets ++ [s]
      held := w.sockets.length :: w.held }
  | .connect k => do
    Outcome.require (k ∈ w.held)
    let s ← Outcome.deref w.sockets[k]? .nullPointer
    Outcome.check (s.connected = false ∧ s.socket ≠ none) .assertion
    return { w with sockets := w.sockets.set k { s with connected := true } }
  | .copy k => do
    Outcome.require (k ∈ w.held)
    let s ← Outcome.deref w.sockets[k]? .nullPointer
    return { w with
      sockets := w.sockets.set k { s with useCount := s.useCount + 1 }
      held := k :: w.held }
  | .release k => do
    Outcome.require (k ∈ w.held)
    { w with held := w.held.erase k }.release k
  | .closeSocket k => do
    Outcome.require (k ∈ w.held)
    w.closeSocket k
  | .newConnection => return { w with connections := w.connections ++ [{}] }
  | .bindSocket j k => do
    Outcome.require (k ∈ w.held)
    let c ← Outcome.deref w.connections[j]? .nullPointer
    Outcome.require (c.alive = true)
    let s ← Outcome.deref w.sockets[k]? .nullPointer
    Outcome.check (c.socket = none) .alreadyBound
    Outcome.check (s.socket ≠ none ∧ s.connected = true) .alreadyBound
    return { w with
      connections := w.connections.set j { c with socket := some k }
      held := w.held.erase k }
  | .handleCloseEvent j => do
    let c ← Outcome.deref w.connections[j]? .nullPointer
    match c.socket with
    | none => return w
    | some k => do
      let s ← Outcome.deref w.sockets[k]? .nullPointer
      if s.connected then w.closeSocket k else return w
  | .reset j => do
    let c ← Outcome.deref w.connections[j]? .nullPointer
    let k ← Outcome.deref c.socket .nullPointer
    { w with connections := w.connections.set j { c with socket := none } }.release k
  | .destroyConnection j => do
    let c ← Outcome.deref w.connections[j]? .nullPointer
    Outcome.require (c.alive = true)
    Outcome.check (c.socket = none) .assertion
    return { w with connections := w.connections.set j { c with alive := false } }

end Process

/-- The descriptors that an object owns. -/
def LoopObject.owns (e : LoopObject) : List ℕ :=
  if e.alive then [e.holder, e.wakeupSocket.1, e.wakeupSocket.2] else []

/-- The descriptors that a destroyed loop leaves behind. -/
def LoopObject.leaves (e : LoopObject) : List ℕ :=
  if e.alive then [] else [e.wakeupSocket.1, e.wakeupSocket.2]

def AcceptorObject.owns (a : AcceptorObject) : List ℕ :=
  if a.alive then a.listenSocket :: a.idleFd.toList else []

def SharedSocket.owns (s : SharedSocket) : List ℕ :=
  if s.useCount = 0 then [] else s.socket.toList

namespace Process
variable {w w' : Process} {l : ProcessLabel} {d i j k : ℕ}

/-- The descriptors that the objects own, one entry for each owner. -/
def owned (w : Process) : List ℕ :=
  holdings LoopObject.owns w.loops ++ holdings AcceptorObject.owns w.acceptors ++
    holdings SharedSocket.owns w.sockets

/-- The shared pointers, each by the number of its socket. -/
def pointers (w : Process) : List ℕ :=
  w.held ++ holdings (fun c => c.socket.toList) w.connections

/-- Every descriptor has one owner while it is open, and is closed once; and every socket with a
descriptor is in reach. -/
structure Conserved (w : Process) : Prop where
  descriptors : ∀ d < w.table.obtained,
    (w.owned.count d = 1 ∧ w.table.closed.count d = 0) ∨
      (w.owned.count d = 0 ∧ w.table.closed.count d = 1)
  reached : ∀ (k : ℕ) (s : SharedSocket), w.sockets[k]? = some s → s.socket ≠ none → k ∈ w.pointers

/-- The number of shared pointers that a socket counts. -/
def useCount (w : Process) (k : ℕ) : ℕ := (w.sockets[k]?.map (·.useCount)).getD 0

/-- The places where a descriptor can be. -/
def places (w : Process) : List ℕ :=
  w.owned ++ holdings LoopObject.leaves w.loops ++ w.table.closed

/-- Every descriptor is in one place. -/
def Placed (w : Process) : Prop :=
  ∀ d, w.places.count d = if d < w.table.obtained then 1 else 0

/-- A destroyed socket has no descriptor. -/
def Dead (w : Process) : Prop :=
  ∀ (k : ℕ) (s : SharedSocket), w.sockets[k]? = some s → s.useCount = 0 → s.socket = none

/-- The invariant of the descriptors. -/
structure Inv (w : Process) : Prop where
  placed : Placed w
  counted : ∀ k, w.pointers.count k = w.useCount k
  dead : Dead w

/-- The invariant while a pointer to socket `k` is on its way out. -/
structure Releasing (w : Process) (k : ℕ) : Prop where
  placed : Placed w
  counted : ∀ j, w.pointers.count j + (if j = k then 1 else 0) = w.useCount j
  dead : Dead w

theorem count_places (w : Process) (d : ℕ) :
    w.places.count d = (holdings LoopObject.owns w.loops).count d +
      (holdings AcceptorObject.owns w.acceptors).count d +
      (holdings SharedSocket.owns w.sockets).count d +
      (holdings LoopObject.leaves w.loops).count d + w.table.closed.count d := by
  simp [places, owned, Nat.add_assoc]

theorem count_pointers (w : Process) (k : ℕ) :
    w.pointers.count k =
      w.held.count k + (holdings (fun c => c.socket.toList) w.connections).count k :=
  List.count_append ..

theorem count_range (o n d : ℕ) :
    (List.range' o n).count d = if o ≤ d ∧ d < o + n then 1 else 0 := by
  rw [(List.nodup_range' ..).count]
  simp only [List.mem_range'_1]

/-- `n` new descriptors have their places, and the others have theirs. -/
def Places (w w' : Process) (n : ℕ) : Prop :=
  w'.table.obtained = w.table.obtained + n ∧
    ∀ d, w'.places.count d = w.places.count d + (List.range' w.table.obtained n).count d

theorem Placed.step (h : Placed w) {n : ℕ} (hp : Places w w' n) : Placed w' := by
  intro d
  rw [hp.1, hp.2, h, count_range]
  split_ifs <;> omega

/-- What a step does that leaves the sockets and their pointers alone. -/
theorem Inv.of_places (h : Inv w) {n : ℕ} (hp : Places w w' n) (hsockets : w'.sockets = w.sockets)
    (hheld : w'.held = w.held) (hconnections : w'.connections = w.connections) : Inv w' := by
  refine ⟨h.placed.step hp, fun k => ?_, ?_⟩
  · have hcount := h.counted k
    simpa only [count_pointers, useCount, hheld, hconnections, hsockets] using hcount
  · rw [Dead, hsockets]
    exact h.dead

theorem Inv.empty : Inv {} where
  placed := fun d => by simp [places, owned, holdings]
  counted := fun k => by simp [pointers, holdings, useCount]
  dead := fun _ _ h => nomatch h

theorem count_close (k : FdTable) (fd : Fd) (d : ℕ) :
    (k.close fd).closed.count d = k.closed.count d + fd.toList.count d := by
  cases fd <;> simp [FdTable.close]

@[simp] theorem close_obtained (k : FdTable) (fd : Fd) : (k.close fd).obtained = k.obtained := by
  cases fd <;> rfl

theorem places_newLoop (w : Process) (etMode : Bool) : Places w
    { w with
      table := w.table.obtain 3
      loops := w.loops ++ [.construct etMode w.table.obtained] } 3 := by
  refine ⟨rfl, fun d => ?_⟩
  simp only [count_places, count_snoc, FdTable.obtain, LoopObject.construct, LoopObject.owns,
    LoopObject.leaves, if_true, List.count_cons, List.count_nil, List.range', Nat.add_assoc,
    Nat.reduceAdd]
  omega

/-- A loop changes, and keeps its descriptors. -/
theorem places_setLoop {e e' : LoopObject} (he : w.loops[i]? = some e) (howns : e'.owns = e.owns)
    (hleaves : e'.leaves = e.leaves) : Places w { w with loops := w.loops.set i e' } 0 := by
  refine ⟨rfl, fun d => ?_⟩
  simp only [count_places, count_set_of_eq _ he howns, count_set_of_eq _ he hleaves, List.range',
    List.count_nil, Nat.add_zero]

theorem places_destroyLoop {e : LoopObject} (he : w.loops[i]? = some e) (halive : e.alive = true)
    (life : LoopLife) : Places w
    { w with
      table := w.table.close (some e.holder)
      loops := w.loops.set i { e with life := life, alive := false } } 0 := by
  refine ⟨rfl, fun d => ?_⟩
  have howns := count_set LoopObject.owns he { e with life := life, alive := false } d
  have hleaves := count_set LoopObject.leaves he { e with life := life, alive := false } d
  simp only [LoopObject.owns, LoopObject.leaves, halive, if_true, Bool.false_eq_true, if_false,
    List.count_cons, List.count_nil] at howns hleaves
  simp only [count_places, count_close, Option.toList_some, List.count_cons, List.count_nil,
    List.range']
  omega

theorem places_newAcceptor (w : Process) (etMode opened : Bool) : Places w
    { w with
      table := w.table.obtain (if opened then 2 else 1)
      acceptors := w.acceptors ++ [.construct etMode opened w.table.obtained] }
    (if opened then 2 else 1) := by
  refine ⟨rfl, fun d => ?_⟩
  cases opened <;>
    simp only [count_places, count_snoc, FdTable.obtain, AcceptorObject.construct,
      AcceptorObject.owns, if_true, Bool.false_eq_true, if_false, Option.toList_some,
      Option.toList_none, List.count_cons, List.count_nil, List.range'] <;>
    omega

/-- An acceptor changes, and keeps its descriptors. -/
theorem places_setAcceptor {a a' : AcceptorObject} (ha : w.acceptors[i]? = some a)
    (howns : a'.owns = a.owns) : Places w { w with acceptors := w.acceptors.set i a' } 0 := by
  refine ⟨rfl, fun d => ?_⟩
  simp only [count_places, count_set_of_eq _ ha howns, List.range', List.count_nil, Nat.add_zero]

theorem places_destroyAcceptor {a : AcceptorObject} (ha : w.acceptors[i]? = some a)
    (halive : a.alive = true) (ioEvent : Registration) : Places w
    { w with
      table := (w.table.close a.idleFd).close (some a.listenSocket)
      acceptors := w.acceptors.set i { a with ioEvent := ioEvent, alive := false } } 0 := by
  refine ⟨by simp, fun d => ?_⟩
  have howns := count_set AcceptorObject.owns ha { a with ioEvent := ioEvent, alive := false } d
  simp only [AcceptorObject.owns, halive, if_true, Bool.false_eq_true, if_false, List.count_cons,
    List.count_nil] at howns
  simp only [count_places, count_close, Option.toList_some, List.count_cons, List.count_nil,
    List.range']
  omega

/-- The descriptors that `handleAccept` gets behind an `EMFILE`. -/
def reserved (second : Option Errno) (opened : Bool) : ℕ :=
  (if second = none then 1 else 0) + if opened then 1 else 0

/-- The reserve descriptor changes hands, and none gets lost. -/
theorem reserve_spec (a : AcceptorObject) (k : FdTable) (second : Option Errno) (opened : Bool) :
    (a.reserve k second opened).2.obtained = k.obtained + reserved second opened ∧
      (a.reserve k second opened).1.listenSocket = a.listenSocket ∧
      (a.reserve k second opened).1.alive = a.alive ∧
      ∀ d, (a.reserve k second opened).1.idleFd.toList.count d +
          (a.reserve k second opened).2.closed.count d =
        a.idleFd.toList.count d + k.closed.count d +
          (List.range' k.obtained (reserved second opened)).count d := by
  cases second with
  | none =>
    -- `accept` leaves `perrno` as it was, so its descriptor is closed
    have herrno : (if a.idleFd = none then Errno.EBADF else .EMFILE) ≠ .EAGAIN := by
      split_ifs <;> simp
    cases opened <;>
      simp [AcceptorObject.reserve, herrno, reserved, FdTable.obtain, count_close, List.range',
        List.count_cons] <;>
      omega
  | some errno =>
    by_cases herrno : errno = .EAGAIN <;> cases opened <;>
      simp [AcceptorObject.reserve, herrno, reserved, FdTable.obtain, count_close] <;>
      omega

theorem places_reserve {a : AcceptorObject} (ha : w.acceptors[i]? = some a)
    (halive : a.alive = true) (second : Option Errno) (opened : Bool) : Places w
    { w with
      table := (a.reserve w.table second opened).2
      acceptors := w.acceptors.set i (a.reserve w.table second opened).1 }
    (reserved second opened) := by
  obtain ⟨hobtained, hlisten, hlive, hcount⟩ := reserve_spec a w.table second opened
  refine ⟨hobtained, fun d => ?_⟩
  have howns := count_set AcceptorObject.owns ha (a.reserve w.table second opened).1 d
  have hd := hcount d
  simp only [AcceptorObject.owns, hlive, halive, if_true, hlisten, List.count_cons] at howns
  simp only [count_places]
  omega

theorem useCount_of_some {s : SharedSocket} (hs : w.sockets[k]? = some s) :
    w.useCount k = s.useCount := by
  simp [useCount, hs]

/-- The count of every socket behind a change of one. -/
theorem useCount_set {s : SharedSocket} (hs : w.sockets[k]? = some s) (s' : SharedSocket)
    (hsockets : w'.sockets = w.sockets.set k s') (j : ℕ) :
    w'.useCount j = if j = k then s'.useCount else w.useCount j := by
  have hk := (List.getElem?_eq_some_iff.mp hs).1
  unfold useCount
  rw [hsockets]
  by_cases hj : j = k
  · subst hj
    rw [if_pos rfl, List.getElem?_set_self hk]
    rfl
  · rw [if_neg hj, List.getElem?_set_ne (Ne.symm hj)]

/-- The count of every socket behind a new one. -/
theorem useCount_snoc {s : SharedSocket} (hsockets : w'.sockets = w.sockets ++ [s]) (j : ℕ) :
    w'.useCount j = w.useCount j + if j = w.sockets.length then s.useCount else 0 := by
  unfold useCount
  rw [hsockets]
  by_cases hj : j < w.sockets.length
  · rw [List.getElem?_append_left hj, if_neg (by omega), Nat.add_zero]
  · have hnone : w.sockets[j]? = none := List.getElem?_eq_none (by omega)
    rw [hnone, List.getElem?_append_right (by omega)]
    split_ifs with he
    · simp [he]
    · rw [List.getElem?_eq_none (by simp; omega)]
      rfl

theorem Dead.set (h : Dead w) {s : SharedSocket} (hs : s.useCount = 0 → s.socket = none)
    (hsockets : w'.sockets = w.sockets.set k s) : Dead w' := by
  intro j t ht hzero
  rw [hsockets, List.getElem?_set] at ht
  split_ifs at ht
  · cases ht
    exact hs hzero
  · exact h j t ht hzero

theorem Dead.snoc (h : Dead w) {s : SharedSocket} (hs : s.useCount = 0 → s.socket = none)
    (hsockets : w'.sockets = w.sockets ++ [s]) : Dead w' := by
  intro j t ht hzero
  rw [hsockets, List.getElem?_append] at ht
  split_ifs at ht
  · exact h j t ht hzero
  · obtain rfl := List.mem_singleton.mp (List.mem_of_getElem? ht)
    exact hs hzero

/-- Closing a socket moves its descriptor to the closed ones. -/
theorem close_spec {s : SharedSocket} (hdead : s.useCount = 0 → s.socket = none) (k : FdTable) :
    (s.close k).2.obtained = k.obtained ∧ (s.close k).1.useCount = s.useCount ∧
      (s.close k).1.socket = none ∧
      ∀ d, (s.close k).1.owns.count d + (s.close k).2.closed.count d =
        s.owns.count d + k.closed.count d := by
  refine ⟨close_obtained .., rfl, rfl, fun d => ?_⟩
  by_cases hzero : s.useCount = 0
  · simp [SharedSocket.close, SharedSocket.owns, hdead hzero, FdTable.close]
  · simp [SharedSocket.close, SharedSocket.owns, hzero, count_close]
    omega

/-- A shared pointer less, and with the last one the descriptor is closed. -/
theorem release_spec {s : SharedSocket} (hused : s.useCount ≠ 0) (k : FdTable) :
    (s.release k).2.obtained = k.obtained ∧ (s.release k).1.useCount + 1 = s.useCount ∧
      ((s.release k).1.useCount = 0 → (s.release k).1.socket = none) ∧
      ∀ d, (s.release k).1.owns.count d + (s.release k).2.closed.count d =
        s.owns.count d + k.closed.count d := by
  by_cases hone : s.useCount = 1
  · rw [SharedSocket.release, if_pos hone]
    refine ⟨close_obtained .., hone.symm, fun _ => rfl, fun d => ?_⟩
    simp [SharedSocket.close, SharedSocket.owns, hone, count_close]
    omega
  · rw [SharedSocket.release, if_neg hone]
    have hmore : s.useCount - 1 ≠ 0 := by omega
    refine ⟨rfl, Nat.sub_add_cancel (by omega), fun hzero => absurd hzero hmore, fun d => ?_⟩
    simp [SharedSocket.owns, hused, hmore]

/-- A socket takes the place of another, with as many descriptors or one closed. -/
theorem places_setSocket {s s' : SharedSocket} {table : FdTable} (hs : w.sockets[k]? = some s)
    (hobtained : table.obtained = w.table.obtained)
    (hcount : ∀ d, s'.owns.count d + table.closed.count d =
      s.owns.count d + w.table.closed.count d) :
    Places w { w with table := table, sockets := w.sockets.set k s' } 0 := by
  refine ⟨hobtained, fun d => ?_⟩
  have howns := count_set SharedSocket.owns hs s' d
  have hd := hcount d
  simp only [count_places, List.range', List.count_nil]
  omega

theorem Inv.closeSocket (h : Inv w) (hs : w.closeSocket k = .next w') : Inv w' := by
  simp only [Process.closeSocket, Outcome.bind_eq_next, Outcome.deref_eq_next, Outcome.pure_eq,
    Outcome.next.injEq] at hs
  obtain ⟨s, hget, rfl⟩ := hs
  obtain ⟨hobtained, hsame, hnone, hcount⟩ := close_spec (h.dead k s hget) w.table
  refine ⟨h.placed.step (places_setSocket hget hobtained hcount), fun j => ?_,
    h.dead.set (fun _ => hnone) rfl⟩
  rw [useCount_set hget _ rfl, hsame]
  have hj := h.counted j
  split_ifs with he
  · rw [he] at hj ⊢
    rw [← useCount_of_some hget]
    exact hj
  · exact hj

theorem Releasing.release (h : Releasing w k) (hs : w.release k = .next w') : Inv w' := by
  simp only [Process.release, Outcome.bind_eq_next, Outcome.deref_eq_next, Outcome.pure_eq,
    Outcome.next.injEq] at hs
  obtain ⟨s, hget, rfl⟩ := hs
  have hk := h.counted k
  rw [if_pos rfl, useCount_of_some hget] at hk
  have hused : s.useCount ≠ 0 := by omega
  obtain ⟨hobtained, hless, hdead, hcount⟩ := release_spec hused w.table
  refine ⟨h.placed.step (places_setSocket hget hobtained hcount), fun j => ?_,
    h.dead.set hdead rfl⟩
  rw [useCount_set hget _ rfl]
  change w.pointers.count j = _
  have hj := h.counted j
  split_ifs at hj ⊢ with he
  · subst he
    omega
  · omega

/-- A pointer in a variable goes away. -/
theorem Inv.erase (h : Inv w) (hk : k ∈ w.held) :
    Releasing { w with held := w.held.erase k } k := by
  refine ⟨h.placed, fun j => ?_, h.dead⟩
  change _ = w.useCount j
  rw [← h.counted j]
  simp only [count_pointers, List.count_erase]
  have hpos := List.count_pos_iff.mpr hk
  by_cases he : j = k
  · subst he
    simp
    omega
  · simp [he, Ne.symm he]

/-- The pointer in a connection goes away. -/
theorem Inv.unbind (h : Inv w) {c : ConnectionObject} (hc : w.connections[j]? = some c)
    (hk : c.socket = some k) :
    Releasing { w with connections := w.connections.set j { c with socket := none } } k := by
  refine ⟨h.placed, fun i => ?_, h.dead⟩
  change _ = w.useCount i
  rw [← h.counted i]
  have hset := count_set (fun c => c.socket.toList) hc { c with socket := none } i
  simp only [hk, Option.toList_some, Option.toList_none, List.count_cons, List.count_nil,
    beq_iff_eq] at hset
  simp only [count_pointers]
  split_ifs at hset ⊢ <;> omega

theorem places_newSocket (w : Process) (connected opened : Bool) (held : List ℕ) : Places w
    { w with
      table := w.table.obtain (if opened then 1 else 0)
      sockets := w.sockets ++
        [{ socket := if opened then some w.table.obtained else none, connected := connected }]
      held := held } (if opened then 1 else 0) := by
  refine ⟨rfl, fun d => ?_⟩
  cases opened
  · simp [count_places, count_snoc, FdTable.obtain, SharedSocket.owns]
  · simp [count_places, count_snoc, FdTable.obtain, SharedSocket.owns]
    omega

/-- A new socket, with a pointer in a variable. -/
theorem Inv.newSocket (h : Inv w) (connected opened : Bool) : Inv
    { w with
      table := w.table.obtain (if opened then 1 else 0)
      sockets := w.sockets ++
        [{ socket := if opened then some w.table.obtained else none, connected := connected }]
      held := w.sockets.length :: w.held } := by
  refine ⟨h.placed.step (places_newSocket w connected opened _), fun j => ?_,
    h.dead.snoc (fun hno => absurd hno Nat.one_ne_zero) rfl⟩
  rw [useCount_snoc rfl, ← h.counted j]
  simp only [count_pointers, List.count_cons, beq_iff_eq]
  split_ifs <;> omega

/-- A connection that nobody asked for is closed at once. -/
theorem Inv.refused (h : Inv w) : Inv
    { w with
      table := (w.table.obtain 1).close (some w.table.obtained)
      sockets := w.sockets ++ [{ socket := none, connected := false, useCount := 0 }] } := by
  refine ⟨h.placed.step (n := 1) ⟨rfl, fun d => ?_⟩, fun j => ?_, h.dead.snoc (fun _ => rfl) rfl⟩
  · simp [count_places, count_snoc, count_close, FdTable.obtain, SharedSocket.owns]
    omega
  · rw [useCount_snoc rfl, ite_self, Nat.add_zero]
    exact h.counted j

theorem Inv.handleAccept (h : Inv w) {a : AcceptorObject} (ha : w.acceptors[i]? = some a)
    (halive : a.alive = true) (r : AcceptRound) : Inv (w.handleAccept i a r) := by
  cases r with
  | accepted =>
    by_cases hcallback : a.newConnectionCallback = true
    · rw [Process.handleAccept, if_pos hcallback]
      exact h.newSocket true true
    · rw [Process.handleAccept, if_neg hcallback]
      exact h.refused
  | failed => exact h
  | full second opened => exact h.of_places (places_reserve ha halive second opened) rfl rfl rfl

/-- A socket changes, and keeps its descriptor and its pointers. -/
theorem Inv.setSocket (h : Inv w) {s s' : SharedSocket} (hs : w.sockets[k]? = some s)
    (hsocket : s'.socket = s.socket) (hcount : s'.useCount = s.useCount) :
    Inv { w with sockets := w.sockets.set k s' } := by
  have howns : s'.owns = s.owns := by
    rw [SharedSocket.owns, hsocket, hcount]
    rfl
  refine ⟨h.placed.step (places_setSocket hs rfl fun d => by rw [howns]), fun j => ?_,
    h.dead.set (fun hzero => hsocket.trans (h.dead k s hs (hcount ▸ hzero))) rfl⟩
  rw [useCount_set hs _ rfl, hcount]
  have hj := h.counted j
  split_ifs with he
  · rw [he] at hj ⊢
    rw [← useCount_of_some hs]
    exact hj
  · exact hj

/-- A shared pointer in a variable is copied. -/
theorem Inv.copy (h : Inv w) {s : SharedSocket} (hk : k ∈ w.held)
    (hs : w.sockets[k]? = some s) : Inv
    { w with
      sockets := w.sockets.set k { s with useCount := s.useCount + 1 }
      held := k :: w.held } := by
  have hused : s.useCount ≠ 0 := by
    have hcount := h.counted k
    have hpos := List.count_pos_iff.mpr hk
    rw [count_pointers, useCount_of_some hs] at hcount
    omega
  refine ⟨h.placed.step (n := 0) ⟨rfl, fun d => ?_⟩, fun j => ?_,
    h.dead.set (fun hno => absurd hno (Nat.succ_ne_zero _)) rfl⟩
  · have howns : ({ s with useCount := s.useCount + 1 } : SharedSocket).owns = s.owns := by
      simp [SharedSocket.owns, hused]
    simp [count_places, count_set_of_eq _ hs howns]
  · have hj := h.counted j
    rw [useCount_set hs _ rfl]
    simp only [count_pointers, List.count_cons, beq_iff_eq] at hj ⊢
    split_ifs with he hne hne
    · subst he
      rw [useCount_of_some hs] at hj
      omega
    · exact absurd he.symm hne
    · exact absurd hne.symm he
    · omega

/-- A pointer moves from a variable into a connection. -/
theorem Inv.bindSocket (h : Inv w) {c : ConnectionObject} (hk : k ∈ w.held)
    (hc : w.connections[j]? = some c) (hnone : c.socket = none) : Inv
    { w with
      connections := w.connections.set j { c with socket := some k }
      held := w.held.erase k } := by
  refine ⟨h.placed, fun i => ?_, h.dead⟩
  change _ = w.useCount i
  rw [← h.counted i]
  have hset := count_set (fun c => c.socket.toList) hc { c with socket := some k } i
  have hpos := List.count_pos_iff.mpr hk
  simp only [hnone, Option.toList_some, Option.toList_none, List.count_cons, List.count_nil,
    beq_iff_eq] at hset
  simp only [count_pointers, List.count_erase, beq_iff_eq]
  split_ifs at hset ⊢ with he
  · subst he
    omega
  · omega

/-- A connection changes, and keeps its pointer. -/
theorem Inv.setConnection (h : Inv w) {connections : List ConnectionObject}
    (hcount : ∀ d, (holdings (fun c => c.socket.toList) connections).count d =
      (holdings (fun c => c.socket.toList) w.connections).count d) :
    Inv { w with connections := connections } := by
  refine ⟨h.placed, fun i => ?_, h.dead⟩
  change _ = w.useCount i
  rw [← h.counted i, count_pointers, count_pointers, hcount i]

theorem Inv.step (h : Inv w) (hs : w.step l = .next w') : Inv w' := by
  cases l with
  | newLoop etMode =>
    cases hs
    exact h.of_places (places_newLoop w etMode) rfl rfl rfl
  | startLoop i =>
    simp only [Process.step, Outcome.bind_eq_next, Outcome.deref_eq_next, Outcome.pure_eq,
      Outcome.next.injEq] at hs
    obtain ⟨e, he, -, -, life, -, rfl⟩ := hs
    exact h.of_places (places_setLoop he rfl rfl) rfl rfl rfl
  | stopLoop i =>
    simp only [Process.step, Outcome.bind_eq_next, Outcome.deref_eq_next, Outcome.pure_eq,
      Outcome.next.injEq] at hs
    obtain ⟨e, he, -, -, life, -, rfl⟩ := hs
    exact h.of_places (places_setLoop he rfl rfl) rfl rfl rfl
  | destroyLoop i =>
    simp only [Process.step, Outcome.bind_eq_next, Outcome.deref_eq_next,
      Outcome.require_eq_next, Outcome.pure_eq, Outcome.next.injEq] at hs
    obtain ⟨e, he, -, halive, life, -, rfl⟩ := hs
    exact h.of_places (places_destroyLoop he halive life) rfl rfl rfl
  | newAcceptor etMode opened =>
    cases hs
    exact h.of_places (places_newAcceptor w etMode opened) rfl rfl rfl
  | setNewConnectionCallback i =>
    simp only [Process.step, Outcome.bind_eq_next, Outcome.deref_eq_next, Outcome.pure_eq,
      Outcome.next.injEq] at hs
    obtain ⟨a, ha, -, -, rfl⟩ := hs
    exact h.of_places (places_setAcceptor ha rfl) rfl rfl rfl
  | listen i =>
    simp only [Process.step, Outcome.bind_eq_next, Outcome.deref_eq_next, Outcome.pure_eq,
      Outcome.next.injEq] at hs
    obtain ⟨a, ha, -, -, ioEvent, -, rfl⟩ := hs
    exact h.of_places (places_setAcceptor ha rfl) rfl rfl rfl
  | handleAccept i r =>
    simp only [Process.step, Outcome.bind_eq_next, Outcome.deref_eq_next,
      Outcome.require_eq_next, Outcome.pure_eq, Outcome.next.injEq] at hs
    obtain ⟨a, ha, -, ⟨halive, -⟩, rfl⟩ := hs
    exact h.handleAccept ha halive r
  | destroyAcceptor i =>
    simp only [Process.step, Outcome.bind_eq_next, Outcome.deref_eq_next,
      Outcome.require_eq_next, Outcome.pure_eq, Outcome.next.injEq] at hs
    obtain ⟨a, ha, -, halive, ioEvent, -, rfl⟩ := hs
    exact h.of_places (places_destroyAcceptor ha halive ioEvent) rfl rfl rfl
  | newSocket opened =>
    cases hs
    exact h.newSocket false opened
  | connect k =>
    simp only [Process.step, Outcome.bind_eq_next, Outcome.deref_eq_next, Outcome.pure_eq,
      Outcome.next.injEq] at hs
    obtain ⟨-, -, s, hget, -, -, rfl⟩ := hs
    exact h.setSocket hget rfl rfl
  | copy k =>
    simp only [Process.step, Outcome.bind_eq_next, Outcome.deref_eq_next,
      Outcome.require_eq_next, Outcome.pure_eq, Outcome.next.injEq] at hs
    obtain ⟨-, hk, s, hget, rfl⟩ := hs
    exact h.copy hk hget
  | release k =>
    simp only [Process.step, Outcome.bind_eq_next, Outcome.require_eq_next] at hs
    obtain ⟨-, hk, hs⟩ := hs
    exact (h.erase hk).release hs
  | closeSocket k =>
    simp only [Process.step, Outcome.bind_eq_next] at hs
    obtain ⟨-, -, hs⟩ := hs
    exact h.closeSocket hs
  | newConnection =>
    cases hs
    exact h.setConnection fun d => by simp [count_snoc]
  | bindSocket j k =>
    simp only [Process.step, Outcome.bind_eq_next, Outcome.deref_eq_next,
      Outcome.require_eq_next, Outcome.check_eq_next, Outcome.pure_eq, Outcome.next.injEq] at hs
    obtain ⟨-, hk, c, hc, -, -, s, -, -, hnone, -, -, rfl⟩ := hs
    exact h.bindSocket hk hc hnone
  | handleCloseEvent j =>
    simp only [Process.step, Outcome.bind_eq_next, Outcome.deref_eq_next] at hs
    obtain ⟨c, -, hs⟩ := hs
    split at hs
    · cases hs
      exact h
    · simp only [Outcome.bind_eq_next, Outcome.deref_eq_next] at hs
      obtain ⟨s, -, hs⟩ := hs
      split_ifs at hs
      · exact h.closeSocket hs
      · cases hs
        exact h
  | reset j =>
    simp only [Process.step, Outcome.bind_eq_next, Outcome.deref_eq_next] at hs
    obtain ⟨c, hc, k, hk, hs⟩ := hs
    exact (h.unbind hc hk).release hs
  | destroyConnection j =>
    simp only [Process.step, Outcome.bind_eq_next, Outcome.deref_eq_next, Outcome.pure_eq,
      Outcome.next.injEq] at hs
    obtain ⟨c, hc, -, -, -, -, rfl⟩ := hs
    exact h.setConnection fun d => count_set_of_eq (fun c => c.socket.toList) hc (by rfl) d

theorem Inv.closed_iff (h : Inv w) : Conserved w ↔ ∀ e ∈ w.loops, e.alive = true := by
  constructor
  · intro hc e he
    by_contra hdead
    have hmem : e.wakeupSocket.1 ∈ holdings LoopObject.leaves w.loops :=
      mem_holdings.mpr ⟨e, he, by simp [LoopObject.leaves, hdead]⟩
    have hplaced := h.placed e.wakeupSocket.1
    have hpos := List.count_pos_iff.mpr hmem
    simp only [places, List.count_append] at hplaced
    have hlt : e.wakeupSocket.1 < w.table.obtained := by
      by_contra hno
      rw [if_neg hno] at hplaced
      omega
    rw [if_pos hlt] at hplaced
    rcases hc.descriptors _ hlt with ⟨ho, hcl⟩ | ⟨ho, hcl⟩ <;> omega
  · intro halive
    have hleaves : holdings LoopObject.leaves w.loops = [] :=
      holdings_eq_nil.mpr fun e he => by simp [LoopObject.leaves, halive e he]
    refine ⟨fun d hd => ?_, fun k s hs hsocket => ?_⟩
    · have hplaced := h.placed d
      simp only [places, List.count_append, hleaves, List.count_nil, if_pos hd] at hplaced
      omega
    · rw [← List.count_pos_iff, h.counted, useCount_of_some hs]
      by_contra hno
      exact hsocket (h.dead k s hs (by omega))

/-- What a step does to the event loops. -/
inductive LoopMove (w w' : Process) : ProcessLabel → Prop
  | made {l : ProcessLabel} {etMode : Bool} (hl : ∀ i, l ≠ .destroyLoop i)
    (h : w'.loops = w.loops ++ [.construct etMode w.table.obtained]) : LoopMove w w' l
  | changed {l : ProcessLabel} {i : ℕ} {e e' : LoopObject} (hl : ∀ i, l ≠ .destroyLoop i)
    (he : w.loops[i]? = some e) (halive : e'.alive = e.alive)
    (h : w'.loops = w.loops.set i e') : LoopMove w w' l
  | destroyed {i : ℕ} {e e' : LoopObject} (he : w.loops[i]? = some e) (hdead : e'.alive = false)
    (h : w'.loops = w.loops.set i e') : LoopMove w w' (.destroyLoop i)
  | kept {l : ProcessLabel} (hl : ∀ i, l ≠ .destroyLoop i) (h : w'.loops = w.loops) :
    LoopMove w w' l

theorem release_loops (hs : w.release k = .next w') : w'.loops = w.loops := by
  simp only [Process.release, Outcome.bind_eq_next, Outcome.pure_eq, Outcome.next.injEq] at hs
  obtain ⟨s, -, rfl⟩ := hs
  rfl

theorem closeSocket_loops (hs : w.closeSocket k = .next w') : w'.loops = w.loops := by
  simp only [Process.closeSocket, Outcome.bind_eq_next, Outcome.pure_eq, Outcome.next.injEq] at hs
  obtain ⟨s, -, rfl⟩ := hs
  rfl

theorem handleAccept_loops (w : Process) (i : ℕ) (a : AcceptorObject) (r : AcceptRound) :
    (w.handleAccept i a r).loops = w.loops := by
  cases r with
  | accepted => by_cases h : a.newConnectionCallback = true <;> simp [handleAccept, h]
  | failed => rfl
  | full second opened => rfl

theorem loop_move (hs : w.step l = .next w') : LoopMove w w' l := by
  cases l with
  | newLoop etMode =>
    cases hs
    exact .made (by simp) rfl
  | startLoop i =>
    simp only [Process.step, Outcome.bind_eq_next, Outcome.deref_eq_next, Outcome.pure_eq,
      Outcome.next.injEq] at hs
    obtain ⟨e, he, -, -, life, -, rfl⟩ := hs
    exact .changed (by simp) he (by rfl) rfl
  | stopLoop i =>
    simp only [Process.step, Outcome.bind_eq_next, Outcome.deref_eq_next, Outcome.pure_eq,
      Outcome.next.injEq] at hs
    obtain ⟨e, he, -, -, life, -, rfl⟩ := hs
    exact .changed (by simp) he (by rfl) rfl
  | destroyLoop i =>
    simp only [Process.step, Outcome.bind_eq_next, Outcome.deref_eq_next, Outcome.pure_eq,
      Outcome.next.injEq] at hs
    obtain ⟨e, he, -, -, life, -, rfl⟩ := hs
    exact .destroyed he (by rfl) rfl
  | handleAccept i r =>
    simp only [Process.step, Outcome.bind_eq_next, Outcome.pure_eq, Outcome.next.injEq] at hs
    obtain ⟨a, -, -, -, rfl⟩ := hs
    exact .kept (by simp) (handleAccept_loops ..)
  | release k =>
    simp only [Process.step, Outcome.bind_eq_next] at hs
    obtain ⟨-, -, hs⟩ := hs
    have hloops := release_loops hs
    exact .kept (by simp) hloops
  | closeSocket k =>
    simp only [Process.step, Outcome.bind_eq_next] at hs
    obtain ⟨-, -, hs⟩ := hs
    exact .kept (by simp) (closeSocket_loops hs)
  | reset j =>
    simp only [Process.step, Outcome.bind_eq_next] at hs
    obtain ⟨c, -, k, -, hs⟩ := hs
    have hloops := release_loops hs
    exact .kept (by simp) hloops
  | handleCloseEvent j =>
    simp only [Process.step, Outcome.bind_eq_next] at hs
    obtain ⟨c, -, hs⟩ := hs
    split at hs
    · cases hs
      exact .kept (by simp) rfl
    · simp only [Outcome.bind_eq_next] at hs
      obtain ⟨s, -, hs⟩ := hs
      split_ifs at hs
      · exact .kept (by simp) (closeSocket_loops hs)
      · cases hs
        exact .kept (by simp) rfl
  | newAcceptor etMode opened | newSocket opened | newConnection =>
    cases hs
    exact .kept (by simp) rfl
  | setNewConnectionCallback i | listen i | destroyAcceptor i | connect k | copy k
  | bindSocket j k | destroyConnection j =>
    simp only [Process.step, Outcome.bind_eq_next, Outcome.pure_eq, Outcome.next.injEq] at hs
    refine .kept (by simp) ?_
    obtain ⟨_, _, hs⟩ := hs
    grind

/-- An event loop is destroyed by its destructor, once and for all. -/
theorem LoopMove.alive_iff (hm : LoopMove w w' l) :
    (∀ e ∈ w'.loops, e.alive = true) ↔
      (∀ e ∈ w.loops, e.alive = true) ∧ ∀ i, l ≠ .destroyLoop i := by
  cases hm with
  | made hl h =>
    rw [h, List.forall_mem_append]
    simp [LoopObject.construct, hl]
  | @changed _ i e e' hl he halive h =>
    rw [h, and_iff_left hl]
    have hlt := (List.getElem?_eq_some_iff.mp he).1
    constructor
    · intro hall x hx
      obtain ⟨j, hj⟩ := List.getElem?_of_mem hx
      by_cases hji : j = i
      · rw [hji, he] at hj
        cases hj
        rw [← halive]
        exact hall e' (List.mem_set hlt e')
      · refine hall x (List.mem_of_getElem? (i := j) ?_)
        rw [List.getElem?_set_ne (Ne.symm hji), hj]
    · intro hall x hx
      rcases List.mem_or_eq_of_mem_set hx with hx | rfl
      · exact hall x hx
      · rw [halive]
        exact hall e (List.mem_of_getElem? he)
  | @destroyed i e e' he hdead h =>
    have hlt := (List.getElem?_eq_some_iff.mp he).1
    refine iff_of_false (fun hall => ?_) fun hno => hno.2 i rfl
    rw [h] at hall
    rw [hall e' (List.mem_set hlt e')] at hdead
    cases hdead
  | kept hl h => rw [h, and_iff_left hl]

theorem run_alive_iff {ls : List ProcessLabel} (hr : run step w ls = .next w') :
    (∀ e ∈ w'.loops, e.alive = true) ↔
      (∀ e ∈ w.loops, e.alive = true) ∧ ∀ i, .destroyLoop i ∉ ls := by
  induction ls generalizing w with
  | nil =>
    cases hr
    simp
  | cons l ls ih =>
    obtain ⟨v, hv, hr⟩ := Outcome.bind_eq_next.mp hr
    rw [ih hr, (loop_move hv).alive_iff, and_assoc, ← forall_and]
    refine and_congr_right fun _ => forall_congr' fun i => ?_
    rw [List.mem_cons, not_or, ne_comm]

/-- In every run of a process, every descriptor has one owner while it is open and is closed once,
exactly when the run destroys no event loop. -/
theorem conserved_iff (ls : List ProcessLabel) (w : Process) (run_eq : run step {} ls = .next w) :
    Conserved w ↔ ∀ i, .destroyLoop i ∉ ls := by
  have h : Inv w := run_invariant (fun _ _ _ h hs => Inv.step h hs) .empty run_eq
  rw [h.closed_iff, run_alive_iff run_eq]
  simp

/-- A connection is accepted, bound, closed and reset, and another is turned away with the reserve
descriptor. -/
theorem conserved_accept : ∃ w,
    run step {} [.newLoop false, .newAcceptor false true, .setNewConnectionCallback 0, .listen 0,
      .newConnection, .handleAccept 0 .accepted, .bindSocket 0 0, .handleCloseEvent 0, .reset 0,
      .handleAccept 0 (.full none true)] = .next w ∧
      w.table.closed = [5, 4, 6] ∧ w.owned = [0, 1, 2, 3, 7] ∧ Conserved w := by
  obtain ⟨w, hw, hc⟩ := Outcome.yields_eq_true.mp (show
    (run step {} [.newLoop false, .newAcceptor false true, .setNewConnectionCallback 0, .listen 0,
      .newConnection, .handleAccept 0 .accepted, .bindSocket 0 0, .handleCloseEvent 0, .reset 0,
      .handleAccept 0 (.full none true)]).yields (fun w =>
        decide (w.table.closed = [5, 4, 6] ∧ w.owned = [0, 1, 2, 3, 7])) = true by decide +kernel)
  obtain ⟨hclosed, howned⟩ := of_decide_eq_true hc
  exact ⟨w, hw, hclosed, howned, (conserved_iff _ w hw).mpr (by simp)⟩

/-- An event loop that runs, stops and is destroyed leaves both ends of its wakeup pair open. -/
theorem wakeup_pair_leaks : ∃ w,
    run step {} [.newLoop false, .startLoop 0, .stopLoop 0, .destroyLoop 0] = .next w ∧
      w.table.obtained = 3 ∧ w.table.closed = [0] ∧ w.owned = [] ∧ ¬ Conserved w := by
  obtain ⟨w, hw, hc⟩ := Outcome.yields_eq_true.mp (show
    (run step {} [.newLoop false, .startLoop 0, .stopLoop 0, .destroyLoop 0]).yields (fun w =>
      decide (w.table.obtained = 3 ∧ w.table.closed = [0] ∧ w.owned = [])) = true by
    decide +kernel)
  obtain ⟨hobtained, hclosed, howned⟩ := of_decide_eq_true hc
  refine ⟨w, hw, hobtained, hclosed, howned, fun h => ?_⟩
  have hone := h.descriptors 1 (by rw [hobtained]; decide)
  simp [howned, hclosed] at hone

end Process
end Potato
