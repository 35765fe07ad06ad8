import Potato.ConnectionMoves

/-!
# The sessions of one pooled connection

One slot of the pool of `TcpServer`, on the thread of its loop: all its sessions
where the server has one loop, and else those on the same loop. A label is one
thing that can happen next: a connection is accepted, `epoll_wait` reports, the
dispatch loop comes to the reported entry, user code calls or returns, a pending
`read` is answered, a functor of another thread runs. The stack holds what the
thread is in the middle of, and user code may call whenever a user callback is
on top, or when the thread is busy with something else.
-/
namespace Potato
open Words Machine

/-- The settings of a `TcpServer`. Its callbacks are either set or not. -/
structure TcpServer where
  platform : Platform
  etMode : Bool
  connectionCallback : Bool
  messageCallback : Bool
  writeCompleteCallback : Bool
  deriving DecidableEq, Repr

/-- `newConnection`, with the connection that was borrowed and the loop that comes next. -/
def TcpServer.newConnection (srv : TcpServer) (c : TcpConnection) (socket : Socket) (loop : ℕ) :
    Outcome Fault TcpConnection :=
  { c with
    connectionCallback := srv.connectionCallback
    destroyCallback := true
    messageCallback := srv.messageCallback
    writeCompleteCallback := srv.writeCompleteCallback }.bindSocket socket loop srv.etMode

/-- `bindPosted` tells that the functor of `bindSocket` waits to run, `reported` is the
entry for this connection in the batch of `epoll_wait`, `trace` what was seen of the
session that was started last. -/
structure Session where
  conn : TcpConnection
  stack : List Frame := []
  bindPosted : Bool := false
  reported : Option (ℕ × Mask) := none
  available : Bool := true
  nextSocket : ℕ := 0
  trace : List Obs := []
  deriving DecidableEq, Repr

inductive Label where
  /-- `newConnection` gets this connection from the pool. -/
  | accept
  /-- The functor of `bindSocket` runs. -/
  | bound
  /-- `epoll_wait` reports `ev` for the socket. -/
  | poll (ev : Mask)
  /-- The loop of `handleIOEvent` comes to the entry. -/
  | dispatch (w : WriteResult)
  /-- User code on the loop thread calls. -/
  | call (act : Act)
  /-- A functor that `close` or `write` posted from another thread runs. -/
  | posted (act : Act)
  /-- The user callback returns. -/
  | ret
  /-- `read` answers. -/
  | read (r : ReadResult)
  /-- The code behind a callback runs. -/
  | go
  deriving DecidableEq, Repr

/-- What user code can call. -/
def Act.IsCall : Act → Bool
  | close | write _ _ | take _ => true
  | _ => false

/-- What `close` and `write` post. -/
def Act.IsFunctor : Act → Bool
  | handleCloseEvent | writeFunctor _ _ => true
  | _ => false

def EventCallback.act (w : WriteResult) : EventCallback → Act
  | close => .handleCloseEvent
  | read => .handleReadEvent
  | write => .handleWriteEvent w

/-- The readiness that `epoll_wait` can report for an interest mask. -/
def Mask.Reports (mask ev : Mask) : Bool :=
  ev &&& ~~~(mask ||| EPOLLERR ||| EPOLLHUP) == 0

namespace Session

def start (index : ℕ) : Session := { conn := { index := index } }

/-- User code may call: nothing of this connection runs, or one of its callbacks does. -/
def UserTurn : List Frame → Bool
  | [] => true
  | .user _ :: _ => true
  | _ => false

/-- What a label runs, if anything, and the state in which it runs. -/
def turn (s : Session) : Label → Outcome Fault (Option Act × Session)
  | .bound => do
    Outcome.require (s.stack = [] ∧ s.bindPosted = true)
    return (some .bindFunctor, { s with bindPosted := false })
  | .dispatch w => do
    Outcome.require (s.stack = [])
    match s.reported with
    | none => .refused
    | some (id, ev) =>
      let event ← Outcome.deref s.conn.ioEvent .deadEvent
      Outcome.check (event.id = id) .deadEvent
      return ((IOWatcher.callbackFor event ev).map (EventCallback.act w),
        { s with reported := none })
  | .call act => do
    Outcome.require (UserTurn s.stack = true ∧ act.IsCall = true)
    return (some act, s)
  | .posted act => do
    Outcome.require (s.stack = [] ∧ act.IsFunctor = true)
    return (some act, s)
  | .ret =>
    match s.stack with
    | .user _ :: rest => return (none, { s with stack := rest })
    | _ => .refused
  | .read r =>
    match s.stack with
    | .readBody :: rest => return (some (.readBody r), { s with stack := rest })
    | _ => .refused
  | .go =>
    match s.stack with
    | .readTest :: rest => return (some .readTest, { s with stack := rest })
    | .writeTail :: rest => return (some .writeTail, { s with stack := rest })
    | .resetTail :: rest => return (some .resetTail, { s with stack := rest })
    | _ => .refused
  | .accept | .poll _ => .refused

/-- The state behind a piece of code. -/
def after (s : Session) (act : Act) (e : Effect) : Session :=
  { s with
    conn := e.conn
    stack := e.frames ++ s.stack
    available := s.available || act == .resetTail
    trace := s.trace ++ e.obs }

def step (srv : TcpServer) (s : Session) : Label → Outcome Fault Session
  | .accept => do
    Outcome.require (s.available = true)
    let c ← srv.newConnection s.conn { id := s.nextSocket } 0
    return { s with
      conn := c
      bindPosted := true
      available := false
      nextSocket := s.nextSocket + 1
      trace := [] }
  | .poll ev => do
    Outcome.require (s.stack = [] ∧ s.reported = none)
    match s.conn.ioEvent, s.conn.entry with
    | some event, some mask => do
      Outcome.require (mask.Reports ev = true)
      return { s with reported := some (event.id, ev) }
    | _, _ => .refused
  | l => do
    let (act, s) ← s.turn l
    match act with
    | none => return s
    | some act =>
      let e ← s.conn.perform srv.platform act
      return s.after act e

/-- The connection that `accept` binds to the socket with number `id`. -/
def rebound (srv : TcpServer) (c : TcpConnection) (id : ℕ) : TcpConnection :=
  { c with
    loop := some 0
    ioEvent := some
      { id := id, etMode := srv.etMode, readCallback := true, writeCallback := true,
        closeCallback := true }
    socket := some { id := id }
    entry := none
    connectionCallback := srv.connectionCallback
    destroyCallback := true
    messageCallback := srv.messageCallback
    writeCompleteCallback := srv.writeCompleteCallback }

/-- When a label runs a piece of code, and what is on the stack below it. -/
inductive Turn (s : Session) : Label → Act → List Frame → Prop
  | bound : s.stack = [] → s.bindPosted = true → Turn s .bound .bindFunctor []
  | dispatch {w : WriteResult} {event : IOEvent} {ev : Mask} {callback : EventCallback}
      {act : Act} : s.stack = [] → s.conn.ioEvent = some event →
      s.reported = some (event.id, ev) → IOWatcher.callbackFor event ev = some callback →
      act = callback.act w → Turn s (.dispatch w) act []
  | call {act : Act} : UserTurn s.stack = true → act.IsCall = true → Turn s (.call act) act s.stack
  | posted {act : Act} : s.stack = [] → act.IsFunctor = true → Turn s (.posted act) act []
  | read {r : ReadResult} {rest : List Frame} : s.stack = .readBody :: rest →
      Turn s (.read r) (.readBody r) rest
  | readTest {rest : List Frame} : s.stack = .readTest :: rest → Turn s .go .readTest rest
  | writeTail {rest : List Frame} : s.stack = .writeTail :: rest → Turn s .go .writeTail rest
  | resetTail {rest : List Frame} : s.stack = .resetTail :: rest → Turn s .go .resetTail rest

/-- What a step can do. -/
inductive Step (srv : TcpServer) (s : Session) : Label → Session → Prop
  | accepted : s.available = true → Step srv s .accept
      { s with
        conn := rebound srv s.conn s.nextSocket
        bindPosted := true
        available := false
        nextSocket := s.nextSocket + 1
        trace := [] }
  | polled {ev mask : Mask} {event : IOEvent} : s.stack = [] → s.reported = none →
      s.conn.ioEvent = some event → s.conn.entry = some mask → mask.Reports ev = true →
      Step srv s (.poll ev) { s with reported := some (event.id, ev) }
  | skipped {w : WriteResult} {event : IOEvent} {ev : Mask} : s.stack = [] →
      s.conn.ioEvent = some event → s.reported = some (event.id, ev) →
      IOWatcher.callbackFor event ev = none → Step srv s (.dispatch w) { s with reported := none }
  | returned {callback : Callback} {rest : List Frame} : s.stack = .user callback :: rest →
      Step srv s .ret { s with stack := rest }
  | ran {l : Label} {act : Act} {rest : List Frame} {e : Effect} {t : Session} :
      Turn s l act rest → s.conn.perform srv.platform act = .next e → s.conn.Move act e →
      t.conn = e.conn → t.stack = e.frames ++ rest →
      t.bindPosted = (s.bindPosted && act != .bindFunctor) →
      ((t.reported = s.reported ∧ ∀ w, l ≠ .dispatch w) ∨
        (t.reported = none ∧ ∃ w, l = .dispatch w)) →
      t.available = (s.available || act == .resetTail) → t.nextSocket = s.nextSocket →
      t.trace = s.trace ++ e.obs → Step srv s l t

variable {srv : TcpServer} {s t : Session} {l : Label}

theorem newConnection_loop {c d : TcpConnection} {id loop : ℕ}
    (h : srv.newConnection c { id := id } loop = .next d) :
    c.Unbound ∧ d = { rebound srv c id with loop := some loop } := by
  simp only [TcpServer.newConnection, TcpConnection.bindSocket, Outcome.bind_eq_next,
    Outcome.check_eq_next, Outcome.pure_eq, Outcome.next.injEq] at h
  obtain ⟨-, hl, -, hs, -, he, -, -, rfl⟩ := h
  exact ⟨⟨hl, he, hs⟩, rfl⟩

theorem newConnection_next {c d : TcpConnection} {id : ℕ}
    (h : srv.newConnection c { id := id } 0 = .next d) : c.Unbound ∧ d = rebound srv c id :=
  newConnection_loop h

theorem ne_bindFunctor_of_isCall {act : Act} (h : act.IsCall = true) :
    (act != .bindFunctor) = true := by
  cases act <;> simp_all [Act.IsCall]

theorem ne_bindFunctor_of_isFunctor {act : Act} (h : act.IsFunctor = true) :
    (act != .bindFunctor) = true := by
  cases act <;> simp_all [Act.IsFunctor]

theorem ne_bindFunctor_of_dispatch {w : WriteResult} {callback : EventCallback} :
    (callback.act w != .bindFunctor) = true := by
  cases callback <;> rfl

/-- What `turn` hands out: the session in which nothing but the scheduling changed. -/
structure Handed (s : Session) (l : Label) (act : Act) (s' : Session) : Prop where
  turn : Turn s l act s'.stack
  conn : s'.conn = s.conn
  available : s'.available = s.available
  nextSocket : s'.nextSocket = s.nextSocket
  trace : s'.trace = s.trace
  reported : (s'.reported = s.reported ∧ ∀ w, l ≠ .dispatch w) ∨
    (s'.reported = none ∧ ∃ w, l = .dispatch w)
  bindPosted : s'.bindPosted = (s.bindPosted && act != .bindFunctor)

variable (srv) in
theorem turn_next {o : Option Act} {s' : Session} (h : s.turn l = .next (o, s')) :
    (o = none ∧ Step srv s l s') ∨ ∃ act, o = some act ∧ Handed s l act s' := by
  cases l with
  | accept => cases h
  | poll ev => cases h
  | bound =>
    simp only [turn, Outcome.bind_eq_next, Outcome.require_eq_next, Outcome.pure_eq,
      Outcome.next.injEq, Prod.mk.injEq] at h
    obtain ⟨-, ⟨hstack, hbind⟩, rfl, rfl⟩ := h
    refine .inr ⟨_, rfl, ?_, rfl, rfl, rfl, rfl, .inl ⟨rfl, by simp⟩, by simp⟩
    rw [hstack]
    exact .bound hstack hbind
  | dispatch w =>
    simp only [turn, Outcome.bind_eq_next, Outcome.require_eq_next] at h
    obtain ⟨-, hstack, h⟩ := h
    cases hr : s.reported with
    | none => simp [hr] at h
    | some entry =>
      obtain ⟨id, ev⟩ := entry
      simp only [hr, Outcome.bind_eq_next, Outcome.deref_eq_next, Outcome.check_eq_next,
        Outcome.pure_eq, Outcome.next.injEq, Prod.mk.injEq] at h
      obtain ⟨event, hevent, -, rfl, rfl, rfl⟩ := h
      cases hcb : IOWatcher.callbackFor event ev with
      | none => exact .inl ⟨rfl, .skipped hstack hevent hr hcb⟩
      | some callback =>
        refine .inr ⟨_, rfl, ?_, rfl, rfl, rfl, rfl, .inr ⟨rfl, w, rfl⟩, ?_⟩
        · rw [hstack]
          exact .dispatch hstack hevent hr hcb rfl
        · simp only [ne_bindFunctor_of_dispatch, Bool.and_true]
  | call act =>
    simp only [turn, Outcome.bind_eq_next, Outcome.require_eq_next, Outcome.pure_eq,
      Outcome.next.injEq, Prod.mk.injEq] at h
    obtain ⟨-, ⟨hturn, hcall⟩, rfl, rfl⟩ := h
    exact .inr ⟨_, rfl, .call hturn hcall, rfl, rfl, rfl, rfl, .inl ⟨rfl, by simp⟩,
      by simp only [ne_bindFunctor_of_isCall hcall, Bool.and_true]⟩
  | posted act =>
    simp only [turn, Outcome.bind_eq_next, Outcome.require_eq_next, Outcome.pure_eq,
      Outcome.next.injEq, Prod.mk.injEq] at h
    obtain ⟨-, ⟨hstack, hfunctor⟩, rfl, rfl⟩ := h
    refine .inr ⟨_, rfl, ?_, rfl, rfl, rfl, rfl, .inl ⟨rfl, by simp⟩,
      by simp only [ne_bindFunctor_of_isFunctor hfunctor, Bool.and_true]⟩
    rw [hstack]
    exact .posted hstack hfunctor
  | ret =>
    simp only [turn] at h
    split at h
    · next callback rest hstack =>
      simp only [Outcome.pure_eq, Outcome.next.injEq, Prod.mk.injEq] at h
      obtain ⟨rfl, rfl⟩ := h
      exact .inl ⟨rfl, .returned hstack⟩
    · cases h
  | read r =>
    simp only [turn] at h
    split at h
    · next rest hstack =>
      simp only [Outcome.pure_eq, Outcome.next.injEq, Prod.mk.injEq] at h
      obtain ⟨rfl, rfl⟩ := h
      exact .inr ⟨_, rfl, .read hstack, rfl, rfl, rfl, rfl, .inl ⟨rfl, by simp⟩, by simp⟩
    · cases h
  | go =>
    simp only [turn] at h
    split at h
    · next rest hstack =>
      simp only [Outcome.pure_eq, Outcome.next.injEq, Prod.mk.injEq] at h
      obtain ⟨rfl, rfl⟩ := h
      exact .inr ⟨_, rfl, .readTest hstack, rfl, rfl, rfl, rfl, .inl ⟨rfl, by simp⟩, by simp⟩
    · next rest hstack =>
      simp only [Outcome.pure_eq, Outcome.next.injEq, Prod.mk.injEq] at h
      obtain ⟨rfl, rfl⟩ := h
      exact .inr ⟨_, rfl, .writeTail hstack, rfl, rfl, rfl, rfl, .inl ⟨rfl, by simp⟩, by simp⟩
    · next rest hstack =>
      simp only [Outcome.pure_eq, Outcome.next.injEq, Prod.mk.injEq] at h
      obtain ⟨rfl, rfl⟩ := h
      exact .inr ⟨_, rfl, .resetTail hstack, rfl, rfl, rfl, rfl, .inl ⟨rfl, by simp⟩, by simp⟩
    · cases h

theorem step_eq_turn (hl : l ≠ .accept) (hp : ∀ ev, l ≠ .poll ev) :
    step srv s l = s.turn l >>= fun r =>
      match r.1 with
      | none => pure r.2
      | some act => r.2.conn.perform srv.platform act >>= fun e => pure (r.2.after act e) := by
  cases l with
  | accept => exact absurd rfl hl
  | poll ev => exact absurd rfl (hp ev)
  | _ => rfl

/-- Every step is one of those listed. -/
theorem step_next (hc : s.conn.Held) (h : step srv s l = .next t) : Step srv s l t := by
  by_cases ha : l = .accept
  · subst ha
    simp only [step, Outcome.bind_eq_next, Outcome.require_eq_next, Outcome.pure_eq,
      Outcome.next.injEq] at h
    obtain ⟨-, havail, c, hnew, rfl⟩ := h
    rw [(newConnection_next hnew).2]
    exact .accepted havail
  by_cases hp : ∃ ev, l = .poll ev
  · obtain ⟨ev, rfl⟩ := hp
    simp only [step, Outcome.bind_eq_next, Outcome.require_eq_next] at h
    obtain ⟨-, ⟨hstack, hr⟩, h⟩ := h
    split at h
    · next event mask hevent hentry =>
      simp only [Outcome.bind_eq_next, Outcome.require_eq_next, Outcome.pure_eq,
        Outcome.next.injEq] at h
      obtain ⟨-, hev, rfl⟩ := h
      exact .polled hstack hr hevent hentry hev
    · cases h
  · rw [step_eq_turn ha (fun ev he => hp ⟨ev, he⟩), Outcome.bind_eq_next] at h
    obtain ⟨⟨o, s'⟩, hturn, h⟩ := h
    rcases turn_next srv hturn with ⟨rfl, hstep⟩ | ⟨act, rfl, hh⟩
    · simp only [Outcome.pure_eq, Outcome.next.injEq] at h
      exact h ▸ hstep
    · simp only [Outcome.bind_eq_next, Outcome.pure_eq, Outcome.next.injEq] at h
      obtain ⟨e, he, rfl⟩ := h
      rw [hh.conn] at he
      exact .ran hh.turn he (TcpConnection.perform_move hc he) rfl rfl hh.bindPosted hh.reported
        (by rw [← hh.available]; rfl) hh.nextSocket (by rw [← hh.trace]; rfl)

end Session
end Potato
