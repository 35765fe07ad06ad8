import Potato.Reentrancy

/-!
# A connection and the threads of several loops

`newConnection` binds a pooled connection to the loop that comes next. The thread
of an earlier loop may be in the middle of a callback or a handler then, and goes
on with the pointers and buffers of the new session. So each loop has a stack of
its own here, and what one thread does is a step of `Session` on its stack.
-/
namespace Potato
open Machine

/-- The thread of a loop, as far as one connection is concerned. `resetPosted` tells that the
functor of `destroyConnection` waits in its queue. -/
structure LoopThread where
  stack : List Frame := []
  bindPosted : Bool := false
  resetPosted : Bool := false
  reported : Option (ℕ × Mask) := none
  deriving DecidableEq, Repr

/-- A pooled connection in a server with `n` loops. -/
structure Slot (n : ℕ) where
  conn : TcpConnection
  threads : Fin n → LoopThread := fun _ => {}
  available : Bool := true
  nextSocket : ℕ := 0
  trace : List Obs := []

inductive SlotLabel (n : ℕ) where
  /-- `newConnection` gets this connection from the pool, and `loop` from `getNextLoop`. -/
  | accept (loop : Fin n)
  /-- The thread of a loop goes on. -/
  | on (loop : Fin n) (l : Label)
  /-- The functor of `destroyConnection` runs. -/
  | reset (loop : Fin n)
  deriving DecidableEq, Repr

namespace Slot
variable {n : ℕ}

def start (n index : ℕ) : Slot n := { conn := { index := index } }

/-- The slot as the thread of loop `i` finds it. -/
def view (m : Slot n) (i : Fin n) : Session where
  conn := m.conn
  stack := (m.threads i).stack
  bindPosted := (m.threads i).bindPosted
  reported := (m.threads i).reported
  available := m.available
  nextSocket := m.nextSocket
  trace := m.trace

/-- The slot behind a step of that thread. -/
def put (m : Slot n) (i : Fin n) (s : Session) : Slot n where
  conn := s.conn
  threads := Function.update m.threads i
    { m.threads i with stack := s.stack, bindPosted := s.bindPosted, reported := s.reported }
  available := s.available
  nextSocket := s.nextSocket
  trace := s.trace

/-- The loop of the connection is another one than `i`. -/
def Elsewhere (m : Slot n) (i : Fin n) : Bool := m.conn.loop.any (· != i.val)

/-- `epoll_wait` reports the socket on its own loop. Where the loop is another one, `close` and
`write` post a functor and leave the connection alone. -/
def Allows (m : Slot n) (i : Fin n) : Label → Bool
  | .accept => false
  | .poll _ => m.conn.loop == some i.val
  | .call (.take _) => true
  | .call _ => !m.Elsewhere i
  | _ => true

/-- A thread goes on with a connection that is bound to another loop. Its `destroyConnection`
posts the functor that its own loop would run at once. -/
def stepElsewhere (srv : TcpServer) (m : Slot n) (i : Fin n) (l : Label) :
    Outcome Fault (Slot n) := do
  let s ← { m.view i with conn := { m.conn with destroyCallback := false } }.step srv l
  let m' := m.put i { s with conn := { s.conn with destroyCallback := m.conn.destroyCallback } }
  if m.conn.destroyCallback ∧ m.conn.isConnected = true ∧ s.conn.isConnected = false then
    return { m' with
      threads := fun j =>
        if m.conn.loop = some j.val then { m'.threads j with resetPosted := true }
        else m'.threads j }
  else return m'

def step (srv : TcpServer) (m : Slot n) : SlotLabel n → Outcome Fault (Slot n)
  | .accept loop => do
    Outcome.require (m.available = true)
    let c ← srv.newConnection m.conn { id := m.nextSocket } loop
    return { m with
      conn := c
      threads := Function.update m.threads loop { m.threads loop with bindPosted := true }
      available := false
      nextSocket := m.nextSocket + 1
      trace := [] }
  | .on i l => do
    Outcome.require (m.Allows i l = true)
    if m.Elsewhere i then m.stepElsewhere srv i l
    else return m.put i (← (m.view i).step srv l)
  | .reset i => do
    Outcome.require ((m.threads i).stack = [] ∧ (m.threads i).resetPosted = true)
    let e ← m.conn.reset
    return { m with
      conn := e.conn
      threads := Function.update m.threads i
        { m.threads i with stack := e.frames, resetPosted := false }
      trace := m.trace ++ e.obs }

/-- User code does not close the connection while its `handleReadEvent` is running, nor while
its `handleWriteEvent` is running and nothing is left to be written. The rest of a
`handleWriteEvent` has run before the connection is bound to another loop, and a functor runs on
the loop to which it is bound. -/
def Quiet (m : Slot n) : SlotLabel n → Bool
  | .accept loop => decide (∀ i, i ≠ loop → .writeTail ∉ (m.threads i).stack)
  | .on i (.posted _) => !m.Elsewhere i
  | .on i l => (m.view i).Quiet l
  | .reset _ => true

variable {srv : TcpServer} {m m' : Slot n} {i j : Fin n} {l : Label} {s : Session}

theorem elsewhere_eq_false : m.Elsewhere i = false ↔ ∀ k, m.conn.loop = some k → k = i.val := by
  cases hl : m.conn.loop <;> simp [Elsewhere, hl]

theorem elsewhere_eq_true :
    m.Elsewhere i = true ↔ ∃ k, m.conn.loop = some k ∧ k ≠ i.val := by
  cases hl : m.conn.loop <;> simp [Elsewhere, hl]

/-- Only a connection without a loop is that of two threads. -/
theorem loop_eq_none (hi : m.Elsewhere i = false) (hj : m.Elsewhere j = false) (hne : j ≠ i) :
    m.conn.loop = none := by
  by_contra hno
  obtain ⟨k, hk⟩ := Option.ne_none_iff_exists'.mp hno
  have hki : k = i.val := elsewhere_eq_false.mp hi k hk
  have hkj : k = j.val := elsewhere_eq_false.mp hj k hk
  exact hne (Fin.ext (hkj.symm.trans hki))

theorem put_threads_self : (m.put i s).threads i =
    { m.threads i with stack := s.stack, bindPosted := s.bindPosted, reported := s.reported } :=
  Function.update_self ..

theorem put_threads_of_ne (h : j ≠ i) : (m.put i s).threads j = m.threads j :=
  Function.update_of_ne h ..

theorem put_resetPosted :
    ((m.put i s).threads j).resetPosted = (m.threads j).resetPosted := by
  by_cases hji : j = i
  · rw [hji, put_threads_self]
  · rw [put_threads_of_ne hji]

@[simp] theorem view_put : (m.put i s).view i = s := by
  simp only [view, put_threads_self]
  rfl

theorem put_view (m : Slot n) : m.put i (m.view i) = m := by
  simp only [put, view]
  rw [Function.update_eq_self]

/-- The slot behind `newConnection`. -/
def reboundTo (srv : TcpServer) (m : Slot n) (loop : Fin n) : Slot n where
  conn := { Session.rebound srv m.conn m.nextSocket with loop := some loop.val }
  threads := Function.update m.threads loop { m.threads loop with bindPosted := true }
  available := false
  nextSocket := m.nextSocket + 1

theorem reboundTo_threads_self :
    (m.reboundTo srv i).threads i = { m.threads i with bindPosted := true } :=
  Function.update_self ..

theorem reboundTo_threads_of_ne (h : j ≠ i) : (m.reboundTo srv i).threads j = m.threads j :=
  Function.update_of_ne h ..

theorem step_accept_next (h : m.step srv (.accept i) = .next m') :
    m.available = true ∧ m.conn.Unbound ∧ m' = m.reboundTo srv i := by
  simp only [Slot.step, Outcome.bind_eq_next, Outcome.require_eq_next, Outcome.pure_eq,
    Outcome.next.injEq] at h
  obtain ⟨-, havail, c, hnew, rfl⟩ := h
  obtain ⟨hu, rfl⟩ := Session.newConnection_loop hnew
  exact ⟨havail, hu, rfl⟩

/-- A thread goes on as in a `Session`: with the connection as it is or, where that is bound
elsewhere, without its destroy callback. -/
theorem step_on_next (h : m.step srv (.on i l) = .next m') : l ≠ .accept ∧
    ((∃ s, (m.view i).step srv l = .next s ∧ m' = m.put i s) ∨
      ∃ s, Session.step srv
          { m.view i with conn := { m.conn with destroyCallback := false } } l = .next s ∧
        m'.conn = { s.conn with destroyCallback := m.conn.destroyCallback } ∧
        m'.available = s.available) := by
  simp only [Slot.step, Outcome.bind_eq_next, Outcome.require_eq_next] at h
  obtain ⟨-, hallow, h⟩ := h
  refine ⟨?_, ?_⟩
  · rintro rfl
    cases hallow
  split_ifs at h
  · simp only [stepElsewhere, Outcome.bind_eq_next] at h
    obtain ⟨s, hs, hm⟩ := h
    refine .inr ⟨s, hs, ?_⟩
    split_ifs at hm <;> cases hm <;> exact ⟨rfl, rfl⟩
  · simp only [Outcome.bind_eq_next, Outcome.pure_eq, Outcome.next.injEq] at h
    obtain ⟨s, hs, rfl⟩ := h
    exact .inl ⟨s, hs, rfl⟩

/-- What a step on the loop of the connection, or on any loop while it has none, does to it. -/
structure Follows (s t : Session) : Prop where
  loop : t.conn.loop = s.conn.loop ∨ t.conn.Unbound
  event : ∀ event', t.conn.ioEvent = some event' →
    ∃ event, s.conn.ioEvent = some event ∧ event.id = event'.id
  nextSocket : t.nextSocket = s.nextSocket
  content : s.conn.Unbound → s.conn.writeBuffer.content ≠ [] → t.conn.writeBuffer.content ≠ []

theorem follows_move {c : TcpConnection} {act : Act} {e : Effect} (hm : c.Move act e) :
    (e.conn.loop = c.loop ∨ e.conn.Unbound) ∧ ∀ event', e.conn.ioEvent = some event' →
      ∃ event, c.ioEvent = some event ∧ event.id = event'.id := by
  cases hm.shape with
  | kept _ hloop hkey =>
    refine ⟨.inl hloop, fun event' he => ?_⟩
    obtain ⟨event, he, hid, -⟩ := Session.event_of_eventKey hkey he
    exact ⟨event, he, hid⟩
  | registered _ _ hloop hevent _ hkey =>
    refine ⟨.inl hloop, fun event' he => ⟨_, hevent, ?_⟩⟩
    rw [Session.eventKey_some he, Option.some.injEq, Prod.mk.injEq] at hkey
    exact hkey.1.symm
  | closed hb _ _ hshut =>
    rw [hshut]
    refine ⟨.inl rfl, fun event' he => ⟨_, hb.event_eq, ?_⟩⟩
    cases he
    rfl
  | unbound _ he =>
    subst he
    exact ⟨.inr ⟨rfl, rfl, rfl⟩, fun event' he => nomatch he⟩

theorem follows_step (hi : Session.Inv srv s) (hl : l ≠ .accept) {t : Session}
    (hs : s.step srv l = .next t) : Follows s t := by
  have hsame {t : Session} (hc : t.conn = s.conn) (hn : t.nextSocket = s.nextSocket) :
      Follows s t :=
    ⟨.inl (by rw [hc]), fun event' he => ⟨event', hc ▸ he, rfl⟩, hn, fun _ h => hc ▸ h⟩
  cases Session.step_next hi.held hs with
  | accepted => exact absurd rfl hl
  | polled | skipped | returned => exact hsame rfl rfl
  | @ran _ act _ e _ hturn _ hm hconn _ _ _ _ hnext =>
    obtain ⟨hloop, hevent⟩ := follows_move hm
    rw [← hconn] at hloop hevent
    refine ⟨hloop, hevent, hnext, fun hu hne => ?_⟩
    rw [hconn]
    refine hm.content_kept (fun w hact => ?_) hne
    subst hact
    cases hturn with
    | dispatch _ he => exact absurd he hu.event_ne
    | call _ hcall => cases hcall
    | posted _ hf => cases hf

/-- A thread that has nothing of the connection to run but what user code returns to. -/
structure Aside (m : Slot n) (i : Fin n) : Prop where
  frames : ∀ frame ∈ (m.threads i).stack, ∃ callback, frame = .user callback
  bindPosted : (m.threads i).bindPosted = false
  stale : ∀ id ev, (m.threads i).reported = some (id, ev) →
    id < m.nextSocket ∧ ∀ event, m.conn.ioEvent = some event → event.id ≠ id

/-- The invariant of a slot whose steps are all quiet. -/
structure Inv (srv : TcpServer) (m : Slot n) : Prop where
  here : ∀ i, m.Elsewhere i = false → Session.Inv srv (m.view i) ∧ Session.Linked (m.view i)
  aside : ∀ i, m.Elsewhere i = true → m.Aside i
  reset : ∀ i, (m.threads i).resetPosted = false
  home : ∀ k, m.conn.loop = some k → k < n

theorem Inv.start (index : ℕ) : Inv srv (start n index) where
  here := fun _ _ => ⟨.start index, .start index⟩
  aside := fun _ h => nomatch h
  reset := fun _ => rfl
  home := fun _ h => nomatch h

theorem Inv.held (h : Inv srv m) (i : Fin n) : m.conn.Held := by
  cases hl : m.conn.loop with
  | none => exact (h.here i (by simp [Elsewhere, hl])).1.held
  | some k => exact (h.here ⟨k, h.home k hl⟩ (by simp [Elsewhere, hl])).1.held

/-- A thread that looks at a connection without pointers. -/
theorem idle_view {t : Session} (hheld : t.conn.Held) (hu : t.conn.Unbound)
    (hlayered : Layered t.stack) (hbind : t.bindPosted = false) (hbody : .readBody ∉ t.stack)
    (htest : .readTest ∉ t.stack) (hreset : .resetTail ∉ t.stack)
    (htail : .writeTail ∈ t.stack → t.conn.writeBuffer.content ≠ [])
    (hstale : ∀ id ev, t.reported = some (id, ev) → id < t.nextSocket) :
    Session.Inv srv t ∧ Session.Linked t where
  left :=
    { held := hheld
      fresh := fun _ he => absurd he hu.event_ne
      mode := fun _ he => absurd he hu.event_ne
      pooled := fun _ => hu
      posted := fun hp => nomatch hbind.symm.trans hp
      watched := fun _ he => absurd he hu.event_ne
      closing := fun hmem => absurd hmem hreset
      once := by rw [List.count_eq_zero_of_not_mem hreset]; exact Nat.zero_le 1
      stale := hstale }
  right :=
    { layered := hlayered
      reading := fun hmem => hmem.elim (fun h => absurd h hbody) fun h => absurd h htest
      flushing := fun hmem => .inr (htail hmem)
      closing := fun hmem => absurd hmem hreset }

/-- What waits on a stack while the connection has no pointers. -/
theorem frames_of_unbound (hi : Session.Inv srv s) (hl : Session.Linked s)
    (hu : s.conn.Unbound) : s.bindPosted = false ∧ .readBody ∉ s.stack ∧ .readTest ∉ s.stack ∧
      .resetTail ∉ s.stack ∧ (.writeTail ∈ s.stack → s.conn.writeBuffer.content ≠ []) := by
  refine ⟨?_, fun hmem => hl.reading (.inl hmem) hu.2.1, fun hmem => hl.reading (.inr hmem) hu.2.1,
    fun hmem => (hi.closing hmem).1 hu.2.2,
    fun hmem => (hl.flushing hmem).resolve_left fun hno => hno hu.2.1⟩
  by_contra hp
  exact absurd (hi.posted (by simpa using hp)) (by simp [hu.isConnected])

theorem unbound_of_loop (h : s.conn.Held) (hl : s.conn.loop = none) : s.conn.Unbound := by
  rcases h.pointers with hu | ⟨event, socket, hb, -⟩
  · exact hu
  · exact absurd hl (Option.isSome_iff_ne_none.mp hb.loop_set)

theorem not_mem_of_user {stack : List Frame} {frame : Frame}
    (h : ∀ f ∈ stack, ∃ callback, f = .user callback) (hne : ∀ callback, frame ≠ .user callback) :
    frame ∉ stack := by
  intro hmem
  obtain ⟨callback, heq⟩ := h frame hmem
  exact hne callback heq

/-- The other threads, when the step of one has left the connection without pointers. -/
theorem Inv.others_unbound (h : Inv srv m) (hi : m.Elsewhere i = false) (hf : Follows (m.view i) s)
    (hheld : s.conn.Held) (hu : s.conn.Unbound) (hj : j ≠ i) :
    Session.Inv srv ((m.put i s).view j) ∧ Session.Linked ((m.put i s).view j) := by
  have hthread : (m.put i s).threads j = m.threads j := put_threads_of_ne hj
  have hview : (m.put i s).view j = { m.view j with
      conn := s.conn, available := s.available, nextSocket := s.nextSocket, trace := s.trace } := by
    simp only [view, hthread]
    rfl
  have hnext : s.nextSocket = m.nextSocket := hf.nextSocket
  rw [hview]
  cases he : m.Elsewhere j with
  | true =>
    have ha := h.aside j he
    refine idle_view hheld hu (.of_nested fun frame hmem => ?_) ha.bindPosted
      (not_mem_of_user ha.frames (by simp)) (not_mem_of_user ha.frames (by simp))
      (not_mem_of_user ha.frames (by simp))
      (fun hmem => absurd hmem (not_mem_of_user ha.frames (by simp))) fun id ev hr => ?_
    · obtain ⟨callback, rfl⟩ := ha.frames frame hmem
      rfl
    · exact (ha.stale id ev hr).1.trans_eq hnext.symm
  | false =>
    -- the connection had no loop before either
    obtain ⟨hinv, hlinked⟩ := h.here j he
    have hu' : m.conn.Unbound := unbound_of_loop hinv.held (loop_eq_none hi he hj)
    obtain ⟨hbind, hbody, htest, hreset, htail⟩ := frames_of_unbound hinv hlinked hu'
    exact idle_view hheld hu hlinked.layered hbind hbody htest hreset
      (fun hmem => hf.content hu' (htail hmem))
      fun id ev hr => (hinv.stale id ev hr).trans_eq hnext.symm

/-- A step on the loop of the connection, or on any loop while it has none. -/
theorem Inv.step_here (h : Inv srv m) (hi : m.Elsewhere i = false) (hl : l ≠ .accept)
    (hq : (m.view i).Quiet l = true) (hs : (m.view i).step srv l = .next s) :
    Inv srv (m.put i s) := by
  obtain ⟨hinv, hlinked⟩ := h.here i hi
  have hf := follows_step hinv hl hs
  have hinv' := hinv.step hs
  have hlinked' := hlinked.step hinv hq hs
  have hloop : s.conn.loop = none ∨ s.conn.loop = m.conn.loop := by
    rcases hf.loop with hloop | hu
    · exact .inr hloop
    · exact .inl hu.1
  refine ⟨fun j hj => ?_, fun j hj => ?_, fun j => ?_, fun k hk => ?_⟩
  · by_cases heq : j = i
    · subst heq
      rw [view_put]
      exact ⟨hinv', hlinked'⟩
    · -- another thread finds the connection free only without a loop
      have hnone : s.conn.loop = none := by
        refine hloop.elim id fun hsame => ?_
        have hi' : (m.put i s).Elsewhere i = false :=
          elsewhere_eq_false.mpr fun k hk => elsewhere_eq_false.mp hi k (hsame ▸ hk)
        exact loop_eq_none hi' hj heq
      exact h.others_unbound hi hf hinv'.held (unbound_of_loop hinv'.held hnone) heq
  · obtain ⟨k, hk, hne⟩ := elsewhere_eq_true.mp hj
    have hk' : s.conn.loop = some k := hk
    have hold : m.conn.loop = some k := by
      rcases hloop with hno | hsame
      · rw [hk'] at hno
        cases hno
      · rw [← hsame, hk']
    have hji : j ≠ i := by
      rintro rfl
      exact hne (elsewhere_eq_false.mp hi k hold)
    have ha := h.aside j (elsewhere_eq_true.mpr ⟨k, hold, hne⟩)
    refine ⟨?_, ?_, fun id ev hr => ?_⟩
    · rw [put_threads_of_ne hji]
      exact ha.frames
    · rw [put_threads_of_ne hji]
      exact ha.bindPosted
    · rw [put_threads_of_ne hji] at hr
      obtain ⟨hlt, hne⟩ := ha.stale id ev hr
      refine ⟨hlt.trans_eq hf.nextSocket.symm, fun event' he => ?_⟩
      obtain ⟨event, he, hid⟩ := hf.event event' he
      exact hid ▸ hne event he
  · rw [put_resetPosted]
    exact h.reset j
  · have hk' : s.conn.loop = some k := hk
    rcases hloop with hno | hsame
    · rw [hk'] at hno
      cases hno
    · exact h.home k (by rw [← hsame, hk'])

/-- What user code consumes, and nothing else about the connection. -/
structure Consumes (c d : TcpConnection) : Prop where
  buffer : ∃ n, c.readBuffer.Consumed n d.readBuffer
  rest : d = { c with readBuffer := d.readBuffer }

theorem Consumes.held {c d : TcpConnection} (hc : c.Held) (h : Consumes c d) : d.Held := by
  obtain ⟨n, hb⟩ := h.buffer
  rw [h.rest]
  exact hc.withReadBuffer hb.valid (hc.room.trans hb.free_le)

theorem take_consumes {p : Platform} {c : TcpConnection} {t : Take} {e : Effect}
    (hv : c.readBuffer.Valid) (he : c.take p t = .next e) :
    Consumes c e.conn ∧ e.frames = [] := by
  simp only [TcpConnection.take, Outcome.bind_eq_next, Outcome.pure_eq, Outcome.next.injEq] at he
  obtain ⟨b, ht, rfl⟩ := he
  exact ⟨⟨⟨_, Take.consumed hv ht⟩, rfl⟩, rfl⟩

/-- The invariant of a thread does not depend on what is in the read buffer. -/
theorem Consumes.inv {t : Session} {d : TcpConnection} {trace : List Obs}
    (h : Consumes t.conn d) (hi : Session.Inv srv t) :
    Session.Inv srv { t with conn := d, trace := trace } := by
  have hheld := h.held hi.held
  have hrest := h.rest
  obtain ⟨b, rfl⟩ : ∃ b, d = { t.conn with readBuffer := b } := ⟨_, hrest⟩
  exact ⟨hheld, hi.fresh, hi.mode, hi.pooled, hi.posted, hi.watched, hi.closing, hi.once, hi.stale⟩

theorem Consumes.linked {t : Session} {d : TcpConnection} {trace : List Obs}
    (h : Consumes t.conn d) (hl : Session.Linked t) :
    Session.Linked { t with conn := d, trace := trace } := by
  have hrest := h.rest
  obtain ⟨b, rfl⟩ : ∃ b, d = { t.conn with readBuffer := b } := ⟨_, hrest⟩
  exact ⟨hl.layered, hl.reading, hl.flushing, hl.closing⟩

theorem step_call_next {t : Session} {act : Act} (h : t.step srv (.call act) = .next s) :
    ∃ e, t.conn.perform srv.platform act = .next e ∧ s = t.after act e := by
  rw [Session.step_eq_turn (by simp) (by simp), Outcome.bind_eq_next] at h
  obtain ⟨⟨o, t'⟩, hturn, h⟩ := h
  simp only [Session.turn, Outcome.bind_eq_next, Outcome.require_eq_next, Outcome.pure_eq,
    Outcome.next.injEq, Prod.mk.injEq] at hturn
  obtain ⟨-, -, rfl, rfl⟩ := hturn
  simp only [Outcome.bind_eq_next, Outcome.pure_eq, Outcome.next.injEq] at h
  obtain ⟨e, he, rfl⟩ := h
  exact ⟨e, he, rfl⟩

/-- All that a thread does that has only user code to return to. -/
theorem step_user {t : Session} (hframes : ∀ frame ∈ t.stack, ∃ callback, frame = .user callback)
    (hbind : t.bindPosted = false)
    (hdead : ∀ id ev, t.reported = some (id, ev) → ∀ event, t.conn.ioEvent = some event →
      event.id ≠ id)
    (hl : l ≠ .accept) (hp : ∀ ev, l ≠ .poll ev) (hf : ∀ act, l ≠ .posted act) :
    t.step srv l = .refused ∨ t.step srv l = .fault .deadEvent ∨
      (∃ callback rest, t.stack = .user callback :: rest ∧
        t.step srv l = .next { t with stack := rest }) ∨ ∃ act, l = .call act := by
  have hother {frame : Frame} {rest : List Frame} (hstack : t.stack = frame :: rest)
      (hne : ∀ callback, frame ≠ .user callback) : False := by
    obtain ⟨callback, heq⟩ := hframes frame (by rw [hstack]; exact List.mem_cons_self)
    exact hne callback heq
  rw [Session.step_eq_turn hl hp]
  cases l with
  | accept => exact absurd rfl hl
  | poll ev => exact absurd rfl (hp ev)
  | posted act => exact absurd rfl (hf act)
  | call act => exact .inr (.inr (.inr ⟨act, rfl⟩))
  | bound => exact .inl (by simp [Session.turn, Outcome.require, hbind])
  | dispatch w =>
    by_cases hstack : t.stack = []
    · cases hr : t.reported with
      | none => exact .inl (by simp [Session.turn, Outcome.require, hstack, hr])
      | some entry =>
        refine .inr (.inl ?_)
        cases he : t.conn.ioEvent with
        | none => simp [Session.turn, Outcome.require, Outcome.deref, hstack, hr, he]
        | some event =>
          have hne := hdead entry.1 entry.2 hr event he
          simp [Session.turn, Outcome.require, Outcome.deref, Outcome.check, hstack, hr, he, hne]
    · exact .inl (by simp [Session.turn, Outcome.require, hstack])
  | ret =>
    cases hstack : t.stack with
    | nil => exact .inl (by simp [Session.turn, hstack])
    | cons frame rest =>
      obtain ⟨callback, rfl⟩ := hframes frame (by rw [hstack]; exact List.mem_cons_self)
      exact .inr (.inr (.inl ⟨callback, rest, rfl, by simp [Session.turn, hstack]⟩))
  | read r =>
    refine .inl ?_
    unfold Session.turn
    dsimp only
    split
    · next hstack => exact (hother hstack (by simp)).elim
    · rfl
  | go =>
    refine .inl ?_
    unfold Session.turn
    dsimp only
    split
    · next hstack => exact (hother hstack (by simp)).elim
    · next hstack => exact (hother hstack (by simp)).elim
    · next hstack => exact (hother hstack (by simp)).elim
    · rfl

/-- A step that leaves all but the read buffer of the connection alone, and runs nothing new. -/
structure Leaves (s t : Session) : Prop where
  conn : Consumes s.conn t.conn
  stack : ∀ frame ∈ t.stack, frame ∈ s.stack
  bindPosted : t.bindPosted = s.bindPosted
  reported : t.reported = s.reported
  available : t.available = s.available
  nextSocket : t.nextSocket = s.nextSocket

/-- What is left to another loop than that of the connection. -/
theorem quiet_elsewhere (hi : m.Elsewhere i = true) (hl : m.Allows i l = true)
    (hq : m.Quiet (.on i l) = true) : l ≠ .accept ∧ (∀ ev, l ≠ .poll ev) ∧
      (∀ act, l ≠ .posted act) ∧ ∀ act, l = .call act → ∃ t, act = .take t := by
  refine ⟨?_, fun ev => ?_, fun act => ?_, fun act => ?_⟩
  · rintro rfl
    cases hl
  · rintro rfl
    obtain ⟨k, hk, hne⟩ := elsewhere_eq_true.mp hi
    simp only [Allows, hk, beq_iff_eq, Option.some.injEq] at hl
    exact hne hl
  · rintro rfl
    simp only [Quiet, hi] at hq
    cases hq
  · rintro rfl
    cases act with
    | take t => exact ⟨t, rfl⟩
    | _ => simp [Allows, hi] at hl

theorem stepElsewhere_next (h : Inv srv m) (hi : m.Elsewhere i = true) (hl : m.Allows i l = true)
    (hq : m.Quiet (.on i l) = true) (hs : m.stepElsewhere srv i l = .next m') :
    ∃ s, m' = m.put i s ∧ Leaves (m.view i) s := by
  have ha := h.aside i hi
  have hv : m.conn.readBuffer.Valid := (h.held i).readValid
  obtain ⟨haccept, hpoll, hposted, htake⟩ := quiet_elsewhere hi hl hq
  simp only [stepElsewhere, Outcome.bind_eq_next] at hs
  obtain ⟨s, hs, hm⟩ := hs
  have hkept (hsocket : s.conn.socket = m.conn.socket) : m' = m.put i
      { s with conn := { s.conn with destroyCallback := m.conn.destroyCallback } } := by
    have hsame := TcpConnection.isConnected_congr hsocket
    rw [if_neg (by rintro ⟨-, hup, hdown⟩; rw [hsame, hup] at hdown; cases hdown)] at hm
    exact (Outcome.next.inj hm).symm
  rcases @step_user srv l { m.view i with conn := { m.conn with destroyCallback := false } }
    ha.frames ha.bindPosted (fun id ev hr => (ha.stale id ev hr).2) haccept hpoll hposted with
    hno | hno | ⟨callback, rest, hstack, hret⟩ | ⟨act, rfl⟩
  · exact absurd (hno.symm.trans hs) (by simp)
  · exact absurd (hno.symm.trans hs) (by simp)
  · obtain rfl := Outcome.next.inj (hret.symm.trans hs)
    refine ⟨_, hkept rfl, ⟨⟨0, hv.consumed_refl⟩, rfl⟩, fun frame hmem => ?_, rfl, rfl, rfl, rfl⟩
    exact hstack.symm ▸ List.mem_cons_of_mem _ hmem
  · obtain ⟨t, rfl⟩ := htake act rfl
    obtain ⟨e, he, rfl⟩ := step_call_next hs
    obtain ⟨hc, hframes⟩ :=
      take_consumes (c := { m.conn with destroyCallback := false }) hv he
    have hrest := hc.rest
    refine ⟨_, hkept (by rw [Session.after, hrest]), ⟨hc.buffer, ?_⟩, fun frame hmem => ?_, rfl,
      rfl, ?_, rfl⟩
    · dsimp only [Session.after]
      rw [hrest]
      rfl
    · simpa [Session.after, hframes] using hmem
    · simp [Session.after, view]

/-- A quiet step on another loop than that of the connection. -/
theorem Inv.step_elsewhere (h : Inv srv m) (hi : m.Elsewhere i = true) (hl : m.Allows i l = true)
    (hq : m.Quiet (.on i l) = true) (hs : m.stepElsewhere srv i l = .next m') : Inv srv m' := by
  obtain ⟨s, rfl, hleaves⟩ := stepElsewhere_next h hi hl hq hs
  have hconn : s.conn = { m.conn with readBuffer := s.conn.readBuffer } := hleaves.conn.rest
  have hloop : s.conn.loop = m.conn.loop := by rw [hconn]
  have hevent : s.conn.ioEvent = m.conn.ioEvent := by rw [hconn]
  have hsame (j : Fin n) : (m.put i s).Elsewhere j = m.Elsewhere j := by
    change s.conn.loop.any _ = _
    rw [hloop]
    rfl
  have hnext : s.nextSocket = m.nextSocket := hleaves.nextSocket
  refine ⟨fun j hj => ?_, fun j hj => ?_, fun j => ?_, fun k hk => h.home k (hloop ▸ hk)⟩
  · rw [hsame] at hj
    have hji : j ≠ i := by
      rintro rfl
      rw [hi] at hj
      cases hj
    obtain ⟨hinv, hlinked⟩ := h.here j hj
    have hview : (m.put i s).view j = { m.view j with conn := s.conn, trace := s.trace } := by
      have havail : s.available = m.available := hleaves.available
      simp only [view, put_threads_of_ne hji]
      simp only [put, havail, hnext]
    rw [hview]
    exact ⟨Consumes.inv (t := m.view j) hleaves.conn hinv,
      Consumes.linked (t := m.view j) hleaves.conn hlinked⟩
  · rw [hsame] at hj
    have ha := h.aside j hj
    have hthread : (∀ frame ∈ ((m.put i s).threads j).stack, frame ∈ (m.threads j).stack) ∧
        ((m.put i s).threads j).bindPosted = (m.threads j).bindPosted ∧
        ((m.put i s).threads j).reported = (m.threads j).reported := by
      by_cases hji : j = i
      · subst hji
        rw [put_threads_self]
        exact ⟨hleaves.stack, hleaves.bindPosted, hleaves.reported⟩
      · rw [put_threads_of_ne hji]
        exact ⟨fun _ hmem => hmem, rfl, rfl⟩
    obtain ⟨hstack, hbind, hreported⟩ := hthread
    refine ⟨fun frame hmem => ha.frames frame (hstack frame hmem), hbind.trans ha.bindPosted,
      fun id ev hr => ?_⟩
    obtain ⟨hlt, hne⟩ := ha.stale id ev (hreported.symm.trans hr)
    exact ⟨hlt.trans_eq hnext.symm, fun event he => hne event (hevent ▸ he)⟩
  · rw [put_resetPosted]
    exact h.reset j

/-- Nothing depends on which loop it is. -/
theorem onLoop {t : Session} {k k' : ℕ} (hi : Session.Inv srv t) (hk : t.conn.loop = some k) :
    Session.Inv srv { t with conn := { t.conn with loop := some k' } } := by
  have hheld : TcpConnection.Held { t.conn with loop := some k' } := by
    refine ⟨hi.held.readValid, hi.held.writeValid, hi.held.room, .inr ?_, hi.held.synced,
      hi.held.removed, hi.held.idle, hi.held.pending⟩
    rcases hi.held.pointers with hu | ⟨event, socket, hb, hd⟩
    · rw [hu.1] at hk
      cases hk
    · exact ⟨event, socket, ⟨rfl, hb.event_eq, hb.socket_eq, hb.same⟩, hd⟩
  refine ⟨hheld, hi.fresh, hi.mode, fun ha => ?_, hi.posted, hi.watched, hi.closing, hi.once,
    hi.stale⟩
  have hno := (hi.pooled ha).1
  rw [hk] at hno
  cases hno

theorem Inv.step_accept {loop : Fin n} (h : Inv srv m) (hq : m.Quiet (.accept loop) = true)
    (hs : m.step srv (.accept loop) = .next m') : Inv srv m' := by
  obtain ⟨havail, hu, rfl⟩ := step_accept_next hs
  have hfree (j : Fin n) : m.Elsewhere j = false := by simp [Elsewhere, hu.1]
  refine ⟨fun j hj => ?_, fun j hj => ?_, fun j => ?_, fun k hk => ?_⟩
  · obtain rfl : j = loop := Fin.ext (elsewhere_eq_false.mp hj loop.val rfl).symm
    obtain ⟨hinv, hlinked⟩ := h.here j (hfree j)
    have hview : (m.reboundTo srv j).view j = { m.view j with
        conn := { Session.rebound srv m.conn m.nextSocket with loop := some j.val }
        bindPosted := true
        available := false
        nextSocket := m.nextSocket + 1
        trace := [] } := by
      simp only [view, reboundTo_threads_self]
      rfl
    rw [hview]
    exact ⟨onLoop (k := 0) (hinv.accepted havail) rfl, hlinked.layered,
      fun _ => Option.some_ne_none _, fun _ => .inl (Option.some_ne_none _), hlinked.closing⟩
  · have hne : j ≠ loop := by
      rintro rfl
      obtain ⟨k, hk, hne⟩ := elsewhere_eq_true.mp hj
      exact hne (Option.some.inj hk).symm
    obtain ⟨hinv, hlinked⟩ := h.here j (hfree j)
    obtain ⟨hbind, hbody, htest, hreset, -⟩ := frames_of_unbound hinv hlinked hu
    have htail : .writeTail ∉ (m.threads j).stack := of_decide_eq_true hq j hne
    have hthread := @reboundTo_threads_of_ne n srv m loop j hne
    refine ⟨fun frame hmem => ?_, by rw [hthread]; exact hbind, fun id ev hr => ?_⟩
    · rw [hthread] at hmem
      cases frame with
      | user callback => exact ⟨callback, rfl⟩
      | readBody => exact absurd hmem hbody
      | readTest => exact absurd hmem htest
      | writeTail => exact absurd hmem htail
      | resetTail => exact absurd hmem hreset
    · rw [hthread] at hr
      have hlt := hinv.stale id ev hr
      refine ⟨Nat.lt_succ_of_lt hlt, fun event he => ?_⟩
      cases he
      exact Nat.ne_of_gt hlt
  · by_cases hne : j = loop
    · rw [hne, reboundTo_threads_self]
      exact h.reset loop
    · rw [reboundTo_threads_of_ne hne]
      exact h.reset j
  · cases hk
    exact loop.isLt

theorem Inv.step {l : SlotLabel n} (h : Inv srv m) (hq : m.Quiet l = true)
    (hs : m.step srv l = .next m') : Inv srv m' := by
  cases l with
  | accept loop => exact h.step_accept hq hs
  | on i l =>
    simp only [Slot.step, Outcome.bind_eq_next, Outcome.require_eq_next] at hs
    obtain ⟨-, hl, hs⟩ := hs
    cases hi : m.Elsewhere i with
    | true =>
      rw [hi, if_pos rfl] at hs
      exact h.step_elsewhere hi hl hq hs
    | false =>
      simp only [hi, Bool.false_eq_true, if_false, Outcome.bind_eq_next, Outcome.pure_eq,
        Outcome.next.injEq] at hs
      obtain ⟨s, hs, rfl⟩ := hs
      refine h.step_here hi (by rintro rfl; cases hl) ?_ hs
      cases l with
      | posted act => rfl
      | _ => exact hq
  | reset i =>
    simp only [Slot.step, Outcome.bind_eq_next, Outcome.require_eq_next, h.reset i] at hs
    obtain ⟨-, ⟨-, hno⟩, -⟩ := hs
    cases hno

/-- User code on the thread of another loop meets no null pointer. -/
theorem Inv.elsewhere_ne_nullPointer (h : Inv srv m) (hi : m.Elsewhere i = true)
    (hl : m.Allows i l = true) (hq : m.Quiet (.on i l) = true) :
    m.stepElsewhere srv i l ≠ .fault .nullPointer := by
  intro hf
  have ha := h.aside i hi
  obtain ⟨haccept, hpoll, hposted, htake⟩ := quiet_elsewhere hi hl hq
  rw [stepElsewhere, Outcome.bind_eq_fault] at hf
  rcases hf with hf | ⟨s, -, hf⟩
  · rcases @step_user srv l { m.view i with conn := { m.conn with destroyCallback := false } }
      ha.frames ha.bindPosted (fun id ev hr => (ha.stale id ev hr).2) haccept hpoll hposted with
      hno | hno | ⟨callback, rest, -, hno⟩ | ⟨act, rfl⟩
    · exact absurd (hno.symm.trans hf) (by simp)
    · exact absurd (hno.symm.trans hf) (by simp)
    · exact absurd (hno.symm.trans hf) (by simp)
    · obtain ⟨t, rfl⟩ := htake act rfl
      have hplain : (TcpConnection.take srv.platform
          { m.conn with destroyCallback := false } t).Raises (·.Plain = true) := by
        simp [TcpConnection.take, Take.apply_raises]
      rw [Session.step_eq_turn (by simp) (by simp), Outcome.bind_eq_fault] at hf
      rcases hf with hf | ⟨⟨o, t'⟩, hturn, hf⟩
      · exact absurd (Session.turn_raises _ hf) (by simp)
      · simp only [Session.turn, Outcome.bind_eq_next, Outcome.require_eq_next, Outcome.pure_eq,
          Outcome.next.injEq, Prod.mk.injEq] at hturn
        obtain ⟨-, -, rfl, rfl⟩ := hturn
        simp only [Outcome.bind_eq_fault, Outcome.pure_eq, reduceCtorEq, and_false, exists_false,
          or_false] at hf
        exact absurd (hplain _ hf) (by simp [Fault.Plain])
  · split_ifs at hf

theorem Inv.ne_nullPointer {l : SlotLabel n} (h : Inv srv m) (hq : m.Quiet l = true) :
    m.step srv l ≠ .fault .nullPointer := by
  intro hf
  cases l with
  | accept loop =>
    simp only [Slot.step, Outcome.bind_eq_fault, Outcome.require_ne_fault, TcpServer.newConnection,
      TcpConnection.bindSocket, Outcome.check_eq_fault, Outcome.pure_eq] at hf
    simp at hf
  | on i l =>
    simp only [Slot.step, Outcome.bind_eq_fault, Outcome.require_ne_fault, Outcome.require_eq_next,
      false_or] at hf
    obtain ⟨-, hl, hf⟩ := hf
    cases hi : m.Elsewhere i with
    | true =>
      rw [hi, if_pos rfl] at hf
      exact h.elsewhere_ne_nullPointer hi hl hq hf
    | false =>
      obtain ⟨hinv, hlinked⟩ := h.here i hi
      simp only [hi, Bool.false_eq_true, if_false, Outcome.bind_eq_fault, Outcome.pure_eq,
        reduceCtorEq, and_false, exists_false, or_false] at hf
      exact hlinked.ne_nullPointer hinv hf
  | reset i =>
    simp only [Slot.step, Outcome.bind_eq_fault, Outcome.require_ne_fault, Outcome.require_eq_next,
      h.reset i, false_or] at hf
    obtain ⟨-, ⟨-, hno⟩, -⟩ := hf
    cases hno

/-- No pointer is null where it is used, whatever the loops do with one connection, in any run in
which no callback closes it below a handler that still has to look at the event, and no handler
of an earlier session is left on the thread of another loop. -/
theorem never_nullPointer (srv : TcpServer) (n index : ℕ) (ls : List (SlotLabel n))
    (quiet : StepsMeet (step srv) (fun m l => m.Quiet l = true) (start n index) ls) :
    run (step srv) (start n index) ls ≠ .fault .nullPointer :=
  run_ne_fault_of (fun _ _ _ h hq hs => Inv.step h hq hs) (fun _ _ h hq => h.ne_nullPointer hq)
    (.start index) quiet

/-- The connection callback closes the session that it was told of, a close behind a failed write
leaves a handler to finish, and the connection is used again on another loop. -/
theorem never_nullPointer_reuse :
    run (step ⟨⟨.linux, .little⟩, false, true, true, true⟩) (start 2 0)
      [.accept 0, .on 0 .bound, .on 0 (.call .close), .on 0 .ret, .on 0 .go, .accept 1,
        .on 1 .bound, .on 0 .ret, .on 1 .ret, .on 1 (.call (.write [1] .again)),
        .on 1 (.poll EPOLLOUT), .on 1 (.dispatch .error), .on 1 .ret, .on 1 .go, .on 1 .go,
        .accept 0, .on 0 .bound] ≠
      .fault .nullPointer :=
  never_nullPointer _ 2 0 _ (by decide +kernel)

/-- A message callback closes the connection, and so does a write-complete callback. Both come
back to a handler that uses the event that is gone. So does a handler whose write has failed, when
the next session on another loop has sent what was left to send and is closed. -/
theorem nullPointer_behind_callback :
    run (step ⟨⟨.linux, .little⟩, false, false, true, true⟩) (start 1 0)
      [.accept 0, .on 0 .bound, .on 0 (.poll EPOLLIN), .on 0 (.dispatch .again),
        .on 0 (.read (.data [1])), .on 0 (.call .close), .on 0 .go, .on 0 .ret, .on 0 .go] =
      .fault .nullPointer ∧
    run (step ⟨⟨.linux, .little⟩, true, false, true, true⟩) (start 1 0)
      [.accept 0, .on 0 .bound, .on 0 (.call (.write [1] .again)), .on 0 (.poll EPOLLOUT),
        .on 0 (.dispatch (.sent 1)), .on 0 (.call .close), .on 0 .go, .on 0 .ret, .on 0 .go] =
      .fault .nullPointer ∧
    run (step ⟨⟨.linux, .little⟩, false, false, true, false⟩) (start 2 0)
      [.accept 0, .on 0 .bound, .on 0 (.call (.write [1] .again)), .on 0 (.poll EPOLLOUT),
        .on 0 (.dispatch .error), .on 0 .go, .accept 1, .on 1 .bound,
        .on 1 (.call (.write [2] .again)), .on 1 (.poll EPOLLOUT), .on 1 (.dispatch (.sent 2)),
        .on 1 .go, .on 1 (.call .close), .on 1 .go, .on 0 .go] = .fault .nullPointer := by
  refine ⟨?_, ?_, ?_⟩ <;>
  · exact Outcome.faults_eq_true.mp (by decide +kernel)

end Slot
end Potato
