import Potato.LoopThreads
import Potato.SharedConnection

/-!
# Functors that other threads post

`close` and `write`, called on a thread that is not that of the loop, test `socket_`, read `loop_`
and append a functor to the queue of that loop, one after the other. The functor captures the
connection and not the session: the connection may be bound to another socket when it is
appended, and when it runs. A functor stays in its session when no connection is borrowed while
such calls are under way or functors for it wait.
-/
namespace Potato
open Machine

/-- What `close` and `write` post. -/
inductive Functor where
  | close
  | write (str : Bytes)
  deriving DecidableEq, Repr

/-- The code of a functor, with the answer of `write`. -/
def Functor.act (w : WriteResult) : Functor → Act
  | close => .handleCloseEvent
  | write str => .writeFunctor str w

/-- What user code on the loop thread calls. -/
def Functor.call (w : WriteResult) : Functor → Act
  | close => .close
  | write str => .write str w

/-- A functor in the queue of a loop. `socket` is the number of the socket that the call which
posted it found, and which the code forgets. -/
structure Posted where
  loop : ℕ
  socket : ℕ
  functor : Functor
  deriving DecidableEq, Repr

/-- A call of `close` or `write` behind its test of `socket_`. It has read `loop_` when `loop` is
set. -/
structure Call where
  thread : ℕ
  socket : ℕ
  functor : Functor
  loop : Option ℕ := none
  deriving DecidableEq, Repr

/-- A slot, the functors for it that wait in the queues of the loops, and the calls that are under
way. Loop `i` runs on thread `i`; the other threads have the numbers from `n` on. -/
structure Posting (n : ℕ) where
  slot : Slot n
  pending : List Posted := []
  calling : List Call := []

inductive PostLabel (n : ℕ) where
  /-- A thread that is not that of the loop calls `close` or `write`, which tests `socket_`. -/
  | call (thread : ℕ) (f : Functor)
  /-- A call reads `loop_`, which is not the loop of its thread. -/
  | enter (k : ℕ)
  /-- A call finds the loop of its own thread there, and runs the functor at once. -/
  | direct (i : Fin n) (k : ℕ) (w : WriteResult)
  /-- A call appends its functor to the queue. -/
  | push (k : ℕ)
  /-- A loop thread runs the first functor of its queue. -/
  | run (i : Fin n) (k : ℕ) (w : WriteResult)
  /-- Anything else happens to the slot. -/
  | slot (l : SlotLabel n)
  deriving DecidableEq, Repr

namespace Posting
variable {n : ℕ}

def start (n index : ℕ) : Posting n := { slot := Slot.start n index }

/-- The part of the call that its thread runs, as one step: the loop that gets the functor, if
any. -/
def target (c : TcpConnection) : Functor → Outcome Fault (Option ℕ)
  | .close => c.close
  | .write _ => c.write

/-- `loop_` as the call reads it behind its test of `socket_`. -/
def loopOf (c : TcpConnection) : Functor → Outcome Fault ℕ
  | .close => do
    Outcome.check (c.ioEvent.isSome = true) .nullPointer
    Outcome.check (c.socket.isSome = true) .nullPointer
    Outcome.deref c.loop .nullPointer
  | .write _ => Outcome.deref c.loop .nullPointer

/-- The thread is not in the middle of a call. -/
def Free (p : Posting n) (thread : ℕ) : Bool := p.calling.all (·.thread != thread)

/-- The thread is in user code, and not on the loop of the connection. -/
def Admits (p : Posting n) (thread : ℕ) : Prop :=
  p.Free thread = true ∧ p.slot.conn.loop ≠ some thread ∧
    ∀ i : Fin n, i.val = thread → Session.UserTurn (p.slot.threads i).stack = true

instance (p : Posting n) (thread : ℕ) : Decidable (p.Admits thread) :=
  inferInstanceAs (Decidable (_ ∧ _ ∧ _))

def step (srv : TcpServer) (p : Posting n) : PostLabel n → Outcome Fault (Posting n)
  | .call thread f => do
    Outcome.require (p.Admits thread)
    match p.slot.conn.socket with
    | none => return p
    | some socket => return { p with calling := p.calling ++ [⟨thread, socket.id, f, none⟩] }
  | .enter k =>
    match p.calling[k]? with
    | some ⟨thread, socket, f, none⟩ => do
      let loop ← loopOf p.slot.conn f
      Outcome.require (loop ≠ thread)
      return { p with calling := p.calling.set k ⟨thread, socket, f, some loop⟩ }
    | _ => .refused
  | .direct i k w =>
    match p.calling[k]? with
    | some ⟨thread, _, f, none⟩ => do
      let loop ← loopOf p.slot.conn f
      Outcome.require (thread = i.val ∧ loop = i.val)
      let slot ← p.slot.step srv (.on i (.call (f.call w)))
      return { p with slot := slot, calling := p.calling.eraseIdx k }
    | _ => .refused
  | .push k =>
    match p.calling[k]? with
    | some ⟨_, socket, f, some loop⟩ => return { p with
        pending := p.pending ++ [⟨loop, socket, f⟩]
        calling := p.calling.eraseIdx k }
    | _ => .refused
  | .run i k w =>
    match p.pending[k]? with
    | none => .refused
    | some ⟨loop, _, f⟩ => do
      Outcome.require (loop = i.val ∧ (p.pending.take k).all (·.loop != i.val) = true ∧
        p.Free i.val = true)
      let slot ← p.slot.step srv (.on i (.posted (f.act w)))
      return { p with slot := slot, pending := p.pending.eraseIdx k }
  | .slot (.on _ (.posted _)) => .refused
  | .slot (.on i l) => do
    Outcome.require (p.Free i.val = true)
    let slot ← p.slot.step srv (.on i l)
    return { p with slot := slot }
  | .slot (.reset i) => do
    Outcome.require (p.Free i.val = true)
    let slot ← p.slot.step srv (.reset i)
    return { p with slot := slot }
  | .slot (.accept loop) => do
    let slot ← p.slot.step srv (.accept loop)
    return { p with slot := slot }

/-- The connection is not borrowed while functors for it wait or calls are under way. -/
def Settled (p : Posting n) : PostLabel n → Bool
  | .slot (.accept _) => p.pending.isEmpty && p.calling.isEmpty
  | _ => true

/-- The socket, if the connection has one, is the one with this number. -/
def OnSocket (c : TcpConnection) (id : ℕ) : Prop :=
  ∀ socket, c.socket = some socket → socket.id = id

/-- A functor that would run now finds the socket that its call found, or none. -/
structure InSession (p : Posting n) : Prop where
  sound : p.slot.conn.Sound
  pending : ∀ f ∈ p.pending, OnSocket p.slot.conn f.socket
  calling : ∀ c ∈ p.calling, OnSocket p.slot.conn c.socket

variable {srv : TcpServer} {p q : Posting n} {m m' : Slot n} {i : Fin n} {l : PostLabel n}

theorem OnSocket.stays {c d : TcpConnection} {id : ℕ} (h : OnSocket c id) (hs : c.Stays d) :
    OnSocket d id := by
  intro socket hd
  obtain ⟨socket', hc, hid⟩ := hs.socket socket hd
  exact hid ▸ h socket' hc

/-- No step of a session binds the connection to another socket. -/
theorem session_stays {s t : Session} {l : Label} (h : s.conn.Sound) (hl : l ≠ .accept)
    (hs : s.step srv l = .next t) : s.conn.Stays t.conn := by
  by_cases hp : ∃ ev, l = .poll ev
  · obtain ⟨ev, rfl⟩ := hp
    simp only [Session.step, Outcome.bind_eq_next] at hs
    obtain ⟨-, -, hs⟩ := hs
    split at hs
    · simp only [Outcome.bind_eq_next, Outcome.pure_eq, Outcome.next.injEq] at hs
      obtain ⟨-, -, rfl⟩ := hs
      exact h.refl
    · cases hs
  · rw [Session.step_eq_turn hl (fun ev he => hp ⟨ev, he⟩), Outcome.bind_eq_next] at hs
    obtain ⟨⟨o, s'⟩, hturn, hs⟩ := hs
    rcases Session.turn_next srv hturn with ⟨rfl, hstep⟩ | ⟨act, rfl, hh⟩
    · cases hs
      cases hstep with
      | accepted => exact absurd rfl hl
      | polled | skipped | returned => exact h.refl
      | ran _ he _ hconn => exact hconn ▸ h.perform he
    · simp only [Outcome.bind_eq_next, Outcome.pure_eq, Outcome.next.injEq] at hs
      obtain ⟨e, he, rfl⟩ := hs
      rw [hh.conn] at he
      exact h.perform he

/-- Between two accepts the connection is bound to one socket. -/
theorem slot_stays {l : SlotLabel n} (h : m.conn.Sound) (hl : ∀ loop, l ≠ .accept loop)
    (hs : m.step srv l = .next m') : m.conn.Stays m'.conn := by
  cases l with
  | accept loop => exact absurd rfl (hl loop)
  | on i l =>
    obtain ⟨haccept, ⟨s, hrun, rfl⟩ | ⟨s, hrun, hconn, -⟩⟩ := Slot.step_on_next hs
    · exact session_stays (s := m.view i) h haccept hrun
    · have hsound : TcpConnection.Sound { m.conn with destroyCallback := false } :=
        h.of_buffers rfl rfl
      have hstays := session_stays hsound haccept hrun
      rw [hconn]
      exact ⟨hstays.sound.of_buffers rfl rfl, hstays.socket, hstays.unbound⟩
  | reset i =>
    simp only [Slot.step, TcpConnection.reset, Outcome.bind_eq_next, Outcome.pure_eq,
      Outcome.next.injEq] at hs
    obtain ⟨-, -, e, ⟨-, -, -, -, -, -, rfl⟩, rfl⟩ := hs
    exact h.refl.calling ..

theorem InSession.of_stays {pending : List Posted} {calling : List Call}
    (hs : p.slot.conn.Stays m.conn) (hpending : ∀ f ∈ pending, OnSocket p.slot.conn f.socket)
    (hcalling : ∀ c ∈ calling, OnSocket p.slot.conn c.socket) :
    InSession ⟨m, pending, calling⟩ where
  sound := hs.sound
  pending := fun f hf => (hpending f hf).stays hs
  calling := fun c hc => (hcalling c hc).stays hs

/-- What a step does to the slot and to the functors. -/
inductive Step (srv : TcpServer) (p : Posting n) : PostLabel n → Posting n → Prop
  | missed {thread : ℕ} {f : Functor} : p.slot.conn.socket = none → Step srv p (.call thread f) p
  | called {thread : ℕ} {f : Functor} {socket : Socket} : p.slot.conn.socket = some socket →
      Step srv p (.call thread f) { p with calling := p.calling ++ [⟨thread, socket.id, f, none⟩] }
  | entered {k loop : ℕ} {c : Call} : p.calling[k]? = some c →
      loopOf p.slot.conn c.functor = .next loop →
      Step srv p (.enter k) { p with calling := p.calling.set k { c with loop := some loop } }
  | direct {i : Fin n} {k : ℕ} {w : WriteResult} {c : Call} {slot : Slot n} :
      p.calling[k]? = some c → loopOf p.slot.conn c.functor = .next i.val →
      p.slot.step srv (.on i (.call (c.functor.call w))) = .next slot →
      Step srv p (.direct i k w) { p with slot := slot, calling := p.calling.eraseIdx k }
  | pushed {k loop : ℕ} {c : Call} : p.calling[k]? = some c → c.loop = some loop →
      Step srv p (.push k)
        { p with
          pending := p.pending ++ [⟨loop, c.socket, c.functor⟩]
          calling := p.calling.eraseIdx k }
  | ran {i : Fin n} {k : ℕ} {w : WriteResult} {f : Posted} {slot : Slot n} :
      p.pending[k]? = some f → f.loop = i.val →
      p.slot.step srv (.on i (.posted (f.functor.act w))) = .next slot →
      Step srv p (.run i k w) { p with slot := slot, pending := p.pending.eraseIdx k }
  | slot {l : SlotLabel n} {slot : Slot n} : (∀ i act, l ≠ .on i (.posted act)) →
      p.slot.step srv l = .next slot → Step srv p (.slot l) { p with slot := slot }

theorem step_next (hs : p.step srv l = .next q) : Step srv p l q := by
  cases l with
  | call thread f =>
    simp only [step, Outcome.bind_eq_next] at hs
    obtain ⟨-, -, hs⟩ := hs
    cases hsocket : p.slot.conn.socket with
    | none =>
      simp only [hsocket, Outcome.pure_eq, Outcome.next.injEq] at hs
      exact hs ▸ .missed hsocket
    | some socket =>
      simp only [hsocket, Outcome.pure_eq, Outcome.next.injEq] at hs
      exact hs ▸ .called hsocket
  | enter k =>
    simp only [step] at hs
    split at hs
    · next hget =>
      simp only [Outcome.bind_eq_next, Outcome.pure_eq, Outcome.next.injEq] at hs
      obtain ⟨loop, hloop, -, -, rfl⟩ := hs
      exact .entered hget hloop
    · cases hs
  | direct i k w =>
    simp only [step] at hs
    split at hs
    · next hget =>
      simp only [Outcome.bind_eq_next, Outcome.require_eq_next, Outcome.pure_eq,
        Outcome.next.injEq] at hs
      obtain ⟨loop, hloop, -, ⟨-, hi⟩, slot, hslot, rfl⟩ := hs
      exact .direct hget (hi ▸ hloop) hslot
    · cases hs
  | push k =>
    simp only [step] at hs
    split at hs
    · next hget =>
      simp only [Outcome.pure_eq, Outcome.next.injEq] at hs
      exact hs ▸ .pushed hget rfl
    · cases hs
  | run i k w =>
    simp only [step] at hs
    split at hs
    · cases hs
    · next hget =>
      simp only [Outcome.bind_eq_next, Outcome.require_eq_next, Outcome.pure_eq,
        Outcome.next.injEq] at hs
      obtain ⟨-, ⟨hi, -⟩, slot, hslot, rfl⟩ := hs
      exact .ran hget hi hslot
  | slot l =>
    cases l with
    | accept loop =>
      simp only [step, Outcome.bind_eq_next, Outcome.pure_eq, Outcome.next.injEq] at hs
      obtain ⟨slot, hslot, rfl⟩ := hs
      exact .slot (by simp) hslot
    | reset i =>
      simp only [step, Outcome.bind_eq_next, Outcome.pure_eq, Outcome.next.injEq] at hs
      obtain ⟨-, -, slot, hslot, rfl⟩ := hs
      exact .slot (by simp) hslot
    | on i l =>
      cases l with
      | posted act => cases hs
      | _ =>
        simp only [step, Outcome.bind_eq_next, Outcome.pure_eq, Outcome.next.injEq] at hs
        obtain ⟨-, -, slot, hslot, rfl⟩ := hs
        exact .slot (by simp) hslot

theorem InSession.start (index : ℕ) : InSession (start n index) where
  sound := .fresh index
  pending := by simp [Posting.start]
  calling := by simp [Posting.start]

/-- A new session finds nothing of an earlier one on its way. -/
theorem InSession.accept {loop : Fin n} (h : InSession p) (hpending : p.pending = [])
    (hcalling : p.calling = []) (hs : p.slot.step srv (.accept loop) = .next m) :
    InSession { p with slot := m } := by
  obtain ⟨-, -, rfl⟩ := Slot.step_accept_next hs
  refine ⟨h.sound.of_buffers rfl rfl, fun f hf => ?_, fun c hc => ?_⟩
  · rw [hpending] at hf
    cases hf
  · rw [hcalling] at hc
    cases hc

/-- A call that goes on stays with the socket that it has found. -/
theorem InSession.step (h : InSession p) (hsettled : Settled p l = true)
    (hs : p.step srv l = .next q) : InSession q := by
  cases step_next hs with
  | missed => exact h
  | called hsocket =>
    refine InSession.of_stays h.sound.refl h.pending fun c hc => ?_
    rcases List.mem_append.mp hc with hc | hc
    · exact h.calling c hc
    · rw [List.mem_singleton] at hc
      subst hc
      intro socket' hs'
      exact congrArg Socket.id (Option.some.inj (hs'.symm.trans hsocket))
  | entered hget _ =>
    refine InSession.of_stays h.sound.refl h.pending fun c hc => ?_
    rcases List.mem_or_eq_of_mem_set hc with hc | rfl
    · exact h.calling c hc
    · have hfound := h.calling _ (List.mem_of_getElem? hget)
      exact hfound
  | direct _ _ hslot =>
    exact InSession.of_stays (slot_stays h.sound (by simp) hslot) h.pending
      fun c hc => h.calling c (List.mem_of_mem_eraseIdx hc)
  | pushed hget _ =>
    refine InSession.of_stays h.sound.refl (fun f hf => ?_)
      fun c hc => h.calling c (List.mem_of_mem_eraseIdx hc)
    rcases List.mem_append.mp hf with hf | hf
    · exact h.pending f hf
    · rw [List.mem_singleton] at hf
      subst hf
      exact h.calling _ (List.mem_of_getElem? hget)
  | ran _ _ hslot =>
    exact InSession.of_stays (slot_stays h.sound (by simp) hslot)
      (fun f hf => h.pending f (List.mem_of_mem_eraseIdx hf)) h.calling
  | @slot l _ _ hslot =>
    cases l with
    | accept loop =>
      simp only [Settled, Bool.and_eq_true, List.isEmpty_iff] at hsettled
      exact h.accept hsettled.1 hsettled.2 hslot
    | _ => exact InSession.of_stays (slot_stays h.sound (by simp) hslot) h.pending h.calling

/-- A functor that finds no socket does nothing, nor does the call itself. -/
theorem perform_idle {c : TcpConnection} {act : Act} {f : Functor} {w : WriteResult}
    (ha : act = f.act w ∨ act = f.call w) (hsocket : c.socket = none) :
    c.perform srv.platform act = .next { conn := c } ∧ (act == .resetTail) = false := by
  cases f <;> rcases ha with rfl | rfl <;>
  · simp [Functor.act, Functor.call, TcpConnection.perform, TcpConnection.handleCloseEvent,
      TcpConnection.writeFunctor, TcpConnection.close, TcpConnection.write, hsocket]

theorem session_idle {s t : Session} {f : Functor} {w : WriteResult} {l : Label}
    (hl : l = .call (f.call w) ∨ l = .posted (f.act w)) (hsocket : s.conn.socket = none)
    (hs : s.step srv l = .next t) : t = s := by
  rw [Session.step_eq_turn (by rcases hl with rfl | rfl <;> simp)
    (by rcases hl with rfl | rfl <;> simp), Outcome.bind_eq_next] at hs
  obtain ⟨⟨o, s'⟩, hturn, hs⟩ := hs
  obtain ⟨act, ha, rfl, rfl⟩ : ∃ act, (act = f.act w ∨ act = f.call w) ∧ o = some act ∧ s' = s := by
    rcases hl with rfl | rfl <;>
    · simp only [Session.turn, Outcome.bind_eq_next, Outcome.require_eq_next, Outcome.pure_eq,
        Outcome.next.injEq, Prod.mk.injEq] at hturn
      obtain ⟨-, -, rfl, rfl⟩ := hturn
      simp
  obtain ⟨hperform, htail⟩ := @perform_idle srv s'.conn act f w ha hsocket
  simp only [hperform, Outcome.next_bind, Outcome.pure_eq, Outcome.next.injEq] at hs
  simp [← hs, Session.after, htail]

end Posting
end Potato
