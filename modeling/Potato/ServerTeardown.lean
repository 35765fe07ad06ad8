import Potato.ConnectionPool
import Potato.LoopLife

/-!
# Taking a server down

`start` returns when user code stops the main loop, which it gets from `getLoop` when
the server has no workers. The members of the server are then destroyed, the
connections first. Nothing closes the sessions before that.
-/
namespace Potato
open Machine

/-- The destructor of a connection. -/
def TcpConnection.destroy (c : TcpConnection) : Outcome Fault Unit := do
  Outcome.check (c.ioEvent = none) .assertion
  Outcome.check (c.socket = none) .assertion

/-- Where the thread of the main loop is. -/
inductive ServerPc where
  | created
  /-- in `start` -/
  | running
  /-- `start` has returned -/
  | returned
  deriving DecidableEq, Repr

/-- The members of a `TcpServer` that have a destructor: the main loop, the event of the acceptor
with the kernel's entry for the listening socket, the number of workers, and the pool. -/
structure ServerState where
  pc : ServerPc := .created
  loop : LoopLife
  ioEvent : Registration
  threadNums : ℕ
  pool : ConnectionPool
  deriving DecidableEq

inductive ServerLabel where
  | start
  /-- Something happens in the pool or in one of its connections. -/
  | pool (l : PoolLabel)
  /-- User code calls `stopLoop` on the loop of a connection. -/
  | stopLoop (index : ℕ)
  /-- `while (looping_)` ends. -/
  | ret
  deriving DecidableEq, Repr

/-- What user code can still do to a connection behind `start`. -/
def PoolLabel.afterStart : PoolLabel → Bool
  | .work _ (.call _) | .work _ .ret | .work _ .go | .back _ => true
  | _ => false

/-- The loop thread is in none of the callbacks of a connection, and has none to run. -/
def Session.Idle (s : Session) : Prop := s.stack = [] ∧ s.bindPosted = false ∧ s.reported = none

instance (s : Session) : Decidable s.Idle := inferInstanceAs (Decidable (_ ∧ _ ∧ _))

namespace ServerState

/-- The constructor, and `setThreadNum`. -/
def construct (srv : TcpServer) (threadNums : ℕ) : ServerState where
  loop := .construct srv.etMode
  ioEvent := { event := { id := 0, etMode := srv.etMode, readCallback := true } }
  threadNums := threadNums
  pool := .start

/-- `start` up to the loop of `startLoop`. -/
def start (s : ServerState) : Outcome Fault ServerState := do
  let ioEvent ← s.ioEvent.step .expectReading
  let loop ← s.loop.startLoop
  return { s with pc := .running, ioEvent := ioEvent, loop := loop }

def step (srv : TcpServer) (s : ServerState) : ServerLabel → Outcome Fault ServerState
  | .start => do
    Outcome.require (s.pc ≠ .running)
    s.start
  | .pool l => do
    Outcome.require (s.pc = .running ∨ s.pc = .returned ∧ l.afterStart = true)
    let pool ← s.pool.step srv l
    return { s with pool := pool }
  | .stopLoop index =>
    match s.pool.connectionPool[index]? with
    | none => .refused
    | some c => do
      Outcome.require (s.pc ≠ .created ∧ Session.UserTurn c.stack = true)
      let _ ← Outcome.deref c.conn.loop .nullPointer
      -- with workers, this is the loop of one of them
      if s.threadNums = 0 then
        let loop ← s.loop.stopLoop
        return { s with loop := loop }
      else return s
  | .ret => do
    Outcome.require (s.pc = .running ∧ s.loop.looping = false)
    Outcome.require (s.pool.pc = .idle ∧ s.pool.returning = [] ∧
      ∀ c ∈ s.pool.connectionPool, c.Idle)
    return { s with pc := .returned }

/-- The destructors of the connections. -/
def destroyPool : List Session → Outcome Fault Unit
  | [] => return ()
  | c :: cs => do
    c.conn.destroy
    destroyPool cs

/-- The destructor, behind `start`: the connections, the pool of loops, the acceptor, and the main
loop. -/
def destroy (s : ServerState) : Outcome Fault (Registration × LoopLife) := do
  destroyPool s.pool.connectionPool
  -- no loop to stop and no thread to join
  Outcome.require (s.threadNums = 0)
  let ioEvent ← s.ioEvent.step .removeThisEvent
  let loop ← s.loop.destroy
  return (ioEvent, loop)

/-- The destructor runs through, and no event is left in the watcher of the main loop. -/
def TornDown (s : ServerState) : Prop :=
  ∃ ioEvent loop, s.destroy = .next (ioEvent, loop) ∧ ioEvent.entry = none ∧
    loop.wakeupEvent.entry = none

end ServerState

namespace Session
variable {srv : TcpServer} {s t : Session} {l : Label}

/-- A session is open from `bindSocket` to the end of `reset`. -/
def Open (s : Session) : Prop := s.conn.isConnected = true ∨ .resetTail ∈ s.stack

/-- A socket that is closed waits for `reset`. -/
def Settled (s : Session) : Prop :=
  s.conn.socket ≠ none → s.conn.isConnected = false → .resetTail ∈ s.stack

theorem Turn.mem_rest {act : Act} {rest : List Frame} (h : Turn s l act rest)
    (hact : act ≠ .resetTail) (hm : .resetTail ∈ s.stack) : .resetTail ∈ rest := by
  have hcount := h.count_resetTail
  rw [if_neg hact, Nat.add_zero] at hcount
  rwa [← List.count_pos_iff, ← hcount, List.count_pos_iff]

theorem Settled.step (h : Settled s) (hi : Inv srv s) (hs : step srv s l = .next t) :
    Settled t := by
  cases step_next hi.held hs with
  | accepted => exact (fun _ hno => nomatch hno)
  | polled | skipped => exact h
  | returned hstack =>
    intro hsocket hclosed
    have hmem := h hsocket hclosed
    simpa [hstack] using hmem
  | @ran _ act rest e _ hturn _ hm hconn hstack =>
    have same : e.conn.socket = s.conn.socket → act ≠ .resetTail → Settled t := by
      intro hsame hact hsocket hclosed
      rw [hconn, hsame] at hsocket
      rw [hconn, TcpConnection.isConnected_congr hsame] at hclosed
      rw [hstack]
      exact List.mem_append_right _ (hturn.mem_rest hact (h hsocket hclosed))
    cases hm.shape with
    | kept hsame _ _ _ hact => exact same hsame hact
    | registered hact hsame => exact same hsame (by rw [hact]; simp)
    | closed _ _ _ _ hcount =>
      intro _ _
      rw [hstack]
      exact List.mem_append_left _ (List.count_pos_iff.mp (by omega))
    | unbound _ he =>
      intro hsocket
      rw [hconn, he] at hsocket
      exact absurd rfl hsocket

/-- A connection can be destroyed exactly when it has no open session. -/
theorem destroy_iff (hi : Inv srv s) (h : Settled s) :
    s.conn.destroy = .next () ↔ ¬ s.Open := by
  simp only [TcpConnection.destroy, Outcome.bind_eq_next, Outcome.check_eq_next, Open]
  constructor
  · rintro ⟨-, -, hsocket⟩ (hlive | hmem)
    · simp [TcpConnection.isConnected, hsocket] at hlive
    · exact (hi.closing hmem).1 hsocket
  · intro hno
    push Not at hno
    have hsocket : s.conn.socket = none := by
      by_contra hsocket
      exact hno.2 (h hsocket (by simpa using hno.1))
    rcases hi.held.pointers with ⟨-, hevent, -⟩ | ⟨event, socket, hb, -⟩
    · exact ⟨(), hevent, hsocket⟩
    · rw [hb.socket_eq] at hsocket
      cases hsocket

end Session

namespace ConnectionPool
variable {srv : TcpServer} {p q : ConnectionPool} {l : PoolLabel}

/-- Every slot is settled. -/
def Settled (p : ConnectionPool) : Prop :=
  ∀ (i : ℕ) (s : Session), p.connectionPool[i]? = some s → s.Settled

theorem Settled.emplace (h : Settled p) (n index : ℕ) : Settled (emplace n index p) := by
  induction n generalizing index p with
  | zero => exact h
  | succ n ih =>
    refine ih (fun i s hs => ?_) _
    rcases getElem?_snoc hs with hs | ⟨-, rfl⟩
    · exact h i s hs
    · exact fun hsocket => absurd rfl hsocket

theorem Settled.start : Settled start :=
  Settled.emplace (fun _ _ hs => absurd hs (by simp)) slots 0

theorem Settled.set (h : Settled p) {i : ℕ} {t : Session} (ht : t.Settled) :
    ∀ (j : ℕ) (s : Session), (p.connectionPool.set i t)[j]? = some s → s.Settled := by
  intro j s hs
  rcases getElem?_of_set hs with ⟨-, rfl⟩ | ⟨-, hs⟩
  · exact ht
  · exact h j s hs

theorem Settled.step (h : Settled p) (hi : Inv srv p) (hs : step srv p l = .next q) :
    Settled q := by
  cases l with
  | accept =>
    simp only [ConnectionPool.step, Outcome.bind_eq_next, Outcome.pure_eq,
      Outcome.next.injEq] at hs
    obtain ⟨-, -, rfl⟩ := hs
    exact h
  | refill =>
    simp only [ConnectionPool.step, Outcome.bind_eq_next, Outcome.pure_eq,
      Outcome.next.injEq] at hs
    obtain ⟨-, -, r, hr, rfl⟩ := hs
    have key : ∀ r : ConnectionPool, r.Settled → Settled { r with pc := .take } := fun _ hr => hr
    rcases refill_next hr with ⟨-, rfl⟩ | rfl
    · exact key _ h
    · exact key _ (h.emplace _ _)
  | take index =>
    simp only [ConnectionPool.step, Outcome.bind_eq_next, Outcome.pure_eq,
      Outcome.next.injEq] at hs
    obtain ⟨-, -, -, -, -, -, rfl⟩ := hs
    exact h
  | bind =>
    simp only [ConnectionPool.step] at hs
    split at hs
    · simp only [Outcome.bind_eq_next, Outcome.pure_eq, Outcome.next.injEq] at hs
      obtain ⟨s, -, t, ht, rfl⟩ := hs
      obtain ⟨-, rfl⟩ := bindSlot_next ht
      refine h.set ?_
      intro _ hno
      cases hno
    · cases hs
  | work index l =>
    simp only [ConnectionPool.step] at hs
    split at hs
    · cases hs
    · next s hget =>
      simp only [Outcome.bind_eq_next, Outcome.pure_eq, Outcome.next.injEq] at hs
      obtain ⟨-, -, t, ht, rfl⟩ := hs
      exact h.set ((h index s hget).step (hi.slot index s hget).1 ht)
  | back index =>
    simp only [ConnectionPool.step] at hs
    split at hs
    · cases hs
    · simp only [Outcome.bind_eq_next, Outcome.pure_eq, Outcome.next.injEq] at hs
      obtain ⟨-, -, rfl⟩ := hs
      exact h

end ConnectionPool

namespace ServerState
variable {srv : TcpServer} {s t : ServerState} {l : ServerLabel} {n : ℕ}

theorem destroyPool_iff {cs : List Session} :
    destroyPool cs = .next () ↔ ∀ c ∈ cs, c.conn.destroy = .next () := by
  induction cs with
  | nil => simp [destroyPool]
  | cons c cs ih => simp [destroyPool, ih, Unique.exists_iff]

/-- The event of the acceptor, by where the thread of the main loop is. -/
def listenEventAt (etMode : Bool) : ServerPc → Registration
  | .created => (LoopLife.construct etMode).wakeupEvent
  | .running | .returned => (LoopLife.stopped etMode).wakeupEvent

/-- The main loop, by where its thread is. -/
def loopAt (etMode looping : Bool) : ServerPc → LoopLife
  | .created => .construct etMode
  | .running => { LoopLife.stopped etMode with looping := looping }
  | .returned => .stopped etMode

/-- The invariant of a server. -/
structure Inv (srv : TcpServer) (s : ServerState) : Prop where
  pool : ConnectionPool.Inv srv s.pool
  settled : s.pool.Settled
  loop_eq : s.loop = loopAt srv.etMode s.loop.looping s.pc
  ioEvent_eq : s.ioEvent = listenEventAt srv.etMode s.pc
  /-- With workers, nobody gets hold of the main loop. -/
  runs : s.threadNums ≠ 0 → s.pc = .created ∨ s.pc = .running ∧ s.loop.looping = true

theorem Inv.construct (srv : TcpServer) (n : ℕ) : Inv srv (construct srv n) where
  pool := .start
  settled := .start
  loop_eq := rfl
  ioEvent_eq := rfl
  runs := fun _ => .inl rfl

/-- `start` can be called once. -/
theorem Inv.start (h : Inv srv s) (hs : s.start = .next t) : Inv srv t := by
  have hevent := h.ioEvent_eq
  have hloop := h.loop_eq
  by_cases hpc : s.pc = .created
  · rw [hpc] at hevent hloop
    simp only [ServerState.start, hevent, hloop, listenEventAt, loopAt,
      LoopLife.expectReading_construct, LoopLife.startLoop_construct, Outcome.next_bind,
      Outcome.pure_eq, Outcome.next.injEq] at hs
    subst hs
    exact ⟨h.pool, h.settled, rfl, rfl, fun _ => .inr ⟨rfl, rfl⟩⟩
  · have hagain : s.ioEvent.step .expectReading = .fault .assertion := by
      rw [hevent]
      cases hp : s.pc with
      | created => exact absurd hp hpc
      | running | returned => exact LoopLife.expectReading_stopped srv.etMode
    simp [ServerState.start, hagain] at hs

theorem Inv.step (h : Inv srv s) (hs : step srv s l = .next t) : Inv srv t := by
  cases l with
  | start =>
    simp only [ServerState.step, Outcome.bind_eq_next] at hs
    obtain ⟨-, -, hs⟩ := hs
    exact h.start hs
  | pool l =>
    simp only [ServerState.step, Outcome.bind_eq_next, Outcome.pure_eq, Outcome.next.injEq] at hs
    obtain ⟨-, -, pool, hpool, rfl⟩ := hs
    exact ⟨h.pool.step hpool, h.settled.step h.pool hpool, h.loop_eq, h.ioEvent_eq, h.runs⟩
  | stopLoop index =>
    simp only [ServerState.step] at hs
    split at hs
    · cases hs
    · simp only [Outcome.bind_eq_next, Outcome.require_eq_next] at hs
      obtain ⟨-, ⟨hpc, -⟩, -, -, hs⟩ := hs
      split_ifs at hs with hn
      · simp only [LoopLife.stopLoop, Outcome.bind_eq_next, Outcome.check_eq_next,
          Outcome.pure_eq, Outcome.next.injEq] at hs
        obtain ⟨loop, ⟨-, -, rfl⟩, rfl⟩ := hs
        refine ⟨h.pool, h.settled, ?_, h.ioEvent_eq, fun hno => absurd hn hno⟩
        dsimp only
        rw [h.loop_eq]
        cases hp : s.pc with
        | created => exact absurd hp hpc
        | running | returned => rfl
      · cases hs
        exact h
  | ret =>
    simp only [ServerState.step, Outcome.bind_eq_next, Outcome.require_eq_next, Outcome.pure_eq,
      Outcome.next.injEq] at hs
    obtain ⟨-, ⟨hpc, hlooping⟩, -, -, rfl⟩ := hs
    refine ⟨h.pool, h.settled, ?_, ?_, fun hn => ?_⟩
    · dsimp only
      rw [h.loop_eq, hpc, hlooping]
      rfl
    · dsimp only
      rw [h.ioEvent_eq, hpc]
      rfl
    · rcases h.runs hn with hno | ⟨-, hno⟩
      · rw [hpc] at hno
        cases hno
      · rw [hlooping] at hno
        cases hno

/-- Behind `start`, the events of the acceptor and of the main loop are removed in time. -/
theorem Inv.tornDown_iff (h : Inv srv s) (hpc : s.pc = .returned) :
    s.TornDown ↔ ∀ c ∈ s.pool.connectionPool, c.conn.destroy = .next () := by
  obtain ⟨r, hr, hnone⟩ := LoopLife.removeThisEvent_stopped srv.etMode
  have hevent : s.ioEvent.step .removeThisEvent = .next r := by
    rw [h.ioEvent_eq, hpc]
    exact hr
  have hloop : s.loop.destroy = .next { wakeupEvent := r } := by
    rw [h.loop_eq, hpc]
    simp only [loopAt, LoopLife.destroy, hr]
    rfl
  have hnums : s.threadNums = 0 := by
    by_contra hn
    rcases h.runs hn with hno | ⟨hno, -⟩ <;> rw [hpc] at hno <;> cases hno
  rw [← destroyPool_iff]
  constructor
  · rintro ⟨ioEvent, loop, hs, -, -⟩
    simp only [destroy, Outcome.bind_eq_next] at hs
    obtain ⟨u, hpool, -⟩ := hs
    exact hpool
  · intro hpool
    exact ⟨r, { wakeupEvent := r }, by simp [destroy, hpool, hnums, hevent, hloop], hnone, hnone⟩

/-- In every state that a server reaches behind `start`, its destructor runs through, with every
connection unbound and every event removed in time, exactly when no session is open. -/
theorem teardown_iff (srv : TcpServer) (n : ℕ) (ls : List ServerLabel) (s : ServerState)
    (run_eq : run (step srv) (construct srv n) ls = .next s) (returned : s.pc = .returned) :
    s.TornDown ↔ ∀ c ∈ s.pool.connectionPool, ¬ c.Open := by
  have h : Inv srv s := run_invariant (fun _ _ _ h hs => Inv.step h hs) (.construct srv n) run_eq
  rw [h.tornDown_iff returned]
  refine forall₂_congr fun c hc => ?_
  obtain ⟨i, hi⟩ := List.getElem?_of_mem hc
  exact Session.destroy_iff (h.pool.slot i c hi).1 (h.settled i c hi)

/-- A session that the peer closed: user code stops the main loop when it hears of it. -/
theorem teardown_closed : ∃ s : ServerState, s.pc = .returned ∧
    (s.TornDown ↔ ∀ c ∈ s.pool.connectionPool, ¬ c.Open) := by
  obtain ⟨s, hs, hc⟩ := Outcome.yields_eq_true.mp (show
    (run (step ⟨⟨.linux, .little⟩, false, true, true, false⟩)
      (construct ⟨⟨.linux, .little⟩, false, true, true, false⟩ 0)
      [.start, .pool .accept, .pool (.take 7), .pool .bind, .pool (.work 7 .bound),
        .pool (.work 7 .ret), .pool (.work 7 (.poll EPOLLHUP)), .pool (.work 7 (.dispatch .again)),
        .stopLoop 7, .pool (.work 7 .ret), .pool (.work 7 .go), .pool (.back 7), .ret]).yields
      (fun s => decide (s.pc = .returned)) = true by decide +kernel)
  exact ⟨s, of_decide_eq_true hc, teardown_iff _ 0 _ s hs (of_decide_eq_true hc)⟩

/-- User code stops the main loop when it hears of a new connection. -/
theorem teardown_open : ∃ s,
    run (step ⟨⟨.linux, .little⟩, false, true, true, false⟩)
      (construct ⟨⟨.linux, .little⟩, false, true, true, false⟩ 0)
      [.start, .pool .accept, .pool (.take 7), .pool .bind, .pool (.work 7 .bound), .stopLoop 7,
        .pool (.work 7 .ret), .ret] = .next s ∧
      s.pc = .returned ∧ s.destroy = .fault .assertion := by
  obtain ⟨s, hs, hc⟩ := Outcome.yields_eq_true.mp (show
    (run (step ⟨⟨.linux, .little⟩, false, true, true, false⟩)
      (construct ⟨⟨.linux, .little⟩, false, true, true, false⟩ 0)
      [.start, .pool .accept, .pool (.take 7), .pool .bind, .pool (.work 7 .bound), .stopLoop 7,
        .pool (.work 7 .ret), .ret]).yields
      (fun s => decide (s.pc = .returned) && s.destroy.faults .assertion) = true by
    decide +kernel)
  obtain ⟨hpc, hf⟩ := Bool.and_eq_true_iff.mp hc
  exact ⟨s, hs, of_decide_eq_true hpc, Outcome.faults_eq_true.mp hf⟩

end ServerState
end Potato
