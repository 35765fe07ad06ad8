import Potato.OutgoingStream
import Potato.PostedFunctors
import Potato.RunInLoop

/-!
# Messages from many threads

A connection and the one loop of its server. `write` is run at once on the loop thread
and queued by every other one, and the queue is all that the threads share. What
goes out is the messages as a whole, those of each thread in the order in which it
wrote them, also across the direct and the buffered path of the connection.
-/
namespace Potato
open Words Machine

/-- The bytes that a functor is to send. -/
def Functor.message : Functor → Bytes
  | close => []
  | write str => str

/-- The loop thread itself goes on: it is not in the middle of code of a connection. -/
def LoopLabel.OfLoop : LoopLabel → Bool
  | test | wait _ | drain | handled | swap | done => true
  | functor | submit _ _ | stopHere | stop _ | go _ => false

/-- A connection and its loop. -/
structure Looped where
  loop : EventLoop
  session : Session

inductive LoopedLabel where
  /-- A thread calls `write` or `close` of the connection. -/
  | call (thread : Option ℕ) (functor : ℕ) (w : WriteResult)
  /-- The next functor of the batch runs. -/
  | functor (w : WriteResult)
  /-- Something else happens in the loop, or to another of its connections. -/
  | loop (l : LoopLabel)
  /-- Something else happens to the connection. -/
  | session (l : Label)
  deriving DecidableEq, Repr

namespace Looped

def start (etMode : Bool) (threads index : ℕ) : Looped where
  loop := .start etMode threads
  session := .start index

section Code
-- what the functors do to the connection, by their numbers: some are for another one
variable (code : ℕ → Option Functor)

/-- The loop thread is not in the middle of code of this connection. -/
def LoopAdmits (c : Looped) : LoopLabel → Bool
  | .functor => false
  | .submit _ functor => (code functor).isNone
  | l => !l.OfLoop || c.session.stack.isEmpty

/-- The loop thread is where the code of the connection runs. -/
def SessionAdmits (c : Looped) : Label → Bool
  | .accept => true
  | .poll _ => c.loop.pc == .wait
  | .posted _ => false
  | .call (.take _) => c.loop.UserTurn
  | .call _ => false
  | _ => c.loop.UserTurn

def step (srv : TcpServer) (c : Looped) : LoopedLabel → Outcome Fault Looped
  | .call thread functor w =>
    match code functor with
    | none => .refused
    | some f => do
      match ← Posting.target c.session.conn f with
      | none => return c
      | some _ =>
        let loop ← c.loop.step (.submit thread functor)
        match thread with
        | none => return { loop := loop, session := ← c.session.step srv (.call (f.call w)) }
        | some _ => return { c with loop := loop }
  | .functor w => do
    Outcome.require (c.session.stack = [])
    match c.loop.functors with
    | [] => .refused
    | task :: _ =>
      let loop ← c.loop.step .functor
      match code task.functor with
      | none => return { c with loop := loop }
      | some f => return { loop := loop, session := ← c.session.step srv (.posted (f.act w)) }
  | .loop l => do
    Outcome.require (c.LoopAdmits code l = true)
    return { c with loop := ← c.loop.step l }
  | .session l => do
    Outcome.require (c.SessionAdmits l = true)
    return { c with session := ← c.session.step srv l }

/-- The message of a task. -/
def message (task : Task) : Bytes := (code task.functor).elim [] Functor.message

/-- The tasks that are still to run. -/
def waiting (c : Looped) : List Task := c.loop.functors ++ c.loop.pendingFunctors

/-- The tasks that have started since the first `n`. -/
def startedSince (n : ℕ) (c : Looped) : List Task := (c.loop.started.drop n).map Prod.fst

variable {code} {srv : TcpServer} {c d : Looped} {l : LoopedLabel}

/-- What a step does to the loop and to the session. -/
inductive Step (srv : TcpServer) (c : Looped) : LoopedLabel → Looped → Prop
  | missed {thread : Option ℕ} {functor : ℕ} {w : WriteResult} :
      Step srv c (.call thread functor w) c
  | inline {functor : ℕ} {w : WriteResult} {f : Functor} {d : Looped} : code functor = some f →
      c.loop.step (.submit none functor) = .next d.loop →
      c.session.step srv (.call (f.call w)) = .next d.session →
      Step srv c (.call none functor w) d
  | queued {j functor : ℕ} {w : WriteResult} {loop : EventLoop} :
      c.loop.step (.submit (some j) functor) = .next loop →
      Step srv c (.call (some j) functor w) { c with loop := loop }
  | foreign {w : WriteResult} {task : Task} {rest : List Task} {loop : EventLoop} :
      c.loop.functors = task :: rest → code task.functor = none →
      c.loop.step .functor = .next loop → Step srv c (.functor w) { c with loop := loop }
  | posted {w : WriteResult} {task : Task} {rest : List Task} {f : Functor} {d : Looped} :
      c.loop.functors = task :: rest → code task.functor = some f →
      c.loop.step .functor = .next d.loop →
      c.session.step srv (.posted (f.act w)) = .next d.session → Step srv c (.functor w) d
  | loop {l : LoopLabel} {loop : EventLoop} : c.LoopAdmits code l = true →
      c.loop.step l = .next loop → Step srv c (.loop l) { c with loop := loop }
  | session {l : Label} {session : Session} : c.SessionAdmits l = true →
      c.session.step srv l = .next session → Step srv c (.session l) { c with session := session }

theorem step_next (h : step code srv c l = .next d) : @Step code srv c l d := by
  cases l with
  | call thread functor w =>
    simp only [step] at h
    split at h
    · cases h
    · next f hf =>
      simp only [Outcome.bind_eq_next] at h
      obtain ⟨target, -, h⟩ := h
      cases target with
      | none =>
        cases h
        exact .missed
      | some _ =>
        simp only [Outcome.bind_eq_next] at h
        obtain ⟨loop, hloop, h⟩ := h
        cases thread with
        | none =>
          simp only [Outcome.bind_eq_next, Outcome.pure_eq, Outcome.next.injEq] at h
          obtain ⟨session, hsession, rfl⟩ := h
          exact .inline hf hloop hsession
        | some j =>
          cases h
          exact .queued hloop
  | functor w =>
    simp only [step, Outcome.bind_eq_next] at h
    obtain ⟨-, -, h⟩ := h
    split at h
    · cases h
    · next task rest hfunctors =>
      simp only [Outcome.bind_eq_next] at h
      obtain ⟨loop, hloop, h⟩ := h
      split at h
      · next hcode =>
        cases h
        exact .foreign hfunctors hcode hloop
      · next f hcode =>
        simp only [Outcome.bind_eq_next, Outcome.pure_eq, Outcome.next.injEq] at h
        obtain ⟨session, hsession, rfl⟩ := h
        exact .posted hfunctors hcode hloop hsession
  | loop l =>
    simp only [step, Outcome.bind_eq_next, Outcome.require_eq_next, Outcome.pure_eq,
      Outcome.next.injEq] at h
    obtain ⟨-, hl, loop, hloop, rfl⟩ := h
    exact .loop hl hloop
  | session l =>
    simp only [step, Outcome.bind_eq_next, Outcome.require_eq_next, Outcome.pure_eq,
      Outcome.next.injEq] at h
    obtain ⟨-, hl, session, hsession, rfl⟩ := h
    exact .session hl hsession

end Code
end Looped

namespace EventLoop
variable {e e' : EventLoop} {l : LoopLabel}

/-- What a step starts. -/
inductive Starts (e : EventLoop) : LoopLabel → List (Task × Option ℕ) → Prop
  | nothing {l : LoopLabel} : l ≠ .functor → (∀ functor, l ≠ .submit none functor) → Starts e l []
  | batch {task : Task} {rest : List Task} : e.functors = task :: rest →
      Starts e .functor [(task, none)]
  | inline {functor : ℕ} : Starts e (.submit none functor) [(⟨none, functor⟩, none)]

theorem starts_next (h : step e l = .next e') :
    ∃ new, Starts e l new ∧ e'.started = e.started ++ new := by
  cases step_next h with
  | functor _ hf => exact ⟨_, .batch hf, rfl⟩
  | inline => exact ⟨_, .inline, rfl⟩
  | drain =>
    refine ⟨_, .nothing (by simp) (by simp), ?_⟩
    unfold readWakeup
    split_ifs <;> exact (List.append_nil _).symm
  | _ => exact ⟨_, .nothing (by simp) (by simp), (List.append_nil _).symm⟩

theorem submitted_prefix (h : step e l = .next e') : e.submitted <+: e'.submitted := by
  cases step_next h with
  | push | inline => exact List.prefix_append _ _
  | drain =>
    unfold readWakeup
    split_ifs <;> exact List.prefix_rfl
  | _ => exact List.prefix_rfl

end EventLoop

namespace Session
variable {srv : TcpServer} {s t : Session} {l : Label}

/-- The label is a call of `f`, by user code on the loop thread or from the queue. -/
def Runs (l : Label) (f : Functor) (w : WriteResult) : Prop :=
  l = .call (f.call w) ∨ l = .posted (f.act w)

theorem Runs.turn {f : Functor} {w : WriteResult} {act : Act} {rest : List Frame} (h : Runs l f w)
    (ht : Turn s l act rest) : act = f.call w ∨ act = f.act w := by
  rcases h with rfl | rfl <;> cases ht
  · exact .inl rfl
  · exact .inr rfl

/-- A functor submits its message to a connection that is open, and nothing to one that is not. -/
theorem submission_run {f : Functor} {w : WriteResult} (hl : Runs l f w) (hi : Inv srv s)
    (hs : step srv s l = .next t) :
    (t.conn.isConnected = true → s.conn.isConnected = true) ∧
      bytesOf Obs.submission t.trace =
        bytesOf Obs.submission s.trace ++ if s.conn.isConnected then f.message else [] := by
  cases step_next hi.held hs with
  | accepted | polled | skipped | returned => rcases hl with hl | hl <;> cases hl
  | ran hturn hact hm hconn _ _ _ _ _ htrace =>
    rw [hconn, htrace, bytesOf_append]
    refine ⟨hm.isConnected_of, congrArg _ ?_⟩
    by_cases hc : s.conn.isConnected = true
    · rw [if_pos hc]
      cases f with
      | close =>
        refine hm.submission_eq_nil fun str w' hsub => ?_
        rcases hl.turn hturn with rfl | rfl <;> rcases hsub with hsub | hsub <;> cases hsub
      | write str => exact hm.submission_eq (hl.turn hturn).symm hc
    · rw [if_neg hc]
      exact hm.submission_ended (by simpa using hc)

/-- Nothing but `write` submits. -/
theorem submission_kept (hi : Inv srv s) (ha : l ≠ .accept)
    (hl : ∀ act, l = .call act ∨ l = .posted act → ∃ t, act = .take t)
    (hs : step srv s l = .next t) :
    (t.conn.isConnected = true → s.conn.isConnected = true) ∧
      bytesOf Obs.submission t.trace = bytesOf Obs.submission s.trace := by
  cases step_next hi.held hs with
  | accepted => exact absurd rfl ha
  | polled | skipped | returned => exact ⟨id, rfl⟩
  | ran hturn hact hm hconn _ _ _ _ _ htrace =>
    rw [hconn, htrace, bytesOf_append]
    refine ⟨hm.isConnected_of, ?_⟩
    rw [hm.submission_eq_nil, List.append_nil]
    intro str w hsub
    cases hturn with
    | call =>
      obtain ⟨t, rfl⟩ := hl _ (.inl rfl)
      rcases hsub with hsub | hsub <;> cases hsub
    | posted =>
      obtain ⟨t, rfl⟩ := hl _ (.inr rfl)
      rcases hsub with hsub | hsub <;> cases hsub
    | @dispatch _ _ _ callback _ _ _ _ _ hact' =>
      subst hact'
      cases callback <;> rcases hsub with hsub | hsub <;> cases hsub
    | bound | read | readTest | writeTail | resetTail => rcases hsub with hsub | hsub <;> cases hsub

end Session

namespace Looped
variable {code : ℕ → Option Functor} {srv : TcpServer} {c d : Looped} {l : LoopedLabel} {n : ℕ}

theorem startedSince_append {new : List (Task × Option ℕ)} (hn : n ≤ c.loop.started.length)
    (h : d.loop.started = c.loop.started ++ new) :
    d.startedSince n = c.startedSince n ++ new.map Prod.fst := by
  rw [startedSince, startedSince, h, List.drop_append_of_le_length hn, List.map_append]

/-- The invariant of a session that began when `n` functors had started: what was submitted are
the messages of those that started since, all of them while the connection is open. -/
structure Sent (code : ℕ → Option Functor) (n : ℕ) (c : Looped) : Prop where
  le : n ≤ c.loop.started.length
  front : bytesOf Obs.submission c.session.trace <+: (c.startedSince n).flatMap (message code)
  whole : c.session.conn.isConnected = true →
    bytesOf Obs.submission c.session.trace = (c.startedSince n).flatMap (message code)

/-- A step that starts `new` and submits the messages of it, or nothing once the connection is
not open. -/
theorem Sent.extend {new : List (Task × Option ℕ)} (h : Sent code n c)
    (hloop : d.loop.started = c.loop.started ++ new)
    (hopen : d.session.conn.isConnected = true → c.session.conn.isConnected = true)
    (hsub : bytesOf Obs.submission d.session.trace = bytesOf Obs.submission c.session.trace ++
      if c.session.conn.isConnected then (new.map Prod.fst).flatMap (message code) else []) :
    Sent code n d := by
  have hsince := startedSince_append h.le hloop
  have hwhole (hc : c.session.conn.isConnected = true) :
      bytesOf Obs.submission d.session.trace = (d.startedSince n).flatMap (message code) := by
    rw [hsub, if_pos hc, h.whole hc, hsince, List.flatMap_append]
  refine ⟨?_, ?_, fun hd => hwhole (hopen hd)⟩
  · rw [hloop, List.length_append]
    exact Nat.le_add_right_of_le h.le
  · by_cases hc : c.session.conn.isConnected = true
    · rw [hwhole hc]
    · rw [hsub, if_neg hc, List.append_nil, hsince, List.flatMap_append]
      exact h.front.trans (List.prefix_append _ _)

theorem Sent.keep (h : Sent code n c) (hsession : d.session = c.session)
    {new : List (Task × Option ℕ)} (hloop : d.loop.started = c.loop.started ++ new)
    (hnew : (new.map Prod.fst).flatMap (message code) = []) : Sent code n d := by
  refine h.extend hloop (by rw [hsession]; exact id) ?_
  rw [hsession, hnew, ite_self, List.append_nil]

theorem message_of {task : Task} {f : Functor} (h : code task.functor = some f) :
    message code task = f.message := by
  rw [message, h]
  rfl

theorem message_none {task : Task} (h : code task.functor = none) : message code task = [] := by
  rw [message, h]
  rfl

theorem Sent.step (h : Sent code n c) (hi : Session.Inv srv c.session)
    (hl : l ≠ .session .accept) (hs : Looped.step code srv c l = .next d) : Sent code n d := by
  cases step_next hs with
  | missed => exact h
  | @inline functor w f _ hcode hloop hsession =>
    obtain ⟨new, hstarts, hstarted⟩ := EventLoop.starts_next hloop
    obtain ⟨hopen, hsub⟩ := Session.submission_run (.inl rfl) hi hsession
    refine h.extend hstarted hopen ?_
    cases hstarts with
    | nothing _ hno => exact absurd rfl (hno functor)
    | inline =>
      have hmessage := message_of (show code (Task.mk none functor).functor = _ from hcode)
      simpa [hmessage] using hsub
  | queued hloop =>
    obtain ⟨new, hstarts, hstarted⟩ := EventLoop.starts_next hloop
    cases hstarts
    exact h.keep rfl hstarted rfl
  | foreign hf hcode hloop =>
    obtain ⟨new, hstarts, hstarted⟩ := EventLoop.starts_next hloop
    cases hstarts with
    | nothing hno => exact absurd rfl hno
    | batch hf' =>
      rw [hf, List.cons_eq_cons] at hf'
      refine h.keep rfl hstarted ?_
      simp [← hf'.1, message_none hcode]
  | posted hf hcode hloop hsession =>
    obtain ⟨new, hstarts, hstarted⟩ := EventLoop.starts_next hloop
    obtain ⟨hopen, hsub⟩ := Session.submission_run (.inr rfl) hi hsession
    refine h.extend hstarted hopen ?_
    cases hstarts with
    | nothing hno => exact absurd rfl hno
    | batch hf' =>
      rw [hf, List.cons_eq_cons] at hf'
      simpa [← hf'.1, message_of hcode] using hsub
  | @loop l _ hadmits hloop =>
    obtain ⟨new, hstarts, hstarted⟩ := EventLoop.starts_next hloop
    cases hstarts with
    | nothing => exact h.keep rfl hstarted rfl
    | batch => cases hadmits
    | @inline functor =>
      have hnone : code functor = none := by simpa [LoopAdmits] using hadmits
      refine h.keep rfl hstarted ?_
      simp [message_none (show code (Task.mk none functor).functor = _ from hnone)]
  | @session l _ hadmits hsession =>
    have hkept := Session.submission_kept hi (fun ha => hl (congrArg _ ha)) (fun act hact => ?_)
      hsession
    · refine h.extend (List.append_nil _).symm hkept.1 ?_
      simpa using hkept.2
    · rcases hact with rfl | rfl
      · cases act <;> first | exact ⟨_, rfl⟩ | cases hadmits
      · cases hadmits

/-- A step is one of the session or leaves it alone, and so for the loop. -/
theorem step_parts (h : Looped.step code srv c l = .next d) :
    (d.session = c.session ∨ ∃ k, c.session.step srv k = .next d.session ∧
      (k = .accept → l = .session .accept)) ∧
    (d.loop = c.loop ∨ ∃ k, c.loop.step k = .next d.loop) := by
  cases step_next h with
  | missed => exact ⟨.inl rfl, .inl rfl⟩
  | inline _ hloop hsession => exact ⟨.inr ⟨_, hsession, nofun⟩, .inr ⟨_, hloop⟩⟩
  | queued hloop => exact ⟨.inl rfl, .inr ⟨_, hloop⟩⟩
  | foreign _ _ hloop => exact ⟨.inl rfl, .inr ⟨_, hloop⟩⟩
  | posted _ _ hloop hsession => exact ⟨.inr ⟨_, hsession, nofun⟩, .inr ⟨_, hloop⟩⟩
  | loop _ hloop => exact ⟨.inl rfl, .inr ⟨_, hloop⟩⟩
  | session _ hsession => exact ⟨.inr ⟨_, hsession, congrArg _⟩, .inl rfl⟩

/-- The invariant of every reachable state. -/
structure Running (srv : TcpServer) (c : Looped) : Prop where
  inv : Session.Inv srv c.session
  delivered : EventLoop.Delivered c.loop

theorem Running.step (h : Running srv c) (hs : Looped.step code srv c l = .next d) :
    Running srv d := by
  obtain ⟨hsession, hloop⟩ := step_parts hs
  constructor
  · rcases hsession with hd | ⟨k, hk, -⟩
    · rw [hd]
      exact h.inv
    · exact h.inv.step hk
  · rcases hloop with hd | ⟨k, hk⟩
    · rw [hd]
      exact h.delivered
    · exact h.delivered.step hk

/-- The invariant of a session that was accepted in the state `s`. -/
structure Since (code : ℕ → Option Functor) (srv : TcpServer) (s c : Looped) : Prop where
  running : Running srv c
  flow : Session.Flow c.session
  sent : Sent code s.loop.started.length c
  started : s.loop.started <+: c.loop.started
  submitted : s.loop.submitted <+: c.loop.submitted

theorem Since.accepted {s : Looped} (h : Running srv s)
    (hempty : s.session.conn.writeBuffer.content = [])
    (hs : Looped.step code srv s (.session .accept) = .next d) : Since code srv s d := by
  have hrunning := h.step hs
  cases step_next hs with
  | session _ hsession =>
    cases Session.step_next h.inv.held hsession with
    | ran hturn => cases hturn
    | accepted =>
      refine ⟨hrunning, .accepted hempty, ⟨le_rfl, List.nil_prefix, fun _ => ?_⟩, List.prefix_rfl,
        List.prefix_rfl⟩
      simp [startedSince]

theorem Since.step {s : Looped} (h : Since code srv s c) (hl : l ≠ .session .accept)
    (hs : Looped.step code srv c l = .next d) : Since code srv s d := by
  obtain ⟨hsession, hloop⟩ := step_parts hs
  refine ⟨h.running.step hs, ?_, h.sent.step h.running.inv hl hs, ?_, ?_⟩
  · rcases hsession with hd | ⟨k, hk, ha⟩
    · rw [hd]
      exact h.flow
    · exact h.flow.step h.running.inv (fun hno => hl (ha hno)) hk
  · rcases hloop with hd | ⟨k, hk⟩
    · rw [hd]
      exact h.started
    · obtain ⟨new, -, hnew⟩ := EventLoop.starts_next hk
      rw [hnew]
      exact h.started.trans (List.prefix_append _ _)
  · rcases hloop with hd | ⟨k, hk⟩
    · rw [hd]
      exact h.submitted
    · exact h.submitted.trans (EventLoop.submitted_prefix hk)

/-- The functors that have started or wait are those that waited when the session began and those
submitted since, each thread's in order. -/
theorem Since.order {s : Looped} (h : Since code srv s d) (hs : EventLoop.Delivered s.loop) :
    (d.startedSince s.loop.started.length ++ d.waiting).Perm
        (s.waiting ++ d.loop.submitted.drop s.loop.submitted.length) ∧
      ∀ thread, EventLoop.ofThread thread (d.startedSince s.loop.started.length ++ d.waiting) =
        EventLoop.ofThread thread
          (s.waiting ++ d.loop.submitted.drop s.loop.submitted.length) := by
  obtain ⟨ns, hns⟩ := h.started
  obtain ⟨new, hnew⟩ := h.submitted
  have hstarted : d.startedSince s.loop.started.length = ns.map Prod.fst := by
    rw [startedSince, ← hns, List.drop_left]
  have hplaces : d.loop.places = s.loop.started.map Prod.fst ++ (ns.map Prod.fst ++ d.waiting) := by
    rw [EventLoop.places, ← hns, List.map_append, List.append_assoc]
    rfl
  have hbefore : s.loop.places = s.loop.started.map Prod.fst ++ s.waiting := rfl
  rw [hstarted, ← hnew, List.drop_left]
  constructor
  · have hexact := h.running.delivered.exact
    rw [hplaces, ← hnew] at hexact
    have hall := hexact.trans (hs.exact.symm.append_right new)
    rw [hbefore, List.append_assoc] at hall
    exact (List.perm_append_left_iff _).mp hall
  · intro thread
    have hin := h.running.delivered.inOrder thread
    rw [hplaces, ← hnew, EventLoop.ofThread_append _ s.loop.submitted, ← hs.inOrder thread,
      hbefore] at hin
    simp only [EventLoop.ofThread_append, List.append_assoc] at hin ⊢
    exact List.append_cancel_left hin

/-- Messages go out whole and in order. In a session that starts with an empty write buffer, after
any history of the loop and the slot, whatever the threads do: what the kernel took is a front
part of the messages of the functors that waited when the session began and of those submitted
since, put together in an order that keeps the order of each thread. While the connection is
open, the rest of that order is what waits in the write buffer and behind it in the queue. -/
theorem messages_in_order (srv : TcpServer) (code : ℕ → Option Functor) (etMode : Bool)
    (threads index : ℕ) (hist ls : List LoopedLabel) (s t : Looped)
    (hist_run : run (step code srv) (start etMode threads index) hist = .next s)
    (empty : s.session.conn.writeBuffer.content = []) (one_session : .session .accept ∉ ls)
    (run_eq : run (step code srv) s (.session .accept :: ls) = .next t) :
    ∃ order : List Task,
      order.Perm (s.waiting ++ t.loop.submitted.drop s.loop.submitted.length) ∧
      (∀ thread, EventLoop.ofThread thread order =
        EventLoop.ofThread thread (s.waiting ++ t.loop.submitted.drop s.loop.submitted.length)) ∧
      bytesOf Obs.accepted t.session.trace <+: order.flatMap (message code) ∧
      (t.session.conn.isConnected = true →
        bytesOf Obs.accepted t.session.trace ++ t.session.conn.writeBuffer.content ++
          t.waiting.flatMap (message code) = order.flatMap (message code)) := by
  have hrunning : Running srv s := run_invariant (fun _ _ _ h hs => h.step hs)
    ⟨.start index, .start etMode threads⟩ hist_run
  rw [run_cons, Outcome.bind_eq_next] at run_eq
  obtain ⟨u, hacc, hrun⟩ := run_eq
  have hlabels : ∀ l ∈ ls, l ≠ .session .accept := fun l hl hno => one_session (hno ▸ hl)
  have hsince : Since code srv s t := run_invariant_of (fun _ _ _ h hl hs => h.step hl hs)
    (.accepted hrunning empty hacc) (stepsMeet_of_forall hlabels) hrun
  obtain ⟨hperm, horder⟩ := hsince.order hrunning.delivered
  refine ⟨_, hperm, horder, ?_, fun hc => ?_⟩
  · rw [List.flatMap_append]
    exact hsince.flow.front.trans (hsince.sent.front.trans (List.prefix_append _ _))
  · rw [hsince.flow.stream hc, hsince.sent.whole hc, List.flatMap_append]

/-- Two threads write, the first message in two parts. -/
theorem messages_in_order_two : ∃ t,
    run (step (fun n => if n = 0 then some (.write [1, 2]) else some (.write [3]))
        ⟨⟨.linux, .little⟩, false, false, false, false⟩) (start false 2 0)
      [.session .accept, .loop .test, .loop (.wait false), .session .bound,
        .call (some 0) 0 .again, .loop (.go 0), .loop (.go 0), .loop (.go 0),
        .call (some 1) 1 .again, .loop (.go 1), .loop (.go 1), .loop (.go 1), .loop .handled,
        .loop .swap, .functor (.sent 1), .functor .again] = .next t ∧
      bytesOf Obs.accepted t.session.trace = [1] ∧ t.session.conn.writeBuffer.content = [2, 3] ∧
      ∃ order : List Task, bytesOf Obs.accepted t.session.trace <+: order.flatMap
        (message fun n => if n = 0 then some (.write [1, 2]) else some (.write [3])) := by
  obtain ⟨t, ht, hc⟩ := Outcome.yields_eq_true.mp (show
    (run (step (fun n => if n = 0 then some (.write [1, 2]) else some (.write [3]))
        ⟨⟨.linux, .little⟩, false, false, false, false⟩) (start false 2 0)
      [.session .accept, .loop .test, .loop (.wait false), .session .bound,
        .call (some 0) 0 .again, .loop (.go 0), .loop (.go 0), .loop (.go 0),
        .call (some 1) 1 .again, .loop (.go 1), .loop (.go 1), .loop (.go 1), .loop .handled,
        .loop .swap, .functor (.sent 1), .functor .again]).yields (fun t =>
          bytesOf Obs.accepted t.session.trace == [1] &&
            t.session.conn.writeBuffer.content == [2, 3]) = true by decide +kernel)
  obtain ⟨order, -, -, hfront, -⟩ := messages_in_order _ _ false 2 0 [] _ (start false 2 0) t rfl
    Buffer.content_fresh (by decide) ht
  simp only [Bool.and_eq_true, beq_iff_eq] at hc
  exact ⟨t, ht, hc.1, hc.2, order, hfront⟩

end Looped
end Potato
