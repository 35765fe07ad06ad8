import Potato.Reentrancy

/-!
# The callbacks of one session

A session tells its user that it is connected, then of messages and completed
writes, then once that it is over, and only then does its connection go back to the
pool. The order is an automaton over what is seen; the pointers and the stack tell
in which of its phases a session is.
-/
namespace Potato
open Machine

/-- How far a session has come, as its user sees it. -/
inductive Phase where
  | waiting
  | opened
  | closed
  | returned
  deriving DecidableEq, Repr

namespace Phase

/-- The protocol. What it does not allow has no successor. -/
def next : Phase → Obs → Option Phase
  | .waiting, .connection true => some .opened
  | .opened, .message _ | .opened, .writeComplete => some .opened
  | .opened, .connection false => some .closed
  | .closed, .returned => some .returned
  | _, .connection _ | _, .message _ | _, .writeComplete | _, .returned => none
  | phase, .read _ _ | phase, .wrote _ _ | phase, .submitted _ | phase, .taken _ => some phase

def follow (phase : Phase) (trace : List Obs) : Option Phase := trace.foldlM next phase

@[simp] theorem follow_nil (phase : Phase) : phase.follow [] = some phase := rfl

@[simp] theorem follow_cons (phase : Phase) (o : Obs) (trace : List Obs) :
    phase.follow (o :: trace) = (phase.next o).bind fun p => p.follow trace := rfl

theorem follow_append (phase : Phase) (xs ys : List Obs) :
    phase.follow (xs ++ ys) = (phase.follow xs).bind fun p => p.follow ys := by
  induction xs generalizing phase with
  | nil => rfl
  | cons o xs ih =>
    rw [List.cons_append, follow_cons, follow_cons, Option.bind_assoc]
    exact congrArg _ (funext ih)

@[simp] theorem next_read (phase : Phase) (n : ℕ) (r : ReadResult) :
    phase.next (.read n r) = some phase := by cases phase <;> rfl

@[simp] theorem next_wrote (phase : Phase) (data : Bytes) (w : WriteResult) :
    phase.next (.wrote data w) = some phase := by cases phase <;> rfl

@[simp] theorem next_submitted (phase : Phase) (msg : Bytes) :
    phase.next (.submitted msg) = some phase := by cases phase <;> rfl

@[simp] theorem next_taken (phase : Phase) (data : Bytes) :
    phase.next (.taken data) = some phase := by cases phase <;> rfl

@[simp] theorem next_message (data : Bytes) : opened.next (.message data) = some opened := rfl

@[simp] theorem next_writeComplete : opened.next .writeComplete = some opened := rfl

/-- The calls of user code and the return of the connection, in order. -/
def events (trace : List Obs) : List Obs :=
  trace.filter fun
    | .connection _ | .message _ | .writeComplete | .returned => true
    | _ => false

def IsData : Obs → Bool
  | .message _ | .writeComplete => true
  | _ => false

/-- The events of a session in each phase. -/
def Shape (es : List Obs) : Phase → Prop
  | .waiting => es = []
  | .opened => ∃ data, (∀ o ∈ data, IsData o = true) ∧ es = .connection true :: data
  | .closed => ∃ data, (∀ o ∈ data, IsData o = true) ∧
      es = .connection true :: data ++ [.connection false]
  | .returned => ∃ data, (∀ o ∈ data, IsData o = true) ∧
      es = .connection true :: data ++ [.connection false, .returned]

theorem Shape.data {es : List Obs} {o : Obs} (h : opened.Shape es) (ho : IsData o = true) :
    opened.Shape (es ++ [o]) := by
  obtain ⟨data, hdata, rfl⟩ := h
  refine ⟨data ++ [o], fun o' ho' => ?_, rfl⟩
  rcases List.mem_append.mp ho' with hd | hd
  · exact hdata o' hd
  · rwa [List.mem_singleton.mp hd]

/-- What one more observation does to the events. -/
theorem Shape.next {phase phase' : Phase} {trace : List Obs} {o : Obs}
    (h : phase.Shape (events trace)) (hn : phase.next o = some phase') :
    phase'.Shape (events (trace ++ [o])) := by
  have hevents : events (trace ++ [o]) = events trace ++ events [o] := List.filter_append ..
  rw [hevents]
  cases o with
  | read | wrote | submitted | taken =>
    simp only [next_read, next_wrote, next_submitted, next_taken, Option.some.injEq] at hn
    subst hn
    rwa [show events [_] = [] from rfl, List.append_nil]
  | message data | writeComplete =>
    cases phase <;> cases hn
    exact h.data rfl
  | returned =>
    cases phase <;> cases hn
    obtain ⟨data, hdata, he⟩ := h
    exact ⟨data, hdata, by rw [he]; simp [events]⟩
  | connection connected =>
    cases connected with
    | true =>
      cases phase <;> cases hn
      exact ⟨[], (fun _ hno => nomatch hno), by rw [show events trace = [] from h]; rfl⟩
    | false =>
      cases phase <;> cases hn
      obtain ⟨data, hdata, he⟩ := h
      exact ⟨data, hdata, by rw [he]; rfl⟩

/-- The order that the automaton stands for. -/
theorem shape_of_follow {trace : List Obs} {phase : Phase}
    (h : waiting.follow trace = some phase) : phase.Shape (events trace) := by
  induction trace using List.reverseRecOn generalizing phase with
  | nil =>
    cases h
    rfl
  | append_singleton trace o ih =>
    rw [follow_append, Option.bind_eq_some_iff] at h
    obtain ⟨p, hp, hn⟩ := h
    rw [follow_cons, Option.bind_eq_some_iff] at hn
    obtain ⟨q, hq, hphase⟩ := hn
    cases hphase
    exact (ih hp).next hq

end Phase

namespace TcpConnection

variable {c : TcpConnection} {act : Act} {e : Effect}

theorem follow_calling {callback : Callback} {o : Obs} {rest : List Frame} {phase : Phase}
    (h : phase.next o = some phase) : phase.follow (c.calling callback o rest).obs = some phase := by
  rcases calling_obs callback o rest with ho | ho <;> rw [ho] <;> simp [h]

/-- What is seen of a connection in front of its close. -/
theorem Closes.follow_seen {event : IOEvent} {seen : List Obs} {tail : List Frame}
    (h : Closes c event act seen tail) (phase : Phase) : phase.follow seen = some phase := by
  cases h <;> simp

/-- A closed connection does not call. -/
theorem Move.follow_closed (hm : c.Move act e) (hc : c.isConnected = false)
    (hbind : act ≠ .bindFunctor) (htail : act ≠ .resetTail) (phase : Phase) :
    phase.follow e.obs = some phase := by
  have hdead {event : IOEvent} {socket : Socket} (hb : c.Bound event socket) :
      socket.connected ≠ true := by
    rw [← hb.isConnected, hc]
    exact Bool.false_ne_true
  cases hm with
  | ignored | blocked | broken | looped | consumed | tailed => simp
  | registered => exact absurd rfl hbind
  | unbound => exact absurd rfl htail
  | reading hopen | received hopen =>
    rw [hc] at hopen
    cases hopen
  | closed hb hs | flushedAll hb hs | flushedPart hb hs | stalled hb hs => exact absurd hs (hdead hb)
  | appended _ hb hs | sentAll _ hb hs | sentPart _ hb hs => exact absurd hs (hdead hb)

/-- An open connection calls for messages and completed writes, until it closes. -/
theorem Move.follow_opened (hm : c.Move act e) (hset : c.connectionCallback = true)
    (hc : c.isConnected = true) (hbind : act ≠ .bindFunctor) (htail : act ≠ .resetTail) :
    Phase.opened.follow e.obs = some (if e.conn.isConnected then .opened else .closed) := by
  have keep {d : TcpConnection} (hd : d.socket = c.socket) :
      some Phase.opened = some (if d.isConnected then .opened else .closed) := by
    rw [isConnected_congr hd, hc]
    rfl
  cases hm with
  | ignored _ hno | broken hno =>
    rw [hc] at hno
    cases hno
  | registered => exact absurd rfl hbind
  | unbound => exact absurd rfl htail
  | @closed _ event socket _ _ _ hb hs hin hclose he =>
    subst he
    have hshown : ((c.shut event socket).calling .connection (.connection false)
        [.resetTail]).obs = [.connection false] := by
      unfold calling
      rw [if_pos (show (c.shut event socket).isSet .connection = true from hset)]
    rw [Phase.follow_append, hclose.follow_seen, Option.bind_some, hshown, calling_conn]
    rfl
  | reading | blocked | looped | consumed | stalled | tailed | flushedPart | appended
  | sentPart => exact (by simp : Phase.follow _ _ = some Phase.opened).trans (keep rfl)
  | received _ _ _ _ _ _ he =>
    subst he
    refine Eq.trans ?_ (keep (by rw [calling_conn]))
    simpa using follow_calling (Phase.next_message _)
  | sentAll _ _ _ _ _ _ he =>
    subst he
    refine Eq.trans ?_ (keep (by rw [calling_conn]))
    simpa using follow_calling Phase.next_writeComplete
  | flushedAll _ _ _ _ _ _ _ _ he =>
    subst he
    refine Eq.trans ?_ (keep (by rw [calling_conn]; rfl))
    simpa using follow_calling Phase.next_writeComplete

end TcpConnection

namespace Session

variable {srv : TcpServer} {s t : Session} {l : Label}

/-- A step of the session itself: the slot is not borrowed again, no functor of another thread
runs, and user code calls when it has been told of the connection. -/
def OneSession (s : Session) : Label → Bool
  | .accept | .posted _ => false
  | .call _ => s.trace.contains (.connection true)
  | _ => true

/-- What the phase of a session says about its state. -/
def InPhase (s : Session) : Phase → Prop
  | .waiting => s.bindPosted = true ∧ s.stack = [] ∧ s.trace = [] ∧
      ∀ event ev, s.conn.ioEvent = some event → s.reported ≠ some (event.id, ev)
  | .opened => s.bindPosted = false ∧ s.conn.isConnected = true
  | .closed => s.bindPosted = false ∧ s.conn.isConnected = false ∧ s.available = false
  | .returned => s.bindPosted = false ∧ s.conn.isConnected = false ∧ s.available = true

/-- The invariant: what was seen follows the protocol, up to the phase that the state is in. -/
structure Tracked (s : Session) (phase : Phase) : Prop where
  set : s.conn.connectionCallback = true
  seen : Phase.waiting.follow s.trace = some phase
  inPhase : s.InPhase phase
  busy : phase ≠ .returned → s.available = false

theorem Turn.stack_of_resetTail {rest : List Frame} (h : Turn s l .resetTail rest) :
    s.stack = .resetTail :: rest := by
  cases h with
  | @dispatch _ _ _ callback _ _ _ _ _ hact => cases callback <;> cases hact
  | call _ hcall => cases hcall
  | posted _ hf => cases hf
  | resetTail hs => exact hs

/-- Before the functor of `bindSocket` has run, nothing else of the session can. -/
theorem Tracked.waiting (h : Tracked s .waiting) (hi : Inv srv s) (hone : OneSession s l = true)
    (hs : Session.step srv s l = .next t) : Tracked t .opened := by
  obtain ⟨hbind, hstack, htrace, hstale⟩ := h.inPhase
  have hlive := hi.posted hbind
  cases step_next hi.held hs with
  | accepted => cases hone
  | returned hs' =>
    rw [hstack] at hs'
    cases hs'
  | skipped _ he hr => exact absurd hr (hstale _ _ he)
  | polled _ _ he hentry =>
    have hin := hi.watched _ he hlive
    rw [hbind] at hin
    have hnone := (hi.held.synced _ he).entry_eq
    rw [hin, hentry] at hnone
    cases hnone
  | @ran _ act rest e _ hturn hact hm hconn hstack' hbind' hrep havail hnext htrace' =>
    cases hturn with
    | dispatch _ he hr => exact absurd hr (hstale _ _ he)
    | call =>
      rw [OneSession, htrace] at hone
      cases hone
    | posted => cases hone
    | read hs' | readTest hs' | writeTail hs' | resetTail hs' =>
      rw [hstack] at hs'
      cases hs'
    | bound =>
      have hkept := hm.connectionCallback_eq
      cases hm with
      | ignored hg => cases hg
      | closed _ _ _ hclose => exact absurd rfl hclose.ne_resetTail.2.1
      | appended hsub | sentAll hsub | sentPart hsub => rcases hsub with hno | hno <;> cases hno
      | @registered event socket hb hin =>
        have hshown : ((s.conn.armed { event with
            inEpoll := true
            events := EPOLLIN ||| EPOLLPRI }).calling .connection
              (.connection s.conn.isConnected) []).obs = [.connection true] := by
          unfold TcpConnection.calling
          rw [if_pos (show (s.conn.armed _).isSet .connection = true from h.set), hlive]
        refine ⟨by rw [hconn, hkept, h.set], ?_, ⟨by rw [hbind']; simp, ?_⟩, fun _ => ?_⟩
        · rw [htrace', htrace, hshown]
          rfl
        · rw [hconn, TcpConnection.calling_conn]
          exact hlive
        · rw [havail, h.busy (by simp)]
          rfl

/-- What a step that runs no code of the session leaves as it is. -/
theorem Tracked.frame {phase : Phase} (h : Tracked s phase) (hp : phase ≠ .waiting)
    (hconn : t.conn = s.conn) (hbind : t.bindPosted = s.bindPosted)
    (havail : t.available = s.available) (htrace : t.trace = s.trace) : Tracked t phase := by
  refine ⟨by rw [hconn, h.set], by rw [htrace, h.seen], ?_, fun hne => by rw [havail, h.busy hne]⟩
  have hin := h.inPhase
  cases phase with
  | waiting => exact absurd rfl hp
  | opened | closed | returned => simpa only [InPhase, hconn, hbind, havail] using hin

/-- Code of the session runs after the connected notification. -/
theorem Tracked.ran {phase : Phase} {act : Act} {rest : List Frame} {e : Effect}
    (h : Tracked s phase) (hi : Inv srv s) (hp : phase ≠ .waiting) (hturn : Turn s l act rest)
    (hm : s.conn.Move act e) (hconn : t.conn = e.conn)
    (hbind : t.bindPosted = (s.bindPosted && act != .bindFunctor))
    (havail : t.available = (s.available || act == .resetTail))
    (htrace : t.trace = s.trace ++ e.obs) : ∃ phase', Tracked t phase' := by
  have hposted : s.bindPosted = false := by
    have hin := h.inPhase
    cases phase with
    | waiting => exact absurd rfl hp
    | opened | closed | returned => exact hin.1
  have hposted' : t.bindPosted = false := by rw [hbind, hposted, Bool.false_and]
  have hset : t.conn.connectionCallback = true := by rw [hconn, hm.connectionCallback_eq, h.set]
  have hbf : act ≠ .bindFunctor := by
    rintro rfl
    rw [hturn.bindFunctor] at hposted
    cases hposted
  have hseen : Phase.waiting.follow t.trace = phase.follow e.obs := by
    rw [htrace, Phase.follow_append, h.seen, Option.bind_some]
  by_cases htail : act = .resetTail
  · -- the rest of `reset` runs from the stack, so the connection is closed and not yet back
    subst htail
    have hmem : .resetTail ∈ s.stack := by simp [hturn.stack_of_resetTail]
    obtain ⟨hsocket, hdown⟩ := hi.closing hmem
    have hphase : phase = .closed := by
      have hin := h.inPhase
      cases phase with
      | waiting => exact absurd rfl hp
      | opened =>
        rw [hin.2] at hdown
        cases hdown
      | closed => rfl
      | returned => exact absurd (hi.pooled hin.2.2).2.2 hsocket
    subst hphase
    have he : e = s.conn.resetTail := by
      cases hm with
      | ignored hg => cases hg
      | closed _ _ _ hclose => exact absurd rfl hclose.ne_resetTail.1
      | appended hsub | sentAll hsub | sentPart hsub => rcases hsub with hno | hno <;> cases hno
      | unbound => rfl
    subst he
    refine ⟨.returned, hset, hseen, ⟨hposted', ?_, ?_⟩, fun hno => absurd rfl hno⟩
    · rw [hconn]
      rfl
    · rw [havail]
      simp
  · have havail' : t.available = s.available := by
      rw [havail, beq_eq_false_iff_ne.mpr htail, Bool.or_false]
    cases phase with
    | waiting => exact absurd rfl hp
    | opened =>
      have hlive := h.inPhase.2
      rw [hm.follow_opened h.set hlive hbf htail] at hseen
      have hbusy : t.available = false := by rw [havail', h.busy (by simp)]
      by_cases hc : e.conn.isConnected = true
      · rw [if_pos hc] at hseen
        exact ⟨.opened, hset, hseen, ⟨hposted', by rw [hconn, hc]⟩, fun _ => hbusy⟩
      · rw [if_neg hc] at hseen
        exact ⟨.closed, hset, hseen, ⟨hposted', by rw [hconn]; simpa using hc, hbusy⟩,
          fun _ => hbusy⟩
    | closed =>
      obtain ⟨-, hdown, hbusy⟩ := h.inPhase
      rw [hm.follow_closed hdown hbf htail] at hseen
      have hdown' : t.conn.isConnected = false := by
        rw [hconn]
        exact hm.isConnected_eq_false hdown
      exact ⟨.closed, hset, hseen, ⟨hposted', hdown', by rw [havail', hbusy]⟩,
        fun _ => by rw [havail', hbusy]⟩
    | returned =>
      obtain ⟨-, hdown, hback⟩ := h.inPhase
      rw [hm.follow_closed hdown hbf htail] at hseen
      have hdown' : t.conn.isConnected = false := by
        rw [hconn]
        exact hm.isConnected_eq_false hdown
      exact ⟨.returned, hset, hseen, ⟨hposted', hdown', by rw [havail', hback]⟩,
        fun hno => absurd rfl hno⟩

theorem Tracked.step {phase : Phase} (h : Tracked s phase) (hi : Inv srv s)
    (hone : OneSession s l = true) (hs : Session.step srv s l = .next t) :
    ∃ phase', Tracked t phase' := by
  by_cases hp : phase = .waiting
  · subst hp
    exact ⟨.opened, h.waiting hi hone hs⟩
  · cases step_next hi.held hs with
    | accepted => cases hone
    | polled | skipped | returned => exact ⟨phase, h.frame hp rfl rfl rfl rfl⟩
    | ran hturn _ hm hconn _ hbind _ havail _ htrace =>
      exact h.ran hi hp hturn hm hconn hbind havail htrace

/-- In every run of one session its callbacks follow the protocol, and the connection is back in
the pool only when both notifications have been delivered. -/
theorem callback_protocol (srv : TcpServer) (index : ℕ) (hist : List Label) (s₀ s t : Session)
    (ls : List Label) (installed : srv.connectionCallback = true)
    (hist_eq : run (step srv) (start index) hist = .next s₀) (nothing_runs : s₀.stack = [])
    (accepted : step srv s₀ .accept = .next s)
    (one_session : StepsMeet (step srv) (fun s l => OneSession s l = true) s ls)
    (run_eq : run (step srv) s ls = .next t) :
    ∃ phase : Phase, phase.Shape (Phase.events t.trace) ∧
      (t.available = true → phase = .returned) := by
  have hi₀ := Inv.of_run hist_eq
  have hfirst : Tracked s .waiting := by
    simp only [step, Outcome.bind_eq_next, Outcome.require_eq_next, Outcome.pure_eq,
      Outcome.next.injEq] at accepted
    obtain ⟨-, -, c, hnew, rfl⟩ := accepted
    obtain ⟨-, rfl⟩ := newConnection_next hnew
    refine ⟨installed, rfl, ⟨rfl, nothing_runs, rfl, ?_⟩, fun _ => rfl⟩
    intro event ev he hr
    cases he
    exact absurd (hi₀.stale _ _ hr) (Nat.lt_irrefl _)
  have hstep : ∀ s l t, (Inv srv s ∧ ∃ phase, Tracked s phase) → OneSession s l = true →
      Session.step srv s l = .next t → Inv srv t ∧ ∃ phase, Tracked t phase := by
    rintro s l t ⟨hi, phase, h⟩ hone hs
    exact ⟨hi.step hs, h.step hi hone hs⟩
  obtain ⟨-, phase, h⟩ :=
    run_invariant_of hstep ⟨hi₀.step accepted, .waiting, hfirst⟩ one_session run_eq
  refine ⟨phase, Phase.shape_of_follow h.seen, fun ha => ?_⟩
  by_contra hne
  rw [h.busy hne] at ha
  cases ha

/-- A user closes the connection while it is shown its first message. -/
theorem callback_protocol_close : ∃ s t,
    step ⟨⟨.linux, .little⟩, false, true, true, false⟩ (start 0) .accept = .next s ∧
      run (step ⟨⟨.linux, .little⟩, false, true, true, false⟩) s
        [.bound, .ret, .poll EPOLLIN, .dispatch .again, .read (.data [1]), .call .close, .ret,
          .go] = .next t ∧
      t.available = true ∧ Phase.returned.Shape (Phase.events t.trace) := by
  obtain ⟨s, hs, hc⟩ := Outcome.yields_eq_true.mp (show
    (step ⟨⟨.linux, .little⟩, false, true, true, false⟩ (start 0) .accept).yields (fun s =>
      decide (StepsMeet (step ⟨⟨.linux, .little⟩, false, true, true, false⟩)
        (fun s l => OneSession s l = true) s [.bound, .ret, .poll EPOLLIN, .dispatch .again,
          .read (.data [1]), .call .close, .ret, .go]) &&
      (run (step ⟨⟨.linux, .little⟩, false, true, true, false⟩) s
        [.bound, .ret, .poll EPOLLIN, .dispatch .again, .read (.data [1]), .call .close, .ret,
          .go]).yields (·.available)) = true by decide +kernel)
  simp only [Bool.and_eq_true, decide_eq_true_eq, Outcome.yields_eq_true] at hc
  obtain ⟨hone, t, ht, hback⟩ := hc
  obtain ⟨phase, hshape, hphase⟩ :=
    callback_protocol _ 0 [] (start 0) s t _ rfl rfl rfl hs hone ht
  rw [hphase hback] at hshape
  exact ⟨s, t, hs, ht, hback, hshape⟩

end Session
end Potato
