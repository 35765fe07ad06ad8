import Potato.ConnectionFaults
import Potato.Session

/-!
# The invariant of a pooled connection

What holds of the pointers, the registration and the stack in every state that
the sessions of one slot can reach, whatever the peer and the user code do.
-/
namespace Potato.Session
open Machine

variable {srv : TcpServer} {s t : Session} {l : Label}

/-- The invariant of `step`. A slot that waits to be reset has one `resetTail` on its stack,
and a slot in the pool has no pointer set. -/
structure Inv (srv : TcpServer) (s : Session) : Prop where
  held : s.conn.Held
  fresh : ∀ event, s.conn.ioEvent = some event → event.id < s.nextSocket
  mode : ∀ event, s.conn.ioEvent = some event → event.etMode = srv.etMode
  pooled : s.available = true → s.conn.Unbound
  posted : s.bindPosted = true → s.conn.isConnected = true
  watched : ∀ event, s.conn.ioEvent = some event → s.conn.isConnected = true →
    event.inEpoll = !s.bindPosted
  closing : .resetTail ∈ s.stack → s.conn.socket ≠ none ∧ s.conn.isConnected = false
  once : s.stack.count .resetTail ≤ 1
  stale : ∀ id ev, s.reported = some (id, ev) → id < s.nextSocket

theorem Inv.start (index : ℕ) : Inv srv (start index) where
  held := .fresh index
  fresh := fun _ he => nomatch he
  mode := fun _ he => nomatch he
  pooled := fun _ => ⟨rfl, rfl, rfl⟩
  posted := fun h => nomatch h
  watched := fun _ he => nomatch he
  closing := fun h => nomatch h
  once := Nat.zero_le _
  stale := fun _ _ h => nomatch h

theorem and_EPOLLOUT_ne_zero {mask : Mask} : mask &&& EPOLLOUT ≠ 0 ↔ mask.getLsbD 2 = true := by
  have htwo : EPOLLOUT = BitVec.twoPow 32 2 := by decide
  rw [htwo, BitVec.and_twoPow]
  split_ifs with h
  · simp only [h, iff_true]
    decide
  · exact iff_of_false (fun hno => hno rfl) h

/-- `epoll_wait` reports output only for a mask that asks for it. -/
theorem Reports.armed {mask ev : Mask} (h : mask.Reports ev = true) (hev : ev &&& EPOLLOUT ≠ 0) :
    mask &&& EPOLLOUT ≠ 0 := by
  rw [and_EPOLLOUT_ne_zero] at hev ⊢
  rw [Mask.Reports, beq_iff_eq] at h
  have hbit := congrArg (fun m : Mask => m.getLsbD 2) h
  have herr : EPOLLERR.getLsbD 2 = false := by decide
  have hhup : EPOLLHUP.getLsbD 2 = false := by decide
  simp only [BitVec.getLsbD_and, BitVec.getLsbD_not, BitVec.getLsbD_or, hev, herr, hhup,
    Bool.or_false, Bool.true_and] at hbit
  simpa using hbit

theorem eventKey_some {c : TcpConnection} {event : IOEvent} (h : c.ioEvent = some event) :
    c.eventKey = some (event.id, event.etMode, event.inEpoll) := by
  rw [TcpConnection.eventKey, h]
  rfl

theorem event_of_eventKey {c d : TcpConnection} {event : IOEvent} (hk : d.eventKey = c.eventKey)
    (h : d.ioEvent = some event) : ∃ event', c.ioEvent = some event' ∧ event'.id = event.id ∧
      event'.etMode = event.etMode ∧ event'.inEpoll = event.inEpoll := by
  rw [eventKey_some h, TcpConnection.eventKey] at hk
  cases hc : c.ioEvent with
  | none => simp [hc] at hk
  | some event' =>
    simp only [hc, Option.map_some, Option.some.injEq, Prod.mk.injEq] at hk
    exact ⟨event', rfl, hk.1.symm, hk.2.1.symm, hk.2.2.symm⟩

theorem eq_none_of_eventKey {c d : TcpConnection} (hk : d.eventKey = c.eventKey)
    (h : c.ioEvent = none) : d.ioEvent = none := by
  cases hd : d.ioEvent with
  | none => rfl
  | some event =>
    obtain ⟨event', he, -⟩ := event_of_eventKey hk hd
    rw [h] at he
    cases he

theorem Turn.bindFunctor {rest : List Frame} (h : Turn s l .bindFunctor rest) :
    s.bindPosted = true := by
  cases h with
  | bound _ hp => exact hp
  | @dispatch _ _ _ callback _ _ _ _ _ hact => cases callback <;> cases hact
  | call _ hcall => cases hcall
  | posted _ hf => cases hf

/-- What the turn leaves on the stack was there, and `resetTail` runs from the top of it. -/
theorem Turn.count_resetTail {act : Act} {rest : List Frame} (h : Turn s l act rest) :
    s.stack.count .resetTail = rest.count .resetTail + if act = .resetTail then 1 else 0 := by
  cases h with
  | bound hs => simp [hs]
  | posted hs hf => rw [hs, if_neg (by rintro rfl; cases hf), Nat.add_zero]
  | @dispatch _ _ _ callback _ hs _ _ _ hact =>
    subst hact
    cases callback <;> simp [hs, EventCallback.act]
  | call ht hcall => rw [if_neg (by rintro rfl; cases hcall), Nat.add_zero]
  | read hs | readTest hs | writeTail hs | resetTail hs => simp [hs]

theorem Turn.mem_of_mem {act : Act} {rest : List Frame} (h : Turn s l act rest) {frame : Frame}
    (hm : frame ∈ rest) : frame ∈ s.stack := by
  cases h with
  | bound | dispatch | posted => cases hm
  | call => exact hm
  | read hs | readTest hs | writeTail hs | resetTail hs =>
    rw [hs]
    exact List.mem_cons_of_mem _ hm

theorem Inv.accepted (h : Inv srv s) (ha : s.available = true) : Inv srv
    { s with
      conn := rebound srv s.conn s.nextSocket
      bindPosted := true
      available := false
      nextSocket := s.nextSocket + 1
      trace := [] } where
  held :=
    { readValid := h.held.readValid
      writeValid := h.held.writeValid
      room := h.held.room
      pointers := .inr ⟨_, _, ⟨rfl, rfl, rfl, rfl⟩, rfl⟩
      synced := by
        intro event he
        cases he
        exact .fresh rfl rfl
      removed := fun _ _ hno => nomatch hno
      idle := by
        intro event he _ _
        cases he
        rfl
      pending := by
        intro event he hw
        cases he
        cases hw }
  fresh := by
    intro event he
    cases he
    exact Nat.lt_succ_self _
  mode := by
    intro event he
    cases he
    rfl
  pooled := fun hno => nomatch hno
  posted := fun _ => rfl
  watched := by
    intro event he _
    cases he
    rfl
  closing := by
    intro hm
    exact absurd (h.pooled ha).2.2 (h.closing hm).1
  once := h.once
  stale := fun id ev hr => Nat.lt_succ_of_lt (h.stale id ev hr)

/-- The step has run `act`, of which `e` is the effect, and left `rest` on the stack. -/
structure Ran (s : Session) (l : Label) (act : Act) (rest : List Frame) (e : Effect)
    (t : Session) : Prop where
  turn : Turn s l act rest
  held : e.conn.Held
  stale : ∀ id ev, t.reported = some (id, ev) → id < t.nextSocket
  conn_eq : t.conn = e.conn
  stack_eq : t.stack = e.frames ++ rest
  bindPosted_eq : t.bindPosted = (s.bindPosted && act != .bindFunctor)
  available_eq : t.available = (s.available || act == .resetTail)
  nextSocket_eq : t.nextSocket = s.nextSocket

variable {act : Act} {rest : List Frame} {e : Effect}

theorem Ran.bindPosted_of_ne (hr : Ran s l act rest e t) (hne : act ≠ .bindFunctor) :
    t.bindPosted = s.bindPosted := by
  rw [hr.bindPosted_eq, bne_iff_ne.mpr hne, Bool.and_true]

theorem Ran.available_of_ne (hr : Ran s l act rest e t) (hne : act ≠ .resetTail) :
    t.available = s.available := by
  rw [hr.available_eq, beq_eq_false_iff_ne.mpr hne, Bool.or_false]

theorem Ran.isConnected_eq (hr : Ran s l act rest e t) (hsock : e.conn.socket = s.conn.socket) :
    t.conn.isConnected = s.conn.isConnected :=
  TcpConnection.isConnected_congr (by rw [hr.conn_eq, hsock])

/-- Code that does not push `resetTail` and keeps the socket keeps a slot that waits for it. -/
theorem Ran.closing (hr : Ran s l act rest e t) (h : Inv srv s)
    (hsock : e.conn.socket = s.conn.socket) (hnot : .resetTail ∉ e.frames)
    (hmem : .resetTail ∈ t.stack) : t.conn.socket ≠ none ∧ t.conn.isConnected = false := by
  rw [hr.stack_eq] at hmem
  have hrest := (List.mem_append.mp hmem).resolve_left hnot
  rw [hr.isConnected_eq hsock, hr.conn_eq, hsock]
  exact h.closing (hr.turn.mem_of_mem hrest)

theorem Ran.once (hr : Ran s l act rest e t) (h : Inv srv s) (hact : act ≠ .resetTail)
    (hnot : .resetTail ∉ e.frames) : t.stack.count .resetTail ≤ 1 := by
  have hcount := hr.turn.count_resetTail
  have honce := h.once
  rw [if_neg hact] at hcount
  rw [hr.stack_eq, List.count_append, List.count_eq_zero_of_not_mem hnot]
  omega

theorem Inv.kept (h : Inv srv s) (hr : Ran s l act rest e t)
    (hsock : e.conn.socket = s.conn.socket) (hloop : e.conn.loop = s.conn.loop)
    (hkey : e.conn.eventKey = s.conn.eventKey) (hnot : .resetTail ∉ e.frames)
    (hact₁ : act ≠ .resetTail) (hact₂ : act ≠ .bindFunctor) : Inv srv t := by
  have hisc := hr.isConnected_eq hsock
  have hconn := hr.conn_eq
  refine ⟨hconn ▸ hr.held, ?_, ?_, ?_, ?_, ?_, hr.closing h hsock hnot, hr.once h hact₁ hnot,
    hr.stale⟩
  · intro event he
    rw [hconn] at he
    obtain ⟨event', he', hid, -⟩ := event_of_eventKey hkey he
    rw [← hid, hr.nextSocket_eq]
    exact h.fresh event' he'
  · intro event he
    rw [hconn] at he
    obtain ⟨event', he', -, hmode, -⟩ := event_of_eventKey hkey he
    rw [← hmode]
    exact h.mode event' he'
  · intro ha
    obtain ⟨hl, he, hs⟩ := h.pooled (by rw [← hr.available_of_ne hact₁, ha])
    rw [hconn]
    exact ⟨by rw [hloop, hl], eq_none_of_eventKey hkey he, by rw [hsock, hs]⟩
  · intro hp
    rw [hisc]
    exact h.posted (by rw [← hr.bindPosted_of_ne hact₂, hp])
  · intro event he hc
    rw [hconn] at he
    obtain ⟨event', he', -, -, hin⟩ := event_of_eventKey hkey he
    rw [← hin, hr.bindPosted_of_ne hact₂]
    exact h.watched event' he' (by rw [← hisc, hc])

theorem Inv.registered (h : Inv srv s) (hr : Ran s l .bindFunctor rest e t) {event : IOEvent}
    (hsock : e.conn.socket = s.conn.socket) (hevent : s.conn.ioEvent = some event)
    (hkey : e.conn.eventKey = some (event.id, event.etMode, true))
    (hnot : .resetTail ∉ e.frames) : Inv srv t := by
  have hkey' : ∀ event', t.conn.ioEvent = some event' →
      event'.id = event.id ∧ event'.etMode = event.etMode ∧ event'.inEpoll = true := by
    intro event' he
    rw [hr.conn_eq] at he
    have hk := (eventKey_some he).symm.trans hkey
    simpa only [Option.some.injEq, Prod.mk.injEq] using hk
  have hposted : t.bindPosted = false := by
    rw [hr.bindPosted_eq, bne_self_eq_false, Bool.and_false]
  refine ⟨hr.conn_eq ▸ hr.held, ?_, ?_, ?_, ?_, ?_, hr.closing h hsock hnot,
    hr.once h (by simp) hnot, hr.stale⟩
  · intro event' he
    rw [(hkey' event' he).1, hr.nextSocket_eq]
    exact h.fresh event hevent
  · intro event' he
    rw [(hkey' event' he).2.1]
    exact h.mode event hevent
  · intro ha
    rw [hr.available_of_ne (by simp)] at ha
    have hn := (h.pooled ha).2.1
    rw [hevent] at hn
    cases hn
  · intro hp
    rw [hposted] at hp
    cases hp
  · intro event' he _
    rw [(hkey' event' he).2.2, hposted]
    rfl

theorem Inv.closed (h : Inv srv s) (hr : Ran s l act rest e t) {event : IOEvent} {socket : Socket}
    (hb : s.conn.Bound event socket) (hc : socket.connected = true) (hin : event.inEpoll = true)
    (hshut : e.conn = s.conn.shut event socket) (hcnt : e.frames.count .resetTail = 1)
    (hact₁ : act ≠ .resetTail) (hact₂ : act ≠ .bindFunctor) : Inv srv t := by
  have hlive : s.conn.isConnected = true := by rw [hb.isConnected, hc]
  have hconn : t.conn = s.conn.shut event socket := hr.conn_eq.trans hshut
  have hdown : t.conn.isConnected = false := by
    rw [hconn]
    rfl
  have hevent' : ∀ event', t.conn.ioEvent = some event' →
      event'.id = event.id ∧ event'.etMode = event.etMode := by
    intro event' he
    rw [hconn] at he
    cases he
    exact ⟨rfl, rfl⟩
  -- an open connection does not wait to be reset
  have hfree : .resetTail ∉ s.stack := by
    intro hmem
    rw [(h.closing hmem).2] at hlive
    cases hlive
  have hcount := hr.turn.count_resetTail
  rw [if_neg hact₁, List.count_eq_zero_of_not_mem hfree] at hcount
  refine ⟨hr.conn_eq ▸ hr.held, ?_, ?_, ?_, ?_, ?_, ?_, ?_, hr.stale⟩
  · intro event' he
    rw [(hevent' event' he).1, hr.nextSocket_eq]
    exact h.fresh event hb.event_eq
  · intro event' he
    rw [(hevent' event' he).2]
    exact h.mode event hb.event_eq
  · intro ha
    rw [hr.available_of_ne hact₁] at ha
    have hn := (h.pooled ha).2.1
    rw [hb.event_eq] at hn
    cases hn
  · intro hp
    have hwatched := h.watched event hb.event_eq hlive
    rw [← hr.bindPosted_of_ne hact₂, hp, hin] at hwatched
    cases hwatched
  · intro event' _ hno
    rw [hdown] at hno
    cases hno
  · intro _
    refine ⟨?_, hdown⟩
    rw [hconn]
    exact Option.some_ne_none _
  · rw [hr.stack_eq, List.count_append, hcnt]
    omega

theorem Inv.unbound (h : Inv srv s) (hr : Ran s l .resetTail rest e t)
    (he : e = s.conn.resetTail) : Inv srv t := by
  have hu : t.conn.Unbound := by
    rw [hr.conn_eq, he]
    exact ⟨rfl, rfl, rfl⟩
  have hnone : ∀ event, t.conn.ioEvent ≠ some event := fun _ => hu.event_ne
  have hcount := hr.turn.count_resetTail
  have honce := h.once
  rw [if_pos rfl] at hcount
  have hgone : t.stack.count .resetTail = 0 := by
    have hpop : e.frames = [] := by rw [he]; rfl
    rw [hr.stack_eq, hpop, List.nil_append]
    omega
  have hpending : .resetTail ∈ s.stack := by
    rw [← List.count_pos_iff]
    omega
  refine ⟨hr.conn_eq ▸ hr.held, fun event hsome => absurd hsome (hnone event),
    fun event hsome => absurd hsome (hnone event), fun _ => hu, ?_,
    fun event hsome => absurd hsome (hnone event), ?_, by omega, hr.stale⟩
  · intro hp
    have hlive := h.posted (by rw [← hr.bindPosted_of_ne (by simp), hp])
    rw [(h.closing hpending).2] at hlive
    cases hlive
  · intro hmem
    exact absurd hmem (List.count_eq_zero.mp hgone)

theorem Inv.step (h : Inv srv s) (hs : step srv s l = .next t) : Inv srv t := by
  cases step_next h.held hs with
  | accepted ha => exact h.accepted ha
  | polled hstack hr hevent hentry hrep =>
    refine ⟨h.held, h.fresh, h.mode, h.pooled, h.posted, h.watched, h.closing, h.once, ?_⟩
    intro id ev hr'
    cases hr'
    exact h.fresh _ hevent
  | skipped hstack =>
    exact ⟨h.held, h.fresh, h.mode, h.pooled, h.posted, h.watched, h.closing, h.once,
      fun _ _ hr => nomatch hr⟩
  | returned hstack =>
    refine ⟨h.held, h.fresh, h.mode, h.pooled, h.posted, h.watched, ?_, ?_, h.stale⟩
    · intro hm
      refine h.closing ?_
      rw [hstack]
      exact List.mem_cons_of_mem _ hm
    · have := h.once
      rw [hstack, List.count_cons] at this
      dsimp only
      omega
  | @ran _ act rest e _ hturn hact hm hconn hstack hbind hrep havail hnext htrace =>
    have hheld : e.conn.Held := by
      refine hm.held h.held fun hb => h.posted ?_
      subst hb
      exact hturn.bindFunctor
    have hstale : ∀ id ev, t.reported = some (id, ev) → id < t.nextSocket := by
      intro id ev hr
      rcases hrep with ⟨hrep, -⟩ | ⟨hrep, -⟩
      · rw [hrep] at hr
        rw [hnext]
        exact h.stale id ev hr
      · rw [hrep] at hr
        cases hr
    have hran : Ran s l act rest e t :=
      ⟨hturn, hheld, hstale, hconn, hstack, hbind, havail, hnext⟩
    cases hm.shape with
    | kept hsock hloop hkey hnot hact₁ hact₂ =>
      exact h.kept hran hsock hloop hkey hnot hact₁ hact₂
    | registered hact hsock _ hevent _ hkey hnot =>
      subst hact
      exact h.registered hran hsock hevent hkey hnot
    | closed hb hc hin hshut hcnt hact₁ hact₂ =>
      exact h.closed hran hb hc hin hshut hcnt hact₁ hact₂
    | unbound hact he =>
      subst hact
      exact h.unbound hran he

/-- The invariant holds in every reachable state. -/
theorem Inv.of_run {index : ℕ} {ls : List Label}
    (h : run (Session.step srv) (Session.start index) ls = .next s) : Inv srv s :=
  run_invariant (fun _ _ _ hi hs => Inv.step hi hs) (.start index) h

/-- What holds behind `accept`, and is kept by every other step, holds in every state of a session
that is started after any history of the slot. -/
theorem Inv.of_session {P : Session → Prop} {index : ℕ} {hist ls : List Label}
    (hist_run : run (Session.step srv) (Session.start index) hist = .next s)
    (one_session : .accept ∉ ls)
    (hstart : P
      { s with
        conn := rebound srv s.conn s.nextSocket
        bindPosted := true
        available := false
        nextSocket := s.nextSocket + 1
        trace := [] })
    (hstep : ∀ s l t, P s → Inv srv s → l ≠ .accept → Session.step srv s l = .next t → P t)
    (h : run (Session.step srv) s (.accept :: ls) = .next t) : P t ∧ Inv srv t := by
  have hinv : Inv srv s := .of_run hist_run
  rw [run_cons, Outcome.bind_eq_next] at h
  obtain ⟨s₁, hacc, hrun⟩ := h
  have hfirst : P s₁ := by
    cases step_next hinv.held hacc with
    | accepted ha => exact hstart
    | ran hturn => cases hturn
  have hlabels : ∀ l ∈ ls, l ≠ .accept := fun l hl hacc => one_session (hacc ▸ hl)
  have hkeep : ∀ s l t, P s ∧ Inv srv s → l ≠ .accept → Session.step srv s l = .next t →
      P t ∧ Inv srv t := fun s l t hs hl h => ⟨hstep s l t hs.1 hs.2 hl h, hs.2.step h⟩
  exact run_invariant_of hkeep ⟨hfirst, hinv.step hacc⟩ (stepsMeet_of_forall hlabels) hrun

theorem turn_raises : (s.turn l).Raises (· = .deadEvent) := by
  cases l with
  | dispatch w =>
    simp only [turn, Outcome.raises_bind, Outcome.raises_require, true_and]
    intro _ _
    cases s.reported with
    | none => simp
    | some entry =>
      have hderef : (Outcome.deref s.conn.ioEvent Fault.deadEvent).Raises (· = .deadEvent) :=
        fun f hf => (Outcome.deref_eq_fault.mp hf).2.symm
      simp [hderef]
  | ret | read | go =>
    simp only [turn]
    split <;> simp
  | _ => simp [turn]

theorem newConnection_eq {c : TcpConnection} {id : ℕ} (h : c.Unbound) :
    srv.newConnection c { id := id } 0 = .next (rebound srv c id) := by
  obtain ⟨hl, he, hs⟩ := h
  simp only [TcpServer.newConnection, TcpConnection.bindSocket, hl, he, hs, Socket.isConnected,
    Outcome.check_pos, Outcome.next_bind, Outcome.pure_eq, and_self]
  rfl

/-- A step fails on a dead event or in the code that its label runs. -/
theorem Inv.step_fault {f : Fault} (h : Inv srv s) (hf : Session.step srv s l = .fault f) :
    (f = .deadEvent ∧ s.turn l = .fault f) ∨
      ∃ act rest, Turn s l act rest ∧ s.conn.Cause act f := by
  by_cases ha : l = .accept
  · subst ha
    simp only [Session.step, Outcome.bind_eq_fault, Outcome.require_ne_fault,
      Outcome.require_eq_next, false_or] at hf
    obtain ⟨-, ha, hf⟩ := hf
    rw [newConnection_eq (h.pooled ha)] at hf
    simp at hf
  by_cases hp : ∃ ev, l = .poll ev
  · obtain ⟨ev, rfl⟩ := hp
    simp only [Session.step, Outcome.bind_eq_fault, Outcome.require_ne_fault, false_or] at hf
    obtain ⟨-, -, hf⟩ := hf
    split at hf <;> simp at hf
  · rw [step_eq_turn ha (fun ev he => hp ⟨ev, he⟩), Outcome.bind_eq_fault] at hf
    rcases hf with hf | ⟨⟨o, s'⟩, hturn, hf⟩
    · exact .inl ⟨turn_raises f hf, hf⟩
    · rcases turn_next srv hturn with ⟨rfl, -⟩ | ⟨act, rfl, hh⟩
      · simp at hf
      · simp only [Outcome.bind_eq_fault, Outcome.pure_eq, reduceCtorEq, and_false, exists_false,
          or_false] at hf
        rw [hh.conn] at hf
        exact .inr ⟨act, s'.stack, hh.turn, TcpConnection.perform_cause h.held act f hf⟩

end Potato.Session
