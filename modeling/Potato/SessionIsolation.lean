import Potato.IdealConnection
import Potato.PostedFunctors

/-!
# Sessions that share a slot

A connection goes back to the pool with whatever its buffers hold, since `reset`
clears the pointers only. Where nothing of the earlier sessions is under way any
more, the next session cannot be told from one on a connection that was never used
exactly when both buffers are empty.
-/
namespace Potato
open Words Machine

namespace Session
variable {srv : TcpServer} {s s' t t' : Session} {l : Label}

/-- What the peer and the user code have seen of the session. -/
def observed (s : Session) : List Obs := s.trace.filter Obs.IsPublic

/-- Two sessions that differ at most in the storage of their buffers. -/
structure Alike (s s' : Session) : Prop where
  ideal : s.conn.ideal = s'.conn.ideal
  beside : s' = { s with conn := s'.conn, trace := s'.trace }
  observed : s.observed = s'.observed

theorem ioEvent_of_ideal {c c' : TcpConnection} (h : c.ideal = c'.ideal) :
    c.ioEvent = c'.ioEvent := by
  have he := congrArg (fun a => a.shell.ioEvent) h
  exact he

theorem turn_congr {c : TcpConnection} {trace : List Obs} (h : s.conn.ioEvent = c.ioEvent) :
    turn { s with conn := c, trace := trace } l =
      s.turn l >>= fun r => pure (r.1, { r.2 with conn := c, trace := trace }) := by
  cases l with
  | accept | poll => rfl
  | bound | call act | posted act =>
    simp only [turn, Outcome.require]
    split_ifs <;> rfl
  | dispatch w =>
    simp only [turn, ← h]
    cases s.reported with
    | none => by_cases hs : s.stack = [] <;> simp [Outcome.require, hs]
    | some entry =>
      cases s.conn.ioEvent with
      | none => by_cases hs : s.stack = [] <;> simp [Outcome.require, Outcome.deref, hs]
      | some event =>
        by_cases hs : s.stack = [] <;> by_cases hid : event.id = entry.1 <;>
          simp [Outcome.require, Outcome.deref, Outcome.check, hs, hid]
  | ret | read r | go =>
    simp only [turn]
    split <;> rfl

/-- Scheduling alone changes neither the connection nor what was seen. -/
theorem turn_kept {o : Option Act} {u : Session} (h : s.turn l = .next (o, u)) :
    u.conn = s.conn ∧ u.trace = s.trace := by
  have hsame : s.turn l =
      s.turn l >>= fun r => pure (r.1, { r.2 with conn := s.conn, trace := s.trace }) :=
    turn_congr rfl
  simp only [h, Outcome.next_bind, Outcome.pure_eq, Outcome.next.injEq, Prod.mk.injEq] at hsame
  rw [hsame.2]
  exact ⟨rfl, rfl⟩

/-- Equal sessions stay equal: each step depends on what the abstract connection holds. -/
theorem Alike.step (h : Alike s s') (hc : s.conn.Held) (hc' : s'.conn.Held) (ha : l ≠ .accept)
    (hs : Session.step srv s l = .next t) (hs' : Session.step srv s' l = .next t') :
    Alike t t' := by
  have hevent := ioEvent_of_ideal h.ideal
  by_cases hp : ∃ ev, l = .poll ev
  · obtain ⟨ev, rfl⟩ := hp
    cases step_next hc hs with
    | ran hturn => cases hturn
    | polled hstack hr hsome hentry hrep =>
      cases step_next hc' hs' with
      | ran hturn => cases hturn
      | polled hstack' hr' hsome' hentry' hrep' =>
        rw [← hevent, hsome, Option.some.injEq] at hsome'
        subst hsome'
        refine ⟨h.ideal, ?_, h.observed⟩
        rw [h.beside]
  · have hl : ∀ ev, l ≠ .poll ev := fun ev he => hp ⟨ev, he⟩
    rw [h.beside, step_eq_turn ha hl, turn_congr hevent] at hs'
    rw [step_eq_turn ha hl] at hs
    obtain ⟨⟨o, u⟩, hturn, hs⟩ := Outcome.bind_eq_next.mp hs
    simp only [hturn, Outcome.next_bind, Outcome.pure_eq] at hs'
    obtain ⟨hconn, htrace⟩ := turn_kept hturn
    cases o with
    | none =>
      simp only [Outcome.pure_eq, Outcome.next.injEq] at hs hs'
      subst hs hs'
      refine ⟨?_, rfl, ?_⟩
      · rw [hconn]
        exact h.ideal
      · rw [Session.observed, htrace]
        exact h.observed
    | some act =>
      simp only [Outcome.bind_eq_next, Outcome.pure_eq, Outcome.next.injEq] at hs hs'
      obtain ⟨e, he, rfl⟩ := hs
      obtain ⟨e', he', rfl⟩ := hs'
      rw [hconn] at he
      have hsame := TcpConnection.perform_ideal hc hc' h.ideal he he'
      refine ⟨congrArg Ideal.Effect.ideal hsame, ?_, ?_⟩
      · have hframes : e.frames = e'.frames := congrArg Ideal.Effect.frames hsame
        simp only [after, hframes]
      · have hobs := congrArg Ideal.Effect.obs hsame
        simp only [Session.observed, after, List.filter_append, htrace]
        exact congrArg₂ (· ++ ·) h.observed hobs

theorem step_call {act : Act} {e : Effect} (hturn : UserTurn s.stack = true)
    (hcall : act.IsCall = true) (he : s.conn.perform srv.platform act = .next e) :
    step srv s (.call act) = .next (s.after act e) := by
  simp [step, turn, Outcome.require, hturn, hcall, he]

theorem step_poll {event : IOEvent} {mask ev : Mask} (hstack : s.stack = [])
    (hr : s.reported = none) (hevent : s.conn.ioEvent = some event)
    (hentry : s.conn.entry = some mask) (hev : mask.Reports ev = true) :
    step srv s (.poll ev) = .next { s with reported := some (event.id, ev) } := by
  simp [step, Outcome.require, hstack, hr, hevent, hentry, hev]

theorem step_dispatch {event : IOEvent} {ev : Mask} {callback : EventCallback} {w : WriteResult}
    {e : Effect} (hstack : s.stack = []) (hevent : s.conn.ioEvent = some event)
    (hr : s.reported = some (event.id, ev))
    (hcb : IOWatcher.callbackFor event ev = some callback)
    (he : s.conn.perform srv.platform (callback.act w) = .next e) :
    step srv s (.dispatch w) = .next ({ s with reported := none }.after (callback.act w) e) := by
  simp [step, turn, Outcome.require, Outcome.check, Outcome.deref, hstack, hevent, hr, hcb, he]

end Session

namespace Slot
variable {n : ℕ} {srv : TcpServer} {m m' t t' : Slot n} {j k : Fin n} {l : SlotLabel n}

/-- Only loop `k` has a hand in the session: the threads of the others are not in the middle of
anything. -/
structure Alone (srv : TcpServer) (k : Fin n) (m : Slot n) : Prop where
  home : Session.Inv srv (m.view k)
  loop : ∀ i, m.conn.loop = some i → i = k.val
  blank : ∀ j, j ≠ k → m.threads j = {}
  reset : (m.threads k).resetPosted = false

/-- What can happen to such a session. -/
inductive Plays (srv : TcpServer) (k : Fin n) (m : Slot n) : SlotLabel n → Slot n → Prop
  | home {l : Label} {s : Session} : l ≠ .accept → (m.view k).step srv l = .next s →
      Plays srv k m (.on k l) (m.put k s)
  | taken {j : Fin n} {t : Take} {e : Effect} : j ≠ k →
      m.conn.perform srv.platform (.take t) = .next e →
      Plays srv k m (.on j (.call (.take t))) { m with conn := e.conn, trace := m.trace ++ e.obs }
  | missed {j : Fin n} {act : Act} : j ≠ k → (∀ t, act ≠ .take t) →
      Plays srv k m (.on j (.call act)) m

theorem Alone.elsewhere_home (h : m.Alone srv k) : m.Elsewhere k = false :=
  elsewhere_eq_false.mpr h.loop

/-- User code on another loop. -/
theorem put_call {act : Act} {e : Effect} {c : TcpConnection} (hblank : m.threads j = {})
    (hframes : e.frames = []) (hact : act ≠ .resetTail) :
    m.put j { (m.view j).after act e with conn := c } =
      { m with conn := c, trace := m.trace ++ e.obs } := by
  have hthread : Function.update m.threads j ({} : LoopThread) = m.threads := by
    rw [← hblank, Function.update_eq_self]
  simp [put, view, Session.after, hblank, hframes, hact, hthread]

theorem blank_call {l : Label} {s : Session} {c : TcpConnection} (hblank : m.threads j = {})
    (haccept : l ≠ .accept) (hpoll : ∀ ev, l ≠ .poll ev) (hposted : ∀ act, l ≠ .posted act)
    (hs : Session.step srv { m.view j with conn := c } l = .next s) : ∃ act, l = .call act := by
  have hstack : (m.view j).stack = [] := by simp [view, hblank]
  have hbind : (m.view j).bindPosted = false := by simp [view, hblank]
  have hreported : (m.view j).reported = none := by simp [view, hblank]
  rcases @step_user srv l { m.view j with conn := c } (by simp [hstack]) hbind
    (by simp [hreported]) haccept hpoll hposted with hno | hno | ⟨callback, rest, hrest, -⟩ | hcall
  · exact absurd (hno.symm.trans hs) (by simp)
  · exact absurd (hno.symm.trans hs) (by simp)
  · exact absurd (hstack.symm.trans hrest) (by simp)
  · exact hcall

theorem stepElsewhere_take {u : Take} (hblank : m.threads j = {})
    (hs : m.stepElsewhere srv j (.call (.take u)) = .next t) :
    ∃ e, m.conn.perform srv.platform (.take u) = .next e ∧
      t = { m with conn := e.conn, trace := m.trace ++ e.obs } := by
  simp only [stepElsewhere, Outcome.bind_eq_next] at hs
  obtain ⟨s, hs, ht⟩ := hs
  obtain ⟨e, he, rfl⟩ := step_call_next hs
  simp only [TcpConnection.perform, TcpConnection.take, Outcome.bind_eq_next, Outcome.pure_eq,
    Outcome.next.injEq] at he
  obtain ⟨b, hb, rfl⟩ := he
  refine ⟨{ conn := { m.conn with readBuffer := b }
            obs := [.taken (m.conn.readBuffer.content.take
              (m.conn.readBuffer.content.length - b.content.length))] }, ?_, ?_⟩
  · simp only [TcpConnection.perform, TcpConnection.take, hb, Outcome.next_bind]
    rfl
  · split_ifs at ht with hdown
    · have hno : m.conn.isConnected = false := hdown.2.2
      rw [hdown.2.1] at hno
      cases hno
    · cases ht
      exact put_call hblank rfl (by simp)

/-- What is done to a connection on a thread that has nothing to do with it. -/
theorem Alone.plays_blank (h : m.Alone srv k) (hj : j ≠ k) {act : Act}
    (hallow : m.Allows j (.call act) = true)
    (hs : (if m.Elsewhere j then m.stepElsewhere srv j (.call act)
      else return m.put j (← (m.view j).step srv (.call act))) = .next t) :
    Plays srv k m (.on j (.call act)) t := by
  cases helse : m.Elsewhere j with
  | true =>
    rw [if_pos helse] at hs
    obtain ⟨u, rfl⟩ : ∃ u, act = .take u := by
      cases act with
      | take u => exact ⟨u, rfl⟩
      | _ => simp [Allows, helse] at hallow
    obtain ⟨e, he, rfl⟩ := stepElsewhere_take (h.blank j hj) hs
    exact .taken hj he
  | false =>
    simp only [helse, Bool.false_eq_true, if_false, Outcome.bind_eq_next, Outcome.pure_eq,
      Outcome.next.injEq] at hs
    obtain ⟨s, hs, rfl⟩ := hs
    have hunbound : m.conn.Unbound :=
      unbound_of_loop (s := m.view k) h.home.held (loop_eq_none h.elsewhere_home helse hj)
    have hidle (f : Functor) (w : WriteResult) (hact : act = f.call w) : s = m.view j :=
      Posting.session_idle (.inl (congrArg Label.call hact)) hunbound.2.2 hs
    cases act with
    | take u =>
      obtain ⟨e, he, rfl⟩ := step_call_next hs
      obtain ⟨-, hframes⟩ := take_consumes (c := m.conn) h.home.held.readValid he
      have hput := @put_call n m j (.take u) e e.conn (h.blank j hj) hframes (by simp)
      exact hput ▸ .taken hj he
    | close =>
      rw [hidle .close .again rfl, put_view]
      exact .missed hj (by simp)
    | write str w =>
      rw [hidle (.write str) w rfl, put_view]
      exact .missed hj (by simp)
    | _ => simp [Session.step, Session.turn, Act.IsCall, Outcome.require] at hs

theorem Alone.plays (h : m.Alone srv k) (haccept : ∀ loop, l ≠ .accept loop)
    (hposted : ∀ j act, l = .on j (.posted act) → j = k) (hs : m.step srv l = .next t) :
    Plays srv k m l t := by
  cases l with
  | accept loop => exact absurd rfl (haccept loop)
  | reset i =>
    simp only [Slot.step, Outcome.bind_eq_next, Outcome.require_eq_next] at hs
    obtain ⟨-, ⟨-, hreset⟩, -⟩ := hs
    by_cases hi : i = k
    · rw [hi, h.reset] at hreset
      cases hreset
    · rw [h.blank i hi] at hreset
      cases hreset
  | on j l =>
    rw [Slot.step, Outcome.bind_eq_next] at hs
    obtain ⟨u, hallow, hs⟩ := hs
    rw [Outcome.require_eq_next] at hallow
    have haccept : l ≠ .accept := by
      rintro rfl
      cases hallow
    by_cases hj : j = k
    · subst hj
      simp only [h.elsewhere_home, Bool.false_eq_true, if_false, Outcome.bind_eq_next,
        Outcome.pure_eq, Outcome.next.injEq] at hs
      obtain ⟨s, hs, rfl⟩ := hs
      exact .home haccept hs
    have hposted : ∀ act, l ≠ .posted act := fun act hl => hj (hposted j act (congrArg _ hl))
    have hpoll : ∀ ev, l ≠ .poll ev := by
      rintro ev rfl
      exact hj (Fin.ext (h.loop _ (by simpa [Allows] using hallow)))
    obtain ⟨act, rfl⟩ : ∃ act, l = .call act := by
      split_ifs at hs
      · simp only [stepElsewhere, Outcome.bind_eq_next] at hs
        obtain ⟨s, hs, -⟩ := hs
        exact blank_call (h.blank j hj) haccept hpoll hposted hs
      · simp only [Outcome.bind_eq_next] at hs
        obtain ⟨s, hs, -⟩ := hs
        exact blank_call (c := m.conn) (h.blank j hj) haccept hpoll hposted hs
    exact h.plays_blank hj hallow hs

theorem Alone.of_plays (h : m.Alone srv k) (hp : Plays srv k m l t) : t.Alone srv k := by
  cases hp with
  | @home l s haccept hs =>
    have hf := follows_step h.home haccept hs
    refine ⟨view_put.symm ▸ h.home.step hs, fun i hi => ?_, fun j hj => ?_, ?_⟩
    · rcases hf.loop with hloop | hu
      · exact h.loop i (hloop.symm.trans hi)
      · exact absurd (hu.1.symm.trans hi) (by simp)
    · rw [put_threads_of_ne hj]
      exact h.blank j hj
    · rw [put_threads_self]
      exact h.reset
  | taken hj he =>
    obtain ⟨hc, -⟩ := take_consumes h.home.held.readValid he
    refine ⟨Consumes.inv (t := m.view k) hc h.home, fun i hi => h.loop i ?_, h.blank, h.reset⟩
    rw [← hi, hc.rest]
    rfl
  | missed => exact h

/-- The session can go on at home as one on a single loop does. -/
theorem Alone.step_home {l : Label} {s : Session} (h : m.Alone srv k) (hl : l ≠ .accept)
    (hs : (m.view k).step srv l = .next s) : m.step srv (.on k l) = .next (m.put k s) := by
  have hallow : m.Allows k l = true := by
    cases l with
    | accept => exact absurd rfl hl
    | poll ev =>
      cases Session.step_next h.home.held hs with
      | ran hturn => cases hturn
      | polled hstack hr hevent =>
        rcases h.home.held.pointers with hu | ⟨event, socket, hb, -⟩
        · exact absurd hevent hu.event_ne
        · obtain ⟨i, hi⟩ := Option.isSome_iff_exists.mp hb.loop_set
          have hi' : m.conn.loop = some i := hi
          simp [Allows, hi', h.loop i hi']
    | call act => cases act <;> simp [Allows, h.elsewhere_home]
    | _ => rfl
  simp [Slot.step, hallow, h.elsewhere_home, hs]

/-- Two slots that differ at most in the storage of the buffers. -/
structure Twins (m m' : Slot n) : Prop where
  ideal : m.conn.ideal = m'.conn.ideal
  beside : m' = { m with conn := m'.conn, trace := m'.trace }
  observed : m.trace.filter Obs.IsPublic = m'.trace.filter Obs.IsPublic

theorem Twins.plays (h : Twins m m') (ha : m.Alone srv k) (ha' : m'.Alone srv k)
    (hp : Plays srv k m l t) (hp' : Plays srv k m' l t') : Twins t t' := by
  have hthreads : m'.threads = m.threads := by rw [h.beside]
  cases hp with
  | @home l s hl hs =>
    cases hp' with
    | taken hj | missed hj => exact absurd rfl hj
    | @home _ s' _ hs' =>
      have halike : Session.Alike (m.view k) (m'.view k) :=
        ⟨h.ideal, by rw [h.beside]; rfl, h.observed⟩
      have hnext := halike.step ha.home.held ha'.home.held hl hs hs'
      refine ⟨hnext.ideal, ?_, hnext.observed⟩
      rw [hnext.beside]
      simp only [put, hthreads]
  | taken hj he =>
    cases hp' with
    | home => exact absurd rfl hj
    | missed _ hact => exact absurd rfl (hact _)
    | taken _ he' =>
      have hsame := TcpConnection.perform_ideal ha.home.held ha'.home.held h.ideal he he'
      refine ⟨congrArg Ideal.Effect.ideal hsame, ?_, ?_⟩
      · rw [h.beside]
      · simp only [List.filter_append, h.observed]
        exact congrArg _ (congrArg Ideal.Effect.obs hsame)
  | missed hj hact =>
    cases hp' with
    | home => exact absurd rfl hj
    | taken => exact absurd rfl (hact _)
    | missed => exact h

/-- A connection from the pool is bound for a loop. -/
theorem alone_reboundTo (hblank : ∀ i, m.threads i = {}) (hsound : m.conn.Sound)
    (hu : m.conn.Unbound) (havail : m.available = true) : (m.reboundTo srv k).Alone srv k where
  home := by
    have hview : (m.reboundTo srv k).view k = { m.view k with
        conn := { Session.rebound srv m.conn m.nextSocket with loop := some k.val }
        bindPosted := true
        available := false
        nextSocket := m.nextSocket + 1
        trace := [] } := by
      simp only [view, reboundTo_threads_self]
      rfl
    have hinv : Session.Inv srv (m.view k) := by
      refine (idle_view (hsound.held hu) hu (.of_nested ?_) ?_ ?_ ?_ ?_ ?_ ?_).1 <;>
      · simp [view, hblank]
    rw [hview]
    exact onLoop (k := 0) (hinv.accepted havail) rfl
  loop := fun i hi => (Option.some.inj hi).symm
  blank := fun j hj => (reboundTo_threads_of_ne hj).trans (hblank j)
  reset := by rw [reboundTo_threads_self, hblank]

theorem step_accept (havail : m.available = true) (hu : m.conn.Unbound) :
    m.step srv (.accept k) = .next (m.reboundTo srv k) := by
  obtain ⟨hl, he, hs⟩ := hu
  simp only [Slot.step, havail, Outcome.require, if_true, TcpServer.newConnection,
    TcpConnection.bindSocket, hl, he, hs, Socket.isConnected, Outcome.check_pos, and_self,
    Outcome.next_bind, Outcome.pure_eq]
  rfl

/-- The connection in the pool has no pointer. -/
structure Pooled (m : Slot n) : Prop where
  sound : m.conn.Sound
  unbound : m.available = true → m.conn.Unbound

end Slot

namespace Session
variable {srv : TcpServer} {s t : Session} {l : Label}

theorem pooled_act {act : Act} {e : Effect} (h : s.conn.Sound)
    (hu : s.available = true → s.conn.Unbound) (he : s.conn.perform srv.platform act = .next e)
    (ht : (s.available || act == .resetTail) = true) : e.conn.Unbound := by
  rw [Bool.or_eq_true, beq_iff_eq] at ht
  rcases ht with ha | rfl
  · exact (h.perform he).unbound (hu ha)
  · cases he
    exact ⟨rfl, rfl, rfl⟩

theorem pooled_step (h : s.conn.Sound) (hu : s.available = true → s.conn.Unbound)
    (hl : l ≠ .accept) (hs : s.step srv l = .next t) (ht : t.available = true) :
    t.conn.Unbound := by
  by_cases hp : ∃ ev, l = .poll ev
  · obtain ⟨ev, rfl⟩ := hp
    simp only [Session.step, Outcome.bind_eq_next] at hs
    obtain ⟨-, -, hs⟩ := hs
    split at hs
    · simp only [Outcome.bind_eq_next, Outcome.pure_eq, Outcome.next.injEq] at hs
      obtain ⟨-, -, rfl⟩ := hs
      exact hu ht
    · cases hs
  · rw [Session.step_eq_turn hl (fun ev he => hp ⟨ev, he⟩), Outcome.bind_eq_next] at hs
    obtain ⟨⟨o, s'⟩, hturn, hs⟩ := hs
    rcases Session.turn_next srv hturn with ⟨rfl, hstep⟩ | ⟨act, rfl, hh⟩
    · cases hs
      cases hstep with
      | accepted => exact absurd rfl hl
      | polled | skipped | returned => exact hu ht
      | ran _ he _ hconn _ _ _ havail => exact hconn ▸ pooled_act h hu he (havail ▸ ht)
    · simp only [Outcome.bind_eq_next, Outcome.pure_eq, Outcome.next.injEq] at hs
      obtain ⟨e, he, rfl⟩ := hs
      rw [hh.conn] at he
      refine pooled_act h hu he ?_
      rw [← hh.available]
      exact ht

end Session

namespace Slot
variable {n : ℕ} {srv : TcpServer} {m t : Slot n} {l : SlotLabel n}

theorem Pooled.start (index : ℕ) : Pooled (start n index) :=
  ⟨.fresh index, fun _ => ⟨rfl, rfl, rfl⟩⟩

/-- Whatever the threads do, a connection in the pool has sound buffers and no pointer. -/
theorem Pooled.step (h : Pooled m) (hs : m.step srv l = .next t) : Pooled t := by
  cases l with
  | accept loop =>
    obtain ⟨-, -, rfl⟩ := step_accept_next hs
    exact ⟨h.sound.of_buffers rfl rfl, fun ha => nomatch ha⟩
  | reset i =>
    have hstays := Posting.slot_stays h.sound (by simp) hs
    simp only [Slot.step, Outcome.bind_eq_next, Outcome.pure_eq, Outcome.next.injEq] at hs
    obtain ⟨-, -, e, -, rfl⟩ := hs
    exact ⟨hstays.sound, fun ha => hstays.unbound (h.unbound ha)⟩
  | on i l =>
    have hstays := Posting.slot_stays h.sound (by simp) hs
    refine ⟨hstays.sound, fun ha => ?_⟩
    obtain ⟨haccept, ⟨s, hrun, rfl⟩ | ⟨s, hrun, hconn, havail⟩⟩ := step_on_next hs
    · exact Session.pooled_step (s := m.view i) h.sound h.unbound haccept hrun ha
    · have hsound : TcpConnection.Sound { m.conn with destroyCallback := false } :=
        h.sound.of_buffers rfl rfl
      have hu := Session.pooled_step hsound (fun hm => h.unbound hm) haccept hrun (havail ▸ ha)
      rw [hconn]
      exact hu

end Slot

namespace Posting
variable {n : ℕ} {srv : TcpServer} {p p' q q' : Posting n} {k : Fin n} {l : PostLabel n}

/-- Nothing of the connection runs, waits or is reported on any thread. -/
def Idle (p : Posting n) : Prop :=
  (∀ i, p.slot.threads i = {}) ∧ p.pending = [] ∧ p.calling = []

instance (p : Posting n) : Decidable p.Idle := inferInstanceAs (Decidable (_ ∧ _ ∧ _))

/-- A connection that was never used, in the place of that of `p`. The sockets are numbered on. -/
def unused (p : Posting n) : Posting n where
  slot := { conn := { index := p.slot.conn.index }, nextSocket := p.slot.nextSocket }

/-- What the peer and the user code have seen of the session, and what user code finds in
`readBuffer()`. -/
def observed (p : Posting n) : List Obs × Bytes :=
  (p.slot.trace.filter Obs.IsPublic, p.slot.conn.readBuffer.content)

/-- Whatever happens in the session that is started next, and on whichever loop, it looks the
same in both. -/
def SameSession (srv : TcpServer) (p q : Posting n) : Prop :=
  ∀ (loop : Fin n) (ls : List (PostLabel n)), (∀ l ∈ ls, ∀ i, l ≠ .slot (.accept i)) →
    Outcome.Agree (fun p q => p.observed = q.observed)
      (run (step srv) p (.slot (.accept loop) :: ls))
      (run (step srv) q (.slot (.accept loop) :: ls))

/-- Nothing is left in the buffers. -/
def Clean (c : TcpConnection) : Prop := c.readBuffer.content = [] ∧ c.writeBuffer.content = []

/-- Only loop `k` has a hand in the session. -/
structure Alone (srv : TcpServer) (k : Fin n) (p : Posting n) : Prop where
  slot : p.slot.Alone srv k
  pending : ∀ f ∈ p.pending, f.loop = k.val
  calling : ∀ c ∈ p.calling, ∀ loop, c.loop = some loop → loop = k.val

theorem loop_of_loopOf {c : TcpConnection} {f : Functor} {loop : ℕ}
    (h : loopOf c f = .next loop) : c.loop = some loop := by
  cases f <;> simp [loopOf] at h
  · exact h.2.2
  · exact h

/-- The step of the slot that a label takes, if it takes one. -/
inductive Moves (srv : TcpServer) (p : Posting n) : PostLabel n → SlotLabel n → Slot n → Prop
  | direct {i : Fin n} {k : ℕ} {w : WriteResult} {c : Call} {slot : Slot n} :
      p.calling[k]? = some c →
      p.slot.step srv (.on i (.call (c.functor.call w))) = .next slot →
      Moves srv p (.direct i k w) (.on i (.call (c.functor.call w))) slot
  | ran {i : Fin n} {k : ℕ} {w : WriteResult} {f : Posted} {slot : Slot n} :
      p.pending[k]? = some f → f.loop = i.val →
      p.slot.step srv (.on i (.posted (f.functor.act w))) = .next slot →
      Moves srv p (.run i k w) (.on i (.posted (f.functor.act w))) slot
  | slot {l : SlotLabel n} {slot : Slot n} : (∀ i act, l ≠ .on i (.posted act)) →
      p.slot.step srv l = .next slot → Moves srv p (.slot l) l slot

theorem Alone.plays (h : p.Alone srv k) {l' : SlotLabel n} {m : Slot n}
    (hl : ∀ loop, l ≠ .slot (.accept loop)) (hm : Moves srv p l l' m) :
    p.slot.Plays srv k l' m := by
  cases hm with
  | direct _ hslot => exact h.slot.plays (by simp) (by simp) hslot
  | ran hget hi hslot =>
    refine h.slot.plays (by simp) (fun j act heq => ?_) hslot
    simp only [SlotLabel.on.injEq] at heq
    rw [← heq.1]
    exact Fin.ext (hi.symm.trans (h.pending _ (List.mem_of_getElem? hget)))
  | slot hno hslot =>
    refine h.slot.plays (fun loop heq => hl loop (heq ▸ rfl)) (fun j act heq => ?_) hslot
    exact absurd heq (hno j act)

theorem Alone.step (h : p.Alone srv k) (hl : ∀ loop, l ≠ .slot (.accept loop))
    (hs : p.step srv l = .next q) : q.Alone srv k := by
  cases step_next hs with
  | missed => exact h
  | called =>
    refine ⟨h.slot, h.pending, fun c hc loop hloop => ?_⟩
    rcases List.mem_append.mp hc with hc | hc
    · exact h.calling c hc loop hloop
    · rw [List.mem_singleton] at hc
      subst hc
      cases hloop
  | entered hget hloop =>
    refine ⟨h.slot, h.pending, fun c hc loop' hloop' => ?_⟩
    rcases List.mem_or_eq_of_mem_set hc with hc | rfl
    · exact h.calling c hc loop' hloop'
    · cases hloop'
      exact h.slot.loop _ (loop_of_loopOf hloop)
  | direct hget _ hslot =>
    exact ⟨h.slot.of_plays (h.plays hl (.direct hget hslot)), h.pending,
      fun c hc => h.calling c (List.mem_of_mem_eraseIdx hc)⟩
  | pushed hget hloop =>
    refine ⟨h.slot, fun f hf => ?_, fun c hc => h.calling c (List.mem_of_mem_eraseIdx hc)⟩
    rcases List.mem_append.mp hf with hf | hf
    · exact h.pending f hf
    · rw [List.mem_singleton] at hf
      subst hf
      exact h.calling _ (List.mem_of_getElem? hget) _ hloop
  | ran hget hi hslot =>
    exact ⟨h.slot.of_plays (h.plays hl (.ran hget hi hslot)),
      fun f hf => h.pending f (List.mem_of_mem_eraseIdx hf), h.calling⟩
  | slot hno hslot =>
    exact ⟨h.slot.of_plays (h.plays hl (.slot hno hslot)), h.pending, h.calling⟩

/-- Two runs whose connections differ at most in the storage of their buffers. -/
structure Twins (p q : Posting n) : Prop where
  slot : p.slot.Twins q.slot
  pending : q.pending = p.pending
  calling : q.calling = p.calling

theorem loopOf_ideal {c c' : TcpConnection} (f : Functor) (h : c.ideal = c'.ideal) :
    loopOf c f = loopOf c' f := by
  have hshell (d : TcpConnection) : loopOf d f = loopOf d.ideal.shell f := by cases f <;> rfl
  rw [hshell c, hshell c', h]

theorem Twins.step (h : p.Twins q) (ha : p.Alone srv k) (ha' : q.Alone srv k)
    (hl : ∀ loop, l ≠ .slot (.accept loop)) (hs : p.step srv l = .next p')
    (hs' : q.step srv l = .next q') : p'.Twins q' := by
  have hsocket : p.slot.conn.socket = q.slot.conn.socket := by
    have he := congrArg (fun a => a.shell.socket) h.slot.ideal
    exact he
  have hplay {l₁ l₂ : SlotLabel n} {m m' : Slot n} (hm : Moves srv p l l₁ m)
      (hm' : Moves srv q l l₂ m') (heq : l₁ = l₂) : m.Twins m' :=
    h.slot.plays ha.slot ha'.slot (ha.plays hl hm) (heq ▸ ha'.plays hl hm')
  have hstep := step_next hs
  have hstep' := step_next hs'
  cases hstep with
  | missed hno =>
    cases hstep' with
    | missed => exact h
    | called hsome => exact absurd (hno.symm.trans (hsocket.trans hsome)) (by simp)
  | called hsome =>
    cases hstep' with
    | missed hno => exact absurd (hno.symm.trans (hsocket.symm.trans hsome)) (by simp)
    | called hsome' =>
      obtain rfl := Option.some.inj (hsome.symm.trans (hsocket.trans hsome'))
      exact ⟨h.slot, h.pending, by rw [h.calling]⟩
  | entered hget hloop =>
    cases hstep' with
    | entered hget' hloop' =>
      rw [h.calling, hget, Option.some.injEq] at hget'
      subst hget'
      rw [← loopOf_ideal _ h.slot.ideal, hloop, Outcome.next.injEq] at hloop'
      subst hloop'
      exact ⟨h.slot, h.pending, by rw [h.calling]⟩
  | direct hget _ hslot =>
    cases hstep' with
    | direct hget' _ hslot' =>
      have hsame := hget'
      rw [h.calling, hget, Option.some.injEq] at hsame
      refine ⟨hplay (.direct hget hslot) (.direct hget' hslot') (by rw [hsame]), h.pending, ?_⟩
      rw [h.calling]
  | pushed hget hloop =>
    cases hstep' with
    | pushed hget' hloop' =>
      rw [h.calling, hget, Option.some.injEq] at hget'
      subst hget'
      rw [hloop, Option.some.injEq] at hloop'
      subst hloop'
      exact ⟨h.slot, by rw [h.pending], by rw [h.calling]⟩
  | ran hget hi hslot =>
    cases hstep' with
    | ran hget' hi' hslot' =>
      have hsame := hget'
      rw [h.pending, hget, Option.some.injEq] at hsame
      refine ⟨hplay (.ran hget hi hslot) (.ran hget' hi' hslot') (by rw [hsame]), ?_, h.calling⟩
      rw [h.pending]
  | slot hno hslot =>
    cases hstep' with
    | slot hno' hslot' =>
      exact ⟨hplay (.slot hno hslot) (.slot hno' hslot') rfl, h.pending, h.calling⟩

theorem step_accept {loop : Fin n} (hs : p.step srv (.slot (.accept loop)) = .next q) :
    p.slot.available = true ∧ p.slot.conn.Unbound ∧
      q = { p with slot := p.slot.reboundTo srv loop } := by
  cases step_next hs with
  | slot _ hslot =>
    obtain ⟨ha, hu, rfl⟩ := Slot.step_accept_next hslot
    exact ⟨ha, hu, rfl⟩

theorem Idle.alone (hidle : p.Idle) (hsound : p.slot.conn.Sound) {loop : Fin n}
    (hs : p.step srv (.slot (.accept loop)) = .next q) : q.Alone srv loop := by
  obtain ⟨ha, hu, rfl⟩ := step_accept hs
  obtain ⟨hblank, hpending, hcalling⟩ := hidle
  exact ⟨Slot.alone_reboundTo hblank hsound hu ha, by simp [hpending], by simp [hcalling]⟩

theorem unused_idle : p.unused.Idle := ⟨fun _ => rfl, rfl, rfl⟩

theorem Idle.twins (hidle : p.Idle) (hclean : Clean p.slot.conn) {loop : Fin n} :
    Twins { p with slot := p.slot.reboundTo srv loop }
      { p.unused with slot := p.unused.slot.reboundTo srv loop } where
  slot :=
    { ideal := Ideal.ext rfl hclean.1 hclean.2
      beside := by
        have hthreads : p.unused.slot.threads = p.slot.threads :=
          funext fun i => (hidle.1 i).symm
        simp only [Slot.reboundTo, hthreads]
        rfl
      observed := rfl }
  pending := hidle.2.1.symm
  calling := hidle.2.2.symm

theorem Idle.sameSession (hidle : p.Idle) (hclean : Clean p.slot.conn)
    (hsound : p.slot.conn.Sound) : SameSession srv p p.unused := by
  intro loop ls hls q q' hq hq'
  rw [run_cons, Outcome.bind_eq_next] at hq hq'
  obtain ⟨p₁, hp₁, hq⟩ := hq
  obtain ⟨q₁, hq₁, hq'⟩ := hq'
  have halone := hidle.alone hsound hp₁
  have halone' := unused_idle.alone (.fresh p.slot.conn.index) hq₁
  have htwins : p₁.Twins q₁ := by
    obtain ⟨-, -, rfl⟩ := step_accept hp₁
    obtain ⟨-, -, rfl⟩ := step_accept hq₁
    exact hidle.twins hclean
  have hstep : ∀ (p q : Posting n) (l : PostLabel n),
      p.Twins q ∧ p.Alone srv loop ∧ q.Alone srv loop → (∀ i, l ≠ .slot (.accept i)) →
        Outcome.Agree (fun p q => p.Twins q ∧ p.Alone srv loop ∧ q.Alone srv loop)
          (p.step srv l) (q.step srv l) :=
    fun _ _ _ h hl _ _ hs hs' =>
      ⟨h.1.step h.2.1 h.2.2 hl hs hs', h.2.1.step hl hs, h.2.2.step hl hs'⟩
  obtain ⟨hsame, -⟩ := run_agree hstep ⟨htwins, halone, halone'⟩ hls q q' hq hq'
  exact Prod.ext hsame.slot.observed (congrArg Ideal.inbox hsame.slot.ideal)

end Posting

namespace Session
variable {srv : TcpServer} {c : TcpConnection} {id : ℕ}

/-- A session behind `accept`. -/
def starting (srv : TcpServer) (c : TcpConnection) (id : ℕ) : Session where
  conn := rebound srv c id
  bindPosted := true
  available := false
  nextSocket := id + 1

/-- The first labels of a session: user code hears of the connection and returns. -/
def opening (srv : TcpServer) : List Label :=
  .bound :: if srv.connectionCallback then [.ret] else []

/-- The event of the session, registered for input. -/
def watching (srv : TcpServer) (id : ℕ) : IOEvent where
  id := id
  etMode := srv.etMode
  inEpoll := true
  events := EPOLLIN ||| EPOLLPRI
  readCallback := true
  writeCallback := true
  closeCallback := true

/-- The same event while output waits. -/
def waiting (srv : TcpServer) (id : ℕ) : IOEvent :=
  { watching srv id with events := EPOLLIN ||| EPOLLPRI ||| EPOLLOUT, isWriting := true }

theorem waiting_reports : (IOWatcher.interest (waiting srv id)).Reports EPOLLOUT = true := by
  unfold IOWatcher.interest
  split_ifs
  · show (EPOLLIN ||| EPOLLPRI ||| EPOLLOUT ||| EPOLLET).Reports EPOLLOUT = true
    decide
  · show (EPOLLIN ||| EPOLLPRI ||| EPOLLOUT).Reports EPOLLOUT = true
    decide

/-- The session behind them. -/
def opened (srv : TcpServer) (c : TcpConnection) (id : ℕ) : Session where
  conn := (rebound srv c id).armed (watching srv id)
  available := false
  nextSocket := id + 1
  trace := if srv.connectionCallback then [.connection true] else []

theorem run_opening :
    run (step srv) (starting srv c id) (opening srv) = .next (opened srv c id) := by
  have hevent : (rebound srv c id).onEvent IOEvent.expectReading =
      .next ((rebound srv c id).armed (watching srv id)) := by
    simp [TcpConnection.onEvent, rebound, Outcome.deref, IOEvent.expectReading,
      IOWatcher.enableIOReading, IOWatcher.addNewIOEvent, Outcome.check, TcpConnection.armed,
      watching]
    rfl
  have hbound : step srv (starting srv c id) .bound = .next { opened srv c id with
      stack := if srv.connectionCallback then [.user .connection] else [] } := by
    have hset : ((rebound srv c id).armed (watching srv id)).isSet .connection =
        srv.connectionCallback := rfl
    simp only [starting, step, turn, Outcome.require, and_self, if_true, Outcome.next_bind,
      Outcome.pure_eq, TcpConnection.perform, TcpConnection.bindFunctor, hevent, after,
      TcpConnection.calling, hset]
    split_ifs with hcb
    · simp only [opened, if_pos hcb]
      rfl
    · simp only [opened, if_neg hcb]
      rfl
  rw [opening, run_cons, hbound, Outcome.next_bind]
  split_ifs <;> rfl

/-- `handleWriteEvent` hands the kernel all that waits in the buffer. -/
theorem flush_waiting {n : ℕ} (hc : c.socket = some { id := id })
    (he : c.ioEvent = some (waiting srv id)) (hk : c.entry ≠ none) (hv : c.writeBuffer.Valid)
    (hpos : 0 < n) (hn : n ≤ c.writeBuffer.content.length) :
    ∃ e post, c.handleWriteEvent (.sent n) = .next e ∧
      e.obs = .wrote c.writeBuffer.content (.sent n) :: post := by
  obtain ⟨b, hretrieve, hvb, -⟩ := hv.retrieve_spec hn
  have hevent : Outcome.deref c.ioEvent Fault.nullPointer = .next (waiting srv id) := by
    rw [he]
    rfl
  have hwaits : (waiting srv id).isWriting = true := rfl
  have hlen : c.writeBuffer.content.length > 0 := hpos.trans_le hn
  have hwrite : Socket.write { id := id } c.writeBuffer.content.length (.sent n) = .next () :=
    if_pos ⟨rfl, hn, fun _ => hpos⟩
  have hignore : IOEvent.ignoreWriting (waiting srv id) c.entry =
      .next (watching srv id, some (IOWatcher.interest (watching srv id))) := by
    have hin : (EPOLLIN ||| EPOLLPRI ||| EPOLLOUT) &&& EPOLLIN ≠ 0 := by decide
    have hmask : (EPOLLIN ||| EPOLLPRI ||| EPOLLOUT) &&& ~~~EPOLLOUT = EPOLLIN ||| EPOLLPRI := by
      decide
    simp [IOEvent.ignoreWriting, waiting, watching, IOWatcher.disableIOWriting,
      IOWatcher.modifyIOEvent, hk, hmask]
    exact ⟨⟨(), Outcome.check_pos hin _⟩, rfl⟩
  simp only [TcpConnection.handleWriteEvent, hc, hevent, Outcome.next_bind, Socket.isConnected,
    if_true, Outcome.check_pos hwaits, TcpConnection.flush, hv.readAsSlice_eq, if_pos hlen, hwrite,
    hretrieve, hvb.readableBytes_eq]
  split_ifs with hall
  · simp only [TcpConnection.onEvent, hevent, hignore, Outcome.next_bind, Outcome.pure_eq]
    exact ⟨_, _, rfl, rfl⟩
  · exact ⟨_, _, rfl, rfl⟩

/-- A first message of which the kernel takes nothing waits in the buffer. -/
theorem submit_opened (hc : c.writeBuffer.Valid)
    (hroom : c.writeBuffer.buf.length + 1 < sizeBound) :
    ∃ c₁ : TcpConnection, (opened srv c id).conn.perform srv.platform (.write [0] .again) =
        .next { conn := c₁, obs := [.submitted [0], .wrote [0] .again] } ∧
      c₁.socket = some { id := id } ∧ c₁.ioEvent = some (waiting srv id) ∧
      c₁.entry = some (IOWatcher.interest (waiting srv id)) ∧ c₁.writeBuffer.Valid ∧
      c₁.writeBuffer.content = c.writeBuffer.content ++ [0] := by
  obtain ⟨b, hwrite, hv, hcont, -⟩ := hc.write_spec [0] fun _ => Buffer.fits_of_lt hroom
  have hin : (EPOLLIN ||| EPOLLPRI) &&& EPOLLIN ≠ 0 := by decide
  refine ⟨{ (opened srv c id).conn with writeBuffer := b }.armed (waiting srv id), ?_, rfl, rfl,
    rfl, hv, hcont⟩
  simp [opened, TcpConnection.armed, rebound, TcpConnection.perform, TcpConnection.write, watching,
    TcpConnection.writeFunctor, Outcome.deref, Outcome.check_pos, Socket.isConnected,
    TcpConnection.writeDirect, Socket.write, WriteResult.count, Buffer.allocate, hwrite,
    TcpConnection.onEvent, IOEvent.expectWriting, IOWatcher.enableIOWriting,
    IOWatcher.modifyIOEvent]
  exact ⟨fun _ => Buffer.fits_of_lt hroom, hin, rfl, rfl⟩

/-- The labels of a first message, taken by the kernel as soon as it reports. -/
def firstMessage : List Label := [.call (.write [0] .again), .poll EPOLLOUT, .dispatch (.sent 1)]

theorem labels_firstMessage :
    ∀ l ∈ opening srv ++ firstMessage, l ≠ .accept ∧ ∀ act, l ≠ .posted act := by
  unfold opening
  cases srv.connectionCallback <;> simp [firstMessage]

/-- The first message of a session goes out behind what an earlier one left to be sent. -/
theorem opened_write (hc : c.writeBuffer.Valid)
    (hroom : c.writeBuffer.buf.length + 1 < sizeBound) :
    ∃ t post, run (step srv) (opened srv c id) firstMessage = .next t ∧
      t.observed = (opened srv c id).observed ++
        .wrote [0] .again :: .wrote (c.writeBuffer.content ++ [0]) (.sent 1) :: post := by
  obtain ⟨c₁, hsubmit, hsocket, hevent, hentry, hv, hcont⟩ := @submit_opened srv c id hc hroom
  obtain ⟨e, post, hflush, hobs⟩ := @flush_waiting srv c₁ id 1 hsocket hevent
    (by simp [hentry]) hv Nat.one_pos (by simp [hcont])
  have hcall := @step_call srv (opened srv c id) _ _ rfl rfl hsubmit
  have hpoll := @step_poll srv ((opened srv c id).after (.write [0] .again)
    ⟨c₁, [], [.submitted [0], .wrote [0] .again]⟩) _ _ _ rfl rfl hevent hentry waiting_reports
  have hrun := run_snoc (run_snoc (run_snoc (run_nil (opened srv c id)) hcall) hpoll)
    (step_dispatch rfl hevent rfl rfl hflush)
  refine ⟨_, post.filter Obs.IsPublic, hrun, ?_⟩
  rw [hcont] at hobs
  simp only [observed, after, hobs, List.filter_append, List.append_assoc]
  rfl

end Session

namespace Posting
variable {n : ℕ} {srv : TcpServer} {p q : Posting n} {k : Fin n}

/-- What a session does on a single loop it does among several. -/
theorem run_home {ls : List Label} {t : Session} (h : p.Alone srv k) (hfree : p.calling = [])
    (hls : ∀ l ∈ ls, l ≠ .accept ∧ ∀ act, l ≠ .posted act)
    (hrun : run (Session.step srv) (p.slot.view k) ls = .next t) :
    ∃ q, run (step srv) p (ls.map fun l => .slot (.on k l)) = .next q ∧ q.slot.view k = t := by
  induction ls generalizing p with
  | nil =>
    cases hrun
    exact ⟨p, rfl, rfl⟩
  | cons l ls ih =>
    obtain ⟨s, hs, hrest⟩ := Outcome.bind_eq_next.mp hrun
    obtain ⟨haccept, hposted⟩ := hls l List.mem_cons_self
    have hslot := h.slot.step_home haccept hs
    have hstep : p.step srv (.slot (.on k l)) = .next { p with slot := p.slot.put k s } := by
      cases l with
      | posted act => exact absurd rfl (hposted act)
      | _ => simp [step, Free, hfree, Outcome.require, hslot]
    obtain ⟨q, hq, hview⟩ := ih (h.step (by simp) hstep) hfree
      (fun l' hl' => hls l' (List.mem_cons_of_mem l hl')) (by rw [Slot.view_put]; exact hrest)
    exact ⟨q, by rw [List.map_cons, run_cons, hstep, Outcome.next_bind, hq], hview⟩

/-- A session on the first loop sends a message, behind what an earlier one left to be sent. -/
theorem run_sending {p : Posting (n + 1)} (hidle : p.Idle) (hpooled : p.slot.Pooled)
    (havail : p.slot.available = true)
    (hroom : p.slot.conn.writeBuffer.buf.length + 1 < sizeBound) :
    ∃ q post, run (step srv) p (.slot (.accept 0) :: (Session.opening srv ++
        Session.firstMessage).map fun l => .slot (.on 0 l)) = .next q ∧
      q.observed.1 = (Session.opened srv p.slot.conn p.slot.nextSocket).observed ++
        .wrote [0] .again :: .wrote (p.slot.conn.writeBuffer.content ++ [0]) (.sent 1) :: post := by
  have haccept : p.step srv (.slot (.accept 0)) =
      .next { p with slot := p.slot.reboundTo srv 0 } := by
    simp [step, Slot.step_accept havail (hpooled.unbound havail)]
  have hview : (p.slot.reboundTo srv 0).view 0 =
      Session.starting srv p.slot.conn p.slot.nextSocket := by
    simp only [Slot.view, Slot.reboundTo_threads_self, hidle.1]
    rfl
  obtain ⟨t, post, hwrite, hobs⟩ := @Session.opened_write srv p.slot.conn p.slot.nextSocket
    hpooled.sound.writeValid hroom
  have hrun : run (Session.step srv) ((p.slot.reboundTo srv 0).view 0)
      (Session.opening srv ++ Session.firstMessage) = .next t := by
    rw [hview, run_append, Session.run_opening, Outcome.next_bind, hwrite]
  obtain ⟨q, hq, hqt⟩ := run_home (hidle.alone hpooled.sound haccept) hidle.2.2
    Session.labels_firstMessage hrun
  refine ⟨q, post, by rw [run_cons, haccept, Outcome.next_bind, hq], ?_⟩
  rw [← hobs, ← hqt]
  rfl

/-- A session on a connection with something left in it gives it away. -/
theorem SameSession.clean {p : Posting (n + 1)} (h : SameSession srv p p.unused)
    (hidle : p.Idle) (hpooled : p.slot.Pooled) (havail : p.slot.available = true)
    (hroom : p.slot.conn.writeBuffer.buf.length + 1 < sizeBound) : Clean p.slot.conn := by
  have hunused : p.unused.slot.Pooled :=
    ⟨.fresh p.slot.conn.index, fun _ => ⟨rfl, rfl, rfl⟩⟩
  constructor
  · -- user code looks at `readBuffer()` at once
    have haccept {q : Posting (n + 1)} (hq : q.slot.Pooled) (ha : q.slot.available = true) :
        run (step srv) q [.slot (.accept 0)] =
          .next { q with slot := q.slot.reboundTo srv 0 } := by
      simp [run_cons, step, Slot.step_accept ha (hq.unbound ha)]
    have hsame := h 0 [] (by simp) _ _ (haccept hpooled havail) (haccept hunused rfl)
    exact congrArg Prod.snd hsame
  · obtain ⟨q, post, hq, hobs⟩ := @run_sending n srv p hidle hpooled havail hroom
    obtain ⟨q', post', hq', hobs'⟩ := @run_sending n srv p.unused unused_idle hunused rfl
      (show Buffer.fresh.buf.length + 1 < sizeBound by rw [Buffer.length_buf_fresh]; decide)
    have hone : ∀ l ∈ (Session.opening srv ++ Session.firstMessage).map
        fun l => (.slot (.on 0 l) : PostLabel (n + 1)), ∀ i, l ≠ .slot (.accept i) := by
      intro l hl i
      obtain ⟨l', -, rfl⟩ := List.mem_map.mp hl
      simp
    have heq := congrArg Prod.fst (h 0 _ hone q q' hq hq')
    rw [hobs, hobs'] at heq
    have hlast := List.append_inj_right heq rfl
    simp only [List.cons.injEq, Obs.wrote.injEq, and_true, true_and] at hlast
    exact List.append_cancel_right (hlast.1.trans (congrArg (· ++ [0]) Buffer.content_fresh))

theorem pooled_step {l : PostLabel n} (h : p.slot.Pooled) (hs : p.step srv l = .next q) :
    q.slot.Pooled := by
  cases step_next hs with
  | direct _ _ hslot | ran _ _ hslot | slot _ hslot => exact h.step hslot
  | _ => exact h

theorem pooled_of_run {index : ℕ} {ls : List (PostLabel n)}
    (h : run (step srv) (start n index) ls = .next p) : p.slot.Pooled :=
  run_invariant (I := fun p : Posting n => p.slot.Pooled) (fun _ _ _ h hs => pooled_step h hs)
    (.start index) h

/-- Session isolation, and when it holds. Where nothing of the earlier sessions is under way, a
connection from the pool is as good as a new one exactly when nothing is left in its buffers. -/
theorem same_session_iff (srv : TcpServer) (n index : ℕ) (hist : List (PostLabel (n + 1)))
    (p : Posting (n + 1)) (hist_run : run (step srv) (start (n + 1) index) hist = .next p)
    (returned : p.slot.available = true) (idle : p.Idle)
    (room : p.slot.conn.writeBuffer.buf.length + 1 < sizeBound) :
    SameSession srv p p.unused ↔ Clean p.slot.conn := by
  have hpooled := pooled_of_run hist_run
  exact ⟨fun h => h.clean idle hpooled returned room, fun h => idle.sameSession h hpooled.sound⟩

/-- A session that read all it got and sent all it was given. -/
theorem same_session_clean : ∃ p,
    run (step ⟨⟨.linux, .little⟩, false, false, true, false⟩) (start 2 0)
      ([.accept 1, .on 1 .bound, .on 1 (.call (.write [5] (.sent 1))), .on 1 (.poll EPOLLIN),
        .on 1 (.dispatch .again), .on 1 (.read (.data [7])),
        .on 1 (.call (.take (.op .retrieveAll))), .on 1 .ret, .on 1 .go, .on 1 (.call .close),
        .on 1 .go].map .slot) = .next p ∧
    SameSession ⟨⟨.linux, .little⟩, false, false, true, false⟩ p p.unused := by
  obtain ⟨p, hp, hc⟩ := Outcome.yields_eq_true.mp (show
    (run (step ⟨⟨.linux, .little⟩, false, false, true, false⟩) (start 2 0)
      ([.accept 1, .on 1 .bound, .on 1 (.call (.write [5] (.sent 1))), .on 1 (.poll EPOLLIN),
        .on 1 (.dispatch .again), .on 1 (.read (.data [7])),
        .on 1 (.call (.take (.op .retrieveAll))), .on 1 .ret, .on 1 .go, .on 1 (.call .close),
        .on 1 .go].map .slot)).yields
          (fun p => p.slot.available && p.slot.conn.writeBuffer.buf.length == 4096 &&
            p.slot.conn.readBuffer.content.isEmpty && p.slot.conn.writeBuffer.content.isEmpty &&
            decide p.Idle) = true by decide +kernel)
  simp only [Bool.and_eq_true, beq_iff_eq, List.isEmpty_iff, decide_eq_true_eq] at hc
  obtain ⟨⟨⟨⟨ha, hw⟩, hread⟩, hwrite⟩, hidle⟩ := hc
  exact ⟨p, hp, (same_session_iff _ 1 0 _ p hp ha hidle (by rw [hw]; decide)).mpr ⟨hread, hwrite⟩⟩

/-- A session leaves a byte unread and a byte unsent, and the next one gets at both. What another
thread has posted in it goes out in the next one, too. -/
theorem leaks_into_next_session :
    (∃ p, run (step ⟨⟨.linux, .little⟩, false, false, true, false⟩) (start 1 0)
        ([.accept 0, .on 0 .bound, .on 0 (.call (.write [5] .again)), .on 0 (.poll EPOLLIN),
          .on 0 (.dispatch .again), .on 0 (.read (.data [7])), .on 0 .ret, .on 0 .go,
          .on 0 (.call .close), .on 0 .go].map .slot) = .next p ∧ p.slot.available = true ∧
      p.Idle ∧ ¬ SameSession ⟨⟨.linux, .little⟩, false, false, true, false⟩ p p.unused) ∧
    (∃ q, run (step ⟨⟨.linux, .little⟩, false, false, true, false⟩) (start 1 0)
        ([.accept 0, .on 0 .bound, .on 0 (.call (.write [5] .again)), .on 0 (.poll EPOLLIN),
          .on 0 (.dispatch .again), .on 0 (.read (.data [7])), .on 0 .ret, .on 0 .go,
          .on 0 (.call .close), .on 0 .go, .accept 0, .on 0 .bound, .on 0 (.poll EPOLLIN),
          .on 0 (.dispatch .again), .on 0 (.read (.data [9])), .on 0 .ret, .on 0 .go,
          .on 0 (.call (.write [6] .again)), .on 0 (.poll EPOLLOUT),
          .on 0 (.dispatch (.sent 2))].map .slot) = .next q ∧
      q.observed = ([.message [7, 9], .wrote [6] .again, .wrote [5, 6] (.sent 2)], [7, 9])) ∧
    ∃ q, run (step ⟨⟨.linux, .little⟩, false, false, true, false⟩) (start 1 0)
        [.slot (.accept 0), .slot (.on 0 .bound), .call 1 (.write [5]), .enter 0, .push 0,
          .slot (.on 0 (.poll EPOLLHUP)), .slot (.on 0 (.dispatch .again)), .slot (.on 0 .go),
          .slot (.accept 0), .slot (.on 0 .bound), .run 0 0 (.sent 1)] = .next q ∧
      q.observed = ([.wrote [5] (.sent 1)], []) := by
  refine ⟨?_, ?_, ?_⟩
  · obtain ⟨p, hp, hc⟩ := Outcome.yields_eq_true.mp (show
      (run (step ⟨⟨.linux, .little⟩, false, false, true, false⟩) (start 1 0)
        ([.accept 0, .on 0 .bound, .on 0 (.call (.write [5] .again)), .on 0 (.poll EPOLLIN),
          .on 0 (.dispatch .again), .on 0 (.read (.data [7])), .on 0 .ret, .on 0 .go,
          .on 0 (.call .close), .on 0 .go].map .slot)).yields
          (fun p => p.slot.available && p.slot.conn.writeBuffer.buf.length == 4096 &&
            !p.slot.conn.writeBuffer.content.isEmpty && decide p.Idle) = true by decide +kernel)
    simp only [Bool.and_eq_true, beq_iff_eq, Bool.not_eq_true', List.isEmpty_eq_false_iff,
      decide_eq_true_eq] at hc
    obtain ⟨⟨⟨ha, hw⟩, hwrite⟩, hidle⟩ := hc
    refine ⟨p, hp, ha, hidle, fun hsame => hwrite ?_⟩
    exact (hsame.clean hidle (pooled_of_run hp) ha (by rw [hw]; decide)).2
  · obtain ⟨q, hq, hobs⟩ := Outcome.yields_eq_true.mp (show
      (run (step ⟨⟨.linux, .little⟩, false, false, true, false⟩) (start 1 0)
        ([.accept 0, .on 0 .bound, .on 0 (.call (.write [5] .again)), .on 0 (.poll EPOLLIN),
          .on 0 (.dispatch .again), .on 0 (.read (.data [7])), .on 0 .ret, .on 0 .go,
          .on 0 (.call .close), .on 0 .go, .accept 0, .on 0 .bound, .on 0 (.poll EPOLLIN),
          .on 0 (.dispatch .again), .on 0 (.read (.data [9])), .on 0 .ret, .on 0 .go,
          .on 0 (.call (.write [6] .again)), .on 0 (.poll EPOLLOUT),
          .on 0 (.dispatch (.sent 2))].map .slot)).yields (fun q => q.observed ==
            ([.message [7, 9], .wrote [6] .again, .wrote [5, 6] (.sent 2)], [7, 9])) = true by
      decide +kernel)
    exact ⟨q, hq, eq_of_beq hobs⟩
  · obtain ⟨q, hq, hobs⟩ := Outcome.yields_eq_true.mp (show
      (run (step ⟨⟨.linux, .little⟩, false, false, true, false⟩) (start 1 0)
        [.slot (.accept 0), .slot (.on 0 .bound), .call 1 (.write [5]), .enter 0, .push 0,
          .slot (.on 0 (.poll EPOLLHUP)), .slot (.on 0 (.dispatch .again)), .slot (.on 0 .go),
          .slot (.accept 0), .slot (.on 0 .bound), .run 0 0 (.sent 1)]).yields (fun q =>
            q.observed == ([.wrote [5] (.sent 1)], [])) = true by decide +kernel)
    exact ⟨q, hq, eq_of_beq hobs⟩

end Posting
end Potato
