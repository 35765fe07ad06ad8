import Potato.ConnectionFaults
import Potato.SessionInvariant

/-!
# The outgoing stream of a session

The direct write and the buffered one keep the order of the messages: while a
connection is open, what the kernel took and what waits in the write buffer are
together what was submitted. The flag `isWriting_` tells whether anything waits.
-/
namespace Potato
open Words Machine

/-- The bytes that the kernel took. -/
def Obs.accepted : Obs → Bytes
  | wrote data result => data.take result.count
  | _ => []

/-- The message of a functor of `write` that ran while the connection was open. -/
def Obs.submission : Obs → Bytes
  | submitted msg => msg
  | _ => []

/-- The socket answered a write with an error other than `EAGAIN`. -/
def Obs.IsWriteError : Obs → Bool
  | wrote _ .error => true
  | _ => false

namespace TcpConnection
variable {c : TcpConnection} {e : Effect} {act : Act}

/-- An open connection is armed for output whenever something waits in its write buffer. -/
def Armed (c : TcpConnection) : Prop :=
  c.isConnected = true → ∀ event, c.ioEvent = some event → c.writeBuffer.content ≠ [] →
    event.isWriting = true

theorem Armed.content_eq_nil {event : IOEvent} {socket : Socket} (ha : c.Armed)
    (hb : c.Bound event socket) (hc : socket.connected = true) (hw : event.isWriting = false) :
    c.writeBuffer.content = [] := by
  by_contra hne
  have hwriting := ha (by rw [hb.isConnected, hc]) event hb.event_eq hne
  rw [hw] at hwriting
  cases hwriting

/-- What one move does to the outgoing stream. -/
structure Outgoing (c : TcpConnection) (e : Effect) : Prop where
  flow : e.conn.isConnected = true →
    bytesOf Obs.accepted e.obs ++ e.conn.writeBuffer.content =
      c.writeBuffer.content ++ bytesOf Obs.submission e.obs
  front : bytesOf Obs.accepted e.obs <+: c.writeBuffer.content ++ bytesOf Obs.submission e.obs
  armed : e.conn.Armed
  failed : e.obs.any Obs.IsWriteError = true → e.conn.isConnected = false
  ended : c.isConnected = false → bytesOf Obs.accepted e.obs = []

theorem Outgoing.of_silent (hbuf : e.conn.writeBuffer.content = c.writeBuffer.content)
    (hacc : bytesOf Obs.accepted e.obs = []) (hsub : bytesOf Obs.submission e.obs = [])
    (hfail : e.obs.any Obs.IsWriteError = false) (harmed : e.conn.Armed) : Outgoing c e where
  flow := fun _ => by rw [hacc, hsub, hbuf, List.nil_append, List.append_nil]
  front := by
    rw [hacc]
    exact List.nil_prefix
  armed := harmed
  failed := fun h => absurd (hfail.symm.trans h) (by simp)
  ended := fun _ => hacc

/-- A callback that is no write adds nothing to the stream. -/
theorem Outgoing.calling {d : TcpConnection} {callback : Callback} {o : Obs}
    {rest frames : List Frame} {seen : List Obs} (hacc : o.accepted = []) (hsub : o.submission = [])
    (hfail : o.IsWriteError = false) (h : Outgoing c { conn := d, obs := seen }) :
    Outgoing c ⟨(d.calling callback o rest).conn, frames,
      seen ++ (d.calling callback o rest).obs⟩ := by
  have hacc' : bytesOf Obs.accepted (seen ++ (d.calling callback o rest).obs) =
      bytesOf Obs.accepted seen := by
    rw [bytesOf_append, bytesOf_calling hacc, List.append_nil]
  have hsub' : bytesOf Obs.submission (seen ++ (d.calling callback o rest).obs) =
      bytesOf Obs.submission seen := by
    rw [bytesOf_append, bytesOf_calling hsub, List.append_nil]
  have hfail' : (seen ++ (d.calling callback o rest).obs).any Obs.IsWriteError =
      seen.any Obs.IsWriteError := by
    rw [List.any_append, any_calling hfail, Bool.or_false]
  refine ⟨?_, ?_, ?_, ?_, ?_⟩ <;> dsimp only
  · rw [hacc', hsub', calling_conn]
    exact h.flow
  · rw [hacc', hsub']
    exact h.front
  · rw [calling_conn]
    exact h.armed
  · rw [hfail', calling_conn]
    exact h.failed
  · rw [hacc']
    exact h.ended

theorem Closes.accepted_eq {event : IOEvent} {seen : List Obs} {tail : List Frame}
    (h : Closes c event act seen tail) : bytesOf Obs.accepted seen = [] := by
  cases h <;> simp [Obs.accepted, WriteResult.count]

theorem any_isWriteError {w : WriteResult} {str : Bytes} (h : w ≠ .error) :
    [Obs.submitted str, .wrote str w].any Obs.IsWriteError = false := by
  cases w with
  | error => exact absurd rfl h
  | _ => rfl

theorem Move.outgoing (ha : c.Armed) (hm : c.Move act e) : Outgoing c e := by
  have hopen {event : IOEvent} {socket : Socket} (hb : c.Bound event socket)
      (hc : socket.connected = true) (hno : c.isConnected = false) : False := by
    rw [hb.isConnected, hc] at hno
    cases hno
  cases hm with
  | ignored | reading | tailed => exact .of_silent rfl rfl rfl rfl ha
  | blocked | broken => exact .of_silent rfl rfl rfl rfl ha
  | looped => exact .of_silent rfl rfl rfl rfl ha
  | consumed => exact .of_silent rfl rfl rfl rfl ha
  | unbound => exact .of_silent rfl rfl rfl rfl (fun hno => nomatch hno)
  | @registered event _ hb hin =>
    have hout : Outgoing c
        { conn := c.armed { event with inEpoll := true, events := EPOLLIN ||| EPOLLPRI } } := by
      refine .of_silent rfl rfl rfl rfl ?_
      intro hc event' he hne
      cases he
      have hw := ha hc event hb.event_eq hne
      exact hw
    exact hout.calling rfl rfl rfl
  | @received data b _ _ _ _ _ _ _ he =>
    subst he
    have hout : Outgoing c
        { conn := { c with readBuffer := b }, obs := [.read c.readBuffer.free (.data data)] } :=
      .of_silent rfl rfl rfl rfl ha
    exact hout.calling rfl rfl rfl
  | @closed _ event socket seen tail _ hb hc hin hclose he =>
    subst he
    have hacc := hclose.accepted_eq
    have hout : Outgoing c { conn := c.shut event socket, obs := seen } := by
      refine ⟨?_, hacc ▸ List.nil_prefix, ?_, fun _ => rfl, fun _ => hacc⟩
      · intro hno
        cases hno
      · intro hno
        cases hno
    exact hout.calling rfl rfl rfl
  | appended hact hb hc hw hv hcont =>
    refine ⟨?_, List.nil_prefix, ?_, (fun hno => nomatch hno), fun _ => rfl⟩
    · intro _
      simp [Obs.accepted, Obs.submission, hcont]
    · intro _ event' he _
      rw [hb.event_eq, Option.some.injEq] at he
      rw [← he, hw]
  | @sentAll _ str w event socket _ hact hb hc hw herr hcount he =>
    subst he
    have hnil := ha.content_eq_nil hb hc hw
    have hout : Outgoing c { conn := c, obs := [.submitted str, .wrote str w] } := by
      refine ⟨?_, ?_, ha, ?_, fun hno => (hopen hb hc hno).elim⟩
      · intro _
        simp [Obs.accepted, Obs.submission, hcount, hnil]
      · simp [Obs.accepted, Obs.submission, hcount, hnil]
      · dsimp only
        rw [any_isWriteError herr]
        intro hno
        cases hno
    exact hout.calling rfl rfl rfl
  | @sentPart _ str w event socket b hact hb hc hw hin herr hlt hv hcont =>
    have hnil := ha.content_eq_nil hb hc hw
    refine ⟨?_, ?_, ?_, ?_, fun hno => (hopen hb hc hno).elim⟩
    · intro _
      simp [Obs.accepted, Obs.submission, TcpConnection.armed, hcont, hnil]
    · simp [Obs.accepted, Obs.submission, hnil, List.take_prefix]
    · intro _ event' he _
      cases he
      rfl
    · dsimp only
      rw [any_isWriteError herr]
      intro hno
      cases hno
  | @flushedAll n event socket b _ hb hc hw hin hne hn hv hcont he =>
    subst he
    have hout : Outgoing c
        { conn := { c with writeBuffer := b }.armed
            { event with events := event.events &&& ~~~EPOLLOUT, isWriting := false }
          obs := [.wrote c.writeBuffer.content (.sent n)] } := by
      refine ⟨?_, ?_, ?_, ?_, fun hno => (hopen hb hc hno).elim⟩
      · intro _
        simp [Obs.accepted, Obs.submission, WriteResult.count, TcpConnection.armed, hcont, hn]
      · simp [Obs.accepted, Obs.submission, WriteResult.count, hn]
      · intro _ event' _ hno
        exact absurd hcont hno
      · intro hno
        cases hno
    exact hout.calling rfl rfl rfl
  | @flushedPart n event socket b hb hc hw hpos hlt hv hcont =>
    refine ⟨?_, ?_, ?_, ?_, fun hno => (hopen hb hc hno).elim⟩
    · intro _
      simp [Obs.accepted, Obs.submission, WriteResult.count, hcont]
    · simp [Obs.accepted, Obs.submission, WriteResult.count, List.take_prefix]
    · intro _ event' he _
      rw [hb.event_eq, Option.some.injEq] at he
      rw [← he, hw]
    · intro hno
      cases hno
  | @stalled event socket hb hc hw hne =>
    exact .of_silent rfl (by simp [Obs.accepted, WriteResult.count]) rfl rfl ha

end TcpConnection

namespace TcpConnection
variable {c : TcpConnection} {e : Effect} {act : Act}

theorem Move.submission_eq_nil (hm : c.Move act e) (hact : ∀ str w, ¬ Submits act str w) :
    bytesOf Obs.submission e.obs = [] := by
  refine bytesOf_eq_nil fun o ho => ?_
  have htells := hm.tells ho
  cases o with
  | submitted msg =>
    obtain ⟨w, hsub⟩ := htells
    exact absurd hsub (hact msg w)
  | _ => rfl

/-- A functor of `write` that finds the connection open submits its message. -/
theorem Move.submission_eq {str : Bytes} {w : WriteResult} (hact : Submits act str w)
    (hm : c.Move act e) (hc : c.isConnected = true) : bytesOf Obs.submission e.obs = str := by
  have hstr {str' : Bytes} {w' : WriteResult} (hsub : Submits act str' w') : str' = str := by
    rcases hact with rfl | rfl <;> rcases hsub with hsub | hsub <;> cases hsub <;> rfl
  cases hm with
  | ignored _ hno =>
    rw [hc] at hno
    cases hno
  | closed _ _ _ hclose he =>
    subst he
    cases hclose with
    | directError hsub =>
      dsimp only
      rw [hstr hsub, bytesOf_append, bytesOf_calling rfl]
      simp [Obs.submission]
    | _ => rcases hact with hact | hact <;> cases hact
  | appended hsub | sentPart hsub => simp [Obs.submission, hstr hsub]
  | sentAll hsub _ _ _ _ _ he =>
    subst he
    dsimp only
    rw [hstr hsub, bytesOf_append, bytesOf_calling rfl]
    simp [Obs.submission]
  | _ => rcases hact with hact | hact <;> cases hact

/-- Nothing is submitted to a connection that is not open. -/
theorem Move.submission_ended (hm : c.Move act e) (hno : c.isConnected = false) :
    bytesOf Obs.submission e.obs = [] := by
  have hopen {event : IOEvent} {socket : Socket} (hb : c.Bound event socket)
      (hc : socket.connected = true) : False := by
    rw [hb.isConnected, hc] at hno
    cases hno
  by_cases hsub : ∃ str w, Submits act str w
  · obtain ⟨str, w, hsub⟩ := hsub
    cases hm with
    | ignored => rfl
    | appended _ hb hc | sentAll _ hb hc | sentPart _ hb hc | closed hb hc =>
      exact (hopen hb hc).elim
    | _ => rcases hsub with hsub | hsub <;> cases hsub
  · exact hm.submission_eq_nil fun str w h => hsub ⟨str, w, h⟩

/-- Only `handleWriteEvent` takes the interest in output away from an open connection. -/
theorem Move.writing (hm : c.Move act e) (hact : ∀ w, act ≠ .handleWriteEvent w) {event : IOEvent}
    (he : e.conn.ioEvent = some event) (hc : e.conn.isConnected = true) :
    ∃ event', c.ioEvent = some event' ∧ event'.id = event.id ∧
      (event'.isWriting = true → event.isWriting = true) := by
  cases hm with
  | ignored | reading | tailed | blocked | broken | looped | consumed | appended =>
    exact ⟨event, he, rfl, id⟩
  | stalled => exact absurd rfl (hact _)
  | flushedAll => exact absurd rfl (hact _)
  | flushedPart => exact absurd rfl (hact _)
  | unbound => cases he
  | registered hb hin =>
    rw [calling_conn] at he
    cases he
    exact ⟨_, hb.event_eq, rfl, id⟩
  | received _ _ _ _ _ _ hcall | sentAll _ _ _ _ _ _ hcall =>
    subst hcall
    rw [calling_conn] at he
    exact ⟨event, he, rfl, id⟩
  | closed _ _ _ _ hcall =>
    subst hcall
    rw [calling_conn] at hc
    cases hc
  | sentPart _ hb =>
    cases he
    exact ⟨_, hb.event_eq, rfl, fun _ => rfl⟩

end TcpConnection

namespace Session
variable {srv : TcpServer} {s t : Session} {l : Label}

/-- The invariant of a session that started with an empty write buffer. -/
structure Flow (s : Session) : Prop where
  stream : s.conn.isConnected = true →
    bytesOf Obs.accepted s.trace ++ s.conn.writeBuffer.content = bytesOf Obs.submission s.trace
  front : bytesOf Obs.accepted s.trace <+: bytesOf Obs.submission s.trace
  armed : s.conn.Armed
  failed : s.trace.any Obs.IsWriteError = true → s.conn.isConnected = false

/-- A reported readiness for output belongs to an event that still waits for it. -/
def Expected (s : Session) : Prop :=
  ∀ id ev event, s.reported = some (id, ev) → s.conn.ioEvent = some event → event.id = id →
    s.conn.isConnected = true → ev &&& EPOLLOUT ≠ 0 → event.isWriting = true

theorem Flow.of_eq (h : Flow s) (hc : t.conn = s.conn) (ht : t.trace = s.trace) : Flow t :=
  ⟨by rw [hc, ht]; exact h.stream, by rw [ht]; exact h.front, by rw [hc]; exact h.armed,
    by rw [hc, ht]; exact h.failed⟩

theorem Flow.accepted (h : s.conn.writeBuffer.content = []) : Flow
    { s with
      conn := rebound srv s.conn s.nextSocket
      bindPosted := true
      available := false
      nextSocket := s.nextSocket + 1
      trace := [] } where
  stream := fun _ => h
  front := List.prefix_rfl
  armed := fun _ _ _ hne => absurd h hne
  failed := fun hno => nomatch hno

theorem Flow.step (h : Flow s) (hi : Inv srv s) (hl : l ≠ .accept)
    (hs : Session.step srv s l = .next t) : Flow t := by
  cases step_next hi.held hs with
  | accepted ha => exact absurd rfl hl
  | polled | skipped | returned => exact h.of_eq rfl rfl
  | @ran _ act rest e _ hturn hact hm hconn hstack hbind hrep havail hnext htrace =>
    have hout := hm.outgoing h.armed
    refine ⟨?_, ?_, by rw [hconn]; exact hout.armed, ?_⟩
    · intro hc
      rw [hconn] at hc ⊢
      rw [htrace, bytesOf_append, bytesOf_append, List.append_assoc, hout.flow hc,
        ← List.append_assoc, h.stream (hm.isConnected_of hc)]
    · rw [htrace, bytesOf_append, bytesOf_append]
      cases hc : s.conn.isConnected with
      | true =>
        rw [← h.stream hc, List.append_assoc, List.prefix_append_right_inj]
        exact hout.front
      | false =>
        rw [hout.ended hc, List.append_nil]
        exact h.front.trans (List.prefix_append _ _)
    · intro hfail
      rw [htrace, List.any_append, Bool.or_eq_true] at hfail
      rw [hconn]
      rcases hfail with hfail | hfail
      · exact hm.isConnected_eq_false (h.failed hfail)
      · exact hout.failed hfail

theorem Expected.step (h : Expected s) (hi : Inv srv s) (hs : Session.step srv s l = .next t) :
    Expected t := by
  cases step_next hi.held hs with
  | accepted ha =>
    intro id ev event hr he hid
    cases he
    have := hi.stale id ev hr
    dsimp only at hid
    omega
  | @polled ev mask event hstack hr hevent hentry hrep =>
    intro id ev' event' hr' he _ _ hout
    cases hr'
    rw [hevent, Option.some.injEq] at he
    subst he
    have hsync := hi.held.synced event hevent
    rw [hentry] at hsync
    exact hsync.armed_iff.mp (Reports.armed hrep hout)
  | skipped =>
    intro id ev event hr
    cases hr
  | returned => exact h
  | @ran _ act rest e _ hturn hact hm hconn hstack hbind hrep havail hnext htrace =>
    intro id ev event hr he hid hc hout
    rcases hrep with ⟨hrep, hl⟩ | ⟨hrep, -⟩
    · rw [hconn] at he hc
      have hact' : ∀ w, act ≠ .handleWriteEvent w := by
        rintro w rfl
        cases hturn with
        | call _ hcall => cases hcall
        | posted _ hf => cases hf
        | dispatch => exact hl _ rfl
      obtain ⟨event', he', hid', hw⟩ := hm.writing hact' he hc
      exact hw (h id ev event' (by rw [← hrep, hr]) he' (hid'.trans hid) (hm.isConnected_of hc)
        hout)
    · rw [hrep] at hr
      cases hr

theorem callbackFor_write {event : IOEvent} {ev : Mask}
    (h : IOWatcher.callbackFor event ev = some .write) : ev &&& EPOLLOUT ≠ 0 := by
  unfold IOWatcher.callbackFor at h
  by_contra hno
  rw [if_neg (show ¬ (ev &&& EPOLLOUT ≠ 0) from fun h' => h' hno)] at h
  split_ifs at h <;> cases h

/-- The assertion at the head of `handleWriteEvent` does not fail. -/
theorem Expected.ne_notWriting (h : Expected s) (hi : Inv srv s) :
    Session.step srv s l ≠ .fault .notWriting := by
  intro hf
  rcases hi.step_fault hf with ⟨hf, -⟩ | ⟨act, rest, hturn, hcause⟩
  · cases hf
  · cases hcause with
    | plain hp => cases hp
    | @notWriting w event hact he hc hw =>
      subst hact
      cases hturn with
      | call _ hcall => cases hcall
      | posted _ hfun => cases hfun
      | @dispatch w event' ev callback _ _ he' hr hcb hact =>
        cases callback with
        | close | read => cases hact
        | write =>
          rw [he', Option.some.injEq] at he
          subst he
          have := h _ ev _ hr he' rfl hc (callbackFor_write hcb)
          rw [hw] at this
          cases this

/-- The invariants hold in every state of a session that starts with an empty write buffer. -/
theorem Flow.of_session {index : ℕ} {hist ls : List Label}
    (hist_run : run (Session.step srv) (start index) hist = .next s)
    (empty : s.conn.writeBuffer.content = []) (one_session : .accept ∉ ls)
    (h : run (Session.step srv) s (.accept :: ls) = .next t) : Flow t ∧ Inv srv t :=
  Inv.of_session hist_run one_session (.accepted empty) (fun _ _ _ hs hi => hs.step hi) h

/-- Outgoing stream integrity. In a session that starts with an empty write buffer, after
any history of the slot, the assertion on `isWriting()` never fails; what the kernel took
is always a front part of what was submitted; while the connection is open the rest is
what waits in the write buffer, and output is asked for exactly when something waits; and
a write that failed has closed the connection. -/
theorem outgoing_stream (srv : TcpServer) (index : ℕ) (hist ls : List Label) (s : Session)
    (hist_run : run (step srv) (start index) hist = .next s)
    (empty : s.conn.writeBuffer.content = []) (one_session : .accept ∉ ls) :
    run (step srv) s (.accept :: ls) ≠ .fault .notWriting ∧
    ∀ t, run (step srv) s (.accept :: ls) = .next t →
      bytesOf Obs.accepted t.trace <+: bytesOf Obs.submission t.trace ∧
      (t.conn.isConnected = true →
        bytesOf Obs.accepted t.trace ++ t.conn.writeBuffer.content = bytesOf Obs.submission t.trace ∧
        ∀ event, t.conn.ioEvent = some event →
          (event.isWriting = true ↔ t.conn.writeBuffer.content ≠ [])) ∧
      (t.trace.any Obs.IsWriteError = true → t.conn.isConnected = false) := by
  have hkeep : ∀ s l t, Expected s ∧ Inv srv s → step srv s l = .next t →
      Expected t ∧ Inv srv t := fun _ _ _ hs h => ⟨hs.1.step hs.2 h, hs.2.step h⟩
  have hstart : Expected (start index) ∧ Inv srv (start index) :=
    ⟨(fun _ _ _ hr => nomatch hr), .start index⟩
  have hreach := run_invariant hkeep hstart hist_run
  constructor
  · exact run_ne_fault hkeep (fun _ _ hs => hs.1.ne_notWriting hs.2) hreach
  · intro t ht
    obtain ⟨hflow, hinv⟩ := Flow.of_session hist_run empty one_session ht
    refine ⟨hflow.front, fun hc => ⟨hflow.stream hc, fun event he => ?_⟩, hflow.failed⟩
    exact ⟨hinv.held.pending event he, hflow.armed hc event he⟩

/-- A message of three bytes of which the kernel takes one at once and two later. -/
theorem outgoing_stream_short_write : ∃ t,
    run (step ⟨⟨.linux, .little⟩, true, true, true, true⟩) (start 0)
      [.accept, .bound, .ret, .call (.write [1, 2, 3] (.sent 1)), .poll EPOLLOUT,
        .dispatch (.sent 2), .ret, .go] = .next t ∧ t.conn.isConnected = true ∧
      bytesOf Obs.accepted t.trace ++ t.conn.writeBuffer.content = bytesOf Obs.submission t.trace := by
  obtain ⟨t, ht, hc⟩ := Outcome.yields_eq_true.mp (show
    (run (step ⟨⟨.linux, .little⟩, true, true, true, true⟩) (start 0)
      [.accept, .bound, .ret, .call (.write [1, 2, 3] (.sent 1)), .poll EPOLLOUT,
        .dispatch (.sent 2), .ret, .go]).yields (·.conn.isConnected) = true by decide +kernel)
  have h := (outgoing_stream _ 0 [] _ (start 0) rfl Buffer.content_fresh (by decide)).2 t ht
  exact ⟨t, ht, hc, (h.2.1 hc).1⟩

end Session
end Potato
