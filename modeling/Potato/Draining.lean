import Potato.OutgoingStream
import Potato.SessionIsolation

/-!
# Draining the write buffer

What waits in the write buffer of an open connection is asked for at the kernel, so
that every report of room runs `handleWriteEvent`. Whatever positive counts `write`
answers with, their sum is what has gone out. When nothing is left, the connection
no longer asks, and user code has been told once.
-/
namespace Potato
open Words Machine

/-- Output that is asked for is handled when there is room and nothing else. -/
theorem IOWatcher.callbackFor_output {event : IOEvent} (h : event.writeCallback = true) :
    callbackFor event EPOLLOUT = some .write := by
  have hclose : ¬ EPOLLOUT &&& (EPOLLHUP ||| EPOLLRDHUP) ≠ 0 := by decide
  have hread : ¬ EPOLLOUT &&& (EPOLLIN ||| EPOLLPRI) ≠ 0 := by decide
  have hwrite : EPOLLOUT &&& EPOLLOUT ≠ 0 := by decide
  rw [callbackFor, if_neg hclose, if_neg hread, if_pos hwrite, if_pos h]

namespace IOEvent
variable {event : IOEvent} {entry : Option Mask}

theorem Synced.reports_output (h : event.Synced entry) (hin : event.inEpoll = true)
    (hw : event.isWriting = true) :
    ∃ mask, entry = some mask ∧ mask.Reports EPOLLOUT = true := by
  refine ⟨_, h.entry_eq.trans (if_pos hin), ?_⟩
  have hevents := h.events_eq
  rw [if_pos hin, if_pos hw] at hevents
  unfold IOWatcher.interest
  rw [hevents]
  split_ifs
  · show (EPOLLIN ||| EPOLLPRI ||| EPOLLOUT ||| EPOLLET).Reports EPOLLOUT = true
    decide
  · show (EPOLLIN ||| EPOLLPRI ||| EPOLLOUT).Reports EPOLLOUT = true
    decide

/-- Output that is asked for can be given up. -/
theorem Synced.ignoreWriting_eq (h : event.Synced entry) (hin : event.inEpoll = true)
    (hw : event.isWriting = true) : ∃ r, event.ignoreWriting entry = .next r := by
  have hevents := h.events_eq
  have hentry : entry ≠ none := by simp [h.entry_eq, hin]
  rw [if_pos hin, if_pos hw] at hevents
  have hmask : event.events &&& EPOLLIN ≠ 0 := by
    rw [hevents]
    decide
  simp only [IOEvent.ignoreWriting, hw, Bool.true_eq_false, if_false, IOWatcher.disableIOWriting,
    IOWatcher.modifyIOEvent, hin, Outcome.check_pos hmask, Outcome.check_pos hentry,
    Outcome.check_pos, Outcome.next_bind, Outcome.pure_eq]
  exact ⟨_, rfl⟩

end IOEvent

namespace TcpConnection
variable {c : TcpConnection} {event : IOEvent} {socket : Socket} {e : Effect} {act : Act} {n : ℕ}

/-- The event of the connection has its write callback. -/
def Wired (c : TcpConnection) : Prop :=
  ∀ event, c.ioEvent = some event → event.writeCallback = true

theorem Move.wired (hm : c.Move act e) (h : c.Wired) : e.conn.Wired := by
  intro event' he
  cases hm with
  | registered hb =>
    rw [calling_conn] at he
    cases he
    exact (h _ hb.event_eq :)
  | closed hb _ _ _ hcall =>
    subst hcall
    rw [calling_conn] at he
    cases he
    exact (h _ hb.event_eq :)
  | flushedAll hb _ _ _ _ _ _ _ hcall =>
    subst hcall
    rw [calling_conn] at he
    cases he
    exact (h _ hb.event_eq :)
  | received _ _ _ _ _ _ hcall | sentAll _ _ _ _ _ _ hcall =>
    subst hcall
    rw [calling_conn] at he
    exact h event' he
  | sentPart _ hb =>
    cases he
    exact (h _ hb.event_eq :)
  | unbound => cases he
  | _ => exact h event' he

/-- A write event of which the kernel takes some bytes goes through. -/
theorem handleWriteEvent_sent (h : c.Held) (hb : c.Bound event socket)
    (hc : socket.connected = true) (hw : event.isWriting = true) (hpos : 0 < n)
    (hn : n ≤ c.writeBuffer.content.length) : ∃ e, c.handleWriteEvent (.sent n) = .next e := by
  obtain ⟨b, hretrieve, hv, -⟩ := h.writeValid.retrieve_spec hn
  have hlen : c.writeBuffer.content.length > 0 := hpos.trans_le hn
  have hwrite : socket.write c.writeBuffer.content.length (.sent n) = .next () :=
    if_pos ⟨hc, hn, fun _ => hpos⟩
  have hin := h.inEpoll_of_writing hb.event_eq (by rw [hb.isConnected, hc]) hw
  obtain ⟨r, hignore⟩ := (h.synced event hb.event_eq).ignoreWriting_eq hin hw
  simp only [handleWriteEvent, hb.socket_eq, hb.event_eq, Outcome.deref, Outcome.next_bind,
    Socket.isConnected, hc, if_true, Outcome.check_pos hw, flush, h.writeValid.readAsSlice_eq,
    if_pos hlen, hwrite, hretrieve, hv.readableBytes_eq]
  split_ifs with hall
  · simp only [onEvent, Outcome.deref, hignore, Outcome.next_bind, Outcome.pure_eq]
    exact ⟨_, rfl⟩
  · exact ⟨_, rfl⟩

/-- The last test of `handleWriteEvent` finds nothing to do. -/
theorem writeTail_eq (h : c.Held) (he : c.ioEvent = some event)
    (hidle : c.writeBuffer.content = [] → event.isWriting = false) :
    c.writeTail = .next { conn := c } := by
  simp only [writeTail, h.writeValid.readableBytes_eq, Outcome.next_bind, List.length_eq_zero_iff]
  split_ifs with hempty
  · simp only [onEvent, he, Outcome.deref, Outcome.next_bind, IOEvent.ignoreWriting, hidle hempty,
      if_true, Outcome.pure_eq]
    rw [← he]
  · rfl

theorem calling_eq (callback : Callback) (o : Obs) (rest : List Frame) :
    c.calling callback o rest =
      ⟨c, (if c.isSet callback then [.user callback] else []) ++ rest,
        if c.isSet callback then [o] else []⟩ := by
  unfold calling
  split_ifs <;> rfl

/-- What a write event does of which the kernel took `n` bytes. -/
structure Flushed (c : TcpConnection) (n : ℕ) (e : Effect) : Prop where
  frames : e.frames = (if c.writeCompleteCallback ∧ n = c.writeBuffer.content.length
    then [.user .writeComplete] else []) ++ [.writeTail]
  obs : e.obs = .wrote c.writeBuffer.content (.sent n) ::
    if c.writeCompleteCallback ∧ n = c.writeBuffer.content.length then [.writeComplete] else []
  content : e.conn.writeBuffer.content = c.writeBuffer.content.drop n
  connected : e.conn.isConnected = true
  callback : e.conn.writeCompleteCallback = c.writeCompleteCallback

theorem Move.flushed (hm : c.Move (.handleWriteEvent (.sent n)) e) (hc : c.isConnected = true) :
    c.Flushed n e := by
  cases hm with
  | ignored _ hno =>
    rw [hc] at hno
    cases hno
  | closed _ _ _ hclose => cases hclose with
    | directError hsub => rcases hsub with hsub | hsub <;> cases hsub
  | appended hsub | sentAll hsub | sentPart hsub => rcases hsub with hsub | hsub <;> cases hsub
  | flushedAll _ _ _ _ _ hn _ hempty hcall =>
    rw [calling_eq] at hcall
    subst hcall
    have hall (hcb : Prop) : (hcb ∧ n = c.writeBuffer.content.length) = hcb := by simp [hn]
    refine ⟨by simp only [hall]; rfl, by simp only [hall]; rfl, ?_, hc, rfl⟩
    rw [hn, List.drop_length]
    exact hempty
  | flushedPart _ _ _ _ hn _ hcontent =>
    have hlt : ¬ (c.writeCompleteCallback = true ∧ n = c.writeBuffer.content.length) :=
      fun h => hn.ne h.2
    exact ⟨by rw [if_neg hlt]; rfl, by rw [if_neg hlt], hcontent, hc, rfl⟩

end TcpConnection

namespace Session
variable {srv : TcpServer} {s t : Session} {n : ℕ}

/-- What happens when there is room for `n` of the `left` bytes that wait: the event, the return of
the callback, if one was called, and the last test. -/
def round (callback : Bool) (left n : ℕ) : List Label :=
  [.poll EPOLLOUT, .dispatch (.sent n)] ++ (if callback ∧ n = left then [.ret] else []) ++ [.go]

def rounds (callback : Bool) : ℕ → List ℕ → List Label
  | _, [] => []
  | left, n :: ns => round callback left n ++ rounds callback (left - n) ns

/-- The thread waits for events, and the connection is open. -/
structure Waiting (srv : TcpServer) (s : Session) : Prop where
  inv : Inv srv s
  stack : s.stack = []
  reported : s.reported = none
  connected : s.conn.isConnected = true
  wired : s.conn.Wired
  armed : s.conn.Armed

theorem step_go {e : Effect} {rest : List Frame} (hstack : s.stack = .writeTail :: rest)
    (he : s.conn.perform srv.platform .writeTail = .next e) :
    step srv s .go = .next ({ s with stack := rest }.after .writeTail e) := by
  simp [step, turn, hstack, he]

/-- A round takes its bytes out of the buffer, and tells user code when they were the last. -/
theorem Waiting.round (h : Waiting srv s) (hpos : 0 < n)
    (hn : n ≤ s.conn.writeBuffer.content.length) :
    ∃ t, run (Session.step srv) s (round s.conn.writeCompleteCallback
        s.conn.writeBuffer.content.length n) = .next t ∧ Waiting srv t ∧
      t.conn.writeBuffer.content = s.conn.writeBuffer.content.drop n ∧
      t.conn.writeCompleteCallback = s.conn.writeCompleteCallback ∧
      t.trace = s.trace ++ .wrote s.conn.writeBuffer.content (.sent n) ::
        if s.conn.writeCompleteCallback ∧ n = s.conn.writeBuffer.content.length
        then [.writeComplete] else [] := by
  obtain ⟨event, socket, hb, -, hc⟩ := h.inv.held.bound_of_connected h.connected
  have hne : s.conn.writeBuffer.content ≠ [] := List.length_pos_iff.mp (hpos.trans_le hn)
  have hw := h.armed h.connected event hb.event_eq hne
  have hin := h.inv.held.inEpoll_of_writing hb.event_eq h.connected hw
  obtain ⟨mask, hentry, hmask⟩ := (h.inv.held.synced event hb.event_eq).reports_output hin hw
  obtain ⟨e, he⟩ := TcpConnection.handleWriteEvent_sent h.inv.held hb hc hw hpos hn
  have hmove := TcpConnection.handleWriteEvent_move h.inv.held he
  have hflush := hmove.flushed h.connected
  have hheld := hmove.held h.inv.held (fun hno => by cases hno)
  obtain ⟨event', he'⟩ : ∃ event', e.conn.ioEvent = some event' := by
    obtain ⟨event', _, hb', -⟩ := hheld.bound_of_connected hflush.connected
    exact ⟨event', hb'.event_eq⟩
  have htail := TcpConnection.writeTail_eq hheld he' fun hempty => by
    by_contra hno
    exact hheld.pending event' he' (by simpa using hno) hempty
  have hpoll : step srv s (.poll EPOLLOUT) =
      .next { s with reported := some (event.id, EPOLLOUT) } :=
    step_poll h.stack h.reported hb.event_eq hentry hmask
  obtain ⟨u, hu⟩ : ∃ u, u = { s with reported := none }.after (.handleWriteEvent (.sent n)) e :=
    ⟨_, rfl⟩
  have hdispatch : step srv { s with reported := some (event.id, EPOLLOUT) } (.dispatch (.sent n)) =
      .next u := by
    rw [hu]
    exact @step_dispatch srv { s with reported := some (event.id, EPOLLOUT) } _ _ _ _ _ h.stack
      hb.event_eq rfl (IOWatcher.callbackFor_output (h.wired event hb.event_eq)) he
  have hustack : u.stack = e.frames := by
    rw [hu]
    exact (congrArg (e.frames ++ ·) h.stack).trans (List.append_nil _)
  have huconn : u.conn = e.conn := by
    rw [hu]
    rfl
  have hutrace : u.trace = s.trace ++ e.obs := by
    rw [hu]
    rfl
  have hgo := @step_go srv { u with stack := [.writeTail] } _ _ rfl
    (show u.conn.writeTail = _ by rw [huconn, htail])
  have hrun : run (Session.step srv) s (Session.round s.conn.writeCompleteCallback
      s.conn.writeBuffer.content.length n) =
      .next ({ u with stack := [] }.after .writeTail { conn := e.conn }) := by
    rw [Session.round, List.append_assoc, run_append, run_cons, hpoll, Outcome.next_bind, run_cons]
    rw [hdispatch, Outcome.next_bind, run_nil, Outcome.next_bind]
    have hframes := hustack.trans hflush.frames
    split_ifs at hframes ⊢ with hall
    · have hret : Session.step srv u .ret = .next { u with stack := [.writeTail] } := by
        simp [Session.step, turn, hframes]
      rw [List.singleton_append, run_cons, hret, Outcome.next_bind, run_cons, hgo]
      rfl
    · rw [List.nil_append] at hframes
      rw [← hframes] at hgo
      rw [List.nil_append, run_cons, hgo]
      rfl
  refine ⟨_, hrun, ⟨?_, rfl, ?_, hflush.connected, hmove.wired h.wired,
    (hmove.outgoing h.armed).armed⟩, hflush.content, hflush.callback, ?_⟩
  · exact run_invariant (fun _ _ _ hi hs => Inv.step hi hs) h.inv hrun
  · rw [hu]
    rfl
  · exact (List.append_nil _).trans (hutrace.trans (congrArg (s.trace ++ ·) hflush.obs))

/-- Rounds that take all there is. -/
theorem Waiting.rounds (h : Waiting srv s) {ns : List ℕ} (hpos : ∀ n ∈ ns, 0 < n)
    (hsum : ns.sum = s.conn.writeBuffer.content.length) :
    ∃ t, run (Session.step srv) s (rounds s.conn.writeCompleteCallback
        s.conn.writeBuffer.content.length ns) = .next t ∧ Waiting srv t ∧
      t.conn.writeBuffer.content = [] ∧
      bytesOf Obs.accepted t.trace =
        bytesOf Obs.accepted s.trace ++ s.conn.writeBuffer.content ∧
      t.trace.count .writeComplete = s.trace.count .writeComplete +
        if s.conn.writeCompleteCallback ∧ ns ≠ [] then 1 else 0 := by
  induction ns generalizing s with
  | nil =>
    have hempty := List.length_eq_zero_iff.mp hsum.symm
    exact ⟨s, rfl, h, hempty, by rw [hempty, List.append_nil], by simp⟩
  | cons n ns ih =>
    rw [List.sum_cons] at hsum
    have hn : 0 < n := hpos n List.mem_cons_self
    obtain ⟨u, hu, hwait, hcontent, hcallback, htrace⟩ := h.round hn (by omega)
    have hlength : u.conn.writeBuffer.content.length = s.conn.writeBuffer.content.length - n := by
      rw [hcontent, List.length_drop]
    obtain ⟨t, ht, hwait', hempty, haccepted, hcount⟩ := ih hwait
      (fun m hm => hpos m (List.mem_cons_of_mem n hm)) (by omega)
    rw [hcallback, hlength] at ht
    refine ⟨t, ?_, hwait', hempty, ?_, ?_⟩
    · rw [Session.rounds, run_append, hu, Outcome.next_bind, ht]
    · have hround : bytesOf Obs.accepted u.trace =
          bytesOf Obs.accepted s.trace ++ s.conn.writeBuffer.content.take n := by
        rw [htrace, bytesOf_append]
        split_ifs <;> simp [Obs.accepted, WriteResult.count]
      rw [haccepted, hround, hcontent, List.append_assoc, List.take_append_drop]
    · rw [hcount, hcallback, htrace, List.count_append]
      -- the round that takes the last byte is the last one
      have hlast : n = s.conn.writeBuffer.content.length ↔ ns = [] := by
        constructor
        · intro he
          by_contra hne
          obtain ⟨m, ms, rfl⟩ := List.exists_cons_of_ne_nil hne
          have hm : 0 < m := hpos m (List.mem_cons_of_mem n List.mem_cons_self)
          rw [List.sum_cons] at hsum
          omega
        · rintro rfl
          simpa using hsum
      simp only [hlast]
      by_cases hcb : s.conn.writeCompleteCallback = true <;> by_cases hns : ns = [] <;>
        simp [hcb, hns]

theorem Waiting.of_session {index : ℕ} {hist ls : List Label} {u : Session}
    (hist_run : run (Session.step srv) (start index) hist = .next s)
    (empty : s.conn.writeBuffer.content = []) (one_session : .accept ∉ ls)
    (h : run (Session.step srv) s (.accept :: ls) = .next u) (hstack : u.stack = [])
    (hreported : u.reported = none) (hconn : u.conn.isConnected = true) :
    Waiting srv u ∧ Flow u := by
  obtain ⟨⟨hflow, hwired⟩, hinv⟩ := Inv.of_session (P := fun s => Flow s ∧ s.conn.Wired) hist_run
    one_session ⟨.accepted empty, fun event he => by cases he; rfl⟩ (fun s l t hs hi hl h => by
      refine ⟨hs.1.step hi hl h, ?_⟩
      cases step_next hi.held h with
      | accepted => exact absurd rfl hl
      | polled | skipped | returned => exact hs.2
      | ran _ _ hm hconn =>
        rw [hconn]
        exact hm.wired hs.2) h
  exact ⟨⟨hinv, hstack, hreported, hconn, hwired, hflow.armed⟩, hflow⟩

end Session
end Potato
