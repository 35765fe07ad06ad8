import Potato.OutgoingStream

/-!
# Notifications of complete writes

`writeCompleteCallback_` is called from two places: behind a direct write that sent the whole
message, and behind a write from the buffer that emptied it. In both the outgoing stream of the
session has nothing left, at whatever depth of callbacks the code runs.
-/
namespace Potato
open Words Machine

namespace TcpConnection
variable {c : TcpConnection} {e : Effect} {act : Act}

/-- The code sends the last byte that is submitted: a functor of `write` on an idle connection
sends its whole message at once, or a write event empties the buffer. -/
def Completes (c : TcpConnection) : Act → Bool
  | .writeFunctor str w | .write str w =>
    c.isConnected && c.ioEvent.any (!·.isWriting) && w != .error && w.count == str.length
  | .handleWriteEvent (.sent n) =>
    c.isConnected && c.writeBuffer.content != [] && n == c.writeBuffer.content.length
  | _ => false

/-- Nothing waits for output, and the kernel is not asked for it. -/
structure Idle (c : TcpConnection) : Prop where
  empty : c.writeBuffer.content = []
  notWriting : ∀ event, c.ioEvent = some event → event.isWriting = false
  connected : c.isConnected = true

theorem count_calling {callback : Callback} {o : Obs} {rest : List Frame} :
    (c.calling callback o rest).obs.count .writeComplete =
      if c.isSet callback then [o].count .writeComplete else 0 := by
  unfold calling
  split_ifs <;> rfl

theorem head_calling {callback : Callback} {o : Obs} {rest : List Frame}
    (h : c.isSet callback = true) :
    (c.calling callback o rest).frames.head? = some (.user callback) := by
  rw [calling, if_pos h]
  rfl

theorem Closes.not_completes {event : IOEvent} {seen : List Obs} {tail : List Frame}
    (h : Closes c event act seen tail) :
    c.Completes act = false ∧ seen.count .writeComplete = 0 := by
  cases h with
  | directError hsub hw => rcases hsub with rfl | rfl <;> exact ⟨by simp [Completes], by simp⟩
  | _ => exact ⟨rfl, by simp⟩

/-- What one move has to do with `writeCompleteCallback_`. -/
structure Signals (c : TcpConnection) (act : Act) (e : Effect) : Prop where
  count : e.obs.count .writeComplete =
    if c.writeCompleteCallback && c.Completes act then 1 else 0
  idle : c.Completes act = true → e.conn.Idle
  called : c.writeCompleteCallback = true → c.Completes act = true →
    e.frames.head? = some (.user .writeComplete)

theorem Signals.silent (hcount : e.obs.count .writeComplete = 0)
    (hno : c.Completes act = false) : Signals c act e :=
  ⟨by rw [hcount, hno, Bool.and_false, if_neg Bool.false_ne_true],
    fun h => Bool.noConfusion (hno.symm.trans h),
    fun _ h => Bool.noConfusion (hno.symm.trans h)⟩

theorem completes_of_submits {event : IOEvent} {str : Bytes} {w : WriteResult}
    (hsub : Submits act str w) (he : c.ioEvent = some event) :
    c.Completes act =
      (c.isConnected && !event.isWriting && w != .error && w.count == str.length) := by
  rcases hsub with rfl | rfl <;> simp [Completes, he]

/-- One move calls `writeCompleteCallback_` once if it completes the stream, and else not. -/
theorem Move.signals (ha : c.Armed) (hm : c.Move act e) : Signals c act e := by
  cases hm with
  | @ignored act hg hc =>
    refine .silent rfl ?_
    cases act with
    | handleWriteEvent w => cases w <;> simp [Completes, hc]
    | writeFunctor str w | write str w => simp [Completes, hc]
    | _ => rfl
  | reading | blocked | broken | looped | consumed | stalled | tailed | unbound =>
    exact .silent (by simp [resetTail]) rfl
  | registered => exact .silent (by rw [count_calling]; simp) rfl
  | received _ _ _ _ _ _ he =>
    subst he
    exact .silent (by rw [List.count_cons, count_calling]; simp) rfl
  | closed _ _ _ hclose he =>
    subst he
    obtain ⟨hno, hseen⟩ := hclose.not_completes
    exact .silent (by rw [List.count_append, hseen, count_calling]; simp) hno
  | appended hact hb hc hw =>
    exact .silent (by simp) (by simp [completes_of_submits hact hb.event_eq, hw])
  | sentPart hact hb hc hw hin herr hlt =>
    refine .silent (by simp) ?_
    rw [completes_of_submits hact hb.event_eq, beq_eq_false_iff_ne.mpr hlt.ne, Bool.and_false]
  | flushedPart hb hc hw hpos hlt =>
    refine .silent (by simp) ?_
    rw [Completes, beq_eq_false_iff_ne.mpr hlt.ne, Bool.and_false]
  | @sentAll _ str w event socket _ hact hb hc hw herr hcount he =>
    subst he
    have hconn : c.isConnected = true := by rw [hb.isConnected, hc]
    have hdone : c.Completes act = true := by
      simp [completes_of_submits hact hb.event_eq, hconn, hw, herr, hcount]
    refine ⟨?_, ?_, ?_⟩
    · rw [hdone, Bool.and_true, List.count_append, count_calling]
      simp [isSet]
    · intro _
      rw [calling_conn]
      refine ⟨ha.content_eq_nil hb hc hw, ?_, hconn⟩
      intro event' he
      rw [hb.event_eq, Option.some.injEq] at he
      rw [← he, hw]
    · intro hset _
      exact head_calling hset
  | @flushedAll n event socket b _ hb hc hw hin hne hn hv hcont he =>
    subst he
    have hconn : c.isConnected = true := by rw [hb.isConnected, hc]
    have hdone : c.Completes (.handleWriteEvent (.sent n)) = true := by
      simp [Completes, hconn, hne, hn]
    refine ⟨?_, ?_, ?_⟩
    · rw [hdone, Bool.and_true, List.count_cons, count_calling]
      simp [isSet, TcpConnection.armed]
    · intro _
      rw [calling_conn]
      refine ⟨hcont, ?_, hconn⟩
      intro event' he
      cases he
      rfl
    · intro hset _
      exact head_calling hset

end TcpConnection

namespace Session
variable {srv : TcpServer} {s t : Session} {l : Label}

/-- The step runs code that completes the outgoing stream, and the callback is set. -/
def Completes (s : Session) (l : Label) : Prop :=
  s.conn.writeCompleteCallback = true ∧
    ∃ act rest, Turn s l act rest ∧ s.conn.Completes act = true

/-- `writeCompleteCallback_` is about to run, and everything that was submitted has been handed to
the kernel, which is not asked for output any more. -/
structure Notified (s : Session) : Prop where
  called : s.stack.head? = some (.user .writeComplete)
  empty : s.conn.writeBuffer.content = []
  notWriting : ∀ event, s.conn.ioEvent = some event → event.isWriting = false
  disarmed : ∀ mask, s.conn.entry = some mask → mask &&& EPOLLOUT = 0
  handed : bytesOf Obs.accepted s.trace = bytesOf Obs.submission s.trace

/-- A label runs one piece of code at most. -/
theorem Turn.unique {act act' : Act} {rest rest' : List Frame} (h : Turn s l act rest)
    (h' : Turn s l act' rest') : act = act' := by
  cases h with
  | bound => cases h'; rfl
  | dispatch _ he hr hcb hact =>
    cases h' with
    | dispatch _ he' hr' hcb' hact' =>
      rw [he, Option.some.injEq] at he'
      subst he'
      rw [hr, Option.some.injEq, Prod.mk.injEq] at hr'
      obtain ⟨-, rfl⟩ := hr'
      rw [hcb, Option.some.injEq] at hcb'
      rw [hact, hact', hcb']
  | call => cases h'; rfl
  | posted => cases h'; rfl
  | read => cases h'; rfl
  | readTest hs =>
    cases h' with
    | readTest => rfl
    | writeTail hs' | resetTail hs' => cases hs.symm.trans hs'
  | writeTail hs =>
    cases h' with
    | writeTail => rfl
    | readTest hs' | resetTail hs' => cases hs.symm.trans hs'
  | resetTail hs =>
    cases h' with
    | resetTail => rfl
    | readTest hs' | writeTail hs' => cases hs.symm.trans hs'

/-- One step of a session with a balanced stream. -/
theorem step_notifies (h : Flow s) (hi : Inv srv s) (hl : l ≠ .accept)
    (hs : step srv s l = .next t) : ∃ seen, t.trace = s.trace ++ seen ∧
      ((s.Completes l ∧ seen.count .writeComplete = 1 ∧ t.Notified) ∨
        (¬ s.Completes l ∧ seen.count .writeComplete = 0)) := by
  have hflow := h.step hi hl hs
  have hinv := hi.step hs
  cases step_next hi.held hs with
  | accepted ha => exact absurd rfl hl
  | polled =>
    refine ⟨[], by simp, .inr ⟨?_, rfl⟩⟩
    rintro ⟨-, act, rest, hturn, -⟩
    cases hturn
  | @skipped w event ev hstack he hr hcb =>
    refine ⟨[], by simp, .inr ⟨?_, rfl⟩⟩
    rintro ⟨-, act, rest, hturn, -⟩
    cases hturn with
    | dispatch _ he' hr' hcb' =>
      rw [he, Option.some.injEq] at he'
      subst he'
      rw [hr, Option.some.injEq, Prod.mk.injEq] at hr'
      obtain ⟨-, rfl⟩ := hr'
      rw [hcb] at hcb'
      cases hcb'
  | returned =>
    refine ⟨[], by simp, .inr ⟨?_, rfl⟩⟩
    rintro ⟨-, act, rest, hturn, -⟩
    cases hturn
  | @ran _ act rest e _ hturn hact hm hconn hstack hbind hrep havail hnext htrace =>
    have hsig := hm.signals h.armed
    refine ⟨e.obs, htrace, ?_⟩
    by_cases hc : s.conn.writeCompleteCallback = true ∧ s.conn.Completes act = true
    · obtain ⟨hset, hdone⟩ := hc
      have hidle := hsig.idle hdone
      rw [← hconn] at hidle
      refine .inl ⟨⟨hset, act, rest, hturn, hdone⟩, ?_, ?_, hidle.empty, hidle.notWriting, ?_, ?_⟩
      · rw [hsig.count, hset, hdone]
        rfl
      · rw [hstack, List.head?_append, hsig.called hset hdone]
        rfl
      · intro mask hmask
        obtain ⟨event, socket, hb, -, -⟩ := hinv.held.bound_of_connected hidle.connected
        have hsync := hinv.held.synced event hb.event_eq
        rw [hmask] at hsync
        by_contra harmed
        have := hsync.armed_iff.mp harmed
        rw [hidle.notWriting event hb.event_eq] at this
        cases this
      · have := hflow.stream hidle.connected
        rwa [hidle.empty, List.append_nil] at this
    · refine .inr ⟨?_, ?_⟩
      · rintro ⟨hset, act', rest', hturn', hdone⟩
        rw [hturn.unique hturn'] at hc
        exact hc ⟨hset, hdone⟩
      · rw [hsig.count, if_neg]
        rwa [Bool.and_eq_true]

/-- In a session that starts with an empty write buffer, after any history of the slot, a step
starts `writeCompleteCallback_` once if it completes the outgoing stream, and else not; and when the
callback starts, everything submitted so far is with the kernel. -/
theorem write_complete_notified (srv : TcpServer) (index : ℕ) (hist ls : List Label)
    (s s₁ t : Session) (l : Label) (hist_run : run (step srv) (start index) hist = .next s)
    (empty : s.conn.writeBuffer.content = []) (one_session : .accept ∉ ls)
    (session_run : run (step srv) s (.accept :: ls) = .next s₁) (hl : l ≠ .accept)
    (hstep : step srv s₁ l = .next t) : ∃ seen, t.trace = s₁.trace ++ seen ∧
      ((s₁.Completes l ∧ seen.count .writeComplete = 1 ∧ t.Notified) ∨
        (¬ s₁.Completes l ∧ seen.count .writeComplete = 0)) := by
  obtain ⟨hflow, hinv⟩ := Flow.of_session hist_run empty one_session session_run
  exact step_notifies hflow hinv hl hstep

/-- Inside the callback of a first message a second one is sent, in two parts: the write event that
sends the last byte starts the callback again. -/
theorem write_complete_notified_again : ∃ s₁ t seen,
    run (step ⟨⟨.linux, .little⟩, false, false, false, true⟩) (start 0)
      [.accept, .bound, .call (.write [1, 2] (.sent 2)), .call (.write [3, 4] (.sent 1)), .ret,
        .poll EPOLLOUT] = .next s₁ ∧
    step ⟨⟨.linux, .little⟩, false, false, false, true⟩ s₁ (.dispatch (.sent 1)) = .next t ∧
    t.trace = s₁.trace ++ seen ∧
    ((s₁.Completes (.dispatch (.sent 1)) ∧ seen.count .writeComplete = 1 ∧ t.Notified) ∨
      (¬ s₁.Completes (.dispatch (.sent 1)) ∧ seen.count .writeComplete = 0)) := by
  obtain ⟨t, ht, -⟩ := Outcome.yields_eq_true.mp (show
    (run (step ⟨⟨.linux, .little⟩, false, false, false, true⟩) (start 0)
      ([.accept, .bound, .call (.write [1, 2] (.sent 2)), .call (.write [3, 4] (.sent 1)), .ret,
        .poll EPOLLOUT] ++ [.dispatch (.sent 1)])).yields (·.conn.isConnected) = true by
    decide +kernel)
  rw [run_append, Outcome.bind_eq_next] at ht
  obtain ⟨s₁, hrun, hstep⟩ := ht
  rw [run_cons, Outcome.bind_eq_next] at hstep
  obtain ⟨t', hstep, hnil⟩ := hstep
  obtain ⟨seen, h⟩ := write_complete_notified _ 0 []
    [.bound, .call (.write [1, 2] (.sent 2)), .call (.write [3, 4] (.sent 1)), .ret,
      .poll EPOLLOUT] (start 0) s₁ t' (.dispatch (.sent 1)) rfl Buffer.content_fresh (by decide)
    hrun (by decide) hstep
  exact ⟨s₁, t', seen, hrun, hstep, h⟩

end Session
end Potato
