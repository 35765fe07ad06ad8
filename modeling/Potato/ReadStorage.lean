import Potato.BufferStorage
import Potato.SessionInvariant

/-!
# The storage of a pooled connection

The read buffer of a connection is filled by `read`, asked for 4096 bytes of room, and consumed by
user code, over all the sessions of its slot. Its storage stays within what was unread at some time
and 8192 bytes.
-/
namespace Potato
open Words Machine

namespace TcpConnection
variable {c : TcpConnection} {e : Effect} {act : Act} {p : Platform}

/-- What was read is unread when the storage grows. -/
theorem Held.readBody_storage {byte : Byte} {bytes : Bytes} (h : c.Held)
    (he : c.readBody (.data (byte :: bytes)) = .next e) :
    e.conn.readBuffer.buf.length ≤
      max c.readBuffer.buf.length (e.conn.readBuffer.content.length + 8192) := by
  simp only [readBody, Outcome.bind_eq_next, h.readValid.writeableBytes_eq, Outcome.next.injEq,
    Socket.read, Outcome.require_eq_next] at he
  obtain ⟨socket, -, offered, rfl, -, ⟨-, hfits⟩, b, hfill, he⟩ := he
  obtain ⟨b', hfill', hv, -⟩ := h.readValid.fill_spec hfits
  obtain rfl : b' = b := Outcome.next.inj (hfill'.symm.trans hfill)
  have hlen := (Buffer.fill_size hfill).1
  simp only [hv.writeableBytes_eq, Outcome.next.injEq, exists_eq_left'] at he
  split_ifs at he with hroom
  · simp only [Buffer.allocate, Outcome.bind_eq_next, Outcome.check_eq_next, Outcome.pure_eq,
      Outcome.next.injEq] at he
    obtain ⟨-, hallocated, b₁, hexp, rfl⟩ := he
    have hf : b'.Fits 4096 := hallocated hroom
    obtain ⟨b₂, hexp', -, hcontent, -⟩ := hv.expandBuffer_spec hf
    obtain rfl : b₂ = b₁ := Outcome.next.inj (hexp'.symm.trans hexp)
    have hbound := (hv.expandedSize_bounds hf).2
    rw [← hv.expandBuffer_size hexp, hlen, ← hcontent] at hbound
    dsimp only
    rw [calling_conn]
    exact hbound
  · simp only [Outcome.pure_eq, Outcome.next_bind, Outcome.next.injEq] at he
    subst he
    dsimp only
    rw [calling_conn]
    exact hlen.le.trans (le_max_left _ _)

/-- No other code gives the read buffer more storage. -/
theorem Held.perform_storage (h : c.Held) (he : c.perform p act = .next e) (hm : c.Move act e) :
    e.conn.readBuffer.buf.length ≤
      max c.readBuffer.buf.length (e.conn.readBuffer.content.length + 8192) := by
  have hsame {b : Buffer} (hb : b = c.readBuffer) :
      b.buf.length ≤ max c.readBuffer.buf.length (b.content.length + 8192) := by
    rw [hb]
    exact le_max_left _ _
  cases hm with
  | ignored | reading | blocked | broken | looped | appended | sentPart | flushedPart | stalled |
      tailed | unbound => exact hsame rfl
  | registered =>
    refine hsame ?_
    rw [calling_conn]
    rfl
  | closed _ _ _ _ hclose =>
    subst hclose
    refine hsame ?_
    dsimp only
    rw [calling_conn]
    rfl
  | sentAll _ _ _ _ _ _ hcall =>
    subst hcall
    refine hsame ?_
    dsimp only
    rw [calling_conn]
  | flushedAll _ _ _ _ _ _ _ _ hcall =>
    subst hcall
    refine hsame ?_
    dsimp only
    rw [calling_conn]
    rfl
  | consumed _ hconsumed => exact hconsumed.storage.le.trans (le_max_left _ _)
  | @received data _ _ _ hne =>
    obtain ⟨byte, bytes, rfl⟩ := List.exists_cons_of_ne_nil hne
    exact h.readBody_storage he

end TcpConnection

namespace Session
variable {srv : TcpServer} {s t : Session} {l : Label}

/-- The number of unread bytes. -/
def unread (s : Session) : ℕ := s.conn.readBuffer.content.length

theorem Inv.step_storage (h : Inv srv s) (hs : Session.step srv s l = .next t) :
    t.conn.readBuffer.buf.length ≤ max s.conn.readBuffer.buf.length (t.unread + 8192) := by
  cases step_next h.held hs with
  | accepted | polled | skipped | returned => exact le_max_left _ _
  | ran _ hact hm hconn =>
    rw [unread, hconn]
    exact h.held.perform_storage hact hm

theorem run_storage {index : ℕ} {ls : List Label}
    (run_eq : run (Session.step srv) (start index) ls = .next s) :
    s.conn.readBuffer.buf.length ≤ peakState (Session.step srv) unread (start index) ls + 8192 := by
  obtain ⟨n, hn⟩ : ∃ n, n = peakState (Session.step srv) unread (start index) ls := ⟨_, rfl⟩
  have hstart : Inv srv (start index) ∧ (start index).conn.readBuffer.buf.length ≤ n + 8192 := by
    refine ⟨.start index, ?_⟩
    change Buffer.fresh.buf.length ≤ n + 8192
    rw [Buffer.length_buf_fresh]
    omega
  have hstep : ∀ s l t, Inv srv s ∧ s.conn.readBuffer.buf.length ≤ n + 8192 → True →
      s.unread ≤ n → t.unread ≤ n → Session.step srv s l = .next t →
      Inv srv t ∧ t.conn.readBuffer.buf.length ≤ n + 8192 := by
    rintro s l t ⟨hi, hle⟩ - - ht hs
    have hbound := hi.step_storage hs
    exact ⟨hi.step hs, by omega⟩
  rw [← hn]
  exact (run_invariant_peak hstep hstart hn.ge (stepsMeet_of_forall fun _ _ => trivial) run_eq).2

end Session

/-- Storage is bounded by what it had to hold. In every run of calls on a fresh buffer whose
requests fit into a `size_t`, the storage is at most what was readable at some time and twice the
largest request, and the next call leaves it at least as large if and only if its request fits;
and in every run of the sessions of a slot, the read buffer has at most 8192 bytes more than were
unread at some time. -/
theorem storage_bounded (srv : TcpServer) (index : ℕ) :
    (∀ (calls : List BufferCall) (b : Buffer),
      StepsMeet (Buffer.call srv.platform) Buffer.RequestFits .fresh calls →
      run (Buffer.call srv.platform) .fresh calls = .next b →
      b.buf.length ≤ max 4096
        (peakState (Buffer.call srv.platform) (·.content.length) .fresh calls +
          2 * peak (Buffer.call srv.platform) Buffer.requested .fresh calls) ∧
      ∀ c b', b.requested c < sizeBound → b.call srv.platform c = .next b' →
        (b.buf.length ≤ b'.buf.length ↔ b.RequestFits c)) ∧
    ∀ (ls : List Label) (s : Session), run (Session.step srv) (.start index) ls = .next s →
      s.conn.readBuffer.buf.length ≤
        peakState (Session.step srv) Session.unread (.start index) ls + 8192 := by
  refine ⟨fun calls b hfits hrun => ?_, fun ls s hrun => Session.run_storage hrun⟩
  obtain ⟨hv, hbound⟩ := Buffer.run_storage hfits hrun
  exact ⟨hbound, fun c b' hlen hc => hv.call_keeps_iff hlen hc⟩

/-- Three bytes, of which one is consumed, and a request for more room than there is. -/
def growing : List BufferCall :=
  [.op (.write [97, 98, 99]), .op (.retrieve 1), .op (.expandBuffer 5000)]

/-- A session that receives two bytes. -/
def receiving : List Label :=
  [.accept, .bound, .poll EPOLLIN, .dispatch .again, .read (.data [1, 2])]

theorem storage_bounded_grown :
    (∃ b, run (Buffer.call ⟨.linux, .little⟩) .fresh growing = .next b ∧ b.buf.length ≤ 10003) ∧
    ∃ s, run (Session.step ⟨⟨.linux, .little⟩, true, false, true, false⟩) (.start 0) receiving =
        .next s ∧ s.conn.readBuffer.buf.length ≤ 8194 := by
  constructor
  · obtain ⟨b, hrun, -⟩ := Outcome.yields_eq_true.mp (show
      (run (Buffer.call ⟨.linux, .little⟩) .fresh growing).yields (fun _ => true) = true by
      decide +kernel)
    have hpeak :
        peakState (Buffer.call ⟨.linux, .little⟩) (·.content.length) .fresh growing = 3 := by
      decide +kernel
    have hlargest :
        peak (Buffer.call ⟨.linux, .little⟩) Buffer.requested .fresh growing = 5000 := by
      decide +kernel
    have hbound := ((storage_bounded ⟨⟨.linux, .little⟩, true, false, true, false⟩ 0).1 growing b
      (by decide +kernel) hrun).1
    dsimp only at hbound
    rw [hpeak, hlargest] at hbound
    exact ⟨b, hrun, hbound⟩
  · obtain ⟨s, hrun, -⟩ := Outcome.yields_eq_true.mp (show
      (run (Session.step ⟨⟨.linux, .little⟩, true, false, true, false⟩) (.start 0)
        receiving).yields (fun _ => true) = true by decide +kernel)
    have hpeak : peakState (Session.step ⟨⟨.linux, .little⟩, true, false, true, false⟩)
        Session.unread (.start 0) receiving = 2 := by
      decide +kernel
    have hbound :=
      (storage_bounded ⟨⟨.linux, .little⟩, true, false, true, false⟩ 0).2 receiving s hrun
    rw [hpeak] at hbound
    exact ⟨s, hrun, hbound⟩

/-- A request whose sum with the size of the storage wraps to zero leaves no storage. -/
theorem expandBuffer_shrinks : ∃ b b',
    run (Buffer.call ⟨.linux, .little⟩) .fresh [.op (.write [97, 98, 99])] = .next b ∧
      b.buf.length = 4096 ∧
      b.call ⟨.linux, .little⟩ (.op (.expandBuffer (2 ^ 64 - 4096))) = .next b' ∧
      b'.buf.length = 0 ∧ b'.writeableBytes = .fault .assertion := by
  obtain ⟨b, hrun, hc⟩ := Outcome.yields_eq_true.mp (show
    (run (Buffer.call ⟨.linux, .little⟩) .fresh [.op (.write [97, 98, 99])]).yields (fun b =>
      decide (b.buf.length = 4096) &&
      (b.call ⟨.linux, .little⟩ (.op (.expandBuffer (2 ^ 64 - 4096)))).yields (fun b' =>
        decide (b'.buf.length = 0) && b'.writeableBytes.faults .assertion)) = true by
    decide +kernel)
  simp only [Bool.and_eq_true, decide_eq_true_eq, Outcome.yields_eq_true] at hc
  obtain ⟨hlen, b', hexp, hnone, hfault⟩ := hc
  exact ⟨b, b', hrun, hlen, hexp, hnone, Outcome.faults_eq_true.mp hfault⟩

end Potato
