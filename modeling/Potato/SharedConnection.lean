import Potato.ConnectionMoves

/-!
# A connection that several threads may run

What a piece of code does to a connection whatever the pointers of it are, and on
whichever thread it runs: the buffers stay sound, the connection is bound to no
other socket than before, and without pointers it stays so.
-/
namespace Potato.TcpConnection
open Words Machine

/-- The buffers are valid, and `handleReadEvent` has room for a read. -/
structure Sound (c : TcpConnection) : Prop where
  readValid : c.readBuffer.Valid
  writeValid : c.writeBuffer.Valid
  room : 4096 ≤ c.readBuffer.free

/-- The buffers are sound, and the socket, if there is one, is that of `c`, open or closed. -/
structure Stays (c d : TcpConnection) : Prop where
  sound : d.Sound
  socket : ∀ socket, d.socket = some socket → ∃ socket', c.socket = some socket' ∧
    socket'.id = socket.id
  unbound : c.Unbound → d.Unbound

variable {c d : TcpConnection} {e : Effect} {act : Act}

theorem Sound.fresh (index : ℕ) : Sound { index := index } :=
  ⟨.fresh, .fresh, le_of_eq Buffer.free_fresh.symm⟩

theorem Sound.of_buffers (h : c.Sound) (hr : d.readBuffer = c.readBuffer)
    (hw : d.writeBuffer = c.writeBuffer) : d.Sound :=
  ⟨hr ▸ h.readValid, hw ▸ h.writeValid, hr ▸ h.room⟩

theorem Sound.held (h : c.Sound) (hu : c.Unbound) : c.Held :=
  .of_unbound h.readValid h.writeValid h.room hu

theorem Stays.of_socket (h : d.Sound) (hs : d.socket = c.socket) (hu : c.Unbound → d.Unbound) :
    c.Stays d :=
  ⟨h, fun socket hd => ⟨socket, hs ▸ hd, rfl⟩, hu⟩

theorem Sound.refl (h : c.Sound) : c.Stays c := .of_socket h rfl id

theorem Stays.trans {b : TcpConnection} (h : b.Stays c) (h' : c.Stays d) : b.Stays d := by
  refine ⟨h'.sound, fun socket hd => ?_, fun hu => h'.unbound (h.unbound hu)⟩
  obtain ⟨socket', hc, hid⟩ := h'.socket socket hd
  obtain ⟨socket'', hb, hid'⟩ := h.socket socket' hc
  exact ⟨socket'', hb, hid'.trans hid⟩

theorem Sound.withReadBuffer {b : Buffer} (h : c.Sound) (hv : b.Valid) (hroom : 4096 ≤ b.free) :
    c.Stays { c with readBuffer := b } :=
  .of_socket ⟨hv, h.writeValid, hroom⟩ rfl id

theorem Sound.withWriteBuffer {b : Buffer} (h : c.Sound) (hv : b.Valid) :
    c.Stays { c with writeBuffer := b } :=
  .of_socket ⟨h.readValid, hv, h.room⟩ rfl id

theorem Sound.onEvent {f : IOEvent → Option Mask → Outcome Fault (IOEvent × Option Mask)}
    (h : c.Sound) (hf : c.onEvent f = .next d) : c.Stays d := by
  simp only [TcpConnection.onEvent, Outcome.bind_eq_next, Outcome.deref_eq_next, Outcome.pure_eq,
    Outcome.next.injEq] at hf
  obtain ⟨event, he, entry, -, rfl⟩ := hf
  exact .of_socket (h.of_buffers rfl rfl) rfl fun hu => absurd he hu.event_ne

theorem Stays.calling (h : c.Stays d) (callback : Callback) (o : Obs) (rest : List Frame) :
    c.Stays (d.calling callback o rest).conn := by
  rwa [calling_conn]

theorem Sound.handleCloseEvent (h : c.Sound) (he : c.handleCloseEvent = .next e) :
    c.Stays e.conn := by
  cases hs : c.socket with
  | none =>
    simp only [TcpConnection.handleCloseEvent, hs, Outcome.pure_eq, Outcome.next.injEq] at he
    exact he ▸ h.refl
  | some socket =>
    simp only [TcpConnection.handleCloseEvent, hs, Outcome.bind_eq_next] at he
    obtain ⟨-, -, -, -, he⟩ := he
    split_ifs at he
    · simp only [Outcome.bind_eq_next] at he
      obtain ⟨c', hc', he⟩ := he
      have hsound := (h.onEvent hc').sound
      have hshut : c.Stays { c' with socket := some socket.close, entry := none } := by
        refine ⟨hsound.of_buffers rfl rfl, fun socket' hd => ?_,
          fun hu => absurd hs hu.socket_ne⟩
        cases hd
        exact ⟨socket, hs, rfl⟩
      split_ifs at he
      · simp only [destroyConnection, reset, Outcome.bind_eq_next, Outcome.pure_eq,
          Outcome.next.injEq] at he
        obtain ⟨-, -, -, -, -, -, -, -, rfl⟩ := he
        exact hshut.calling ..
      · cases he
        exact hshut
    · cases he
      exact h.refl

theorem Sound.readBody {r : ReadResult} (h : c.Sound) (he : c.readBody r = .next e) :
    c.Stays e.conn := by
  simp only [TcpConnection.readBody, Outcome.bind_eq_next, h.readValid.writeableBytes_eq,
    Outcome.next.injEq] at he
  obtain ⟨socket, -, offered, rfl, u, hread, he⟩ := he
  cases r with
  | again =>
    cases he
    exact h.refl
  | error =>
    simp only [Outcome.bind_eq_next, Outcome.pure_eq, Outcome.next.injEq] at he
    obtain ⟨e', hclose, rfl⟩ := he
    have hstays := h.handleCloseEvent hclose
    exact hstays
  | data data =>
    cases data with
    | nil =>
      simp only [Outcome.bind_eq_next, Outcome.pure_eq, Outcome.next.injEq] at he
      obtain ⟨e', hclose, rfl⟩ := he
      have hstays := h.handleCloseEvent hclose
      exact hstays
    | cons byte bytes =>
      obtain ⟨b, hfill, hv, -⟩ := h.readValid.fill_spec (Outcome.require_eq_next.mp hread).2
      simp only [hfill, Outcome.next_bind, hv.writeableBytes_eq] at he
      by_cases hroom : b.free < 4096
      · simp only [if_pos hroom, Outcome.bind_eq_next, Buffer.allocate, Outcome.check_eq_next,
          Outcome.pure_eq, Outcome.next.injEq] at he
        obtain ⟨u', hfits, b', hexp, rfl⟩ := he
        obtain ⟨b₁, hexp', hv₁, -, hfree₁, -⟩ := hv.expandBuffer_spec (hfits hroom)
        rw [hexp', Outcome.next.injEq] at hexp
        subst hexp
        exact (h.withReadBuffer hv₁ hfree₁).calling ..
      · simp only [if_neg hroom, Outcome.pure_eq, Outcome.next_bind, Outcome.next.injEq] at he
        subst he
        exact (h.withReadBuffer hv (Nat.le_of_not_lt hroom)).calling ..

theorem Sound.flush {socket : Socket} {w : WriteResult} (h : c.Sound)
    (he : c.flush socket w = .next e) : c.Stays e.conn := by
  simp only [TcpConnection.flush, h.writeValid.readAsSlice_eq, Outcome.next_bind] at he
  split_ifs at he
  · simp only [Outcome.bind_eq_next] at he
    obtain ⟨u, hwrite, he⟩ := he
    cases w with
    | again =>
      simp only [Outcome.bind_eq_next, Outcome.pure_eq, Outcome.next.injEq] at he
      obtain ⟨c', hc', rfl⟩ := he
      exact h.onEvent hc'
    | error =>
      simp only [Outcome.bind_eq_next, Outcome.pure_eq, Outcome.next.injEq] at he
      obtain ⟨e', hclose, rfl⟩ := he
      have hstays := h.handleCloseEvent hclose
      exact hstays
    | sent k =>
      obtain ⟨b, hret, hv, -⟩ := h.writeValid.retrieve_spec (Outcome.require_eq_next.mp hwrite).2.1
      have hb := h.withWriteBuffer hv
      simp only [hret, Outcome.next_bind, hv.readableBytes_eq] at he
      split_ifs at he
      · simp only [Outcome.bind_eq_next, Outcome.pure_eq, Outcome.next.injEq] at he
        obtain ⟨c', hc', rfl⟩ := he
        exact (hb.trans (hb.sound.onEvent hc')).calling ..
      · cases he
        exact hb
  · cases he
    exact h.refl

theorem Sound.writeDirect {socket : Socket} {str : Bytes} {w : WriteResult} (h : c.Sound)
    (he : c.writeDirect socket str w = .next e) : c.Stays e.conn := by
  simp only [TcpConnection.writeDirect, Outcome.bind_eq_next] at he
  obtain ⟨u, -, he⟩ := he
  split_ifs at he
  · simp only [Outcome.bind_eq_next, Outcome.pure_eq, Outcome.next.injEq] at he
    obtain ⟨e', hclose, rfl⟩ := he
    have hstays := h.handleCloseEvent hclose
    exact hstays
  · simp only [Outcome.bind_eq_next, Outcome.pure_eq, Outcome.next.injEq] at he
    obtain ⟨u', ha, b, hbw, c', hc', rfl⟩ := he
    have hb := h.withWriteBuffer (allocate_write h.writeValid List.length_drop ha hbw).1
    exact hb.trans (hb.sound.onEvent hc')
  · cases he
    exact h.refl.calling ..

theorem Sound.writeFunctor {str : Bytes} {w : WriteResult} (h : c.Sound)
    (he : c.writeFunctor str w = .next e) : c.Stays e.conn := by
  cases hs : c.socket with
  | none =>
    simp only [TcpConnection.writeFunctor, hs, Outcome.pure_eq, Outcome.next.injEq] at he
    exact he ▸ h.refl
  | some socket =>
    simp only [TcpConnection.writeFunctor, hs, Outcome.bind_eq_next] at he
    obtain ⟨event, -, -, -, he⟩ := he
    split_ifs at he
    · simp only [writeBuffered, Outcome.bind_eq_next, Outcome.pure_eq, Outcome.next.injEq] at he
      obtain ⟨u, ha, b, hbw, rfl⟩ := he
      exact h.withWriteBuffer (allocate_write h.writeValid rfl ha hbw).1
    · exact h.writeDirect he
    · cases he
      exact h.refl

/-- Whatever code runs, the connection stays with its socket. -/
theorem Sound.perform {p : Platform} (h : c.Sound) (he : c.perform p act = .next e) :
    c.Stays e.conn := by
  cases act with
  | bindFunctor =>
    simp only [TcpConnection.perform, bindFunctor, Outcome.bind_eq_next, Outcome.pure_eq,
      Outcome.next.injEq] at he
    obtain ⟨c', hc', rfl⟩ := he
    exact (h.onEvent hc').calling ..
  | handleCloseEvent => exact h.handleCloseEvent he
  | handleReadEvent =>
    simp only [TcpConnection.perform, handleReadEvent] at he
    split at he
    · cases he
      exact h.refl
    · simp only [Outcome.bind_eq_next] at he
      obtain ⟨-, -, he⟩ := he
      split_ifs at he <;> cases he <;> exact h.refl
  | handleWriteEvent w =>
    simp only [TcpConnection.perform, handleWriteEvent] at he
    split at he
    · cases he
      exact h.refl
    · simp only [Outcome.bind_eq_next] at he
      obtain ⟨event, -, he⟩ := he
      split_ifs at he
      · simp only [Outcome.bind_eq_next] at he
        obtain ⟨-, -, he⟩ := he
        exact h.flush he
      · cases he
        exact h.refl
  | writeFunctor str w => exact h.writeFunctor he
  | close =>
    simp only [TcpConnection.perform, Outcome.bind_eq_next] at he
    obtain ⟨target, -, he⟩ := he
    cases target with
    | none =>
      cases he
      exact h.refl
    | some loop => exact h.handleCloseEvent he
  | write str w =>
    simp only [TcpConnection.perform, Outcome.bind_eq_next] at he
    obtain ⟨target, -, he⟩ := he
    cases target with
    | none =>
      cases he
      exact h.refl
    | some loop => exact h.writeFunctor he
  | take t =>
    simp only [TcpConnection.perform, take, Outcome.bind_eq_next, Outcome.pure_eq,
      Outcome.next.injEq] at he
    obtain ⟨b, ht, rfl⟩ := he
    have hb := Take.consumed h.readValid ht
    exact h.withReadBuffer hb.valid (h.room.trans hb.free_le)
  | readBody r => exact h.readBody he
  | readTest =>
    simp only [TcpConnection.perform, readTest, Outcome.bind_eq_next, Outcome.pure_eq,
      Outcome.next.injEq] at he
    obtain ⟨event, -, rfl⟩ := he
    exact h.refl
  | writeTail =>
    simp only [TcpConnection.perform, writeTail, h.writeValid.readableBytes_eq,
      Outcome.next_bind] at he
    split_ifs at he
    · simp only [Outcome.bind_eq_next, Outcome.pure_eq, Outcome.next.injEq] at he
      obtain ⟨c', hc', rfl⟩ := he
      exact h.onEvent hc'
    · cases he
      exact h.refl
  | resetTail =>
    cases he
    have hu : c.resetTail.conn.Unbound := ⟨rfl, rfl, rfl⟩
    exact ⟨h.of_buffers rfl rfl, fun _ hd => absurd hd hu.socket_ne, fun _ => hu⟩

end Potato.TcpConnection
