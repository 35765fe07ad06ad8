import Potato.SessionInvariant

/-!
# The incoming stream of a session

`read` fills the tail of the read buffer, the buffer grows before user code sees
it, and user code takes from the front. Nothing is lost between the two, and the
room that `read` is offered never falls below 4096 bytes.
-/
namespace Potato
open Words Machine

/-- The bytes that `read` returned. -/
def Obs.received : Obs → Bytes
  | read _ (.data bytes) => bytes
  | _ => []

/-- The bytes that user code consumed. -/
def Obs.consumption : Obs → Bytes
  | taken data => data
  | _ => []

/-- `read` was offered less than 4096 bytes of room. -/
def Obs.IsTightRead : Obs → Bool
  | read offered _ => offered < 4096
  | _ => false

namespace TcpConnection
variable {c : TcpConnection} {e : Effect} {act : Act}

/-- What one move does to the incoming stream. -/
structure Incoming (c : TcpConnection) (e : Effect) : Prop where
  flow : c.readBuffer.content ++ bytesOf Obs.received e.obs =
    bytesOf Obs.consumption e.obs ++ e.conn.readBuffer.content
  roomy : e.obs.any Obs.IsTightRead = false

theorem Incoming.of_silent (hbuf : e.conn.readBuffer.content = c.readBuffer.content)
    (hrec : bytesOf Obs.received e.obs = []) (hcon : bytesOf Obs.consumption e.obs = [])
    (hroomy : e.obs.any Obs.IsTightRead = false) : Incoming c e where
  flow := by rw [hrec, hcon, hbuf, List.append_nil, List.nil_append]
  roomy := hroomy

/-- A callback that is no read adds nothing to the stream. -/
theorem Incoming.calling {d : TcpConnection} {callback : Callback} {o : Obs}
    {rest frames : List Frame} {seen : List Obs} (hrec : o.received = [])
    (hcon : o.consumption = []) (hroomy : o.IsTightRead = false)
    (h : Incoming c { conn := d, obs := seen }) :
    Incoming c ⟨(d.calling callback o rest).conn, frames,
      seen ++ (d.calling callback o rest).obs⟩ := by
  constructor <;> dsimp only
  · rw [bytesOf_append, bytesOf_append, bytesOf_calling hrec, bytesOf_calling hcon,
      List.append_nil, List.append_nil, calling_conn]
    exact h.flow
  · rw [List.any_append, any_calling hroomy, Bool.or_false]
    exact h.roomy

theorem Held.isTightRead_eq (h : c.Held) (r : ReadResult) :
    (Obs.read c.readBuffer.free r).IsTightRead = false := by
  have := h.room
  simp only [Obs.IsTightRead, decide_eq_false_iff_not]
  omega

theorem Closes.silent {event : IOEvent} {seen : List Obs} {tail : List Frame} (h : c.Held)
    (hclose : Closes c event act seen tail) : bytesOf Obs.received seen = [] ∧
      bytesOf Obs.consumption seen = [] ∧ seen.any Obs.IsTightRead = false := by
  have htight := h.isTightRead_eq
  cases hclose with
  | endOfStream | readError =>
    refine ⟨rfl, rfl, ?_⟩
    rw [List.any_cons, htight]
    rfl
  | _ => exact ⟨rfl, rfl, rfl⟩

theorem Move.incoming (h : c.Held) (hm : c.Move act e) : Incoming c e := by
  have htight := h.isTightRead_eq
  cases hm with
  | ignored | reading | tailed | looped | unbound | appended | sentPart | flushedPart | stalled =>
    exact .of_silent rfl rfl rfl rfl
  | blocked | broken =>
    refine .of_silent rfl rfl rfl ?_
    rw [List.any_cons, htight]
    rfl
  | @registered event _ hb hin =>
    have hmove : Incoming c
        { conn := c.armed { event with inEpoll := true, events := EPOLLIN ||| EPOLLPRI } } :=
      .of_silent rfl rfl rfl rfl
    exact hmove.calling rfl rfl rfl
  | @closed _ event socket seen _ _ hb hc hin hclose he =>
    subst he
    obtain ⟨hrec, hcon, hroomy⟩ := hclose.silent h
    have hmove : Incoming c { conn := c.shut event socket, obs := seen } :=
      .of_silent rfl hrec hcon hroomy
    exact hmove.calling rfl rfl rfl
  | @received data b _ hc hd hl hv hcont hroom he =>
    subst he
    have hmove : Incoming c
        { conn := { c with readBuffer := b }, obs := [.read c.readBuffer.free (.data data)] } := by
      constructor
      · simp [Obs.received, Obs.consumption, hcont]
      · rw [List.any_cons, htight]
        rfl
    exact hmove.calling rfl rfl rfl
  | consumed hn hc =>
    constructor
    · simp [Obs.received, Obs.consumption, hc.content]
    · rfl
  | @sentAll _ str w _ _ _ _ _ _ _ _ _ he =>
    subst he
    have hmove : Incoming c { conn := c, obs := [.submitted str, .wrote str w] } :=
      .of_silent rfl rfl rfl rfl
    exact hmove.calling rfl rfl rfl
  | @flushedAll n event _ b _ _ _ _ _ _ _ _ _ he =>
    subst he
    have hmove : Incoming c
        { conn := { c with writeBuffer := b }.armed
            { event with events := event.events &&& ~~~EPOLLOUT, isWriting := false }
          obs := [.wrote c.writeBuffer.content (.sent n)] } :=
      .of_silent rfl rfl rfl rfl
    exact hmove.calling rfl rfl rfl

theorem Move.consumption_eq_nil (hm : c.Move act e) (hact : ∀ t, act ≠ .take t) :
    bytesOf Obs.consumption e.obs = [] := by
  refine bytesOf_eq_nil fun o ho => ?_
  have htells := hm.tells ho
  cases o with
  | taken data =>
    obtain ⟨t, ht⟩ := htells
    exact absurd ht (hact t)
  | _ => rfl

theorem Move.content_eq (h : c.Held) (hm : c.Move act e) (htake : ∀ t, act ≠ .take t)
    (hread : ∀ r, act ≠ .readBody r) : e.conn.readBuffer.content = c.readBuffer.content := by
  have hflow := (hm.incoming h).flow
  have hnil : bytesOf Obs.received e.obs = [] := by
    refine bytesOf_eq_nil fun o ho => ?_
    have htells := hm.tells ho
    cases o with
    | read n r => exact absurd htells (hread r)
    | _ => rfl
  rw [hnil, hm.consumption_eq_nil htake, List.append_nil, List.nil_append] at hflow
  exact hflow.symm

theorem Move.retrieveAll_eq (hm : c.Move (.take (.op .retrieveAll)) e) :
    bytesOf Obs.consumption e.obs = c.readBuffer.content ∧ e.conn.readBuffer.content = [] := by
  cases hm with
  | consumed hn hc =>
    replace hn := hn.trans (show _ = c.readBuffer.content.length from rfl)
    subst hn
    exact ⟨by simp [Obs.consumption], by rw [hc.content, List.drop_length]⟩
  | ignored hg => cases hg
  | closed _ _ _ hclose => cases hclose with | directError hsub => rcases hsub with h | h <;> cases h
  | appended hsub | sentAll hsub | sentPart hsub => rcases hsub with h | h <;> cases h

theorem not_submits_of_read {str : Bytes} {w : WriteResult} {r : ReadResult}
    (h : Submits (.readBody r) str w) : False := by
  rcases h with h | h <;> cases h

/-- A turn of the loop in `handleReadEvent` that neither goes on nor closes was told to wait. -/
theorem Move.readBody_ends {r : ReadResult} (hm : c.Move (.readBody r) e) (hf : e.frames = [])
    (hc : e.conn.isConnected = true) : r = .again := by
  cases hm with
  | blocked => rfl
  | received _ _ _ _ _ _ he =>
    subst he
    exact absurd hf (calling_ne_nil (List.cons_ne_nil _ _))
  | closed _ _ _ _ he =>
    subst he
    dsimp only at hc
    rw [calling_conn] at hc
    cases hc
  | broken hdown =>
    dsimp only at hc
    rw [hdown] at hc
    cases hc
  | ignored hg => cases hg
  | appended hsub | sentAll hsub | sentPart hsub => exact (not_submits_of_read hsub).elim

theorem Move.readTest_ends (hm : c.Move .readTest e) (hf : e.frames = []) :
    ∃ event, c.ioEvent = some event ∧ event.etMode = false := by
  cases hm with
  | @looped event he =>
    refine ⟨event, he, ?_⟩
    by_contra hmode
    rw [if_pos (by simpa using hmode)] at hf
    cases hf
  | closed _ _ _ hclose =>
    cases hclose with
    | directError hsub => rcases hsub with hsub | hsub <;> cases hsub
  | ignored hg => cases hg
  | appended hsub | sentAll hsub | sentPart hsub => rcases hsub with hsub | hsub <;> cases hsub

end TcpConnection

namespace Session
variable {srv : TcpServer} {s t : Session} {l : Label}

/-- The invariant of a session that started with an empty read buffer. -/
structure Received (s : Session) : Prop where
  stream : bytesOf Obs.received s.trace =
    bytesOf Obs.consumption s.trace ++ s.conn.readBuffer.content
  roomy : s.trace.any Obs.IsTightRead = false

theorem Received.of_eq (h : Received s) (hc : t.conn = s.conn) (ht : t.trace = s.trace) :
    Received t :=
  ⟨by rw [hc, ht]; exact h.stream, by rw [ht]; exact h.roomy⟩

theorem Received.step (h : Received s) (hi : Inv srv s) (hl : l ≠ .accept)
    (hs : Session.step srv s l = .next t) : Received t := by
  cases step_next hi.held hs with
  | accepted ha => exact absurd rfl hl
  | polled | skipped | returned => exact h.of_eq rfl rfl
  | ran hturn hact hm hconn hstack hbind hrep havail hnext htrace =>
    have hin := hm.incoming hi.held
    constructor
    · rw [htrace, hconn, bytesOf_append, bytesOf_append, h.stream, List.append_assoc, hin.flow,
        List.append_assoc]
    · rw [htrace, List.any_append, h.roomy, hin.roomy]
      rfl

/-- `handleReadEvent` is the innermost code of the thread, with `rest` below it. -/
def Reading (stack rest : List Frame) : Prop :=
  stack = .readBody :: rest ∨ stack = .readTest :: rest

/-- In edge-triggered mode `handleReadEvent` leaves an open connection only when the last
read was told to wait. -/
theorem Inv.read_returns (h : Inv srv s) (hmode : srv.etMode = true) {rest : List Frame}
    (hread : Reading s.stack rest) (hs : Session.step srv s l = .next t) (hrest : t.stack = rest)
    (hc : t.conn.isConnected = true) : l = .read .again := by
  have hne : s.stack ≠ rest := by
    rcases hread with hstack | hstack <;> rw [hstack] <;> exact List.cons_ne_self _ _
  have hnil : s.stack ≠ [] := by
    rcases hread with hstack | hstack <;> rw [hstack] <;> exact List.cons_ne_nil _ _
  cases step_next h.held hs with
  | accepted => exact absurd hrest hne
  | polled hstack => exact absurd hstack hnil
  | skipped hstack => exact absurd hstack hnil
  | returned hstack => rcases hread with hr | hr <;> rw [hr] at hstack <;> cases hstack
  | @ran _ act rest' e _ hturn hact hm hconn hstack =>
    rw [hconn] at hc
    cases hturn with
    | bound hidle | dispatch hidle | posted hidle => exact absurd hidle hnil
    | call hturn => rcases hread with hr | hr <;> rw [hr] at hturn <;> cases hturn
    | writeTail htop | resetTail htop =>
      rcases hread with hr | hr <;> rw [hr] at htop <;> cases htop
    | read htop =>
      rcases hread with hr | hr <;> rw [hr] at htop <;> cases htop
      rw [hrest] at hstack
      have hframes : e.frames = [] := List.self_eq_append_left.mp hstack
      rw [hm.readBody_ends hframes hc]
    | readTest htop =>
      rcases hread with hr | hr <;> rw [hr] at htop <;> cases htop
      rw [hrest] at hstack
      have hframes : e.frames = [] := List.self_eq_append_left.mp hstack
      obtain ⟨event, he, hlevel⟩ := hm.readTest_ends hframes
      rw [h.mode event he, hmode] at hlevel
      cases hlevel

/-- Incoming stream integrity. In a session that starts with an empty read buffer, after any
history of the slot: the bytes that `read` returned are those consumed followed by those
still readable; every `read` is offered at least 4096 bytes, which lie inside the storage,
so that no bytes at all mean the end of the stream; and in edge-triggered mode
`handleReadEvent` returns with the session open only behind a read that was told to wait. -/
theorem incoming_stream (srv : TcpServer) (index : ℕ) (hist ls : List Label) (s t : Session)
    (hist_run : run (step srv) (start index) hist = .next s)
    (empty : s.conn.readBuffer.content = []) (one_session : .accept ∉ ls)
    (run_eq : run (step srv) s (.accept :: ls) = .next t) :
    bytesOf Obs.received t.trace =
      bytesOf Obs.consumption t.trace ++ t.conn.readBuffer.content ∧
    (∀ offered r, .read offered r ∈ t.trace → 4096 ≤ offered) ∧
    t.conn.readBuffer.curWriteIndex + 4096 ≤ t.conn.readBuffer.buf.length ∧
    (srv.etMode = true → ∀ l u rest, Reading t.stack rest → step srv t l = .next u →
      u.stack = rest → u.conn.isConnected = true → l = .read .again) := by
  obtain ⟨hrec, hinv'⟩ := Inv.of_session hist_run one_session (P := Received)
    ⟨empty.symm, rfl⟩ (fun _ _ _ hs hi => hs.step hi) run_eq
  refine ⟨hrec.stream, ?_, ?_, ?_⟩
  · intro offered r hmem
    have htight := List.any_eq_false.mp hrec.roomy _ hmem
    simpa [Obs.IsTightRead] using htight
  · have hroom := hinv'.held.room
    have hle := hinv'.held.readValid.write_le
    unfold Buffer.free at hroom
    omega
  · intro hmode l u rest hread hs hrest hc
    exact hinv'.read_returns hmode hread hs hrest hc

/-- A message of two bytes of which user code consumes the first. -/
theorem incoming_stream_partial : ∃ t,
    run (step ⟨⟨.linux, .little⟩, true, false, true, false⟩) (start 0)
      [.accept, .bound, .poll EPOLLIN, .dispatch .again, .read (.data [1, 2]),
        .call (.take (.op (.retrieve 1))), .ret, .go, .read .again] = .next t ∧
      bytesOf Obs.received t.trace = [1, 2] ∧
      bytesOf Obs.received t.trace =
        bytesOf Obs.consumption t.trace ++ t.conn.readBuffer.content := by
  obtain ⟨t, ht, hc⟩ := Outcome.yields_eq_true.mp (show
    (run (step ⟨⟨.linux, .little⟩, true, false, true, false⟩) (start 0)
      [.accept, .bound, .poll EPOLLIN, .dispatch .again, .read (.data [1, 2]),
        .call (.take (.op (.retrieve 1))), .ret, .go, .read .again]).yields
          (fun t => bytesOf Obs.received t.trace == [1, 2]) = true by decide +kernel)
  have h := incoming_stream _ 0 [] _ (start 0) t rfl Buffer.content_fresh (by decide) ht
  exact ⟨t, ht, by simpa using hc, h.1⟩

end Session
end Potato
