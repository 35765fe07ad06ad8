import Potato.SessionInvariant

/-!
# A connection with two byte queues

The storage and the indices of the buffers do not show: a connection that keeps
its unread and its unsent bytes in two plain queues does the same. The abstract
connection is deterministic, and each piece of code of the real one follows it.
-/
namespace Potato
open Machine

/-- What the user code and the peer of a connection can see. -/
def Obs.IsPublic : Obs → Bool
  | wrote _ _ | taken _ | connection _ | message _ | writeComplete => true
  | _ => false

/-- The pointers and the callbacks of a connection, with its buffers left out. -/
def TcpConnection.shell (c : TcpConnection) : TcpConnection :=
  { c with readBuffer := .fresh, writeBuffer := .fresh }

/-- A connection that keeps its bytes in queues. -/
@[ext] structure Ideal where
  shell : TcpConnection
  inbox : Bytes
  outbox : Bytes
  deriving DecidableEq, Repr

/-- The abstraction of a connection. -/
def TcpConnection.ideal (c : TcpConnection) : Ideal where
  shell := c.shell
  inbox := c.readBuffer.content
  outbox := c.writeBuffer.content

/-- What the abstract connection does: its next state, the frames it leaves, what it shows. -/
@[ext] structure Ideal.Effect where
  ideal : Ideal
  frames : List Frame := []
  obs : List Obs := []
  deriving DecidableEq, Repr

/-- The abstraction of an effect. -/
def Effect.ideal (e : Potato.Effect) : Ideal.Effect where
  ideal := e.conn.ideal
  frames := e.frames
  obs := e.obs.filter Obs.IsPublic

namespace Ideal

/-- A call of a user callback by the abstract connection. -/
def calling (a : Ideal) (callback : Callback) (o : Obs) (seen : List Obs) (rest : List Frame) :
    Effect :=
  let e := a.shell.calling callback o rest
  { ideal := a, frames := e.frames, obs := seen ++ e.obs }

def shut (a : Ideal) (seen : List Obs) (tail : List Frame) : Option Effect := do
  let event ← a.shell.ioEvent
  let socket ← a.shell.socket
  let e := { a with shell := a.shell.shut event socket }.calling .connection (.connection false)
    seen [.resetTail]
  return { e with frames := e.frames ++ tail }

def submit (a : Ideal) (str : Bytes) (w : WriteResult) : Option Effect := do
  let event ← a.shell.ioEvent
  if event.isWriting then return { ideal := { a with outbox := a.outbox ++ str } }
  else if w = .error then a.shut [.wrote str w] []
  else if w.count = str.length then
    return a.calling .writeComplete .writeComplete [.wrote str w] []
  else
    let shell := a.shell.armed
      { event with events := event.events ||| EPOLLOUT, isWriting := true }
    return { ideal := { a with shell := shell, outbox := a.outbox ++ str.drop w.count }
             obs := [.wrote str w] }

def flush (a : Ideal) (w : WriteResult) : Option Effect := do
  let event ← a.shell.ioEvent
  match w with
  | .error => a.shut [.wrote a.outbox w] [.writeTail]
  | .again => return { ideal := a, frames := [.writeTail], obs := [.wrote a.outbox w] }
  | .sent n =>
    if n = a.outbox.length then
      let shell := a.shell.armed
        { event with events := event.events &&& ~~~EPOLLOUT, isWriting := false }
      return { a with shell := shell, outbox := [] }.calling .writeComplete .writeComplete
        [.wrote a.outbox w] [.writeTail]
    else return { ideal := { a with outbox := a.outbox.drop n }, frames := [.writeTail]
                  obs := [.wrote a.outbox w] }

def receive (a : Ideal) (data : Bytes) : Effect :=
  { a with inbox := a.inbox ++ data }.calling .message (.message (a.inbox ++ data)) [] [.readTest]

def take (a : Ideal) (t : Take) : Effect where
  ideal := { a with inbox := a.inbox.drop (t.popped a.inbox.length) }
  obs := [.taken (a.inbox.take (t.popped a.inbox.length))]

/-- The abstract connection runs a piece of code. -/
def perform (a : Ideal) (act : Act) : Option Effect :=
  if TcpConnection.Guarded act = true ∧ a.shell.isConnected = false then some { ideal := a }
  else match act with
    | .bindFunctor => do
      let event ← a.shell.ioEvent
      let shell := a.shell.armed { event with inEpoll := true, events := EPOLLIN ||| EPOLLPRI }
      return { a with shell := shell }.calling .connection (.connection a.shell.isConnected) [] []
    | .handleCloseEvent | .close => a.shut [] []
    | .handleReadEvent => some { ideal := a, frames := [.readBody] }
    | .handleWriteEvent w => a.flush w
    | .writeFunctor str w | .write str w => a.submit str w
    | .take t => some (a.take t)
    | .readBody .again => some { ideal := a }
    | .readBody .error => if a.shell.isConnected then a.shut [] [] else some { ideal := a }
    | .readBody (.data []) => a.shut [] []
    | .readBody (.data data) => some (a.receive data)
    | .readTest => do
      let event ← a.shell.ioEvent
      return { ideal := a, frames := if event.etMode then [.readBody] else [] }
    | .writeTail => some { ideal := a }
    | .resetTail => some { ideal := { a with shell := a.shell.resetTail.conn } }

end Ideal

namespace TcpConnection
variable {c : TcpConnection} {e : Effect} {act : Act}

theorem calling_shell (callback : Callback) (o : Obs) (rest : List Frame) :
    (c.shell.calling callback o rest).frames = (c.calling callback o rest).frames ∧
      (c.shell.calling callback o rest).obs = (c.calling callback o rest).obs := by
  have hset : c.shell.isSet callback = c.isSet callback := by cases callback <;> rfl
  unfold calling
  rw [hset]
  split_ifs <;> exact ⟨rfl, rfl⟩

theorem public_calling {callback : Callback} {o : Obs} {rest : List Frame}
    (h : o.IsPublic = true) : (c.calling callback o rest).obs.filter Obs.IsPublic =
      (c.calling callback o rest).obs := by
  rcases calling_obs callback o rest with ho | ho <;> rw [ho] <;> simp [h]

/-- A call of a callback and its abstraction. -/
theorem ideal_calling {callback : Callback} {o : Obs} (seen : List Obs) {rest : List Frame}
    (tail : List Frame) (h : o.IsPublic = true) :
    Effect.ideal ⟨(c.calling callback o rest).conn, (c.calling callback o rest).frames ++ tail,
        seen ++ (c.calling callback o rest).obs⟩ =
      { c.ideal.calling callback o (seen.filter Obs.IsPublic) rest with
        frames := (c.ideal.calling callback o (seen.filter Obs.IsPublic) rest).frames ++ tail } := by
  obtain ⟨hf, ho⟩ := c.calling_shell callback o rest
  simp only [Effect.ideal, Ideal.calling, List.filter_append, public_calling h, calling_conn, ideal,
    hf, ho]

theorem ideal_calling_nil {callback : Callback} {o : Obs} (seen : List Obs) {rest : List Frame}
    (h : o.IsPublic = true) :
    Effect.ideal ⟨(c.calling callback o rest).conn, (c.calling callback o rest).frames,
        seen ++ (c.calling callback o rest).obs⟩ =
      c.ideal.calling callback o (seen.filter Obs.IsPublic) rest := by
  have hcall := @ideal_calling c callback o seen rest [] h
  simpa only [List.append_nil] using hcall

theorem Closes.ideal {event : IOEvent} {socket : Socket} {seen : List Obs} {tail : List Frame}
    (hclose : Closes c event act seen tail) (hb : c.Bound event socket)
    (hc : c.isConnected = true) :
    c.ideal.perform act = c.ideal.shut (seen.filter Obs.IsPublic) tail := by
  have hshell : c.ideal.shell.isConnected = true := hc
  have hevent : c.ideal.shell.ioEvent = some event := hb.event_eq
  cases hclose with
  | hangUp | user | endOfStream => simp [Ideal.perform, hshell, Obs.IsPublic]
  | readError => simp [Ideal.perform, hshell, Guarded, Obs.IsPublic]
  | writeError hw hne =>
    simp only [Ideal.perform, hshell, Ideal.flush, hevent, Bool.true_eq_false, and_false, if_false,
      Option.bind_eq_bind, Option.bind_some]
    rfl
  | directError hsub hw =>
    rcases hsub with rfl | rfl <;>
    · simp only [Ideal.perform, hshell, Ideal.submit, hevent, hw, Bool.true_eq_false, and_false,
        if_false, Option.bind_eq_bind, Option.bind_some, Bool.false_eq_true, if_true]
      rfl

theorem submit_ideal {str : Bytes} {w : WriteResult} (hsub : Submits act str w)
    (hc : c.isConnected = true) : c.ideal.perform act = c.ideal.submit str w := by
  have hshell : c.ideal.shell.isConnected = true := hc
  rcases hsub with rfl | rfl <;> simp [Ideal.perform, hshell]

/-- Every move is one of the abstract connection. -/
theorem Move.ideal (hm : c.Move act e) : c.ideal.perform act = some e.ideal := by
  have hshell : c.ideal.shell.isConnected = c.isConnected := rfl
  have hopen {event : IOEvent} {socket : Socket} (hb : c.Bound event socket)
      (hc : socket.connected = true) : c.isConnected = true := by rw [hb.isConnected, hc]
  cases hm with
  | ignored hg hc => simp [Ideal.perform, hg, hshell, hc, Effect.ideal]
  | @registered event _ hb hin =>
    have hevent : c.ideal.shell.ioEvent = some event := hb.event_eq
    simp only [Ideal.perform, Guarded, Bool.false_eq_true, false_and, if_false, hevent,
      Option.bind_eq_bind, Option.bind_some]
    have hcall := @ideal_calling_nil
      (c.armed { event with inEpoll := true, events := EPOLLIN ||| EPOLLPRI }) .connection
      (.connection c.isConnected) [] [] rfl
    exact congrArg some hcall.symm
  | @closed _ event socket seen tail _ hb hc hin hclose he =>
    subst he
    rw [hclose.ideal hb (hopen hb hc), ideal_calling seen tail rfl]
    have hevent : c.ideal.shell.ioEvent = some event := hb.event_eq
    have hsocket : c.ideal.shell.socket = some socket := hb.socket_eq
    simp only [Ideal.shut, hevent, hsocket]
    rfl
  | reading hc => simp [Ideal.perform, hshell, hc, Effect.ideal]
  | @received data b _ hc hd hl hv hcont hroom he =>
    subst he
    obtain ⟨byte, bytes, rfl⟩ := List.exists_cons_of_ne_nil hd
    have hcall := @ideal_calling_nil { c with readBuffer := b } .message (.message b.content)
      [.read c.readBuffer.free (.data (byte :: bytes))] [.readTest] rfl
    simp only [Ideal.perform, Guarded, Bool.false_eq_true, false_and, if_false]
    refine congrArg some (Eq.trans ?_ hcall.symm)
    have hideal : ({ c with readBuffer := b } : TcpConnection).ideal =
        { c.ideal with inbox := b.content } := rfl
    have hinbox : c.ideal.inbox ++ byte :: bytes = b.content := hcont.symm
    rw [hideal, Ideal.receive, hinbox]
    rfl
  | blocked => simp [Ideal.perform, Guarded, Effect.ideal, Obs.IsPublic]
  | broken hc => simp [Ideal.perform, Guarded, hshell, hc, Effect.ideal, Obs.IsPublic]
  | @looped event he =>
    have hevent : c.ideal.shell.ioEvent = some event := he
    simp [Ideal.perform, Guarded, hevent, Effect.ideal]
  | @consumed t n b hn hc =>
    simp only [Ideal.perform, Guarded, Bool.false_eq_true, false_and, if_false]
    subst hn
    exact congrArg some (Ideal.Effect.ext (Ideal.ext rfl hc.content.symm rfl) rfl rfl)
  | appended hsub hb hc hw hv hcont =>
    have hevent : c.ideal.shell.ioEvent = some _ := hb.event_eq
    simp only [submit_ideal hsub (hopen hb hc), Ideal.submit, hevent, hw, if_true,
      Option.bind_eq_bind, Option.bind_some]
    exact congrArg some (Ideal.Effect.ext (Ideal.ext rfl rfl hcont.symm) rfl rfl)
  | @sentAll _ str w event socket _ hsub hb hc hw herr hcount he =>
    subst he
    have hevent : c.ideal.shell.ioEvent = some _ := hb.event_eq
    simp only [submit_ideal hsub (hopen hb hc), Ideal.submit, hevent, hw, if_neg herr, if_pos hcount,
      Option.bind_eq_bind, Option.bind_some, Bool.false_eq_true, if_false]
    exact congrArg some (ideal_calling_nil [.submitted str, .wrote str w] rfl).symm
  | @sentPart _ str w event socket b hsub hb hc hw hin herr hlt hv hcont =>
    have hevent : c.ideal.shell.ioEvent = some _ := hb.event_eq
    simp only [submit_ideal hsub (hopen hb hc), Ideal.submit, hevent, hw, if_neg herr,
      if_neg hlt.ne, Option.bind_eq_bind, Option.bind_some, Bool.false_eq_true, if_false]
    exact congrArg some (Ideal.Effect.ext (Ideal.ext rfl rfl hcont.symm) rfl rfl)
  | @flushedAll n event socket b _ hb hc hw hin hne hn hv hcont he =>
    subst he
    have hevent : c.ideal.shell.ioEvent = some _ := hb.event_eq
    have hcall := @ideal_calling_nil ({ c with writeBuffer := b }.armed
      { event with events := event.events &&& ~~~EPOLLOUT, isWriting := false }) .writeComplete
      .writeComplete [.wrote c.writeBuffer.content (.sent n)] [.writeTail] rfl
    have hlen : n = c.ideal.outbox.length := hn
    simp only [Ideal.perform, Guarded, hshell, hopen hb hc, Bool.true_eq_false, and_false, if_false,
      Ideal.flush, hevent, Option.bind_eq_bind, Option.bind_some, if_pos hlen]
    refine congrArg some (Eq.trans ?_ hcall.symm)
    have hideal : ({ c with writeBuffer := b }.armed
        { event with events := event.events &&& ~~~EPOLLOUT, isWriting := false }).ideal =
        { c.ideal with
          shell := c.ideal.shell.armed
            { event with events := event.events &&& ~~~EPOLLOUT, isWriting := false }
          outbox := [] } := Ideal.ext rfl rfl hcont
    rw [hideal]
    rfl
  | @flushedPart n event socket b hb hc hw hpos hlt hv hcont =>
    have hevent : c.ideal.shell.ioEvent = some _ := hb.event_eq
    have hlen : n ≠ c.ideal.outbox.length := hlt.ne
    simp only [Ideal.perform, Guarded, hshell, hopen hb hc, Bool.true_eq_false, and_false, if_false,
      Ideal.flush, hevent, Option.bind_eq_bind, Option.bind_some, if_neg hlen]
    exact congrArg some (Ideal.Effect.ext (Ideal.ext rfl rfl hcont.symm) rfl rfl)
  | stalled hb hc hw hne =>
    have hevent : c.ideal.shell.ioEvent = some _ := hb.event_eq
    simp only [Ideal.perform, Guarded, hshell, hopen hb hc, Bool.true_eq_false, and_false, if_false,
      Ideal.flush, hevent, Option.bind_eq_bind, Option.bind_some]
    rfl
  | tailed => simp [Ideal.perform, Guarded, Effect.ideal]
  | unbound =>
    simp only [Ideal.perform, Guarded, Bool.false_eq_true, false_and, if_false]
    rfl

/-- The same code does the same to two connections that differ at most in their storage. -/
theorem perform_ideal {p : Platform} {c c' : TcpConnection} {e e' : Effect} (h : c.Held)
    (h' : c'.Held) (hideal : c.ideal = c'.ideal) (he : c.perform p act = .next e)
    (he' : c'.perform p act = .next e') : e.ideal = e'.ideal := by
  have hmove := (perform_move h he).ideal
  rw [hideal, (perform_move h' he').ideal, Option.some.injEq] at hmove
  exact hmove.symm

end TcpConnection
end Potato
