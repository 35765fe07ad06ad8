import Potato.Dispatch
import Potato.IncomingStream
import Potato.OutgoingStream

/-!
# The echo server

The user code of the echo server on top of the session of a slot: its message
callback sends what is readable and then drops it. The server has one loop, so that all
sessions of a slot run on one thread. What goes out is what came in, and the one thing
that brings the server down is a direct write that fails.
-/
namespace Potato
open Words Machine

/-- `peerAddress` asserts that there is a socket. -/
def TcpConnection.peerAddress (c : TcpConnection) : Outcome Fault Unit :=
  Outcome.check (c.socket.isSome = true) .nullPointer

/-- The label runs no user code and comes from no other thread. -/
def Label.IsServer : Label → Bool
  | accept | bound | poll _ | dispatch _ | read _ | go => true
  | call _ | posted _ | ret => false

/-- What `onMessage` does next. -/
inductive Place where
  | send
  | retrieveAll
  | leave
  deriving DecidableEq, Repr

/-- One connection of the echo server. `place` is where its `onMessage` is, or starts. -/
structure EchoServer where
  session : Session
  place : Place := .send

inductive EchoLabel where
  /-- The server runs, or `epoll_wait` reports. -/
  | session (l : Label)
  /-- The user callback on top goes on, with the answer of `write` if it sends. -/
  | callback (w : WriteResult)
  deriving DecidableEq, Repr

namespace EchoServer

/-- The settings that the constructor makes. -/
def server (platform : Platform) (etMode : Bool) : TcpServer where
  platform := platform
  etMode := etMode
  connectionCallback := true
  messageCallback := true
  writeCompleteCallback := true

def start (index : ℕ) : EchoServer := { session := .start index }

/-- Both branches log the peer. -/
def onConnection (srv : TcpServer) (s : EchoServer) : Outcome Fault EchoServer := do
  s.session.conn.peerAddress
  return { s with session := ← s.session.step srv .ret }

def onMessage (srv : TcpServer) (s : EchoServer) (w : WriteResult) : Outcome Fault EchoServer := do
  match s.place with
  | .send =>
    let msg ← s.session.conn.readBuffer.readAsSlice
    s.session.conn.peerAddress
    return { session := ← s.session.step srv (.call (.write msg w)), place := .retrieveAll }
  | .retrieveAll =>
    return { session := ← s.session.step srv (.call (.take (.op .retrieveAll))), place := .leave }
  | .leave => return { session := ← s.session.step srv .ret, place := .send }

def onWriteComplete (srv : TcpServer) (s : EchoServer) : Outcome Fault EchoServer := do
  s.session.conn.peerAddress
  return { s with session := ← s.session.step srv .ret }

def step (srv : TcpServer) (s : EchoServer) : EchoLabel → Outcome Fault EchoServer
  | .session l => do
    Outcome.require (l.IsServer = true)
    return { s with session := ← s.session.step srv l }
  | .callback w =>
    match s.session.stack with
    | .user .connection :: _ => s.onConnection srv
    | .user .message :: _ => s.onMessage srv w
    | .user .writeComplete :: _ => s.onWriteComplete srv
    | _ => .refused

variable {srv : TcpServer} {s t : EchoServer} {l : EchoLabel} {k : Label} {p : Place}

/-- What a step runs of the session, and where that leaves `onMessage`. -/
inductive Does (s : EchoServer) : EchoLabel → Label → Place → Prop
  | server {l : Label} : l.IsServer = true → Does s (.session l) l s.place
  | send {msg : Bytes} {w : WriteResult} {rest : List Frame} :
      s.session.stack = .user .message :: rest → s.place = .send →
      s.session.conn.readBuffer.readAsSlice = .next msg →
      Does s (.callback w) (.call (.write msg w)) .retrieveAll
  | retrieveAll {w : WriteResult} {rest : List Frame} :
      s.session.stack = .user .message :: rest → s.place = .retrieveAll →
      Does s (.callback w) (.call (.take (.op .retrieveAll))) .leave
  | leave {w : WriteResult} {rest : List Frame} : s.session.stack = .user .message :: rest →
      s.place = .leave → Does s (.callback w) .ret .send
  | log {w : WriteResult} {callback : Callback} {rest : List Frame} :
      s.session.stack = .user callback :: rest → callback ≠ .message →
      Does s (.callback w) .ret s.place

theorem onMessage_next {w : WriteResult} {rest : List Frame}
    (hstack : s.session.stack = .user .message :: rest) (h : s.onMessage srv w = .next t) :
    ∃ k, Does s (.callback w) k t.place ∧ s.session.step srv k = .next t.session := by
  cases hp : s.place with
  | send =>
    simp only [onMessage, hp, Outcome.bind_eq_next, Outcome.pure_eq, Outcome.next.injEq] at h
    obtain ⟨msg, hmsg, -, -, u, hu, rfl⟩ := h
    exact ⟨_, .send hstack hp hmsg, hu⟩
  | retrieveAll =>
    simp only [onMessage, hp, Outcome.bind_eq_next, Outcome.pure_eq, Outcome.next.injEq] at h
    obtain ⟨u, hu, rfl⟩ := h
    exact ⟨_, .retrieveAll hstack hp, hu⟩
  | leave =>
    simp only [onMessage, hp, Outcome.bind_eq_next, Outcome.pure_eq, Outcome.next.injEq] at h
    obtain ⟨u, hu, rfl⟩ := h
    exact ⟨_, .leave hstack hp, hu⟩

/-- Every step is one step of the session. -/
theorem step_next (h : step srv s l = .next t) :
    ∃ k, Does s l k t.place ∧ s.session.step srv k = .next t.session := by
  cases l with
  | session l =>
    simp only [step, Outcome.bind_eq_next, Outcome.require_eq_next, Outcome.pure_eq,
      Outcome.next.injEq] at h
    obtain ⟨-, hl, u, hu, rfl⟩ := h
    exact ⟨l, .server hl, hu⟩
  | callback w =>
    simp only [step] at h
    split at h
    · next rest hstack =>
      simp only [onConnection, Outcome.bind_eq_next, Outcome.pure_eq, Outcome.next.injEq] at h
      obtain ⟨-, -, u, hu, rfl⟩ := h
      exact ⟨_, .log hstack (by simp), hu⟩
    · next rest hstack => exact onMessage_next hstack h
    · next rest hstack =>
      simp only [onWriteComplete, Outcome.bind_eq_next, Outcome.pure_eq, Outcome.next.injEq] at h
      obtain ⟨-, -, u, hu, rfl⟩ := h
      exact ⟨_, .log hstack (by simp), hu⟩
    · cases h

/-- The stacks that the thread can have, by where `onMessage` is. -/
inductive Layout : Place → List Frame → Prop
  | handler {rest : List Frame} : Base rest → Layout .send rest
  | reading : Layout .send [.readBody]
  | told {callback : Callback} {rest : List Frame} : callback ≠ .message → Base rest →
      Layout .send (.user callback :: rest)
  | closing {rest : List Frame} : Base rest →
      Layout .send (.user .connection :: .resetTail :: rest)
  | resetting {rest : List Frame} : Base rest → Layout .send (.resetTail :: rest)
  | message (place : Place) : Layout place [.user .message, .readTest]
  | completed : Layout .retrieveAll [.user .writeComplete, .user .message, .readTest]
  | failed : Layout .retrieveAll [.user .connection, .resetTail, .user .message, .readTest]
  | dropped : Layout .retrieveAll [.resetTail, .user .message, .readTest]

section Frames
variable {c : TcpConnection} {act : Act} {e : Effect}

theorem layout_calling {callback : Callback} {o : Obs} {rest : List Frame}
    (hne : callback ≠ .message) (h : Base rest) :
    Layout .send (c.calling callback o rest).frames := by
  rcases c.calling_frames callback o rest with hf | hf <;> rw [hf]
  · exact .handler h
  · exact .told hne h

/-- What a piece of code leaves to run when nothing lies below it. -/
theorem layout_frames (hm : c.Move act e) : Layout .send e.frames := by
  cases hm with
  | ignored | blocked | broken | consumed | appended | sentPart | tailed | unbound =>
    exact .handler .nothing
  | registered => exact layout_calling (by simp) .nothing
  | @closed _ event socket seen tail _ hb hc hin hclose he =>
    subst he
    dsimp only
    rcases (c.shut event socket).calling_frames .connection (.connection false) [.resetTail]
      with hf | hf <;> rw [hf]
    · exact .resetting hclose.base
    · exact .closing hclose.base
  | reading => exact .reading
  | @received data b _ _ _ _ _ _ _ he =>
    subst he
    dsimp only
    rcases TcpConnection.calling_frames (c := { c with readBuffer := b }) .message
      (.message b.content) [.readTest] with hf | hf <;> rw [hf]
    · exact .handler .readTest
    · exact .message .send
  | looped =>
    dsimp only
    split_ifs
    · exact .reading
    · exact .handler .nothing
  | sentAll _ _ _ _ _ _ he =>
    subst he
    exact layout_calling (by simp) .nothing
  | flushedAll _ _ _ _ _ _ _ _ he =>
    subst he
    exact layout_calling (by simp) .writeTail
  | flushedPart | stalled => exact .handler .writeTail

/-- What `send` leaves on top of `onMessage`. -/
theorem layout_send {str : Bytes} {w : WriteResult} (hm : c.Move (.write str w) e) :
    Layout .retrieveAll (e.frames ++ [.user .message, .readTest]) := by
  cases hm with
  | ignored | appended | sentPart => exact .message .retrieveAll
  | @closed _ event socket seen tail _ hb hc hin hclose he =>
    subst he
    cases hclose with
    | directError =>
      dsimp only
      rcases (c.shut event socket).calling_frames .connection (.connection false) [.resetTail]
        with hf | hf <;> rw [hf]
      · exact .dropped
      · exact .failed
  | sentAll _ _ _ _ _ _ he =>
    subst he
    dsimp only
    rcases c.calling_frames .writeComplete .writeComplete [] with hf | hf <;> rw [hf]
    · exact .message .retrieveAll
    · exact .completed

end Frames

theorem Layout.message_rest {rest : List Frame} (h : Layout p (.user .message :: rest)) :
    rest = [.readTest] := by
  cases h with
  | handler hb => cases hb
  | told hne => exact absurd rfl hne
  | message => rfl

/-- A frame of a handler is the only one. -/
theorem Layout.alone {frame : Frame} {rest : List Frame} (h : Layout p (frame :: rest))
    (hf : frame.IsNested = false) : p = .send ∧ rest = [] := by
  cases h with
  | handler hb => cases hb <;> exact ⟨rfl, rfl⟩
  | reading => exact ⟨rfl, rfl⟩
  | told | closing | resetting | message | completed | failed | dropped => cases hf

/-- The callbacks that only log leave what is below them. -/
theorem Layout.logged {callback : Callback} {rest : List Frame}
    (h : Layout p (.user callback :: rest)) (hne : callback ≠ .message) : Layout p rest := by
  cases h with
  | handler hb => cases hb
  | told _ hb => exact .handler hb
  | closing hb => exact .resetting hb
  | message => exact absurd rfl hne
  | completed => exact .message .retrieveAll
  | failed => exact .dropped

theorem Layout.reset {rest : List Frame} (h : Layout p (.resetTail :: rest)) : Layout p rest := by
  cases h with
  | handler hb => cases hb
  | resetting hb => exact .handler hb
  | dropped => exact .message .retrieveAll

/-- `onMessage` runs unless it is at its start. -/
theorem Layout.place_eq {stack : List Frame} (h : Layout p stack) (hmem : .user .message ∉ stack) :
    p = .send := by
  cases h with
  | handler | reading | told | closing | resetting => rfl
  | message | completed | failed | dropped => simp at hmem

theorem Layout.of_empty (h : Layout p []) : p = .send := h.place_eq List.not_mem_nil

theorem Turn.layout {act : Act} {rest : List Frame} {e : Effect}
    (h : Layout s.place s.session.stack) (hdo : Does s l k p)
    (hturn : Session.Turn s.session k act rest)
    (hm : s.session.conn.Move act e) : Layout p (e.frames ++ rest) := by
  have hframes := layout_frames hm
  cases hturn with
  | bound hstack | dispatch hstack =>
    rw [hstack] at h
    cases hdo
    rw [List.append_nil, h.of_empty]
    exact hframes
  | posted => cases hdo with | server hl => cases hl
  | read hstack | readTest hstack | writeTail hstack =>
    rw [hstack] at h
    obtain ⟨hp, rfl⟩ := h.alone rfl
    cases hdo
    rw [List.append_nil, hp]
    exact hframes
  | resetTail hstack =>
    rw [hstack] at h
    cases hdo
    have hnil : e.frames = [] := by
      cases hm.shape with
      | unbound _ he => rw [he]; rfl
      | kept _ _ _ _ hno => exact absurd rfl hno
      | registered hno => cases hno
      | closed _ _ _ _ _ hno => exact absurd rfl hno
    rw [hnil, List.nil_append]
    exact h.reset
  | call hturn hcall =>
    cases hdo with
    | server hl => cases hl
    | send hstack hp hmsg =>
      rw [hstack] at h ⊢
      rw [h.message_rest]
      exact layout_send hm
    | retrieveAll hstack hp =>
      rw [hstack] at h ⊢
      rw [h.message_rest]
      cases hm with
      | consumed => exact .message .leave
      | ignored hg => cases hg
      | closed _ _ _ hclose =>
        cases hclose with
        | directError hsub => rcases hsub with h | h <;> cases h
      | appended hsub | sentAll hsub | sentPart hsub => rcases hsub with h | h <;> cases h

theorem Layout.step {u : Session} (h : Layout s.place s.session.stack)
    (hi : Session.Inv srv s.session) (hdo : Does s l k p) (hs : s.session.step srv k = .next u) :
    Layout p u.stack := by
  cases Session.step_next hi.held hs with
  | accepted | polled | skipped =>
    cases hdo
    exact h
  | returned hstack =>
    rw [hstack] at h
    cases hdo with
    | server hl => cases hl
    | leave hstack' _ =>
      rw [hstack, List.cons_eq_cons] at hstack'
      obtain ⟨hcb, rfl⟩ := hstack'
      rw [hcb] at h
      rw [h.message_rest]
      exact .handler .readTest
    | log hstack' hne =>
      rw [hstack, List.cons_eq_cons] at hstack'
      obtain ⟨hcb, rfl⟩ := hstack'
      rw [hcb] at h
      exact h.logged hne
  | ran hturn hact hm hconn hstack =>
    rw [hstack]
    exact Turn.layout h hdo hturn hm

/-- Only `handleReadEvent` calls `onMessage`, on an open connection. -/
theorem called_message {c : TcpConnection} {act : Act} {e : Effect} (hm : c.Move act e)
    (hmem : .user .message ∈ e.frames) :
    e.conn.isConnected = true ∧ ∃ r, act = .readBody r := by
  have hno {d : TcpConnection} {callback : Callback} {o : Obs} {rest : List Frame}
      (hne : callback ≠ .message) (hrest : .user .message ∉ rest)
      (h : .user .message ∈ (d.calling callback o rest).frames) : False := by
    rcases d.calling_frames callback o rest with hf | hf <;> rw [hf] at h
    · exact hrest h
    · rcases List.mem_cons.mp h with h | h
      · exact hne (Frame.user.inj h).symm
      · exact hrest h
  cases hm with
  | received hc _ _ _ _ _ he =>
    subst he
    refine ⟨?_, _, rfl⟩
    dsimp only
    rwa [TcpConnection.calling_conn]
  | registered => exact (hno (by simp) (by simp) hmem).elim
  | closed _ _ _ hclose he =>
    subst he
    rcases List.mem_append.mp hmem with hshut | htail
    · exact (hno (by simp) (by simp) hshut).elim
    · cases hclose <;> simp at htail
  | sentAll _ _ _ _ _ _ he | flushedAll _ _ _ _ _ _ _ _ he =>
    subst he
    exact (hno (by simp) (by simp) hmem).elim
  | looped =>
    dsimp only at hmem
    split_ifs at hmem <;> simp at hmem
  | unbound => simp [TcpConnection.resetTail] at hmem
  | _ => simp at hmem

theorem Layout.stack_eq {stack : List Frame} (h : Layout .send stack)
    (hmem : .user .message ∈ stack) : stack = [.user .message, .readTest] := by
  cases h with
  | message => rfl
  | handler hb | closing hb | resetting hb => cases hb <;> simp at hmem
  | told hne hb => cases hb <;> simp [hne.symm] at hmem
  | reading => simp at hmem

section Server
variable {act : Act} {rest : List Frame}

theorem server_act (hl : k.IsServer = true) (h : Session.Turn s.session k act rest) :
    (∀ str w, ¬ TcpConnection.Submits act str w) ∧ ∀ t, act ≠ .take t := by
  cases h with
  | call | posted => cases hl
  | @dispatch _ _ _ callback _ _ _ _ _ hact =>
    subst hact
    cases callback <;> simp [TcpConnection.Submits, EventCallback.act]
  | bound | read | readTest | writeTail | resetTail => simp [TcpConnection.Submits]

/-- The server does not run while a user callback does. -/
theorem server_top (hl : k.IsServer = true) (h : Session.Turn s.session k act rest)
    {callback : Callback} {rest' : List Frame} : s.session.stack ≠ .user callback :: rest' := by
  cases h with
  | call | posted => cases hl
  | bound hstack | dispatch hstack => simp [hstack]
  | read hstack | readTest hstack | writeTail hstack | resetTail hstack => simp [hstack]

theorem server_rest (hl : k.IsServer = true) (h : Session.Turn s.session k act rest) :
    .user .message ∈ s.session.stack ↔ .user .message ∈ rest := by
  refine ⟨fun hmem => ?_, h.mem_of_mem⟩
  cases h with
  | call | posted => cases hl
  | bound hstack | dispatch hstack =>
    rw [hstack] at hmem
    exact hmem
  | read hstack | readTest hstack | writeTail hstack | resetTail hstack =>
    rw [hstack] at hmem
    simpa using hmem

end Server

/-- What holds of the echo server in every reachable state. -/
structure Placed (s : EchoServer) : Prop where
  layout : Layout s.place s.session.stack
  shown : s.session.conn.isConnected = true →
    s.session.conn.messageCallback = true ∧ s.session.conn.connectionCallback = true
  live : s.place = .send → .user .message ∈ s.session.stack → s.session.conn.isConnected = true

theorem Placed.start (index : ℕ) : Placed (start index) where
  layout := .handler .nothing
  shown := fun hno => nomatch hno
  live := fun _ hno => nomatch hno

theorem Placed.live_ran {act : Act} {rest : List Frame} {e : Effect} (h : Placed s)
    (hdo : Does s l k p) (hturn : Session.Turn s.session k act rest)
    (hm : s.session.conn.Move act e) (hp : p = .send) (hmem : .user .message ∈ e.frames ++ rest) :
    e.conn.isConnected = true := by
  rcases List.mem_append.mp hmem with hmem | hmem
  · exact (called_message hm hmem).1
  · cases hdo with
    | server hl =>
      have hlayout := h.layout
      rw [hp] at hlayout
      exact absurd (hlayout.stack_eq (hturn.mem_of_mem hmem)) (server_top hl hturn)
    | send | retrieveAll => cases hp
    | leave | log => cases hturn

/-- The server has the two callbacks that the echo server cannot do without. -/
def Installed (srv : TcpServer) : Prop :=
  srv.messageCallback = true ∧ srv.connectionCallback = true

theorem installed_server (platform : Platform) (etMode : Bool) :
    Installed (server platform etMode) := ⟨rfl, rfl⟩

theorem Placed.step (h : Placed s) (hi : Session.Inv srv s.session)
    (hset : Installed srv) (hdo : Does s l k t.place)
    (hs : s.session.step srv k = .next t.session) : Placed t := by
  have hlayout := h.layout.step hi hdo hs
  obtain ⟨u, p⟩ := t
  refine ⟨hlayout, ?_, ?_⟩ <;> dsimp only at hdo hs ⊢
  · cases Session.step_next hi.held hs with
    | accepted => exact fun _ => hset
    | polled | skipped | returned => exact h.shown
    | ran _ _ hm hconn =>
      intro hc
      rw [hconn] at hc ⊢
      rw [hm.messageCallback_eq, hm.connectionCallback_eq]
      exact h.shown (hm.isConnected_of hc)
  · intro hp hmem
    cases Session.step_next hi.held hs with
    | accepted => rfl
    | polled | skipped =>
      cases hdo
      exact h.live hp hmem
    | returned hstack =>
      cases hdo with
      | server hl => cases hl
      | leave hstack' _ =>
        rw [hstack, List.cons_eq_cons] at hstack'
        have hlayout' := h.layout
        rw [hstack, hstack'.1] at hlayout'
        have hrest := hlayout'.message_rest
        dsimp only at hmem
        rw [hrest] at hmem
        simp at hmem
      | log hstack' hne =>
        refine h.live hp ?_
        rw [hstack]
        exact List.mem_cons_of_mem _ hmem
    | ran hturn hact hm hconn hstack =>
      rw [hstack] at hmem
      rw [hconn]
      exact h.live_ran hdo hturn hm hp hmem

/-- What `onMessage` has sent and not yet dropped. -/
def pending (s : EchoServer) : Bytes :=
  if s.place = .retrieveAll then s.session.conn.readBuffer.content else []

/-- The invariant of a session that started with an empty read buffer: what was submitted is
what was dropped and what will be dropped next. -/
structure Echoed (s : EchoServer) : Prop where
  stream : bytesOf Obs.submission s.session.trace =
    bytesOf Obs.consumption s.session.trace ++ s.pending
  idle : .user .message ∉ s.session.stack → s.session.conn.readBuffer.content = []
  left : s.place = .leave → s.session.conn.readBuffer.content = []

theorem Echoed.accepted (h : s.session.conn.readBuffer.content = [])
    (hconn : t.session.conn = Session.rebound srv s.session.conn s.session.nextSocket)
    (htrace : t.session.trace = []) : Echoed t := by
  have hcontent : t.session.conn.readBuffer.content = [] := by
    rw [hconn]
    exact h
  refine ⟨?_, fun _ => hcontent, fun _ => hcontent⟩
  rw [htrace, pending]
  split_ifs
  · exact hcontent.symm
  · rfl

/-- A piece of code that the server runs adds to the read buffer only for `onMessage`. -/
theorem Echoed.served {act : Act} {rest : List Frame} {e : Effect} (h : Echoed s) (hp : Placed s)
    (hi : Session.Inv srv s.session) (hl : k.IsServer = true)
    (hturn : Session.Turn s.session k act rest) (hm : s.session.conn.Move act e)
    (hplace : t.place = s.place) (hconn : t.session.conn = e.conn)
    (hstack : t.session.stack = e.frames ++ rest)
    (htrace : t.session.trace = s.session.trace ++ e.obs) : Echoed t := by
  obtain ⟨hsub, htake⟩ := server_act hl hturn
  have hsubmission := hm.submission_eq_nil hsub
  have hconsumption := hm.consumption_eq_nil htake
  have hstream : bytesOf Obs.submission t.session.trace =
      bytesOf Obs.consumption t.session.trace ++ s.pending := by
    rw [htrace, bytesOf_append, bytesOf_append, hsubmission, hconsumption, List.append_nil,
      List.append_nil, h.stream]
  by_cases hread : ∃ r, act = .readBody r
  · obtain ⟨r, rfl⟩ := hread
    have hlayout := hp.layout
    cases hturn with
    | call | posted => cases hl
    | @dispatch _ _ _ callback _ _ _ _ _ hact => cases callback <;> cases hact
    | read htop =>
      rw [htop] at hlayout
      obtain ⟨hsend, rfl⟩ := hlayout.alone rfl
      have hempty : s.session.conn.readBuffer.content = [] := h.idle (by simp [htop])
      refine ⟨?_, fun hmem => ?_, fun hleave => ?_⟩
      · rw [hstream, pending, pending, hplace, hsend, if_neg (by simp), if_neg (by simp)]
      · rw [hstack, List.append_nil] at hmem
        rw [hconn]
        cases hm with
        | blocked | broken => exact hempty
        | received hc _ _ _ _ _ he =>
          subst he
          have hset := (hp.shown hc).1
          refine absurd ?_ hmem
          simp [TcpConnection.calling, TcpConnection.isSet, hset]
        | closed _ _ _ _ he =>
          subst he
          dsimp only
          rw [TcpConnection.calling_conn]
          exact hempty
        | ignored hg => cases hg
        | appended hno | sentAll hno | sentPart hno => exact absurd hno (hsub _ _)
      · rw [hplace, hsend] at hleave
        cases hleave
  · have hcontent : t.session.conn.readBuffer.content = s.session.conn.readBuffer.content := by
      rw [hconn]
      exact hm.content_eq hi.held htake fun r hr => hread ⟨r, hr⟩
    refine ⟨?_, fun hmem => ?_, fun hleave => ?_⟩
    · rw [hstream, pending, pending, hplace, hcontent]
    · rw [hcontent]
      refine h.idle fun hmem' => hmem ?_
      rw [hstack]
      exact List.mem_append_right _ ((server_rest hl hturn).mp hmem')
    · rw [hcontent]
      exact h.left (hplace ▸ hleave)

/-- A statement of `onMessage`. -/
theorem Echoed.stated {act : Act} {rest : List Frame} {e : Effect} (h : Echoed s) (hp : Placed s)
    (hi : Session.Inv srv s.session) {w : WriteResult} (hdo : Does s (.callback w) k t.place)
    (hturn : Session.Turn s.session k act rest) (hm : s.session.conn.Move act e)
    (hconn : t.session.conn = e.conn) (hstack : t.session.stack = e.frames ++ rest)
    (htrace : t.session.trace = s.session.trace ++ e.obs) : Echoed t := by
  have hstream := h.stream
  obtain ⟨u, p⟩ := t
  dsimp only at hdo hconn hstack htrace
  cases hdo with
  | @send msg w rest' htop hsend hmsg =>
    cases hturn with
    | call =>
      rw [hi.held.readValid.readAsSlice_eq, Outcome.next.injEq] at hmsg
      have hin : .user .message ∈ s.session.stack := by simp [htop]
      have hsubmission := hm.submission_eq (.inr rfl) (hp.live hsend hin)
      have hconsumption := hm.consumption_eq_nil (by simp)
      have hcontent := hm.content_eq hi.held (by simp) (by simp)
      refine ⟨?_, fun hmem => ?_, fun hno => nomatch hno⟩
      · rw [pending, hsend, if_neg (by simp), List.append_nil] at hstream
        rw [pending, if_pos rfl, htrace, hconn, bytesOf_append, bytesOf_append, hsubmission,
          hconsumption, List.append_nil, hstream, hcontent, hmsg]
      · refine absurd ?_ hmem
        dsimp only
        rw [hstack]
        exact List.mem_append_right _ hin
  | retrieveAll htop hplace =>
    cases hturn with
    | call =>
      obtain ⟨hconsumption, hcontent⟩ := hm.retrieveAll_eq
      have hsubmission := hm.submission_eq_nil (by simp [TcpConnection.Submits])
      have hempty : u.conn.readBuffer.content = [] := by
        rw [hconn]
        exact hcontent
      refine ⟨?_, fun _ => hempty, fun _ => hempty⟩
      rw [pending, hplace, if_pos rfl] at hstream
      rw [pending, if_neg (by simp), htrace, bytesOf_append, bytesOf_append, hsubmission,
        hconsumption, List.append_nil, List.append_nil, hstream]
  | leave | log => cases hturn

theorem Echoed.step (h : Echoed s) (hp : Placed s) (hi : Session.Inv srv s.session)
    (hne : k ≠ .accept) (hdo : Does s l k t.place)
    (hs : s.session.step srv k = .next t.session) : Echoed t := by
  obtain ⟨u, p⟩ := t
  dsimp only at hdo hs
  cases Session.step_next hi.held hs with
  | accepted => exact absurd rfl hne
  | polled | skipped =>
    cases hdo
    exact ⟨h.stream, h.idle, h.left⟩
  | @returned callback rest hstack =>
    have hstream := h.stream
    have hlayout := hp.layout
    cases hdo with
    | server hl => cases hl
    | leave hstack' hplace =>
      have hempty := h.left hplace
      refine ⟨?_, fun _ => hempty, fun hno => nomatch hno⟩
      rw [pending, hplace, if_neg (by simp)] at hstream
      rw [pending, if_neg (by simp)]
      exact hstream
    | log hstack' hcb =>
      rw [hstack, List.cons_eq_cons] at hstack'
      obtain ⟨hcallback, rfl⟩ := hstack'
      refine ⟨hstream, fun hmem => h.idle ?_, h.left⟩
      rw [hstack, hcallback, List.mem_cons, not_or]
      exact ⟨fun hno => hcb (Frame.user.inj hno).symm, hmem⟩
  | ran hturn hact hm hconn hstack _ _ _ _ htrace =>
    cases l with
    | session l =>
      have hserver : k.IsServer = true ∧ p = s.place := by
        cases hdo with | server hl => exact ⟨hl, rfl⟩
      exact h.served hp hi hserver.1 hturn hm hserver.2 hconn hstack htrace
    | callback w => exact h.stated hp hi hdo hturn hm hconn hstack htrace

theorem Does.ne_accept (hdo : Does s l k p) (hl : l ≠ .session .accept) : k ≠ .accept := by
  cases hdo with
  | server => exact fun hk => hl (congrArg EchoLabel.session hk)
  | _ => exact nofun

/-- The invariants of every reachable state. -/
theorem Placed.of_run {index : ℕ} {ls : List EchoLabel} (hset : Installed srv)
    (h : run (EchoServer.step srv) (EchoServer.start index) ls = .next s) :
    Placed s ∧ Session.Inv srv s.session := by
  refine run_invariant (I := fun s => Placed s ∧ Session.Inv srv s.session) (fun s l t hs h => ?_)
    ⟨.start index, .start index⟩ h
  obtain ⟨k, hdo, hk⟩ := step_next h
  exact ⟨hs.1.step hs.2 hset hdo hk, hs.2.step hk⟩

/-- The invariants of a session that started with empty buffers. -/
structure Streams (srv : TcpServer) (s : EchoServer) : Prop where
  inv : Session.Inv srv s.session
  placed : Placed s
  echoed : Echoed s
  flow : Session.Flow s.session
  received : Session.Received s.session

theorem Streams.accepted (hi : Session.Inv srv s.session) (hp : Placed s)
    (hset : Installed srv) (hread : s.session.conn.readBuffer.content = [])
    (hwrite : s.session.conn.writeBuffer.content = [])
    (h : EchoServer.step srv s (.session .accept) = .next t) : Streams srv t := by
  obtain ⟨k, hdo, hk⟩ := step_next h
  have hinv := hi.step hk
  have hplaced := hp.step hi hset hdo hk
  have haccept : k = .accept := by
    generalize t.place = p at hdo
    cases hdo
    rfl
  subst haccept
  generalize hu : t.session = u at hk hinv
  cases Session.step_next hi.held hk with
  | ran hturn => cases hturn
  | accepted =>
    refine ⟨hu ▸ hinv, hplaced, @Echoed.accepted srv s t hread (by rw [hu]) (by rw [hu]), ?_, ?_⟩
    · rw [hu]
      exact .accepted hwrite
    · rw [hu]
      exact ⟨hread.symm, rfl⟩

theorem Streams.step (h : Streams srv s) (hset : Installed srv)
    (hl : l ≠ .session .accept) (hs : EchoServer.step srv s l = .next t) : Streams srv t := by
  obtain ⟨k, hdo, hk⟩ := step_next hs
  have hne := hdo.ne_accept hl
  exact ⟨h.inv.step hk, h.placed.step h.inv hset hdo hk, h.echoed.step h.placed h.inv hne hdo hk,
    h.flow.step h.inv hne hk, h.received.step h.inv hne hk⟩

/-- In such a session what goes out is what came in. -/
theorem Streams.echo (h : Streams srv s) :
    bytesOf Obs.accepted s.session.trace <+: bytesOf Obs.received s.session.trace ∧
    (s.session.conn.isConnected = true → .user .message ∉ s.session.stack →
      s.session.conn.readBuffer.content = [] ∧
      bytesOf Obs.accepted s.session.trace ++ s.session.conn.writeBuffer.content =
        bytesOf Obs.received s.session.trace) := by
  have hreceived := h.received.stream
  have hsubmitted := h.echoed.stream
  constructor
  · refine h.flow.front.trans ?_
    rw [hsubmitted, hreceived, List.prefix_append_right_inj, pending]
    split_ifs
    · exact List.prefix_rfl
    · exact List.nil_prefix
  · intro hc hmem
    have hempty := h.echoed.idle hmem
    refine ⟨hempty, ?_⟩
    rw [h.flow.stream hc, hsubmitted, hreceived, hempty, pending,
      if_neg (by simp [h.placed.layout.place_eq hmem])]

/-- What an echo server with one loop sends is what it received. In a session that starts with empty
buffers, after any history of the slot: what the kernel took is always a front part of what was
read, and while the connection is open and `onMessage` does not run, the rest is what waits in the
write buffer. -/
theorem echo_stream (platform : Platform) (etMode : Bool) (index : ℕ) (hist ls : List EchoLabel)
    (s t : EchoServer)
    (hist_run : run (step (server platform etMode)) (start index) hist = .next s)
    (readEmpty : s.session.conn.readBuffer.content = [])
    (writeEmpty : s.session.conn.writeBuffer.content = [])
    (one_session : .session .accept ∉ ls)
    (run_eq : run (step (server platform etMode)) s (.session .accept :: ls) = .next t) :
    bytesOf Obs.accepted t.session.trace <+: bytesOf Obs.received t.session.trace ∧
    (t.session.conn.isConnected = true → .user .message ∉ t.session.stack →
      t.session.conn.readBuffer.content = [] ∧
      bytesOf Obs.accepted t.session.trace ++ t.session.conn.writeBuffer.content =
        bytesOf Obs.received t.session.trace) := by
  have hset := installed_server platform etMode
  obtain ⟨hplaced, hinv⟩ := Placed.of_run hset hist_run
  rw [run_cons, Outcome.bind_eq_next] at run_eq
  obtain ⟨u, hacc, hrun⟩ := run_eq
  have hlabels : ∀ l ∈ ls, l ≠ .session .accept := fun l hl hno => one_session (hno ▸ hl)
  have hstreams : Streams (server platform etMode) t :=
    run_invariant_of (fun s l t hs hl h => hs.step hset hl h)
      (.accepted hinv hplaced hset readEmpty writeEmpty hacc) (stepsMeet_of_forall hlabels) hrun
  exact hstreams.echo

/-- Two messages, of which the second is sent in two parts. -/
theorem echo_stream_two : ∃ t,
    run (step (server ⟨.linux, .little⟩ true)) (start 0)
      [.session .accept, .session .bound, .callback .again, .session (.poll EPOLLIN),
        .session (.dispatch .again), .session (.read (.data [1, 2])), .callback (.sent 2),
        .callback .again, .callback .again, .callback .again, .session .go,
        .session (.read (.data [3, 4])), .callback (.sent 1), .callback .again, .callback .again,
        .session .go, .session (.read .again)] = .next t ∧
      bytesOf Obs.accepted t.session.trace = [1, 2, 3] ∧
      bytesOf Obs.accepted t.session.trace <+: bytesOf Obs.received t.session.trace := by
  obtain ⟨t, ht, hc⟩ := Outcome.yields_eq_true.mp (show
    (run (step (server ⟨.linux, .little⟩ true)) (start 0)
      [.session .accept, .session .bound, .callback .again, .session (.poll EPOLLIN),
        .session (.dispatch .again), .session (.read (.data [1, 2])), .callback (.sent 2),
        .callback .again, .callback .again, .callback .again, .session .go,
        .session (.read (.data [3, 4])), .callback (.sent 1), .callback .again, .callback .again,
        .session .go, .session (.read .again)]).yields
          (fun t => bytesOf Obs.accepted t.session.trace == [1, 2, 3]) = true by decide +kernel)
  have h := echo_stream _ _ 0 [] _ (start 0) t rfl Buffer.content_fresh Buffer.content_fresh
    (by decide) ht
  exact ⟨t, ht, by simpa using hc, h.1⟩

/-- `onMessage` sends directly, and `write` answers with an error. -/
def Fails (s : EchoServer) : EchoLabel → Bool
  | .callback .error => s.session.stack.head? == some (.user .message) && s.place == .send &&
      s.session.conn.ioEvent.any (!·.isWriting)
  | _ => false

/-- The invariant of a run in which no direct write has failed. -/
structure Sound (srv : TcpServer) (s : EchoServer) : Prop where
  inv : Session.Inv srv s.session
  placed : Placed s
  linked : Session.Linked s.session
  named : Session.Named s.session
  expected : Session.Expected s.session
  known : ∀ callback, .user callback ∈ s.session.stack → s.session.conn.socket ≠ none
  unread : s.session.bindPosted = true →
    .readBody ∉ s.session.stack ∧ .readTest ∉ s.session.stack

theorem Sound.start (index : ℕ) : Sound srv (start index) where
  inv := .start index
  placed := .start index
  linked := .start index
  named := .start index
  expected := fun _ _ _ hno => nomatch hno
  known := fun _ hno => nomatch hno
  unread := fun hno => nomatch hno

/-- User code that does not fail closes nothing. -/
theorem Does.not_shuts {act : Act} (hdo : Does s l (.call act) p) (hcalm : s.Fails l = false) :
    s.session.conn.Shuts act = false := by
  cases hdo with
  | server hl => cases hl
  | retrieveAll => simp [TcpConnection.Shuts]
  | @send _ w _ hstack hp hmsg =>
    cases w with
    | error =>
      simp only [Fails, hstack, hp, List.head?_cons, beq_self_eq_true, Bool.true_and] at hcalm
      simp only [TcpConnection.Shuts, hcalm, Bool.and_false]
    | _ => simp [TcpConnection.Shuts]

theorem Does.quiet (hdo : Does s l k p) (hcalm : s.Fails l = false) :
    Session.Quiet s.session k = true ∧ Session.Spares s.session k = true := by
  cases k with
  | call act =>
    have hshuts := hdo.not_shuts hcalm
    simp [Session.Quiet, Session.Spares, hshuts]
  | posted => cases hdo with | server hl => cases hl
  | _ => exact ⟨rfl, rfl⟩

/-- A piece of code that calls user code leaves a socket. -/
theorem called_socket {c : TcpConnection} {act : Act} {e : Effect} (hm : c.Move act e)
    {callback : Callback} (hmem : .user callback ∈ e.frames) (h : c.Held) :
    e.conn.socket ≠ none := by
  have hopen (hc : c.isConnected = true) : c.socket ≠ none := by
    obtain ⟨event, socket, hb, -⟩ := h.bound_of_connected hc
    simp [hb.socket_eq]
  cases hm with
  | registered hb =>
    rw [TcpConnection.calling_conn]
    exact fun hno => nomatch hb.socket_eq.symm.trans hno
  | closed _ _ _ _ he =>
    subst he
    dsimp only
    rw [TcpConnection.calling_conn]
    exact Option.some_ne_none _
  | received hc _ _ _ _ _ he =>
    subst he
    dsimp only
    rw [TcpConnection.calling_conn]
    exact hopen hc
  | sentAll _ hb _ _ _ _ he =>
    subst he
    dsimp only
    rw [TcpConnection.calling_conn]
    simp [hb.socket_eq]
  | flushedAll hb _ _ _ _ _ _ _ he =>
    subst he
    dsimp only
    rw [TcpConnection.calling_conn]
    exact fun hno => nomatch hb.socket_eq.symm.trans hno
  | looped =>
    dsimp only at hmem
    split_ifs at hmem <;> simp at hmem
  | unbound => simp [TcpConnection.resetTail] at hmem
  | _ => simp at hmem

theorem Layout.no_user {rest : List Frame} (h : Layout p (.resetTail :: rest))
    (hread : .readTest ∉ rest) (callback : Callback) : .user callback ∉ rest := by
  cases h with
  | handler hb => cases hb
  | resetting hb => cases hb <;> simp
  | dropped => simp at hread

theorem Sound.known_ran {act : Act} {rest : List Frame} {e : Effect} (h : Sound srv s)
    (hturn : Session.Turn s.session k act rest) (hm : s.session.conn.Move act e)
    {callback : Callback} (hmem : .user callback ∈ e.frames ++ rest) : e.conn.socket ≠ none := by
  rcases List.mem_append.mp hmem with hmem | hmem
  · exact called_socket hm hmem h.inv.held
  · have hsocket := h.known callback (hturn.mem_of_mem hmem)
    cases hm.shape with
    | kept hs | registered _ hs => rwa [hs]
    | closed _ _ _ hshut =>
      rw [hshut]
      exact Option.some_ne_none _
    | unbound hact =>
      subst hact
      cases hturn with
      | call _ hno | posted _ hno => cases hno
      | @dispatch _ _ _ callback _ _ _ _ _ hno => cases callback <;> cases hno
      | resetTail hstack =>
        obtain ⟨-, hread, -⟩ := h.linked.closing (by simp [hstack])
        have hlayout := h.placed.layout
        rw [hstack] at hlayout hread
        exact absurd hmem (hlayout.no_user (fun hno => hread (List.mem_cons_of_mem _ hno)) _)

/-- Nothing is read before the functor of `bindSocket` has registered the event. -/
theorem Sound.unread_ran {act : Act} {rest : List Frame} {e : Effect} (h : Sound srv s)
    (hbind : s.session.bindPosted = true) (hturn : Session.Turn s.session k act rest)
    (hm : s.session.conn.Move act e) :
    .readBody ∉ e.frames ++ rest ∧ .readTest ∉ e.frames ++ rest := by
  obtain ⟨hbody, htest⟩ := h.unread hbind
  have hframes : ¬ (.readBody ∈ e.frames ∨ .readTest ∈ e.frames) := by
    intro hmem
    have hreads := hm.reads hmem
    cases hturn with
    | read hstack => simp [hstack] at hbody
    | readTest hstack => simp [hstack] at htest
    | @dispatch w event ev callback act _ hevent hrep =>
      obtain ⟨event', he, -, hin⟩ := Session.namesLive_iff.mp h.named.live _ _ hrep
      have hwatched := h.inv.watched event' he (h.inv.posted hbind)
      rw [hin, hbind] at hwatched
      cases hwatched
    | call _ hcall => rcases hreads with rfl | rfl | ⟨r, rfl⟩ <;> cases hcall
    | posted _ hfun => rcases hreads with rfl | rfl | ⟨r, rfl⟩ <;> cases hfun
    | bound | writeTail | resetTail => simp at hreads
  rw [not_or] at hframes
  rw [List.mem_append, List.mem_append, not_or, not_or]
  exact ⟨⟨hframes.1, fun hno => hbody (hturn.mem_of_mem hno)⟩,
    ⟨hframes.2, fun hno => htest (hturn.mem_of_mem hno)⟩⟩

theorem Sound.step (h : Sound srv s) (hset : Installed srv)
    (hcalm : s.Fails l = false) (hs : EchoServer.step srv s l = .next t) : Sound srv t := by
  obtain ⟨k, hdo, hk⟩ := step_next hs
  obtain ⟨hquiet, hspares⟩ := hdo.quiet hcalm
  refine ⟨h.inv.step hk, h.placed.step h.inv hset hdo hk, h.linked.step h.inv hquiet hk,
    h.named.step h.inv hspares hk, h.expected.step h.inv hk, ?_, ?_⟩
  · generalize t.session = u at hk
    intro callback hmem
    cases Session.step_next h.inv.held hk with
    | accepted => exact Option.some_ne_none _
    | polled | skipped => exact h.known callback hmem
    | returned hstack =>
      refine h.known callback ?_
      rw [hstack]
      exact List.mem_cons_of_mem _ hmem
    | ran hturn hact hm hconn hstack =>
      rw [hconn]
      rw [hstack] at hmem
      exact h.known_ran hturn hm hmem
  · generalize t.session = u at hk
    intro hbind
    cases Session.step_next h.inv.held hk with
    | accepted ha =>
      have hnone := (h.inv.pooled ha).2.1
      exact ⟨fun hno => h.linked.reading (.inl hno) hnone,
        fun hno => h.linked.reading (.inr hno) hnone⟩
    | polled | skipped => exact h.unread hbind
    | returned hstack =>
      obtain ⟨hbody, htest⟩ := h.unread hbind
      rw [hstack] at hbody htest
      exact ⟨fun hno => hbody (List.mem_cons_of_mem _ hno),
        fun hno => htest (List.mem_cons_of_mem _ hno)⟩
    | ran hturn hact hm hconn hstack hposted =>
      rw [hposted, Bool.and_eq_true] at hbind
      rw [hstack]
      exact h.unread_ran hbind.1 hturn hm

/-- The faults of the pointers, of the events and of the assertion in `handleWriteEvent`. -/
def Broken (f : Fault) : Prop := f = .nullPointer ∨ f = .deadEvent ∨ f = .notWriting

theorem Sound.session_ne_fault {f : Fault} (h : Sound srv s) (hf : Broken f) :
    s.session.step srv k ≠ .fault f := by
  rcases hf with rfl | rfl | rfl
  · exact h.linked.ne_nullPointer h.inv
  · exact h.named.ne_deadEvent h.inv
  · exact h.expected.ne_notWriting h.inv

theorem Sound.peerAddress_eq {callback : Callback} {rest : List Frame} (h : Sound srv s)
    (hstack : s.session.stack = .user callback :: rest) :
    s.session.conn.peerAddress = .next () := by
  refine Outcome.check_pos ?_ _
  rw [Option.isSome_iff_ne_none]
  exact h.known callback (by simp [hstack])

theorem Sound.ne_fault {f : Fault} (h : Sound srv s) (hf : Broken f) :
    EchoServer.step srv s l ≠ .fault f := by
  have hsession (k : Label) := h.session_ne_fault (k := k) hf
  cases l with
  | session l => simp [EchoServer.step, hsession]
  | callback w =>
    unfold EchoServer.step
    dsimp only
    split
    · next rest hstack => simp [onConnection, h.peerAddress_eq hstack, hsession]
    · next rest hstack =>
      cases hp : s.place <;>
        simp [onMessage, hp, h.inv.held.readValid.readAsSlice_eq, h.peerAddress_eq hstack, hsession]
    · next rest hstack => simp [onWriteComplete, h.peerAddress_eq hstack, hsession]
    · simp

section Failure
variable {c : TcpConnection} {event : IOEvent} {socket : Socket}

end Failure

end EchoServer
end Potato
