import Potato.EchoServer
import Potato.Multiplexing

/-!
# All clients of an echo server

An echo server with one loop and all its connections. Each connection goes
through a run of its own echo server, so each client gets its own bytes back,
and no callback of one client brings the loop down for the others.
-/
namespace Potato
open Words Machine

/-- One loop. `places` tells for each connection where its `onMessage` is, or starts. -/
structure EchoLoop where
  loop : Dispatcher
  places : ℕ → Place

inductive EchoLoopLabel where
  /-- The loop or a handler runs. -/
  | server (l : DispatchLabel)
  /-- The user callback on top goes on, with the answer of `write` if it sends. -/
  | callback (w : WriteResult)
  deriving DecidableEq, Repr

/-- The label runs no user code and comes from no other thread. -/
def DispatchLabel.IsServer : DispatchLabel → Bool
  | wait _ | next _ => true
  | slot _ l => l.IsServer

namespace EchoLoop

def start : EchoLoop := ⟨.start, fun _ => .send⟩

/-- The connection of the slot `j` as one echo server. -/
def client (e : EchoLoop) (j : ℕ) : EchoServer := ⟨e.loop.slots j, e.places j⟩

/-- A callback runs for the connection whose frame is innermost. -/
def step (srv : TcpServer) (e : EchoLoop) : EchoLoopLabel → Outcome Fault EchoLoop
  | .server l => do
    Outcome.require (l.IsServer = true)
    return { e with loop := ← e.loop.step srv l }
  | .callback w =>
    match e.loop.owners with
    | [] => .refused
    | j :: _ => do
      let t ← (e.client j).step srv (.callback w)
      -- a callback that returns takes its frame away
      let pops := decide (t.session.stack.length < (e.loop.slots j).stack.length)
      return ⟨e.loop.on j t.session pops, Function.update e.places j t.place⟩

variable {srv : TcpServer} {e e' : EchoLoop} {l : EchoLoopLabel} {j : ℕ}

theorem client_on {d : Dispatcher} {places : ℕ → Place} {i : ℕ} {t : EchoServer} {pops : Bool} :
    (EchoLoop.mk (d.on i t.session pops) (Function.update places i t.place)).client j =
      if j = i then t else (EchoLoop.mk d places).client j := by
  by_cases hj : j = i
  · subst hj
    rw [if_pos rfl]
    simp [client, Dispatcher.on]
  · rw [if_neg hj]
    simp [client, Dispatcher.on, hj]

/-- A callback is a step of the connection whose frame is innermost. -/
theorem callback_next {w : WriteResult} (h : step srv e (.callback w) = .next e') :
    ∃ i rest t, e.loop.owners = i :: rest ∧ (e.client i).step srv (.callback w) = .next t ∧
      e' = ⟨e.loop.on i t.session (decide (t.session.stack.length < (e.loop.slots i).stack.length)),
        Function.update e.places i t.place⟩ := by
  unfold step at h
  dsimp only at h
  split at h
  · cases h
  · next i rest howners =>
    simp only [Outcome.bind_eq_next, Outcome.pure_eq, Outcome.next.injEq] at h
    obtain ⟨t, ht, rfl⟩ := h
    exact ⟨i, rest, t, howners, ht, rfl⟩

theorem server_next {m : DispatchLabel} (h : step srv e (.server m) = .next e') :
    m.IsServer = true ∧ e'.places = e.places ∧ e.loop.step srv m = .next e'.loop := by
  simp only [step, Outcome.bind_eq_next, Outcome.require_eq_next, Outcome.pure_eq,
    Outcome.next.injEq] at h
  obtain ⟨-, hm, d, hd, rfl⟩ := h
  exact ⟨hm, rfl, hd⟩

/-- What a step of the loop does to a client. -/
def Serves (l : EchoLoopLabel) (j : ℕ) : EchoLabel → Prop
  | .session k => ∃ m, l = .server m ∧ Dispatcher.Runs m j k ∧ k.IsServer = true
  | .callback w => l = .callback w

theorem session_run {s s' : Session} {p : Place} {ks : List Label}
    (hks : ∀ k ∈ ks, k.IsServer = true) (h : run (Session.step srv) s ks = .next s') :
    run (EchoServer.step srv) ⟨s, p⟩ (ks.map .session) = .next ⟨s', p⟩ := by
  induction ks generalizing s with
  | nil =>
    cases h
    rfl
  | cons k ks ih =>
    obtain ⟨u, hu, hrun⟩ := Outcome.bind_eq_next.mp h
    have hstep : EchoServer.step srv ⟨s, p⟩ (.session k) = .next ⟨u, p⟩ := by
      simp [EchoServer.step, Outcome.require, hks k List.mem_cons_self, hu]
    rw [List.map_cons, run_cons, hstep, Outcome.next_bind]
    exact ih (fun m hm => hks m (List.mem_cons_of_mem k hm)) hrun

/-- A step of the loop is a run of each client. -/
theorem client_run (hs : step srv e l = .next e') : ∃ ks, (∀ k ∈ ks, Serves l j k) ∧
    run (EchoServer.step srv) (e.client j) ks = .next (e'.client j) := by
  cases l with
  | server m =>
    obtain ⟨hm, hplaces, hd⟩ := server_next hs
    obtain ⟨ks, hks, hrun⟩ := Dispatcher.slot_run (j := j) hd
    have hserver : ∀ k ∈ ks, k.IsServer = true := by
      intro k hk
      rcases hks k hk with rfl | ⟨ev, rfl⟩ | ⟨w, rfl⟩
      · exact hm
      · rfl
      · rfl
    refine ⟨ks.map .session, ?_, ?_⟩
    · simp only [List.mem_map]
      rintro _ ⟨k, hk, rfl⟩
      exact ⟨m, rfl, hks k hk, hserver k hk⟩
    · rw [client, client, hplaces]
      exact session_run hserver hrun
  | callback w =>
    obtain ⟨i, rest, t, -, ht, rfl⟩ := callback_next hs
    rw [client_on]
    by_cases hj : j = i
    · subst hj
      refine ⟨[.callback w], fun k hk => ?_, ?_⟩
      · rw [List.mem_singleton.mp hk]
        rfl
      · rw [if_pos rfl, run_cons, ht]
        rfl
    · rw [if_neg hj]
      exact ⟨[], fun k hk => absurd hk List.not_mem_nil, rfl⟩

/-- The callbacks run on the stack of the thread: a step is one of the loop. -/
theorem dispatched (h : Dispatcher.Stacked srv e.loop) (hs : step srv e l = .next e') :
    ∃ m, e.loop.step srv m = .next e'.loop := by
  cases l with
  | server m => exact ⟨m, (server_next hs).2.2⟩
  | callback w =>
    obtain ⟨i, rest, t, howners, ht, rfl⟩ := callback_next hs
    obtain ⟨k, hdo, hk⟩ := EchoServer.step_next ht
    have hslot : (e.loop.slots i).step srv k = .next t.session := hk
    obtain ⟨frames, hframes, -⟩ := Session.step_stack (h.inv i) hslot
    have htop {callback : Callback} {rest : List Frame}
        (hstack : (e.client i).session.stack = .user callback :: rest) :
        (e.loop.slots i).stack = .user callback :: rest := hstack
    have hcall {act : Act} {callback : Callback} {rest : List Frame} (hka : k = .call act)
        (hstack : (e.client i).session.stack = .user callback :: rest) :
        e.loop.step srv (.slot i k) = .next (e.loop.on i t.session
          (decide (t.session.stack.length < (e.loop.slots i).stack.length))) := by
      subst hka
      have hpops : decide (t.session.stack.length < (e.loop.slots i).stack.length) = false := by
        rw [hframes]
        simp [Label.Pops]
      have hadmits : e.loop.Admits i (.call act) = true := by
        simp only [Dispatcher.Admits, howners, htop hstack, Session.UserTurn]
      simp [Dispatcher.step, Outcome.require, hadmits, hslot, hpops, Label.Pops]
    have hret {callback : Callback} {rest : List Frame} (hkr : k = .ret)
        (hstack : (e.client i).session.stack = .user callback :: rest) :
        e.loop.step srv (.slot i k) = .next (e.loop.on i t.session
          (decide (t.session.stack.length < (e.loop.slots i).stack.length))) := by
      subst hkr
      have hpops : decide (t.session.stack.length < (e.loop.slots i).stack.length) = true := by
        generalize t.session = u at hslot
        rw [decide_eq_true_eq]
        cases Session.step_next (h.inv i).held hslot with
        | ran hturn => cases hturn
        | returned hstack' =>
          rw [hstack']
          exact Nat.lt_succ_self _
      simp [Dispatcher.step, Outcome.require, Dispatcher.Admits, howners, hslot, hpops, Label.Pops]
    refine ⟨.slot i k, ?_⟩
    generalize t.place = p at hdo
    cases hdo with
    | send hstack => exact hcall rfl hstack
    | retrieveAll hstack => exact hcall rfl hstack
    | leave hstack => exact hret rfl hstack
    | log hstack => exact hret rfl hstack

/-- What holds in every reachable state of the loop. -/
structure Served (srv : TcpServer) (e : EchoLoop) : Prop where
  stacked : Dispatcher.Stacked srv e.loop
  clients : ∀ j, EchoServer.Placed (e.client j)

theorem Served.start : Served srv start where
  stacked := .start
  clients := EchoServer.Placed.start

theorem Served.step (hset : EchoServer.Installed srv) (h : Served srv e)
    (hs : step srv e l = .next e') : Served srv e' where
  stacked := by
    obtain ⟨m, hm⟩ := dispatched h.stacked hs
    exact h.stacked.step hm
  clients j := by
    obtain ⟨ks, -, hrun⟩ := client_run (j := j) hs
    refine (run_invariant (I := fun s => EchoServer.Placed s ∧ Session.Inv srv s.session)
      (fun s k t hs hk => ?_) ⟨h.clients j, h.stacked.inv j⟩ hrun).1
    obtain ⟨k', hdo, hk'⟩ := EchoServer.step_next hk
    exact ⟨hs.1.step hs.2 hset hdo hk', hs.2.step hk'⟩

theorem streams_step (hset : EchoServer.Installed srv)
    (h : EchoServer.Streams srv (e.client j)) (hl : l ≠ .server (.slot j .accept))
    (hs : step srv e l = .next e') : EchoServer.Streams srv (e'.client j) := by
  obtain ⟨ks, hks, hrun⟩ := client_run (j := j) hs
  have hlabels : ∀ k ∈ ks, k ≠ .session .accept := by
    rintro _ hk rfl
    obtain ⟨m, rfl, hm, -⟩ := hks _ hk
    exact hl (by rw [hm.accept])
  exact run_invariant_of (C := fun _ k => k ≠ .session .accept)
    (fun s k t hs hk ht => hs.step hset hk ht) h (stepsMeet_of_forall hlabels) hrun

/-- The bind of the slot is that of its own echo server. -/
theorem client_accept (hs : step srv e (.server (.slot j .accept)) = .next e') :
    (e.client j).step srv (.session .accept) = .next (e'.client j) := by
  obtain ⟨-, hplaces, hd⟩ := server_next hs
  simp only [Dispatcher.step, Outcome.bind_eq_next, Outcome.require_eq_next, Outcome.pure_eq,
    Outcome.next.injEq] at hd
  obtain ⟨-, -, s, hs, hd⟩ := hd
  have hself : e'.loop.slots j = s := by
    rw [← hd]
    exact Function.update_self ..
  simp [EchoServer.step, Outcome.require, Label.IsServer, client, hs, hself, hplaces]

/-- Every client of the one loop gets its own bytes back, whatever the others do. In a session that
starts with empty buffers, what the kernel took for it is always a front part of what was read from
it, and while it is open and its `onMessage` does not run, the rest is what waits in its write
buffer. The thread holds the frames of the connections and no others. -/
theorem echo_clients (platform : Platform) (etMode : Bool) (j : ℕ) (hist ls : List EchoLoopLabel)
    (e e' : EchoLoop) (hist_run : run (step (EchoServer.server platform etMode)) start hist = .next e)
    (readEmpty : (e.loop.slots j).conn.readBuffer.content = [])
    (writeEmpty : (e.loop.slots j).conn.writeBuffer.content = [])
    (one_session : .server (.slot j .accept) ∉ ls)
    (run_eq : run (step (EchoServer.server platform etMode)) e (.server (.slot j .accept) :: ls) =
      .next e') :
    (∀ i, e'.loop.owners.count i = (e'.loop.slots i).stack.length) ∧
    bytesOf Obs.accepted (e'.loop.slots j).trace <+: bytesOf Obs.received (e'.loop.slots j).trace ∧
    ((e'.loop.slots j).conn.isConnected = true → .user .message ∉ (e'.loop.slots j).stack →
      (e'.loop.slots j).conn.readBuffer.content = [] ∧
      bytesOf Obs.accepted (e'.loop.slots j).trace ++ (e'.loop.slots j).conn.writeBuffer.content =
        bytesOf Obs.received (e'.loop.slots j).trace) := by
  have hset := EchoServer.installed_server platform etMode
  have hserved : Served (EchoServer.server platform etMode) e :=
    run_invariant (fun _ _ _ h hs => h.step hset hs) .start hist_run
  have hserved' : Served (EchoServer.server platform etMode) e' :=
    run_invariant (fun _ _ _ h hs => h.step hset hs) hserved run_eq
  obtain ⟨u, hacc, hrun⟩ := Outcome.bind_eq_next.mp run_eq
  have haccepted : EchoServer.Streams (EchoServer.server platform etMode) (u.client j) :=
    .accepted (hserved.stacked.inv j) (hserved.clients j) hset readEmpty writeEmpty
      (client_accept hacc)
  have hlabels : ∀ l ∈ ls, l ≠ .server (.slot j .accept) := fun l hl hno => one_session (hno ▸ hl)
  have hstreams : EchoServer.Streams (EchoServer.server platform etMode) (e'.client j) :=
    run_invariant_of (C := fun _ l => l ≠ .server (.slot j .accept))
      (fun _ _ _ h hl hs => streams_step hset h hl hs) haccepted (stepsMeet_of_forall hlabels) hrun
  exact ⟨hserved'.stacked.frames, hstreams.echo⟩

/-- Two clients in one batch. The second gets its first byte back, the other one waits. -/
theorem echo_clients_two : ∃ e',
    run (step (EchoServer.server ⟨.linux, .little⟩ false)) start
      [.server (.slot 1 .accept), .server (.slot 0 .accept), .server (.slot 0 .bound),
        .callback .again, .server (.slot 1 .bound), .callback .again,
        .server (.wait [some (0, EPOLLIN), some (1, EPOLLIN)]), .server (.next .again),
        .server (.slot 0 (.read (.data [4]))), .callback (.sent 1), .callback .again,
        .callback .again, .callback .again, .server (.slot 0 .go), .server (.next .again),
        .server (.slot 1 (.read (.data [2, 3]))), .callback (.sent 1), .callback .again,
        .callback .again, .server (.slot 1 .go)] = .next e' ∧
      bytesOf Obs.accepted (e'.loop.slots 1).trace = [2] ∧
      bytesOf Obs.accepted (e'.loop.slots 1).trace <+:
        bytesOf Obs.received (e'.loop.slots 1).trace := by
  obtain ⟨e', he, hc⟩ := Outcome.yields_eq_true.mp (show
    (run (step (EchoServer.server ⟨.linux, .little⟩ false)) start
      [.server (.slot 1 .accept), .server (.slot 0 .accept), .server (.slot 0 .bound),
        .callback .again, .server (.slot 1 .bound), .callback .again,
        .server (.wait [some (0, EPOLLIN), some (1, EPOLLIN)]), .server (.next .again),
        .server (.slot 0 (.read (.data [4]))), .callback (.sent 1), .callback .again,
        .callback .again, .callback .again, .server (.slot 0 .go), .server (.next .again),
        .server (.slot 1 (.read (.data [2, 3]))), .callback (.sent 1), .callback .again,
        .callback .again, .server (.slot 1 .go)]).yields
          (fun e => bytesOf Obs.accepted (e.loop.slots 1).trace == [2]) = true by decide +kernel)
  have h := echo_clients _ _ 1 [] _ start e' rfl Buffer.content_fresh Buffer.content_fresh
    (by decide) he
  exact ⟨e', he, eq_of_beq hc, h.2.1⟩

/-- `onMessage` of the innermost connection sends directly, and `write` answers with an error. -/
def Fails (e : EchoLoop) : EchoLoopLabel → Bool
  | .server _ => false
  | .callback w => e.loop.owners.head?.any fun j => (e.client j).Fails (.callback w)

theorem sound_step (hset : EchoServer.Installed srv) (h : ∀ j, EchoServer.Sound srv (e.client j))
    (hcalm : e.Fails l = false) (hs : step srv e l = .next e') (j : ℕ) :
    EchoServer.Sound srv (e'.client j) := by
  cases l with
  | server m =>
    obtain ⟨ks, hks, hrun⟩ := client_run (j := j) hs
    refine run_invariant_of (C := fun _ k => ∃ m, k = EchoLabel.session m)
      (fun s k t hs hk ht => ?_) (h j) (stepsMeet_of_forall fun k hk => ?_) hrun
    · obtain ⟨m, rfl⟩ := hk
      exact hs.step hset rfl ht
    · cases k with
      | session m => exact ⟨m, rfl⟩
      | callback w => cases hks _ hk
  | callback w =>
    obtain ⟨i, rest, t, howners, ht, rfl⟩ := callback_next hs
    have hcalm' : (e.client i).Fails (.callback w) = false := by
      simpa [Fails, howners] using hcalm
    rw [client_on]
    split_ifs
    · exact (h i).step hset hcalm' ht
    · exact h j

theorem sound_ne_fault {f : Fault} (hset : EchoServer.Installed srv)
    (h : ∀ j, EchoServer.Sound srv (e.client j)) (hf : EchoServer.Broken f) :
    step srv e l ≠ .fault f := by
  intro hs
  cases l with
  | server m =>
    simp only [step, Outcome.bind_eq_fault, Outcome.require_ne_fault, false_or, Outcome.pure_eq,
      reduceCtorEq, and_false, exists_false, or_false] at hs
    obtain ⟨-, -, hs⟩ := hs
    refine Dispatcher.step_ne_fault (P := fun j s => EchoServer.Sound srv ⟨s, e.places j⟩)
      (fun j s hs => hs.named.live) (fun j s ev t hs ht => ?_)
      (fun j s k hs => hs.session_ne_fault hf) h hs
    have hpoll : EchoServer.step srv ⟨s, e.places j⟩ (.session (.poll ev)) =
        .next ⟨t, e.places j⟩ := by
      simp [EchoServer.step, Outcome.require, Label.IsServer, ht]
    exact hs.step hset rfl hpoll
  | callback w =>
    unfold step at hs
    dsimp only at hs
    split at hs
    · cases hs
    · next i rest howners =>
      simp only [Outcome.bind_eq_fault, Outcome.pure_eq, reduceCtorEq, and_false, exists_false,
        or_false] at hs
      exact (h i).ne_fault hf hs

/-- The one loop is safe for all its clients as long as no direct write of an `onMessage` is
answered with an error: whatever the events of a batch and their order are, no null pointer is used,
no entry is dispatched whose event is gone, and the assertion on `isWriting()` holds. -/
theorem echo_loop_safety (platform : Platform) (etMode : Bool) (ls : List EchoLoopLabel) (f : Fault)
    (broken : EchoServer.Broken f)
    (calm : StepsMeet (step (EchoServer.server platform etMode)) (fun e l => e.Fails l = false)
      start ls) :
    run (step (EchoServer.server platform etMode)) start ls ≠ .fault f :=
  run_ne_fault_of (I := fun e => ∀ j, EchoServer.Sound (EchoServer.server platform etMode)
    (e.client j)) (fun _ _ _ h hl hs => sound_step (EchoServer.installed_server _ _) h hl hs)
    (fun _ _ h _ => sound_ne_fault (EchoServer.installed_server _ _) h broken)
    EchoServer.Sound.start calm

/-- The second client is hung up on while the first one is served. -/
theorem echo_loop_safety_hangup :
    run (step (EchoServer.server ⟨.linux, .little⟩ true)) start
      [.server (.slot 0 .accept), .server (.slot 1 .accept), .server (.slot 0 .bound),
        .callback .again, .server (.slot 1 .bound), .callback .again,
        .server (.wait [some (0, EPOLLIN), some (1, EPOLLHUP)]), .server (.next .again),
        .server (.slot 0 (.read (.data [1]))), .callback (.sent 1), .callback .again,
        .callback .again, .callback .again, .server (.slot 0 .go),
        .server (.slot 0 (.read .again)), .server (.next .again), .callback .again,
        .server (.slot 1 .go)] ≠ .fault .deadEvent :=
  echo_loop_safety _ _ _ _ (.inr (.inl rfl)) (by decide +kernel)

end EchoLoop
end Potato
