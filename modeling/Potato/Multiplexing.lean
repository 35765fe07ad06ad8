import Potato.Dispatch
import Potato.IncomingStream
import Potato.OutgoingStream

/-!
# Each connection of a loop on its own

A loop serves its connections one event at a time, on one stack. Whatever happens
to the others, each of them goes through a run of its own session, and the frames
of the stack are those of the sessions. What is proved of one session holds for
every connection of the loop.
-/
namespace Potato
open Words Machine

namespace Session
variable {srv : TcpServer} {s t : Session} {l : Label}

/-- A step takes off the stack what its label says, and puts the rest on top. -/
theorem step_stack (hi : Inv srv s) (hs : Session.step srv s l = .next t) :
    ∃ frames, t.stack = frames ++ s.stack.drop l.Pops.toNat ∧
      (l.Pops = true → s.stack ≠ []) := by
  cases step_next hi.held hs with
  | accepted | polled | skipped => exact ⟨[], rfl, fun hno => by cases hno⟩
  | returned hstack =>
    rw [hstack]
    exact ⟨[], rfl, fun _ => List.cons_ne_nil _ _⟩
  | @ran _ _ _ e _ hturn _ _ _ hstack =>
    refine ⟨e.frames, hstack.trans ?_, ?_⟩
    · cases hturn with
      | bound h | dispatch h | posted h =>
        rw [h]
        rfl
      | call => rfl
      | read h | readTest h | writeTail h | resetTail h =>
        rw [h]
        rfl
    · intro hpops
      cases hturn with
      | bound | dispatch | posted | call => cases hpops
      | read h | readTest h | writeTail h | resetTail h =>
        rw [h]
        exact List.cons_ne_nil _ _

end Session

namespace Dispatcher
variable {srv : TcpServer} {d d' : Dispatcher} {l : DispatchLabel} {j : ℕ}

/-- The run of one slot in which a slot moves on. -/
theorem update_run {slots : ℕ → Session} {i : ℕ} {k : Label} {s : Session}
    (hs : (slots i).step srv k = .next s) : ∃ ks, (∀ m ∈ ks, i = j ∧ m = k) ∧
      run (Session.step srv) (slots j) ks = .next (Function.update slots i s j) := by
  by_cases hj : i = j
  · subst hj
    refine ⟨[k], fun m hm => ⟨rfl, List.mem_singleton.mp hm⟩, ?_⟩
    rw [run_cons, hs, Function.update_self]
    rfl
  · refine ⟨[], fun m hm => absurd hm List.not_mem_nil, ?_⟩
    rw [Function.update_of_ne (Ne.symm hj)]
    rfl

theorem fill_run {entries : List (Option (ℕ × Mask))} {slots slots' : ℕ → Session}
    (h : fill srv slots entries = .next slots') : ∃ ks, (∀ m ∈ ks, ∃ ev, m = .poll ev) ∧
      run (Session.step srv) (slots j) ks = .next (slots' j) := by
  induction entries generalizing slots with
  | nil =>
    cases h
    exact ⟨[], fun m hm => absurd hm List.not_mem_nil, rfl⟩
  | cons entry entries ih =>
    cases entry with
    | none => exact ih h
    | some entry =>
      obtain ⟨i, ev⟩ := entry
      obtain ⟨s, hs, hrest⟩ := Outcome.bind_eq_next.mp h
      obtain ⟨ks, hks, hrun⟩ := update_run (j := j) hs
      obtain ⟨ms, hms, hrun'⟩ := ih hrest
      refine ⟨ks ++ ms, fun m hm => ?_, ?_⟩
      · rcases List.mem_append.mp hm with hm | hm
        · exact ⟨ev, (hks m hm).2⟩
        · exact hms m hm
      rw [run_append, hrun, Outcome.next_bind, hrun']

/-- What a step of the loop does to a slot. -/
def Runs (l : DispatchLabel) (j : ℕ) (k : Label) : Prop :=
  l = .slot j k ∨ (∃ ev, k = .poll ev) ∨ ∃ w, k = .dispatch w

theorem Runs.accept (h : Runs l j .accept) : l = .slot j .accept := by
  rcases h with h | ⟨ev, hev⟩ | ⟨w, hw⟩
  · exact h
  · cases hev
  · cases hw

/-- A step of the loop is a run of each session. -/
theorem slot_run (hs : step srv d l = .next d') : ∃ ks, (∀ k ∈ ks, Runs l j k) ∧
    run (Session.step srv) (d.slots j) ks = .next (d'.slots j) := by
  cases l with
  | wait entries =>
    simp only [Dispatcher.step, Outcome.bind_eq_next, Outcome.require_eq_next, Outcome.pure_eq,
      Outcome.next.injEq] at hs
    obtain ⟨-, -, slots, hfill, rfl⟩ := hs
    obtain ⟨ks, hks, hrun⟩ := fill_run (j := j) hfill
    exact ⟨ks, fun k hk => .inr (.inl (hks k hk)), hrun⟩
  | next w =>
    simp only [Dispatcher.step, Outcome.bind_eq_next, Outcome.require_eq_next] at hs
    obtain ⟨-, -, hs⟩ := hs
    cases hb : d.batch with
    | nil => simp [hb] at hs
    | cons entry batch =>
      cases entry with
      | none =>
        simp only [hb, Outcome.pure_eq, Outcome.next.injEq] at hs
        subst hs
        exact ⟨[], fun k hk => absurd hk List.not_mem_nil, rfl⟩
      | some i =>
        simp only [hb, Outcome.bind_eq_next, Outcome.pure_eq, Outcome.next.injEq] at hs
        obtain ⟨-, -, s, hdisp, rfl⟩ := hs
        obtain ⟨ks, hks, hrun⟩ := update_run (j := j) hdisp
        exact ⟨ks, fun k hk => .inr (.inr ⟨w, (hks k hk).2⟩), hrun⟩
  | slot i k =>
    simp only [Dispatcher.step, Outcome.bind_eq_next, Outcome.require_eq_next, Outcome.pure_eq,
      Outcome.next.injEq] at hs
    obtain ⟨-, -, s, hs, rfl⟩ := hs
    obtain ⟨ks, hks, hrun⟩ := update_run (j := j) hs
    exact ⟨ks, fun m hm => .inl (by rw [(hks m hm).1, (hks m hm).2]), hrun⟩

theorem slot_runs {ls : List DispatchLabel} (h : run (Dispatcher.step srv) d ls = .next d') :
    ∃ ks, (.accept ∈ ks → .slot j .accept ∈ ls) ∧
      run (Session.step srv) (d.slots j) ks = .next (d'.slots j) := by
  obtain ⟨ks, hks, hrun⟩ := run_projects (π := fun d : Dispatcher => d.slots j) (C := (· ∈ ls))
    (D := fun k : Label => k = .accept → .slot j .accept ∈ ls) (fun s l t hl hs => by
      obtain ⟨ks, hks, hrun⟩ := slot_run (j := j) hs
      refine ⟨ks, fun k hk he => ?_, hrun⟩
      subst he
      exact (hks _ hk).accept ▸ hl) (fun _ hl => hl) h
  exact ⟨ks, fun hmem => hks _ hmem rfl, hrun⟩

/-- The invariant of the stack: the sessions hold the frames of the thread. -/
structure Stacked (srv : TcpServer) (d : Dispatcher) : Prop where
  inv : ∀ j, Session.Inv srv (d.slots j)
  frames : ∀ j, d.owners.count j = (d.slots j).stack.length

theorem Stacked.start : Stacked srv start where
  inv := .start
  frames := fun _ => rfl

theorem Stacked.on (h : Stacked srv d) {i : ℕ} {s : Session} {pops : Bool} {frames : List Frame}
    (hi : Session.Inv srv s) (hs : s.stack = frames ++ (d.slots i).stack.drop pops.toNat)
    (hne : pops = true → (d.slots i).stack ≠ [])
    (htop : pops = true → d.owners.head? = some i) : Stacked srv (d.on i s pops) := by
  refine ⟨forall_update h.inv hi, fun k => ?_⟩
  have hcount := h.frames k
  have hlen : s.stack.length - ((d.slots i).stack.length - pops.toNat) = frames.length := by
    rw [hs, List.length_append, List.length_drop]
    omega
  have hdrop : (d.owners.drop pops.toNat).count k =
      (d.slots k).stack.length - if k = i then pops.toNat else 0 := by
    cases pops with
    | false => simpa using hcount
    | true =>
      obtain ⟨rest, hrest⟩ := List.head?_eq_some_iff.mp (htop rfl)
      rw [hrest, List.count_cons] at hcount
      rw [hrest, ← hcount]
      by_cases hk : k = i
      · simp [hk]
      · simp [hk, Ne.symm hk]
  change (List.replicate (s.stack.length - ((d.slots i).stack.length - pops.toNat)) i ++
    d.owners.drop pops.toNat).count k = (Function.update d.slots i s k).stack.length
  rw [List.count_append, List.count_replicate, hdrop, hlen]
  by_cases hk : k = i
  · subst hk
    rw [Function.update_self, hs, List.length_append, List.length_drop]
    simp
  · simp [hk, Ne.symm hk]

theorem fill_stacked {entries : List (Option (ℕ × Mask))} {slots slots' : ℕ → Session}
    (hi : ∀ j, Session.Inv srv (slots j)) (h : fill srv slots entries = .next slots') :
    (∀ j, Session.Inv srv (slots' j)) ∧ ∀ j, (slots' j).stack = (slots j).stack := by
  induction entries generalizing slots with
  | nil =>
    cases h
    exact ⟨hi, fun _ => rfl⟩
  | cons entry entries ih =>
    cases entry with
    | none => exact ih hi h
    | some entry =>
      obtain ⟨i, ev⟩ := entry
      obtain ⟨s, hs, hrest⟩ := Outcome.bind_eq_next.mp h
      obtain ⟨hi', hstack⟩ := ih (forall_update hi ((hi i).step hs)) hrest
      refine ⟨hi', fun j => (hstack j).trans ?_⟩
      by_cases hj : j = i
      · subst hj
        rw [Function.update_self]
        cases Session.step_next (hi j).held hs with
        | polled => rfl
        | ran hturn => cases hturn
      · rw [Function.update_of_ne hj]

theorem Stacked.step (h : Stacked srv d) (hs : step srv d l = .next d') : Stacked srv d' := by
  cases l with
  | wait entries =>
    simp only [Dispatcher.step, Outcome.bind_eq_next, Outcome.require_eq_next, Outcome.pure_eq,
      Outcome.next.injEq] at hs
    obtain ⟨-, -, slots, hfill, rfl⟩ := hs
    obtain ⟨hi, hstack⟩ := fill_stacked h.inv hfill
    exact ⟨hi, fun j => (h.frames j).trans (by rw [hstack j])⟩
  | next w =>
    simp only [Dispatcher.step, Outcome.bind_eq_next, Outcome.require_eq_next] at hs
    obtain ⟨-, -, hs⟩ := hs
    cases hb : d.batch with
    | nil => simp [hb] at hs
    | cons entry batch =>
      cases entry with
      | none =>
        simp only [hb, Outcome.pure_eq, Outcome.next.injEq] at hs
        subst hs
        exact ⟨h.inv, h.frames⟩
      | some i =>
        simp only [hb, Outcome.bind_eq_next, Outcome.pure_eq, Outcome.next.injEq] at hs
        obtain ⟨-, -, s, hdisp, rfl⟩ := hs
        obtain ⟨frames, hframes, -⟩ := Session.step_stack (h.inv i) hdisp
        have h' : Stacked srv { d with batch := batch } := ⟨h.inv, h.frames⟩
        exact h'.on ((h.inv i).step hdisp) hframes (fun hno => by cases hno)
          (fun hno => by cases hno)
  | slot i k =>
    simp only [Dispatcher.step, Outcome.bind_eq_next, Outcome.require_eq_next, Outcome.pure_eq,
      Outcome.next.injEq] at hs
    obtain ⟨-, ha, s, hs, rfl⟩ := hs
    obtain ⟨frames, hframes, hne⟩ := Session.step_stack (h.inv i) hs
    refine h.on ((h.inv i).step hs) hframes hne fun hpops => ?_
    cases k with
    | ret | read | go => exact eq_of_beq ha
    | _ => cases hpops

/-- Every connection of a server's one loop is served like the only one. Whatever the loop does for
the others and whoever writes to whom, the stack of the thread holds the frames of the sessions and
no others, each slot goes through a run of its own session, and in a session that starts with empty
buffers: what the kernel took is a front part of what was submitted to this connection, while it is
open the rest is what waits in its write buffer, and what was read from its socket was consumed or
is still readable. -/
theorem served_alone (srv : TcpServer) (j : ℕ) (hist ls : List DispatchLabel) (d d' : Dispatcher)
    (hist_run : run (step srv) start hist = .next d)
    (empty : (d.slots j).conn.writeBuffer.content = [] ∧ (d.slots j).conn.readBuffer.content = [])
    (one_session : .slot j .accept ∉ ls)
    (run_eq : run (step srv) d (.slot j .accept :: ls) = .next d') :
    (∀ i, d'.owners.count i = (d'.slots i).stack.length) ∧
    (∃ ks, .accept ∉ ks ∧
      run (Session.step srv) (d.slots j) (.accept :: ks) = .next (d'.slots j)) ∧
    bytesOf Obs.accepted (d'.slots j).trace <+: bytesOf Obs.submission (d'.slots j).trace ∧
    ((d'.slots j).conn.isConnected = true →
      bytesOf Obs.accepted (d'.slots j).trace ++ (d'.slots j).conn.writeBuffer.content =
        bytesOf Obs.submission (d'.slots j).trace) ∧
    bytesOf Obs.received (d'.slots j).trace =
      bytesOf Obs.consumption (d'.slots j).trace ++ (d'.slots j).conn.readBuffer.content := by
  have hstacked : Stacked srv d := run_invariant (fun _ _ _ h hs => h.step hs) .start hist_run
  have hstacked' : Stacked srv d' := run_invariant (fun _ _ _ h hs => h.step hs) hstacked run_eq
  obtain ⟨ms, -, hhist⟩ := slot_runs (j := j) hist_run
  obtain ⟨u, hacc, hrest⟩ := Outcome.bind_eq_next.mp run_eq
  obtain ⟨ks, hks, hrun⟩ := slot_runs (j := j) hrest
  simp only [Dispatcher.step, Outcome.bind_eq_next, Outcome.require_eq_next, Outcome.pure_eq,
    Outcome.next.injEq] at hacc
  obtain ⟨-, -, s, hs, rfl⟩ := hacc
  have hself : (d.on j s false).slots j = s := Function.update_self ..
  have hone : .accept ∉ ks := fun hno => one_session (hks hno)
  have hsession : run (Session.step srv) (d.slots j) (.accept :: ks) = .next (d'.slots j) := by
    rw [run_cons, hs, Outcome.next_bind, ← hself]
    exact hrun
  obtain ⟨⟨hflow, hreceived⟩, -⟩ := Session.Inv.of_session (P := fun s => Session.Flow s ∧
    Session.Received s) hhist hone ⟨.accepted empty.1, empty.2.symm, rfl⟩
    (fun _ _ _ h hi hl hs => ⟨h.1.step hi hl hs, h.2.step hi hl hs⟩) hsession
  exact ⟨hstacked'.frames, ⟨ks, hone, hsession⟩, hflow.front, hflow.stream, hreceived.stream⟩

/-- The callback of one connection writes on another, which is read from in the same batch. -/
theorem served_alone_two : ∃ d',
    run (step ⟨⟨.linux, .little⟩, false, false, true, false⟩) start
      [.slot 1 .accept, .slot 0 .accept, .slot 0 .bound, .slot 1 .bound,
        .wait [none, some (0, EPOLLIN), some (1, EPOLLIN)], .next .again, .next .again,
        .slot 0 (.read (.data [1])), .slot 1 (.call (.write [2, 3] (.sent 1))), .slot 0 .ret,
        .slot 0 .go, .next .again, .slot 1 (.read (.data [4]))] = .next d' ∧
      bytesOf Obs.accepted (d'.slots 1).trace = [2] ∧
      (∀ i, d'.owners.count i = (d'.slots i).stack.length) ∧
      bytesOf Obs.accepted (d'.slots 1).trace <+: bytesOf Obs.submission (d'.slots 1).trace := by
  obtain ⟨d', hd, hc⟩ := Outcome.yields_eq_true.mp (show
    (run (step ⟨⟨.linux, .little⟩, false, false, true, false⟩) start
      [.slot 1 .accept, .slot 0 .accept, .slot 0 .bound, .slot 1 .bound,
        .wait [none, some (0, EPOLLIN), some (1, EPOLLIN)], .next .again, .next .again,
        .slot 0 (.read (.data [1])), .slot 1 (.call (.write [2, 3] (.sent 1))), .slot 0 .ret,
        .slot 0 .go, .next .again, .slot 1 (.read (.data [4]))]).yields
          (fun d => bytesOf Obs.accepted (d.slots 1).trace == [2]) = true by decide +kernel)
  have h := served_alone _ 1 [] _ start d' rfl ⟨Buffer.content_fresh, Buffer.content_fresh⟩
    (by decide) hd
  exact ⟨d', hd, eq_of_beq hc, h.1, h.2.2.1⟩

end Dispatcher
end Potato
