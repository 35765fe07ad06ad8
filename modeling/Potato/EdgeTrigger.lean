import Potato.SessionInvariant

/-!
# Writing under edge-triggered reports

The kernel beside a slot: the readiness of the socket, and whether its descriptor
is marked as pending. `handleIOEvent` looks at output only when an entry reports
no input, and an entry is reported once. A run in which the two directions are
never reported together leaves no writable connection without its mark.
-/
namespace Potato
open Machine

/-- What the kernel knows of the socket of a slot. -/
structure Kernel where
  ready : Mask := 0
  pending : Bool := false
  deriving DecidableEq, Repr

/-- The kernel has taken less than it was offered. -/
def Obs.Blocks : Obs → Bool
  | wrote data (.sent n) => n < data.length
  | wrote _ .again => true
  | _ => false

/-- The kernel has nothing left to be read. -/
def Obs.Drains : Obs → Bool
  | read _ .again => true
  | _ => false

namespace Kernel

/-- What `epoll_wait` reports for a descriptor with this interest. -/
def report (k : Kernel) (mask : Mask) : Mask := k.ready &&& (mask ||| EPOLLERR ||| EPOLLHUP)

/-- The kernel behind system calls that showed `seen` and left `entry` of the `old` one. -/
def behind (k : Kernel) (seen : List Obs) (old entry : Option Mask) : Kernel :=
  let ready := if seen.any Obs.Blocks then k.ready &&& ~~~EPOLLOUT else k.ready
  let ready := if seen.any Obs.Drains then ready &&& ~~~(EPOLLIN ||| EPOLLPRI) else ready
  let k := { k with ready := ready }
  { k with pending := k.pending || (entry != old && entry.any (k.report · != 0)) }

end Kernel

/-- A slot and the kernel. -/
structure Watched where
  slot : Session
  kernel : Kernel := {}
  deriving DecidableEq, Repr

inductive EdgeLabel where
  /-- The readiness of the socket becomes `ready`. -/
  | socket (ready : Mask)
  /-- `epoll_wait` comes to the descriptor. -/
  | wait
  /-- Anything else happens to the slot. -/
  | slot (l : Label)
  deriving DecidableEq, Repr

namespace TcpConnection
variable {c : TcpConnection} {e : Effect} {act : Act}

/-- All callbacks of the event are set. -/
def Answers (c : TcpConnection) : Prop := ∀ event, c.ioEvent = some event →
  event.readCallback = true ∧ event.writeCallback = true ∧ event.closeCallback = true

theorem Move.answers (hm : c.Move act e) (h : c.Answers) : e.conn.Answers := by
  cases hm with
  | registered hb | sentPart _ hb =>
    intro event he
    have ha := h _ hb.event_eq
    first | rw [calling_conn] at he | skip
    cases he
    exact ha
  | closed hb _ _ _ he | flushedAll hb _ _ _ _ _ _ _ he =>
    subst he
    intro event he
    have ha := h _ hb.event_eq
    dsimp only at he
    rw [calling_conn] at he
    cases he
    exact ha
  | received _ _ _ _ _ _ he | sentAll _ _ _ _ _ _ he =>
    subst he
    dsimp only
    rwa [calling_conn]
  | unbound => exact fun _ he => nomatch he
  | _ => exact h

/-- Behind a piece of code that leaves output waiting, the kernel has just refused some of it,
or the code was not one that attends to output. -/
theorem Move.still_writing (h : c.Held) (hm : c.Move act e) {event : IOEvent}
    (he : e.conn.ioEvent = some event) (hc : e.conn.isConnected = true)
    (hw : event.isWriting = true) : e.obs.any Obs.Blocks = true ∨
      (c.ioEvent = some event ∧ c.isConnected = true ∧ act ≠ .handleCloseEvent ∧
        ∀ w, act ≠ .handleWriteEvent w) := by
  have hlive := hm.isConnected_of hc
  cases hm with
  | ignored hg hdown =>
    rw [hdown] at hlive
    cases hlive
  | registered hb hin =>
    rw [calling_conn] at he
    cases he
    rw [h.idle _ hb.event_eq hlive hin] at hw
    cases hw
  | closed _ _ _ _ he' =>
    subst he'
    dsimp only at hc
    rw [calling_conn] at hc
    cases hc
  | flushedAll _ _ _ _ _ _ _ _ he' =>
    subst he'
    dsimp only at he
    rw [calling_conn] at he
    cases he
    cases hw
  | flushedPart _ _ _ hpos hlt =>
    left
    simp [Obs.Blocks, hlt]
  | stalled => exact .inl rfl
  | @sentPart _ str w _ _ _ hsub hb _ _ _ hne hlt =>
    left
    cases w with
    | sent n => simpa [Obs.Blocks, WriteResult.count] using hlt
    | again => rfl
    | error => exact absurd rfl hne
  | unbound => cases he
  | appended hsub =>
    rcases hsub with rfl | rfl <;> exact .inr ⟨he, hlive, by simp, by simp⟩
  | sentAll hsub _ _ _ _ _ he' =>
    subst he'
    dsimp only at he
    rw [calling_conn] at he
    rcases hsub with rfl | rfl <;> exact .inr ⟨he, hlive, by simp, by simp⟩
  | received _ _ _ _ _ _ he' =>
    subst he'
    dsimp only at he
    rw [calling_conn] at he
    exact .inr ⟨he, hlive, by simp, by simp⟩
  | _ => exact .inr ⟨he, hlive, by simp, by simp⟩

end TcpConnection

namespace Watched

def start (index : ℕ) : Watched := { slot := Session.start index }

/-- A mark outlives a report only if the registration is level-triggered. -/
def step (srv : TcpServer) (w : Watched) : EdgeLabel → Outcome Fault Watched
  | .socket ready =>
    let edge := w.slot.conn.entry.isSome && ready &&& ~~~w.kernel.ready != 0
    .next { w with kernel := { ready := ready, pending := w.kernel.pending || edge } }
  | .wait => do
    Outcome.require (w.slot.stack = [] ∧ w.slot.reported = none ∧ w.kernel.pending = true)
    match w.slot.conn.entry with
    | none => .refused
    | some mask =>
      if w.kernel.report mask = 0 then
        return { w with kernel := { w.kernel with pending := false } }
      else
        let slot ← w.slot.step srv (.poll (w.kernel.report mask))
        return ⟨slot, { w.kernel with pending := mask &&& EPOLLET == 0 }⟩
  | .slot .accept => do
    let slot ← w.slot.step srv .accept
    return { slot := slot }
  | .slot (.poll _) => .refused
  | .slot l => do
    let slot ← w.slot.step srv l
    let seen := slot.trace.drop w.slot.trace.length
    return ⟨slot, w.kernel.behind seen w.slot.conn.entry slot.conn.entry⟩

/-- No report tells of input and of output at once, unless it makes the code hang up. -/
def Apart (w : Watched) : EdgeLabel → Bool
  | .wait => w.slot.conn.entry.all fun mask =>
    let ev := w.kernel.report mask
    ev &&& (EPOLLHUP ||| EPOLLRDHUP) != 0 || ev &&& (EPOLLIN ||| EPOLLPRI) == 0 ||
      ev &&& EPOLLOUT == 0
  | _ => true

variable {srv : TcpServer} {w v : Watched} {l : EdgeLabel}

/-- A report that the dispatch loop answers by writing or by closing. -/
def Attempts (ev : Mask) : Prop :=
  ev &&& (EPOLLHUP ||| EPOLLRDHUP) ≠ 0 ∨ ev &&& (EPOLLIN ||| EPOLLPRI) = 0 ∧ ev &&& EPOLLOUT ≠ 0

/-- The invariant: what waits to be sent, to a socket that would take it, is marked by the
kernel or about to be attempted. -/
structure Alert (srv : TcpServer) (w : Watched) : Prop where
  inv : Session.Inv srv w.slot
  answers : w.slot.conn.Answers
  marked : ∀ event, w.slot.conn.ioEvent = some event → w.slot.conn.isConnected = true →
    event.isWriting = true → w.kernel.ready &&& EPOLLOUT ≠ 0 → w.kernel.pending = true ∨
      ∃ ev, w.slot.reported = some (event.id, ev) ∧ Attempts ev

theorem Alert.start (index : ℕ) : Alert srv (start index) where
  inv := .start index
  answers := fun _ he => nomatch he
  marked := fun _ he => nomatch he

end Watched

namespace Kernel
variable {k : Kernel} {seen : List Obs} {old entry : Option Mask}

theorem behind_pending (h : k.pending = true) : (k.behind seen old entry).pending = true := by
  simp [behind, h]

theorem behind_ready (h : (k.behind seen old entry).ready &&& EPOLLOUT ≠ 0) :
    seen.any Obs.Blocks = false ∧ k.ready &&& EPOLLOUT ≠ 0 := by
  have hin : (~~~(EPOLLIN ||| EPOLLPRI) : Mask).getLsbD 2 = true := by decide
  have hout : (~~~EPOLLOUT : Mask).getLsbD 2 = false := by decide
  rw [Session.and_EPOLLOUT_ne_zero] at h ⊢
  simp only [behind] at h
  split_ifs at h with hd hb hb
  · rw [BitVec.getLsbD_and, BitVec.getLsbD_and, hout, Bool.and_false] at h
    cases h
  · rw [BitVec.getLsbD_and, hin, Bool.and_true] at h
    exact ⟨Bool.eq_false_iff.mpr hb, h⟩
  · rw [BitVec.getLsbD_and, hout, Bool.and_false] at h
    cases h
  · exact ⟨Bool.eq_false_iff.mpr hb, h⟩

end Kernel

namespace Watched
variable {srv : TcpServer} {w v : Watched} {l : EdgeLabel}

theorem Attempts.callbackFor {event : IOEvent} {ev : Mask} (h : Attempts ev)
    (hw : event.writeCallback = true) (hc : event.closeCallback = true) :
    IOWatcher.callbackFor event ev = some .close ∨ IOWatcher.callbackFor event ev = some .write := by
  unfold IOWatcher.callbackFor
  rcases h with h | ⟨hin, hout⟩
  · rw [if_pos h, if_pos hc]
    exact .inl rfl
  · by_cases hh : ev &&& (EPOLLHUP ||| EPOLLRDHUP) ≠ 0
    · rw [if_pos hh, if_pos hc]
      exact .inl rfl
    · rw [if_neg hh, if_neg (not_not.mpr hin), if_pos hout, if_pos hw]
      exact .inr rfl

theorem Alert.slot (h : Alert srv w) {l : Label} (hl : l ≠ .accept) (hp : ∀ ev, l ≠ .poll ev)
    {t : Session} (hs : w.slot.step srv l = .next t) : Alert srv
      ⟨t, w.kernel.behind (t.trace.drop w.slot.trace.length) w.slot.conn.entry t.conn.entry⟩ := by
  have hinv := h.inv.step hs
  cases Session.step_next h.inv.held hs with
  | accepted => exact absurd rfl hl
  | polled => exact absurd rfl (hp _)
  | returned =>
    refine ⟨hinv, h.answers, ?_⟩
    intro event he hc hw hready
    exact (h.marked event he hc hw (Kernel.behind_ready hready).2).imp_left Kernel.behind_pending
  | @skipped _ event ev hstack hevent hr hcb =>
    refine ⟨hinv, h.answers, ?_⟩
    intro event' he hc hw hready
    left
    rcases h.marked event' he hc hw (Kernel.behind_ready hready).2 with hpend | ⟨ev', hr', hatt⟩
    · exact Kernel.behind_pending hpend
    · rw [hr, Option.some.injEq, Prod.mk.injEq] at hr'
      obtain ⟨-, rfl⟩ := hr'
      obtain ⟨-, hw', hc'⟩ := h.answers event hevent
      rcases hatt.callbackFor hw' hc' with hno | hno <;> rw [hcb] at hno <;> cases hno
  | @ran _ act rest e _ hturn hact hm hconn hstack hbind hrep havail hnext htrace =>
    refine ⟨hinv, ?_, ?_⟩
    · show t.conn.Answers
      rw [hconn]
      exact hm.answers h.answers
    · intro event he hc hw hready
      obtain ⟨hfree, hready⟩ := Kernel.behind_ready hready
      dsimp only at he hc hfree ⊢
      rw [htrace, List.drop_left] at hfree
      rw [hconn] at he hc
      rcases hm.still_writing h.inv.held he hc hw with hno | ⟨he', hc', hclose, hwrite⟩
      · rw [hfree] at hno
        cases hno
      · rcases h.marked event he' hc' hw hready with hpend | ⟨ev, hr, hatt⟩
        · exact .inl (Kernel.behind_pending hpend)
        · rcases hrep with ⟨hrep, -⟩ | ⟨-, w', rfl⟩
          · exact .inr ⟨ev, hrep.trans hr, hatt⟩
          · -- the entry is dispatched, and the code that it runs attends to output
            cases hturn with
            | @dispatch _ event' ev' callback _ _ hevent' hr' hcb hact' =>
              rw [hr, Option.some.injEq, Prod.mk.injEq] at hr'
              obtain ⟨-, rfl⟩ := hr'
              obtain ⟨-, hw', hc'⟩ := h.answers event' hevent'
              rcases hatt.callbackFor hw' hc' with hno | hno <;> rw [hcb] at hno <;> cases hno
              · exact absurd hact' hclose
              · exact absurd hact' (hwrite w')

theorem attempts_of_apart {mask : Mask} (hentry : w.slot.conn.entry = some mask)
    (ha : Apart w .wait = true) (hout : w.kernel.report mask &&& EPOLLOUT ≠ 0) :
    Attempts (w.kernel.report mask) := by
  simp only [Apart, hentry, Option.all_some, Bool.or_eq_true, bne_iff_ne, beq_iff_eq] at ha
  rcases ha with (hup | hin) | hno
  · exact .inl hup
  · exact .inr ⟨hin, hout⟩
  · exact absurd hno hout

/-- A connection with output waiting is registered with the kernel, for output too. -/
theorem Alert.entry (h : Alert srv w) {event : IOEvent} (he : w.slot.conn.ioEvent = some event)
    (hc : w.slot.conn.isConnected = true) (hw : event.isWriting = true) :
    ∃ mask, w.slot.conn.entry = some mask ∧ mask &&& EPOLLOUT ≠ 0 := by
  have hin := h.inv.held.inEpoll_of_writing he hc hw
  have hsync := h.inv.held.synced event he
  have hentry := hsync.entry_eq
  rw [hin, if_pos rfl] at hentry
  rw [hentry] at hsync
  exact ⟨_, hentry, hsync.armed_iff.mpr hw⟩

theorem report_output {mask : Mask} (hm : mask &&& EPOLLOUT ≠ 0)
    (hr : w.kernel.ready &&& EPOLLOUT ≠ 0) : w.kernel.report mask &&& EPOLLOUT ≠ 0 := by
  rw [Session.and_EPOLLOUT_ne_zero] at hm hr ⊢
  simp [Kernel.report, hm, hr]

theorem Alert.socket {ready : Mask} (h : Alert srv w) (hs : step srv w (.socket ready) = .next v) :
    Alert srv v := by
  simp only [Watched.step, Outcome.next.injEq] at hs
  subst hs
  refine ⟨h.inv, h.answers, ?_⟩
  intro event he hc hw hready
  obtain ⟨mask, hentry, -⟩ := h.entry he hc hw
  by_cases hold : w.kernel.ready &&& EPOLLOUT ≠ 0
  · refine (h.marked event he hc hw hold).imp_left fun hpend => ?_
    simp [hpend]
  · left
    have hbit : (ready &&& ~~~w.kernel.ready).getLsbD 2 = true := by
      rw [Session.and_EPOLLOUT_ne_zero] at hready hold
      rw [BitVec.getLsbD_and, BitVec.getLsbD_not, hready, Bool.eq_false_iff.mpr hold]
      rfl
    have hedge : ready &&& ~~~w.kernel.ready ≠ 0 := by
      intro hno
      rw [hno] at hbit
      cases hbit
    simp only [hentry, bne_iff_ne.mpr hedge, Option.isSome_some, Bool.and_self, Bool.or_true]

theorem Alert.wait (h : Alert srv w) (ha : Apart w .wait = true)
    (hs : step srv w .wait = .next v) : Alert srv v := by
  simp only [Watched.step, Outcome.bind_eq_next, Outcome.require_eq_next] at hs
  obtain ⟨-, ⟨hstack, hr, hpend⟩, hs⟩ := hs
  cases hentry : w.slot.conn.entry with
  | none => simp [hentry] at hs
  | some mask =>
    simp only [hentry] at hs
    have harmed {event : IOEvent} (he : w.slot.conn.ioEvent = some event)
        (hc : w.slot.conn.isConnected = true) (hw : event.isWriting = true) :
        mask &&& EPOLLOUT ≠ 0 := by
      obtain ⟨mask', hentry', hout⟩ := h.entry he hc hw
      rw [hentry, Option.some.injEq] at hentry'
      rwa [hentry']
    split_ifs at hs with hnone
    · simp only [Outcome.pure_eq, Outcome.next.injEq] at hs
      subst hs
      refine ⟨h.inv, h.answers, ?_⟩
      intro event he hc hw hready
      have hout := @report_output w mask (harmed he hc hw) hready
      rw [hnone] at hout
      exact absurd rfl hout
    · simp only [Outcome.bind_eq_next, Outcome.pure_eq, Outcome.next.injEq] at hs
      obtain ⟨slot, hpoll, rfl⟩ := hs
      have hinv := h.inv.step hpoll
      cases Session.step_next h.inv.held hpoll with
      | ran hturn => cases hturn
      | polled _ _ hevent =>
        refine ⟨hinv, h.answers, ?_⟩
        intro event' he hc hw hready
        rw [hevent, Option.some.injEq] at he
        subst he
        have hout := report_output (harmed hevent hc hw) hready
        exact .inr ⟨_, rfl, attempts_of_apart hentry ha hout⟩

theorem Alert.step (h : Alert srv w) (ha : Apart w l = true) (hs : step srv w l = .next v) :
    Alert srv v := by
  cases l with
  | socket ready => exact h.socket hs
  | wait => exact h.wait ha hs
  | slot l =>
    cases l with
    | poll ev => cases hs
    | accept =>
      simp only [Watched.step, Outcome.bind_eq_next, Outcome.pure_eq, Outcome.next.injEq] at hs
      obtain ⟨slot, hacc, rfl⟩ := hs
      have hinv := h.inv.step hacc
      cases Session.step_next h.inv.held hacc with
      | ran hturn => cases hturn
      | accepted =>
        refine ⟨hinv, ?_, ?_⟩
        · intro event he
          cases he
          exact ⟨rfl, rfl, rfl⟩
        · intro event he _ hw
          cases he
          cases hw
    | _ =>
      simp only [Watched.step, Outcome.bind_eq_next, Outcome.pure_eq, Outcome.next.injEq] at hs
      obtain ⟨slot, hslot, rfl⟩ := hs
      exact h.slot (by simp) (by simp) hslot

/-- Writes never stall, in any run in which no report tells of input and of output at once:
with no entry left to be handled, an open connection that could write what waits to be
written is marked as pending. -/
theorem writes_never_stall (srv : TcpServer) (index : ℕ) (ls : List EdgeLabel) (w : Watched)
    (apart : StepsMeet (step srv) (fun w l => Apart w l = true) (start index) ls)
    (run_eq : run (step srv) (start index) ls = .next w) (handled : w.slot.reported = none)
    (event : IOEvent) (event_eq : w.slot.conn.ioEvent = some event)
    (is_open : w.slot.conn.isConnected = true) (writing : event.isWriting = true)
    (writable : w.kernel.ready &&& EPOLLOUT ≠ 0) : w.kernel.pending = true := by
  have halert : Alert srv w :=
    run_invariant_of (fun _ _ _ h ha hs => Alert.step h ha hs) (Alert.start index) apart run_eq
  rcases halert.marked event event_eq is_open writing writable with hpend | ⟨ev, hr, -⟩
  · exact hpend
  · rw [handled] at hr
    cases hr

/-- Two bytes of a message wait, and the kernel makes room for one of them, then for the other. -/
theorem writes_never_stall_room : ∃ w,
    run (step ⟨⟨.linux, .little⟩, true, false, true, true⟩) (start 0)
      [.slot .accept, .slot .bound, .slot (.call (.write [1, 2, 3] (.sent 1))), .socket EPOLLOUT,
        .wait, .slot (.dispatch (.sent 1)), .slot .go, .socket EPOLLOUT] = .next w ∧
      w.kernel.pending = true := by
  obtain ⟨w, hw, hc⟩ := Outcome.yields_eq_true.mp (show
    (run (step ⟨⟨.linux, .little⟩, true, false, true, true⟩) (start 0)
      [.slot .accept, .slot .bound, .slot (.call (.write [1, 2, 3] (.sent 1))), .socket EPOLLOUT,
        .wait, .slot (.dispatch (.sent 1)), .slot .go, .socket EPOLLOUT]).yields
          (fun w => w.slot.reported.isNone && w.slot.conn.isConnected &&
            w.slot.conn.ioEvent.any (·.isWriting) && w.kernel.ready &&& EPOLLOUT != 0) = true by
      decide +kernel)
  simp only [Bool.and_eq_true, Option.isNone_iff_eq_none, Option.any_eq_true, bne_iff_ne] at hc
  obtain ⟨⟨⟨hr, hopen⟩, event, he, hwriting⟩, hout⟩ := hc
  exact ⟨w, hw, writes_never_stall _ 0 _ w (by decide +kernel) hw hr event he hopen hwriting hout⟩

/-- Data and an acknowledgement arrive together. The report of both is spent on reading. -/
theorem write_stalls_behind_read : ∃ w,
    run (step ⟨⟨.linux, .little⟩, true, false, true, true⟩) (start 0)
      [.slot .accept, .slot .bound, .slot (.call (.write [1, 2] (.sent 1))),
        .socket (EPOLLIN ||| EPOLLOUT), .wait, .slot (.dispatch .again), .slot (.read (.data [7])),
        .slot .ret, .slot .go, .slot (.read .again)] = .next w ∧
      w.slot.stack = [] ∧ w.slot.reported = none ∧ w.slot.conn.isConnected = true ∧
      w.slot.conn.ioEvent.any (·.isWriting) = true ∧ w.slot.conn.writeBuffer.content = [2] ∧
      w.kernel.ready &&& EPOLLOUT ≠ 0 ∧ w.kernel.pending = false := by
  obtain ⟨w, hw, hc⟩ := Outcome.yields_eq_true.mp (show
    (run (step ⟨⟨.linux, .little⟩, true, false, true, true⟩) (start 0)
      [.slot .accept, .slot .bound, .slot (.call (.write [1, 2] (.sent 1))),
        .socket (EPOLLIN ||| EPOLLOUT), .wait, .slot (.dispatch .again), .slot (.read (.data [7])),
        .slot .ret, .slot .go, .slot (.read .again)]).yields (fun w => w.slot.stack.isEmpty &&
          (w.slot.reported.isNone && (w.slot.conn.isConnected &&
          (w.slot.conn.ioEvent.any (·.isWriting) && (w.slot.conn.writeBuffer.content == [2] &&
          (w.kernel.ready &&& EPOLLOUT != 0 && !w.kernel.pending)))))) = true by decide +kernel)
  simp only [Bool.and_eq_true, List.isEmpty_iff, Option.isNone_iff_eq_none, beq_iff_eq,
    Bool.not_eq_true', bne_iff_ne] at hc
  exact ⟨w, hw, hc⟩

end Watched
end Potato
