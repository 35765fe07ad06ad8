import Potato.IOWatcher

/-!
# The vector that `epoll_wait` fills

`handleIOEvent` hands the kernel a vector of entries and doubles it after a round that has filled it
all. The kernel reports as many of the ready entries as fit. An entry holds a pointer to its event,
which is looked at when the loop comes to it: the callbacks before may have changed or deleted it.
-/
namespace Potato
open Words Machine

/-- An `epoll_event`. `data` is the address of an `IOEvent`. -/
structure EpollEvent where
  data : Option ℕ := none
  events : Mask := 0
  deriving DecidableEq, Repr

/-- What the kernel has for an `epoll_wait`: an error, or the entries that are ready. -/
structure Wait where
  failed : Bool := false
  ready : List EpollEvent
  deriving DecidableEq, Repr

/-- At most `N` events are ready, each registered with its pointer. -/
structure Wait.Registered (w : Wait) (N : ℕ) : Prop where
  length_le : w.ready.length ≤ N
  data : ∀ e ∈ w.ready, e.data ≠ none

/-- The rest of the program: the events that are alive, and what a callback does to all of it. -/
structure Callbacks (σ : Type) where
  event : σ → ℕ → Option IOEvent
  call : σ → ℕ → EventCallback → σ

/-- `events_` of an `IOWatcher` beside the rest of the program. `seen` tells to which entries the
loop has come. -/
structure EventVector (σ : Type) where
  events : List EpollEvent
  world : σ
  seen : List EpollEvent := []

namespace EventVector
variable {σ : Type}

/-- `static_cast<int>` of a size. -/
def toInt (n : ℕ) : ℤ := Int.bmod n (2 ^ 32)

/-- `epoll_wait`, which refuses a vector without entries and writes no more than it may. -/
def epollWait (events : List EpollEvent) (maxevents : ℤ) (w : Wait) :
    Outcome Fault (ℤ × List EpollEvent) := do
  if w.failed ∨ maxevents ≤ 0 then return (-1, events)
  else
    let reported := w.ready.take maxevents.toNat
    Outcome.check (reported.length ≤ events.length) .outOfRange
    return (reported.length, reported ++ events.drop reported.length)

/-- The branches for an entry. Where none of its bits asks for one, the event is not looked at. -/
def branch (cb : Callbacks σ) (world : σ) (e : EpollEvent) : Outcome Fault σ :=
  if e.events &&& (EPOLLHUP ||| EPOLLRDHUP ||| EPOLLIN ||| EPOLLPRI ||| EPOLLOUT) = 0 then
    return world
  else do
    let id ← Outcome.deref e.data .nullPointer
    let event ← Outcome.deref (cb.event world id) .deadEvent
    match IOWatcher.callbackFor event e.events with
    | none => return world
    | some callback => return cb.call world id callback

/-- The loop over the entries, with `n` rounds left. -/
def eventLoop (cb : Callbacks σ) (events : List EpollEvent) :
    ℕ → ℕ → σ → List EpollEvent → Outcome Fault (σ × List EpollEvent)
  | 0, _, world, seen => return (world, seen)
  | n + 1, i, world, seen => do
    let e ← Outcome.deref events[i]? .outOfRange
    let world ← branch cb world e
    eventLoop cb events n (i + 1) world (seen ++ [e])

/-- `handleIOEvent`. -/
def handleIOEvent (cb : Callbacks σ) (v : EventVector σ) (w : Wait) :
    Outcome Fault (EventVector σ) := do
  let (numEvents, events) ← epollWait v.events (toInt v.events.length) w
  if numEvents < 0 then return { v with events := events }
  else
    let numEventsSize := numEvents.toNat
    let (world, seen) ← eventLoop cb events numEventsSize 0 v.world v.seen
    if numEventsSize = events.length then
      let size := numEventsSize * 2 % sizeBound
      return {
        events := events.take size ++ List.replicate (size - events.length) {}
        world := world
        seen := seen }
    else return { events := events, world := world, seen := seen }

/-- `events_(16)`. -/
def start (world : σ) : EventVector σ := { events := List.replicate 16 {}, world := world }

/-- The round reports less than what is ready. -/
def Short (v : EventVector σ) (w : Wait) : Bool := !w.failed && v.events.length < w.ready.length

/-- What the round reports. -/
def reported (v : EventVector σ) (w : Wait) : List EpollEvent :=
  if w.failed then [] else w.ready.take v.events.length

variable {v v' : EventVector σ} {w : Wait} {events : List EpollEvent} {N k : ℕ}

theorem toInt_of_lt {n : ℕ} (h : n < 2 ^ 31) : toInt n = n := by
  unfold toInt
  rw [Int.bmod_eq_of_le] <;> omega

/-- An entry with a pointer fails at most on an event that is gone. -/
theorem branch_or (cb : Callbacks σ) (world : σ) {e : EpollEvent} (he : e.data ≠ none) :
    (∃ world', branch cb world e = .next world') ∨ branch cb world e = .fault .deadEvent := by
  obtain ⟨id, hid⟩ := Option.ne_none_iff_exists'.mp he
  unfold branch
  split_ifs
  · exact .inl ⟨world, rfl⟩
  · rw [hid]
    cases hevent : cb.event world id with
    | none => exact .inr (by simp [Outcome.deref, hevent])
    | some event =>
      refine .inl ?_
      simp only [Outcome.deref, Outcome.next_bind, hevent]
      cases IOWatcher.callbackFor event e.events with
      | none => exact ⟨world, rfl⟩
      | some callback => exact ⟨cb.call world id callback, rfl⟩

/-- The loop comes to the entries in their order, unless one of them names an event that is gone. -/
theorem eventLoop_or (cb : Callbacks σ) {n i : ℕ} (world : σ) (seen : List EpollEvent)
    (hi : i + n ≤ events.length) (hdata : ∀ e ∈ (events.drop i).take n, e.data ≠ none) :
    (∃ world', eventLoop cb events n i world seen =
      .next (world', seen ++ (events.drop i).take n)) ∨
      eventLoop cb events n i world seen = .fault .deadEvent := by
  induction n generalizing i world seen with
  | zero => exact .inl ⟨world, by simp [eventLoop]⟩
  | succ n ih =>
    have hlt : i < events.length := by omega
    rw [List.drop_eq_getElem_cons hlt, List.take_succ_cons] at hdata ⊢
    rw [eventLoop, Outcome.deref_eq_next.mpr (List.getElem?_eq_getElem hlt), Outcome.next_bind]
    rcases branch_or cb world (hdata _ List.mem_cons_self) with
      ⟨world', hbranch⟩ | hdead
    · rw [hbranch, Outcome.next_bind,
        List.append_cons seen events[i] ((events.drop (i + 1)).take n)]
      exact ih _ _ (by omega) fun e he => hdata e (List.mem_cons_of_mem _ he)
    · exact .inr (by rw [hdead, Outcome.fault_bind])

theorem length_reported_le : (v.reported w).length ≤ v.events.length := by
  unfold reported
  split_ifs
  · exact Nat.zero_le _
  · rw [List.length_take]
    exact Nat.min_le_left _ _

theorem epollWait_eq (hpos : 0 < v.events.length) (hlen : v.events.length < 2 ^ 31)
    (hok : w.failed = false) : epollWait v.events (toInt v.events.length) w =
      .next ((v.reported w).length, v.reported w ++ v.events.drop (v.reported w).length) := by
  have hmax : ¬ (w.failed = true ∨ (v.events.length : ℤ) ≤ 0) := by
    rw [hok]
    rintro (hfail | hle)
    · cases hfail
    · omega
  have hreported : v.reported w = w.ready.take v.events.length := by
    rw [reported, hok]
    rfl
  rw [epollWait, toInt_of_lt hlen, if_neg hmax, Int.toNat_natCast, ← hreported]
  simp only [Outcome.check_pos length_reported_le, Outcome.next_bind, Outcome.pure_eq]

/-- One round: what it comes to, and when it doubles the vector. -/
theorem handleIOEvent_or (cb : Callbacks σ) (hpos : 0 < v.events.length)
    (hlen : v.events.length < 2 ^ 31) (hw : w.Registered N) : (∃ v', v.handleIOEvent cb w = .next v' ∧
        v'.seen = v.seen ++ v.reported w ∧
        v'.events.length = if w.failed = false ∧ v.events.length ≤ w.ready.length
          then v.events.length * 2 else v.events.length) ∨
      v.handleIOEvent cb w = .fault .deadEvent := by
  cases hfail : w.failed with
  | true =>
    exact .inl ⟨v, by simp [handleIOEvent, epollWait, hfail], by simp [reported, hfail], by simp⟩
  | false =>
    let events := v.reported w ++ v.events.drop (v.reported w).length
    have hreported : v.reported w = w.ready.take v.events.length := by
      rw [reported, hfail]
      rfl
    have hlength : (v.reported w).length = min v.events.length w.ready.length := by
      rw [hreported, List.length_take]
    have hevents : events.length = v.events.length := by
      rw [List.length_append, List.length_drop]
      omega
    have htaken : (events.drop 0).take (v.reported w).length = v.reported w := by
      rw [List.drop_zero, List.take_left]
    have hdata : ∀ e ∈ (events.drop 0).take (v.reported w).length, e.data ≠ none := by
      rw [htaken, hreported]
      exact fun e he => hw.data e (List.mem_of_mem_take he)
    have hnonneg : ¬ ((v.reported w).length : ℤ) < 0 := by omega
    simp only [handleIOEvent, epollWait_eq hpos hlen hfail, Outcome.next_bind, if_neg hnonneg,
      Int.toNat_natCast]
    rcases eventLoop_or cb v.world v.seen (by omega) hdata with
      ⟨world, hloop⟩ | hdead
    · refine .inl ?_
      rw [hloop, htaken, Outcome.next_bind]
      by_cases hfull : (v.reported w).length = events.length
      · rw [if_pos hfull, if_pos ⟨trivial, by omega⟩]
        refine ⟨_, rfl, rfl, ?_⟩
        have hsize : v.events.length * 2 % sizeBound = v.events.length * 2 :=
          Nat.mod_eq_of_lt (by unfold sizeBound; omega)
        simp only [hfull, hevents, hsize, List.length_append, List.length_take,
          List.length_replicate]
        omega
      · rw [if_neg hfull, if_neg (by rintro ⟨-, hle⟩; omega)]
        exact ⟨_, rfl, rfl, hevents⟩
    · exact .inr (by rw [hdead, Outcome.fault_bind])

theorem reported_eq_ready (hok : w.failed = false) (h : v.Short w = false) :
    v.reported w = w.ready := by
  rw [Short, hok, Bool.not_false, Bool.true_and, decide_eq_false_iff_not, not_lt] at h
  rw [reported, hok]
  exact List.take_of_length_le h

/-- A round that returns has come to everything that is ready, each once and in its order, unless
the wait fails or the round is short. -/
def Reports (cb : Callbacks σ) (v : EventVector σ) (w : Wait) : Prop :=
  ∀ v', v.handleIOEvent cb w = .next v' → v'.seen = v.seen ++ v.reported w ∧
    (w.failed = false → v.Short w = false → v'.seen = v.seen ++ w.ready)

/-- The vector while at most `N` events are ready: doubled `k` times. -/
structure Sized (N k : ℕ) (v : EventVector σ) : Prop where
  length_eq : v.events.length = 16 * 2 ^ k
  length_le : v.events.length ≤ max 16 (2 * N)

theorem Sized.start (world : σ) : Sized N 0 (start world) := ⟨rfl, Nat.le_max_left _ _⟩

/-- A round that leaves something out doubles the vector. -/
theorem Sized.step (cb : Callbacks σ) (h : Sized N k v) (hN : N < 2 ^ 30) (hw : w.Registered N) :
    (∃ v' k', v.handleIOEvent cb w = .next v' ∧ Sized N k' v' ∧ v.Reports cb w ∧
      (v.Short w = true → k' = k + 1 ∧ 16 * 2 ^ k < N) ∧ k ≤ k') ∨
      (v.handleIOEvent cb w = .fault .deadEvent ∧ (v.Short w = true → 16 * 2 ^ k < N)) := by
  have hlen := h.length_eq
  have hle := h.length_le
  have hready := hw.length_le
  have hpow : 0 < 2 ^ k := Nat.two_pow_pos k
  have hshort : v.Short w = true ↔ w.failed = false ∧ v.events.length < w.ready.length := by
    simp [Short]
  rcases handleIOEvent_or (v := v) cb (by omega) (by omega) hw with
    ⟨v', hv', hseen, hlength⟩ | hdead
  · have hreports : v.Reports cb w := by
      intro u hu
      obtain rfl := Outcome.next.inj (hv'.symm.trans hu)
      exact ⟨hseen, fun hok hs => reported_eq_ready hok hs ▸ hseen⟩
    rw [hshort]
    refine .inl ?_
    by_cases hfull : w.failed = false ∧ v.events.length ≤ w.ready.length
    · rw [if_pos hfull] at hlength
      have hroom := hfull.2
      refine ⟨v', k + 1, hv', ⟨by rw [hlength, hlen, pow_succ, mul_assoc], by omega⟩, hreports,
        fun h => ⟨rfl, hlen ▸ h.2.trans_le hready⟩, Nat.le_succ k⟩
    · rw [if_neg hfull] at hlength
      refine ⟨v', k, hv', ⟨hlength.trans hlen, by omega⟩, hreports, fun h => ?_, le_rfl⟩
      exact absurd ⟨h.1, h.2.le⟩ hfull
  · exact .inr ⟨hdead, fun hs => hlen ▸ (hshort.mp hs).2.trans_le hready⟩

/-- Over any rounds: each comes to what it reports, and only while the vector is still smaller than
what is ready does a round leave something out. -/
theorem Sized.run (cb : Callbacks σ) {waits : List Wait} (h : Sized N k v) (hN : N < 2 ^ 30)
    (hw : ∀ w ∈ waits, w.Registered N) :
    ((∃ v' k', run (handleIOEvent cb) v waits = .next v' ∧ Sized N k' v') ∨
      run (handleIOEvent cb) v waits = .fault .deadEvent) ∧
      StepsMeet (handleIOEvent cb) (Reports cb) v waits ∧
      (0 < tally (handleIOEvent cb) Short v waits →
        16 * 2 ^ (k + tally (handleIOEvent cb) Short v waits - 1) < N) := by
  induction waits generalizing v k with
  | nil => exact ⟨.inl ⟨v, k, rfl, h⟩, trivial, fun hpos => absurd hpos (Nat.lt_irrefl 0)⟩
  | cons w waits ih =>
    rcases h.step cb hN (hw w List.mem_cons_self) with
      ⟨v', k', hv', hsized, hreports, hshort, hk⟩ | ⟨hdead, hshort⟩
    · obtain ⟨hrun, hmeet, htally⟩ := ih hsized fun u hu => hw u (List.mem_cons_of_mem _ hu)
      have honly : ∀ u, v.handleIOEvent cb w = .next u → v' = u := fun u hu =>
        Outcome.next.inj (hv'.symm.trans hu)
      refine ⟨?_, ⟨hreports, fun u hu => honly u hu ▸ hmeet⟩, ?_⟩
      · rw [run_cons, hv']
        exact hrun
      · rw [tally_cons hv']
        intro hpos
        have hmono : 2 ^ (k + tally (handleIOEvent cb) Short v' waits - 1) ≤
            2 ^ (k' + tally (handleIOEvent cb) Short v' waits - 1) :=
          Nat.pow_le_pow_right Nat.two_pos (by omega)
        cases hs : v.Short w with
        | false =>
          rw [hs, Bool.toNat_false, Nat.zero_add] at hpos
          rw [Bool.toNat_false, Nat.zero_add]
          have := htally hpos
          omega
        | true =>
          obtain ⟨rfl, hfirst⟩ := hshort hs
          rw [Bool.toNat_true, Nat.add_comm 1, ← Nat.add_assoc, Nat.add_sub_cancel]
          by_cases hmore : 0 < tally (handleIOEvent cb) Short v' waits
          · have := htally hmore
            rwa [Nat.add_right_comm, Nat.add_sub_cancel] at this
          · rw [Nat.eq_zero_of_not_pos hmore]
            exact hfirst
    · -- a callback has deleted an event of the batch
      have hno : ∀ u, v.handleIOEvent cb w ≠ .next u := fun u hu =>
        absurd (hdead.symm.trans hu) (by simp)
      refine ⟨.inr (by rw [run_cons, hdead, Outcome.fault_bind]),
        ⟨fun u hu => absurd hu (hno u), fun u hu => absurd hu (hno u)⟩, ?_⟩
      rw [tally, hdead]
      intro hpos
      cases hs : v.Short w with
      | false => simp [hs] at hpos
      | true => simpa using hshort hs

/-- The world is the addresses that are alive. -/
def closing : Callbacks (List ℕ) where
  event := fun alive id =>
    if id ∈ alive then
      some { id := id, etMode := false, readCallback := true, closeCallback := true }
    else none
  call := fun alive id callback => if callback = .close then alive.erase id else alive

end EventVector
end Potato
