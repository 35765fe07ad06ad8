import Potato.Reentrancy

/-!
# One batch of events, many connections

The connections of one loop, each with the slot that it has in the pool, on the
one stack of the thread. `epoll_wait` returns a batch that names events, and the
callbacks that run for its first entries may close any connection. An entry is
handled through the event it names, which has to be there still.
-/
namespace Potato
open Machine

/-- Only `handleReadEvent` leaves reading to be done. -/
theorem TcpConnection.Move.reads {c : TcpConnection} {e : Effect} {act : Act} (hm : c.Move act e)
    (hmem : .readBody ∈ e.frames ∨ .readTest ∈ e.frames) :
    act = .handleReadEvent ∨ act = .readTest ∨ ∃ r, act = .readBody r := by
  have hno {callback : Callback} {o : Obs} {rest : List Frame} {d : TcpConnection}
      (h₁ : .readBody ∉ rest) (h₂ : .readTest ∉ rest)
      (h : .readBody ∈ (d.calling callback o rest).frames ∨
        .readTest ∈ (d.calling callback o rest).frames) : False :=
    h.elim (not_mem_calling (by simp) h₁) (not_mem_calling (by simp) h₂)
  cases hm with
  | reading => exact .inl rfl
  | looped => exact .inr (.inl rfl)
  | received | blocked | broken => exact .inr (.inr ⟨_, rfl⟩)
  | registered => exact (hno (by simp) (by simp) hmem).elim
  | sentAll _ _ _ _ _ _ he =>
    subst he
    exact (hno (by simp) (by simp) hmem).elim
  | flushedAll _ _ _ _ _ _ _ _ he =>
    subst he
    exact (hno (by simp) (by simp) hmem).elim
  | closed _ _ _ hclose he =>
    subst he
    dsimp only at hmem
    rw [List.mem_append, List.mem_append] at hmem
    cases hclose <;>
      simp only [List.not_mem_nil, or_false, List.mem_singleton, reduceCtorEq] at hmem <;>
      exact (hno (by simp) (by simp) hmem).elim
  | unbound => simp [resetTail] at hmem
  | _ => simp at hmem

namespace Session
variable {srv : TcpServer} {s t : Session} {l : Label}

/-- The entry of the batch, if there is one, names the event of the connection, and the
kernel still knows it. -/
def NamesLive (s : Session) : Bool :=
  s.reported.all fun entry => s.conn.ioEvent.any fun event =>
    event.id == entry.1 && event.inEpoll

/-- The label closes no connection that an entry of the batch is still to come for. -/
def Spares (s : Session) : Label → Bool
  | .call act | .posted act => !s.conn.Shuts act || s.reported.isNone
  | _ => true

/-- The invariant of a slot whose entries are spared. -/
structure Named (s : Session) : Prop where
  live : s.NamesLive = true
  reading : .readBody ∈ s.stack ∨ .readTest ∈ s.stack → s.reported = none

theorem namesLive_iff : s.NamesLive = true ↔ ∀ id ev, s.reported = some (id, ev) →
    ∃ event, s.conn.ioEvent = some event ∧ event.id = id ∧ event.inEpoll = true := by
  unfold NamesLive
  cases s.reported with
  | none => simp
  | some entry => simp [Option.any_eq_true, Prod.ext_iff]

theorem Named.start (index : ℕ) : Named (start index) :=
  ⟨rfl, fun h => h.elim (fun hmem => nomatch hmem) fun hmem => nomatch hmem⟩

/-- A turn that closes the connection has no entry for it left in the batch. -/
theorem Named.reported_eq_none {act : Act} {rest : List Frame} (h : Named s)
    (hturn : Turn s l act rest) (hspare : Spares s l = true) (hd : ∀ w, l ≠ .dispatch w)
    (hshuts : s.conn.Shuts act = true) : s.reported = none := by
  cases hturn with
  | dispatch => exact absurd rfl (hd _)
  | call | posted => simpa [Spares, hshuts] using hspare
  | read hstack => exact h.reading (.inl (by simp [hstack]))
  | readTest hstack => exact h.reading (.inr (by simp [hstack]))
  | bound | writeTail | resetTail => simp [TcpConnection.Shuts] at hshuts

/-- A turn that leaves reading to be done comes from the entry of the batch. -/
theorem Named.reported_of_reads {act : Act} {rest : List Frame} {e : Effect} (h : Named s)
    (hturn : Turn s l act rest) (hm : s.conn.Move act e) (hd : ∀ w, l ≠ .dispatch w)
    (hmem : .readBody ∈ e.frames ++ rest ∨ .readTest ∈ e.frames ++ rest) : s.reported = none := by
  rw [List.mem_append, List.mem_append] at hmem
  by_cases hrest : .readBody ∈ rest ∨ .readTest ∈ rest
  · exact h.reading (hrest.imp hturn.mem_of_mem hturn.mem_of_mem)
  · have hframes : .readBody ∈ e.frames ∨ .readTest ∈ e.frames := by
      rw [not_or] at hrest
      exact hmem.imp (fun hno => hno.resolve_right hrest.1) fun hno => hno.resolve_right hrest.2
    have hreads := hm.reads hframes
    cases hturn with
    | dispatch => exact absurd rfl (hd _)
    | read hstack => exact h.reading (.inl (by simp [hstack]))
    | readTest hstack => exact h.reading (.inr (by simp [hstack]))
    | call _ hcall => rcases hreads with rfl | rfl | ⟨r, rfl⟩ <;> cases hcall
    | posted _ hfun => rcases hreads with rfl | rfl | ⟨r, rfl⟩ <;> cases hfun
    | bound | writeTail | resetTail => simp at hreads

theorem Named.step (h : Named s) (hi : Inv srv s) (hspare : Spares s l = true)
    (hs : Session.step srv s l = .next t) : Named t := by
  have hlive := namesLive_iff.mp h.live
  cases step_next hi.held hs with
  | accepted ha =>
    refine ⟨namesLive_iff.mpr ?_, h.reading⟩
    intro id ev hr
    obtain ⟨event, he, -⟩ := hlive id ev hr
    rw [(hi.pooled ha).2.1] at he
    cases he
  | @polled ev mask event hstack _ hevent hentry =>
    refine ⟨namesLive_iff.mpr ?_, ?_⟩
    · intro id ev' hr
      cases hr
      refine ⟨event, hevent, rfl, ?_⟩
      have hsync := (hi.held.synced event hevent).entry_eq
      rw [hentry] at hsync
      by_contra hin
      rw [if_neg hin] at hsync
      cases hsync
    · intro hmem
      rw [hstack] at hmem
      exact hmem.elim (fun hno => nomatch hno) fun hno => nomatch hno
  | skipped => exact ⟨rfl, fun _ => rfl⟩
  | returned hstack =>
    refine ⟨h.live, fun hmem => h.reading ?_⟩
    rw [hstack]
    exact hmem.imp (List.mem_cons_of_mem _) (List.mem_cons_of_mem _)
  | @ran _ act rest e _ hturn hact hm hconn hstack hbind hrep havail hnext htrace =>
    rcases hrep with ⟨hrep, hd⟩ | ⟨hrep, -⟩
    · refine ⟨namesLive_iff.mpr ?_, ?_⟩
      · intro id ev hr
        rw [hrep] at hr
        obtain ⟨event, he, hid, hin⟩ := hlive id ev hr
        rw [hconn]
        cases hm.shape with
        | kept _ _ hkey =>
          obtain ⟨event', he', hid', -, hin'⟩ := event_of_eventKey hkey.symm he
          exact ⟨event', he', hid'.trans hid, hin'.trans hin⟩
        | registered _ _ _ he' hno =>
          rw [he, Option.some.injEq] at he'
          rw [← he', hin] at hno
          cases hno
        | @closed _ _ hb hc _ _ hcount =>
          have hmem : .resetTail ∈ e.frames := by
            rw [← List.count_pos_iff]
            omega
          obtain ⟨_, _, _, _, hb', hc', hclose, -⟩ := hm.closed_of_mem hmem
          have hnone := h.reported_eq_none hturn hspare hd (hclose.shuts hb' hc')
          rw [hnone] at hr
          cases hr
        | unbound hact' =>
          subst hact'
          have hmem : .resetTail ∈ s.stack := by
            rw [← List.count_pos_iff]
            have := hturn.count_resetTail
            simp only [if_true] at this
            omega
          have hdown := hi.held.removed event he (hi.closing hmem).2
          rw [hin] at hdown
          cases hdown
      · intro hmem
        rw [hrep]
        rw [hstack] at hmem
        exact h.reported_of_reads hturn hm hd hmem
    · refine ⟨namesLive_iff.mpr ?_, fun _ => hrep⟩
      intro id ev hr
      rw [hrep] at hr
      cases hr

theorem NamesLive.turn_ne_fault {f : Fault} (h : s.NamesLive = true) : s.turn l ≠ .fault f := by
  intro hf
  have hdead := turn_raises f hf
  subst hdead
  cases l with
  | dispatch w =>
    simp only [turn, Outcome.bind_eq_fault, Outcome.require_ne_fault, false_or] at hf
    obtain ⟨-, -, hf⟩ := hf
    cases hr : s.reported with
    | none => simp [hr] at hf
    | some entry =>
      obtain ⟨event, he, hid, -⟩ := namesLive_iff.mp h entry.1 entry.2 hr
      simp [hr, he, hid, Outcome.deref, Outcome.check] at hf
  | ret | read | go =>
    simp only [turn] at hf
    split at hf <;> cases hf
  | accept | poll => cases hf
  | bound | call | posted => simp [turn] at hf

/-- The entry of a slot is handled through a live event. -/
theorem Named.ne_deadEvent (h : Named s) (hi : Inv srv s) :
    Session.step srv s l ≠ .fault .deadEvent := by
  intro hf
  rcases hi.step_fault hf with ⟨-, hf⟩ | ⟨act, rest, hturn, hcause⟩
  · exact NamesLive.turn_ne_fault h.live hf
  · cases hcause with
    | plain hp => cases hp

theorem reported_kept (hi : Inv srv s) (hp : ∀ ev, l ≠ .poll ev) (hd : ∀ w, l ≠ .dispatch w)
    (hs : Session.step srv s l = .next t) : t.reported = s.reported := by
  cases step_next hi.held hs with
  | accepted | returned => rfl
  | polled => exact absurd rfl (hp _)
  | skipped => exact absurd rfl (hd _)
  | ran _ _ _ _ _ _ hrep =>
    rcases hrep with ⟨hrep, -⟩ | ⟨-, w, hl⟩
    · exact hrep
    · exact absurd hl (hd w)

theorem reported_taken {w : WriteResult} (hi : Inv srv s)
    (hs : Session.step srv s (.dispatch w) = .next t) : t.reported = none := by
  cases step_next hi.held hs with
  | skipped => rfl
  | ran _ _ _ _ _ _ hrep =>
    rcases hrep with ⟨-, hd⟩ | ⟨hrep, -⟩
    · exact absurd rfl (hd w)
    · exact hrep

theorem reported_polled {ev : Mask} (hi : Inv srv s)
    (hs : Session.step srv s (.poll ev) = .next t) : s.reported = none ∧ t.reported ≠ none := by
  cases step_next hi.held hs with
  | polled _ hr => exact ⟨hr, Option.some_ne_none _⟩
  | ran hturn => cases hturn

end Session

/-- The connections of one loop. `owners` tells whose frames the stack of the thread holds,
innermost first, and `batch` what is still to be handled: the event of a slot, or one of the
acceptor and of the wakeup socket, which live as long as the loop. -/
structure Dispatcher where
  slots : ℕ → Session
  owners : List ℕ := []
  batch : List (Option ℕ) := []

inductive DispatchLabel where
  /-- `epoll_wait` returns. -/
  | wait (entries : List (Option (ℕ × Mask)))
  /-- The loop of `handleIOEvent` comes to its next entry. -/
  | next (w : WriteResult)
  /-- Something else happens to a slot. -/
  | slot (index : ℕ) (l : Label)
  deriving DecidableEq, Repr

/-- The label takes the innermost frame off the stack. -/
def Label.Pops : Label → Bool
  | ret | read _ | go => true
  | _ => false

namespace Dispatcher

def start : Dispatcher := { slots := Session.start }

/-- `epoll_wait` fills its entries in. -/
def fill (srv : TcpServer) (slots : ℕ → Session) :
    List (Option (ℕ × Mask)) → Outcome Fault (ℕ → Session)
  | [] => return slots
  | none :: entries => fill srv slots entries
  | some (j, ev) :: entries => do
    let s ← (slots j).step srv (.poll ev)
    fill srv (Function.update slots j s) entries

/-- The thread can come to do this for the slot `j`. User code calls from a callback of any
slot; functors of other threads run behind the batch. -/
def Admits (d : Dispatcher) (j : ℕ) : Label → Bool
  | .accept => true
  | .bound => d.owners.isEmpty
  | .posted _ => d.owners.isEmpty && d.batch.isEmpty
  | .call _ =>
    match d.owners with
    | [] => d.batch.isEmpty
    | k :: _ => Session.UserTurn (d.slots k).stack
  | .ret | .read _ | .go => d.owners.head? == some j
  | .poll _ | .dispatch _ => false

/-- The slot `j` has moved on to `s`. -/
def on (d : Dispatcher) (j : ℕ) (s : Session) (pops : Bool) : Dispatcher :=
  let kept := (d.slots j).stack.length - pops.toNat
  { d with
    slots := Function.update d.slots j s
    owners := List.replicate (s.stack.length - kept) j ++ d.owners.drop pops.toNat }

def step (srv : TcpServer) (d : Dispatcher) : DispatchLabel → Outcome Fault Dispatcher
  | .wait entries => do
    Outcome.require (d.owners = [] ∧ d.batch = [])
    let slots ← fill srv d.slots entries
    return { d with slots := slots, batch := entries.map (Option.map Prod.fst) }
  | .next w => do
    Outcome.require (d.owners = [])
    match d.batch with
    | [] => .refused
    | none :: batch => return { d with batch := batch }
    | some j :: batch => do
      Outcome.check ((d.slots j).NamesLive = true) .deadEvent
      let s ← (d.slots j).step srv (.dispatch w)
      return { d with batch := batch }.on j s false
  | .slot j l => do
    Outcome.require (d.Admits j l = true)
    let s ← (d.slots j).step srv l
    return d.on j s l.Pops

/-- User code closes no connection that an entry of the batch is still to come for. -/
def Sparing (d : Dispatcher) : DispatchLabel → Bool
  | .slot j (.call act) => !(d.slots j).conn.Shuts act || !d.batch.contains (some j)
  | _ => true

variable {srv : TcpServer} {d d' : Dispatcher} {l : DispatchLabel}

/-- The batch names each slot at most once, and those slots know of it. -/
def Listed (slots : ℕ → Session) (batch : List (Option ℕ)) : Prop :=
  ∀ j, ((slots j).reported ≠ none ↔ some j ∈ batch) ∧ batch.count (some j) ≤ 1

/-- The invariant of the loop. -/
structure Orderly (srv : TcpServer) (d : Dispatcher) : Prop where
  inv : ∀ j, Session.Inv srv (d.slots j)
  named : ∀ j, Session.Named (d.slots j)
  listed : Listed d.slots d.batch

theorem Orderly.start : Orderly srv start where
  inv := .start
  named := .start
  listed := fun _ => ⟨iff_of_false (fun h => h rfl) (List.not_mem_nil), Nat.zero_le _⟩

section Lists
variable {slots : ℕ → Session} {batch : List (Option ℕ)} {j : ℕ} {s : Session}

theorem forall_update {P : Session → Prop} (h : ∀ k, P (slots k)) (hs : P s) (k : ℕ) :
    P (Function.update slots j s k) :=
  (Function.forall_update_iff slots fun _ s => P s).mpr ⟨hs, fun k _ => h k⟩ k

theorem Listed.keep (h : Listed slots batch) (hr : s.reported = (slots j).reported) :
    Listed (Function.update slots j s) batch := by
  intro k
  by_cases hk : k = j
  · subst hk
    rw [Function.update_self, hr]
    exact h k
  · rw [Function.update_of_ne hk]
    exact h k

theorem Listed.permanent (h : Listed slots (none :: batch)) : Listed slots batch := by
  intro k
  obtain ⟨hk, hcount⟩ := h k
  simp only [List.mem_cons, reduceCtorEq, false_or] at hk
  rw [List.count_cons_of_ne (by simp)] at hcount
  exact ⟨hk, hcount⟩

theorem Listed.take (h : Listed slots (some j :: batch)) (hr : s.reported = none) :
    Listed (Function.update slots j s) batch := by
  intro k
  obtain ⟨hk, hcount⟩ := h k
  by_cases hkj : k = j
  · subst hkj
    rw [List.count_cons_self] at hcount
    have hnot : some k ∉ batch := by
      rw [← List.count_eq_zero]
      omega
    rw [Function.update_self, hr]
    exact ⟨iff_of_false (fun hno => hno rfl) hnot, by omega⟩
  · have hne : some j ≠ some k := fun he => hkj (Option.some.inj he).symm
    rw [List.count_cons_of_ne hne] at hcount
    rw [Function.update_of_ne hkj]
    exact ⟨hk.trans (by simp [hkj]), hcount⟩

theorem Listed.add (h : Listed slots batch) (hr : (slots j).reported = none)
    (hs : s.reported ≠ none) : Listed (Function.update slots j s) (batch ++ [some j]) := by
  intro k
  obtain ⟨hk, hcount⟩ := h k
  rw [List.count_append, List.mem_append, List.mem_singleton]
  by_cases hkj : k = j
  · subst hkj
    have hnot : some k ∉ batch := fun hmem => hk.mpr hmem hr
    rw [Function.update_self, List.count_eq_zero_of_not_mem hnot, List.count_singleton_self]
    exact ⟨iff_of_true hs (.inr rfl), le_rfl⟩
  · have hne : some k ∉ [some j] := by simpa using hkj
    rw [Function.update_of_ne hkj, List.count_eq_zero_of_not_mem hne]
    exact ⟨hk.trans (by simp [hkj]), hcount⟩

theorem Listed.addPermanent (h : Listed slots batch) : Listed slots (batch ++ [none]) := by
  intro k
  obtain ⟨hk, hcount⟩ := h k
  rw [List.count_append, List.count_eq_zero_of_not_mem (by simp : some k ∉ [none])]
  exact ⟨hk.trans (by simp), hcount⟩

end Lists

theorem fill_listed {entries : List (Option (ℕ × Mask))} {slots slots' : ℕ → Session}
    {batch : List (Option ℕ)} (hi : ∀ j, Session.Inv srv (slots j))
    (hn : ∀ j, Session.Named (slots j)) (hl : Listed slots batch)
    (h : fill srv slots entries = .next slots') :
    (∀ j, Session.Inv srv (slots' j)) ∧ (∀ j, Session.Named (slots' j)) ∧
      Listed slots' (batch ++ entries.map (Option.map Prod.fst)) := by
  induction entries generalizing slots batch with
  | nil =>
    simp only [fill, Outcome.pure_eq, Outcome.next.injEq] at h
    subst h
    simpa using ⟨hi, hn, hl⟩
  | cons entry entries ih =>
    cases entry with
    | none =>
      have hrest := ih hi hn hl.addPermanent h
      simpa using hrest
    | some entry =>
      obtain ⟨j, ev⟩ := entry
      simp only [fill, Outcome.bind_eq_next] at h
      obtain ⟨s, hs, h⟩ := h
      obtain ⟨hr, hr'⟩ := Session.reported_polled (hi j) hs
      have hrest := ih (forall_update hi ((hi j).step hs))
        (forall_update hn ((hn j).step (hi j) rfl hs))
        (hl.add hr hr') h
      simpa using hrest

theorem Orderly.slot {j : ℕ} {l : Label} (h : Orderly srv d) (ha : d.Admits j l = true)
    (hspare : Sparing d (.slot j l) = true) : (d.slots j).Spares l = true := by
  have hlisted := (h.listed j).1
  cases l with
  | call act =>
    simp only [Sparing, Bool.or_eq_true, Bool.not_eq_true', List.contains_eq_mem,
      decide_eq_false_iff_not, ← hlisted, not_not] at hspare
    simpa [Session.Spares] using hspare
  | posted act =>
    simp only [Admits, Bool.and_eq_true, List.isEmpty_iff] at ha
    rw [ha.2] at hlisted
    have hnone : (d.slots j).reported = none := by simpa using hlisted
    simp [Session.Spares, hnone]
  | _ => rfl

theorem Orderly.step (h : Orderly srv d) (hspare : Sparing d l = true)
    (hs : step srv d l = .next d') : Orderly srv d' := by
  cases l with
  | wait entries =>
    simp only [Dispatcher.step, Outcome.bind_eq_next, Outcome.require_eq_next, Outcome.pure_eq,
      Outcome.next.injEq] at hs
    obtain ⟨-, ⟨-, hbatch⟩, slots, hfill, rfl⟩ := hs
    have hl : Listed d.slots [] := hbatch ▸ h.listed
    obtain ⟨hi, hn, hl⟩ := fill_listed h.inv h.named hl hfill
    exact ⟨hi, hn, hl⟩
  | next w =>
    simp only [Dispatcher.step, Outcome.bind_eq_next, Outcome.require_eq_next] at hs
    obtain ⟨-, -, hs⟩ := hs
    have hl := h.listed
    match hb : d.batch with
    | [] => simp [hb] at hs
    | none :: batch =>
      simp only [hb, Outcome.pure_eq, Outcome.next.injEq] at hs
      subst hs
      exact ⟨h.inv, h.named, (hb ▸ hl).permanent⟩
    | some j :: batch =>
      simp only [hb, Outcome.bind_eq_next, Outcome.pure_eq, Outcome.next.injEq] at hs
      obtain ⟨-, -, s, hdisp, rfl⟩ := hs
      exact ⟨forall_update h.inv ((h.inv j).step hdisp),
        forall_update h.named ((h.named j).step (h.inv j) rfl hdisp),
        (hb ▸ hl).take (Session.reported_taken (h.inv j) hdisp)⟩
  | slot j l =>
    simp only [Dispatcher.step, Outcome.bind_eq_next, Outcome.require_eq_next, Outcome.pure_eq,
      Outcome.next.injEq] at hs
    obtain ⟨-, ha, s, hs, rfl⟩ := hs
    have hkept : s.reported = (d.slots j).reported := by
      refine Session.reported_kept (h.inv j) ?_ ?_ hs
      · rintro ev rfl
        cases ha
      · rintro w rfl
        cases ha
    exact ⟨forall_update h.inv ((h.inv j).step hs),
      forall_update h.named ((h.named j).step (h.inv j) (h.slot ha hspare) hs), h.listed.keep hkept⟩

/-- What holds of each slot and keeps its own steps from a fault keeps the loop from it. -/
theorem fill_ne_fault {P : ℕ → Session → Prop} {f : Fault}
    (hkeep : ∀ j s ev t, P j s → s.step srv (.poll ev) = .next t → P j t)
    (hfault : ∀ j s k, P j s → s.step srv k ≠ .fault f)
    {entries : List (Option (ℕ × Mask))} {slots : ℕ → Session} (h : ∀ j, P j (slots j)) :
    fill srv slots entries ≠ .fault f := by
  induction entries generalizing slots with
  | nil => simp [fill]
  | cons entry entries ih =>
    cases entry with
    | none => exact ih h
    | some entry =>
      obtain ⟨i, ev⟩ := entry
      intro hf
      simp only [fill, Outcome.bind_eq_fault] at hf
      rcases hf with hf | ⟨s, hs, hf⟩
      · exact hfault i _ _ (h i) hf
      · refine ih (fun j => ?_) hf
        by_cases hj : j = i
        · subst hj
          rw [Function.update_self]
          exact hkeep j _ ev s (h j) hs
        · rw [Function.update_of_ne hj]
          exact h j

theorem step_ne_fault {P : ℕ → Session → Prop} {f : Fault}
    (hlive : ∀ j s, P j s → s.NamesLive = true)
    (hkeep : ∀ j s ev t, P j s → s.step srv (.poll ev) = .next t → P j t)
    (hfault : ∀ j s k, P j s → s.step srv k ≠ .fault f) (h : ∀ j, P j (d.slots j)) :
    step srv d l ≠ .fault f := by
  intro hf
  cases l with
  | wait entries =>
    simp only [Dispatcher.step, Outcome.bind_eq_fault, Outcome.require_ne_fault, false_or,
      Outcome.pure_eq, reduceCtorEq, and_false, exists_false, or_false] at hf
    obtain ⟨-, -, hf⟩ := hf
    exact fill_ne_fault hkeep hfault h hf
  | next w =>
    simp only [Dispatcher.step, Outcome.bind_eq_fault, Outcome.require_ne_fault, false_or] at hf
    obtain ⟨-, -, hf⟩ := hf
    cases hb : d.batch with
    | nil => simp [hb] at hf
    | cons entry batch =>
      cases entry with
      | none => simp [hb] at hf
      | some j =>
        simp only [hb, Outcome.bind_eq_fault, Outcome.check_eq_fault, hlive j _ (h j),
          not_true_eq_false, false_and, false_or, Outcome.pure_eq, reduceCtorEq, and_false,
          exists_false, or_false] at hf
        obtain ⟨-, -, hf⟩ := hf
        exact hfault j _ _ (h j) hf
  | slot j l =>
    simp only [Dispatcher.step, Outcome.bind_eq_fault, Outcome.require_ne_fault, false_or,
      Outcome.pure_eq, reduceCtorEq, and_false, exists_false, or_false] at hf
    obtain ⟨-, -, hf⟩ := hf
    exact hfault j _ _ (h j) hf

theorem Orderly.ne_deadEvent (h : Orderly srv d) :
    Dispatcher.step srv d l ≠ .fault .deadEvent :=
  step_ne_fault (P := fun _ s => Session.Inv srv s ∧ Session.Named s) (fun _ _ h => h.2.live)
    (fun _ _ _ _ h hs => ⟨h.1.step hs, h.2.step h.1 rfl hs⟩) (fun _ _ _ h => h.2.ne_deadEvent h.1)
    fun j => ⟨h.inv j, h.named j⟩

/-- Every dispatched event is alive, in any run in which no callback closes a connection whose
entry is still to come in the same batch. -/
theorem dispatched_alive (srv : TcpServer) (ls : List DispatchLabel)
    (sparing : StepsMeet (step srv) (fun d l => Sparing d l = true) start ls) :
    run (step srv) start ls ≠ .fault .deadEvent :=
  run_ne_fault_of (fun _ _ _ h hc hs => Orderly.step h hc hs) (fun _ _ h _ => h.ne_deadEvent)
    Orderly.start sparing

/-- The callback for the first entry sends on the connection of the second. -/
theorem dispatched_alive_send :
    run (step ⟨⟨.linux, .little⟩, false, false, true, false⟩) start
      [.slot 0 .accept, .slot 0 .bound, .slot 1 .accept, .slot 1 .bound,
        .wait [none, some (0, EPOLLIN), some (1, EPOLLIN)], .next .again, .next .again,
        .slot 0 (.read (.data [1])), .slot 1 (.call (.write [2] .again)), .slot 0 .ret, .slot 0 .go,
        .next .again, .slot 1 (.read (.data []))] ≠ .fault .deadEvent :=
  dispatched_alive _ _ (by decide +kernel)

/-- The callback for the first entry closes the connection of the second. -/
theorem deadEvent_in_batch :
    run (step ⟨⟨.linux, .little⟩, false, false, true, false⟩) start
      [.slot 0 .accept, .slot 0 .bound, .slot 1 .accept, .slot 1 .bound,
        .wait [some (0, EPOLLIN), some (1, EPOLLIN)], .next .again, .slot 0 (.read (.data [1])),
        .slot 1 (.call .close), .slot 1 .go, .slot 0 .ret, .slot 0 .go, .next .again] =
      .fault .deadEvent := by
  refine Outcome.faults_eq_true.mp ?_
  decide +kernel

end Dispatcher
end Potato
