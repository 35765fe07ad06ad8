import Potato.EventLoopPool

/-!
# Shutting the workers down

Both ends of a loop's life race with the destructor of the pool: a worker registers
its loop before it sets `looping_`, and destroys it as soon as it sees the flag
cleared. Where neither happens at the wrong time, every loop is stopped once, no dead
loop is touched, and every `join` returns.
-/
namespace Potato
open Machine

/-- The worker is in its loop, or about to enter it, with the flag set. -/
def WorkerPc.looping : WorkerPc → Bool
  | expectReading | running => true
  | _ => false

/-- The worker has set the flag. -/
def WorkerPc.entered : WorkerPc → Bool
  | expectReading | running | leaving | ended => true
  | _ => false

namespace EventLoopPool

/-- The loop on which the destructor is about to assert. -/
def checked (p : EventLoopPool) : Option ℕ :=
  match p.owner with
  | .stopping i .check => p.loops[i]?
  | _ => none

/-- The loop on which the destructor is in `stopLoop`. -/
def stopped (p : EventLoopPool) : Option ℕ :=
  match p.owner with
  | .stopping i _ => p.loops[i]?
  | _ => none

def pcOf (p : EventLoopPool) (w : ℕ) : Option WorkerPc := p.threads[w]?.map (·.pc)

/-- `stopLoop` is called on a loop only when its worker has set the flag, and a worker does not
destroy its loop while `stopLoop` runs on it. -/
def Timely (p : EventLoopPool) : OwnerLabel → Prop
  | .stop => ∀ w ∈ p.checked, (p.pcOf w).any (·.looping) = true
  | .work w => p.pcOf w = some .leaving → p.stopped ≠ some w
  | _ => True

instance (p : EventLoopPool) (l : OwnerLabel) : Decidable (p.Timely l) := by
  cases l <;> simp only [Timely] <;> infer_instance

/-- The loop of a worker at each point of `threadFunc`, with its flag cleared or not. -/
def lifeAt (etMode cleared : Bool) : WorkerPc → Option LoopLife
  | .construct | .ended => none
  | .register | .assertIdle | .setLooping => some (.construct etMode)
  | .expectReading => some { LoopLife.construct etMode with looping := !cleared }
  | .running => some { LoopLife.stopped etMode with looping := !cleared }
  | .leaving => some (.stopped etMode)

/-- Where `threadFunc` goes next. -/
def nextPc (cleared : Bool) : WorkerPc → WorkerPc
  | .construct => .register
  | .register => .assertIdle
  | .assertIdle => .setLooping
  | .setLooping => .expectReading
  | .expectReading => .running
  | .running => if cleared then .leaving else .running
  | .leaving => .ended
  | .ended => .ended

variable {p q : EventLoopPool} {w i : ℕ} {x y : Worker} {l : OwnerLabel} {n : ℕ} {pc : StopPc}

/-- A worker whose loop is as it should be goes on without a fault. -/
theorem threadFunc_eq {cleared : Bool} (hloop : x.loop = lifeAt p.etMode cleared x.pc)
    (hc : cleared = true → x.pc.entered = true) (hpc : x.pc ≠ .ended) :
    p.threadFunc w x =
      .next ((if x.pc = .register then p.register w else p).put w
        { pc := nextPc cleared x.pc
          loop := lifeAt p.etMode cleared (nextPc cleared x.pc) }) := by
  obtain ⟨xpc, loop⟩ := x
  change loop = lifeAt p.etMode cleared xpc at hloop
  subst hloop
  cases xpc with
  | construct => rfl
  | register => rfl
  | assertIdle => rfl
  | setLooping =>
    have hno : cleared = false := by
      by_contra hno
      cases hc (by simpa using hno)
    subst hno
    rfl
  | expectReading =>
    simp only [threadFunc, lifeAt, Outcome.deref, Outcome.next_bind, LoopLife.expectReading_construct,
      Outcome.mapFault]
    rfl
  | running => cases cleared <;> rfl
  | leaving =>
    obtain ⟨e, he⟩ := LoopLife.destroy_stopped p.etMode
    simp only [threadFunc, lifeAt, Outcome.deref, Outcome.next_bind, he, Outcome.mapFault]
    rfl
  | ended => exact absurd rfl hpc

/-- The loops whose flag the destructor has cleared, by where it is. -/
def clearedAt (loops : List ℕ) : OwnerPc → List ℕ
  | .stopping i .check | .stopping i .clear => loops.take i
  | .stopping i _ => loops.take (i + 1)
  | .joining _ | .destroyed => loops
  | _ => []

/-- Where a worker can be while `stopLoop` runs on its loop. -/
def Serves (x : WorkerPc) : StopPc → Prop
  | .check => True
  | .clear => x.looping = true
  | .ask | .wake => x ≠ .ended

/-- The invariant of a timely shutdown. -/
structure Orderly (p : EventLoopPool) : Prop where
  enrolled : Enrolled p
  cleared_eq : p.cleared = clearedAt p.loops p.owner
  loop_eq : ∀ w x, p.threads[w]? = some x → x.loop = lifeAt p.etMode (decide (w ∈ p.cleared)) x.pc
  entered : ∀ w x, p.threads[w]? = some x → w ∈ p.cleared → x.pc.entered = true
  left : ∀ w x, p.threads[w]? = some x → x.pc = .leaving ∨ x.pc = .ended → w ∈ p.cleared
  serves : ∀ i pc w x, p.owner = .stopping i pc → p.loops[i]? = some w →
    p.threads[w]? = some x → Serves x.pc pc

theorem Orderly.construct (etMode : Bool) (n : ℕ) :
    Orderly ((construct etMode).setThreadNum n) where
  enrolled := .construct etMode n
  cleared_eq := rfl
  loop_eq := fun w x hx => by simp [EventLoopPool.construct, setThreadNum] at hx
  entered := fun w x hx => by simp [EventLoopPool.construct, setThreadNum] at hx
  left := fun w x hx => by simp [EventLoopPool.construct, setThreadNum] at hx
  serves := (fun _ _ _ _ h => nomatch h)

theorem Orderly.step_work (h : Orderly p) (hx : p.threads[w]? = some x) (hpc : x.pc ≠ .ended) :
    p.step (.work w) = .next ((if x.pc = .register then p.register w else p).put w
      { pc := nextPc (decide (w ∈ p.cleared)) x.pc
        loop := lifeAt p.etMode (decide (w ∈ p.cleared))
          (nextPc (decide (w ∈ p.cleared)) x.pc) }) := by
  simp only [step, hx]
  exact threadFunc_eq (h.loop_eq w x hx) (fun hc => h.entered w x hx (by simpa using hc)) hpc

/-- The loop that is to be stopped next has not been stopped. -/
theorem Orderly.not_cleared (h : Orderly p) (hp : p.owner = .stopping i pc)
    (hpc : pc = .check ∨ pc = .clear) (hw : p.loops[i]? = some w) : w ∉ p.cleared := by
  have hcleared : p.cleared = p.loops.take i := by
    rw [h.cleared_eq, hp]
    rcases hpc with rfl | rfl <;> rfl
  rw [hcleared]
  intro hmem
  obtain ⟨j, hj, he⟩ := List.getElem_of_mem hmem
  obtain ⟨hi, he'⟩ := List.getElem?_eq_some_iff.mp hw
  simp only [List.length_take] at hj
  rw [List.getElem_take, ← he', h.enrolled.nodup.getElem_inj_iff] at he
  omega

theorem clearedAt_of_not_returned {loops : List ℕ} {owner : OwnerPc}
    (h : owner.returned = false) : clearedAt loops owner = [] := by
  cases owner <;> first | rfl | cases h

theorem clearedAt_stopping {loops : List ℕ} (h : loops.length ≤ i) (pc : StopPc) :
    clearedAt loops (.stopping i pc) = loops := by
  cases pc with
  | check | clear => exact List.take_of_length_le h
  | ask | wake => exact List.take_of_length_le (by omega)

theorem entered_nextPc {cleared : Bool} {pc : WorkerPc} (h : pc.entered = true) :
    (nextPc cleared pc).entered = true := by
  cases pc <;> cases cleared <;> first | rfl | cases h

theorem left_nextPc {cleared : Bool} {pc : WorkerPc}
    (h : nextPc cleared pc = .leaving ∨ nextPc cleared pc = .ended) :
    cleared = true ∨ pc = .leaving ∨ pc = .ended := by
  cases pc <;> cases cleared <;> simp [nextPc] at h ⊢

theorem serves_nextPc {cleared : Bool} {xpc : WorkerPc} (h : Serves xpc pc)
    (hno : pc = .clear → cleared = false) (hleave : xpc ≠ .leaving) :
    Serves (nextPc cleared xpc) pc := by
  cases pc with
  | check => trivial
  | clear =>
    rw [hno rfl]
    cases xpc <;> first | rfl | cases h
  | ask => cases xpc <;> cases cleared <;> simp [Serves, nextPc] at h hleave ⊢
  | wake => cases xpc <;> cases cleared <;> simp [Serves, nextPc] at h hleave ⊢

/-- A worker that is registered stays out of the way of the owner. -/
theorem Orderly.frame_work (h : Orderly p) (p' : EventLoopPool) (hx : p.threads[w]? = some x)
    (hc : p.Timely (.work w)) (hthreads : p'.threads = p.threads) (hmode : p'.etMode = p.etMode)
    (hcleared : p'.cleared = p.cleared)
    (howner : p'.loops = p.loops ∧ p'.owner = p.owner ∨
      p.owner.returned = false ∧ p'.owner.returned = false)
    (hq : q = p'.put w
      { pc := nextPc (decide (w ∈ p.cleared)) x.pc
        loop := lifeAt p.etMode (decide (w ∈ p.cleared))
          (nextPc (decide (w ∈ p.cleared)) x.pc) })
    (henrolled : Enrolled q) : Orderly q := by
  subst hq
  have hx' : p'.threads[w]? = some x := by rw [hthreads, hx]
  refine ⟨henrolled, ?_, fun v y hy => ?_, fun v y hy hv => ?_, fun v y hy hpc => ?_,
    fun i pc v y hp hv hy => ?_⟩
  · change p'.cleared = clearedAt p'.loops p'.owner
    rw [hcleared, h.cleared_eq]
    rcases howner with ⟨hl, ho⟩ | ⟨hp, hp'⟩
    · rw [hl, ho]
    · rw [clearedAt_of_not_returned hp, clearedAt_of_not_returned hp']
  · change y.loop = lifeAt p'.etMode (decide (v ∈ p'.cleared)) y.pc
    rw [hmode, hcleared]
    rw [getElem?_put hx'] at hy
    split_ifs at hy with hvw
    · cases hy
      rw [hvw]
    · rw [hthreads] at hy
      exact h.loop_eq v y hy
  · change v ∈ p'.cleared at hv
    rw [hcleared] at hv
    rw [getElem?_put hx'] at hy
    split_ifs at hy with hvw
    · cases hy
      subst hvw
      exact entered_nextPc (h.entered v x hx hv)
    · rw [hthreads] at hy
      exact h.entered v y hy hv
  · change v ∈ p'.cleared
    rw [hcleared]
    rw [getElem?_put hx'] at hy
    split_ifs at hy with hvw
    · cases hy
      subst hvw
      rcases left_nextPc hpc with hmem | hleft
      · simpa using hmem
      · exact h.left v x hx hleft
    · rw [hthreads] at hy
      exact h.left v y hy hpc
  · change p'.owner = .stopping i pc at hp
    change p'.loops[i]? = some v at hv
    obtain ⟨hl, ho⟩ : p'.loops = p.loops ∧ p'.owner = p.owner := by
      refine howner.resolve_right fun hno => ?_
      rw [hp] at hno
      cases hno.2
    rw [ho] at hp
    rw [hl] at hv
    rw [getElem?_put hx'] at hy
    split_ifs at hy with hvw
    · cases hy
      subst hvw
      refine serves_nextPc (h.serves i pc v x hp hv hx) (fun he => ?_) fun hleave => ?_
      · simpa using h.not_cleared hp (.inr he) hv
      · exact hc (by simp [pcOf, hx, hleave]) (by simp [stopped, hp, hv])
    · rw [hthreads] at hy
      exact h.serves i pc v y hp hv hy

theorem Orderly.work (h : Orderly p) (hc : p.Timely (.work w)) (hs : p.step (.work w) = .next q) :
    Orderly q := by
  have hx : ∃ x, p.threads[w]? = some x := by
    simp only [step] at hs
    split at hs
    · exact ⟨_, ‹_›⟩
    · cases hs
  obtain ⟨x, hx⟩ := hx
  have hpc : x.pc ≠ .ended := by
    intro hpc
    simp only [step, hx, threadFunc, hpc] at hs
    cases hs
  have henrolled : Enrolled q := h.enrolled.move (step_move hs)
  rw [h.step_work hx hpc] at hs
  cases hs
  by_cases hreg : x.pc = .register
  · have hp : p.owner.returned = false := by
      by_contra hp
      exact h.enrolled.ne_register (by simpa using hp) hx hreg
    have hp' : (p.register w).owner.returned = false := by
      simp only [register]
      split_ifs
      · rfl
      · exact hp
    exact h.frame_work (p.register w) hx hc rfl rfl rfl (.inr ⟨hp, hp'⟩) (by rw [if_pos hreg])
      henrolled
  · exact h.frame_work p hx hc rfl rfl rfl (.inl ⟨rfl, rfl⟩) (by rw [if_neg hreg]) henrolled

/-- The owner goes on, and leaves the workers and the cleared loops as they are. -/
theorem Orderly.move_owner (h : Orderly p) (henrolled : Enrolled q)
    (hthreads : q.threads = p.threads) (hmode : q.etMode = p.etMode) (hloops : q.loops = p.loops)
    (hcleared : q.cleared = p.cleared)
    (hat : clearedAt p.loops q.owner = clearedAt p.loops p.owner)
    (hserves : ∀ i pc w x, q.owner = .stopping i pc → p.loops[i]? = some w →
      p.threads[w]? = some x → Serves x.pc pc) : Orderly q := by
  refine ⟨henrolled, ?_, ?_, ?_, ?_, ?_⟩
  · rw [hcleared, hloops, hat, h.cleared_eq]
  · rw [hthreads, hmode, hcleared]
    exact h.loop_eq
  · rw [hthreads, hcleared]
    exact h.entered
  · rw [hthreads, hcleared]
    exact h.left
  · rw [hthreads, hloops]
    exact hserves

/-- The owner goes on to a place outside `stopLoop`. -/
theorem Orderly.move_aside (h : Orderly p) {owner : OwnerPc}
    (henrolled : Enrolled { p with owner := owner })
    (hat : clearedAt p.loops owner = clearedAt p.loops p.owner)
    (haside : ∀ i pc, owner ≠ .stopping i pc) : Orderly { p with owner := owner } :=
  h.move_owner henrolled rfl rfl rfl rfl hat (fun i pc _ _ ho => absurd ho (haside i pc))

theorem entered_of_looping {pc : WorkerPc} (h : pc.looping = true) : pc.entered = true := by
  cases pc <;> first | rfl | cases h

theorem lifeAt_clear {etMode : Bool} {pc : WorkerPc} {e : LoopLife} (h : pc.looping = true)
    (he : some e = lifeAt etMode false pc) :
    some { e with looping := false } = lifeAt etMode true pc := by
  cases pc with
  | expectReading | running => cases he; rfl
  | _ => cases h

theorem looping_lifeAt {etMode : Bool} {pc : WorkerPc} {e : LoopLife} (h : pc.looping = true)
    (he : some e = lifeAt etMode false pc) : e.looping = true := by
  cases pc with
  | expectReading | running => cases he; rfl
  | _ => cases h

theorem lifeAt_cleared {etMode : Bool} {pc : WorkerPc} {e : LoopLife}
    (he : lifeAt etMode true pc = some e) (h : pc.entered = true) : e.looping = false := by
  cases pc with
  | expectReading | running | leaving => cases he; rfl
  | ended => cases he
  | _ => cases h

/-- The step that clears the flag. -/
theorem Orderly.clear (h : Orderly p) (henrolled : Enrolled q) (hp : p.owner = .stopping i .clear)
    (hw : p.loops[i]? = some w) (hx : p.threads[w]? = some x) {e : LoopLife}
    (he : x.loop = some e)
    (hq : q = { p.put w { x with loop := some { e with looping := false } } with
      owner := .stopping i .ask
      cleared := p.cleared ++ [w] }) : Orderly q := by
  subst hq
  have hno := h.not_cleared hp (.inr rfl) hw
  have hlooping : x.pc.looping = true := h.serves i .clear w x hp hw hx
  have hlife := h.loop_eq w x hx
  rw [decide_eq_false hno, he] at hlife
  have hcleared : p.cleared = p.loops.take i := by
    rw [h.cleared_eq, hp]
    rfl
  refine ⟨henrolled, ?_, fun v y hy => ?_, fun v y hy hv => ?_, fun v y hy hpc => ?_,
    fun j pc v y hj hv hy => ?_⟩
  · change p.cleared ++ [w] = p.loops.take (i + 1)
    rw [hcleared, List.take_add_one, hw]
    rfl
  · change y.loop = lifeAt p.etMode (decide (v ∈ p.cleared ++ [w])) y.pc
    change (p.put w _).threads[v]? = some y at hy
    rw [getElem?_put hx] at hy
    split_ifs at hy with hvw
    · cases hy
      subst hvw
      rw [decide_eq_true (List.mem_append_right _ (List.mem_singleton_self v))]
      exact lifeAt_clear hlooping hlife
    · have hmem : v ∈ p.cleared ++ [w] ↔ v ∈ p.cleared := by simp [hvw]
      rw [h.loop_eq v y hy]
      simp only [hmem]
  · change v ∈ p.cleared ++ [w] at hv
    change (p.put w _).threads[v]? = some y at hy
    rw [getElem?_put hx] at hy
    split_ifs at hy with hvw
    · cases hy
      exact entered_of_looping hlooping
    · exact h.entered v y hy (by simpa [hvw] using hv)
  · change v ∈ p.cleared ++ [w]
    change (p.put w _).threads[v]? = some y at hy
    rw [getElem?_put hx] at hy
    split_ifs at hy with hvw
    · simp [hvw]
    · exact List.mem_append_left _ (h.left v y hy hpc)
  · cases hj
    change p.loops[i]? = some v at hv
    change (p.put w _).threads[v]? = some y at hy
    rw [hw] at hv
    cases hv
    rw [getElem?_put hx, if_pos rfl] at hy
    cases hy
    intro hended
    rw [show x.pc = .ended from hended] at hlooping
    cases hlooping

theorem lifeAt_of_ne_ended (etMode cleared : Bool) {pc : WorkerPc} (hc : pc ≠ .construct)
    (he : pc ≠ .ended) : ∃ e, lifeAt etMode cleared pc = some e := by
  cases pc <;> first | exact ⟨_, rfl⟩ | exact absurd rfl hc | exact absurd rfl he

/-- While `stopLoop` runs on a loop, the loop exists. -/
theorem Orderly.alive (h : Orderly p) (hc : p.Timely .stop) (hp : p.owner = .stopping i pc)
    (hw : p.loops[i]? = some w) :
    ∃ x e, p.threads[w]? = some x ∧ x.loop = some e ∧
      (pc = .check → x.pc.looping = true ∧ e.looping = true) := by
  obtain ⟨x, hx, hreg⟩ := (h.enrolled.mem_iff w).mp (List.mem_of_getElem? hw)
  have hlife := h.loop_eq w x hx
  have hserves := h.serves i pc w x hp hw hx
  have hcheck : pc = .check → x.pc.looping = true := by
    rintro rfl
    simpa [pcOf, hx] using hc w (by simp [checked, hp, hw])
  have hended : x.pc ≠ .ended := by
    intro he
    rw [he] at hcheck hserves
    cases pc with
    | check => cases hcheck rfl
    | clear => cases hserves
    | ask => exact hserves rfl
    | wake => exact hserves rfl
  have hconstruct : x.pc ≠ .construct := by
    intro hpc
    rw [hpc] at hreg
    cases hreg
  obtain ⟨e, he⟩ := lifeAt_of_ne_ended p.etMode (decide (w ∈ p.cleared)) hconstruct hended
  refine ⟨x, e, hx, hlife.trans he, fun hpc => ⟨hcheck hpc, ?_⟩⟩
  rw [decide_eq_false (h.not_cleared hp (.inl hpc) hw)] at he
  exact looping_lifeAt (hcheck hpc) he.symm

theorem Orderly.create (h : Orderly p) (hp : p.owner = .creating)
    (henrolled : Enrolled { p with threads := p.threads ++ [{}] }) :
    Orderly { p with threads := p.threads ++ [{}] } := by
  have hcleared : p.cleared = [] := by
    rw [h.cleared_eq, hp]
    rfl
  have hold : ∀ (w : ℕ) (x : Worker), (p.threads ++ [Worker.mk .construct none])[w]? = some x →
      p.threads[w]? = some x ∨ x = Worker.mk .construct none := by
    intro w x hx
    rw [List.getElem?_append] at hx
    split_ifs at hx
    · exact .inl hx
    · exact .inr (List.mem_singleton.mp (List.mem_of_getElem? hx))
  refine ⟨henrolled, h.cleared_eq, fun w x hx => ?_, fun w x _ hw => ?_, fun w x hx hpc => ?_,
    fun i pc w x hs => ?_⟩
  · rcases hold w x hx with hx | rfl
    · exact h.loop_eq w x hx
    · rfl
  · change w ∈ p.cleared at hw
    rw [hcleared] at hw
    cases hw
  · rcases hold w x hx with hx | rfl
    · exact h.left w x hx hpc
    · rcases hpc with hpc | hpc <;> cases hpc
  · change p.owner = _ at hs
    rw [hp] at hs
    cases hs

/-- A step of `stopLoop`. -/
theorem Orderly.stop (h : Orderly p) (hc : p.Timely .stop) (hp : p.owner = .stopping i pc)
    (hw : p.loops[i]? = some w) (hs : p.stopLoop i w pc = .next q) (henrolled : Enrolled q) :
    Orderly q := by
  obtain ⟨x, e, hx, he, hcheck⟩ := h.alive hc hp hw
  have hsame : ∀ w' x', p.loops[i]? = some w' → p.threads[w']? = some x' → x' = x := by
    intro w' x' hw' hx'
    rw [hw] at hw'
    cases hw'
    rw [hx] at hx'
    exact (Option.some.inj hx').symm
  simp only [stopLoop, hx, he, Outcome.deref, Outcome.next_bind] at hs
  cases pc with
  | check =>
    simp only [Outcome.bind_eq_next, Outcome.check_eq_next, Outcome.pure_eq,
      Outcome.next.injEq] at hs
    obtain ⟨-, -, rfl⟩ := hs
    refine h.move_owner henrolled rfl rfl rfl rfl (by rw [hp]; rfl) ?_
    rintro j pc w' x' ⟨⟩ hw' hx'
    rw [hsame w' x' hw' hx']
    exact (hcheck rfl).1
  | clear =>
    cases hs
    exact h.clear henrolled hp hw hx he rfl
  | ask =>
    cases hs
    refine h.move_owner henrolled rfl rfl rfl rfl (by rw [hp]; rfl) ?_
    rintro j pc w' x' ⟨⟩ hw' hx'
    exact h.serves i .ask w' x' hp hw' hx'
  | wake =>
    cases hs
    refine h.move_owner henrolled rfl rfl rfl rfl (by rw [hp]; rfl) ?_
    rintro j pc w' x' ⟨⟩ - -
    trivial

theorem Orderly.step (h : Orderly p) (hc : p.Timely l) (hs : p.step l = .next q) : Orderly q := by
  have henrolled : Enrolled q := h.enrolled.move (step_move hs)
  cases l with
  | work w => exact h.work hc hs
  | create =>
    simp only [EventLoopPool.step, Outcome.bind_eq_next, Outcome.require_eq_next,
      Outcome.pure_eq] at hs
    obtain ⟨-, hp, hs⟩ := hs
    split_ifs at hs
    · cases hs
      exact h.create hp henrolled
    · cases hs
      exact h.move_aside henrolled (by rw [hp]; rfl) (by simp)
  | test =>
    simp only [EventLoopPool.step, Outcome.bind_eq_next, Outcome.require_eq_next, Outcome.pure_eq,
      Outcome.next.injEq] at hs
    obtain ⟨-, hp, rfl⟩ := hs
    refine h.move_aside henrolled ?_ ?_
    · rw [hp]
      split_ifs <;> rfl
    · split_ifs <;> simp
  | wake =>
    simp only [EventLoopPool.step, Outcome.bind_eq_next, Outcome.require_eq_next, Outcome.pure_eq,
      Outcome.next.injEq] at hs
    obtain ⟨-, hp, rfl⟩ := hs
    exact h.move_aside henrolled (by rw [hp]; rfl) (by simp)
  | getNextLoop =>
    simp only [EventLoopPool.step, Outcome.bind_eq_next, Outcome.require_eq_next, Outcome.pure_eq,
      Outcome.next.injEq] at hs
    obtain ⟨-, hp, ⟨loop, p'⟩, hnext, rfl⟩ := hs
    obtain ⟨-, next, rfl, -⟩ := getNextLoop_next hnext
    exact h.move_owner henrolled rfl rfl rfl rfl rfl h.serves
  | destroy =>
    simp only [EventLoopPool.step, Outcome.bind_eq_next, Outcome.require_eq_next, Outcome.pure_eq,
      Outcome.next.injEq] at hs
    obtain ⟨-, hp, rfl⟩ := hs
    refine h.move_owner henrolled rfl rfl rfl rfl (by rw [hp]; simp [clearedAt]) ?_
    rintro i pc w x ⟨⟩ - -
    trivial
  | stop =>
    simp only [EventLoopPool.step] at hs
    split at hs
    · rename_i i pc hp
      split at hs
      · rename_i w hw
        exact h.stop hc hp hw hs henrolled
      · rename_i hnone
        cases hs
        refine h.move_aside henrolled ?_ (by simp)
        rw [hp]
        exact (clearedAt_stopping (List.getElem?_eq_none_iff.mp hnone) pc).symm
    · cases hs
  | join =>
    simp only [EventLoopPool.step] at hs
    split at hs
    · rename_i i hp
      split at hs
      · simp only [Outcome.bind_eq_next, Outcome.require_eq_next, Outcome.pure_eq,
          Outcome.next.injEq] at hs
        obtain ⟨-, -, rfl⟩ := hs
        exact h.move_aside henrolled (by rw [hp]; rfl) (by simp)
      · cases hs
        exact h.move_aside henrolled (by rw [hp]; rfl) (by simp)
    · cases hs

/-- No timely step fails. -/
theorem Orderly.raises (h : Orderly p) (hd : Dealt p) (hc : p.Timely l) (P : PoolFault → Prop) :
    (p.step l).Raises P := by
  cases l with
  | getNextLoop => simp [EventLoopPool.step, hd.getNextLoop_raises P]
  | stop =>
    simp only [EventLoopPool.step]
    split
    · rename_i i pc hp
      split
      · rename_i w hw
        obtain ⟨x, e, hx, he, hcheck⟩ := h.alive hc hp hw
        simp only [stopLoop, hx, he, Outcome.deref, Outcome.next_bind]
        cases pc <;> simp [hcheck]
      · simp
    · simp
  | join =>
    simp only [EventLoopPool.step]
    split
    · split <;> simp
    · simp
  | work w =>
    cases hx : p.threads[w]? with
    | none => simp [EventLoopPool.step, hx]
    | some x =>
      by_cases hpc : x.pc = .ended
      · simp [EventLoopPool.step, hx, threadFunc, hpc]
      · simp [h.step_work hx hpc]
  | _ => simp [EventLoopPool.step]

/-- The steps a worker has left behind the flag. -/
def rest : WorkerPc → ℕ
  | .expectReading => 3
  | .running => 2
  | .leaving => 1
  | _ => 0

theorem ended_of_rest {pc : WorkerPc} (h : pc.entered = true) (hrest : rest pc = 0) :
    pc = .ended := by
  cases pc with
  | ended => rfl
  | expectReading | running | leaving => cases hrest
  | _ => cases h

theorem rest_nextPc {pc : WorkerPc} {r : ℕ} (h : rest pc = r + 1) : rest (nextPc true pc) = r := by
  cases pc with
  | expectReading | running | leaving => cases h; rfl
  | _ => cases h

/-- A worker whose flag is cleared runs to its end. -/
theorem Orderly.ends (h : Orderly p) (hp : p.owner = .joining i) (hw : w ∈ p.cleared)
    (hx : p.threads[w]? = some x) :
    ∃ k q y, run EventLoopPool.step p (List.replicate k (.work w)) = .next q ∧ q.owner = .joining i ∧
      q.threads[w]? = some y ∧ y.pc = .ended := by
  induction hrest : rest x.pc generalizing p x with
  | zero =>
    refine ⟨0, p, x, rfl, hp, hx, ?_⟩
    exact ended_of_rest (h.entered w x hx hw) hrest
  | succ r ih =>
    have hpc : x.pc ≠ .ended ∧ x.pc ≠ .register := by
      constructor <;> (intro hpc; rw [hpc] at hrest; cases hrest)
    have hs := h.step_work hx hpc.1
    rw [if_neg hpc.2, decide_eq_true hw] at hs
    have htimely : p.Timely (.work w) := by
      intro _
      simp [stopped, hp]
    have hnext := h.step htimely hs
    obtain ⟨k, q, y, hrun, hq, hy, hend⟩ :=
      ih hnext hp hw (by rw [getElem?_put hx, if_pos rfl]) (rest_nextPc hrest)
    refine ⟨k + 1, q, y, ?_, hq, hy, hend⟩
    rw [List.replicate_succ, run_cons, hs, Outcome.next_bind, hrun]

/-- In every run whose steps are timely: no assertion fails, `stopLoop`'s among them, and no
member of a destroyed loop is used; a flag that the destructor has cleared stays cleared; and when
the destructor is in front of a `join`, the worker can leave its loop and the `join` return. -/
theorem timely_shutdown {etMode : Bool} {ls : List OwnerLabel}
    (timely : StepsMeet step Timely ((construct etMode).setThreadNum n) ls) :
    (∀ e, run step ((construct etMode).setThreadNum n) ls ≠ .fault e) ∧
      ∀ p, run step ((construct etMode).setThreadNum n) ls = .next p →
        (∀ w ∈ p.cleared, ∀ x, p.threads[w]? = some x → ∀ e, x.loop = some e →
          e.looping = false) ∧
        ∀ i, p.owner = .joining i → ∃ k q, run step p (List.replicate k (.work i)) = .next q ∧
          ∃ q', step q .join = .next q' := by
  have hstep : ∀ s l t, (Orderly s ∧ Dealt s) → s.Timely l → s.step l = .next t →
      Orderly t ∧ Dealt t := fun s l t ⟨h, hd⟩ hc hs =>
    ⟨h.step hc hs, hd.move h.enrolled (step_move hs)⟩
  have hinit : Orderly ((construct etMode).setThreadNum n) ∧
      Dealt ((construct etMode).setThreadNum n) := ⟨.construct etMode n, .construct etMode n⟩
  refine ⟨fun e => ?_, fun p hp => ?_⟩
  · exact run_ne_fault_of hstep (fun s l ⟨h, hd⟩ hc hf => h.raises hd hc (fun _ => False) e hf)
      hinit timely
  · obtain ⟨h, -⟩ := run_invariant_of hstep hinit timely hp
    refine ⟨fun w hw x hx e he => ?_, fun i hi => ?_⟩
    · have hlife := h.loop_eq w x hx
      rw [he, decide_eq_true hw] at hlife
      exact lifeAt_cleared hlife.symm (h.entered w x hx hw)
    · cases hx : p.threads[i]? with
      | none => exact ⟨0, p, rfl, _, by simp only [step, hi, hx]; rfl⟩
      | some x =>
        have hmem : i ∈ p.cleared := by
          rw [h.cleared_eq, hi]
          have hlt := (List.getElem?_eq_some_iff.mp hx).1
          refine (h.enrolled.perm (by rw [hi]; rfl)).mem_iff.mpr (List.mem_range.mpr ?_)
          exact Nat.lt_of_lt_of_le hlt h.enrolled.length_le
        obtain ⟨k, q, y, hrun, hq, hy, hend⟩ := h.ends hi hmem hx
        refine ⟨k, q, hrun, { q with owner := .joining (i + 1) }, ?_⟩
        simp only [step, hq, hy]
        simp [Outcome.require, hend]

/-- One worker, from its start to the end of the destructor. -/
theorem timely_shutdown_one : ∃ p : EventLoopPool, p.owner = .destroyed ∧
    ∀ w ∈ p.cleared, ∀ x, p.threads[w]? = some x → ∀ e, x.loop = some e → e.looping = false := by
  obtain ⟨p, hp, hc⟩ := Outcome.yields_eq_true.mp (show
    (run step ((construct true).setThreadNum 1) [.create, .create, .work 0, .work 0, .test, .work 0,
      .work 0, .destroy, .stop, .work 0, .stop, .work 0, .stop, .stop, .stop, .work 0, .join,
      .join]).yields (fun p => decide (p.owner = .destroyed)) = true by
    decide +kernel)
  exact ⟨p, of_decide_eq_true hc, ((timely_shutdown (by decide +kernel)).2 p hp).1⟩

/-- The destructor runs in front of `looping_ = true`, and the worker destroys its loop inside
`stopLoop`. -/
theorem shutdown_races :
    run step ((construct false).setThreadNum 1) [.create, .create, .work 0, .work 0, .test,
      .destroy, .stop] = .fault (.inLoop .assertion) ∧
    run step ((construct false).setThreadNum 1) [.create, .create, .work 0, .work 0, .test, .work 0,
      .work 0, .work 0, .destroy, .stop, .stop, .work 0, .work 0, .stop] = .fault .deadLoop := by
  decide +kernel

end EventLoopPool
end Potato
