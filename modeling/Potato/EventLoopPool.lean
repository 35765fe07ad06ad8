import Potato.LoopLife
import Potato.RoundRobin

/-!
# The pool of event loops

The owner in `start`, `getNextLoop` and the destructor of the pool, and its workers
in `threadFunc`. A step is a critical section of `lock_`, or one access to a member
of an `EventLoop`. The loop of a worker is known by the number of the worker, and
lives on that worker's stack.
-/
namespace Potato
open Machine

/-- The ways in which the pool goes wrong. -/
inductive PoolFault where
  /-- a failure inside an operation of an `EventLoop` -/
  | inLoop (fault : Fault)
  /-- a member of an `EventLoop` that does not exist (any more) is used -/
  | deadLoop
  /-- `loops_` is indexed outside its bounds -/
  | outOfRange
  deriving DecidableEq, Repr

/-- What a worker does next in `threadFunc`. -/
inductive WorkerPc where
  | construct
  | register
  /-- `assert(!looping_)` in `startLoop` -/
  | assertIdle
  /-- `looping_ = true` -/
  | setLooping
  | expectReading
  /-- the test of `while (looping_)` -/
  | running
  /-- the destructor of its loop -/
  | leaving
  | ended
  deriving DecidableEq, Repr

/-- What the destructor of the pool does next in `stopLoop`. -/
inductive StopPc where
  /-- `assert(looping_)` -/
  | check
  /-- `looping_ = false` -/
  | clear
  /-- `inLoopThread` reads `threadId_` -/
  | ask
  /-- `wakeup` reads `wakeupSocket_` -/
  | wake
  deriving DecidableEq, Repr

/-- Where the owner is. -/
inductive OwnerPc where
  /-- in `start`, making threads -/
  | creating
  /-- in `start`, in front of the test of the predicate -/
  | testing
  /-- in `start`, in the condition variable -/
  | waiting
  /-- `start` has returned -/
  | started
  /-- in the destructor, in `stopLoop` on the loop in place `i` -/
  | stopping (i : ℕ) (pc : StopPc)
  /-- in the destructor, in front of the `join` of thread `i` -/
  | joining (i : ℕ)
  | destroyed
  deriving DecidableEq, Repr

structure Worker where
  pc : WorkerPc := .construct
  loop : Option LoopLife := none
  deriving DecidableEq, Repr

/-- An `EventLoopPool`. `assigned` lists what `getNextLoop` returned, with nothing for the main
loop, and `cleared` the loops whose flag the destructor has cleared. -/
structure EventLoopPool where
  etMode : Bool
  threadNums : ℕ := 0
  next : ℕ := 0
  owner : OwnerPc := .creating
  threads : List Worker := []
  loops : List ℕ := []
  assigned : List (Option ℕ) := []
  cleared : List ℕ := []
  deriving DecidableEq, Repr

inductive OwnerLabel where
  /-- `start` makes the next thread, or goes on. -/
  | create
  | test
  /-- The wait ends for no reason. -/
  | wake
  | getNextLoop
  /-- The destructor begins. -/
  | destroy
  /-- The loop over `loops_` in the destructor goes on by one step. -/
  | stop
  | join
  /-- A worker goes on by one step. -/
  | work (w : ℕ)
  deriving DecidableEq, Repr

namespace EventLoopPool

/-- The constructor. -/
def construct (etMode : Bool) : EventLoopPool := { etMode := etMode }

def setThreadNum (p : EventLoopPool) (threadNums : ℕ) : EventLoopPool :=
  { p with threadNums := threadNums }

def put (p : EventLoopPool) (w : ℕ) (x : Worker) : EventLoopPool :=
  { p with threads := p.threads.set w x }

/-- The critical section in `threadFunc`. The notification ends a wait of the owner. -/
def register (p : EventLoopPool) (w : ℕ) : EventLoopPool :=
  { p with
    loops := p.loops ++ [w]
    owner := if p.owner = .waiting then .testing else p.owner }

/-- One step of `threadFunc`. -/
def threadFunc (p : EventLoopPool) (w : ℕ) (x : Worker) : Outcome PoolFault EventLoopPool :=
  match x.pc with
  | .construct => return p.put w { pc := .register, loop := some (.construct p.etMode) }
  | .register => return (p.register w).put w { x with pc := .assertIdle }
  | .assertIdle => do
    let e ← Outcome.deref x.loop .deadLoop
    Outcome.check (e.looping = false) (.inLoop .assertion)
    return p.put w { x with pc := .setLooping }
  | .setLooping => do
    let e ← Outcome.deref x.loop .deadLoop
    return p.put w { pc := .expectReading, loop := some { e with looping := true } }
  | .expectReading => do
    let e ← Outcome.deref x.loop .deadLoop
    let event ← (e.wakeupEvent.step .expectReading).mapFault .inLoop
    return p.put w { pc := .running, loop := some { e with wakeupEvent := event } }
  | .running => do
    let e ← Outcome.deref x.loop .deadLoop
    return p.put w { x with pc := if e.looping then .running else .leaving }
  | .leaving => do
    let e ← Outcome.deref x.loop .deadLoop
    let _ ← e.destroy.mapFault .inLoop
    return p.put w { pc := .ended, loop := none }
  | .ended => .refused

/-- One step of `stopLoop` on the loop in place `i`, that of worker `w`. -/
def stopLoop (p : EventLoopPool) (i w : ℕ) (pc : StopPc) : Outcome PoolFault EventLoopPool := do
  let x ← Outcome.deref p.threads[w]? .deadLoop
  let e ← Outcome.deref x.loop .deadLoop
  match pc with
  | .check => do
    Outcome.check (e.looping = true) (.inLoop .assertion)
    return { p with owner := .stopping i .clear }
  | .clear =>
    return { p.put w { x with loop := some { e with looping := false } } with
      owner := .stopping i .ask
      cleared := p.cleared ++ [w] }
  | .ask => return { p with owner := .stopping i .wake }
  | .wake => return { p with owner := .stopping (i + 1) .check }

/-- `getNextLoop`, with nothing for the main loop. -/
def getNextLoop (p : EventLoopPool) : Outcome PoolFault (Option ℕ × EventLoopPool) :=
  if p.loops = [] then return (none, p)
  else do
    let loop ← Outcome.deref p.loops[p.next]? .outOfRange
    return (some loop, { p with next := if p.loops.length ≤ p.next + 1 then 0 else p.next + 1 })

def step (p : EventLoopPool) : OwnerLabel → Outcome PoolFault EventLoopPool
  | .create => do
    Outcome.require (p.owner = .creating)
    if p.threads.length < p.threadNums then return { p with threads := p.threads ++ [{}] }
    else return { p with owner := .testing }
  | .test => do
    Outcome.require (p.owner = .testing)
    return { p with owner := if p.loops.length = p.threadNums then .started else .waiting }
  | .wake => do
    Outcome.require (p.owner = .waiting)
    return { p with owner := .testing }
  | .getNextLoop => do
    Outcome.require (p.owner = .started)
    let (loop, p) ← p.getNextLoop
    return { p with assigned := p.assigned ++ [loop] }
  | .destroy => do
    Outcome.require (p.owner = .started)
    return { p with owner := .stopping 0 .check }
  | .stop =>
    match p.owner with
    | .stopping i pc =>
      match p.loops[i]? with
      | some w => p.stopLoop i w pc
      | none => return { p with owner := .joining 0 }
    | _ => .refused
  | .join =>
    match p.owner with
    | .joining i =>
      match p.threads[i]? with
      | some x => do
        Outcome.require (x.pc = .ended)
        return { p with owner := .joining (i + 1) }
      | none => return { p with owner := .destroyed }
    | _ => .refused
  | .work w =>
    match p.threads[w]? with
    | some x => p.threadFunc w x
    | none => .refused

end EventLoopPool

/-- The worker is behind its critical section. -/
def WorkerPc.registered : WorkerPc → Bool
  | construct | register => false
  | _ => true

/-- `start` has returned. -/
def OwnerPc.returned : OwnerPc → Bool
  | creating | testing | waiting => false
  | _ => true

namespace EventLoopPool
variable {p q : EventLoopPool} {w : ℕ} {x y : Worker} {l : OwnerLabel} {n : ℕ}

def Registered (p : EventLoopPool) (w : ℕ) : Prop :=
  ∃ x, p.threads[w]? = some x ∧ x.pc.registered = true

@[simp] theorem put_loops (p : EventLoopPool) (w : ℕ) (x : Worker) :
    (p.put w x).loops = p.loops := rfl

@[simp] theorem put_owner (p : EventLoopPool) (w : ℕ) (x : Worker) :
    (p.put w x).owner = p.owner := rfl

theorem getElem?_put (hx : p.threads[w]? = some x) (v : ℕ) :
    (p.put w y).threads[v]? = if v = w then some y else p.threads[v]? := by
  have hw := (List.getElem?_eq_some_iff.mp hx).1
  simp only [put, List.getElem?_set, hw, if_true]
  exact if_congr eq_comm rfl rfl

theorem put_registered (hx : p.threads[w]? = some x) (v : ℕ) :
    (p.put w y).Registered v ↔ if v = w then y.pc.registered = true else p.Registered v := by
  unfold Registered
  rw [getElem?_put hx]
  split_ifs with h
  · simp
  · rfl

theorem put_registered_of_eq (hx : p.threads[w]? = some x)
    (hpc : y.pc.registered = x.pc.registered) (v : ℕ) :
    (p.put w y).Registered v ↔ p.Registered v := by
  rw [put_registered hx]
  split_ifs with h
  · subst h
    rw [hpc]
    simp [Registered, hx]
  · rfl

/-- A worker registers its loop, or only its own record changes. -/
theorem threadFunc_next (h : p.threadFunc w x = .next q) :
    (x.pc = .register ∧ q = (p.register w).put w { x with pc := .assertIdle }) ∨
      ∃ y, q = p.put w y ∧ y.pc.registered = x.pc.registered := by
  unfold threadFunc at h
  cases hpc : x.pc <;> rw [hpc] at h <;>
    simp only [Outcome.bind_eq_next, Outcome.deref_eq_next, Outcome.check_eq_next,
      Outcome.pure_eq, Outcome.next.injEq, reduceCtorEq] at h
  case construct => exact .inr ⟨_, h.symm, rfl⟩
  case register => exact .inl ⟨rfl, h.symm⟩
  case assertIdle =>
    obtain ⟨e, -, -, -, h⟩ := h
    exact .inr ⟨_, h.symm, rfl⟩
  case setLooping =>
    obtain ⟨e, -, h⟩ := h
    exact .inr ⟨_, h.symm, rfl⟩
  case expectReading =>
    obtain ⟨e, -, event, -, h⟩ := h
    exact .inr ⟨_, h.symm, rfl⟩
  case running =>
    obtain ⟨e, -, h⟩ := h
    refine .inr ⟨_, h.symm, ?_⟩
    cases e.looping <;> rfl
  case leaving =>
    obtain ⟨e, -, e', -, h⟩ := h
    exact .inr ⟨_, h.symm, rfl⟩

/-- What most steps leave alone. -/
structure Keeps (p q : EventLoopPool) : Prop where
  loops : q.loops = p.loops
  threadNums : q.threadNums = p.threadNums
  next : q.next = p.next
  assigned : q.assigned = p.assigned
  length : q.threads.length = p.threads.length
  registered : ∀ w, q.Registered w ↔ p.Registered w

theorem Keeps.put (hx : p.threads[w]? = some x) (hpc : y.pc.registered = x.pc.registered) :
    Keeps p (p.put w y) :=
  ⟨rfl, rfl, rfl, rfl, List.length_set .., put_registered_of_eq hx hpc⟩

/-- A step with an eye on who is registered and what `getNextLoop` returns. -/
inductive Move (p : EventLoopPool) : EventLoopPool → Prop
  | create (hp : p.owner = .creating) (hlt : p.threads.length < p.threadNums) :
    Move p { p with threads := p.threads ++ [{}] }
  | created (hp : p.owner = .creating) (hle : p.threadNums ≤ p.threads.length) :
    Move p { p with owner := .testing }
  | test (hp : p.owner = .testing) :
    Move p { p with owner := if p.loops.length = p.threadNums then .started else .waiting }
  | register {w : ℕ} {x : Worker} (hx : p.threads[w]? = some x) (hpc : x.pc = .register) :
    Move p ((p.register w).put w { x with pc := .assertIdle })
  | getNextLoop {next : ℕ} (hp : p.owner = .started)
    (hnext : p.loops ≠ [] → next = if p.loops.length ≤ p.next + 1 then 0 else p.next + 1) :
    Move p { p with next := next, assigned := p.assigned ++ [p.loops[p.next]?] }
  | frame {q : EventLoopPool} (hkeeps : Keeps p q)
    (howner : q.owner = p.owner ∨ p.owner = .waiting ∧ q.owner = .testing ∨
      p.owner.returned = true ∧ q.owner.returned = true) : Move p q

theorem getNextLoop_next {loop : Option ℕ} (h : p.getNextLoop = .next (loop, q)) :
    loop = p.loops[p.next]? ∧ ∃ next, q = { p with next := next } ∧
      (p.loops ≠ [] → next = if p.loops.length ≤ p.next + 1 then 0 else p.next + 1) := by
  unfold getNextLoop at h
  by_cases hempty : p.loops = []
  · rw [if_pos hempty] at h
    cases h
    exact ⟨by simp [hempty], _, rfl, fun hne => absurd hempty hne⟩
  · rw [if_neg hempty] at h
    simp only [Outcome.bind_eq_next, Outcome.deref_eq_next, Outcome.pure_eq, Outcome.next.injEq,
      Prod.mk.injEq] at h
    obtain ⟨w, hw, rfl, rfl⟩ := h
    exact ⟨hw.symm, _, rfl, fun _ => rfl⟩

theorem stopLoop_move {i : ℕ} {pc : StopPc} (hp : p.owner = .stopping i pc)
    (h : p.stopLoop i w pc = .next q) : Move p q := by
  have hreturned : p.owner.returned = true := by rw [hp]; rfl
  simp only [stopLoop, Outcome.bind_eq_next, Outcome.deref_eq_next] at h
  obtain ⟨x, hx, e, -, h⟩ := h
  cases pc with
  | check =>
    simp only [Outcome.bind_eq_next, Outcome.check_eq_next, Outcome.pure_eq, Outcome.next.injEq] at h
    obtain ⟨-, -, rfl⟩ := h
    exact .frame ⟨rfl, rfl, rfl, rfl, rfl, fun _ => Iff.rfl⟩ (.inr (.inr ⟨hreturned, rfl⟩))
  | clear =>
    cases h
    have hkeeps : Keeps p (p.put w { x with loop := some { e with looping := false } }) :=
      .put hx rfl
    exact .frame ⟨rfl, rfl, rfl, rfl, hkeeps.length, hkeeps.registered⟩
      (.inr (.inr ⟨hreturned, rfl⟩))
  | ask =>
    cases h
    exact .frame ⟨rfl, rfl, rfl, rfl, rfl, fun _ => Iff.rfl⟩ (.inr (.inr ⟨hreturned, rfl⟩))
  | wake =>
    cases h
    exact .frame ⟨rfl, rfl, rfl, rfl, rfl, fun _ => Iff.rfl⟩ (.inr (.inr ⟨hreturned, rfl⟩))

theorem step_move (h : step p l = .next q) : Move p q := by
  have same : ∀ owner, p.owner.returned = true → owner.returned = true →
      Move p { p with owner := owner } := fun owner hp hq =>
    .frame ⟨rfl, rfl, rfl, rfl, rfl, fun _ => Iff.rfl⟩ (.inr (.inr ⟨hp, hq⟩))
  cases l with
  | create =>
    simp only [step, Outcome.bind_eq_next, Outcome.require_eq_next, Outcome.pure_eq] at h
    obtain ⟨-, hp, h⟩ := h
    split_ifs at h with hlt
    · cases h
      exact .create hp hlt
    · cases h
      exact .created hp (Nat.le_of_not_lt hlt)
  | test =>
    simp only [step, Outcome.bind_eq_next, Outcome.require_eq_next, Outcome.pure_eq,
      Outcome.next.injEq] at h
    obtain ⟨-, hp, rfl⟩ := h
    exact .test hp
  | wake =>
    simp only [step, Outcome.bind_eq_next, Outcome.require_eq_next, Outcome.pure_eq,
      Outcome.next.injEq] at h
    obtain ⟨-, hp, rfl⟩ := h
    exact .frame ⟨rfl, rfl, rfl, rfl, rfl, fun _ => Iff.rfl⟩ (.inr (.inl ⟨hp, rfl⟩))
  | getNextLoop =>
    simp only [step, Outcome.bind_eq_next, Outcome.require_eq_next, Outcome.pure_eq,
      Outcome.next.injEq] at h
    obtain ⟨-, hp, ⟨loop, p'⟩, hnext, rfl⟩ := h
    obtain ⟨rfl, next, rfl, hmoved⟩ := getNextLoop_next hnext
    exact .getNextLoop hp hmoved
  | destroy =>
    simp only [step, Outcome.bind_eq_next, Outcome.require_eq_next, Outcome.pure_eq,
      Outcome.next.injEq] at h
    obtain ⟨-, hp, rfl⟩ := h
    exact same _ (by rw [hp]; rfl) rfl
  | stop =>
    simp only [step] at h
    split at h
    · rename_i i pc hp
      split at h
      · exact stopLoop_move hp h
      · cases h
        exact same _ (by rw [hp]; rfl) rfl
    · cases h
  | join =>
    simp only [step] at h
    split at h
    · rename_i i hp
      split at h
      · simp only [Outcome.bind_eq_next, Outcome.require_eq_next, Outcome.pure_eq,
          Outcome.next.injEq] at h
        obtain ⟨-, -, rfl⟩ := h
        exact same _ (by rw [hp]; rfl) rfl
      · cases h
        exact same _ (by rw [hp]; rfl) rfl
    · cases h
  | work w =>
    simp only [step] at h
    split at h
    · rename_i x hx
      rcases threadFunc_next h with ⟨hpc, rfl⟩ | ⟨y, rfl, hpc⟩
      · exact .register hx hpc
      · exact .frame (.put hx hpc) (.inl rfl)
    · cases h

/-- The invariant of the registration. -/
structure Enrolled (p : EventLoopPool) : Prop where
  nodup : p.loops.Nodup
  mem_iff : ∀ w, w ∈ p.loops ↔ p.Registered w
  length_le : p.threads.length ≤ p.threadNums
  made : p.owner ≠ .creating → p.threads.length = p.threadNums
  full : p.owner.returned = true → p.loops.length = p.threadNums
  waits : p.owner = .waiting → p.loops.length < p.threadNums

theorem Registered.lt (h : p.Registered w) : w < p.threads.length := by
  obtain ⟨x, hx, -⟩ := h
  exact (List.getElem?_eq_some_iff.mp hx).1

theorem Enrolled.subset (h : Enrolled p) : p.loops ⊆ List.range p.threads.length := by
  intro w hw
  exact List.mem_range.mpr ((h.mem_iff w).mp hw).lt

theorem Enrolled.loops_le (h : Enrolled p) : p.loops.length ≤ p.threads.length := by
  simpa using (List.subperm_of_subset h.nodup h.subset).length_le

/-- Behind `start`, `loops_` holds the loop of every worker once. -/
theorem Enrolled.perm (h : Enrolled p) (hp : p.owner.returned = true) :
    p.loops.Perm (List.range p.threadNums) := by
  have hlength : p.threads.length = p.threadNums := h.made (by rintro he; rw [he] at hp; cases hp)
  have hsubset := h.subset
  rw [hlength] at hsubset
  refine (List.subperm_of_subset h.nodup hsubset).perm_of_length_le ?_
  rw [List.length_range, h.full hp]

/-- Behind `start`, no worker is still to register. -/
theorem Enrolled.ne_register (h : Enrolled p) (hp : p.owner.returned = true)
    (hx : p.threads[w]? = some x) : x.pc ≠ .register := by
  intro hpc
  have hw : w < p.threadNums := Nat.lt_of_lt_of_le (List.getElem?_eq_some_iff.mp hx).1 h.length_le
  obtain ⟨x', hx', hpc'⟩ := (h.mem_iff w).mp ((h.perm hp).mem_iff.mpr (List.mem_range.mpr hw))
  rw [hx] at hx'
  cases hx'
  rw [hpc] at hpc'
  cases hpc'

theorem Enrolled.construct (etMode : Bool) (n : ℕ) :
    Enrolled ((construct etMode).setThreadNum n) where
  nodup := List.nodup_nil
  mem_iff := fun w => by simp [EventLoopPool.construct, setThreadNum, Registered]
  length_le := Nat.zero_le n
  made := fun h => absurd rfl h
  full := (fun h => nomatch h)
  waits := (fun h => nomatch h)

theorem Enrolled.keeps (h : Enrolled p) (hkeeps : Keeps p q)
    (howner : q.owner = p.owner ∨ p.owner = .waiting ∧ q.owner = .testing ∨
      p.owner.returned = true ∧ q.owner.returned = true) : Enrolled q := by
  obtain ⟨hloops, hnums, -, -, hlength, hreg⟩ := hkeeps
  refine ⟨by rw [hloops]; exact h.nodup, fun w => by rw [hloops, hreg, h.mem_iff],
    by rw [hlength, hnums]; exact h.length_le, ?_, ?_, ?_⟩ <;> rw [hnums]
  · intro hq
    rw [hlength]
    refine h.made fun hp => ?_
    rcases howner with he | ⟨hw, -⟩ | ⟨hr, -⟩
    · exact hq (he.trans hp)
    · rw [hp] at hw
      cases hw
    · rw [hp] at hr
      cases hr
  · intro hq
    rw [hloops]
    rcases howner with he | ⟨-, ht⟩ | ⟨hr, -⟩
    · exact h.full (he ▸ hq)
    · rw [ht] at hq
      cases hq
    · exact h.full hr
  · intro hq
    rw [hloops]
    rcases howner with he | ⟨-, ht⟩ | ⟨-, hr⟩
    · exact h.waits (he ▸ hq)
    · rw [ht] at hq
      cases hq
    · rw [hq] at hr
      cases hr

theorem Enrolled.register (h : Enrolled p) (hx : p.threads[w]? = some x)
    (hpc : x.pc = .register) :
    Enrolled ((p.register w).put w { x with pc := .assertIdle }) := by
  have hout : w ∉ p.loops := by
    rw [h.mem_iff]
    rintro ⟨x', hx', hpc'⟩
    rw [hx] at hx'
    cases hx'
    rw [hpc] at hpc'
    cases hpc'
  refine ⟨?_, fun v => ?_, ?_, fun hq => ?_, fun hq => ?_, fun hq => ?_⟩
  · exact List.nodup_append.mpr ⟨h.nodup, List.nodup_singleton w,
      fun v hv u hu => by rw [List.mem_singleton.mp hu]; rintro rfl; exact hout hv⟩
  · have hput := put_registered (y := { x with pc := .assertIdle }) (p := p.register w) hx v
    rw [hput]
    split_ifs with hv
    · subst hv
      simp [EventLoopPool.register, WorkerPc.registered]
    · have hmem : v ∈ (p.register w).loops ↔ v ∈ p.loops := by simp [EventLoopPool.register, hv]
      exact hmem.trans (h.mem_iff v)
  · simpa [put, EventLoopPool.register] using h.length_le
  · have hp : p.owner ≠ .creating := by
      rintro hp
      simp [EventLoopPool.register, hp] at hq
    simpa [put, EventLoopPool.register] using h.made hp
  · have hp : p.owner.returned = true := by
      by_cases hw : p.owner = .waiting
      · simp [EventLoopPool.register, hw, OwnerPc.returned] at hq
      · simpa [EventLoopPool.register, hw] using hq
    exact absurd hpc (h.ne_register hp hx)
  · by_cases hw : p.owner = .waiting
    · simp [EventLoopPool.register, hw] at hq
    · simp [EventLoopPool.register, hw] at hq

theorem create_registered (v : ℕ) :
    ({ p with threads := p.threads ++ [{}] } : EventLoopPool).Registered v ↔ p.Registered v := by
  unfold Registered
  by_cases hv : v < p.threads.length
  · simp only [List.getElem?_append_left hv]
  · constructor
    · rintro ⟨x, hx, hpc⟩
      have hnew : x = {} := by
        simp only [List.getElem?_append_right (Nat.le_of_not_lt hv)] at hx
        exact List.mem_singleton.mp (List.mem_of_getElem? hx)
      rw [hnew] at hpc
      cases hpc
    · rintro ⟨x, hx, -⟩
      exact absurd (List.getElem?_eq_some_iff.mp hx).1 hv

theorem Enrolled.move (h : Enrolled p) (hm : Move p q) : Enrolled q := by
  cases hm with
  | create hp hlt =>
    refine ⟨h.nodup, fun w => ?_, ?_, fun hne => absurd hp hne, ?_, ?_⟩
    · exact (h.mem_iff w).trans (create_registered w).symm
    · simpa using hlt
    · rw [hp]
      exact (fun hq => nomatch hq)
    · rw [hp]
      exact (fun hq => nomatch hq)
  | created hp hle =>
    exact ⟨h.nodup, h.mem_iff, h.length_le, fun _ => Nat.le_antisymm h.length_le hle,
      (fun hq => nomatch hq), (fun hq => nomatch hq)⟩
  | test hp =>
    refine ⟨h.nodup, h.mem_iff, h.length_le, fun _ => h.made (by rw [hp]; simp), ?_, ?_⟩
    · split_ifs with heq
      · exact fun _ => heq
      · exact (fun hq => nomatch hq)
    · split_ifs with heq
      · exact (fun hq => nomatch hq)
      · intro _
        exact Nat.lt_of_le_of_ne (h.loops_le.trans h.length_le) heq
  | register hx hpc => exact h.register hx hpc
  | getNextLoop hp hnext =>
    exact ⟨h.nodup, h.mem_iff, h.length_le, h.made, h.full, h.waits⟩
  | frame hkeeps howner => exact h.keeps hkeeps howner

/-- The invariant of `getNextLoop`. -/
structure Dealt (p : EventLoopPool) : Prop where
  early : p.owner.returned = false → p.assigned = [] ∧ p.next = 0
  next_eq : p.loops ≠ [] → p.next = p.assigned.length % p.loops.length
  assigned_eq : p.assigned = RoundRobin.deal p.loops p.assigned.length

theorem Dealt.of_early (ha : q.assigned = []) (hn : q.next = 0) : Dealt q where
  early := fun _ => ⟨ha, hn⟩
  next_eq := fun _ => by rw [hn, ha, List.length_nil, Nat.zero_mod]
  assigned_eq := by rw [ha]; rfl

theorem Dealt.construct (etMode : Bool) (n : ℕ) : Dealt ((construct etMode).setThreadNum n) :=
  .of_early rfl rfl

theorem Dealt.frame (h : Dealt p) (hloops : q.loops = p.loops) (hnext : q.next = p.next)
    (hassigned : q.assigned = p.assigned)
    (howner : q.owner.returned = false → p.owner.returned = false) : Dealt q := by
  refine ⟨fun hq => ?_, ?_, ?_⟩
  · rw [hassigned, hnext]
    exact h.early (howner hq)
  · rw [hassigned, hnext, hloops]
    exact h.next_eq
  · rw [hassigned, hloops]
    exact h.assigned_eq

theorem Dealt.move (h : Dealt p) (he : Enrolled p) (hm : Move p q) : Dealt q := by
  cases hm with
  | create hp hlt => exact h.frame rfl rfl rfl id
  | created hp hle => exact h.frame rfl rfl rfl fun _ => by rw [hp]; rfl
  | test hp => exact h.frame rfl rfl rfl fun _ => by rw [hp]; rfl
  | @register w x hx hpc =>
    have hp : p.owner.returned = false := by
      by_contra hp
      exact he.ne_register (by simpa using hp) hx hpc
    obtain ⟨ha, hn⟩ := h.early hp
    exact .of_early ha hn
  | getNextLoop hp hnext =>
    refine ⟨?_, fun hne => ?_, ?_⟩
    · rw [hp]
      exact (fun hq => nomatch hq)
    · rw [hnext hne, h.next_eq hne, List.length_append, List.length_singleton,
        RoundRobin.succ_mod_eq (List.length_pos_iff.mpr hne)]
    · rw [List.length_append, List.length_singleton, RoundRobin.deal_succ, ← h.assigned_eq]
      by_cases hne : p.loops = []
      · simp [hne]
      · rw [h.next_eq hne]
  | frame hkeeps howner =>
    refine h.frame hkeeps.loops hkeeps.next hkeeps.assigned fun hq => ?_
    rcases howner with he | ⟨hw, -⟩ | ⟨-, hr⟩
    · rwa [he] at hq
    · rw [hw]
      rfl
    · rw [hr] at hq
      cases hq

/-- Behind `start`, the registration is final. -/
theorem Enrolled.final (h : Enrolled p) (hp : p.owner.returned = true) (hm : Move p q) :
    q.loops = p.loops ∧ q.owner.returned = true ∧ q.threadNums = p.threadNums := by
  cases hm with
  | create hc hlt => rw [hc] at hp; cases hp
  | created hc hle => rw [hc] at hp; cases hp
  | test hc => rw [hc] at hp; cases hp
  | register hx hpc => exact absurd hpc (h.ne_register hp hx)
  | getNextLoop hc hnext => exact ⟨rfl, hp, rfl⟩
  | frame hkeeps howner =>
    refine ⟨hkeeps.loops, ?_, hkeeps.threadNums⟩
    rcases howner with he | ⟨hw, -⟩ | ⟨-, hr⟩
    · rw [he, hp]
    · rw [hw] at hp
      cases hp
    · exact hr

theorem step_threadNums (hm : Move p q) : q.threadNums = p.threadNums := by
  cases hm with
  | frame hkeeps howner => exact hkeeps.threadNums
  | _ => rfl

/-- What holds of every state of a pool of `n` workers. -/
structure Reaches (n : ℕ) (p : EventLoopPool) : Prop where
  enrolled : Enrolled p
  dealt : Dealt p
  threadNums : p.threadNums = n

theorem Reaches.step (h : Reaches n p) (hs : p.step l = .next q) : Reaches n q := by
  have hm := step_move hs
  exact ⟨h.enrolled.move hm, h.dealt.move h.enrolled hm, (step_threadNums hm).trans h.threadNums⟩

theorem reaches {etMode : Bool} {ls : List OwnerLabel}
    (h : run step ((construct etMode).setThreadNum n) ls = .next p) : Reaches n p :=
  run_invariant (fun _ _ _ h hs => h.step hs)
    ⟨.construct etMode n, .construct etMode n, rfl⟩ h

/-- `getNextLoop` stays inside `loops_`. -/
theorem Dealt.getNextLoop_raises (h : Dealt p) (P : PoolFault → Prop) :
    p.getNextLoop.Raises P := by
  unfold getNextLoop
  by_cases hempty : p.loops = []
  · simp [hempty]
  · have hlt : p.next < p.loops.length := by
      rw [h.next_eq hempty]
      exact Nat.mod_lt _ (List.length_pos_iff.mpr hempty)
    simp [hempty, List.getElem?_eq_getElem hlt]

theorem threadFunc_raises : (p.threadFunc w x).Raises (· ≠ .outOfRange) := by
  have hloop : ∀ {σ : Type} {o : Outcome Fault σ},
      (o.mapFault PoolFault.inLoop).Raises (· ≠ PoolFault.outOfRange) :=
    Outcome.raises_mapFault.mpr fun _ _ => by simp
  unfold threadFunc
  cases x.pc <;> simp [hloop]

theorem stopLoop_raises {i : ℕ} {pc : StopPc} : (p.stopLoop i w pc).Raises (· ≠ .outOfRange) := by
  unfold stopLoop
  cases pc <;> simp

theorem Dealt.step_raises (h : Dealt p) : (p.step l).Raises (· ≠ .outOfRange) := by
  cases l with
  | getNextLoop => simp [step, h.getNextLoop_raises (· ≠ .outOfRange)]
  | stop =>
    simp only [step]
    split
    · split
      · exact stopLoop_raises
      · simp
    · simp
  | join =>
    simp only [step]
    split
    · split <;> simp
    · simp
  | work w =>
    simp only [step]
    split
    · exact threadFunc_raises
    · simp
  | _ => simp [step]

/-- For every number of workers and every interleaving: once `start` has returned, `loops_` holds
the loop of each worker exactly once and never changes again; the `k`-th call of `getNextLoop`
returns `loops_[k mod n]`, no call indexes outside `loops_`, and no loop ever gets two connections
more than another. -/
theorem round_robin {etMode : Bool} (hn : 1 ≤ n) {ls : List OwnerLabel}
    (hp : run step ((construct etMode).setThreadNum n) ls = .next p)
    (hstart : p.owner.returned = true) :
    p.threads.length = n ∧ p.loops.Perm (List.range n) ∧ ∀ ms, run step p ms ≠ .fault .outOfRange ∧
      ∀ q, run step p ms = .next q → q.loops = p.loops ∧
        (∀ k < q.assigned.length, ∃ w, p.loops[k % n]? = some w ∧ q.assigned[k]? = some (some w)) ∧
        ∀ w ∈ p.loops, ∀ v ∈ p.loops,
          q.assigned.count (some w) ≤ q.assigned.count (some v) + 1 := by
  have hreach := reaches hp
  have hperm : p.loops.Perm (List.range n) := by
    simpa [hreach.threadNums] using hreach.enrolled.perm hstart
  have hlength : p.loops.length = n := by simpa using hperm.length_eq
  have hthreads : p.threads.length = n := by
    rw [← hreach.threadNums]
    refine hreach.enrolled.made fun hc => ?_
    rw [hc] at hstart
    cases hstart
  refine ⟨hthreads, hperm, fun ms => ⟨?_, fun q hq => ?_⟩⟩
  · exact run_ne_fault (fun _ _ _ h hs => h.step hs)
      (fun s l (h : Reaches n s) hf => h.dealt.step_raises _ hf rfl) hreach
  · have hfinal : (Reaches n q ∧ q.owner.returned = true) ∧ q.loops = p.loops := by
      refine run_invariant (I := fun s => (Reaches n s ∧ s.owner.returned = true) ∧ s.loops = p.loops)
        (fun s l t ⟨⟨hs, ho⟩, hl⟩ hstep => ?_) ⟨⟨hreach, hstart⟩, rfl⟩ hq
      obtain ⟨hloops, hreturned, -⟩ := hs.enrolled.final ho (step_move hstep)
      exact ⟨⟨hs.step hstep, hreturned⟩, hloops.trans hl⟩
    obtain ⟨⟨hreachq, -⟩, hloops⟩ := hfinal
    have hassigned := hreachq.dealt.assigned_eq
    rw [hloops] at hassigned
    refine ⟨hloops, fun k hk => ?_, fun w hw v hv => ?_⟩
    · have hlt : k % n < p.loops.length := by
        rw [hlength]
        exact Nat.mod_lt k hn
      refine ⟨p.loops[k % n], List.getElem?_eq_getElem hlt, ?_⟩
      rw [hassigned, RoundRobin.getElem?_deal hk, hlength, List.getElem?_eq_getElem hlt]
    · rw [hassigned]
      exact RoundRobin.deal_balanced hreach.enrolled.nodup hw hv q.assigned.length

/-- Two workers of which the second registers first, and three calls of `getNextLoop`. -/
theorem round_robin_two : ∃ p q : EventLoopPool, p.loops = [1, 0] ∧
    q.assigned = [some 1, some 0, some 1] ∧
    p.loops.Perm (List.range 2) ∧
    ∀ k < q.assigned.length, ∃ w, p.loops[k % 2]? = some w ∧ q.assigned[k]? = some (some w) := by
  obtain ⟨p, hp, hc⟩ := Outcome.yields_eq_true.mp (show
    (run step ((construct false).setThreadNum 2) [.create, .create, .work 0, .work 1, .create, .test,
      .work 1, .test, .work 0, .test]).yields (fun p =>
        decide (p.owner.returned = true ∧ p.loops = [1, 0] ∧
          (run step p [.getNextLoop, .getNextLoop, .getNextLoop]).yields (fun q =>
            decide (q.assigned = [some 1, some 0, some 1])) = true)) = true by
    decide +kernel)
  obtain ⟨hstart, hloops, hc⟩ := of_decide_eq_true hc
  obtain ⟨q, hq, hassigned⟩ := Outcome.yields_eq_true.mp hc
  obtain ⟨-, hperm, h⟩ := round_robin (by decide) hp hstart
  obtain ⟨-, h⟩ := h [.getNextLoop, .getNextLoop, .getNextLoop]
  exact ⟨p, q, hloops, of_decide_eq_true hassigned, hperm, (h q hq).2.1⟩

end EventLoopPool
end Potato
