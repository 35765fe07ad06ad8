import Potato.ConnectionPool
import Potato.TestAndSet

/-!
# The pool behind its spin lock

The same pool, one access at a time: a thread tries the flag of the `SpinLock`, reads
the set of indices, writes it back. Nothing but the lock keeps the accesses of two
threads apart.
-/
namespace Potato
open Machine TestAndSet

/-- Where a thread is in `borrowConnection`, `newConnection` or `returnConnection`. -/
inductive PoolPlace where
  | outside
  /-- at the first guard -/
  | lockRefill
  | testAgain
  /-- in round `i` of the loop, in front of `emplace_back` -/
  | emplace (i index : ℕ)
  /-- in round `i`, in front of `insert` -/
  | insert (i index : ℕ)
  | inserted (i index : ℕ) (seen : Finset ℕ)
  | unlockRefill
  /-- at the second guard -/
  | lockTake
  | begin
  | erase (index : ℕ) (seen : Finset ℕ)
  | unlockTake (index : ℕ)
  /-- in the rest of `newConnection` -/
  | bind (index : ℕ)
  /-- at the guard of `returnConnection` -/
  | lockReturn (index : ℕ)
  | giveBack (index : ℕ)
  | givenBack (index : ℕ) (seen : Finset ℕ)
  | unlockReturn (index : ℕ)
  deriving DecidableEq

namespace PoolPlace

/-- Behind a `lock()` and in front of its `unlock()`. -/
def inside : PoolPlace → Bool
  | testAgain | emplace .. | insert .. | inserted .. | unlockRefill => true
  | begin | erase .. | unlockTake _ => true
  | giveBack _ | givenBack .. | unlockReturn _ => true
  | outside | lockRefill | lockTake | bind _ | lockReturn _ => false

/-- What the thread has read of the set. -/
def seen : PoolPlace → Option (Finset ℕ)
  | inserted _ _ seen | erase _ seen | givenBack _ seen => some seen
  | _ => none

/-- The place behind a `lock()`. -/
def lockTo : PoolPlace → Option PoolPlace
  | lockRefill => some testAgain
  | lockTake => some begin
  | lockReturn index => some (giveBack index)
  | _ => none

/-- The place behind an `unlock()`. -/
def unlockTo : PoolPlace → Option PoolPlace
  | unlockRefill => some lockTake
  | unlockTake index => some (bind index)
  | unlockReturn _ => some outside
  | _ => none

/-- The thread is in `newConnection`. -/
def borrows : PoolPlace → Bool
  | outside | lockReturn _ | giveBack _ | givenBack .. | unlockReturn _ => false
  | _ => true

/-- The index that the thread is still to put back. -/
def returns : PoolPlace → Option ℕ
  | lockReturn index | giveBack index | givenBack index _ => some index
  | _ => none

/-- The steps that the thread takes inside before `unlock()` is done, at most. -/
def due : PoolPlace → ℕ
  | testAgain => 3 * ConnectionPool.slots + 2
  | emplace i _ => 3 * (ConnectionPool.slots - i) + 1
  | insert i _ => 3 * (ConnectionPool.slots - i)
  | inserted i .. => 3 * (ConnectionPool.slots - i) - 1
  | begin | giveBack _ => 3
  | erase .. | givenBack .. => 2
  | unlockRefill | unlockTake _ | unlockReturn _ => 1
  | outside | lockRefill | lockTake | bind _ | lockReturn _ => 0

/-- The loop that makes connections will count beyond `int`. -/
def overflows : PoolPlace → Bool
  | emplace i index | insert i index | inserted i index _ =>
    decide (ConnectionPool.intMax + i < index + ConnectionPool.slots)
  | _ => false

/-- The place between critical sections. A refill counts once the second test has found the set
empty, the erase and the insert when the set is written. -/
def pc : PoolPlace → MainPc
  | lockRefill | testAgain => .refill
  | emplace .. | insert .. | inserted .. | unlockRefill | lockTake | begin | erase .. => .take
  | unlockTake index | bind index => .bind index
  | outside | lockReturn _ | giveBack _ | givenBack .. | unlockReturn _ => .idle

/-- The connections that the loop is still to make. -/
def unmade : PoolPlace → List ℕ
  | emplace i index => List.range' index (ConnectionPool.slots - i)
  | insert i index | inserted i index _ =>
    List.range' (index + 1) (ConnectionPool.slots - (i + 1))
  | _ => []

/-- The indices that the loop is still to insert. -/
def missing : PoolPlace → List ℕ
  | emplace i index | insert i index | inserted i index _ =>
    List.range' index (ConnectionPool.slots - i)
  | _ => []

end PoolPlace

/-- A `TcpServer` with its threads, the main thread being `none`. -/
structure SpinPool where
  /-- the flag of `lock_` -/
  flag : Bool := false
  connectionPool : List Session
  availIndex : Finset ℕ
  place : Option ℕ → PoolPlace := fun _ => .outside

inductive SpinLabel where
  /-- `newConnection` is called and tests the set, without the lock. -/
  | accept
  /-- A thread goes on, `begin()` giving `first`. -/
  | go (thread : Option ℕ) (first : ℕ)
  /-- A thread runs code of the loop of a connection. -/
  | work (thread : Option ℕ) (index : ℕ) (l : Label)
  deriving DecidableEq, Repr

namespace SpinPool
open ConnectionPool (slots intMax Resets bindSlot)

def start : SpinPool where
  connectionPool := ConnectionPool.start.connectionPool
  availIndex := ConnectionPool.start.availIndex

def moveTo (f : SpinPool) (thread : Option ℕ) (place : PoolPlace) : SpinPool :=
  { f with place := Function.update f.place thread place }

/-- One round of `SpinLock::lock`: `test_and_set`, and the way out of the loop if it was clear. -/
def lock (f : SpinPool) (thread : Option ℕ) (behind : PoolPlace) : SpinPool :=
  if f.flag then f else { f.moveTo thread behind with flag := true }

/-- `SpinLock::unlock`. -/
def unlock (f : SpinPool) (thread : Option ℕ) (behind : PoolPlace) : SpinPool :=
  { f.moveTo thread behind with flag := false }

/-- The write of the set, and what comes behind it. -/
def store (f : SpinPool) (thread : Option ℕ) (availIndex : Finset ℕ) (behind : PoolPlace) : SpinPool :=
  { f.moveTo thread behind with availIndex := availIndex }

/-- The next access of a thread. -/
def go (srv : TcpServer) (f : SpinPool) (thread : Option ℕ) (first : ℕ) :
    Outcome Fault SpinPool :=
  match f.place thread with
  | .outside => .refused
  | .lockRefill => return f.lock thread .testAgain
  | .testAgain =>
    if f.availIndex = ∅ then return f.moveTo thread (.emplace 0 f.connectionPool.length)
    else return f.moveTo thread .unlockRefill
  | .emplace i index =>
    return { f.moveTo thread (.insert i index) with
      connectionPool := f.connectionPool ++ [Session.start index] }
  | .insert i index => return f.moveTo thread (.inserted i index f.availIndex)
  | .inserted i index seen => do
    -- `++i` and `++index`
    Outcome.check (index + 1 ≤ intMax) .intOverflow
    return f.store thread (insert index seen)
      (if i + 1 < slots then .emplace (i + 1) (index + 1) else .unlockRefill)
  | .unlockRefill => return f.unlock thread .lockTake
  | .lockTake => return f.lock thread .begin
  | .begin => do
    Outcome.check (f.availIndex ≠ ∅) .emptyPool
    Outcome.require (first ∈ f.availIndex)
    return f.moveTo thread (.erase first f.availIndex)
  | .erase index seen => return f.store thread (seen.erase index) (.unlockTake index)
  | .unlockTake index => return f.unlock thread (.bind index)
  | .bind index => do
    let s ← Outcome.deref f.connectionPool[index]? .outOfRange
    let s ← bindSlot srv s
    return { f.moveTo thread .outside with connectionPool := f.connectionPool.set index s }
  | .lockReturn index => return f.lock thread (.giveBack index)
  | .giveBack index => return f.moveTo thread (.givenBack index f.availIndex)
  | .givenBack index seen => return f.store thread (insert index seen) (.unlockReturn index)
  | .unlockReturn _ => return f.unlock thread .outside

def step (srv : TcpServer) (f : SpinPool) : SpinLabel → Outcome Fault SpinPool
  | .accept => do
    Outcome.require (f.place none = .outside)
    return f.moveTo none (if f.availIndex = ∅ then .lockRefill else .lockTake)
  | .go thread first => f.go srv thread first
  | .work thread index l =>
    match f.connectionPool[index]? with
    | none => .refused
    | some s => do
      Outcome.require (f.place thread = .outside ∧ l ≠ .accept)
      let t ← Session.step srv s l
      return { f.moveTo thread (if Resets s l then .lockReturn s.conn.index else .outside) with
        connectionPool := f.connectionPool.set index t }

variable {srv : TcpServer} {f g : SpinPool} {p q : ConnectionPool} {thread : Option ℕ}
  {first : ℕ} {place : PoolPlace}

@[simp] theorem moveTo_self (f : SpinPool) (thread : Option ℕ) (place : PoolPlace) :
    (f.moveTo thread place).place thread = place := Function.update_self ..

@[simp] theorem store_self (f : SpinPool) (thread : Option ℕ) (availIndex : Finset ℕ)
    (place : PoolPlace) : (f.store thread availIndex place).place thread = place :=
  Function.update_self ..

/-- What an access does, by the place of the thread. -/
inductive Access (srv : TcpServer) (f : SpinPool) (thread : Option ℕ) (first : ℕ) :
    PoolPlace → SpinPool → Prop where
  | locks {place behind} (hto : place.lockTo = some behind) (free : f.flag = false) :
      Access srv f thread first place { f.moveTo thread behind with flag := true }
  | tries {place behind} (hto : place.lockTo = some behind) (busy : f.flag = true) :
      Access srv f thread first place f
  | unlocks {place behind} (hto : place.unlockTo = some behind) :
      Access srv f thread first place (f.unlock thread behind)
  | empty (he : f.availIndex = ∅) :
      Access srv f thread first .testAgain (f.moveTo thread (.emplace 0 f.connectionPool.length))
  | filled (he : f.availIndex ≠ ∅) :
      Access srv f thread first .testAgain (f.moveTo thread .unlockRefill)
  | emplace {i index} : Access srv f thread first (.emplace i index)
      { f.moveTo thread (.insert i index) with
        connectionPool := f.connectionPool ++ [Session.start index] }
  | insert {i index} : Access srv f thread first (.insert i index)
      (f.moveTo thread (.inserted i index f.availIndex))
  | inserted {i index seen} (hint : index + 1 ≤ intMax) :
      Access srv f thread first (.inserted i index seen)
        (f.store thread (insert index seen)
          (if i + 1 < slots then .emplace (i + 1) (index + 1) else .unlockRefill))
  | begin (hfirst : first ∈ f.availIndex) : Access srv f thread first .begin
      (f.moveTo thread (.erase first f.availIndex))
  | erase {index seen} : Access srv f thread first (.erase index seen)
      (f.store thread (seen.erase index) (.unlockTake index))
  | bind {index s t} (hget : f.connectionPool[index]? = some s) (hbind : bindSlot srv s = .next t) :
      Access srv f thread first (.bind index)
        { f.moveTo thread .outside with connectionPool := f.connectionPool.set index t }
  | giveBack {index} : Access srv f thread first (.giveBack index)
      (f.moveTo thread (.givenBack index f.availIndex))
  | givenBack {index seen} : Access srv f thread first (.givenBack index seen)
      (f.store thread (insert index seen) (.unlockReturn index))

theorem lock_access {behind : PoolPlace} (hto : place.lockTo = some behind) :
    Access srv f thread first place (f.lock thread behind) := by
  unfold lock
  split_ifs with hflag
  · exact .tries hto hflag
  · exact .locks hto (by simpa using hflag)

theorem go_next (h : f.go srv thread first = .next g) :
    Access srv f thread first (f.place thread) g := by
  unfold go at h
  generalize f.place thread = place at h
  cases place with
  | outside => cases h
  | lockRefill | lockTake | lockReturn =>
    cases h
    exact lock_access rfl
  | unlockRefill | unlockTake | unlockReturn =>
    cases h
    exact .unlocks rfl
  | testAgain =>
    dsimp only at h
    split_ifs at h with he
    · cases h
      exact .empty he
    · cases h
      exact .filled he
  | emplace =>
    cases h
    exact .emplace
  | insert =>
    cases h
    exact .insert
  | inserted =>
    simp only [Outcome.bind_eq_next, Outcome.check_eq_next, Outcome.pure_eq,
      Outcome.next.injEq] at h
    obtain ⟨-, hint, rfl⟩ := h
    exact .inserted hint
  | begin =>
    simp only [Outcome.bind_eq_next, Outcome.check_eq_next, Outcome.require_eq_next,
      Outcome.pure_eq, Outcome.next.injEq] at h
    obtain ⟨-, -, -, hfirst, rfl⟩ := h
    exact .begin hfirst
  | erase =>
    cases h
    exact .erase
  | bind =>
    simp only [Outcome.bind_eq_next, Outcome.deref_eq_next, Outcome.pure_eq,
      Outcome.next.injEq] at h
    obtain ⟨s, hget, t, ht, rfl⟩ := h
    exact .bind hget ht
  | giveBack =>
    cases h
    exact .giveBack
  | givenBack =>
    cases h
    exact .givenBack

/-- What a thread has in hand: the counters of the loop, or an index of the set that it read. -/
def InHand (size : ℕ) : PoolPlace → Prop
  | .emplace i index => index = size ∧ i < slots
  | .insert i index | .inserted i index _ => index + 1 = size ∧ i < slots
  | .erase index seen => index ∈ seen
  | _ => True

theorem seen_inside {seen : Finset ℕ} (h : place.seen = some seen) : place.inside = true := by
  cases place with
  | inserted | erase | givenBack => rfl
  | _ => cases h

theorem inHand_of_not_borrows (size : ℕ) (h : place.borrows = false) : InHand size place := by
  cases place with
  | emplace | insert | inserted | erase => cases h
  | _ => trivial

theorem lockTo_inside {behind : PoolPlace} (h : place.lockTo = some behind) :
    place.inside = false ∧ behind.inside = true := by
  cases place <;> cases h <;> exact ⟨rfl, rfl⟩

theorem unlockTo_inside {behind : PoolPlace} (h : place.unlockTo = some behind) :
    place.inside = true ∧ behind.inside = false := by
  cases place <;> cases h <;> exact ⟨rfl, rfl⟩

/-- A way through a `lock()` or an `unlock()` with nothing in hand. -/
structure Passes (place behind : PoolPlace) : Prop where
  seen : behind.seen = none
  borrows : behind.borrows = place.borrows
  inHand : ∀ size, InHand size behind
  pc : behind.pc = place.pc
  unmade : behind.unmade = place.unmade
  missing : behind.missing = place.missing
  returns : behind.returns = place.returns

theorem passes {behind : PoolPlace}
    (h : place.lockTo = some behind ∨ place.unlockTo = some behind) : Passes place behind := by
  rcases h with h | h <;> cases place <;> cases h <;>
    exact ⟨rfl, rfl, fun _ => trivial, rfl, rfl, rfl, rfl⟩

/-- What the lock keeps. Only the main thread borrows. -/
structure Locked (f : SpinPool) : Prop where
  exclusive : Exclusive PoolPlace.inside f.flag f.place
  current : Current PoolPlace.seen f.availIndex f.place
  main : ∀ thread, (f.place thread).borrows = true → thread = none
  inHand : ∀ thread, InHand f.connectionPool.length (f.place thread)

theorem Locked.start : Locked start where
  exclusive := .start fun _ => rfl
  current := .start fun _ => rfl
  main := fun _ h => by cases h
  inHand := fun _ => trivial

/-- The rest of the invariant, when a thread has moved on in a pool of another size. -/
theorem Locked.moved (h : Locked f) (thread : Option ℕ) (place : PoolPlace) (size : ℕ)
    (hb : place.borrows = true → thread = none) (hc : InHand size place)
    (hsize : size = f.connectionPool.length ∨ thread = none) :
    (∀ t, (Function.update f.place thread place t).borrows = true → t = none) ∧
      ∀ t, InHand size (Function.update f.place thread place t) := by
  refine ⟨fun t ht => ?_, fun t => ?_⟩
  · by_cases he : t = thread
    · rw [he, Function.update_self] at ht
      rw [he, hb ht]
    · rw [Function.update_of_ne he] at ht
      exact h.main t ht
  · by_cases he : t = thread
    · rwa [he, Function.update_self]
    · rw [Function.update_of_ne he]
      rcases hsize with rfl | rfl
      · exact h.inHand t
      · refine inHand_of_not_borrows _ ?_
        by_contra hno
        exact he (h.main t (by simpa using hno))

/-- A move that neither takes the lock nor gives it back, and at most reads the set. -/
theorem Locked.moveTo (h : Locked f) (hinside : place.inside = (f.place thread).inside)
    (hseen : ∀ seen, place.seen = some seen → seen = f.availIndex)
    (hb : place.borrows = true → thread = none) (hc : InHand f.connectionPool.length place) :
    Locked (f.moveTo thread place) := by
  obtain ⟨hmain, hhand⟩ := h.moved thread place _ hb hc (.inl rfl)
  exact ⟨h.exclusive.move hinside, h.current.move hseen, hmain, hhand⟩

theorem Locked.store (h : Locked f) (hin : (f.place thread).inside = true)
    (hinside : place.inside = true) (hseen : place.seen = none)
    (hb : place.borrows = true → thread = none) (hc : InHand f.connectionPool.length place)
    (availIndex : Finset ℕ) : Locked (f.store thread availIndex place) := by
  obtain ⟨hmain, hhand⟩ := h.moved thread place _ hb hc (.inl rfl)
  exact ⟨h.exclusive.move (hinside.trans hin.symm),
    .write (fun _ _ => seen_inside) h.exclusive hin hseen, hmain, hhand⟩

theorem Locked.go (h : Locked f) (hs : f.go srv thread first = .next g) : Locked g := by
  have hgo := go_next hs
  have hmain := h.main thread
  have hhand := h.inHand thread
  obtain ⟨place, hp⟩ : ∃ place, f.place thread = place := ⟨_, rfl⟩
  rw [hp] at hgo hmain hhand
  cases hgo with
  | locks hto free =>
    have hpass := passes (.inl hto)
    obtain ⟨hm, hc⟩ := h.moved thread _ f.connectionPool.length
      (fun hno => hmain (hpass.borrows ▸ hno)) (hpass.inHand _) (.inl rfl)
    have hexclusive := h.exclusive
    rw [free] at hexclusive
    exact ⟨hexclusive.acquire (lockTo_inside hto).2, h.current.move (by simp [hpass.seen]), hm, hc⟩
  | tries => exact h
  | unlocks hto =>
    have hpass := passes (.inr hto)
    obtain ⟨hin, hout⟩ := unlockTo_inside hto
    obtain ⟨hm, hc⟩ := h.moved thread _ f.connectionPool.length
      (fun hno => hmain (hpass.borrows ▸ hno)) (hpass.inHand _) (.inl rfl)
    exact ⟨h.exclusive.release (hp ▸ hin) hout, h.current.move (by simp [hpass.seen]), hm, hc⟩
  | empty =>
    exact h.moveTo (by rw [hp]; rfl) (fun _ hno => by cases hno) hmain ⟨rfl, by decide⟩
  | filled =>
    exact h.moveTo (by rw [hp]; rfl) (fun _ hno => by cases hno) hmain trivial
  | emplace =>
    obtain ⟨rfl, hi⟩ := hhand
    obtain ⟨hm, hc⟩ := h.moved thread (.insert _ f.connectionPool.length) _ hmain ⟨rfl, hi⟩
      (.inr (hmain rfl))
    refine ⟨h.exclusive.move (by rw [hp]; rfl), h.current.move (fun _ hno => by cases hno), hm, ?_⟩
    rw [List.length_append]
    exact hc
  | insert =>
    exact h.moveTo (by rw [hp]; rfl) (fun _ hs => (Option.some.inj hs).symm) hmain hhand
  | inserted =>
    refine h.store (by rw [hp]; rfl) (by split_ifs <;> rfl) (by split_ifs <;> rfl)
      (fun _ => hmain rfl) ?_ _
    split_ifs with hi
    · exact ⟨hhand.1, hi⟩
    · trivial
  | begin hfirst =>
    exact h.moveTo (by rw [hp]; rfl) (fun _ hs => (Option.some.inj hs).symm) hmain hfirst
  | @erase index =>
    have hb : (PoolPlace.unlockTake index).borrows = true → thread = none := hmain
    exact h.store (by rw [hp]; rfl) rfl rfl hb trivial _
  | bind =>
    obtain ⟨hm, hc⟩ := h.moved thread .outside f.connectionPool.length (fun hno => by cases hno)
      trivial (.inl rfl)
    refine ⟨h.exclusive.move (by rw [hp]; rfl), h.current.move (fun _ hno => by cases hno), hm, ?_⟩
    rw [List.length_set]
    exact hc
  | giveBack =>
    exact h.moveTo (by rw [hp]; rfl) (fun _ hs => (Option.some.inj hs).symm)
      (fun hno => by cases hno) trivial
  | @givenBack index =>
    have hc : InHand f.connectionPool.length (.unlockReturn index) := trivial
    exact h.store (by rw [hp]; rfl) rfl rfl (fun hno => by cases hno) hc _

theorem Locked.step {l : SpinLabel} (h : Locked f) (hs : step srv f l = .next g) : Locked g := by
  cases l with
  | accept =>
    simp only [SpinPool.step, Outcome.bind_eq_next, Outcome.require_eq_next, Outcome.pure_eq,
      Outcome.next.injEq] at hs
    obtain ⟨-, hp, rfl⟩ := hs
    refine h.moveTo ?_ (fun _ hno => ?_) (fun _ => rfl) ?_
    · rw [hp]
      split_ifs <;> rfl
    · split_ifs at hno <;> cases hno
    · split_ifs <;> trivial
  | go thread first => exact h.go hs
  | work thread index l =>
    simp only [SpinPool.step] at hs
    split at hs
    · cases hs
    · next s hget =>
      simp only [Outcome.bind_eq_next, Outcome.require_eq_next, Outcome.pure_eq,
        Outcome.next.injEq] at hs
      obtain ⟨-, ⟨hp, -⟩, t, -, rfl⟩ := hs
      have hmoved : Locked (f.moveTo thread
          (if Resets s l then .lockReturn s.conn.index else .outside)) := by
        refine h.moveTo ?_ (fun _ hno => ?_) (fun hno => ?_) ?_
        · rw [hp]
          split_ifs <;> rfl
        · split_ifs at hno <;> cases hno
        · split_ifs at hno <;> cases hno
        · split_ifs <;> trivial
      refine ⟨hmoved.exclusive, hmoved.current, hmoved.main, fun t => ?_⟩
      rw [List.length_set]
      exact hmoved.inHand t

/-- The pool between critical sections that `f` is a closer look at. -/
structure Mirrors (f : SpinPool) (p : ConnectionPool) : Prop where
  pool : p.connectionPool = f.connectionPool ++ (f.place none).unmade.map Session.start
  avail : p.availIndex = f.availIndex ∪ (f.place none).missing.toFinset
  pc : p.pc = (f.place none).pc
  returning : ∀ index, index ∈ p.returning ↔ ∃ thread, (f.place thread).returns = some index
  once : ∀ thread thread' index, (f.place thread).returns = some index →
    (f.place thread').returns = some index → thread = thread'

theorem Mirrors.pool_eq (h : Mirrors f p) (hp : (f.place none).unmade = []) :
    p.connectionPool = f.connectionPool := by
  rw [h.pool, hp]
  exact List.append_nil _

theorem Mirrors.avail_eq (h : Mirrors f p) (hp : (f.place none).missing = []) :
    p.availIndex = f.availIndex := by
  rw [h.avail, hp]
  exact Finset.union_empty _

theorem Mirrors.pc_eq (h : Mirrors f p) (hp : f.place none = place) : p.pc = place.pc := hp ▸ h.pc

theorem emplace_eq (n index : ℕ) (p : ConnectionPool) : ConnectionPool.emplace n index p =
    { p with
      connectionPool := p.connectionPool ++ (List.range' index n).map Session.start
      availIndex := p.availIndex ∪ (List.range' index n).toFinset } := by
  induction n generalizing index p with
  | zero => simp [ConnectionPool.emplace]
  | succ n ih =>
    rw [ConnectionPool.emplace, ih, List.range'_succ]
    simp [List.append_assoc]

theorem Mirrors.start : Mirrors start .start where
  pool := (List.append_nil _).symm
  avail := (Finset.union_empty _).symm
  pc := by rw [ConnectionPool.start, ConnectionPool.emplace_pc]; rfl
  returning := by
    intro index
    refine iff_of_false ?_ (by simp [SpinPool.start, PoolPlace.returns])
    simp [ConnectionPool.start, emplace_eq]
  once := fun _ _ _ h => by cases h

/-- What a move leaves alone where the thread is, it leaves alone everywhere. -/
theorem update_kept {α : Type} (φ : PoolPlace → α) (hφ : φ place = φ (f.place thread))
    (t : Option ℕ) : φ (Function.update f.place thread place t) = φ (f.place t) := by
  by_cases he : t = thread
  · rw [he, Function.update_self, hφ]
  · rw [Function.update_of_ne he]

theorem Mirrors.returns_of (h : Mirrors f p)
    (hret : ∀ t, (g.place t).returns = (f.place t).returns) :
    (∀ index, index ∈ p.returning ↔ ∃ thread, (g.place thread).returns = some index) ∧
      ∀ thread thread' index, (g.place thread).returns = some index →
        (g.place thread').returns = some index → thread = thread' := by
  simp only [hret]
  exact ⟨h.returning, h.once⟩

/-- A move that is nothing between critical sections. -/
theorem Mirrors.moveTo (h : Mirrors f p) (hpc : place.pc = (f.place thread).pc)
    (hunmade : place.unmade = (f.place thread).unmade)
    (hmissing : place.missing = (f.place thread).missing)
    (hret : place.returns = (f.place thread).returns) : Mirrors (f.moveTo thread place) p := by
  obtain ⟨hreturning, honce⟩ := h.returns_of (g := f.moveTo thread place)
    (update_kept PoolPlace.returns hret)
  refine ⟨?_, ?_, ?_, hreturning, honce⟩
  · rw [h.pool]
    exact congrArg (_ ++ List.map _ ·) (update_kept PoolPlace.unmade hunmade none).symm
  · rw [h.avail]
    exact congrArg (_ ∪ List.toFinset ·) (update_kept PoolPlace.missing hmissing none).symm
  · rw [h.pc]
    exact (update_kept PoolPlace.pc hpc none).symm

theorem Mirrors.passed (h : Mirrors f p) (hp : Passes (f.place thread) place) (flag : Bool) :
    Mirrors { f.moveTo thread place with flag := flag } p := by
  obtain ⟨hpool, havail, hpc, hreturning, honce⟩ := h.moveTo hp.pc hp.unmade hp.missing hp.returns
  exact ⟨hpool, havail, hpc, hreturning, honce⟩

theorem range'_slots {i index : ℕ} (hi : i < slots) : List.range' index (slots - i) =
    index :: List.range' (index + 1) (slots - (i + 1)) := by
  rw [show slots - i = slots - (i + 1) + 1 by omega, List.range'_succ]

/-- A round of the loop makes its connection. -/
theorem Mirrors.emplaced (h : Mirrors f p) {i index : ℕ} (hp : f.place none = .emplace i index)
    (hi : i < slots) : Mirrors { f.moveTo none (.insert i index) with
      connectionPool := f.connectionPool ++ [Session.start index] } p := by
  obtain ⟨hreturning, honce⟩ := h.returns_of (g := f.moveTo none (.insert i index))
    (update_kept PoolPlace.returns (by rw [hp]; rfl))
  refine ⟨?_, ?_, ?_, hreturning, honce⟩
  · rw [h.pool, hp]
    simp [SpinPool.moveTo, PoolPlace.unmade, range'_slots hi]
  · rw [h.avail, hp]
    simp [SpinPool.moveTo, PoolPlace.missing]
  · rw [h.pc, hp]
    simp [SpinPool.moveTo, PoolPlace.pc]

/-- A round of the loop has inserted its index. -/
theorem Mirrors.inserted (h : Mirrors f p) {i index : ℕ} {seen : Finset ℕ}
    (hp : f.place none = .inserted i index seen) (hi : i < slots) (hseen : seen = f.availIndex) :
    Mirrors (f.store none (insert index seen)
      (if i + 1 < slots then .emplace (i + 1) (index + 1) else .unlockRefill)) p := by
  subst hseen
  generalize hplace : (if i + 1 < slots then PoolPlace.emplace (i + 1) (index + 1)
    else .unlockRefill) = place
  have hfacts : place.pc = .take ∧ place.returns = none ∧
      place.unmade = List.range' (index + 1) (slots - (i + 1)) ∧
      place.missing = List.range' (index + 1) (slots - (i + 1)) := by
    subst hplace
    split_ifs with hnext
    · exact ⟨rfl, rfl, rfl, rfl⟩
    · rw [Nat.sub_eq_zero_of_le (by omega)]
      exact ⟨rfl, rfl, rfl, rfl⟩
  obtain ⟨hpc, hret, hunmade, hmissing⟩ := hfacts
  obtain ⟨hreturning, honce⟩ := h.returns_of (g := f.moveTo none place)
    (update_kept PoolPlace.returns (by rw [hp, hret]; rfl))
  refine ⟨?_, ?_, ?_, hreturning, honce⟩
  · rw [h.pool, hp, store_self, hunmade]
    rfl
  · rw [h.avail, hp, store_self, hmissing, PoolPlace.missing, range'_slots hi, List.toFinset_cons,
      Finset.union_insert, ← Finset.insert_union]
    rfl
  · rw [h.pc, hp, store_self, hpc]
    rfl

/-- The second test, which is where the refill counts. -/
theorem Mirrors.tested (h : Mirrors f p) (hp : f.place none = .testAgain)
    (hs : f.go srv none first = .next g) :
    (∃ q, ConnectionPool.step srv p .refill = .next q ∧ Mirrors g q) ∨
      ((g.place none).overflows = true ∧
        ConnectionPool.step srv p .refill = .fault .intOverflow) := by
  have hpool : p.connectionPool = f.connectionPool := h.pool_eq (by rw [hp]; rfl)
  have havail : p.availIndex = f.availIndex := h.avail_eq (by rw [hp]; rfl)
  have hpc : p.pc = .refill := h.pc_eq hp
  have hret (place : PoolPlace) (hplace : place.returns = none) :=
    h.returns_of (g := f.moveTo none place)
      (update_kept PoolPlace.returns (by rw [hplace, hp]; rfl))
  have hgo := go_next hs
  rw [hp] at hgo
  simp only [ConnectionPool.step, ConnectionPool.refill, hpc, havail, hpool, Outcome.require,
    if_true, Outcome.next_bind]
  cases hgo with
  | locks hto | tries hto | unlocks hto => cases hto
  | empty he =>
    rw [if_pos he]
    by_cases hfit : f.connectionPool.length + slots ≤ intMax
    · refine .inl ⟨_, by rw [Outcome.check_pos hfit]; rfl, ?_⟩
      obtain ⟨hreturning, honce⟩ := hret (.emplace 0 f.connectionPool.length) rfl
      refine ⟨?_, ?_, ?_, ?_, honce⟩
      · simp [emplace_eq, hpool, SpinPool.moveTo, PoolPlace.unmade]
      · simp [emplace_eq, havail, SpinPool.moveTo, PoolPlace.missing]
      · simp [SpinPool.moveTo, PoolPlace.pc]
      · simpa [emplace_eq] using hreturning
    · refine .inr ⟨?_, ?_⟩
      · simpa [SpinPool.moveTo, PoolPlace.overflows] using hfit
      · rw [Outcome.check, if_neg hfit]
        rfl
  | filled he =>
    rw [if_neg he]
    obtain ⟨hreturning, honce⟩ := hret .unlockRefill rfl
    refine .inl ⟨_, rfl, ?_, ?_, ?_, hreturning, honce⟩
    · simp [hpool, SpinPool.moveTo, PoolPlace.unmade]
    · simp [havail, SpinPool.moveTo, PoolPlace.missing]
    · simp [SpinPool.moveTo, PoolPlace.pc]

/-- The write of the set without its first index is where the index is borrowed. -/
theorem Mirrors.taken (h : Mirrors f p) {index : ℕ} (hp : f.place none = .erase index f.availIndex)
    (hindex : index ∈ f.availIndex) : ∃ q, ConnectionPool.step srv p (.take index) = .next q ∧
      Mirrors (f.store none (f.availIndex.erase index) (.unlockTake index)) q := by
  have havail : p.availIndex = f.availIndex := h.avail_eq (by rw [hp]; rfl)
  have hpc : p.pc = .take := h.pc_eq hp
  obtain ⟨hreturning, honce⟩ := h.returns_of (g := f.moveTo none (.unlockTake index))
    (update_kept PoolPlace.returns (by rw [hp]; rfl))
  have hstep : ConnectionPool.step srv p (.take index) = .next
      { p with
        availIndex := f.availIndex.erase index
        borrowed := insert index p.borrowed
        pc := .bind index } := by
    simp [ConnectionPool.step, hpc, havail, hindex, Finset.ne_empty_of_mem hindex,
      Outcome.require, Outcome.check]
  refine ⟨_, hstep, ?_, ?_, ?_, hreturning, honce⟩
  · rw [h.pool, hp, store_self]
    rfl
  · rw [store_self]
    exact (Finset.union_empty _).symm
  · rw [store_self]
    rfl

/-- The rest of `newConnection`. -/
theorem Mirrors.bound (h : Mirrors f p) {index : ℕ} (hp : f.place none = .bind index)
    {s t : Session} (hget : f.connectionPool[index]? = some s) (ht : bindSlot srv s = .next t) :
    ∃ q, ConnectionPool.step srv p .bind = .next q ∧
      Mirrors { f.moveTo none .outside with connectionPool := f.connectionPool.set index t } q := by
  have hpool : p.connectionPool = f.connectionPool := h.pool_eq (by rw [hp]; rfl)
  have havail : p.availIndex = f.availIndex := h.avail_eq (by rw [hp]; rfl)
  have hpc : p.pc = .bind index := h.pc_eq hp
  obtain ⟨hreturning, honce⟩ := h.returns_of (g := f.moveTo none .outside)
    (update_kept PoolPlace.returns (by rw [hp]; rfl))
  have hstep : ConnectionPool.step srv p .bind = .next
      { p with connectionPool := f.connectionPool.set index t, pc := .idle } := by
    simp [ConnectionPool.step, hpc, hpool, hget, Outcome.deref, ht]
  refine ⟨_, hstep, ?_, ?_, ?_, hreturning, honce⟩
  · rw [moveTo_self]
    exact (List.append_nil _).symm
  · rw [moveTo_self, havail]
    exact (Finset.union_empty _).symm
  · rw [moveTo_self]
    rfl

/-- `newConnection` is called. -/
theorem Mirrors.accepted (h : Mirrors f p) (hp : f.place none = .outside) :
    ∃ q, ConnectionPool.step srv p .accept = .next q ∧
      Mirrors (f.moveTo none (if f.availIndex = ∅ then .lockRefill else .lockTake)) q := by
  generalize hplace : (if f.availIndex = ∅ then PoolPlace.lockRefill else .lockTake) = place
  have hfacts : place.returns = none ∧ place.unmade = [] ∧ place.missing = [] ∧
      place.pc = if f.availIndex = ∅ then .refill else .take := by
    subst hplace
    split_ifs <;> exact ⟨rfl, rfl, rfl, rfl⟩
  obtain ⟨hret, hunmade, hmissing, hplacePc⟩ := hfacts
  have havail : p.availIndex = f.availIndex := h.avail_eq (by rw [hp]; rfl)
  have hpc : p.pc = .idle := h.pc_eq hp
  obtain ⟨hreturning, honce⟩ := h.returns_of (g := f.moveTo none place)
    (update_kept PoolPlace.returns (by rw [hp, hret]; rfl))
  have hstep : ConnectionPool.step srv p .accept = .next
      { p with pc := if f.availIndex = ∅ then .refill else .take } := by
    simp [ConnectionPool.step, hpc, havail, Outcome.require]
  refine ⟨_, hstep, ?_, ?_, ?_, hreturning, honce⟩
  · rw [h.pool, hp, moveTo_self, hunmade]
    rfl
  · rw [moveTo_self, hmissing]
    exact havail.trans (Finset.union_empty _).symm
  · rw [moveTo_self, hplacePc]

/-- A thread that returns a connection is not the main thread on its way through `newConnection`,
so nothing is being made while it is inside. -/
theorem Locked.nothing_unmade (h : Locked f) (hin : (f.place thread).inside = true)
    (hb : (f.place thread).borrows = false) :
    (f.place none).missing = [] := by
  by_cases ht : thread = none
  · subst ht
    generalize f.place none = place at hb
    cases place with
    | emplace | insert | inserted => cases hb
    | _ => rfl
  · have hout := h.exclusive.others hin (Ne.symm ht)
    generalize f.place none = place at hout
    cases place with
    | emplace | insert | inserted => cases hout
    | _ => rfl

/-- The write of the set with the index is where the connection is returned. -/
theorem Mirrors.back (h : Mirrors f p) (hl : Locked f) (hi : ConnectionPool.Inv srv p) {index : ℕ}
    (hp : f.place thread = .givenBack index f.availIndex) :
    ∃ q, ConnectionPool.step srv p (.back index) = .next q ∧
      Mirrors (f.store thread (insert index f.availIndex) (.unlockReturn index)) q := by
  have hmem : index ∈ p.returning := (h.returning index).mpr ⟨thread, by rw [hp]; rfl⟩
  have hget := List.getElem?_eq_getElem (hi.lt_of_borrowed (hi.returning index hmem))
  have hindex := (hi.slot index _ hget).2
  have hmissing := hl.nothing_unmade (by rw [hp]; rfl) (by rw [hp]; rfl)
  have havail : p.availIndex = f.availIndex := h.avail_eq hmissing
  have hplace : ∀ {α : Type} (φ : PoolPlace → α), φ (.unlockReturn index) = φ (f.place thread) →
      ∀ t, φ ((f.store thread (insert index f.availIndex) (.unlockReturn index)).place t) =
        φ (f.place t) := fun φ hφ t => update_kept φ hφ t
  have hstep : ConnectionPool.step srv p (.back index) = .next
      { p with
        availIndex := insert index f.availIndex
        borrowed := p.borrowed.erase index
        returning := p.returning.erase index } := by
    simp [ConnectionPool.step, hget, hmem, Outcome.require, hindex, havail]
  refine ⟨_, hstep, ?_, ?_, ?_, fun i => ?_, fun t t' i => ?_⟩
  · rw [hplace PoolPlace.unmade (by rw [hp]; rfl)]
    exact h.pool
  · rw [hplace PoolPlace.missing (by rw [hp]; rfl), hmissing]
    exact (Finset.union_empty _).symm
  · rw [hplace PoolPlace.pc (by rw [hp]; rfl)]
    exact h.pc
  · rw [hi.once.mem_erase_iff, h.returning]
    constructor
    · rintro ⟨hne, t, ht⟩
      have htne : t ≠ thread := by
        rintro rfl
        rw [hp] at ht
        exact hne (Option.some.inj ht).symm
      refine ⟨t, ?_⟩
      rw [← ht]
      exact congrArg PoolPlace.returns (Function.update_of_ne htne ..)
    · rintro ⟨t, ht⟩
      have htne : t ≠ thread := by
        rintro rfl
        rw [store_self] at ht
        cases ht
      have hold : (f.place t).returns = some i := by
        rw [← ht]
        exact congrArg PoolPlace.returns (Function.update_of_ne htne ..).symm
      refine ⟨?_, t, hold⟩
      rintro rfl
      exact htne (h.once t thread i hold (by rw [hp]; rfl))
  · intro ht ht'
    have hold : ∀ u, ((f.store thread (insert index f.availIndex)
        (.unlockReturn index)).place u).returns = some i → (f.place u).returns = some i := by
      intro u hu
      by_cases hne : u = thread
      · rw [hne, store_self] at hu
        cases hu
      · rwa [show (f.store thread (insert index f.availIndex) (.unlockReturn index)).place u =
          f.place u from Function.update_of_ne hne ..] at hu
    exact h.once t t' i (hold t ht) (hold t' ht')

/-- Code of a connection runs, which ends in `returnConnection` if it is the rest of `reset`. -/
theorem Mirrors.worked (h : Mirrors f p) (hi : ConnectionPool.Inv srv p) {index : ℕ} {l : Label}
    {s t : Session} (hp : f.place thread = .outside) (hl : l ≠ .accept)
    (hget : f.connectionPool[index]? = some s) (ht : Session.step srv s l = .next t) :
    ∃ q, ConnectionPool.step srv p (.work index l) = .next q ∧
      Mirrors { f.moveTo thread (if Resets s l then .lockReturn s.conn.index else .outside) with
        connectionPool := f.connectionPool.set index t } q := by
  have hlt := (List.getElem?_eq_some_iff.mp hget).1
  have hget' : p.connectionPool[index]? = some s := by
    rw [h.pool, List.getElem?_append_left hlt, hget]
  have hindex : s.conn.index = index := (hi.slot index s hget').2
  have hstep : ConnectionPool.step srv p (.work index l) = .next
      { p with
        connectionPool := p.connectionPool.set index t
        returning := if Resets s l then index :: p.returning else p.returning } := by
    simp [ConnectionPool.step, hget', hl, Outcome.require, ht]
  have honce := (hi.step hstep).once
  generalize hplace : (if Resets s l then PoolPlace.lockReturn s.conn.index else .outside) = place
  have hfacts : place.pc = .idle ∧ place.unmade = [] ∧ place.missing = [] ∧
      place.returns = if Resets s l then some index else none := by
    subst hplace
    split_ifs
    · exact ⟨rfl, rfl, rfl, congrArg some hindex⟩
    · exact ⟨rfl, rfl, rfl, rfl⟩
  obtain ⟨hpc, hunmade, hmissing, hreturns⟩ := hfacts
  have hself : (f.moveTo thread place).place thread = place := moveTo_self ..
  have hother : ∀ u, u ≠ thread → (f.moveTo thread place).place u = f.place u :=
    fun u hu => Function.update_of_ne hu ..
  have hold : (f.place thread).returns = none := by
    rw [hp]
    rfl
  refine ⟨_, hstep, ?_, ?_, ?_, fun i => ?_, fun u u' i => ?_⟩
  · dsimp only
    rw [h.pool, List.set_append_left _ _ hlt]
    exact congrArg (_ ++ List.map _ ·)
      (update_kept PoolPlace.unmade (by rw [hunmade, hp]; rfl) none).symm
  · rw [h.avail]
    exact congrArg (_ ∪ List.toFinset ·)
      (update_kept PoolPlace.missing (by rw [hmissing, hp]; rfl) none).symm
  · rw [h.pc]
    exact (update_kept PoolPlace.pc (by rw [hpc, hp]; rfl) none).symm
  · dsimp only
    split_ifs with hr
    · rw [if_pos hr] at hreturns
      rw [List.mem_cons, h.returning]
      constructor
      · rintro (rfl | ⟨u, hu⟩)
        · exact ⟨thread, by rw [hself, hreturns]⟩
        · exact ⟨u, by rw [hother u (by rintro rfl; simp [hold] at hu), hu]⟩
      · rintro ⟨u, hu⟩
        by_cases he : u = thread
        · rw [he, hself, hreturns, Option.some.injEq] at hu
          exact .inl hu.symm
        · rw [hother u he] at hu
          exact .inr ⟨u, hu⟩
    · rw [if_neg hr] at hreturns
      rw [h.returning]
      exact exists_congr fun u => by
        rw [show ((f.moveTo thread place).place u).returns = _ from
          update_kept PoolPlace.returns (by rw [hreturns, hold]) u]
  · dsimp only
    intro hu hu'
    by_cases hr : Resets s l = true
    · rw [if_pos hr] at hreturns honce
      have hfresh := (List.nodup_cons.mp honce).1
      rw [h.returning] at hfresh
      by_cases he : u = thread <;> by_cases he' : u' = thread
      · rw [he, he']
      · rw [he, hself, hreturns, Option.some.injEq] at hu
        rw [hother u' he'] at hu'
        exact absurd ⟨u', hu ▸ hu'⟩ hfresh
      · rw [he', hself, hreturns, Option.some.injEq] at hu'
        rw [hother u he] at hu
        exact absurd ⟨u, hu' ▸ hu⟩ hfresh
      · rw [hother u he] at hu
        rw [hother u' he'] at hu'
        exact h.once u u' i hu hu'
    · rw [if_neg hr] at hreturns
      have hkept (v : Option ℕ) : ((f.moveTo thread place).place v).returns = (f.place v).returns :=
        update_kept PoolPlace.returns (by rw [hreturns, hold]) v
      exact h.once u u' i ((hkept u).symm.trans hu) ((hkept u').symm.trans hu')

/-- A step of a thread is nothing between critical sections, or one of them, or the refill that
counts beyond `int` begins. -/
theorem Mirrors.go (h : Mirrors f p) (hl : Locked f) (hi : ConnectionPool.Inv srv p)
    (hs : f.go srv thread first = .next g) :
    Mirrors g p ∨ (∃ m q, ConnectionPool.step srv p m = .next q ∧ Mirrors g q) ∨
      ((g.place none).overflows = true ∧
        ConnectionPool.step srv p .refill = .fault .intOverflow) := by
  have hgo := go_next hs
  have hmain := hl.main thread
  have hhand := hl.inHand thread
  have hcurrent := hl.current thread
  obtain ⟨place, hp⟩ : ∃ place, f.place thread = place := ⟨_, rfl⟩
  rw [hp] at hgo hmain hhand hcurrent
  cases hgo with
  | locks hto => exact .inl (h.passed (hp ▸ passes (.inl hto)) true)
  | unlocks hto => exact .inl (h.passed (hp ▸ passes (.inr hto)) false)
  | tries => exact .inl h
  | empty | filled =>
    obtain rfl := hmain rfl
    rcases h.tested hp hs with ⟨q, hq, hmirrors⟩ | hover
    · exact .inr (.inl ⟨_, q, hq, hmirrors⟩)
    · exact .inr (.inr hover)
  | emplace =>
    obtain rfl := hmain rfl
    exact .inl (h.emplaced hp hhand.2)
  | insert | begin | giveBack =>
    exact .inl (h.moveTo (by rw [hp]; rfl) (by rw [hp]; rfl) (by rw [hp]; rfl) (by rw [hp]; rfl))
  | inserted =>
    obtain rfl := hmain rfl
    exact .inl (h.inserted hp hhand.2 (hcurrent _ rfl))
  | erase =>
    obtain rfl := hmain rfl
    obtain rfl := hcurrent _ rfl
    obtain ⟨q, hq, hmirrors⟩ := h.taken hp hhand
    exact .inr (.inl ⟨_, q, hq, hmirrors⟩)
  | bind hget ht =>
    obtain rfl := hmain rfl
    obtain ⟨q, hq, hmirrors⟩ := h.bound hp hget ht
    exact .inr (.inl ⟨_, q, hq, hmirrors⟩)
  | givenBack =>
    obtain rfl := hcurrent _ rfl
    obtain ⟨q, hq, hmirrors⟩ := h.back hl hi hp
    exact .inr (.inl ⟨_, q, hq, hmirrors⟩)

theorem Mirrors.step {l : SpinLabel} (h : Mirrors f p) (hl : Locked f)
    (hi : ConnectionPool.Inv srv p) (hs : step srv f l = .next g) :
    Mirrors g p ∨ (∃ m q, ConnectionPool.step srv p m = .next q ∧ Mirrors g q) ∨
      ((g.place none).overflows = true ∧
        ConnectionPool.step srv p .refill = .fault .intOverflow) := by
  cases l with
  | accept =>
    simp only [SpinPool.step, Outcome.bind_eq_next, Outcome.require_eq_next, Outcome.pure_eq,
      Outcome.next.injEq] at hs
    obtain ⟨-, hp, rfl⟩ := hs
    exact .inr (.inl ⟨_, h.accepted hp⟩)
  | go thread first => exact h.go hl hi hs
  | work thread index l =>
    simp only [SpinPool.step] at hs
    split at hs
    · cases hs
    · next s hget =>
      simp only [Outcome.bind_eq_next, Outcome.require_eq_next, Outcome.pure_eq,
        Outcome.next.injEq] at hs
      obtain ⟨-, ⟨hp, hne⟩, t, ht, rfl⟩ := hs
      obtain ⟨q, hq, hmirrors⟩ := h.worked hi hp hne hget ht
      exact .inr (.inl ⟨_, q, hq, hmirrors⟩)

/-- A refill that overflows is never done. -/
theorem overflows_step {l : SpinLabel} (hl : Locked f) (h : (f.place none).overflows = true)
    (hs : step srv f l = .next g) : (g.place none).overflows = true := by
  have hother : ∀ {thread : Option ℕ} {behind : PoolPlace}, thread ≠ none →
      (Function.update f.place thread behind none).overflows = true := by
    intro thread behind hne
    rwa [Function.update_of_ne (Ne.symm hne)]
  cases l with
  | accept =>
    simp only [SpinPool.step, Outcome.bind_eq_next, Outcome.require_eq_next] at hs
    obtain ⟨-, hp, -⟩ := hs
    rw [hp] at h
    cases h
  | go thread first =>
    have hgo := go_next hs
    by_cases ht : thread = none
    · subst ht
      have hhand := hl.inHand none
      obtain ⟨place, hp⟩ : ∃ place, f.place none = place := ⟨_, rfl⟩
      rw [hp] at hgo h hhand
      cases hgo with
      | emplace =>
        rw [moveTo_self]
        exact h
      | insert =>
        rw [moveTo_self]
        exact h
      | inserted hint =>
        rw [store_self]
        have hcount := of_decide_eq_true h
        split_ifs with hnext
        · exact decide_eq_true (by omega)
        · exact absurd hcount (by omega)
      | locks hto | tries hto | unlocks hto => cases place <;> first | cases h | cases hto
      | _ => cases h
    · generalize f.place thread = place at hgo
      cases hgo with
      | tries => exact h
      | _ => exact hother ht
  | work thread index l =>
    simp only [SpinPool.step] at hs
    split at hs
    · cases hs
    · simp only [Outcome.bind_eq_next, Outcome.require_eq_next, Outcome.pure_eq,
        Outcome.next.injEq] at hs
      obtain ⟨-, ⟨hp, -⟩, t, -, rfl⟩ := hs
      refine hother ?_
      rintro rfl
      rw [hp] at h
      cases h

/-- The invariant: `f` is where the pool is between critical sections, unless a refill overflows. -/
structure Reached (srv : TcpServer) (f : SpinPool) : Prop where
  locked : Locked f
  follows : (∃ ms p, run (ConnectionPool.step srv) .start ms = .next p ∧ Mirrors f p) ∨
    ((f.place none).overflows = true ∧
      ∃ ms, run (ConnectionPool.step srv) .start ms = .fault .intOverflow)

theorem Reached.step {l : SpinLabel} (h : Reached srv f) (hs : step srv f l = .next g) :
    Reached srv g := by
  refine ⟨h.locked.step hs, ?_⟩
  rcases h.follows with ⟨ms, p, hrun, hmirrors⟩ | ⟨hover, hfault⟩
  · have hi : ConnectionPool.Inv srv p :=
      run_invariant (fun _ _ _ h hs => ConnectionPool.Inv.step h hs) .start hrun
    rcases hmirrors.step h.locked hi hs with hm | ⟨m, q, hq, hm⟩ | ⟨hover, hfault⟩
    · exact .inl ⟨ms, p, hrun, hm⟩
    · exact .inl ⟨ms ++ [m], q, run_snoc hrun hq, hm⟩
    · refine .inr ⟨hover, ms ++ [.refill], ?_⟩
      rw [run_append, hrun, Outcome.next_bind, run_cons, hfault]
      rfl
  · exact .inr ⟨overflows_step h.locked hover hs, hfault⟩

theorem Reached.of_run {ls : List SpinLabel}
    (h : run (SpinPool.step srv) SpinPool.start ls = .next f) :
    Reached srv f :=
  run_invariant (fun _ _ _ h hs => h.step hs) ⟨.start, .inl ⟨[], _, rfl, .start⟩⟩ h

/-- What is read is not empty, and the slot that was taken can be bound. -/
theorem Reached.go_fault {fault : Fault} (h : Reached srv f)
    (hf : f.go srv thread first = .fault fault) : fault = .intOverflow := by
  have hmain := h.locked.main thread
  unfold SpinPool.go at hf
  obtain ⟨place, hp⟩ : ∃ place, f.place thread = place := ⟨_, rfl⟩
  rw [hp] at hf hmain
  cases place with
  | testAgain =>
    dsimp only at hf
    split_ifs at hf
  | inserted =>
    simp only [Outcome.bind_eq_fault, Outcome.check_eq_fault, Outcome.pure_eq, reduceCtorEq,
      and_false, exists_false, or_false] at hf
    exact hf.2.symm
  | begin =>
    obtain rfl := hmain rfl
    rcases h.follows with ⟨ms, p, hrun, hmirrors⟩ | ⟨hover, -⟩
    · have hi : ConnectionPool.Inv srv p :=
        run_invariant (fun _ _ _ h hs => ConnectionPool.Inv.step h hs) .start hrun
      have hne := (hi.nonempty (hmirrors.pc_eq hp)).ne_empty
      rw [hmirrors.avail_eq (by rw [hp]; rfl)] at hne
      simp [Outcome.check, hne] at hf
    · rw [hp] at hover
      cases hover
  | bind index =>
    obtain rfl := hmain rfl
    rcases h.follows with ⟨ms, p, hrun, hmirrors⟩ | ⟨hover, -⟩
    · have hi : ConnectionPool.Inv srv p :=
        run_invariant (fun _ _ _ h hs => ConnectionPool.Inv.step h hs) .start hrun
      have hpool := hmirrors.pool_eq (by rw [hp]; rfl)
      have hpc : p.pc = .bind index := hmirrors.pc_eq hp
      refine hi.step_fault (l := .bind) (fun _ _ hno => by cases hno) ?_
      simp only [ConnectionPool.step, hpc, hpool]
      simp only [Outcome.bind_eq_fault, Outcome.pure_eq, reduceCtorEq, and_false, exists_false,
        or_false] at hf ⊢
      exact hf
    · rw [hp] at hover
      cases hover
  | _ => cases hf

/-- The lock makes the accesses of a critical section one step. Whatever the threads do, the flag
is set just when a thread is between `lock()` and `unlock()`, never two are, and the pool is where
a run of whole critical sections leads, unless an index is about to leave `int`. No test, read or
write of the pool fails but on that. -/
theorem critical_sections (srv : TcpServer) (ls : List SpinLabel) (f : SpinPool)
    (run_eq : run (step srv) start ls = .next f) :
    Exclusive PoolPlace.inside f.flag f.place ∧
    ((∃ ms p, run (ConnectionPool.step srv) .start ms = .next p ∧ Mirrors f p ∧
        ConnectionPool.Sound srv p) ∨
      ((f.place none).overflows = true ∧
        ∃ ms, run (ConnectionPool.step srv) .start ms = .fault .intOverflow)) ∧
    ∀ l fault, (∀ thread index sl, l ≠ .work thread index sl) → step srv f l = .fault fault →
      fault = .intOverflow := by
  have h : Reached srv f := .of_run run_eq
  refine ⟨h.locked.exclusive, ?_, fun l fault hl hf => ?_⟩
  · rcases h.follows with ⟨ms, p, hrun, hmirrors⟩ | hover
    · have hi : ConnectionPool.Inv srv p :=
        run_invariant (fun _ _ _ h hs => ConnectionPool.Inv.step h hs) .start hrun
      exact .inl ⟨ms, p, hrun, hmirrors, hi.sound⟩
    · exact .inr hover
  · cases l with
    | accept => simp [SpinPool.step] at hf
    | go thread first => exact h.go_fault hf
    | work thread index sl => exact absurd rfl (hl thread index sl)

/-- The main thread waits at the lock for a thread that gives a connection back. -/
theorem critical_sections_two : ∃ f,
    run (step ⟨⟨.linux, .little⟩, false, false, true, false⟩) start
      [.accept, .go none 0, .go none 7, .go none 0, .go none 0, .go none 0,
        .work (some 0) 7 .bound, .work (some 0) 7 (.poll EPOLLHUP),
        .work (some 0) 7 (.dispatch .again), .work (some 0) 7 .go, .accept, .go (some 0) 0,
        .go none 0, .go (some 0) 0, .go none 0, .go (some 0) 0] = .next f ∧
      f.place none = .lockTake ∧ Exclusive PoolPlace.inside f.flag f.place := by
  obtain ⟨f, hf, hp⟩ := Outcome.yields_eq_true.mp (show
    (run (step ⟨⟨.linux, .little⟩, false, false, true, false⟩) start
      [.accept, .go none 0, .go none 7, .go none 0, .go none 0, .go none 0,
        .work (some 0) 7 .bound, .work (some 0) 7 (.poll EPOLLHUP),
        .work (some 0) 7 (.dispatch .again), .work (some 0) 7 .go, .accept, .go (some 0) 0,
        .go none 0, .go (some 0) 0, .go none 0, .go (some 0) 0]).yields
          (fun f => f.place none == .lockTake) = true by decide +kernel)
  exact ⟨f, hf, eq_of_beq hp, (critical_sections _ _ f hf).1⟩

/-- `begin()` gives an element of the set that it reads. -/
def Answers (f : SpinPool) : SpinLabel → Prop
  | .go thread first => f.place thread = .begin → first ∈ f.availIndex
  | _ => True

instance (f : SpinPool) : DecidablePred f.Answers
  | .go _ _ => inferInstanceAs (Decidable (_ → _))
  | .accept => .isTrue trivial
  | .work _ _ _ => .isTrue trivial

/-- The thread inside goes on towards its `unlock()`, whatever `begin()` gives. -/
theorem Reached.goes_on (h : Reached srv f) (hin : (f.place thread).inside = true)
    (hfirst : f.Answers (.go thread first)) :
    f.go srv thread first = .fault .intOverflow ∨ ∃ g, f.go srv thread first = .next g ∧
      (g.flag = false ∨
        ((g.place thread).inside = true ∧ (g.place thread).due < (f.place thread).due)) := by
  have hhand := h.locked.inHand thread
  obtain ⟨place, hp⟩ : ∃ place, f.place thread = place := ⟨_, rfl⟩
  rw [Answers, hp] at hfirst
  rw [hp] at hin hhand ⊢
  -- what is left to do is to name the step, and to compare two places
  have hgoes : ∀ g, f.go srv thread first = .next g → ∀ behind, g.place thread = behind →
      behind.inside = true → behind.due < place.due → f.go srv thread first = .fault .intOverflow ∨
        ∃ g, f.go srv thread first = .next g ∧
          (g.flag = false ∨ ((g.place thread).inside = true ∧ (g.place thread).due < place.due)) :=
    fun g hgo behind hg hi hd => .inr ⟨g, hgo, .inr (hg ▸ ⟨hi, hd⟩)⟩
  cases place with
  | outside | lockRefill | lockTake | bind | lockReturn => cases hin
  | unlockRefill | unlockTake | unlockReturn =>
    exact .inr ⟨_, by simp only [SpinPool.go, hp]; rfl, .inl rfl⟩
  | testAgain =>
    by_cases he : f.availIndex = ∅
    · exact hgoes (f.moveTo thread (.emplace 0 f.connectionPool.length))
        (by simp [SpinPool.go, hp, he]) _ (moveTo_self ..) rfl (Nat.lt_succ_self _)
    · exact hgoes (f.moveTo thread .unlockRefill) (by simp [SpinPool.go, hp, he]) _
        (moveTo_self ..) rfl (by decide)
  | emplace i index =>
    exact hgoes { f.moveTo thread (.insert i index) with
      connectionPool := f.connectionPool ++ [Session.start index] }
      (by simp only [SpinPool.go, hp]; rfl) _ (moveTo_self ..) rfl (Nat.lt_succ_self _)
  | insert i index =>
    have hi := hhand.2
    exact hgoes _ (by simp only [SpinPool.go, hp]; rfl) _ (moveTo_self ..) rfl
      (by simp only [PoolPlace.due]; omega)
  | inserted i index seen =>
    have hi := hhand.2
    by_cases hint : index + 1 ≤ intMax
    · refine hgoes (f.store thread (Insert.insert index seen)
        (if i + 1 < slots then .emplace (i + 1) (index + 1) else .unlockRefill))
        (by simp [SpinPool.go, hp, hint, Outcome.check]) _ (store_self ..) ?_ ?_
      · split_ifs <;> rfl
      · split_ifs <;> simp only [PoolPlace.due] <;> omega
    · exact .inl (by simp [SpinPool.go, hp, hint, Outcome.check])
  | begin =>
    have hmem := hfirst rfl
    have hne : f.availIndex ≠ ∅ := Finset.ne_empty_of_mem hmem
    exact hgoes (f.moveTo thread (.erase first f.availIndex))
      (by simp [SpinPool.go, hp, hne, hmem, Outcome.check, Outcome.require]) _ (moveTo_self ..)
      rfl (Nat.lt_succ_self _)
  | erase | givenBack =>
    exact hgoes _ (by simp only [SpinPool.go, hp]; rfl) _ (store_self ..) rfl (Nat.lt_succ_self _)
  | giveBack =>
    exact hgoes _ (by simp only [SpinPool.go, hp]; rfl) _ (moveTo_self ..) rfl
      (Nat.lt_succ_self _)

theorem Locked.due_pos (h : Locked f) (hin : (f.place thread).inside = true) :
    0 < (f.place thread).due := by
  have hhand := h.inHand thread
  generalize f.place thread = place at hin hhand
  cases place with
  | outside | lockRefill | lockTake | bind | lockReturn => cases hin
  | insert i | inserted i =>
    have hi := hhand.2
    simp only [PoolPlace.due]
    omega
  | _ => exact Nat.succ_pos _

theorem due_le (place : PoolPlace) : place.due ≤ 3 * slots + 2 := by
  cases place <;> simp only [PoolPlace.due, slots] <;> omega

theorem Reached.releases {firsts : List ℕ} (h : Reached srv f)
    (hin : (f.place thread).inside = true) (hlen : (f.place thread).due ≤ firsts.length)
    (hvalid : StepsMeet (SpinPool.step srv) Answers f (firsts.map (.go thread))) :
    ∃ n ≤ (f.place thread).due,
      run (SpinPool.step srv) f ((firsts.take n).map (.go thread)) = .fault .intOverflow ∨
        ∃ g, run (SpinPool.step srv) f ((firsts.take n).map (.go thread)) = .next g ∧
          g.flag = false := by
  have hpos := h.locked.due_pos hin
  induction firsts generalizing f with
  | nil => exact absurd (hpos.trans_le hlen) (Nat.lt_irrefl 0)
  | cons first firsts ih =>
    have hrun (n : ℕ) :
        run (SpinPool.step srv) f (((first :: firsts).take (n + 1)).map (.go thread)) =
          f.go srv thread first >>= fun g =>
            run (SpinPool.step srv) g ((firsts.take n).map (.go thread)) := rfl
    rcases h.goes_on hin hvalid.1 with hfault | ⟨g, hg, hflag | ⟨hgin, hless⟩⟩
    · exact ⟨1, hpos, .inl (by rw [hrun, hfault]; rfl)⟩
    · exact ⟨1, hpos, .inr ⟨g, by rw [hrun, hg]; rfl, hflag⟩⟩
    · have hgr : Reached srv g := h.step (l := .go thread first) hg
      rw [List.length_cons] at hlen
      obtain ⟨n, hn, hrest⟩ := ih hgr hgin (by omega) (hvalid.2 g hg) (hgr.locked.due_pos hgin)
      refine ⟨n + 1, by omega, ?_⟩
      rw [hrun, hg]
      exact hrest

/-- The lock is not held for ever. Whenever it is held, one thread holds it, and that thread alone
gives it back within 602 steps, whatever `begin()` gives, unless an index leaves `int`. -/
theorem lock_released (srv : TcpServer) (ls : List SpinLabel) (f : SpinPool)
    (run_eq : run (step srv) start ls = .next f) (held : f.flag = true) :
    ∃ thread, (f.place thread).inside = true ∧ ∀ firsts : List ℕ, 602 ≤ firsts.length →
      StepsMeet (step srv) Answers f (firsts.map (.go thread)) →
      ∃ n ≤ 602, run (step srv) f ((firsts.take n).map (.go thread)) = .fault .intOverflow ∨
        ∃ g, run (step srv) f ((firsts.take n).map (.go thread)) = .next g ∧ g.flag = false := by
  have h : Reached srv f := .of_run run_eq
  obtain ⟨thread, hin⟩ := h.locked.exclusive.held.mp held
  refine ⟨thread, hin, fun firsts hlen hvalid => ?_⟩
  obtain ⟨n, hn, hdone⟩ := h.releases hin ((due_le _).trans hlen) hvalid
  exact ⟨n, hn.trans (due_le _), hdone⟩

/-- The main thread inside, about to take its first connection. -/
theorem lock_released_take : ∃ f,
    run (step ⟨⟨.linux, .little⟩, false, false, true, false⟩) start [.accept, .go none 0] = .next f ∧
      ∃ n ≤ 602, run (step ⟨⟨.linux, .little⟩, false, false, true, false⟩) f
          (((List.replicate 602 7).take n).map (.go none)) = .fault .intOverflow ∨
        ∃ g, run (step ⟨⟨.linux, .little⟩, false, false, true, false⟩) f
          (((List.replicate 602 7).take n).map (.go none)) = .next g ∧ g.flag = false := by
  obtain ⟨f, hf, hc⟩ := Outcome.yields_eq_true.mp (show
    (run (step ⟨⟨.linux, .little⟩, false, false, true, false⟩) start [.accept, .go none 0]).yields
      (fun f => f.flag && (f.place none).inside && decide (StepsMeet
        (step ⟨⟨.linux, .little⟩, false, false, true, false⟩) Answers f
          ((List.replicate 602 7).map (.go none)))) = true by decide +kernel)
  simp only [Bool.and_eq_true, decide_eq_true_eq] at hc
  obtain ⟨⟨hheld, hin⟩, hvalid⟩ := hc
  obtain ⟨thread, hthread, hall⟩ := lock_released _ _ f hf hheld
  obtain rfl : none = thread := (Reached.of_run hf).locked.exclusive.alone none thread hin hthread
  exact ⟨f, hf, hall _ List.length_replicate.ge hvalid⟩

end SpinPool
end Potato
