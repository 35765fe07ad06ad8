import Potato.Descriptors
import Potato.TestAndSet

/-!
# Socket pairs where the system has none

The threads of a process in `socketPair` on Windows. A call opens a listening socket on a port that
all calls share, connects to it and closes it. A mutex keeps the calls apart, and guards close what
a call has opened, whichever system call fails. Other programs can come to the port as well.
-/
namespace Potato
open Machine TestAndSet

/-- A `SocketScopeGuard`. -/
structure SocketScopeGuard where
  socket : Fd
  deriving DecidableEq, Repr

def SocketScopeGuard.release (_ : SocketScopeGuard) : SocketScopeGuard := ⟨none⟩

/-- Where a thread is in `socketPair`, in front of the next system call. -/
inductive PairPlace where
  | outside
  /-- at the guard of the mutex -/
  | lock
  | openListen
  | openClient (listenSock : Fd)
  | bind (listenSock clientSock : ℕ)
  | listen (listenSock clientSock : ℕ)
  | connect (listenSock clientSock : ℕ)
  | accept (listenSock clientSock : ℕ)
  /-- behind a `return`, with the guards that are still to be destroyed and what the call gives -/
  | leave (guards : List SocketScopeGuard) (socket : Option (ℕ × ℕ))
  deriving DecidableEq

namespace PairPlace

/-- The thread has the mutex. -/
def inside : PairPlace → Bool
  | outside | lock => false
  | _ => true

/-- `if (listenSock == INVALID_SOCKET || clientSock == INVALID_SOCKET) return -1;` -/
def test : Fd → Fd → PairPlace
  | some listenSock, some clientSock => bind listenSock clientSock
  | listenSock, clientSock => leave [⟨clientSock⟩, ⟨listenSock⟩] none

/-- `return -1;` -/
def fail (listenSock clientSock : ℕ) : PairPlace :=
  leave [⟨some clientSock⟩, ⟨some listenSock⟩] none

/-- The two sockets of a call that has both. -/
def sockets : PairPlace → Option (ℕ × ℕ)
  | bind l c | listen l c | connect l c | accept l c => some (l, c)
  | _ => none

/-- The descriptors of the guards. -/
def guarded (guards : List SocketScopeGuard) : List ℕ := guards.flatMap fun g => g.socket.toList

/-- The descriptors of the pairs. -/
def ends (pairs : List (ℕ × ℕ)) : List ℕ := pairs.flatMap fun p => [p.1, p.2]

/-- The descriptors that only the call knows of. -/
def holds : PairPlace → List ℕ
  | openClient listenSock => listenSock.toList
  | bind l c | listen l c | connect l c | accept l c => [l, c]
  | leave guards socket => guarded guards ++ ends socket.toList
  | outside | lock | openListen => []

/-- The sockets of the call that can be bound to the port. -/
def listeners : PairPlace → List ℕ
  | listen l _ | connect l _ | accept l _ => [l]
  | leave guards _ => guarded guards
  | _ => []

/-- The steps before the mutex is free again, at most. -/
def due : PairPlace → ℕ
  | outside | lock => 0
  | openListen => 9
  | openClient _ => 8
  | bind .. => 7
  | listen .. => 6
  | connect .. => 5
  | accept .. => 4
  | leave guards _ => guards.length + 1

end PairPlace

/-- A process with its descriptors, and what the system knows of the port. A client that waits at a
listening socket, or that a connection has, is a socket of the process or `none`. -/
structure SocketPairs where
  /-- the mutex -/
  flag : Bool := false
  table : FdTable := {}
  bound : List ℕ := []
  listening : List ℕ := []
  queue : ℕ → List (Option ℕ) := fun _ => []
  links : List (Option ℕ × ℕ) := []
  place : ℕ → PairPlace := fun _ => .outside
  /-- what calls have given to their callers -/
  returned : List (ℕ × ℕ) := []

inductive PairLabel where
  | call (thread : ℕ)
  /-- The next system call of a thread succeeds or not. `connect` comes to the socket `target`, or
  to one of another program. -/
  | go (thread : ℕ) (ok : Bool) (target : Option ℕ)
  /-- Another program connects to the port. -/
  | stranger (listenSock : ℕ)
  deriving DecidableEq, Repr

/-- No other program has to do with the port. -/
def PairLabel.Own : PairLabel → Bool
  | call _ => true
  | go _ _ target => target.isSome
  | stranger _ => false

namespace SocketPairs
open PairPlace

def moveTo (f : SocketPairs) (thread : ℕ) (place : PairPlace) : SocketPairs :=
  { f with place := Function.update f.place thread place }

/-- `::closesocket`: the socket leaves the port, and who waits there is sent away. -/
def close (f : SocketPairs) (fd : Fd) : SocketPairs :=
  { f with
    table := f.table.close fd
    bound := f.bound.filter fun d => fd ≠ some d
    listening := f.listening.filter fun d => fd ≠ some d
    queue := fun d => if fd = some d then [] else f.queue d }

/-- A client arrives at a listening socket. -/
def arrive (f : SocketPairs) (listenSock : ℕ) (client : Option ℕ) : SocketPairs :=
  { f with queue := Function.update f.queue listenSock (f.queue listenSock ++ [client]) }

/-- The next system call of a thread. -/
def go (f : SocketPairs) (thread : ℕ) (ok : Bool) (target : Option ℕ) :
    Outcome Fault SocketPairs :=
  match f.place thread with
  | .outside => .refused
  | .lock => do
    Outcome.require (f.flag = false)
    return { f.moveTo thread .openListen with flag := true }
  | .openListen =>
    if ok then
      return { f.moveTo thread (.openClient (some f.table.obtained)) with
        table := f.table.obtain 1 }
    else return f.moveTo thread (.openClient none)
  | .openClient listenSock =>
    if ok then
      return { f.moveTo thread (test listenSock (some f.table.obtained)) with
        table := f.table.obtain 1 }
    else return f.moveTo thread (test listenSock none)
  | .bind l c =>
    if ok then return { f.moveTo thread (.listen l c) with bound := l :: f.bound }
    else return f.moveTo thread (fail l c)
  | .listen l c =>
    if ok then return { f.moveTo thread (.connect l c) with listening := l :: f.listening }
    else return f.moveTo thread (fail l c)
  | .connect l c =>
    if ok then
      match target with
      | none => return f.moveTo thread (.accept l c)
      | some d => do
        Outcome.require (d ∈ f.listening)
        return (f.arrive d (some c)).moveTo thread (.accept l c)
    else return f.moveTo thread (fail l c)
  | .accept l c =>
    if ok then
      match f.queue l with
      | [] => .refused
      | client :: queue =>
        -- `guard2.release()`
        return { f.moveTo thread (.leave [(SocketScopeGuard.mk (some c)).release, ⟨some l⟩]
            (some (c, f.table.obtained))) with
          table := f.table.obtain 1
          queue := Function.update f.queue l queue
          links := (client, f.table.obtained) :: f.links }
    else return f.moveTo thread (fail l c)
  | .leave (guard :: guards) socket =>
    return (f.close guard.socket).moveTo thread (.leave guards socket)
  | .leave [] socket =>
    return { f.moveTo thread .outside with
      flag := false
      returned := socket.toList ++ f.returned }

def step (f : SocketPairs) : PairLabel → Outcome Fault SocketPairs
  | .call thread => do
    Outcome.require (f.place thread = .outside)
    return f.moveTo thread .lock
  | .go thread ok target => f.go thread ok target
  | .stranger listenSock => do
    Outcome.require (listenSock ∈ f.listening)
    return f.arrive listenSock none

def start : SocketPairs := {}

/-- What a step of a thread does, by its place. -/
inductive Goes (f : SocketPairs) (thread : ℕ) :
    Bool → Option ℕ → PairPlace → SocketPairs → Prop where
  | locks {ok target} (free : f.flag = false) : Goes f thread ok target .lock
      { f.moveTo thread .openListen with flag := true }
  | opens {target} : Goes f thread true target .openListen
      { f.moveTo thread (.openClient (some f.table.obtained)) with table := f.table.obtain 1 }
  | lacks {target} : Goes f thread false target .openListen (f.moveTo thread (.openClient none))
  | opensClient {target listenSock} : Goes f thread true target (.openClient listenSock)
      { f.moveTo thread (test listenSock (some f.table.obtained)) with table := f.table.obtain 1 }
  | lacksClient {target listenSock} : Goes f thread false target (.openClient listenSock)
      (f.moveTo thread (test listenSock none))
  | binds {target l c} : Goes f thread true target (.bind l c)
      { f.moveTo thread (.listen l c) with bound := l :: f.bound }
  | listens {target l c} : Goes f thread true target (.listen l c)
      { f.moveTo thread (.connect l c) with listening := l :: f.listening }
  | strays {l c} : Goes f thread true none (.connect l c) (f.moveTo thread (.accept l c))
  | connects {l c d} (hd : d ∈ f.listening) : Goes f thread true (some d) (.connect l c)
      ((f.arrive d (some c)).moveTo thread (.accept l c))
  | accepts {target l c client queue} (hq : f.queue l = client :: queue) :
      Goes f thread true target (.accept l c)
        { f.moveTo thread (.leave [⟨none⟩, ⟨some l⟩] (some (c, f.table.obtained))) with
          table := f.table.obtain 1
          queue := Function.update f.queue l queue
          links := (client, f.table.obtained) :: f.links }
  | fails {target p l c} (hp : p.sockets = some (l, c)) :
      Goes f thread false target p (f.moveTo thread (fail l c))
  | closes {ok target guard guards socket} :
      Goes f thread ok target (.leave (guard :: guards) socket)
        ((f.close guard.socket).moveTo thread (.leave guards socket))
  | unlocks {ok target socket} : Goes f thread ok target (.leave [] socket)
      { f.moveTo thread .outside with flag := false, returned := socket.toList ++ f.returned }

variable {f g : SocketPairs} {thread i j : ℕ} {ok : Bool} {target : Option ℕ} {p q : PairPlace}

theorem go_next (h : f.go thread ok target = .next g) :
    Goes f thread ok target (f.place thread) g := by
  unfold go at h
  generalize f.place thread = place at h
  cases place with
  | outside => cases h
  | lock =>
    simp only [Outcome.bind_eq_next, Outcome.require_eq_next, Outcome.pure_eq,
      Outcome.next.injEq] at h
    obtain ⟨-, hfree, rfl⟩ := h
    exact .locks hfree
  | openListen =>
    cases ok with
    | true => cases h; exact .opens
    | false => cases h; exact .lacks
  | openClient listenSock =>
    cases ok with
    | true => cases h; exact .opensClient
    | false => cases h; exact .lacksClient
  | bind l c =>
    cases ok with
    | true => cases h; exact .binds
    | false => cases h; exact .fails rfl
  | listen l c =>
    cases ok with
    | true => cases h; exact .listens
    | false => cases h; exact .fails rfl
  | connect l c =>
    cases ok with
    | true =>
      cases target with
      | none => cases h; exact .strays
      | some d =>
        simp only [if_true, Outcome.bind_eq_next, Outcome.require_eq_next, Outcome.pure_eq,
          Outcome.next.injEq] at h
        obtain ⟨-, hd, rfl⟩ := h
        exact .connects hd
    | false => cases h; exact .fails rfl
  | accept l c =>
    cases ok with
    | true =>
      dsimp only at h
      cases hq : f.queue l with
      | nil => simp [hq] at h
      | cons client queue =>
        simp only [hq, if_true, Outcome.pure_eq, Outcome.next.injEq] at h
        subst h
        exact .accepts hq
    | false => cases h; exact .fails rfl
  | leave guards socket =>
    cases guards with
    | nil => cases h; exact .unlocks
    | cons guard guards => cases h; exact .closes

/-- The descriptors when nobody but the call at `p` holds any, and the sockets on the port. -/
structure Balanced (f : SocketPairs) (p : PairPlace) : Prop where
  placed : ∀ d, f.table.closed.count d + (ends f.returned).count d + p.holds.count d =
    if d < f.table.obtained then 1 else 0
  bound : ∀ d ∈ f.bound, d ∈ p.listeners
  listening : ∀ d ∈ f.listening, d ∈ p.listeners

/-- The invariant of the calls. -/
structure Inv (f : SocketPairs) : Prop where
  exclusive : Exclusive inside f.flag f.place
  balanced : ∀ i, (f.flag = true → (f.place i).inside = true) → Balanced f (f.place i)
  bound_le : f.bound.length ≤ 1

theorem Inv.start : Inv start where
  exclusive := .start fun _ => rfl
  balanced := fun _ _ => {
    placed := fun d => by simp [SocketPairs.start, ends, holds]
    bound := by simp [SocketPairs.start]
    listening := by simp [SocketPairs.start] }
  bound_le := Nat.zero_le _

theorem holds_of_outside (h : p.inside = false) : p.holds = [] ∧ p.listeners = [] := by
  cases p with
  | outside | lock => exact ⟨rfl, rfl⟩
  | _ => cases h

/-- A step that leaves the descriptors and the port alone. -/
theorem Balanced.carry (h : Balanced f p)
    (hkept : (g.table, g.returned, g.bound, g.listening) =
      (f.table, f.returned, f.bound, f.listening))
    (hholds : q.holds = p.holds) (hlisteners : q.listeners = p.listeners) : Balanced g q := by
  simp only [Prod.mk.injEq] at hkept
  obtain ⟨htable, hreturned, hbound, hlistening⟩ := hkept
  refine ⟨?_, ?_, ?_⟩
  · rw [htable, hreturned, hholds]
    exact h.placed
  · rw [hbound, hlisteners]
    exact h.bound
  · rw [hlistening, hlisteners]
    exact h.listening

theorem Balanced.outside (h : Balanced f p) (hp : p.inside = false) (hq : q.inside = false) :
    Balanced f q := by
  obtain ⟨hholds, hlisteners⟩ := holds_of_outside hp
  obtain ⟨hholds', hlisteners'⟩ := holds_of_outside hq
  exact h.carry rfl (hholds'.trans hholds.symm) (hlisteners'.trans hlisteners.symm)

/-- It is enough to look at the place of the thread that has moved. -/
theorem Inv.of_moved (he : Exclusive inside g.flag g.place) (hself : g.place thread = q)
    (hin : g.flag = true → q.inside = true) (h : Balanced g q) (hle : g.bound.length ≤ 1) :
    Inv g := by
  subst hself
  exact ⟨he, he.forall_owner hin (fun _ _ hp hq hb => hb.outside hp hq) h, hle⟩

/-- A move of the call that has the mutex. -/
theorem Inv.moved (h : Inv f) (hp : (f.place thread).inside = true)
    (hplace : g.place = Function.update f.place thread q) (hflag : g.flag = f.flag)
    (hq : q.inside = true) (hbal : Balanced g q) (hle : g.bound.length ≤ 1) : Inv g := by
  have he : Exclusive inside g.flag g.place := by
    rw [hplace, hflag]
    exact h.exclusive.move (hq.trans hp.symm)
  exact .of_moved he (by rw [hplace, Function.update_self]) (fun _ => hq) hbal hle

/-- A new descriptor that the call keeps. -/
theorem placed_obtain (h : Balanced f p)
    (hq : ∀ d, q.holds.count d = p.holds.count d + [f.table.obtained].count d) (d : ℕ) :
    (f.table.obtain 1).closed.count d + (ends f.returned).count d + q.holds.count d =
      if d < (f.table.obtain 1).obtained then 1 else 0 := by
  change f.table.closed.count d + _ + _ = if d < f.table.obtained + 1 then 1 else 0
  rw [hq, List.count_singleton, ← Nat.add_assoc, h.placed d]
  simp only [beq_iff_eq]
  split_ifs <;> omega

theorem count_test (listenSock clientSock : Fd) (d : ℕ) :
    (test listenSock clientSock).holds.count d =
      listenSock.toList.count d + clientSock.toList.count d := by
  cases listenSock <;> cases clientSock <;>
    simp [test, holds, guarded, ends, List.count_cons, Nat.add_comm]

theorem test_inside (listenSock clientSock : Fd) : (test listenSock clientSock).inside = true := by
  cases listenSock <;> cases clientSock <;> rfl

theorem Balanced.port_eq (h : Balanced f p) (hp : p.listeners = []) :
    f.bound = [] ∧ f.listening = [] := by
  have hbound := h.bound
  have hlistening := h.listening
  rw [hp] at hbound hlistening
  exact ⟨List.eq_nil_iff_forall_not_mem.mpr fun d hd => List.not_mem_nil (hbound d hd),
    List.eq_nil_iff_forall_not_mem.mpr fun d hd => List.not_mem_nil (hlistening d hd)⟩

theorem sockets_holds {l c : ℕ} (hp : p.sockets = some (l, c)) :
    p.inside = true ∧ p.holds = [l, c] ∧ ∀ d ∈ p.listeners, d ∈ (fail l c).listeners := by
  cases p with
  | bind | listen | connect | accept => cases hp; simp [inside, holds, listeners, fail, guarded]
  | _ => cases hp

/-- A call that gives up has its sockets in its guards. -/
theorem Balanced.fail {l c : ℕ} (h : Balanced f p) (hp : p.sockets = some (l, c)) :
    Balanced f (fail l c) := by
  obtain ⟨-, hholds, hguard⟩ := sockets_holds hp
  refine ⟨fun d => ?_, fun d hd => hguard d (h.bound d hd),
    fun d hd => hguard d (h.listening d hd)⟩
  · rw [← h.placed d, hholds]
    simp only [PairPlace.fail, holds, guarded, ends, List.flatMap_cons, List.flatMap_nil,
      Option.toList_some, Option.toList_none, List.append_nil, List.singleton_append,
      List.count_cons, List.count_nil]
    omega

/-- A guard goes, and closes what it has. -/
theorem Balanced.close {guard : SocketScopeGuard} {guards : List SocketScopeGuard}
    {socket : Option (ℕ × ℕ)} (h : Balanced f (.leave (guard :: guards) socket)) :
    Balanced (f.close guard.socket) (.leave guards socket) := by
  have hkept (d : ℕ) (hd : d ∈ (PairPlace.leave (guard :: guards) socket).listeners)
      (hne : guard.socket ≠ some d) : d ∈ (PairPlace.leave guards socket).listeners := by
    simp only [listeners, guarded, List.flatMap_cons, List.mem_append, Option.mem_toList] at hd
    exact hd.resolve_left hne
  refine ⟨fun d => ?_, fun d hd => ?_, fun d hd => ?_⟩
  · have hd := h.placed d
    simp only [holds, guarded, List.flatMap_cons, List.count_append] at hd
    simp only [SocketPairs.close, Process.count_close, Process.close_obtained, holds, guarded,
      List.count_append]
    omega
  · obtain ⟨hmem, hne⟩ := List.mem_filter.mp hd
    exact hkept d (h.bound d hmem) (by simpa using hne)
  · obtain ⟨hmem, hne⟩ := List.mem_filter.mp hd
    exact hkept d (h.listening d hmem) (by simpa using hne)

theorem Inv.go (h : Inv f) (hs : f.go thread ok target = .next g) : Inv g := by
  have hgo := go_next hs
  have hbal := h.balanced thread
  obtain ⟨place, hp⟩ : ∃ place, f.place thread = place := ⟨_, rfl⟩
  rw [hp] at hgo hbal
  cases hgo with
  | locks hfree =>
    have he := h.exclusive
    rw [hfree] at he hbal
    have hbal := hbal fun hno => absurd hno Bool.false_ne_true
    exact .of_moved (he.acquire (i := thread) (b := PairPlace.openListen) rfl)
      (Function.update_self ..) (fun _ => rfl) (hbal.carry rfl rfl rfl) h.bound_le
  | opens =>
    have hbal := hbal fun _ => rfl
    exact h.moved (hp ▸ rfl) rfl rfl rfl
      ⟨placed_obtain hbal fun d => (Nat.zero_add _).symm, hbal.bound, hbal.listening⟩ h.bound_le
  | lacks | strays | connects =>
    exact h.moved (hp ▸ rfl) rfl rfl rfl ((hbal fun _ => rfl).carry rfl rfl rfl) h.bound_le
  | @opensClient target listenSock =>
    have hbal := hbal fun _ => rfl
    obtain ⟨hbound, hlistening⟩ := hbal.port_eq rfl
    refine h.moved (hp ▸ rfl) rfl rfl (test_inside ..)
      ⟨placed_obtain hbal fun d => count_test .., fun d hd => ?_, fun d hd => ?_⟩ h.bound_le
    · exact absurd (hbound ▸ hd) List.not_mem_nil
    · exact absurd (hlistening ▸ hd) List.not_mem_nil
  | @lacksClient target listenSock =>
    have hbal := hbal fun _ => rfl
    obtain ⟨hbound, hlistening⟩ := hbal.port_eq rfl
    refine h.moved (hp ▸ rfl) rfl rfl (test_inside ..)
      ⟨fun d => ?_, fun d hd => ?_, fun d hd => ?_⟩ h.bound_le
    · rw [count_test]
      exact hbal.placed d
    · exact absurd (hbound ▸ hd) List.not_mem_nil
    · exact absurd (hlistening ▸ hd) List.not_mem_nil
  | @binds target l c =>
    have hbal := hbal fun _ => rfl
    obtain ⟨hbound, hlistening⟩ := hbal.port_eq rfl
    have hone : l :: f.bound = [l] := by rw [hbound]
    have hmem (d : ℕ) (hd : d ∈ l :: f.bound) : d ∈ [l] := hone ▸ hd
    refine h.moved (hp ▸ rfl) rfl rfl rfl ⟨hbal.placed, hmem, fun d hd => ?_⟩ ?_
    · exact absurd (hlistening ▸ hd) List.not_mem_nil
    · exact (congrArg List.length hone).le
  | @listens target l c =>
    have hbal := hbal fun _ => rfl
    refine h.moved (hp ▸ rfl) rfl rfl rfl ⟨hbal.placed, hbal.bound, fun d hd => ?_⟩ h.bound_le
    rcases List.mem_cons.mp hd with rfl | hd
    · exact List.mem_singleton_self _
    · exact hbal.listening d hd
  | @accepts target l c client queue hq =>
    have hbal := hbal fun _ => rfl
    refine h.moved (hp ▸ rfl) rfl rfl rfl
      ⟨placed_obtain hbal fun d => ?_, hbal.bound, hbal.listening⟩ h.bound_le
    simp only [holds, guarded, ends, List.flatMap_cons, List.flatMap_nil, Option.toList_some,
      Option.toList_none, List.nil_append, List.append_nil, List.singleton_append, List.count_cons,
      List.count_nil]
    omega
  | fails hsockets =>
    have hin := (sockets_holds hsockets).1
    have hbal := (hbal fun _ => hin).fail hsockets
    exact h.moved (hp ▸ hin) rfl rfl rfl (hbal.carry rfl rfl rfl) h.bound_le
  | closes =>
    have hbal := (hbal fun _ => rfl).close
    exact h.moved (hp ▸ rfl) rfl rfl rfl (hbal.carry rfl rfl rfl)
      ((List.length_filter_le ..).trans h.bound_le)
  | @unlocks ok target socket =>
    have hbal := hbal fun _ => rfl
    refine .of_moved (h.exclusive.release (i := thread) (b := PairPlace.outside) (hp ▸ rfl) rfl)
      (Function.update_self ..) (fun hno => absurd hno Bool.false_ne_true)
      ⟨fun d => ?_, hbal.bound, hbal.listening⟩ h.bound_le
    refine Eq.trans ?_ (hbal.placed d)
    simp only [moveTo, holds, guarded, ends, List.flatMap_append, List.flatMap_nil,
      List.count_append, List.count_nil]
    omega

theorem Inv.step {l : PairLabel} (h : Inv f) (hs : f.step l = .next g) : Inv g := by
  cases l with
  | call thread =>
    simp only [SocketPairs.step, Outcome.bind_eq_next, Outcome.require_eq_next, Outcome.pure_eq,
      Outcome.next.injEq] at hs
    obtain ⟨-, hp, rfl⟩ := hs
    have hout : (f.place thread).inside = false := by rw [hp]; rfl
    refine ⟨h.exclusive.move hout.symm, fun i hi => ?_, h.bound_le⟩
    exact (forall_owner_outside (P := Balanced f) hout (b := PairPlace.lock) rfl
      (fun _ _ hp hq hb => hb.outside hp hq) h.balanced i hi).carry rfl rfl rfl
  | go thread ok target => exact h.go hs
  | stranger d =>
    simp only [SocketPairs.step, Outcome.bind_eq_next, Outcome.require_eq_next, Outcome.pure_eq,
      Outcome.next.injEq] at hs
    obtain ⟨-, -, rfl⟩ := hs
    exact ⟨h.exclusive, fun i hi => (h.balanced i hi).carry rfl rfl rfl, h.bound_le⟩

/-- A call in progress, the only one, or nobody has anything in hand. -/
theorem Inv.exists_owner (h : Inv f) : ∃ i, Balanced f (f.place i) ∧
    ∀ j, (f.place j).holds ≠ [] → j = i := by
  cases hflag : f.flag with
  | true =>
    obtain ⟨i, hi⟩ := h.exclusive.held.mp hflag
    refine ⟨i, h.balanced i fun _ => hi, fun j hj => ?_⟩
    cases hin : (f.place j).inside with
    | true => exact h.exclusive.alone j i hin hi
    | false => exact absurd (holds_of_outside hin).1 hj
  | false =>
    have he := h.exclusive
    rw [hflag] at he
    refine ⟨0, h.balanced 0 fun hno => ?_, fun j hj => ?_⟩
    · rw [hflag] at hno
      cases hno
    · exact absurd (holds_of_outside (he.outside j)).1 hj

/-- In every order of the steps of any calls, whatever system calls fail and whoever else comes to
the port: one call at a time is behind the mutex, and it finds the port free of the others. No
descriptor is closed twice or given to two callers, and those that are open are the ones that
callers were given and the ones in the hands of the call. -/
theorem pairs_kept {labels : List PairLabel} (hrun : run step start labels = .next f) :
    (∀ i j, (f.place i).inside = true → (f.place j).inside = true → i = j) ∧
    f.bound.length ≤ 1 ∧ (∀ i l c, f.place i = .bind l c → f.bound = []) ∧
    (f.table.closed ++ ends f.returned).Nodup ∧
    ∀ d, d < f.table.obtained ∧ d ∉ f.table.closed ↔
      d ∈ ends f.returned ∨ ∃ i, d ∈ (f.place i).holds := by
  have h : Inv f := run_invariant (fun _ _ _ => Inv.step) Inv.start hrun
  obtain ⟨i, hbal, honly⟩ := h.exists_owner
  have hcount (d : ℕ) : (f.table.closed ++ ends f.returned).count d + (f.place i).holds.count d =
      if d < f.table.obtained then 1 else 0 := by
    rw [List.count_append]
    exact hbal.placed d
  refine ⟨h.exclusive.alone, h.bound_le, fun j l c hj => ?_, ?_, fun d => ?_⟩
  · have hin : (f.place j).inside = true := by rw [hj]; rfl
    have hb := h.balanced j fun _ => hin
    rw [hj] at hb
    exact (hb.port_eq rfl).1
  · refine List.nodup_iff_count_le_one.mpr fun d => ?_
    have := hcount d
    split_ifs at this <;> omega
  · have hd := hcount d
    have hheld : (∃ j, d ∈ (f.place j).holds) ↔ d ∈ (f.place i).holds := by
      refine ⟨?_, fun hi => ⟨i, hi⟩⟩
      rintro ⟨j, hj⟩
      exact honly j (List.ne_nil_of_mem hj) ▸ hj
    rw [List.count_append] at hd
    rw [hheld, ← List.count_pos_iff, ← List.count_pos_iff, ← List.count_pos_iff]
    split_ifs at hd <;> omega

/-- Two calls at once: the second one waits for the mutex, and then it fails at its `bind`. -/
def twoCalls : List PairLabel :=
  [.call 0, .go 0 true (some 0), .go 0 true (some 0), .call 1, .go 0 true (some 0),
    .go 0 true (some 0), .go 0 true (some 0), .go 0 true (some 0), .go 0 true (some 0),
    .go 0 true (some 0), .go 0 true (some 0), .go 0 true (some 0), .go 1 true (some 0),
    .go 1 true (some 0), .go 1 true (some 0), .go 1 false (some 0), .go 1 true (some 0),
    .go 1 true (some 0), .go 1 true (some 0)]

theorem twoCalls_ends : ∃ f, run step start twoCalls = .next f ∧ f.returned = [(1, 2)] := by
  obtain ⟨f, hf, hends⟩ := Outcome.yields_eq_true.mp (show
    (run step start twoCalls).yields (fun f => f.returned = [(1, 2)]) = true by decide +kernel)
  exact ⟨f, hf, of_decide_eq_true hends⟩

theorem pairs_kept_two : ∃ f, run step start twoCalls = .next f ∧ f.returned = [(1, 2)] ∧
    (f.table.closed ++ ends [(1, 2)]).Nodup := by
  obtain ⟨f, hf, hends⟩ := twoCalls_ends
  obtain ⟨-, -, -, hnodup, -⟩ := pairs_kept hf
  exact ⟨f, hf, hends, hends ▸ hnodup⟩

/-- What a call finds at its listening socket while nobody else comes to the port. -/
def Finds (f : SocketPairs) : PairPlace → Prop
  | .listen l _ => f.queue l = []
  | .connect l _ => f.queue l = [] ∧ l ∈ f.listening
  | .accept l c => f.queue l = [some c]
  | .leave guards socket =>
    guards.length ≤ 2 ∧ ∀ pair ∈ socket, (some pair.1, pair.2) ∈ f.links
  | _ => True

/-- Nobody waits elsewhere. -/
structure Quiet (f : SocketPairs) (p : PairPlace) : Prop where
  queue : ∀ d, d ∉ p.listeners → f.queue d = []
  finds : Finds f p

/-- The invariant of the calls that have the port for themselves. -/
structure Private (f : SocketPairs) : Prop where
  inv : Inv f
  quiet : ∀ i, (f.flag = true → (f.place i).inside = true) → Quiet f (f.place i)
  linked : ∀ pair ∈ f.returned, (some pair.1, pair.2) ∈ f.links

theorem Private.start : Private start where
  inv := .start
  quiet := fun _ _ => ⟨fun _ _ => rfl, trivial⟩
  linked := fun _ h => absurd h List.not_mem_nil

theorem Quiet.outside (h : Quiet f p) (hp : p.inside = false) (hq : q.inside = false) :
    Quiet f q := by
  refine ⟨?_, ?_⟩
  · rw [(holds_of_outside hq).2, ← (holds_of_outside hp).2]
    exact h.queue
  · cases q with
    | outside | lock => trivial
    | _ => cases hq

theorem Private.of_moved (h : Inv g) (hself : g.place thread = q)
    (hin : g.flag = true → q.inside = true) (hq : Quiet g q)
    (hl : ∀ pair ∈ g.returned, (some pair.1, pair.2) ∈ g.links) : Private g := by
  subst hself
  exact ⟨h, h.exclusive.forall_owner hin (fun _ _ hp hq hr => hr.outside hp hq) hq, hl⟩

theorem Quiet.all (h : Quiet f p) (hp : p.listeners = []) (d : ℕ) : f.queue d = [] :=
  h.queue d (hp ▸ List.not_mem_nil)

theorem finds_test (f : SocketPairs) (listenSock clientSock : Fd) :
    Finds f (test listenSock clientSock) := by
  cases listenSock with
  | none => exact ⟨le_rfl, fun _ hpair => absurd hpair (Option.not_mem_none _)⟩
  | some l =>
    cases clientSock with
    | none => exact ⟨le_rfl, fun _ hpair => absurd hpair (Option.not_mem_none _)⟩
    | some c => trivial

theorem finds_moveTo (f : SocketPairs) (thread : ℕ) (q : PairPlace) :
    Finds (f.moveTo thread q) p ↔ Finds f p := by
  cases p <;> exact Iff.rfl

theorem Private.go {d : ℕ} (h : Private f) (hs : f.go thread ok (some d) = .next g) :
    Private g := by
  have hinv := h.inv.go hs
  have hgo := go_next hs
  have hbal := h.inv.balanced thread
  have hquiet := h.quiet thread
  obtain ⟨place, hp⟩ : ∃ place, f.place thread = place := ⟨_, rfl⟩
  rw [hp] at hgo hbal hquiet
  generalize hd : some d = target at hgo
  cases hgo with
  | locks hfree =>
    have hq := hquiet fun hno => absurd (hfree.symm.trans hno) Bool.false_ne_true
    exact .of_moved hinv (Function.update_self ..) (fun _ => rfl) ⟨hq.queue, trivial⟩ h.linked
  | opens | lacks =>
    have hq := hquiet fun _ => rfl
    exact .of_moved hinv (Function.update_self ..) (fun _ => rfl) ⟨hq.queue, trivial⟩ h.linked
  | opensClient | lacksClient =>
    have hq := hquiet fun _ => rfl
    exact .of_moved hinv (Function.update_self ..) (fun _ => test_inside ..)
      ⟨fun d _ => hq.all rfl d, finds_test ..⟩ h.linked
  | binds =>
    have hq := hquiet fun _ => rfl
    exact .of_moved hinv (Function.update_self ..) (fun _ => rfl)
      ⟨fun d _ => hq.all rfl d, hq.all rfl _⟩ h.linked
  | listens =>
    have hq := hquiet fun _ => rfl
    exact .of_moved hinv (Function.update_self ..) (fun _ => rfl)
      ⟨hq.queue, hq.finds, List.mem_cons_self⟩ h.linked
  | strays => cases hd
  | @connects l c d' hmem =>
    have hq := hquiet fun _ => rfl
    obtain rfl : d' = l := List.mem_singleton.mp ((hbal fun _ => rfl).listening _ hmem)
    have hfirst : f.queue d' = [] := hq.finds.1
    refine .of_moved hinv (Function.update_self ..) (fun _ => rfl) ⟨fun e he => ?_, ?_⟩ h.linked
    · have hne : e ≠ d' := fun heq => he (heq ▸ List.mem_singleton_self _)
      exact (Function.update_of_ne hne ..).trans (hq.queue e he)
    · have hself : (f.arrive d' (some c)).queue d' = f.queue d' ++ [some c] :=
        Function.update_self ..
      rw [hfirst] at hself
      exact hself
  | @accepts target l c client queue hqueue =>
    have hq := hquiet fun _ => rfl
    have hwaits : client :: queue = [some c] := hqueue.symm.trans hq.finds
    obtain ⟨rfl, rfl⟩ := List.cons_eq_cons.mp hwaits
    refine .of_moved hinv (Function.update_self ..) (fun _ => rfl) ⟨fun e he => ?_, ?_⟩ ?_
    · have hne : e ≠ l := fun heq => he (heq ▸ List.mem_singleton_self _)
      exact (Function.update_of_ne hne ..).trans (hq.queue e he)
    · refine ⟨le_rfl, ?_⟩
      rintro pair ⟨⟩
      exact List.mem_cons_self
    · exact fun pair hpair => List.mem_cons_of_mem _ (h.linked pair hpair)
  | fails hsockets =>
    obtain ⟨hin, -, hguard⟩ := sockets_holds hsockets
    have hq := hquiet fun _ => hin
    exact .of_moved hinv (Function.update_self ..) (fun _ => rfl)
      ⟨fun e he => hq.queue e fun hmem => he (hguard e hmem),
        le_rfl, fun _ hpair => absurd hpair (Option.not_mem_none _)⟩ h.linked
  | @closes ok target guard guards socket =>
    have hq := hquiet fun _ => rfl
    refine .of_moved hinv (Function.update_self ..) (fun _ => rfl)
      ⟨fun e he => ?_, (Nat.le_succ _).trans hq.finds.1, hq.finds.2⟩ h.linked
    change (if guard.socket = some e then [] else f.queue e) = []
    split_ifs with hclosed
    · rfl
    · refine hq.queue e fun hmem => he ?_
      simp only [listeners, guarded, List.flatMap_cons, List.mem_append, Option.mem_toList] at hmem
      exact hmem.resolve_left hclosed
  | @unlocks ok target socket =>
    have hq := hquiet fun _ => rfl
    refine .of_moved hinv (Function.update_self ..) (fun hno => absurd hno Bool.false_ne_true)
      ⟨hq.queue, trivial⟩ fun pair hpair => ?_
    rcases List.mem_append.mp hpair with hpair | hpair
    · exact hq.finds.2 pair (Option.mem_toList.mp hpair)
    · exact h.linked pair hpair

theorem Private.step {l : PairLabel} (h : Private f) (hl : l.Own = true)
    (hs : f.step l = .next g) : Private g := by
  cases l with
  | call thread =>
    have hinv := h.inv.step hs
    simp only [SocketPairs.step, Outcome.bind_eq_next, Outcome.require_eq_next, Outcome.pure_eq,
      Outcome.next.injEq] at hs
    obtain ⟨-, hp, rfl⟩ := hs
    have hout : (f.place thread).inside = false := by rw [hp]; rfl
    refine ⟨hinv, fun i hi => ?_, h.linked⟩
    obtain ⟨hqueue, hfinds⟩ := forall_owner_outside (P := Quiet f) hout (b := PairPlace.lock) rfl
      (fun _ _ hp hq hr => hr.outside hp hq) h.quiet i hi
    exact ⟨hqueue, (finds_moveTo ..).mpr hfinds⟩
  | go thread ok target =>
    obtain ⟨d, rfl⟩ := Option.isSome_iff_exists.mp hl
    exact h.go hs
  | stranger d => cases hl

theorem due_test_lt (listenSock clientSock : Fd) : (test listenSock clientSock).due < 8 := by
  cases listenSock <;> cases clientSock <;> simp [test, due]

theorem due_fail_lt {l c : ℕ} (hp : p.sockets = some (l, c)) : (fail l c).due < p.due := by
  cases p with
  | bind | listen | connect | accept => simp [fail, due]
  | _ => cases hp

/-- A step of the call inside brings it nearer to its end. -/
theorem Goes.due_lt (h : Goes f thread ok target p g) (hin : p.inside = true) :
    (g.place thread).due < p.due ∧ ((g.place thread).inside = true ∨ g.flag = false) := by
  have hself (q : PairPlace) : Function.update f.place thread q thread = q :=
    Function.update_self ..
  cases h with
  | locks => cases hin
  | opens | lacks | binds | listens | strays | connects | accepts | closes =>
    dsimp only [moveTo, arrive, SocketPairs.close]
    rw [hself]
    exact ⟨by simp [due], .inl rfl⟩
  | opensClient | lacksClient =>
    dsimp only [moveTo]
    rw [hself]
    exact ⟨due_test_lt .., .inl (test_inside ..)⟩
  | fails hsockets =>
    dsimp only [moveTo]
    rw [hself]
    exact ⟨due_fail_lt hsockets, .inl rfl⟩
  | unlocks =>
    dsimp only [moveTo]
    rw [hself]
    exact ⟨Nat.zero_lt_one, .inr rfl⟩

theorem Private.due_le (h : Private f) (hin : (f.place thread).inside = true) :
    (f.place thread).due ≤ 9 := by
  have hfinds := (h.quiet thread fun _ => hin).finds
  generalize f.place thread = place at hfinds
  cases place with
  | leave guards socket =>
    have := hfinds.1
    simp only [due]
    omega
  | _ => simp [due]

/-- No system call keeps the call inside waiting: where it accepts, its own client is there. -/
theorem Private.goes_on (h : Private f) (hin : (f.place thread).inside = true) (ok : Bool) :
    ∃ d g, f.go thread ok (some d) = .next g := by
  have hfinds := (h.quiet thread fun _ => hin).finds
  unfold SocketPairs.go
  generalize f.place thread = place at hin hfinds
  cases place with
  | outside | lock => cases hin
  | openListen | openClient | bind | listen => cases ok <;> exact ⟨0, _, rfl⟩
  | connect l c =>
    cases ok with
    | true => exact ⟨l, _, by simp [hfinds.2, Outcome.require]; rfl⟩
    | false => exact ⟨0, _, rfl⟩
  | accept l c =>
    cases ok with
    | true =>
      have hwaits : f.queue l = [some c] := hfinds
      exact ⟨0, _, by simp only [hwaits, if_true]; rfl⟩
    | false => exact ⟨0, _, rfl⟩
  | leave guards socket => cases guards <;> exact ⟨0, _, rfl⟩

/-- The call inside comes out, whatever the system answers. -/
theorem Private.releases {oks : List Bool} (h : Private f)
    (hin : (f.place thread).inside = true) (hlen : (f.place thread).due ≤ oks.length) :
    ∃ ds g, run SocketPairs.step f
        (List.zipWith (fun ok d => PairLabel.go thread ok (some d)) oks ds) = .next g ∧
      g.flag = false := by
  induction oks generalizing f with
  | nil =>
    obtain ⟨d, g, hg⟩ := h.goes_on hin true
    have := (go_next hg).due_lt hin
    simp only [List.length_nil] at hlen
    omega
  | cons ok oks ih =>
    obtain ⟨d, g, hg⟩ := h.goes_on hin ok
    have hstep : f.step (.go thread ok (some d)) = .next g := hg
    obtain ⟨hless, hin' | hflag⟩ := (go_next hg).due_lt hin
    · rw [List.length_cons] at hlen
      obtain ⟨ds, g', hrun, hflag⟩ := ih (h.step rfl hstep) hin' (by omega)
      refine ⟨d :: ds, g', ?_, hflag⟩
      rw [List.zipWith_cons_cons, run_cons, hstep, Outcome.next_bind, hrun]
    · refine ⟨[d], g, ?_, hflag⟩
      rw [List.zipWith_cons_cons, run_cons, hstep, List.zipWith_nil_right]
      rfl

/-- As long as no other program comes to the port, the two sockets that a call gives are the ends of
one connection, made by that call. And no call keeps the mutex: whichever answers the system gives
to its next nine system calls, the thread inside comes out. -/
theorem pairs_connected {labels : List PairLabel} (alone : ∀ l ∈ labels, l.Own = true)
    (hrun : run step start labels = .next f) :
    (∀ pair ∈ f.returned, (some pair.1, pair.2) ∈ f.links) ∧
    ∀ i, (f.place i).inside = true → ∀ oks : List Bool, 9 ≤ oks.length → ∃ ds g,
      run step f (List.zipWith (fun ok d => PairLabel.go i ok (some d)) oks ds) = .next g ∧
        g.flag = false := by
  have h : Private f := run_invariant_of (C := fun _ l => l.Own = true)
    (fun _ _ _ h hl hs => h.step hl hs) Private.start (stepsMeet_of_forall alone) hrun
  exact ⟨h.linked, fun i hin oks hlen => h.releases hin ((h.due_le hin).trans hlen)⟩

theorem pairs_connected_two : ∃ f, run step start twoCalls = .next f ∧ (some 1, 2) ∈ f.links := by
  obtain ⟨f, hf, hends⟩ := twoCalls_ends
  exact ⟨f, hf, (pairs_connected (by decide) hf).1 (1, 2) (hends ▸ List.mem_cons_self)⟩

end SocketPairs
end Potato
