import Potato.SessionInvariant
import Mathlib.Data.Finset.Basic
import Mathlib.Data.Finset.Range

/-!
# The pool of connections

The main thread in `newConnection`, and the loop threads that bring connections
back. A step is a critical section, the test in front of it, or a step of the
session in one slot. A slot numbers its sockets for itself, and calls its own loop
number 0. The set of borrowed indices is not in the code.
-/
namespace Potato
open Machine

/-- The indices below `size` are either available or borrowed. -/
structure Partition (size : ℕ) (available borrowed : Finset ℕ) : Prop where
  disjoint : Disjoint available borrowed
  exact : available ∪ borrowed = Finset.range size

namespace Partition
variable {size i : ℕ} {available borrowed : Finset ℕ}

theorem mem_iff (h : Partition size available borrowed) :
    i ∈ available ∨ i ∈ borrowed ↔ i < size := by
  rw [← Finset.mem_union, h.exact, Finset.mem_range]

theorem not_borrowed (h : Partition size available borrowed) (hi : i ∈ available) :
    i ∉ borrowed :=
  Finset.disjoint_left.mp h.disjoint hi

theorem empty : Partition 0 ∅ ∅ := ⟨Finset.disjoint_empty_left _, rfl⟩

theorem grow (h : Partition size available borrowed) :
    Partition (size + 1) (insert size available) borrowed := by
  refine ⟨?_, ?_⟩
  · rw [Finset.disjoint_insert_left]
    refine ⟨fun hb => ?_, h.disjoint⟩
    exact absurd (h.mem_iff.mp (.inr hb)) (Nat.lt_irrefl size)
  · rw [Finset.insert_union, h.exact, Finset.range_add_one]

theorem take (h : Partition size available borrowed) (hi : i ∈ available) :
    Partition size (available.erase i) (insert i borrowed) := by
  refine ⟨?_, ?_⟩
  · rw [Finset.disjoint_insert_right]
    exact ⟨Finset.notMem_erase i available, h.disjoint.mono_left (Finset.erase_subset i available)⟩
  · rw [Finset.union_insert, ← Finset.insert_union, Finset.insert_erase hi, h.exact]

theorem back (h : Partition size available borrowed) (hi : i ∈ borrowed) :
    Partition size (insert i available) (borrowed.erase i) := by
  refine ⟨?_, ?_⟩
  · rw [Finset.disjoint_insert_left]
    exact ⟨Finset.notMem_erase i borrowed, h.disjoint.mono_right (Finset.erase_subset i borrowed)⟩
  · rw [Finset.insert_union, ← Finset.union_insert, Finset.insert_erase hi, h.exact]

end Partition

/-- Where the main thread is in `newConnection`. -/
inductive MainPc where
  | idle
  /-- behind the first test, which found the set empty -/
  | refill
  /-- in front of the second critical section of `borrowConnection` -/
  | take
  /-- with the index that it took -/
  | bind (index : ℕ)
  deriving DecidableEq, Repr

/-- The pool of a `TcpServer`. `returning` lists the connections whose worker is in front of the
critical section of `returnConnection`. -/
structure ConnectionPool where
  connectionPool : List Session := []
  availIndex : Finset ℕ := ∅
  pc : MainPc := .idle
  borrowed : Finset ℕ := ∅
  returning : List ℕ := []
  deriving DecidableEq

inductive PoolLabel where
  /-- `newConnection` is called and tests the set. -/
  | accept
  | refill
  /-- The first element of the set is `index`. -/
  | take (index : ℕ)
  /-- The rest of `newConnection`. -/
  | bind
  /-- Something happens on the loop of a connection. -/
  | work (index : ℕ) (l : Label)
  /-- `returnConnection` puts an index back. -/
  | back (index : ℕ)
  deriving DecidableEq, Repr

namespace ConnectionPool

/-- `std::numeric_limits<int>::max()`. -/
def intMax : ℕ := 2 ^ 31 - 1

/-- The slots that are made at a time. -/
def slots : ℕ := 200

/-- The loop that makes `n` connections, from the number `index` on. -/
def emplace : ℕ → ℕ → ConnectionPool → ConnectionPool
  | 0, _, p => p
  | n + 1, index, p =>
    emplace n (index + 1)
      { p with
        connectionPool := p.connectionPool ++ [Session.start index]
        availIndex := insert index p.availIndex }

/-- The constructor of `TcpServer`. -/
def start : ConnectionPool := emplace slots 0 {}

/-- The critical section that refills, up to the last `++index`. -/
def refill (p : ConnectionPool) : Outcome Fault ConnectionPool := do
  if p.availIndex = ∅ then
    Outcome.check (p.connectionPool.length + slots ≤ intMax) .intOverflow
    return emplace slots p.connectionPool.length p
  else return p

/-- The end of `newConnection`, for the slot that was borrowed. -/
def bindSlot (srv : TcpServer) (s : Session) : Outcome Fault Session := do
  let c ← srv.newConnection s.conn { id := s.nextSocket } 0
  return { s with
    conn := c
    bindPosted := true
    available := false
    nextSocket := s.nextSocket + 1
    trace := [] }

/-- The rest of `reset` runs, and `returnConnection` comes next. -/
def Resets (s : Session) (l : Label) : Bool := l == .go && s.stack.head? == some .resetTail

def step (srv : TcpServer) (p : ConnectionPool) : PoolLabel → Outcome Fault ConnectionPool
  | .accept => do
    Outcome.require (p.pc = .idle)
    return { p with pc := if p.availIndex = ∅ then .refill else .take }
  | .refill => do
    Outcome.require (p.pc = .refill)
    let p ← p.refill
    return { p with pc := .take }
  | .take index => do
    Outcome.require (p.pc = .take)
    Outcome.check (p.availIndex ≠ ∅) .emptyPool
    Outcome.require (index ∈ p.availIndex)
    return { p with
      availIndex := p.availIndex.erase index
      borrowed := insert index p.borrowed
      pc := .bind index }
  | .bind =>
    match p.pc with
    | .bind index => do
      let s ← Outcome.deref p.connectionPool[index]? .outOfRange
      let s ← bindSlot srv s
      return { p with connectionPool := p.connectionPool.set index s, pc := .idle }
    | _ => .refused
  | .work index l =>
    match p.connectionPool[index]? with
    | none => .refused
    | some s => do
      Outcome.require (l ≠ .accept)
      let t ← Session.step srv s l
      return { p with
        connectionPool := p.connectionPool.set index t
        returning := if Resets s l then index :: p.returning else p.returning }
  | .back index =>
    match p.connectionPool[index]? with
    | none => .refused
    | some s => do
      Outcome.require (index ∈ p.returning)
      return { p with
        availIndex := insert s.conn.index p.availIndex
        borrowed := p.borrowed.erase s.conn.index
        returning := p.returning.erase index }

variable {srv : TcpServer} {p q : ConnectionPool} {s t : Session} {l : Label}

theorem getElem?_snoc {xs : List Session} {a b : Session} {i : ℕ}
    (h : (xs ++ [a])[i]? = some b) : xs[i]? = some b ∨ (i = xs.length ∧ b = a) := by
  rw [List.getElem?_append] at h
  split_ifs at h with hi
  · exact .inl h
  · obtain ⟨hlt, hb⟩ := List.getElem?_eq_some_iff.mp h
    have hzero : i - xs.length = 0 := by simpa using hlt
    simp only [hzero, List.getElem_cons_zero] at hb
    exact .inr ⟨by omega, hb.symm⟩

theorem getElem?_of_set {xs : List Session} {a b : Session} {i j : ℕ}
    (h : (xs.set i a)[j]? = some b) : (j = i ∧ b = a) ∨ (j ≠ i ∧ xs[j]? = some b) := by
  by_cases hj : j = i
  · subst hj
    obtain ⟨hlt, hb⟩ := List.getElem?_eq_some_iff.mp h
    rw [List.getElem_set_self] at hb
    exact .inl ⟨rfl, hb.symm⟩
  · rw [List.getElem?_set_ne (Ne.symm hj)] at h
    exact .inr ⟨hj, h⟩

theorem resets_eq {act : Act} {rest : List Frame} (h : Session.Turn s l act rest) :
    (act == .resetTail) = Resets s l := by
  cases h with
  | bound | read => rfl
  | readTest hs | writeTail hs | resetTail hs => simp [Resets, hs]
  | posted _ hf =>
    rw [beq_eq_false_iff_ne.mpr (by rintro rfl; cases hf)]
    rfl
  | call _ hcall =>
    rw [beq_eq_false_iff_ne.mpr (by rintro rfl; cases hcall)]
    rfl
  | @dispatch _ _ _ callback _ _ _ _ _ hact =>
    subst hact
    cases callback <;> rfl

/-- A step in a slot keeps its index, and frees the slot if it is the rest of `reset`. -/
theorem work_next (hi : Session.Inv srv s) (hl : l ≠ .accept)
    (hs : Session.step srv s l = .next t) :
    t.conn.index = s.conn.index ∧ t.available = (s.available || Resets s l) := by
  cases Session.step_next hi.held hs with
  | accepted => exact absurd rfl hl
  | polled | skipped | returned => simp [Resets]
  | ran ht _ hm hconn _ _ _ havail =>
    rw [hconn, havail, resets_eq ht]
    exact ⟨hm.index_eq, rfl⟩

/-- A slot that is about to be freed is not free. -/
theorem not_available_of_resets (hi : Session.Inv srv s) (h : Resets s l = true) :
    s.available = false := by
  simp only [Resets, Bool.and_eq_true, beq_iff_eq] at h
  obtain ⟨rest, hrest⟩ := List.head?_eq_some_iff.mp h.2
  have hmem : .resetTail ∈ s.stack := by simp [hrest]
  by_contra hno
  exact (hi.closing hmem).1 (hi.pooled (by simpa using hno)).2.2

/-- The invariant. A slot is free when its index is in the set, on the way back to it, or taken
out of it by the main thread. -/
structure Inv (srv : TcpServer) (p : ConnectionPool) : Prop where
  slot : ∀ i s, p.connectionPool[i]? = some s → Session.Inv srv s ∧ s.conn.index = i
  parts : Partition p.connectionPool.length p.availIndex p.borrowed
  free : ∀ i s, p.connectionPool[i]? = some s →
    (s.available = true ↔ i ∈ p.availIndex ∨ i ∈ p.returning ∨ p.pc = .bind i)
  returning : ∀ i ∈ p.returning, i ∈ p.borrowed
  once : p.returning.Nodup
  binding : ∀ i, p.pc = .bind i → i ∈ p.borrowed ∧ i ∉ p.returning
  nonempty : p.pc = .take → p.availIndex.Nonempty

theorem Inv.start_empty : Inv srv {} where
  slot := fun _ _ h => nomatch h
  parts := .empty
  free := fun _ _ h => nomatch h
  returning := fun _ h => nomatch h
  once := .nil
  binding := fun _ h => nomatch h
  nonempty := fun h => nomatch h

theorem Inv.lt_of_borrowed (h : Inv srv p) {i : ℕ} (hi : i ∈ p.borrowed) :
    i < p.connectionPool.length := h.parts.mem_iff.mp (.inr hi)

/-- One round of the loop that makes connections. -/
theorem Inv.grow (h : Inv srv p) : Inv srv
    { p with
      connectionPool := p.connectionPool ++ [Session.start p.connectionPool.length]
      availIndex := insert p.connectionPool.length p.availIndex } where
  slot := by
    intro i s hs
    rcases getElem?_snoc hs with hs | ⟨rfl, rfl⟩
    · exact h.slot i s hs
    · exact ⟨.start _, rfl⟩
  parts := by
    rw [List.length_append]
    exact h.parts.grow
  free := by
    intro i s hs
    rcases getElem?_snoc hs with hs | ⟨rfl, rfl⟩
    · have hne : i ≠ p.connectionPool.length := by
        have := (List.getElem?_eq_some_iff.mp hs).1
        omega
      simp only [h.free i s hs, Finset.mem_insert, hne, false_or]
    · simp [Session.start]
  returning := h.returning
  once := h.once
  binding := h.binding
  nonempty := fun _ => Finset.insert_nonempty ..

theorem Inv.emplace (h : Inv srv p) (n : ℕ) : Inv srv (emplace n p.connectionPool.length p) := by
  induction n generalizing p with
  | zero => exact h
  | succ n ih =>
    have hnext := ih h.grow
    rwa [List.length_append] at hnext

theorem Inv.start : Inv srv start := Inv.emplace .start_empty slots

theorem emplace_pc (n index : ℕ) (p : ConnectionPool) : (emplace n index p).pc = p.pc := by
  induction n generalizing index p with
  | zero => rfl
  | succ n ih => exact ih _ _

theorem subset_emplace (n index : ℕ) (p : ConnectionPool) :
    p.availIndex ⊆ (emplace n index p).availIndex := by
  induction n generalizing index p with
  | zero => exact Finset.Subset.refl _
  | succ n ih =>
    intro i hi
    exact ih _ _ (Finset.mem_insert_of_mem hi)

theorem emplace_nonempty {n : ℕ} (hn : 0 < n) (index : ℕ) (p : ConnectionPool) :
    (emplace n index p).availIndex.Nonempty := by
  cases n with
  | zero => omega
  | succ n =>
    unfold emplace
    exact ⟨index, subset_emplace _ _ _ (Finset.mem_insert_self index p.availIndex)⟩

theorem refill_next (h : p.refill = .next q) :
    (p.availIndex.Nonempty ∧ q = p) ∨ q = emplace slots p.connectionPool.length p := by
  unfold refill at h
  split_ifs at h with hempty
  · simp only [Outcome.bind_eq_next, Outcome.pure_eq, Outcome.next.injEq] at h
    obtain ⟨-, -, rfl⟩ := h
    exact .inr rfl
  · cases h
    exact .inl ⟨Finset.nonempty_iff_ne_empty.mpr hempty, rfl⟩

theorem bindSlot_next (h : bindSlot srv s = .next t) : s.conn.Unbound ∧ t =
    { s with
      conn := Session.rebound srv s.conn s.nextSocket
      bindPosted := true
      available := false
      nextSocket := s.nextSocket + 1
      trace := [] } := by
  simp only [bindSlot, Outcome.bind_eq_next, Outcome.pure_eq, Outcome.next.injEq] at h
  obtain ⟨c, hc, rfl⟩ := h
  obtain ⟨hu, rfl⟩ := Session.newConnection_next hc
  exact ⟨hu, rfl⟩

theorem Inv.refilled (h : Inv srv p) (hpc : p.pc = .refill) (hr : p.refill = .next q) :
    Inv srv { q with pc := .take } := by
  have key : ∀ r, Inv srv r → r.pc = .refill → r.availIndex.Nonempty →
      Inv srv { r with pc := .take } := by
    intro r hi hpc hne
    refine ⟨hi.slot, hi.parts, fun i s hs => ?_, hi.returning, hi.once,
      (fun _ hno => nomatch hno), fun _ => hne⟩
    simpa [hpc] using hi.free i s hs
  rcases refill_next hr with ⟨hne, rfl⟩ | rfl
  · exact key _ h hpc hne
  · exact key _ (h.emplace slots) ((emplace_pc ..).trans hpc) (emplace_nonempty (by decide) ..)

theorem Inv.taken (h : Inv srv p) (hpc : p.pc = .take) {index : ℕ} (hi : index ∈ p.availIndex) :
    Inv srv { p with
      availIndex := p.availIndex.erase index
      borrowed := insert index p.borrowed
      pc := .bind index } where
  slot := h.slot
  parts := h.parts.take hi
  free := by
    intro i s hs
    rw [h.free i s hs]
    by_cases he : i = index
    · subst he
      simp [hi]
    · simp [he, Ne.symm he, hpc]
  returning := fun i hr => Finset.mem_insert_of_mem (h.returning i hr)
  once := h.once
  binding := by
    intro i hb
    cases hb
    exact ⟨Finset.mem_insert_self .., fun hr => h.parts.not_borrowed hi (h.returning _ hr)⟩
  nonempty := fun hno => nomatch hno

theorem Inv.bound (h : Inv srv p) {index : ℕ} (hpc : p.pc = .bind index)
    (hs : p.connectionPool[index]? = some s) (ht : bindSlot srv s = .next t) :
    Inv srv { p with connectionPool := p.connectionPool.set index t, pc := .idle } := by
  obtain ⟨hborrowed, hnot⟩ := h.binding index hpc
  have hava : s.available = true := (h.free index s hs).mpr (.inr (.inr hpc))
  obtain ⟨-, rfl⟩ := bindSlot_next ht
  refine ⟨fun i u hu => ?_, ?_, fun i u hu => ?_, h.returning, h.once, (fun _ hno => nomatch hno),
    (fun hno => nomatch hno)⟩
  · rcases getElem?_of_set hu with ⟨rfl, rfl⟩ | ⟨-, hu⟩
    · exact ⟨(h.slot _ s hs).1.accepted hava, (h.slot _ s hs).2⟩
    · exact h.slot i u hu
  · rw [List.length_set]
    exact h.parts
  · rcases getElem?_of_set hu with ⟨rfl, rfl⟩ | ⟨hne, hu⟩
    · have hna : i ∉ p.availIndex := fun ha => h.parts.not_borrowed ha hborrowed
      simp [hna, hnot]
    · simp [h.free i u hu, hpc, Ne.symm hne]

theorem Inv.worked (h : Inv srv p) {index : ℕ} (hl : l ≠ .accept)
    (hs : p.connectionPool[index]? = some s) (ht : Session.step srv s l = .next t) :
    Inv srv { p with
      connectionPool := p.connectionPool.set index t
      returning := if Resets s l then index :: p.returning else p.returning } := by
  obtain ⟨hsi, hindex⟩ := h.slot index s hs
  obtain ⟨hsame, hava⟩ := work_next hsi hl ht
  have hlt := (List.getElem?_eq_some_iff.mp hs).1
  -- a slot that is not free is borrowed, and on no way back
  have hbusy : Resets s l = true →
      index ∈ p.borrowed ∧ index ∉ p.returning ∧ p.pc ≠ .bind index := by
    intro hr
    have hno : ¬ s.available = true := by simp [not_available_of_resets hsi hr]
    rw [h.free index s hs] at hno
    push Not at hno
    exact ⟨(h.parts.mem_iff.mpr hlt).resolve_left hno.1, hno.2.1, hno.2.2⟩
  have hmem : ∀ i, i ∈ (if Resets s l then index :: p.returning else p.returning) ↔
      (i = index ∧ Resets s l = true) ∨ i ∈ p.returning := by
    intro i
    by_cases hr : Resets s l = true <;> simp [hr]
  refine ⟨fun i u hu => ?_, ?_, fun i u hu => ?_, fun i hi => ?_, ?_, fun i hb => ?_, h.nonempty⟩
  · rcases getElem?_of_set hu with ⟨rfl, rfl⟩ | ⟨-, hu⟩
    · exact ⟨hsi.step ht, hsame.trans hindex⟩
    · exact h.slot i u hu
  · rw [List.length_set]
    exact h.parts
  · simp only [hmem]
    rcases getElem?_of_set hu with ⟨rfl, rfl⟩ | ⟨hne, hu⟩
    · have hfree := h.free i s hs
      rw [hava, Bool.or_eq_true, hfree]
      tauto
    · rw [h.free i u hu]
      tauto
  · rcases (hmem i).mp hi with ⟨rfl, hr⟩ | hi
    · exact (hbusy hr).1
    · exact h.returning i hi
  · split_ifs with hr
    · exact List.nodup_cons.mpr ⟨(hbusy hr).2.1, h.once⟩
    · exact h.once
  · refine ⟨(h.binding i hb).1, fun hi => ?_⟩
    rcases (hmem i).mp hi with ⟨rfl, hr⟩ | hi
    · exact (hbusy hr).2.2 hb
    · exact (h.binding i hb).2 hi

theorem Inv.returned (h : Inv srv p) {index : ℕ} (hi : index ∈ p.returning) :
    Inv srv { p with
      availIndex := insert index p.availIndex
      borrowed := p.borrowed.erase index
      returning := p.returning.erase index } where
  slot := h.slot
  parts := h.parts.back (h.returning index hi)
  free := by
    intro i s hs
    rw [h.free i s hs, Finset.mem_insert, h.once.mem_erase_iff]
    by_cases he : i = index
    · subst he
      simp [hi]
    · simp [he]
  returning := by
    intro i hr
    rw [h.once.mem_erase_iff] at hr
    exact Finset.mem_erase.mpr ⟨hr.1, h.returning i hr.2⟩
  once := h.once.erase index
  binding := by
    intro i hb
    obtain ⟨hborrowed, hnot⟩ := h.binding i hb
    refine ⟨Finset.mem_erase.mpr ⟨?_, hborrowed⟩, fun hr => hnot (List.mem_of_mem_erase hr)⟩
    rintro rfl
    exact hnot hi
  nonempty := fun _ => Finset.insert_nonempty ..

theorem Inv.step {l : PoolLabel} (h : Inv srv p) (hs : step srv p l = .next q) : Inv srv q := by
  cases l with
  | accept =>
    simp only [ConnectionPool.step, Outcome.bind_eq_next, Outcome.require_eq_next, Outcome.pure_eq,
      Outcome.next.injEq] at hs
    obtain ⟨-, hpc, rfl⟩ := hs
    refine ⟨h.slot, h.parts, fun i s hs => ?_, h.returning, h.once, fun i hb => ?_, fun ht => ?_⟩
    · rw [h.free i s hs, hpc]
      split_ifs <;> simp
    · split_ifs at hb
    · split_ifs at ht with hempty
      exact Finset.nonempty_iff_ne_empty.mpr hempty
  | refill =>
    simp only [ConnectionPool.step, Outcome.bind_eq_next, Outcome.require_eq_next, Outcome.pure_eq,
      Outcome.next.injEq] at hs
    obtain ⟨-, hpc, r, hr, rfl⟩ := hs
    exact h.refilled hpc hr
  | take index =>
    simp only [ConnectionPool.step, Outcome.bind_eq_next, Outcome.require_eq_next,
      Outcome.check_eq_next, Outcome.pure_eq, Outcome.next.injEq] at hs
    obtain ⟨-, hpc, -, -, -, hi, rfl⟩ := hs
    exact h.taken hpc hi
  | bind =>
    simp only [ConnectionPool.step] at hs
    split at hs
    · next index hpc =>
      simp only [Outcome.bind_eq_next, Outcome.deref_eq_next, Outcome.pure_eq,
        Outcome.next.injEq] at hs
      obtain ⟨s, hget, t, ht, rfl⟩ := hs
      exact h.bound hpc hget ht
    · cases hs
  | work index l =>
    simp only [ConnectionPool.step] at hs
    split at hs
    · cases hs
    · next s hget =>
      simp only [Outcome.bind_eq_next, Outcome.require_eq_next, Outcome.pure_eq,
        Outcome.next.injEq] at hs
      obtain ⟨-, hl, t, ht, rfl⟩ := hs
      exact h.worked hl hget ht
  | back index =>
    simp only [ConnectionPool.step] at hs
    split at hs
    · cases hs
    · next s hget =>
      simp only [Outcome.bind_eq_next, Outcome.require_eq_next, Outcome.pure_eq,
        Outcome.next.injEq] at hs
      obtain ⟨-, hi, rfl⟩ := hs
      rw [(h.slot index s hget).2]
      exact h.returned hi

theorem Inv.step_fault {l : PoolLabel} {f : Fault} (h : Inv srv p)
    (hl : ∀ index sl, l ≠ .work index sl) (hf : ConnectionPool.step srv p l = .fault f) :
    f = .intOverflow := by
  cases l with
  | work index sl => exact absurd rfl (hl index sl)
  | accept => simp [ConnectionPool.step] at hf
  | refill =>
    simp only [ConnectionPool.step, refill, Outcome.bind_eq_fault, Outcome.require_ne_fault,
      Outcome.pure_eq, reduceCtorEq, and_false, exists_false, or_false, false_or] at hf
    obtain ⟨-, -, hf⟩ := hf
    split_ifs at hf
    simp only [Outcome.bind_eq_fault, Outcome.check_eq_fault, reduceCtorEq, and_false,
      exists_false, or_false] at hf
    exact hf.2.symm
  | take index =>
    simp only [ConnectionPool.step, Outcome.bind_eq_fault, Outcome.require_ne_fault,
      Outcome.require_eq_next, Outcome.check_eq_fault, Outcome.pure_eq, reduceCtorEq, and_false,
      exists_false, or_false, false_or] at hf
    obtain ⟨-, hpc, hempty, -⟩ := hf
    exact absurd (h.nonempty hpc).ne_empty hempty
  | bind =>
    simp only [ConnectionPool.step] at hf
    split at hf
    · next index hpc =>
      have hlt := h.lt_of_borrowed (h.binding index hpc).1
      have hget := List.getElem?_eq_getElem hlt
      have hava := (h.free index _ hget).mpr (.inr (.inr hpc))
      have hunbound := (h.slot index _ hget).1.pooled hava
      simp [hget, Outcome.deref, bindSlot, Session.newConnection_eq hunbound] at hf
    · cases hf
  | back index =>
    simp only [ConnectionPool.step] at hf
    split at hf <;> simp at hf

/-- What a pool in use promises. -/
structure Sound (srv : TcpServer) (p : ConnectionPool) : Prop where
  index : ∀ (i : ℕ) (s : Session), p.connectionPool[i]? = some s → s.conn.index = i
  parts : Partition p.connectionPool.length p.availIndex p.borrowed
  unbound : ∀ i ∈ p.availIndex, ∃ s : Session, p.connectionPool[i]? = some s ∧ s.conn.Unbound
  filled : p.pc = .take → p.availIndex.Nonempty
  /-- `borrowConnection` hands out nothing that is still borrowed. -/
  lends : ∀ i q, step srv p (.take i) = .next q → i ∉ p.borrowed
  /-- Neither the pool nor `bindSocket` asserts in vain. -/
  asserts : ∀ l f, (∀ i sl, l ≠ .work i sl) → step srv p l = .fault f → f = .intOverflow

theorem Inv.sound (h : Inv srv p) : Sound srv p where
  index := fun i s hs => (h.slot i s hs).2
  parts := h.parts
  unbound := by
    intro i hi
    have hget := List.getElem?_eq_getElem (h.parts.mem_iff.mp (.inl hi))
    exact ⟨_, hget, (h.slot i _ hget).1.pooled ((h.free i _ hget).mpr (.inl hi))⟩
  filled := h.nonempty
  lends := by
    intro i q hq
    simp only [ConnectionPool.step, Outcome.bind_eq_next, Outcome.require_eq_next,
      Outcome.check_eq_next] at hq
    obtain ⟨-, -, -, -, -, hi, -⟩ := hq
    exact h.parts.not_borrowed hi
  asserts := fun _ _ hl hf => h.step_fault hl hf

/-- The pool is sound in every reachable state, whatever the loop threads do in between. -/
theorem pool_partition (srv : TcpServer) (ls : List PoolLabel) (p : ConnectionPool)
    (run_eq : run (step srv) start ls = .next p) : Sound srv p := by
  have h : Inv srv p := run_invariant (fun _ _ _ h hs => Inv.step h hs) .start run_eq
  exact h.sound

/-- A connection is borrowed, closed by the peer and on its way back while the next is borrowed. -/
theorem pool_partition_reuse : ∃ p,
    run (step ⟨⟨.linux, .little⟩, false, false, true, false⟩) start
      [.accept, .take 7, .bind, .work 7 .bound, .accept, .work 7 (.poll EPOLLHUP),
        .work 7 (.dispatch .again), .take 3, .work 7 .go, .bind, .back 7, .accept, .take 7] =
      .next p ∧ Sound ⟨⟨.linux, .little⟩, false, false, true, false⟩ p := by
  obtain ⟨p, hp, -⟩ := Outcome.yields_eq_true.mp (show
    (run (step ⟨⟨.linux, .little⟩, false, false, true, false⟩) start
      [.accept, .take 7, .bind, .work 7 .bound, .accept, .work 7 (.poll EPOLLHUP),
        .work 7 (.dispatch .again), .take 3, .work 7 .go, .bind, .back 7, .accept,
        .take 7]).yields (fun _ => true) = true by decide +kernel)
  exact ⟨p, hp, pool_partition _ _ p hp⟩

end ConnectionPool
end Potato
