import Mathlib.Data.List.ReduceOption
import Potato.Descriptors

/-!
# The loop of `handleAccept`

`Acceptor::handleAccept` over the system calls that it makes. First a host with a table of
descriptors of fixed size, on which `errno` is what the last call that failed left behind:
the reserve descriptor lets the loop empty the backlog also when the table is full. Then an
arbitrary series of answers of `accept`, for which the loop returns or not.
-/
namespace Potato

/-- The system calls of `handleAccept`, on a state of type `σ`. -/
structure SystemCalls (σ : Type) where
  accept : σ → Except Errno ℕ × σ
  close : σ → Fd → Except Errno Unit × σ
  /-- `::open("/dev/null", O_RDONLY | O_CLOEXEC)` -/
  openDevNull : σ → Except Errno ℕ × σ

/-- `idleFd_`, `errno` and what lies behind the system calls. -/
structure AcceptLoop (σ : Type) where
  idleFd : Fd
  errno : Errno
  kernel : σ
  deriving DecidableEq, Repr

namespace AcceptLoop
variable {σ α : Type} (os : SystemCalls σ)

/-- What a call returns. One that fails says why in `errno`, and another leaves `errno` alone. -/
def answer (s : AcceptLoop σ) : Except Errno α × σ → Option α × AcceptLoop σ
  | (.ok a, kernel) => (some a, { s with kernel := kernel })
  | (.error e, kernel) => (none, { s with errno := e, kernel := kernel })

def accept (s : AcceptLoop σ) : Option ℕ × AcceptLoop σ := s.answer (os.accept s.kernel)

def close (s : AcceptLoop σ) (fd : Fd) : AcceptLoop σ := (s.answer (os.close s.kernel fd)).2

/-- `idleFd_ = ::open("/dev/null", ..)` -/
def reopen (s : AcceptLoop σ) : AcceptLoop σ :=
  let (fd, s) := s.answer (os.openDevNull s.kernel)
  { s with idleFd := fd }

/-- The branch for `EMFILE`, and whether the loop goes on behind it. -/
def shed (s : AcceptLoop σ) : Bool × AcceptLoop σ :=
  let s := s.close os s.idleFd
  let (fd, s) := s.accept os
  let s := { s with idleFd := fd }
  if s.errno = .EAGAIN then (false, s.reopen os)
  else (true, (s.close os s.idleFd).reopen os)

/-- The body of the loop, and whether the loop goes on behind it. Another error is only logged. -/
def round (system : System) (newConnectionCallback : Option (σ → ℕ → σ)) (s : AcceptLoop σ) :
    Bool × AcceptLoop σ :=
  match s.accept os with
  | (some fd, s) =>
    match newConnectionCallback with
    | some callback => (true, { s with kernel := callback s.kernel fd })
    | none => (true, s.close os (some fd))
  | (none, s) =>
    match system with
    | .linux =>
      if s.errno = .EMFILE then s.shed os
      else if s.errno ≠ .EAGAIN then (true, s)
      else (false, s)
    | .windows => if s.errno ≠ .EAGAIN then (true, s) else (false, s)

/-- The loop with `n` rounds left, if it ends within them. -/
def handleAccept (system : System) (newConnectionCallback : Option (σ → ℕ → σ)) :
    ℕ → AcceptLoop σ → Option (AcceptLoop σ)
  | 0, _ => none
  | n + 1, s =>
    match s.round os system newConnectionCallback with
    | (true, s) => handleAccept system newConnectionCallback n s
    | (false, s) => some s

variable {os} {system : System} {callback : Option (σ → ℕ → σ)} {s t u : AcceptLoop σ}

theorem handleAccept_go {n : ℕ} (h : s.round os system callback = (true, t)) :
    s.handleAccept os system callback (n + 1) = t.handleAccept os system callback n := by
  rw [handleAccept, h]

theorem handleAccept_break (h : s.round os system callback = (false, t)) :
    s.handleAccept os system callback 1 = some t := by
  rw [handleAccept, h]

end AcceptLoop

/-- What an open descriptor refers to: connections have numbers. -/
inductive OpenFile where
  | devNull
  | connection (c : ℕ)
  | other
  deriving DecidableEq, Repr

/-- A host with one slot for each descriptor that the limit allows. `delivered` lists the
connections that the callback has been given, `closed` those whose descriptor has been closed. -/
structure Host where
  slots : List (Option OpenFile)
  backlog : List ℕ
  delivered : List ℕ := []
  closed : List ℕ := []
  deriving DecidableEq, Repr

namespace Host

/-- The lowest descriptor that is free. -/
def free (h : Host) : Option ℕ := h.slots.findIdx? Option.isNone

/-- The descriptors that are open, by what they refer to. -/
def files (h : Host) : List OpenFile := h.slots.reduceOption

def connectionOf : OpenFile → List ℕ
  | .connection c => [c]
  | _ => []

def accept (h : Host) : Except Errno ℕ × Host :=
  match h.free with
  | none => (.error .EMFILE, h)
  | some fd =>
    match h.backlog with
    | [] => (.error .EAGAIN, h)
    | c :: backlog =>
      (.ok fd, { h with slots := h.slots.set fd (some (.connection c)), backlog := backlog })

def close (h : Host) (fd : Fd) : Except Errno Unit × Host :=
  match fd with
  | none => (.error .EBADF, h)
  | some i =>
    match h.slots[i]? with
    | some (some file) =>
      (.ok (), { h with slots := h.slots.set i none, closed := h.closed ++ connectionOf file })
    | _ => (.error .EBADF, h)

def openDevNull (h : Host) : Except Errno ℕ × Host :=
  match h.free with
  | none => (.error .EMFILE, h)
  | some fd => (.ok fd, { h with slots := h.slots.set fd (some .devNull) })

def calls : SystemCalls Host := ⟨accept, close, openDevNull⟩

/-- A callback that keeps the socket with descriptor `fd`, or closes it. -/
def deliver (keeps : Host → ℕ → Bool) (h : Host) (fd : ℕ) : Host :=
  let connections := (h.slots[fd]?.join.map connectionOf).getD []
  let h := { h with delivered := h.delivered ++ connections }
  if keeps h fd then h else (h.close (some fd)).2

variable {h h' : Host} {fd i c : ℕ} {file : OpenFile} {rest kept returned dropped : List ℕ}

theorem slots_of_free (hf : h.free = some i) : h.slots[i]? = some none := by
  obtain ⟨hi, hnone, -⟩ := List.findIdx?_eq_some_iff_getElem.mp hf
  rw [List.getElem?_eq_getElem hi, Option.isNone_iff_eq_none.mp hnone]

theorem free_of_slots (hi : h.slots[i]? = some none) : ∃ j, h.free = some j := by
  cases hf : h.free with
  | some j => exact ⟨j, rfl⟩
  | none =>
    have := List.findIdx?_eq_none_iff.mp hf none (List.mem_of_getElem? hi)
    cases this

/-- Filling a free slot opens one file. -/
theorem count_fill {slots : List (Option OpenFile)} (hi : slots[i]? = some none)
    (file f : OpenFile) : (slots.set i (some file)).reduceOption.count f =
      slots.reduceOption.count f + [file].count f := by
  induction slots generalizing i with
  | nil => cases hi
  | cons slot slots ih =>
    cases i with
    | zero =>
      obtain rfl : slot = none := by simpa using hi
      rw [List.set_cons_zero, List.reduceOption_cons_of_some, List.reduceOption_cons_of_none,
        ← List.singleton_append, List.count_append]
      omega
    | succ i =>
      have hrest := ih (i := i) (by simpa using hi)
      rw [List.set_cons_succ]
      cases slot with
      | none => simpa only [List.reduceOption_cons_of_none] using hrest
      | some g =>
        simp only [List.reduceOption_cons_of_some, List.count_cons, hrest]
        omega

/-- Clearing a slot closes its file. -/
theorem count_clear {slots : List (Option OpenFile)} (hi : slots[i]? = some (some file))
    (f : OpenFile) : (slots.set i none).reduceOption.count f + [file].count f =
      slots.reduceOption.count f := by
  obtain ⟨hlt, hget⟩ := List.getElem?_eq_some_iff.mp hi
  have hback : (slots.set i none).set i (some file) = slots := by
    rw [List.set_set, ← hget, List.set_getElem_self]
  have hnone : (slots.set i none)[i]? = some none := List.getElem?_set_self hlt
  rw [← count_fill hnone, hback]

theorem accept_eq (hf : h.free = some fd) (hb : h.backlog = c :: rest) :
    h.accept = (.ok fd,
      { h with slots := h.slots.set fd (some (.connection c)), backlog := rest }) := by
  simp only [accept, hf, hb]

theorem close_eq (hi : h.slots[i]? = some (some file)) :
    h.close (some i) = (.ok (),
      { h with slots := h.slots.set i none, closed := h.closed ++ connectionOf file }) := by
  simp only [close, hi]

theorem openDevNull_eq (hf : h.free = some fd) :
    h.openDevNull = (.ok fd, { h with slots := h.slots.set fd (some .devNull) }) := by
  simp only [openDevNull, hf]

/-- What became of the connections that a host has taken from its backlog: `kept` and `returned`
were delivered, and of these `returned` were closed again; `dropped` were closed at once. -/
structure Served (h h' : Host) (kept returned dropped : List ℕ) : Prop where
  backlog : ∀ c, h.backlog.count c =
    kept.count c + returned.count c + dropped.count c + h'.backlog.count c
  delivered : ∀ c, h'.delivered.count c = h.delivered.count c + kept.count c + returned.count c
  closed : ∀ c, h'.closed.count c = h.closed.count c + returned.count c + dropped.count c
  files : ∀ f, h'.files.count f = h.files.count f + (kept.map OpenFile.connection).count f

theorem Served.trans {h₁ h₂ h₃ : Host} {k₁ r₁ d₁ k₂ r₂ d₂ : List ℕ} (h : Served h₁ h₂ k₁ r₁ d₁)
    (h' : Served h₂ h₃ k₂ r₂ d₂) : Served h₁ h₃ (k₁ ++ k₂) (r₁ ++ r₂) (d₁ ++ d₂) where
  backlog := fun c => by
    rw [h.backlog, h'.backlog]
    simp only [List.count_append]
    omega
  delivered := fun c => by
    rw [h'.delivered, h.delivered]
    simp only [List.count_append]
    omega
  closed := fun c => by
    rw [h'.closed, h.closed]
    simp only [List.count_append]
    omega
  files := fun f => by
    rw [h'.files, h.files]
    simp only [List.map_append, List.count_append]
    omega

/-- As many descriptors are open in the end as were at the start, and those that were kept. -/
theorem Served.length_files {h₁ h₂ : Host} (h : Served h₁ h₂ kept returned dropped) :
    h₂.files.length = h₁.files.length + kept.length := by
  have hperm : h₂.files.Perm (h₁.files ++ kept.map OpenFile.connection) := by
    rw [List.perm_iff_count]
    intro f
    rw [h.files, List.count_append]
  rw [hperm.length_eq, List.length_append, List.length_map]

theorem Served.refl (h : Host) : Served h h [] [] [] :=
  ⟨fun _ => by simp, fun _ => by simp, fun _ => by simp, fun _ => by simp⟩

theorem files_fill (hi : h.slots[fd]? = some none) (f : OpenFile) :
    ({ h with slots := h.slots.set fd (some file) } : Host).files.count f =
      h.files.count f + [file].count f :=
  count_fill hi file f

/-- A descriptor that is filled and cleared is free again. -/
theorem files_fill_clear (hi : h.slots[fd]? = some none) (f : OpenFile) :
    ((h.slots.set fd (some file)).set fd none).reduceOption.count f = h.files.count f := by
  have hlt := (List.getElem?_eq_some_iff.mp hi).1
  have hset : (h.slots.set fd (some file))[fd]? = some (some file) := List.getElem?_set_self hlt
  have hfill := count_fill hi file f
  have hclear := count_clear hset f
  simp only [files]
  omega

/-- The first connection of the backlog, kept by the callback. -/
theorem served_kept (hi : h.slots[fd]? = some none) (hb : h.backlog = c :: rest) :
    Served h { h with
      slots := h.slots.set fd (some (.connection c))
      backlog := rest
      delivered := h.delivered ++ [c] } [c] [] [] where
  backlog := fun d => by simp [hb, List.count_cons, add_comm]
  delivered := fun d => by simp
  closed := fun d => by simp
  files := fun f => files_fill hi f

/-- The first connection of the backlog, closed by the callback. -/
theorem served_returned (hi : h.slots[fd]? = some none) (hb : h.backlog = c :: rest) :
    Served h { h with
      slots := (h.slots.set fd (some (.connection c))).set fd none
      backlog := rest
      delivered := h.delivered ++ [c]
      closed := h.closed ++ [c] } [] [c] [] where
  backlog := fun d => by simp [hb, List.count_cons, add_comm]
  delivered := fun d => by simp
  closed := fun d => by simp
  files := fun f => files_fill_clear hi f

/-- The first connection of the backlog, closed without a callback. -/
theorem served_dropped (hi : h.slots[fd]? = some none) (hb : h.backlog = c :: rest) :
    Served h { h with
      slots := (h.slots.set fd (some (.connection c))).set fd none
      backlog := rest
      closed := h.closed ++ [c] } [] [] [c] where
  backlog := fun d => by simp [hb, List.count_cons, add_comm]
  delivered := fun d => by simp
  closed := fun d => by simp
  files := fun f => files_fill_clear hi f

theorem deliver_eq {keeps : Host → ℕ → Bool} (hi : h.slots[fd]? = some (some (.connection c))) :
    h.deliver keeps fd =
      if keeps { h with delivered := h.delivered ++ [c] } fd then
        { h with delivered := h.delivered ++ [c] }
      else
        { h with
          slots := h.slots.set fd none
          delivered := h.delivered ++ [c]
          closed := h.closed ++ [c] } := by
  simp only [deliver, hi, Option.join_some, Option.map_some, Option.getD_some, connectionOf]
  rw [close_eq (h := { h with delivered := h.delivered ++ [c] }) hi]
  rfl

end Host

namespace AcceptLoop
open Host
variable {s t : AcceptLoop Host} {i c : ℕ} {rest : List ℕ}

/-- `idleFd_` holds an open descriptor of `/dev/null`. -/
def Reserved (s : AcceptLoop Host) : Prop :=
  ∃ i, s.idleFd = some i ∧ s.kernel.slots[i]? = some (some .devNull)

/-- What a round does when the backlog has nothing for it: the loop ends. -/
structure Ends (s t : AcceptLoop Host) : Prop where
  reserved : t.Reserved
  backlog : t.kernel.backlog = []
  served : Served s.kernel t.kernel [] [] []

/-- What a round does with the first connection of the backlog. -/
structure Takes (s t : AcceptLoop Host) (rest : List ℕ) : Prop where
  reserved : t.Reserved
  backlog : t.kernel.backlog = rest
  served : ∃ kept returned dropped, Served s.kernel t.kernel kept returned dropped

theorem accept_full (hf : s.kernel.free = none) :
    s.accept calls = (none, { s with errno := .EMFILE }) := by
  change s.answer s.kernel.accept = _
  rw [Host.accept, hf]
  rfl

theorem accept_empty {fd : ℕ} (hf : s.kernel.free = some fd) (hb : s.kernel.backlog = []) :
    s.accept calls = (none, { s with errno := .EAGAIN }) := by
  change s.answer s.kernel.accept = _
  rw [Host.accept, hf, hb]
  rfl

theorem accept_next {fd : ℕ} (hf : s.kernel.free = some fd) (hb : s.kernel.backlog = c :: rest) :
    s.accept calls = (some fd, { s with
      kernel := { s.kernel with
        slots := s.kernel.slots.set fd (some (.connection c)), backlog := rest } }) := by
  change s.answer s.kernel.accept = _
  rw [accept_eq hf hb]
  rfl

theorem close_open {file : OpenFile} (hi : s.kernel.slots[i]? = some (some file)) :
    s.close calls (some i) = { s with
      kernel := { s.kernel with
        slots := s.kernel.slots.set i none
        closed := s.kernel.closed ++ connectionOf file } } := by
  change (s.answer (s.kernel.close (some i))).2 = _
  rw [close_eq hi]
  rfl

theorem reopen_free {fd : ℕ} (hf : s.kernel.free = some fd) :
    s.reopen calls = { s with
      idleFd := some fd
      kernel := { s.kernel with slots := s.kernel.slots.set fd (some .devNull) } } := by
  unfold reopen
  change (match s.answer s.kernel.openDevNull with | (fd, s) => { s with idleFd := fd }) = _
  rw [openDevNull_eq hf]
  rfl

/-- `close(idleFd_)` with a reserve: one descriptor more is free, and the rest is as before. -/
structure Released (s s₁ : AcceptLoop Host) : Prop where
  free : ∃ j, s₁.kernel.free = some j
  files : ∀ f, s₁.kernel.files.count f + [OpenFile.devNull].count f = s.kernel.files.count f
  backlog : s₁.kernel.backlog = s.kernel.backlog
  delivered : s₁.kernel.delivered = s.kernel.delivered
  closed : s₁.kernel.closed = s.kernel.closed
  errno : s₁.errno = s.errno

theorem close_idle (h : s.Reserved) : Released s (s.close calls s.idleFd) := by
  obtain ⟨i, hidle, hi⟩ := h
  have hlt := (List.getElem?_eq_some_iff.mp hi).1
  rw [hidle, close_open hi]
  refine ⟨free_of_slots (List.getElem?_set_self hlt), count_clear hi, rfl, rfl, ?_, rfl⟩
  exact List.append_nil _

/-- With an empty backlog the second `accept` says so, and the reserve is opened again. -/
theorem shed_empty (h : s.Reserved) (hb : s.kernel.backlog = []) :
    ∃ t, s.shed calls = (false, t) ∧ Ends s t := by
  have hrel := close_idle h
  obtain ⟨s₁, hs₁⟩ : ∃ s₁, s₁ = s.close calls s.idleFd := ⟨_, rfl⟩
  rw [← hs₁] at hrel
  obtain ⟨j, hj⟩ := hrel.free
  have hslot := slots_of_free hj
  have hb₁ : s₁.kernel.backlog = [] := hrel.backlog.trans hb
  have hshed : s.shed calls = (false, { s₁ with
      idleFd := some j
      errno := .EAGAIN
      kernel := { s₁.kernel with slots := s₁.kernel.slots.set j (some .devNull) } }) := by
    simp only [shed, ← hs₁, accept_empty hj hb₁, if_true]
    rw [reopen_free (s := { s₁ with idleFd := none, errno := .EAGAIN }) hj]
  refine ⟨_, hshed, ⟨j, rfl, ?_⟩, hb₁, fun c => ?_, fun c => ?_, fun c => ?_, fun f => ?_⟩
  · exact List.getElem?_set_self (List.getElem?_eq_some_iff.mp hslot).1
  · simp [hrel.backlog]
  · simp [hrel.delivered]
  · simp [hrel.closed]
  · have hfill := count_fill hslot .devNull f
    have hclear := hrel.files f
    simp only [files, List.map_nil, List.count_nil] at hclear ⊢
    omega

/-- Otherwise the next connection takes the place of the reserve, and is closed for it. -/
theorem shed_next (h : s.Reserved) (hmfile : s.errno = .EMFILE)
    (hb : s.kernel.backlog = c :: rest) : ∃ t, s.shed calls = (true, t) ∧ Takes s t rest := by
  have hrel := close_idle h
  obtain ⟨s₁, hs₁⟩ : ∃ s₁, s₁ = s.close calls s.idleFd := ⟨_, rfl⟩
  rw [← hs₁] at hrel
  obtain ⟨j, hj⟩ := hrel.free
  have hslot := slots_of_free hj
  have hjlt := (List.getElem?_eq_some_iff.mp hslot).1
  obtain ⟨s₂, hs₂⟩ : ∃ s₂ : AcceptLoop Host, s₂ = { s₁ with
      idleFd := some j
      kernel := { s₁.kernel with
        slots := s₁.kernel.slots.set j (some (.connection c)), backlog := rest } } := ⟨_, rfl⟩
  have htaken : s₂.kernel.slots[j]? = some (some (.connection c)) := by
    rw [hs₂]
    exact List.getElem?_set_self hjlt
  obtain ⟨s₃, hs₃⟩ : ∃ s₃, s₃ = s₂.close calls (some j) := ⟨_, rfl⟩
  have hclose := hs₃
  rw [close_open htaken] at hclose
  have hnone : s₃.kernel.slots[j]? = some none := by
    rw [hclose, hs₂]
    refine List.getElem?_set_self ?_
    rw [List.length_set]
    exact hjlt
  obtain ⟨k, hk⟩ := free_of_slots hnone
  have hslot₃ := slots_of_free hk
  have hshed : s.shed calls = (true, { s₃ with
      idleFd := some k
      kernel := { s₃.kernel with slots := s₃.kernel.slots.set k (some .devNull) } }) := by
    -- the `errno` that decides is the one that the first `accept` has left
    have hne : ¬ s₁.errno = .EAGAIN := by
      rw [hrel.errno, hmfile]
      decide
    simp only [shed, ← hs₁, accept_next hj (hrel.backlog.trans hb), if_neg hne]
    rw [← hs₂, ← hs₃, reopen_free hk]
  have hfiles (f : OpenFile) : s₃.kernel.files.count f = s₁.kernel.files.count f := by
    have hfill := count_fill hslot (.connection c) f
    have hempty := count_clear htaken f
    rw [hclose]
    rw [hs₂] at hempty ⊢
    simp only [files] at hempty ⊢
    omega
  refine ⟨_, hshed, ⟨k, rfl, ?_⟩, ?_, [], [], [c], fun d => ?_, fun d => ?_, fun d => ?_,
    fun f => ?_⟩
  · exact List.getElem?_set_self (List.getElem?_eq_some_iff.mp hslot₃).1
  · rw [hclose, hs₂]
  · rw [hb, hclose, hs₂, ← List.singleton_append, List.count_append]
    simp
  · simp [hclose, hs₂, hrel.delivered]
  · simp [hclose, hs₂, hrel.closed, connectionOf]
  · have hfill := count_fill hslot₃ .devNull f
    have hclear := hrel.files f
    have hsame := hfiles f
    simp only [files, List.map_nil, List.count_nil] at hclear hsame ⊢
    omega

/-- A descriptor that was free is not the reserve. -/
theorem Reserved.set {fd : ℕ} (h : s.Reserved) (hfree : s.kernel.slots[fd]? = some none)
    (hidle : t.idleFd = s.idleFd)
    (hslots : ∀ i, i ≠ fd → t.kernel.slots[i]? = s.kernel.slots[i]?) : t.Reserved := by
  obtain ⟨i, hi, hslot⟩ := h
  have hne : i ≠ fd := by
    rintro rfl
    rw [hslot] at hfree
    cases hfree
  exact ⟨i, hidle.trans hi, (hslots i hne).trans hslot⟩

/-- One round: the loop ends on an empty backlog, and takes the first connection of another. -/
theorem round_spec (keeps : Option (Host → ℕ → Bool)) (h : s.Reserved) :
    (s.kernel.backlog = [] ∧
        ∃ t, s.round calls .linux (keeps.map deliver) = (false, t) ∧ Ends s t) ∨
      ∃ c rest t, s.kernel.backlog = c :: rest ∧
        s.round calls .linux (keeps.map deliver) = (true, t) ∧ Takes s t rest := by
  cases hf : s.kernel.free with
  | none =>
    obtain ⟨s', hs'⟩ : ∃ s' : AcceptLoop Host, s' = { s with errno := .EMFILE } := ⟨_, rfl⟩
    have hround : s.round calls .linux (keeps.map deliver) = s'.shed calls := by
      rw [hs', round, accept_full hf]
      rfl
    have hkernel : s'.kernel = s.kernel := by rw [hs']
    have hreserved : s'.Reserved := by
      rw [hs']
      exact h
    rw [hround]
    cases hb : s.kernel.backlog with
    | nil =>
      obtain ⟨t, ht, hends⟩ := shed_empty hreserved (by rw [hkernel, hb])
      refine .inl ⟨rfl, t, ht, hends.reserved, hends.backlog, ?_⟩
      exact hkernel ▸ hends.served
    | cons c rest =>
      have hb' : s'.kernel.backlog = c :: rest := by rw [hkernel, hb]
      obtain ⟨t, ht, htakes⟩ := shed_next hreserved (by rw [hs']) hb'
      refine .inr ⟨c, rest, t, rfl, ht, htakes.reserved, htakes.backlog, ?_⟩
      exact hkernel ▸ htakes.served
  | some fd =>
    have hslot := slots_of_free hf
    have hlt := (List.getElem?_eq_some_iff.mp hslot).1
    cases hb : s.kernel.backlog with
    | nil =>
      refine .inl ⟨rfl, { s with errno := .EAGAIN }, ?_, h, hb, .refl _⟩
      rw [round, accept_empty hf hb]
      rfl
    | cons c rest =>
      refine .inr ⟨c, rest, ?_⟩
      have htaken : (s.kernel.slots.set fd (some (.connection c)))[fd]? =
          some (some (.connection c)) := List.getElem?_set_self hlt
      have hset (i : ℕ) (hi : i ≠ fd) :
          (s.kernel.slots.set fd (some (.connection c)))[i]? = s.kernel.slots[i]? :=
        List.getElem?_set_ne (Ne.symm hi)
      have hclear (i : ℕ) (hi : i ≠ fd) :
          ((s.kernel.slots.set fd (some (.connection c))).set fd none)[i]? =
            s.kernel.slots[i]? :=
        (List.getElem?_set_ne (Ne.symm hi)).trans (hset i hi)
      cases keeps with
      | none =>
        have hround : s.round calls .linux none = (true, { s with
            kernel := { s.kernel with
              slots := (s.kernel.slots.set fd (some (.connection c))).set fd none
              backlog := rest
              closed := s.kernel.closed ++ [c] } }) := by
          rw [round, accept_next hf hb]
          dsimp only
          rw [close_open htaken]
          rfl
        exact ⟨_, rfl, hround, h.set hslot rfl hclear, rfl, [], [], [c], served_dropped hslot hb⟩
      | some keeps =>
        have hround : s.round calls .linux (some (deliver keeps)) = (true, { s with
            kernel := Host.deliver keeps { s.kernel with
              slots := s.kernel.slots.set fd (some (.connection c)), backlog := rest } fd }) := by
          rw [round, accept_next hf hb]
        rw [deliver_eq htaken] at hround
        split at hround
        · exact ⟨_, rfl, hround, h.set hslot rfl hset, rfl, [c], [], [], served_kept hslot hb⟩
        · exact ⟨_, rfl, hround, h.set hslot rfl hclear, rfl, [], [c], [],
            served_returned hslot hb⟩

/-- From any host whose reserve descriptor is open the loop empties the backlog: each connection
was handed to the callback once or closed, and what has been opened for good is what was kept. -/
theorem handleAccept_exhausted (keeps : Option (Host → ℕ → Bool)) (s : AcceptLoop Host)
    (h : s.Reserved) : ∃ n t kept returned dropped,
      s.handleAccept calls .linux (keeps.map deliver) n = some t ∧
      t.kernel.backlog = [] ∧ t.Reserved ∧
      Served s.kernel t.kernel kept returned dropped ∧
      t.kernel.files.length = s.kernel.files.length + kept.length := by
  obtain ⟨backlog, hb⟩ : ∃ backlog, s.kernel.backlog = backlog := ⟨_, rfl⟩
  induction backlog generalizing s with
  | nil =>
    obtain ⟨-, t, ht, hends⟩ | ⟨c, rest, t, hcons, -⟩ := round_spec keeps h
    · exact ⟨1, t, [], [], [], handleAccept_break ht, hends.backlog, hends.reserved, hends.served,
        hends.served.length_files⟩
    · rw [hb] at hcons
      cases hcons
  | cons c backlog ih =>
    obtain ⟨hnil, -⟩ | ⟨c', rest, t, hcons, ht, htakes⟩ := round_spec keeps h
    · rw [hb] at hnil
      cases hnil
    · rw [hb] at hcons
      cases hcons
      obtain ⟨k₁, r₁, d₁, hfirst⟩ := htakes.served
      obtain ⟨n, u, k₂, r₂, d₂, hrun, hempty, hreserved, hrest, -⟩ :=
        ih t htakes.reserved htakes.backlog
      have hserved := hfirst.trans hrest
      exact ⟨n + 1, u, _, _, _, (handleAccept_go ht).trans hrun, hempty, hreserved, hserved,
        hserved.length_files⟩

/-- Two connections at a host of two descriptors: the first one is kept, and for the second one
the reserve is given up. -/
theorem handleAccept_exhausted_full : ∃ n t kept returned dropped,
    AcceptLoop.handleAccept calls .linux ((some fun _ _ => true).map deliver) n
      ⟨some 0, .other, { slots := [some .devNull, none], backlog := [7, 8] }⟩ = some t ∧
    t.kernel.backlog = [] ∧ t.Reserved ∧
    Served { slots := [some .devNull, none], backlog := [7, 8] } t.kernel
      kept returned dropped ∧
    t.kernel.files.length =
      ({ slots := [some .devNull, none], backlog := [7, 8] } : Host).files.length +
        kept.length :=
  handleAccept_exhausted (some fun _ _ => true)
    ⟨some 0, .other, { slots := [some .devNull, none], backlog := [7, 8] }⟩ ⟨0, rfl, rfl⟩

end AcceptLoop

/-- An environment in which `accept` and `open` answer by a script, and a descriptor that is open
can be closed. -/
structure Script where
  answers : ℕ → Except Errno ℕ
  opens : ℕ → Except Errno ℕ

/-- The calls over the numbers of answers that `accept` and `open` have given. -/
def Script.calls (script : Script) : SystemCalls (ℕ × ℕ) where
  accept := fun k => (script.answers k.1, (k.1 + 1, k.2))
  close := fun k fd => (if fd.isSome then .ok () else .error .EBADF, k)
  openDevNull := fun k => (script.opens k.2, (k.1, k.2 + 1))

/-- `newConnectionCallback_`, set or not. It takes no connection from the listening socket. -/
def Script.callback (set : Bool) : Option (ℕ × ℕ → ℕ → ℕ × ℕ) :=
  if set then some fun k _ => k else none

/-- Only finitely many connections become available. -/
def Script.Exhausts (script : Script) : Prop :=
  ∃ m, ∀ k fd, m ≤ k → script.answers k ≠ .ok fd

namespace AcceptLoop
variable {script : Script} {system : System} {callback : Option (ℕ × ℕ → ℕ → ℕ × ℕ)}
  {s t : AcceptLoop (ℕ × ℕ)}

theorem accept_answer_ok {fd : ℕ} (h : script.answers s.kernel.1 = .ok fd) :
    s.accept script.calls = (some fd, { s with kernel := (s.kernel.1 + 1, s.kernel.2) }) := by
  change s.answer (script.answers s.kernel.1, _) = _
  rw [h]
  rfl

theorem accept_answer_error {e : Errno} (h : script.answers s.kernel.1 = .error e) :
    s.accept script.calls =
      (none, { s with errno := e, kernel := (s.kernel.1 + 1, s.kernel.2) }) := by
  change s.answer (script.answers s.kernel.1, _) = _
  rw [h]
  rfl

@[simp] theorem close_kernel (fd : Fd) : (s.close script.calls fd).kernel = s.kernel := by
  cases fd <;> rfl

/-- `close` never leaves `EAGAIN` behind. -/
theorem close_errno (fd : Fd) (h : s.errno ≠ .EAGAIN) :
    (s.close script.calls fd).errno ≠ .EAGAIN := by
  cases fd with
  | none =>
    change Errno.EBADF ≠ .EAGAIN
    decide
  | some fd => exact h

@[simp] theorem reopen_accepts : (s.reopen script.calls).kernel.1 = s.kernel.1 := by
  unfold reopen
  change ((s.answer (script.opens s.kernel.2, (s.kernel.1, s.kernel.2 + 1))).2).kernel.1 = _
  cases script.opens s.kernel.2 <;> rfl

variable (script) in
/-- The branch for `EMFILE` asks `accept` once more, and only `EAGAIN` as its answer ends the
loop: no call before it leaves that value in `errno`. -/
theorem shed_answer (h : s.errno ≠ .EAGAIN) :
    (script.answers s.kernel.1 = .error .EAGAIN ∧ ∃ t, s.shed script.calls = (false, t)) ∨
      (script.answers s.kernel.1 ≠ .error .EAGAIN ∧
        ∃ t, s.shed script.calls = (true, t) ∧ t.kernel.1 = s.kernel.1 + 1) := by
  obtain ⟨s₁, hs₁⟩ : ∃ s₁, s₁ = s.close script.calls s.idleFd := ⟨_, rfl⟩
  have herrno : s₁.errno ≠ .EAGAIN := hs₁ ▸ close_errno s.idleFd h
  have hkernel : s₁.kernel = s.kernel := hs₁ ▸ close_kernel s.idleFd
  rw [← hkernel]
  cases ha : script.answers s₁.kernel.1 with
  | ok fd =>
    obtain ⟨s₂, hs₂⟩ : ∃ s₂ : AcceptLoop (ℕ × ℕ), s₂ = { s₁ with
        idleFd := some fd, kernel := (s₁.kernel.1 + 1, s₁.kernel.2) } := ⟨_, rfl⟩
    refine .inr ⟨by simp, (s₂.close script.calls s₂.idleFd).reopen script.calls, ?_, ?_⟩
    · simp only [shed, ← hs₁, accept_answer_ok ha, if_neg herrno, hs₂]
    · rw [reopen_accepts, close_kernel, hs₂]
  | error e =>
    obtain ⟨s₂, hs₂⟩ : ∃ s₂ : AcceptLoop (ℕ × ℕ), s₂ = { s₁ with
        idleFd := none, errno := e, kernel := (s₁.kernel.1 + 1, s₁.kernel.2) } := ⟨_, rfl⟩
    by_cases he : e = .EAGAIN
    · refine .inl ⟨by rw [he], s₂.reopen script.calls, ?_⟩
      simp only [shed, ← hs₁, accept_answer_error ha, if_pos he, hs₂]
    · refine .inr ⟨by simpa using he, (s₂.close script.calls s₂.idleFd).reopen script.calls,
        ?_, ?_⟩
      · simp only [shed, ← hs₁, accept_answer_error ha, if_neg he, hs₂]
      · rw [reopen_accepts, close_kernel, hs₂]

variable (script system) in
/-- One round, by the answers of `accept` in it. -/
theorem round_answer (hcallback : ∀ f ∈ callback, ∀ k fd, (f k fd).1 = k.1) :
    (∃ t k, s.round script.calls system callback = (false, t) ∧
        s.kernel.1 ≤ k ∧ script.answers k = .error .EAGAIN) ∨
      ∃ t, s.round script.calls system callback = (true, t) ∧ s.kernel.1 < t.kernel.1 ∧
        ∀ k, s.kernel.1 ≤ k → k < t.kernel.1 → script.answers k ≠ .error .EAGAIN := by
  cases ha : script.answers s.kernel.1 with
  | ok fd =>
    have hfirst (k : ℕ) (hk : s.kernel.1 ≤ k) (hlt : k < s.kernel.1 + 1) :
        script.answers k ≠ .error .EAGAIN := by
      obtain rfl : k = s.kernel.1 := by omega
      rw [ha]
      exact fun h => nomatch h
    cases callback with
    | none =>
      refine .inr ⟨_, by rw [round, accept_answer_ok ha], ?_, ?_⟩
      · simp
      · simpa using hfirst
    | some callback =>
      have hkeep := hcallback callback rfl
      refine .inr ⟨_, by rw [round, accept_answer_ok ha], ?_, ?_⟩
      · simp [hkeep]
      · simpa [hkeep] using hfirst
  | error e =>
    by_cases hagain : e = .EAGAIN
    · subst hagain
      refine .inl ⟨{ s with errno := .EAGAIN, kernel := (s.kernel.1 + 1, s.kernel.2) },
        s.kernel.1, ?_, le_rfl, ha⟩
      cases system <;> rw [round, accept_answer_error ha] <;> rfl
    have hfirst : script.answers s.kernel.1 ≠ .error .EAGAIN := by
      rw [ha]
      exact fun h => hagain (by cases h; rfl)
    have hlater (k : ℕ) (hk : s.kernel.1 ≤ k) (hlt : k < s.kernel.1 + 1) :
        script.answers k ≠ .error .EAGAIN := by
      obtain rfl : k = s.kernel.1 := by omega
      exact hfirst
    cases system with
    | windows =>
      refine .inr ⟨{ s with errno := e, kernel := (s.kernel.1 + 1, s.kernel.2) }, ?_,
        Nat.lt_succ_self _, hlater⟩
      rw [round, accept_answer_error ha]
      exact if_pos hagain
    | linux =>
      by_cases hmfile : e = .EMFILE
      · have hround : s.round script.calls .linux callback =
            shed script.calls
              { s with errno := e, kernel := (s.kernel.1 + 1, s.kernel.2) } := by
          rw [round, accept_answer_error ha]
          exact if_pos hmfile
        rw [hround]
        obtain ⟨hend, t, ht⟩ | ⟨hgo, t, ht, haccepts⟩ := shed_answer script
          (s := { s with errno := e, kernel := (s.kernel.1 + 1, s.kernel.2) }) hagain
        · exact .inl ⟨t, s.kernel.1 + 1, ht, Nat.le_succ _, hend⟩
        · refine .inr ⟨t, ht, by rw [haccepts]; change _ < _ + 1 + 1; omega, ?_⟩
          intro k hk hlt
          rw [haccepts] at hlt
          change k < s.kernel.1 + 1 + 1 at hlt
          obtain hk | hk : k < s.kernel.1 + 1 ∨ k = s.kernel.1 + 1 := by omega
          · exact hlater k ‹_› hk
          · rw [hk]
            exact hgo
      · refine .inr ⟨{ s with errno := e, kernel := (s.kernel.1 + 1, s.kernel.2) }, ?_,
          Nat.lt_succ_self _, hlater⟩
        rw [round, accept_answer_error ha]
        dsimp only
        rw [if_neg hmfile, if_pos hagain]

theorem eagain_of_returns (hcallback : ∀ f ∈ callback, ∀ k fd, (f k fd).1 = k.1) {n : ℕ}
    (h : s.handleAccept script.calls system callback n = some t) :
    ∃ k, script.answers k = .error .EAGAIN := by
  induction n generalizing s with
  | zero => cases h
  | succ n ih =>
    obtain ⟨u, k, -, -, hk⟩ | ⟨u, hround, -⟩ :=
      round_answer script system (s := s) hcallback
    · exact ⟨k, hk⟩
    · rw [handleAccept_go hround] at h
      exact ih h

/-- Each round that goes on comes closer to the answer that ends the loop. -/
theorem returns_of_eagain (hcallback : ∀ f ∈ callback, ∀ k fd, (f k fd).1 = k.1) {k : ℕ}
    (hk : script.answers k = .error .EAGAIN) (hle : s.kernel.1 ≤ k) :
    ∃ n t, s.handleAccept script.calls system callback n = some t := by
  obtain ⟨d, hd⟩ : ∃ d, d = k - s.kernel.1 := ⟨_, rfl⟩
  induction d using Nat.strong_induction_on generalizing s with
  | h d ih =>
    obtain ⟨t, -, hround, -⟩ | ⟨t, hround, hlt, hnone⟩ :=
      round_answer script system (s := s) hcallback
    · exact ⟨1, t, handleAccept_break hround⟩
    · have hnext : t.kernel.1 ≤ k := by
        by_contra hover
        exact hnone k hle (by omega) hk
      obtain ⟨n, u, hrun⟩ := ih (k - t.kernel.1) (by omega) hnext rfl
      exact ⟨n + 1, u, (handleAccept_go hround).trans hrun⟩

/-- The loop returns if and only if some call of `accept` fails with `EAGAIN`. -/
theorem handleAccept_returns_iff (script : Script) (system : System) (set : Bool) (idleFd : Fd)
    (errno : Errno) :
    (∃ n t, AcceptLoop.handleAccept script.calls system (Script.callback set) n
        ⟨idleFd, errno, (0, 0)⟩ = some t) ↔
      ∃ k, script.answers k = .error .EAGAIN := by
  have hcallback : ∀ f ∈ Script.callback set, ∀ k fd, (f k fd).1 = k.1 := by
    intro f hf k fd
    cases set <;> cases hf
    rfl
  constructor
  · rintro ⟨n, t, h⟩
    exact eagain_of_returns hcallback h
  · rintro ⟨k, hk⟩
    exact returns_of_eagain hcallback hk (Nat.zero_le _)

/-- While `accept` keeps failing with another error the loop never returns. -/
theorem handleAccept_spins : ¬ ∀ (script : Script) (system : System) (set : Bool) (idleFd : Fd)
    (errno : Errno), script.Exhausts →
      ∃ n t, AcceptLoop.handleAccept script.calls system (Script.callback set) n
        ⟨idleFd, errno, (0, 0)⟩ = some t := by
  intro hreturns
  obtain ⟨n, t, ht⟩ := hreturns ⟨fun _ => .error .other, fun _ => .ok 3⟩ .linux false (some 3)
    .other ⟨0, by intro k fd _ h; cases h⟩
  obtain ⟨k, hk⟩ := eagain_of_returns (by intro f hf; cases hf) ht
  cases hk

end AcceptLoop
end Potato
