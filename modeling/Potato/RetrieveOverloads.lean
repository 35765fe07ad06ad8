import Potato.ConnectionMoves

/-!
# The two raw retrieve overloads

`retrieve(char *, size_t)` and `retrieve(void *, size_t)` are documented by their
signatures alone: both copy bytes out and consume them. The second forwards to the
first and then consumes once more, so they agree on empty requests and on no others.
-/
namespace Potato
open Words Machine

/-- A call of a member function of `Buffer`. -/
inductive BufferCall where
  | op (operation : BufferOp)
  /-- `retrieve(void *, size_t)` -/
  | void (len : ℕ)
  deriving DecidableEq, Repr

namespace Buffer
variable {p : Platform} {b b' : Buffer} {len n : ℕ}

def call (p : Platform) (b : Buffer) : BufferCall → Outcome Fault Buffer
  | .op operation => do
    let (b, _) ← operation.apply p b
    return b
  | .void len => do
    let (b, _) ← b.retrieveVoid len
    return b

/-- The assertions and the bound on `size_t` that the caller has to meet. The assertions of
`retrieve(void *, size_t)` are left to the call itself. -/
def CallAsserts (b : Buffer) : BufferCall → Prop
  | .op operation => operation.Asserts b
  | .void _ => True

instance (b : Buffer) (c : BufferCall) : Decidable (b.CallAsserts c) := by
  cases c <;> simp only [CallAsserts] <;> infer_instance

theorem Valid.call {c : BufferCall} (h : b.Valid) (ha : b.CallAsserts c)
    (hc : b.call p c = .next b') : b'.Valid := by
  cases c with
  | op operation =>
    obtain ⟨b₁, hb, hv, -⟩ := BufferOp.apply_spec p h ha
    simp only [Buffer.call, hb, Outcome.next_bind, Outcome.pure_eq, Outcome.next.injEq] at hc
    exact hc ▸ hv
  | void len => exact (Take.consumed (p := p) (t := .void len) h hc).valid

/-- The overload for `char` pointers copies the oldest bytes and consumes them. -/
theorem Valid.retrieveChars_spec (h : b.Valid) (hl : len ≤ b.content.length) :
    ∃ b', b.retrieveChars len = .next (b', b.content.take len) ∧ b.retrieve len = .next b' ∧
      b'.Valid ∧ b'.content = b.content.drop len := by
  obtain ⟨b', hr, hv, hc, -⟩ := h.retrieve_spec hl
  exact ⟨b', by simp [retrieveChars, h.read_spec hl, hr], hr, hv, hc⟩

/-- A valid buffer is left as it is by a request for no bytes, also when that rewinds it. -/
theorem Valid.retrieve_zero (h : b.Valid) : b.retrieve 0 = .next b := by
  have hlen := h.length_content
  have hread := h.read_le
  have hwrite := h.write_le
  simp only [retrieve, h.readableBytes_eq, Outcome.next_bind, Outcome.check_pos (Nat.zero_le _)]
  by_cases he : 0 = b.content.length
  · have hw : b.curWriteIndex = 0 := h.rewound (by omega)
    have hr : b.curReadIndex = 0 := by omega
    have hsame : b.reset = b := by
      change Buffer.mk b.buf 0 0 = Buffer.mk b.buf b.curReadIndex b.curWriteIndex
      rw [hr, hw]
    rw [if_pos he, hsame]
    rfl
  · have hsize := h.size_lt
    have hadd : addSize b.curReadIndex 0 = b.curReadIndex := addSize_of_lt (by omega)
    rw [if_neg he, hadd]
    rfl

/-- The other overload consumes as many bytes again, or fails. -/
theorem retrieveVoid_eq {data : Bytes} (h : b.retrieveChars len = .next (b', data)) :
    b.retrieveVoid len = b'.retrieve len >>= fun b'' => pure (b'', data) := by
  rw [retrieveVoid, h, Outcome.next_bind]

/-- Both overloads copy the oldest `len` bytes out, consume these and no others, and leave the
buffer in the same state. -/
def OverloadsAgree (b : Buffer) (len : ℕ) : Prop :=
  ∃ b', b.retrieveChars len = .next (b', b.content.take len) ∧
    b.retrieveVoid len = .next (b', b.content.take len) ∧ b'.content = b.content.drop len

/-- In every state that calls on a fresh buffer lead to, the overloads agree on the requests for
no bytes, and only on these. -/
theorem retrieve_overloads_iff (p : Platform) (calls : List BufferCall) (b : Buffer) (len n : ℕ)
    (asserts : StepsMeet (call p) CallAsserts fresh calls)
    (run_eq : run (call p) fresh calls = .next b) (readable : b.readableBytes = .next n)
    (enough : len ≤ n) : b.OverloadsAgree len ↔ len = 0 := by
  have hv : b.Valid :=
    run_invariant_of (fun _ _ _ h ha hc => Valid.call h ha hc) Valid.fresh asserts run_eq
  rw [hv.readableBytes_eq, Outcome.next.injEq] at readable
  subst readable
  obtain ⟨b₁, hchars, hr, hv₁, hc₁⟩ := hv.retrieveChars_spec enough
  constructor
  · rintro ⟨b', hchars', hvoid, hc'⟩
    rw [retrieveVoid_eq hchars] at hvoid
    simp only [Outcome.bind_eq_next, Outcome.pure_eq, Outcome.next.injEq, Prod.mk.injEq] at hvoid
    obtain ⟨b₂, hr₂, rfl, -⟩ := hvoid
    have hconsumed := hv₁.consumed_retrieve hr₂
    have henough := hconsumed.enough
    have hlen := congrArg List.length (hconsumed.content.symm.trans hc')
    rw [hc₁] at henough hlen
    simp only [List.length_drop] at henough hlen
    omega
  · rintro rfl
    refine ⟨b₁, hchars, ?_, hc₁⟩
    rw [retrieveVoid_eq hchars, hv₁.retrieve_zero]
    rfl

/-- A request for no bytes of a buffer that `retrieve(void *, size_t)` has left with one byte. -/
theorem retrieve_overloads_void : ∃ b,
    run (call ⟨.linux, .little⟩) fresh [.op (.write [97, 98, 99]), .void 1] = .next b ∧
      b.content = [99] ∧ b.OverloadsAgree 0 := by
  obtain ⟨b, hrun, hc⟩ := Outcome.yields_eq_true.mp (show
    (run (call ⟨.linux, .little⟩) fresh [.op (.write [97, 98, 99]), .void 1]).yields (fun b =>
      decide (b.content = [99] ∧ b.readableBytes = .next 1)) = true by decide +kernel)
  obtain ⟨hcontent, hreadable⟩ := of_decide_eq_true hc
  exact ⟨b, hrun, hcontent, (retrieve_overloads_iff ⟨.linux, .little⟩
    [.op (.write [97, 98, 99]), .void 1] b 0 1 (by decide +kernel) hrun hreadable (by decide)).mpr rfl⟩

/-- The second byte is lost when the first is asked for. -/
theorem void_retrieves_twice : ∃ b b₁ b₂,
    run (call ⟨.linux, .little⟩) fresh [.op (.write [97, 98, 99])] = .next b ∧
      b.readableBytes = .next 3 ∧ b.retrieveChars 1 = .next (b₁, [97]) ∧
      b₁.content = [98, 99] ∧ b.retrieveVoid 1 = .next (b₂, [97]) ∧ b₂.content = [99] ∧
      ¬ b.OverloadsAgree 1 := by
  obtain ⟨b, hrun, hc⟩ := Outcome.yields_eq_true.mp (show
    (run (call ⟨.linux, .little⟩) fresh [.op (.write [97, 98, 99])]).yields (fun b =>
      decide (b.readableBytes = .next 3 ∧ b.content = [97, 98, 99]) &&
      (b.retrieveChars 1).yields (fun r => decide (r.2 = [97] ∧ r.1.content = [98, 99])) &&
      (b.retrieveVoid 1).yields (fun r => decide (r.2 = [97] ∧ r.1.content = [99]))) = true
      by decide +kernel)
  simp only [Bool.and_eq_true, decide_eq_true_eq, Outcome.yields_eq_true, Prod.exists] at hc
  obtain ⟨⟨⟨hreadable, hcontent⟩, b₁, _, hchars, rfl, hc₁⟩, b₂, _, hvoid, rfl, hc₂⟩ := hc
  refine ⟨b, b₁, b₂, hrun, hreadable, hchars, hc₁, hvoid, hc₂, ?_⟩
  rintro ⟨b', -, hvoid', hc'⟩
  rw [hvoid, Outcome.next.injEq, Prod.mk.injEq] at hvoid'
  rw [← hvoid'.1, hc₂, hcontent] at hc'
  cases hc'

end Buffer
end Potato
