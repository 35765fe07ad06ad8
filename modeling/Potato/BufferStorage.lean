import Potato.RetrieveOverloads

/-!
# The storage of a buffer

`expandBuffer` moves the readable bytes to the front where that makes room, and grows the vector by
the length that it was asked for otherwise. So the storage stays within what was readable at some
time and twice the largest request, however many bytes pass through.
-/
namespace Potato
open Words Machine

theorem length_resize {buf : Bytes} {n : ℕ} : (resize buf n).length = n := by
  rw [resize, List.length_append, List.length_take, List.length_replicate]
  omega

namespace Buffer
variable {p : Platform} {b b' : Buffer} {c : BufferCall} {data : Bytes} {len : ℕ}

/-- The length that a call passes to `expandBuffer`, and 0 if it makes no such call. -/
def requested (b : Buffer) : BufferCall → ℕ
  | .op (.expandBuffer len) => len
  | .op (.fill _) => 0
  | .op operation =>
    if operation.pushed.length > b.free then operation.pushed.length else 0
  | .void _ => 0

/-- The size of the storage behind `expandBuffer(len)`. -/
def expandedSize (b : Buffer) (len : ℕ) : ℕ :=
  if b.buf.length > b.content.length + len then b.buf.length else addSize b.buf.length len

/-- A call that makes the storage grow does not ask for more than a `size_t` counts. -/
def RequestFits (b : Buffer) (c : BufferCall) : Prop := b.Fits (b.requested c)

instance (b : Buffer) (c : BufferCall) : Decidable (b.RequestFits c) :=
  inferInstanceAs (Decidable (b.Fits _))

/-- What a call does to a buffer, with regard to its storage. -/
inductive Called (b : Buffer) (c : BufferCall) (b' : Buffer) : Prop
  | consumed {n : ℕ} : b.requested c = 0 → b.Consumed n b' → Called b c b'
  | filled {data : Bytes} : b.requested c = 0 → b.fill data = .next b' → Called b c b'
  | wrote {data : Bytes} : b.requested c = (if data.length > b.free then data.length else 0) →
      b.write data = .next b' → Called b c b'
  | expanded : b.expandBuffer (b.requested c) = .next b' → Called b c b'

theorem Valid.called (h : b.Valid) (hc : b.call p c = .next b') : Called b c b' := by
  cases c with
  | void len => exact .consumed rfl (Take.consumed (p := p) (t := .void len) h hc)
  | op operation =>
    simp only [Buffer.call, Outcome.bind_eq_next, Prod.exists, Outcome.pure_eq,
      Outcome.next.injEq] at hc
    obtain ⟨b₁, r, happly, rfl⟩ := hc
    by_cases hconsumes : operation.Consumes = true
    · refine .consumed ?_ (BufferOp.consumed h hconsumes happly)
      cases operation <;> first | rfl | cases hconsumes
    · cases operation <;>
        simp only [BufferOp.apply, Outcome.bind_eq_next, Outcome.pure_eq, Outcome.next.injEq,
          Prod.mk.injEq] at happly
      case write data =>
        obtain ⟨b₂, hb, rfl, -⟩ := happly
        exact .wrote rfl hb
      case writeInt32 v =>
        obtain ⟨b₂, hb, rfl, -⟩ := happly
        exact .wrote rfl (writeInt32_eq p v ▸ hb)
      case writeInt64 v =>
        obtain ⟨b₂, hb, rfl, -⟩ := happly
        exact .wrote rfl (writeInt64_eq p v ▸ hb)
      case writeUint64 v =>
        obtain ⟨b₂, hb, rfl, -⟩ := happly
        exact .wrote rfl (writeUint64_eq p v ▸ hb)
      case fill data =>
        obtain ⟨b₂, hb, rfl, -⟩ := happly
        exact .filled rfl hb
      case expandBuffer len =>
        obtain ⟨b₂, hb, rfl, -⟩ := happly
        exact .expanded hb
      all_goals exact absurd rfl hconsumes

theorem Valid.expandBuffer_size (h : b.Valid) (he : b.expandBuffer len = .next b') :
    b'.buf.length = b.expandedSize len := by
  have hc := h.length_content
  have hr := h.read_le
  have hw := h.write_le
  have hs := h.size_lt
  have hfree : b.free = b.buf.length - b.curWriteIndex := rfl
  have havail : addSize b.free b.curReadIndex = b.free + b.curReadIndex :=
    addSize_of_lt (by omega)
  have hmoves : b.free + b.curReadIndex > len ↔ b.buf.length > b.content.length + len := by omega
  simp only [expandBuffer, h.writeableBytes_eq, Outcome.next_bind, havail, hmoves] at he
  unfold expandedSize
  split_ifs at he ⊢ with hm
  · simp only [h.readableBytes_eq, Outcome.next_bind, h.copyFrom_front le_rfl, copyTo_eq_next,
      Outcome.bind_eq_next, Outcome.pure_eq, Outcome.next.injEq] at he
    obtain ⟨_, ⟨hfits, rfl⟩, rfl⟩ := he
    exact length_overwrite hfits
  · cases he
    exact length_resize

theorem fill_size (hf : b.fill data = .next b') :
    b'.buf.length = b.buf.length ∧ b.curWriteIndex + data.length ≤ b.buf.length := by
  simp only [fill, hasWritten, Outcome.bind_eq_next, copyTo_eq_next, Outcome.pure_eq,
    Outcome.next.injEq] at hf
  obtain ⟨_, ⟨hfits, rfl⟩, _, -, _, -, rfl⟩ := hf
  exact ⟨length_overwrite hfits, hfits⟩

/-- `write` leaves the storage as `expandBuffer` has made it, if it calls that. -/
theorem Valid.write_size (h : b.Valid) (hw : b.write data = .next b') : ∃ b₁,
    (if data.length > b.free then b.expandBuffer data.length else pure b) = .next b₁ ∧
      b₁.curWriteIndex + data.length ≤ b₁.buf.length ∧ b'.buf.length = b₁.buf.length := by
  simp only [write, h.writeableBytes_eq, Outcome.next_bind] at hw
  split_ifs at hw ⊢ with hr
  · simp only [Outcome.bind_eq_next, copyTo_eq_next, Outcome.pure_eq, Outcome.next.injEq] at hw
    obtain ⟨b₁, hb₁, _, ⟨hfits, rfl⟩, rfl⟩ := hw
    exact ⟨b₁, hb₁, hfits, length_overwrite hfits⟩
  · simp only [Outcome.bind_eq_next, copyTo_eq_next, Outcome.pure_eq, Outcome.next.injEq] at hw
    obtain ⟨b₁, hb₁, _, ⟨hfits, rfl⟩, rfl⟩ := hw
    exact ⟨b₁, congrArg _ hb₁, hfits, length_overwrite hfits⟩

theorem Valid.expandedSize_zero (h : b.Valid) : b.expandedSize 0 = b.buf.length := by
  unfold expandedSize
  split_ifs
  · rfl
  · exact addSize_of_lt h.size_lt

/-- The storage behind a call is that behind its request. -/
theorem Valid.call_size (h : b.Valid) (hc : b.call p c = .next b') :
    b'.buf.length = b.expandedSize (b.requested c) := by
  cases h.called hc with
  | consumed hreq hconsumed => rw [hreq, h.expandedSize_zero, hconsumed.storage]
  | filled hreq hfill => rw [hreq, h.expandedSize_zero, (fill_size hfill).1]
  | expanded hexp => exact h.expandBuffer_size hexp
  | wrote hreq hwrite =>
    obtain ⟨b₁, hb₁, -, hlen⟩ := h.write_size hwrite
    rw [hreq, hlen]
    split_ifs at hb₁ ⊢ with hr
    · exact h.expandBuffer_size hb₁
    · rw [h.expandedSize_zero]
      cases hb₁
      rfl

theorem Valid.call_valid (h : b.Valid) (hf : b.RequestFits c) (hc : b.call p c = .next b') :
    b'.Valid := by
  unfold RequestFits at hf
  cases h.called hc with
  | consumed _ hconsumed => exact hconsumed.valid
  | @filled data _ hfill =>
    have hroom := (fill_size hfill).2
    have hwrite := h.write_le
    have hfits : data.length ≤ b.free := by
      unfold free
      omega
    obtain ⟨b₁, hb₁, hv, -⟩ := h.fill_spec hfits
    exact Outcome.next.inj (hb₁.symm.trans hfill) ▸ hv
  | expanded hexp =>
    obtain ⟨b₁, hb₁, hv, -⟩ := h.expandBuffer_spec hf
    exact Outcome.next.inj (hb₁.symm.trans hexp) ▸ hv
  | @wrote data hreq hwrite =>
    obtain ⟨b₁, hb₁, hv, -⟩ := h.write_spec data fun hr => by rwa [hreq, if_pos hr] at hf
    exact Outcome.next.inj (hb₁.symm.trans hwrite) ▸ hv

/-- Growth that fits leaves no more behind than the readable bytes and twice the request. -/
theorem Valid.expandedSize_bounds (h : b.Valid) (hf : b.Fits len) :
    b.buf.length ≤ b.expandedSize len ∧
      b.expandedSize len ≤ max b.buf.length (b.content.length + 2 * len) := by
  have hc := h.length_content
  have hr := h.read_le
  have hw := h.write_le
  unfold expandedSize
  split_ifs with hm
  · omega
  · have hsum : b.buf.length + len < sizeBound := hf (by unfold free; omega)
    rw [addSize_of_lt hsum]
    omega

/-- Growth that does not fit wraps, and leaves less behind than there was. -/
theorem Valid.expandedSize_wraps (h : b.Valid) (hlen : len < sizeBound) (hf : ¬ b.Fits len) :
    b.expandedSize len + sizeBound = b.buf.length + len := by
  have hc := h.length_content
  have hr := h.read_le
  have hw := h.write_le
  have hs := h.size_lt
  unfold Fits free at hf
  push Not at hf
  obtain ⟨hle, hover⟩ := hf
  unfold expandedSize
  rw [if_neg (by omega), addSize]
  unfold sizeBound at *
  omega

/-- A call that returns leaves the storage at least as large as it was if and only if its request
fits. -/
theorem Valid.call_keeps_iff (h : b.Valid) (hlen : b.requested c < sizeBound)
    (hc : b.call p c = .next b') : b.buf.length ≤ b'.buf.length ↔ b.RequestFits c := by
  rw [h.call_size hc]
  constructor
  · intro hle
    by_contra hf
    have := h.expandedSize_wraps hlen hf
    omega
  · exact fun hf => (h.expandedSize_bounds hf).1

/-- A run whose requests fit keeps within the largest number of readable bytes and twice the largest
request. -/
theorem run_storage {calls : List BufferCall} (fits : StepsMeet (call p) RequestFits fresh calls)
    (run_eq : run (call p) fresh calls = .next b) : b.Valid ∧
      b.buf.length ≤ max 4096 (peakState (call p) (·.content.length) fresh calls +
        2 * peak (call p) requested fresh calls) := by
  obtain ⟨n, hn⟩ : ∃ n, n = peakState (call p) (·.content.length) fresh calls := ⟨_, rfl⟩
  obtain ⟨m, hm⟩ : ∃ m, m = peak (call p) requested fresh calls := ⟨_, rfl⟩
  have hstart : fresh.Valid ∧ fresh.buf.length ≤ max 4096 (n + 2 * m) := by
    rw [length_buf_fresh]
    exact ⟨.fresh, le_max_left _ _⟩
  have hstep : ∀ (b : Buffer) (c : BufferCall) (b' : Buffer),
      b.Valid ∧ b.buf.length ≤ max 4096 (n + 2 * m) → b.RequestFits c ∧ b.requested c ≤ m →
      b.content.length ≤ n → b'.content.length ≤ n → b.call p c = .next b' →
      b'.Valid ∧ b'.buf.length ≤ max 4096 (n + 2 * m) := by
    rintro b c b' ⟨hv, hle⟩ ⟨hf, hreq⟩ hread - hc
    have hbound := (hv.expandedSize_bounds hf).2
    refine ⟨hv.call_valid hf hc, ?_⟩
    rw [hv.call_size hc]
    omega
  rw [← hn, ← hm]
  exact run_invariant_peak hstep hstart hn.ge (fits.and (peak_le_iff.mp hm.ge)) run_eq

end Buffer
end Potato
