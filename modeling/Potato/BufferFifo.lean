import Potato.Buffer
import Potato.Ledger

/-!
# The buffer is a first-in first-out byte queue

`Valid` is what every operation keeps: ordered indices inside a storage that a
`size_t` counts, and both indices back at zero whenever nothing is readable.
Each operation has one specification on the readable bytes; the run of any list
of operations then follows the abstract ledger.
-/
namespace Potato
open Words Machine

@[simp] theorem copyTo_eq_next {buf data out : Bytes} {i : ℕ} :
    copyTo buf i data = .next out ↔
      i + data.length ≤ buf.length ∧ buf.take i ++ data ++ buf.drop (i + data.length) = out := by
  simp [copyTo]

@[simp] theorem copyFrom_eq_next {buf out : Bytes} {i n : ℕ} :
    copyFrom buf i n = .next out ↔ i + n ≤ buf.length ∧ (buf.drop i).take n = out := by
  simp [copyFrom]

theorem length_overwrite {buf data : Bytes} {i : ℕ} (h : i + data.length ≤ buf.length) :
    (buf.take i ++ data ++ buf.drop (i + data.length)).length = buf.length := by
  simp only [List.length_append, List.length_take, List.length_drop]
  omega

theorem resize_of_le {buf : Bytes} {n : ℕ} (h : buf.length ≤ n) :
    resize buf n = buf ++ List.replicate (n - buf.length) 0 := by
  rw [resize, List.take_of_length_le h]

namespace Buffer

structure Valid (b : Buffer) : Prop where
  read_le : b.curReadIndex ≤ b.curWriteIndex
  write_le : b.curWriteIndex ≤ b.buf.length
  size_ge : 4096 ≤ b.buf.length
  size_lt : b.buf.length < sizeBound
  rewound : b.curReadIndex = b.curWriteIndex → b.curWriteIndex = 0

/-- The readable bytes. -/
def content (b : Buffer) : Bytes :=
  (b.buf.drop b.curReadIndex).take (b.curWriteIndex - b.curReadIndex)

/-- The number of bytes that fit behind the readable ones. -/
def free (b : Buffer) : ℕ := b.buf.length - b.curWriteIndex

/-- Making room for `len` bytes does not ask for more storage than `size_t` can count. -/
def Fits (b : Buffer) (len : ℕ) : Prop :=
  b.free + b.curReadIndex ≤ len → b.buf.length + len < sizeBound

instance (b : Buffer) (len : ℕ) : Decidable (b.Fits len) :=
  inferInstanceAs (Decidable (_ → _))

theorem fits_of_lt {b : Buffer} {len : ℕ} (h : b.buf.length + len < sizeBound) : b.Fits len :=
  fun _ => h

variable {b : Buffer}

@[simp] theorem length_buf_fresh : Buffer.fresh.buf.length = 4096 := List.length_replicate

theorem Valid.fresh : Buffer.fresh.Valid where
  read_le := le_rfl
  write_le := Nat.zero_le _
  size_ge := by rw [length_buf_fresh]
  size_lt := by rw [length_buf_fresh]; decide
  rewound := fun _ => rfl

@[simp] theorem content_fresh : Buffer.fresh.content = [] := rfl

@[simp] theorem free_fresh : Buffer.fresh.free = 4096 := by rw [free, length_buf_fresh]; rfl

theorem Valid.length_content (h : b.Valid) :
    b.content.length = b.curWriteIndex - b.curReadIndex := by
  have := h.write_le
  simp only [content, List.length_take, List.length_drop]
  omega

theorem free_le : b.free ≤ b.buf.length := Nat.sub_le _ _

theorem Valid.writeableBytes_eq (h : b.Valid) : b.writeableBytes = .next b.free := by
  simp [writeableBytes, free, h.write_le]

theorem Valid.readableBytes_eq (h : b.Valid) : b.readableBytes = .next b.content.length := by
  simp [readableBytes, h.length_content, h.read_le]

theorem Valid.readAsSlice_eq (h : b.Valid) : b.readAsSlice = .next b.content := by
  have hc := h.length_content
  have hr := h.read_le
  have hw := h.write_le
  rw [readAsSlice, h.readableBytes_eq, Outcome.next_bind, copyFrom_eq_next, hc]
  exact ⟨by omega, rfl⟩

theorem Valid.reset (h : b.Valid) : b.reset.Valid :=
  ⟨le_rfl, Nat.zero_le _, h.size_ge, h.size_lt, fun _ => rfl⟩

@[simp] theorem content_reset : b.reset.content = [] := by simp [content, Buffer.reset]

theorem free_reset : b.reset.free = b.buf.length := rfl

theorem Valid.content_take_eq (h : b.Valid) {n : ℕ} (hn : n ≤ b.content.length) :
    (b.buf.drop b.curReadIndex).take n = b.content.take n := by
  rw [h.length_content] at hn
  rw [content, List.take_take, Nat.min_eq_left hn]

theorem Valid.copyFrom_front (h : b.Valid) {n : ℕ} (hn : n ≤ b.content.length) :
    copyFrom b.buf b.curReadIndex n = .next (b.content.take n) := by
  have := h.length_content
  have := h.read_le
  have := h.write_le
  rw [copyFrom_eq_next]
  exact ⟨by omega, h.content_take_eq hn⟩

theorem Valid.read_spec (h : b.Valid) {len : ℕ} (hl : len ≤ b.content.length) :
    b.read len = .next (b.content.take len) := by
  simp only [read, h.readableBytes_eq, Outcome.next_bind, Outcome.check_pos hl,
    h.copyFrom_front hl]

theorem Valid.retrieve_spec (h : b.Valid) {len : ℕ} (hl : len ≤ b.content.length) :
    ∃ b', b.retrieve len = .next b' ∧ b'.Valid ∧ b'.content = b.content.drop len ∧
      b'.buf = b.buf ∧ b.free ≤ b'.free := by
  have hc := h.length_content
  have hr := h.read_le
  have hw := h.write_le
  have hs := h.size_lt
  simp only [retrieve, h.readableBytes_eq, Outcome.next_bind, Outcome.check_pos hl]
  by_cases he : len = b.content.length
  · refine ⟨b.reset, by rw [if_pos he]; rfl, h.reset, ?_, rfl, ?_⟩
    · rw [content_reset, he, List.drop_length]
    · rw [free_reset]
      exact free_le
  · have hadd : addSize b.curReadIndex len = b.curReadIndex + len :=
      addSize_of_lt (by omega)
    refine ⟨{ b with curReadIndex := b.curReadIndex + len }, by rw [if_neg he, hadd]; rfl,
      ?_, ?_, rfl, le_rfl⟩
    · exact ⟨by simp only; omega, hw, h.size_ge, hs, by simp only; omega⟩
    · simp only [content, List.drop_take, List.drop_drop]
      congr 1
      omega

/-- Retrieving up to a pointer `n` bytes behind `peek()` retrieves `n` bytes. -/
theorem Valid.retrieveUntil_eq (h : b.Valid) {n : ℕ} (hn : n ≤ b.content.length) :
    b.retrieveUntil (b.curReadIndex + n) = b.retrieve n := by
  have := h.length_content
  have := h.read_le
  simp only [retrieveUntil, Outcome.check_pos (Nat.le_add_right b.curReadIndex n),
    Outcome.check_pos (show b.curReadIndex + n ≤ b.curWriteIndex by omega),
    Outcome.next_bind, Nat.add_sub_cancel_left]

theorem Valid.expandBuffer_spec (h : b.Valid) {len : ℕ} (hf : b.Fits len) :
    ∃ b', b.expandBuffer len = .next b' ∧ b'.Valid ∧ b'.content = b.content ∧
      len ≤ b'.free ∧ b.buf.length ≤ b'.buf.length := by
  have hc := h.length_content
  have hr := h.read_le
  have hw := h.write_le
  have hs := h.size_lt
  have hg := h.size_ge
  have hfree : b.free = b.buf.length - b.curWriteIndex := rfl
  have havail : addSize b.free b.curReadIndex = b.free + b.curReadIndex :=
    addSize_of_lt (by omega)
  simp only [expandBuffer, h.writeableBytes_eq, Outcome.next_bind, havail]
  by_cases hm : b.free + b.curReadIndex > len
  · -- the readable bytes move to the front
    have hfits : 0 + b.content.length ≤ b.buf.length := by omega
    have hlen := length_overwrite hfits
    refine ⟨⟨b.buf.take 0 ++ b.content ++ b.buf.drop (0 + b.content.length), 0,
      b.content.length⟩, ?_, ?_, ?_, ?_, ?_⟩
    · simp [if_pos hm, h.readableBytes_eq, h.copyFrom_front le_rfl]
      omega
    · exact ⟨Nat.zero_le _, by simp only [hlen]; omega, by simp only [hlen]; omega,
        by simp only [hlen]; omega, fun he => he.symm⟩
    · simp [content]
    · simp only [free, hlen]
      omega
    · simp only [hlen, le_refl]
  · -- the storage grows behind the readable bytes
    have hsum : b.buf.length + len < sizeBound := hf (by omega)
    have hadd : addSize b.buf.length len = b.buf.length + len := addSize_of_lt hsum
    have hlen : (resize b.buf (b.buf.length + len)).length = b.buf.length + len := by
      rw [resize_of_le (by omega)]
      simp
    refine ⟨_, by rw [if_neg hm, hadd]; rfl, ?_, ?_, ?_, ?_⟩
    · exact ⟨hr, by simp only [hlen]; omega, by simp only [hlen]; omega,
        by simp only [hlen]; omega, h.rewound⟩
    · simp only [content]
      rw [resize_of_le (by omega), List.drop_append_of_le_length (by omega),
        List.take_append_of_le_length (by simp only [List.length_drop]; omega)]
    · simp only [free, hlen]
      omega
    · simp only [hlen]
      omega

/-- Bytes copied to `curWriteIndex_` become readable when the index moves past them. -/
theorem Valid.append_spec (h : b.Valid) {data : Bytes} (hl : data.length ≤ b.free) :
    ∃ buf, copyTo b.buf b.curWriteIndex data = .next buf ∧ buf.length = b.buf.length ∧
      addSize b.curWriteIndex data.length = b.curWriteIndex + data.length ∧
      Valid { b with buf := buf, curWriteIndex := b.curWriteIndex + data.length } ∧
      content { b with buf := buf, curWriteIndex := b.curWriteIndex + data.length } =
        b.content ++ data := by
  have hc := h.length_content
  have hr := h.read_le
  have hw := h.write_le
  have hs := h.size_lt
  have hg := h.size_ge
  have hfree : b.free = b.buf.length - b.curWriteIndex := rfl
  have hfits : b.curWriteIndex + data.length ≤ b.buf.length := by omega
  have hlen := length_overwrite hfits
  refine ⟨_, copyTo_eq_next.mpr ⟨hfits, rfl⟩, hlen, addSize_of_lt (by omega), ?_, ?_⟩
  · refine ⟨by simp only; omega, by simp only [hlen]; omega, by simp only [hlen]; omega,
      by simp only [hlen]; omega, ?_⟩
    intro he
    have := h.rewound (by simp only at he; omega)
    simp only at he ⊢
    omega
  · have htake : (b.buf.take b.curWriteIndex).length = b.curWriteIndex := by
      rw [List.length_take]; omega
    have hfront : (b.buf.take b.curWriteIndex).drop b.curReadIndex = b.content := by
      rw [List.drop_take, content]
    simp only [content]
    rw [List.append_assoc, List.drop_append_of_le_length (by omega), hfront, ← List.append_assoc]
    refine List.take_left' ?_
    simp only [List.length_append]
    omega

theorem Valid.write_spec (h : b.Valid) (data : Bytes)
    (hf : b.free < data.length → b.Fits data.length) :
    ∃ b', b.write data = .next b' ∧ b'.Valid ∧ b'.content = b.content ++ data ∧
      b.buf.length ≤ b'.buf.length := by
  have key (b₁ : Buffer) (h₁ : b₁.Valid) (hroom : data.length ≤ b₁.free)
      (hc₁ : b₁.content = b.content) (hlen₁ : b.buf.length ≤ b₁.buf.length) :
      ∃ b', (do
        let buf ← copyTo b₁.buf b₁.curWriteIndex data
        return { b₁ with buf := buf, curWriteIndex := addSize b₁.curWriteIndex data.length }) =
          (.next b' : Outcome Fault Buffer) ∧
        b'.Valid ∧ b'.content = b.content ++ data ∧ b.buf.length ≤ b'.buf.length := by
    obtain ⟨buf, hcopy, hlen, hadd, hv, hcont⟩ := h₁.append_spec hroom
    exact ⟨_, by rw [hcopy, Outcome.next_bind, hadd]; rfl, hv, by rw [hcont, hc₁],
      by simpa only [hlen] using hlen₁⟩
  simp only [write, h.writeableBytes_eq, Outcome.next_bind]
  by_cases hr : data.length > b.free
  · obtain ⟨b₁, hexp, hv, hc, hroom, hlen⟩ := h.expandBuffer_spec (hf hr)
    rw [if_pos hr, hexp, Outcome.next_bind]
    exact key b₁ hv hroom hc hlen
  · rw [if_neg hr, Outcome.pure_eq, Outcome.next_bind]
    exact key b h (by omega) rfl le_rfl

theorem Valid.fill_spec (h : b.Valid) {data : Bytes} (hl : data.length ≤ b.free) :
    ∃ b', b.fill data = .next b' ∧ b'.Valid ∧ b'.content = b.content ++ data ∧
      b'.buf.length = b.buf.length := by
  obtain ⟨buf, hcopy, hlen, hadd, hv, hc⟩ := h.append_spec hl
  have hw := h.write_le
  have hfree : b.free = b.buf.length - b.curWriteIndex := rfl
  refine ⟨_, ?_, hv, hc, hlen⟩
  simp only [fill, hcopy, Outcome.next_bind, hasWritten, writeableBytes,
    Outcome.check_pos (show b.curWriteIndex ≤ buf.length by omega), Outcome.pure_eq,
    Outcome.check_pos (show data.length ≤ buf.length - b.curWriteIndex by omega), hadd]

theorem writeInt32_eq (p : Platform) (v : Int32) :
    b.writeInt32 p v = b.write (bigEndian 4 v.toUInt32.toNat) := by
  rw [writeInt32, hostToNetwork32, store_htobe32]

theorem writeInt64_eq (p : Platform) (v : Int64) :
    b.writeInt64 p v = b.write (bigEndian 8 v.toUInt64.toNat) := by
  rw [writeInt64, hostToNetwork64_eq, store_htobe64]

theorem writeUint64_eq (p : Platform) (v : UInt64) :
    b.writeUint64 p v = b.write (bigEndian 8 v.toNat) := by
  rw [writeUint64, hostToNetwork64_eq, store_htobe64]

theorem Valid.readInt32_spec (h : b.Valid) (p : Platform) (hl : 4 ≤ b.content.length) :
    b.readInt32 p = .next (UInt32.ofNat (ofBigEndian (b.content.take 4))).toInt32 := by
  rw [readInt32, h.readableBytes_eq, Outcome.next_bind, Outcome.check_pos hl, Outcome.next_bind,
    h.copyFrom_front hl, Outcome.next_bind, networkToHost32, htobe32_load _ (by simpa using hl)]
  rfl

theorem Valid.readInt64_spec (h : b.Valid) (p : Platform) (hl : 8 ≤ b.content.length) :
    b.readInt64 p = .next (UInt64.ofNat (ofBigEndian (b.content.take 8))).toInt64 := by
  rw [readInt64, h.readableBytes_eq, Outcome.next_bind, Outcome.check_pos hl, Outcome.next_bind,
    h.copyFrom_front hl, Outcome.next_bind, networkToHost64_eq, htobe64_load _ (by simpa using hl)]
  rfl

theorem Valid.readUint64_spec (h : b.Valid) (p : Platform) (hl : 8 ≤ b.content.length) :
    b.readUint64 p = .next (UInt64.ofNat (ofBigEndian (b.content.take 8))) := by
  rw [readUint64, h.readableBytes_eq, Outcome.next_bind, Outcome.check_pos hl, Outcome.next_bind,
    h.copyFrom_front hl, Outcome.next_bind, networkToHost64_eq, htobe64_load _ (by simpa using hl)]
  rfl

end Buffer

/-- The operations that a user can call on a buffer, `retrieve(void *, size_t)` apart.
`retrieveUntil n` passes the pointer `n` bytes behind `peek()`, and `fill` stands for
bytes put in at `beginWrite()` and the call of `hasWritten` that follows. -/
inductive BufferOp where
  | write (data : Bytes)
  | writeInt32 (value : Int32)
  | writeInt64 (value : Int64)
  | writeUint64 (value : UInt64)
  | fill (data : Bytes)
  | read (len : ℕ)
  | retrieve (len : ℕ)
  | retrieveChars (len : ℕ)
  | retrieveUntil (n : ℕ)
  | retrieveInt32
  | retrieveInt64
  | retrieveUint64
  | retrieveAll
  | retrieveAllAsString
  | reset
  | expandBuffer (len : ℕ)
  deriving DecidableEq, Repr

/-- What an operation hands back to its caller. -/
inductive Reply where
  | none
  | bytes (data : Bytes)
  | int32 (value : Int32)
  | int64 (value : Int64)
  | uint64 (value : UInt64)
  deriving DecidableEq, Repr

namespace BufferOp

/-- The operation as the code runs it. -/
def apply (p : Platform) (b : Buffer) : BufferOp → Outcome Fault (Buffer × Reply)
  | write data => return (← b.write data, .none)
  | writeInt32 v => return (← b.writeInt32 p v, .none)
  | writeInt64 v => return (← b.writeInt64 p v, .none)
  | writeUint64 v => return (← b.writeUint64 p v, .none)
  | fill data => return (← b.fill data, .none)
  | read len => return (b, .bytes (← b.read len))
  | retrieve len => return (← b.retrieve len, .none)
  | retrieveChars len => do
    let (b, data) ← b.retrieveChars len
    return (b, .bytes data)
  | retrieveUntil n => return (← b.retrieveUntil (b.curReadIndex + n), .none)
  | retrieveInt32 => do
    let (b, v) ← b.retrieveInt32 p
    return (b, .int32 v)
  | retrieveInt64 => do
    let (b, v) ← b.retrieveInt64 p
    return (b, .int64 v)
  | retrieveUint64 => do
    let (b, v) ← b.retrieveUint64 p
    return (b, .uint64 v)
  | retrieveAll => return (b.retrieveAll, .none)
  | retrieveAllAsString => do
    let (b, data) ← b.retrieveAllAsString
    return (b, .bytes data)
  | reset => return (b.reset, .none)
  | expandBuffer len => return (← b.expandBuffer len, .none)

/-- The bytes that an operation appends. -/
def pushed : BufferOp → Bytes
  | write data => data
  | writeInt32 v => bigEndian 4 v.toUInt32.toNat
  | writeInt64 v => bigEndian 8 v.toUInt64.toNat
  | writeUint64 v => bigEndian 8 v.toNat
  | fill data => data
  | _ => []

/-- How many of the `n` oldest readable bytes an operation consumes. -/
def popped (n : ℕ) : BufferOp → ℕ
  | retrieve len => len
  | retrieveChars len => len
  | retrieveUntil len => len
  | retrieveInt32 => 4
  | retrieveInt64 => 8
  | retrieveUint64 => 8
  | retrieveAll => n
  | retrieveAllAsString => n
  | reset => n
  | _ => 0

/-- What an operation returns when `q` is readable, oldest byte first. -/
def reply (q : Bytes) : BufferOp → Reply
  | read len => .bytes (q.take len)
  | retrieveChars len => .bytes (q.take len)
  | retrieveInt32 => .int32 (UInt32.ofNat (ofBigEndian (q.take 4))).toInt32
  | retrieveInt64 => .int64 (UInt64.ofNat (ofBigEndian (q.take 8))).toInt64
  | retrieveUint64 => .uint64 (UInt64.ofNat (ofBigEndian (q.take 8)))
  | retrieveAllAsString => .bytes q
  | _ => .none

/-- The assertions that the caller of an operation has to meet, and the bound on `size_t`
for the operations that make room. -/
def Asserts (b : Buffer) : BufferOp → Prop
  | fill data => data.length ≤ b.free
  | read len => len ≤ b.content.length
  | expandBuffer len => b.buf.length + len < sizeBound
  | op => (b.free < op.pushed.length → b.buf.length + op.pushed.length < sizeBound) ∧
      op.popped b.content.length ≤ b.content.length

instance (b : Buffer) (op : BufferOp) : Decidable (op.Asserts b) := by
  cases op <;> simp only [Asserts] <;> infer_instance

/-- One operation under its assertions: it succeeds, drops what it consumes from the front
of the readable bytes, appends what it writes, and answers from the oldest bytes. -/
theorem apply_spec (p : Platform) {b : Buffer} (h : b.Valid) {op : BufferOp} (ha : op.Asserts b) :
    ∃ b', op.apply p b = .next (b', op.reply b.content) ∧ b'.Valid ∧
      b'.content = b.content.drop (op.popped b.content.length) ++ op.pushed ∧
      b.buf.length ≤ b'.buf.length := by
  cases op with
  | write data =>
    obtain ⟨b', hb, hv, hc, hl⟩ := h.write_spec data (fun hr => Buffer.fits_of_lt (ha.1 hr))
    exact ⟨b', by simp [apply, hb, reply], hv, by simp [hc, pushed, popped], hl⟩
  | writeInt32 v =>
    obtain ⟨b', hb, hv, hc, hl⟩ := h.write_spec (bigEndian 4 v.toUInt32.toNat)
      (fun hr => Buffer.fits_of_lt (ha.1 hr))
    exact ⟨b', by simp [apply, Buffer.writeInt32_eq, hb, reply], hv,
      by simp [hc, pushed, popped], hl⟩
  | writeInt64 v =>
    obtain ⟨b', hb, hv, hc, hl⟩ := h.write_spec (bigEndian 8 v.toUInt64.toNat)
      (fun hr => Buffer.fits_of_lt (ha.1 hr))
    exact ⟨b', by simp [apply, Buffer.writeInt64_eq, hb, reply], hv,
      by simp [hc, pushed, popped], hl⟩
  | writeUint64 v =>
    obtain ⟨b', hb, hv, hc, hl⟩ := h.write_spec (bigEndian 8 v.toNat)
      (fun hr => Buffer.fits_of_lt (ha.1 hr))
    exact ⟨b', by simp [apply, Buffer.writeUint64_eq, hb, reply], hv,
      by simp [hc, pushed, popped], hl⟩
  | fill data =>
    obtain ⟨b', hb, hv, hc, hl⟩ := h.fill_spec ha
    exact ⟨b', by simp [apply, hb, reply], hv, by simp [hc, pushed, popped], hl.ge⟩
  | read len =>
    exact ⟨b, by simp [apply, h.read_spec ha, reply], h, by simp [pushed, popped], le_rfl⟩
  | retrieve len =>
    have hlen : len ≤ b.content.length := ha.2
    obtain ⟨b', hb, hv, hc, hl, -⟩ := h.retrieve_spec hlen
    exact ⟨b', by simp [apply, hb, reply], hv, by simp [hc, pushed, popped], by rw [hl]⟩
  | retrieveChars len =>
    have hlen : len ≤ b.content.length := ha.2
    obtain ⟨b', hb, hv, hc, hl, -⟩ := h.retrieve_spec hlen
    exact ⟨b', by simp [apply, Buffer.retrieveChars, h.read_spec hlen, hb, reply], hv,
      by simp [hc, pushed, popped], by rw [hl]⟩
  | retrieveUntil n =>
    have hn : n ≤ b.content.length := ha.2
    obtain ⟨b', hb, hv, hc, hl, -⟩ := h.retrieve_spec hn
    exact ⟨b', by simp [apply, h.retrieveUntil_eq hn, hb, reply], hv, by simp [hc, pushed, popped],
      by rw [hl]⟩
  | retrieveInt32 =>
    have hlen : 4 ≤ b.content.length := ha.2
    obtain ⟨b', hb, hv, hc, hl, -⟩ := h.retrieve_spec hlen
    exact ⟨b', by simp [apply, Buffer.retrieveInt32, h.readInt32_spec p hlen, hb, reply], hv,
      by simp [hc, pushed, popped], by rw [hl]⟩
  | retrieveInt64 =>
    have hlen : 8 ≤ b.content.length := ha.2
    obtain ⟨b', hb, hv, hc, hl, -⟩ := h.retrieve_spec hlen
    exact ⟨b', by simp [apply, Buffer.retrieveInt64, h.readInt64_spec p hlen, hb, reply], hv,
      by simp [hc, pushed, popped], by rw [hl]⟩
  | retrieveUint64 =>
    have hlen : 8 ≤ b.content.length := ha.2
    obtain ⟨b', hb, hv, hc, hl, -⟩ := h.retrieve_spec hlen
    exact ⟨b', by simp [apply, Buffer.retrieveUint64, h.readUint64_spec p hlen, hb, reply], hv,
      by simp [hc, pushed, popped], by rw [hl]⟩
  | retrieveAll =>
    exact ⟨b.reset, by simp [apply, Buffer.retrieveAll, reply], h.reset, by simp [pushed, popped],
      le_rfl⟩
  | retrieveAllAsString =>
    exact ⟨b.reset, by simp [apply, Buffer.retrieveAllAsString, h.readAsSlice_eq, reply], h.reset,
      by simp [pushed, popped], le_rfl⟩
  | reset =>
    exact ⟨b.reset, by simp [apply, reply], h.reset, by simp [pushed, popped], le_rfl⟩
  | expandBuffer len =>
    obtain ⟨b', hb, hv, hc, -, hl⟩ := h.expandBuffer_spec (Buffer.fits_of_lt ha)
    exact ⟨b', by simp [apply, hb, reply], hv, by simp [hc, pushed, popped], hl⟩

end BufferOp

namespace Buffer

/-- One operation of a history, with the replies collected so far. -/
def step (p : Platform) (s : Buffer × List Reply) (op : BufferOp) :
    Outcome Fault (Buffer × List Reply) := do
  let (b, r) ← op.apply p s.1
  return (b, s.2 ++ [r])

/-- The same operation on the abstract queue. -/
def fifoStep (q : Ledger Byte × List Reply) (op : BufferOp) : Ledger Byte × List Reply :=
  ((q.1.pop (op.popped q.1.content.length)).push op.pushed, q.2 ++ [op.reply q.1.content])

/-- The operations of a history that starts with a fresh buffer, each called where its
own assertions hold. -/
def Admissible (p : Platform) (ops : List BufferOp) : Prop :=
  StepsMeet (step p) (fun s op => op.Asserts s.1) (fresh, []) ops

instance (p : Platform) (ops : List BufferOp) : Decidable (Admissible p ops) :=
  inferInstanceAs (Decidable (StepsMeet _ _ _ _))

/-- A buffer represents a queue when it is valid and its readable bytes are the queue. -/
def Represents (s : Buffer × List Reply) (q : Ledger Byte × List Reply) : Prop :=
  s.1.Valid ∧ s.1.content = q.1.content ∧ s.2 = q.2

theorem step_simulates (p : Platform) {s : Buffer × List Reply} {q : Ledger Byte × List Reply}
    {op : BufferOp} (hr : Represents s q) (ha : op.Asserts s.1) :
    ∃ t, step p s op = .next t ∧ Represents t (fifoStep q op) := by
  obtain ⟨hv, hc, hreply⟩ := hr
  obtain ⟨b', hb, hv', hc', -⟩ := BufferOp.apply_spec p hv ha
  refine ⟨(b', s.2 ++ [op.reply s.1.content]), by simp [step, hb], hv', ?_, ?_⟩
  · rw [hc', hc]
    rfl
  · rw [hc, hreply]
    rfl

/-- A buffer refines a first-in first-out byte queue over every history of operations
that meet their own assertions: no operation fails, the indices stay ordered inside the
storage, the readable bytes are what was appended less what was consumed, in order, the
replies are those of the queue, and room can always be made without touching them. -/
theorem refines_fifo (p : Platform) (ops : List BufferOp) (h : Admissible p ops) :
    ∃ b replies, run (step p) (fresh, []) ops = .next (b, replies) ∧
      b.curReadIndex ≤ b.curWriteIndex ∧ b.curWriteIndex ≤ b.buf.length ∧
      (ops.foldl fifoStep (Ledger.empty, [])).1.appended =
        (ops.foldl fifoStep (Ledger.empty, [])).1.consumed ++ b.content ∧
      replies = (ops.foldl fifoStep (Ledger.empty, [])).2 ∧
      ∀ len, b.buf.length + len < sizeBound → ∃ b', b.expandBuffer len = .next b' ∧
        b'.content = b.content ∧ ∃ n, b'.writeableBytes = .next n ∧ len ≤ n := by
  have hstart : Represents (fresh, []) (Ledger.empty, []) := ⟨Valid.fresh, rfl, rfl⟩
  have hstep : ∀ s q op, Represents s q → op.Asserts s.1 →
      ∃ t, step p s op = .next t ∧ Represents t (fifoStep q op) :=
    fun _ _ _ hr ha => step_simulates p hr ha
  obtain ⟨⟨b, replies⟩, hrun, hv, hc, hreply⟩ := run_simulates hstep hstart h
  refine ⟨b, replies, hrun, hv.read_le, hv.write_le, ?_, hreply, ?_⟩
  · rw [hc]
    exact (ops.foldl fifoStep (Ledger.empty, [])).1.balanced
  · intro len hlen
    obtain ⟨b', hb', hv', hc', hroom, -⟩ := hv.expandBuffer_spec (fits_of_lt hlen)
    exact ⟨b', hb', hc', b'.free, hv'.writeableBytes_eq, hroom⟩

/-- A history whose `expandBuffer` moves two unread bytes to the front of the storage. -/
theorem refines_fifo_move : ∃ b replies,
    run (step ⟨.linux, .little⟩) (fresh, [])
      [.write [97, 98, 99], .retrieve 1, .expandBuffer 4000, .retrieveChars 2] =
        .next (b, replies) ∧ replies = [.none, .none, .none, .bytes [98, 99]] := by
  obtain ⟨b, replies, hrun, -, -, -, hr, -⟩ := refines_fifo ⟨.linux, .little⟩
    [.write [97, 98, 99], .retrieve 1, .expandBuffer 4000, .retrieveChars 2] (by decide +kernel)
  exact ⟨b, replies, hrun, hr⟩

end Buffer
end Potato
