import Potato.BufferFifo

/-!
# Integers in a buffer

A buffer that typed values and raw bytes are written to is a queue of both. The
matching retrieve of a value at the front returns it; any other operation takes the
bytes that it consumes off the front, through values and raw bytes alike.
-/
namespace Potato
open Words Machine

/-- What waits in a buffer: an integer, or bytes of no known meaning. -/
inductive Item where
  | int32 (value : Int32)
  | int64 (value : Int64)
  | uint64 (value : UInt64)
  | raw (data : Bytes)
  deriving DecidableEq, Repr

/-- The two's complement of `x` in `bits` bits. -/
def twosComplement (bits : ℕ) (x : ℤ) : ℕ := (x % 2 ^ bits).toNat

namespace Item

/-- The bytes of an item: an integer has a fixed width, most significant byte first. -/
def encode : Item → Bytes
  | int32 v => bigEndian 4 (twosComplement 32 v.toInt)
  | int64 v => bigEndian 8 (twosComplement 64 v.toInt)
  | uint64 v => bigEndian 8 v.toNat
  | raw data => data

def IsValue : Item → Bool
  | raw _ => false
  | _ => true

/-- What the matching retrieve returns. -/
def reply : Item → Reply
  | int32 v => .int32 v
  | int64 v => .int64 v
  | uint64 v => .uint64 v
  | raw data => .bytes data

end Item

/-- Raw bytes as a queue. -/
def rawItems (data : Bytes) : List Item := if data = [] then [] else [.raw data]

/-- The bytes of a queue. -/
def bytes (items : List Item) : Bytes := items.flatMap Item.encode

/-- The queue without its first `n` bytes. What is left of an item that is cut is raw. -/
def dropBytes : ℕ → List Item → List Item
  | 0, items => items
  | _, [] => []
  | n + 1, item :: items =>
    if item.encode.length ≤ n + 1 then dropBytes (n + 1 - item.encode.length) items
    else .raw (item.encode.drop (n + 1)) :: items

/-- The raw bytes in front of the first value. -/
def rawFront : List Item → ℕ
  | .raw data :: items => data.length + rawFront items
  | _ => 0

namespace BufferOp

/-- What an operation appends. -/
def items : BufferOp → List Item
  | writeInt32 v => [.int32 v]
  | writeInt64 v => [.int64 v]
  | writeUint64 v => [.uint64 v]
  | op => rawItems op.pushed

/-- The value that the operation is the matching retrieve of, and what comes behind it. -/
def matching : BufferOp → List Item → Option (Item × List Item)
  | retrieveInt32, .int32 v :: items => some (.int32 v, items)
  | retrieveInt64, .int64 v :: items => some (.int64 v, items)
  | retrieveUint64, .uint64 v :: items => some (.uint64 v, items)
  | _, _ => none

end BufferOp

/-- A queue of items, with every reply, and the values that were written and retrieved. -/
structure TypedQueue where
  items : List Item
  replies : List Reply := []
  written : List Item := []
  retrieved : List Item := []
  deriving DecidableEq, Repr

namespace TypedQueue

def step (q : TypedQueue) (op : BufferOp) : TypedQueue :=
  match op.matching q.items with
  | some (item, items) =>
    { q with
      items := items
      replies := q.replies ++ [item.reply]
      retrieved := q.retrieved ++ [item] }
  | none =>
    { q with
      items := dropBytes (op.popped (bytes q.items).length) q.items ++ op.items
      replies := q.replies ++ [op.reply (bytes q.items)]
      written := q.written ++ op.items.filter Item.IsValue }

/-- Every value is retrieved by its matching operation, if at all. -/
def Matched (q : TypedQueue) : List BufferOp → Prop
  | [] => True
  | op :: ops =>
    (op.matching q.items = none → op.popped (bytes q.items).length ≤ rawFront q.items) ∧
      (q.step op).Matched ops

end TypedQueue

theorem twosComplement_bmod {bits n : ℕ} (h : n < 2 ^ bits) :
    twosComplement bits (Int.bmod n (2 ^ bits)) = n := by
  have hmod : Int.bmod n (2 ^ bits) % 2 ^ bits = n := by
    have hcast : ((2 ^ bits : ℕ) : ℤ) = 2 ^ bits := by push_cast; rfl
    rw [← hcast, Int.bmod_emod, ← Int.natCast_emod, Nat.mod_eq_of_lt h]
  rw [twosComplement, hmod, Int.toNat_natCast]

theorem twosComplement_int32 (v : Int32) : twosComplement 32 v.toInt = v.toUInt32.toNat := by
  have hint : v.toInt = Int.bmod v.toUInt32.toNat (2 ^ 32) :=
    BitVec.toInt_eq_toNat_bmod v.toBitVec
  rw [hint, twosComplement_bmod v.toUInt32.toNat_lt]

theorem twosComplement_int64 (v : Int64) : twosComplement 64 v.toInt = v.toUInt64.toNat := by
  have hint : v.toInt = Int.bmod v.toUInt64.toNat (2 ^ 64) :=
    BitVec.toInt_eq_toNat_bmod v.toBitVec
  rw [hint, twosComplement_bmod v.toUInt64.toNat_lt]

@[simp] theorem bytes_nil : bytes [] = [] := rfl

@[simp] theorem bytes_cons (item : Item) (items : List Item) :
    bytes (item :: items) = item.encode ++ bytes items := List.flatMap_cons

@[simp] theorem bytes_append (items items' : List Item) :
    bytes (items ++ items') = bytes items ++ bytes items' := List.flatMap_append

@[simp] theorem bytes_rawItems (data : Bytes) : bytes (rawItems data) = data := by
  unfold rawItems
  split_ifs with h
  · rw [h, bytes_nil]
  · simp [Item.encode]

@[simp] theorem bytes_dropBytes (n : ℕ) (items : List Item) :
    bytes (dropBytes n items) = (bytes items).drop n := by
  induction items generalizing n with
  | nil => cases n <;> simp [dropBytes]
  | cons item items ih =>
    cases n with
    | zero => rfl
    | succ n =>
      unfold dropBytes
      rw [bytes_cons, List.drop_append]
      split_ifs with h
      · rw [ih, List.drop_of_length_le h, List.nil_append]
      · rw [bytes_cons, Nat.sub_eq_zero_of_le (by omega), List.drop_zero]
        rfl

/-- Dropping no more than the raw bytes in front leaves the values. -/
theorem filter_dropBytes {n : ℕ} {items : List Item} (h : n ≤ rawFront items) :
    (dropBytes n items).filter Item.IsValue = items.filter Item.IsValue := by
  induction items generalizing n with
  | nil => cases n <;> rfl
  | cons item items ih =>
    cases n with
    | zero => rfl
    | succ n =>
      cases item with
      | raw data =>
        have hraw : n + 1 ≤ data.length + rawFront items := h
        unfold dropBytes
        split_ifs with hcut
        · rw [ih (by simp only [Item.encode] at hcut ⊢; omega)]
          rfl
        · rfl
      | _ => simp [rawFront] at h

theorem filter_rawItems (data : Bytes) : (rawItems data).filter Item.IsValue = [] := by
  unfold rawItems
  split_ifs <;> rfl

namespace BufferOp

/-- The encoding of an item is what its write appends. -/
theorem bytes_items (op : BufferOp) : bytes op.items = op.pushed := by
  cases op with
  | writeInt32 v => simp [items, Item.encode, pushed, twosComplement_int32]
  | writeInt64 v => simp [items, Item.encode, pushed, twosComplement_int64]
  | writeUint64 v => simp [items, Item.encode, pushed]
  | _ => exact bytes_rawItems _

theorem take_bigEndian {n x : ℕ} (rest : Bytes) (h : x < 256 ^ n) :
    ofBigEndian ((bigEndian n x ++ rest).take n) = x := by
  rw [List.take_left' (length_bigEndian n x), ofBigEndian_bigEndian, Nat.mod_eq_of_lt h]

/-- A matching retrieve consumes the bytes of the value, returns it, and appends nothing. -/
theorem matching_spec {op : BufferOp} {queue rest : List Item} {item : Item}
    (h : op.matching queue = some (item, rest)) :
    queue = item :: rest ∧ item.IsValue = true ∧ op.pushed = [] ∧
      op.popped (bytes queue).length = item.encode.length ∧
      op.reply (bytes queue) = item.reply := by
  unfold matching at h
  split at h
  · next v items =>
    cases h
    refine ⟨rfl, rfl, rfl, by simp [popped, Item.encode], ?_⟩
    rw [reply, bytes_cons, Item.encode, twosComplement_int32,
      take_bigEndian _ v.toUInt32.toNat_lt, UInt32.ofNat_toNat]
    rfl
  · next v items =>
    cases h
    refine ⟨rfl, rfl, rfl, by simp [popped, Item.encode], ?_⟩
    rw [reply, bytes_cons, Item.encode, twosComplement_int64,
      take_bigEndian _ v.toUInt64.toNat_lt, UInt64.ofNat_toNat]
    rfl
  · next v items =>
    cases h
    refine ⟨rfl, rfl, rfl, by simp [popped, Item.encode], ?_⟩
    rw [reply, bytes_cons, Item.encode, take_bigEndian _ v.toNat_lt, UInt64.ofNat_toNat]
    rfl
  · cases h

end BufferOp

namespace TypedQueue

variable {q : TypedQueue} {op : BufferOp}

theorem bytes_step (q : TypedQueue) (op : BufferOp) : bytes (q.step op).items =
    (bytes q.items).drop (op.popped (bytes q.items).length) ++ op.pushed := by
  unfold step
  split
  · next item rest hm =>
    obtain ⟨hq, -, hpush, hpop, -⟩ := BufferOp.matching_spec hm
    rw [hpop, hpush, List.append_nil, hq, bytes_cons, List.drop_left]
  · simp [BufferOp.bytes_items]

theorem replies_step (q : TypedQueue) (op : BufferOp) :
    (q.step op).replies = q.replies ++ [op.reply (bytes q.items)] := by
  unfold step
  split
  · next item rest hm => rw [(BufferOp.matching_spec hm).2.2.2.2]
  · rfl

/-- The values retrieved and those that wait are the values written, in order. -/
def Exact (q : TypedQueue) : Prop :=
  q.retrieved ++ q.items.filter Item.IsValue = q.written

theorem Exact.step (h : Exact q)
    (hm : op.matching q.items = none → op.popped (bytes q.items).length ≤ rawFront q.items) :
    Exact (q.step op) := by
  unfold TypedQueue.step
  split
  · next item rest hm' =>
    obtain ⟨hq, hvalue, -⟩ := BufferOp.matching_spec hm'
    rw [Exact, hq, List.filter_cons_of_pos hvalue] at h
    simp [Exact, ← h]
  · next hnone =>
    rw [Exact] at h ⊢
    rw [List.filter_append, filter_dropBytes (hm hnone), ← List.append_assoc, h]

theorem Exact.of_matched {ops : List BufferOp} (h : Exact q) (hm : q.Matched ops) :
    Exact (ops.foldl TypedQueue.step q) := by
  induction ops generalizing q with
  | nil => exact h
  | cons op ops ih => exact ih (h.step hm.1) hm.2

end TypedQueue

namespace Buffer

/-- A buffer holds the bytes of a queue, and has answered as the queue did. -/
def Holds (s : Buffer × List Reply) (q : TypedQueue) : Prop :=
  s.1.Valid ∧ s.1.content = bytes q.items ∧ s.2 = q.replies

theorem step_holds (p : Platform) {s : Buffer × List Reply} {q : TypedQueue} {op : BufferOp}
    (h : Holds s q) (ha : op.Asserts s.1) : ∃ t, step p s op = .next t ∧ Holds t (q.step op) := by
  obtain ⟨hv, hc, hr⟩ := h
  obtain ⟨b', hb, hv', hc', -⟩ := BufferOp.apply_spec p hv ha
  refine ⟨(b', s.2 ++ [op.reply s.1.content]), by simp [step, hb], hv', ?_, ?_⟩
  · rw [hc', hc, TypedQueue.bytes_step]
  · rw [hc, hr, TypedQueue.replies_step]

/-- A buffer with any history is a queue of typed values and raw bytes: it holds their encodings,
its matching retrieves return the values, and as long as values are retrieved by nothing else,
those retrieved and those that wait are the values written, in order. -/
theorem integer_codec (p : Platform) (hist ops : List BufferOp) (b : Buffer) (replies : List Reply)
    (reached : run (step p) (fresh, []) hist = .next (b, replies))
    (admissible : Admissible p (hist ++ ops)) :
    ∃ b' q, q = ops.foldl TypedQueue.step { items := rawItems b.content, replies := replies } ∧
      run (step p) (b, replies) ops = .next (b', q.replies) ∧ b'.content = bytes q.items ∧
      (TypedQueue.Matched { items := rawItems b.content, replies := replies } ops →
        q.retrieved ++ q.items.filter Item.IsValue = q.written) := by
  have hstep : ∀ s q op, Holds s q → op.Asserts s.1 →
      ∃ t, step p s op = .next t ∧ Holds t (q.step op) := fun _ _ _ h ha => step_holds p h ha
  obtain ⟨hfirst, hrest⟩ := StepsMeet.append admissible reached
  have hfresh : Holds (fresh, []) { items := [] } := ⟨Valid.fresh, rfl, rfl⟩
  obtain ⟨u, hu, hvalid, -, -⟩ := run_simulates hstep hfresh hfirst
  rw [reached] at hu
  cases hu
  have hstart : Holds (b, replies) { items := rawItems b.content, replies := replies } :=
    ⟨hvalid, (bytes_rawItems b.content).symm, rfl⟩
  obtain ⟨⟨b', replies'⟩, hrun, -, hcontent, hreplies⟩ := run_simulates hstep hstart hrest
  refine ⟨b', _, rfl, by rw [hrun, ← hreplies], hcontent, fun hm => ?_⟩
  exact TypedQueue.Exact.of_matched (filter_rawItems b.content) hm

/-- A negative and an unsigned value behind raw bytes that are consumed in parts. -/
theorem integer_codec_mixed : ∃ b replies b',
    run (step ⟨.windows, .little⟩) (fresh, []) [.write [1, 2, 3]] = .next (b, replies) ∧
      run (step ⟨.windows, .little⟩) (b, replies) [.writeInt32 (-2), .retrieve 2, .write [7],
        .writeUint64 5, .retrieveChars 1, .retrieveInt32, .retrieveUntil 1, .retrieveUint64] =
        .next (b', [.none, .none, .none, .none, .none, .bytes [3], .int32 (-2), .none, .uint64 5]) ∧
      b'.content = [] := by
  obtain ⟨⟨b, replies⟩, hr, hc⟩ := Outcome.yields_eq_true.mp (show
    (run (step ⟨.windows, .little⟩) (fresh, []) [.write [1, 2, 3]]).yields
      (fun s => decide (s.1.content = [1, 2, 3] ∧ s.2 = [.none])) = true by decide +kernel)
  obtain ⟨hfront, rfl⟩ : b.content = [1, 2, 3] ∧ replies = [.none] := of_decide_eq_true hc
  obtain ⟨b', q, hq, hrun, hcontent, -⟩ := integer_codec ⟨.windows, .little⟩ [.write [1, 2, 3]]
    [.writeInt32 (-2), .retrieve 2, .write [7], .writeUint64 5, .retrieveChars 1, .retrieveInt32,
      .retrieveUntil 1, .retrieveUint64] b [.none] hr (by decide +kernel)
  rw [hfront] at hq
  have hqueue : q.items = [] ∧ q.replies =
      [.none, .none, .none, .none, .none, .bytes [3], .int32 (-2), .none, .uint64 5] := by
    rw [hq]
    decide +kernel
  rw [hqueue.1] at hcontent
  rw [hqueue.2] at hrun
  exact ⟨b, [.none], b', hr, hrun, hcontent⟩

end Buffer
end Potato
