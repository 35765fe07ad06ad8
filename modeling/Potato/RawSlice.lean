import Potato.StringSlice

/-!
# Slices of memory and their pieces

A `StringSlice` as the code holds it, a pointer and a length, with the object that the
pointer points into. `slice` and `split` move pointers and copy nothing; every byte that is
read is read from that object. What `split` returns stands for the pieces of the bytes.
-/
namespace Potato
open Words Machine

/-- `data_` points to the index `offset` of `memory`. -/
structure RawSlice where
  memory : Bytes
  offset : ℕ
  len : ℕ
  deriving DecidableEq, Repr

namespace RawSlice

/-- The slice lies inside the object, and a `size_t` counts the object. -/
structure Within (s : RawSlice) : Prop where
  end_le : s.offset + s.len ≤ s.memory.length
  memory_lt : s.memory.length < sizeBound

/-- The bytes that the slice denotes. -/
def bytes (s : RawSlice) : Bytes := (s.memory.drop s.offset).take s.len

/-- `data_[i]`. -/
def byteAt (s : RawSlice) (i : ℕ) : Outcome Fault Byte :=
  Outcome.deref s.memory[s.offset + i]? .outOfRange

/-- `slice(beginIndex, len)`, which checks nothing. -/
def slice (s : RawSlice) (beginIndex len : ℕ) : RawSlice :=
  { s with offset := s.offset + beginIndex, len := min (subSize s.len beginIndex) len }

/-- The loop of `split` from the index `i` on, with `n` rounds left, and the piece behind it. -/
def splitLoop (s : RawSlice) (delim : Byte) :
    ℕ → ℕ → ℕ → List RawSlice → Outcome Fault (List RawSlice)
  | 0, _, begin, ret => return ret ++ [s.slice begin (subSize s.len begin)]
  | n + 1, i, begin, ret => do
    let c ← s.byteAt i
    if c = delim then
      splitLoop s delim n (i + 1) (i + 1) (ret ++ [s.slice begin (subSize i begin)])
    else splitLoop s delim n (i + 1) begin ret

def split (s : RawSlice) (delim : Byte) : Outcome Fault (List RawSlice) :=
  if s.len = 0 then return [] else s.splitLoop delim s.len 0 0 []

variable {s : RawSlice} {c d : Byte} {b i n : ℕ}

theorem Within.length_bytes (h : s.Within) : s.bytes.length = s.len := by
  have := h.end_le
  rw [bytes, List.length_take, List.length_drop]
  omega

theorem Within.byteAt_eq (h : s.Within) (hi : i < s.bytes.length) :
    s.byteAt i = .next s.bytes[i] := by
  rw [byteAt, Outcome.deref_eq_next]
  have hlen := h.length_bytes
  have := h.end_le
  rw [List.getElem?_eq_getElem (by omega)]
  simp [bytes]

theorem subSize_of_le {m : ℕ} (hm : m < sizeBound) (h : n ≤ m) : subSize m n = m - n := by
  unfold subSize sizeBound at *
  omega

/-- The range of `t` lies in that of `s`. -/
structure Inside (t s : RawSlice) : Prop where
  memory : t.memory = s.memory
  begin_ge : s.offset ≤ t.offset
  end_le : t.offset + t.len ≤ s.offset + s.len

theorem Inside.refl (s : RawSlice) : s.Inside s := ⟨rfl, le_rfl, le_rfl⟩

theorem Inside.trans {t u : RawSlice} (h : u.Inside t) (h' : t.Inside s) : u.Inside s :=
  ⟨h.memory.trans h'.memory, h'.begin_ge.trans h.begin_ge, h.end_le.trans h'.end_le⟩

theorem Inside.within {t : RawSlice} (h : t.Inside s) (hs : s.Within) : t.Within :=
  ⟨h.memory ▸ h.end_le.trans hs.end_le, h.memory ▸ hs.memory_lt⟩

theorem Within.len_slice (h : s.Within) (hb : b ≤ i) (hi : i ≤ s.len) :
    (s.slice b (subSize i b)).len = i - b := by
  have hend := h.end_le
  have hlt := h.memory_lt
  change min (subSize s.len b) (subSize i b) = i - b
  rw [subSize_of_le (by omega) (by omega), subSize_of_le (by omega) hb]
  omega

theorem Within.slice_inside (h : s.Within) (hb : b ≤ i) (hi : i ≤ s.len) :
    (s.slice b (subSize i b)).Inside s := by
  refine ⟨rfl, Nat.le_add_right _ _, ?_⟩
  rw [h.len_slice hb hi]
  change s.offset + b + (i - b) ≤ s.offset + s.len
  omega

/-- A range inside a slice is a slice of the same object, with the bytes of that range. -/
theorem Within.slice (h : s.Within) (hb : b ≤ i) (hi : i ≤ s.len) :
    (s.slice b (subSize i b)).Within ∧
      (s.slice b (subSize i b)).bytes = (s.bytes.drop b).take (i - b) := by
  refine ⟨(h.slice_inside hb hi).within h, ?_⟩
  rw [bytes, bytes, h.len_slice hb hi, List.drop_take, List.drop_drop, List.take_take]
  change (s.memory.drop (s.offset + b)).take (i - b) = _
  rw [Nat.min_eq_left (by omega)]

/-- Every piece is a range of the slice. -/
theorem splitLoop_inside (h : s.Within) {ret pieces : List RawSlice} (hn : i + n = s.len)
    (hb : b ≤ i) (hret : ∀ piece ∈ ret, piece.Inside s)
    (hloop : s.splitLoop d n i b ret = .next pieces) : ∀ piece ∈ pieces, piece.Inside s := by
  induction n generalizing i b ret with
  | zero =>
    obtain rfl : i = s.len := by omega
    cases hloop
    exact List.forall_mem_append.mpr
      ⟨hret, List.forall_mem_singleton.mpr (h.slice_inside hb le_rfl)⟩
  | succ n ih =>
    simp only [splitLoop, Outcome.bind_eq_next] at hloop
    obtain ⟨c, -, hloop⟩ := hloop
    by_cases hc : c = d
    · rw [if_pos hc] at hloop
      refine ih (by omega) le_rfl ?_ hloop
      exact List.forall_mem_append.mpr
        ⟨hret, List.forall_mem_singleton.mpr (h.slice_inside hb (by omega))⟩
    · rw [if_neg hc] at hloop
      exact ih (by omega) (by omega) hret hloop

theorem split_inside (h : s.Within) {pieces : List RawSlice} (hs : s.split d = .next pieces) :
    ∀ piece ∈ pieces, piece.Inside s := by
  rw [split] at hs
  split_ifs at hs with hlen
  · cases hs
    exact List.forall_mem_nil _
  · exact splitLoop_inside h (Nat.zero_add _) le_rfl (List.forall_mem_nil _) hs

/-- At the index `i`, with the open piece from `begin` on: what has been collected, then the
pieces of the rest behind the bytes of the open piece. -/
theorem splitLoop_spec (h : s.Within) (ret : List RawSlice) (hn : i + n = s.len) (hb : b ≤ i) :
    ∃ pieces, s.splitLoop d n i b ret = .next pieces ∧
      pieces.map bytes = ret.map bytes ++
        (s.bytes.drop i).splitOnPPrepend (· == d) ((s.bytes.drop b).take (i - b)).reverse := by
  induction n generalizing i b ret with
  | zero =>
    obtain rfl : i = s.len := by omega
    obtain ⟨-, hbytes⟩ := h.slice hb le_rfl
    refine ⟨_, rfl, ?_⟩
    rw [List.map_append, List.map_singleton, hbytes, ← h.length_bytes, List.drop_length,
      List.splitOnPPrepend_nil, List.reverse_reverse]
  | succ n ih =>
    have hlt : i < s.bytes.length := by
      have := h.length_bytes
      omega
    simp only [splitLoop, h.byteAt_eq hlt, Outcome.next_bind]
    rw [List.drop_eq_getElem_cons hlt]
    by_cases hc : s.bytes[i] = d
    · -- a piece ends in front of the delimiter
      obtain ⟨-, hbytes⟩ := h.slice hb (i := i) (by omega)
      rw [if_pos hc]
      obtain ⟨pieces, hloop, hmap⟩ :=
        ih (b := i + 1) (i := i + 1) (ret ++ [s.slice b (subSize i b)]) (by omega) le_rfl
      refine ⟨pieces, hloop, ?_⟩
      rw [hmap, List.splitOnPPrepend_cons_pos (by simpa using hc), List.map_append,
        List.map_singleton, hbytes, List.reverse_reverse, Nat.sub_self, List.take_zero,
        List.reverse_nil, List.splitOnPPrepend_nil_right, List.append_assoc,
        List.singleton_append]
    · rw [if_neg hc]
      obtain ⟨pieces, hloop, hmap⟩ :=
        ih (i := i + 1) ret (by omega) (by omega : b ≤ i + 1)
      refine ⟨pieces, hloop, ?_⟩
      have hgrow : (s.bytes.drop b).take (i + 1 - b) =
          (s.bytes.drop b).take (i - b) ++ [s.bytes[i]] := by
        have hin : i - b < (s.bytes.drop b).length := by
          rw [List.length_drop]
          omega
        rw [Nat.sub_add_comm hb, ← List.take_concat_get' _ _ hin, List.getElem_drop]
        simp only [Nat.add_sub_cancel' hb]
      rw [hmap, List.splitOnPPrepend_cons_neg (by simpa using hc), hgrow, List.reverse_append]
      rfl

theorem split_spec (h : s.Within) (hne : s.bytes ≠ []) (d : Byte) :
    ∃ pieces, s.split d = .next pieces ∧ (∀ piece ∈ pieces, piece.Within) ∧
      pieces.map bytes = s.bytes.splitOn d := by
  have hlen : s.len ≠ 0 := by
    rw [← h.length_bytes]
    exact fun h0 => hne (List.length_eq_zero_iff.mp h0)
  obtain ⟨pieces, hloop, hmap⟩ :=
    splitLoop_spec (d := d) (b := 0) (i := 0) h [] (Nat.zero_add _) le_rfl
  have hsplit : s.split d = .next pieces := by rw [split, if_neg hlen, hloop]
  exact ⟨pieces, hsplit, fun piece hp => (split_inside h hsplit piece hp).within h, hmap⟩

end RawSlice

section Pieces
variable {α : Type} [BEq α] (a : α) (xs : List α)

theorem not_mem_of_mem_splitOn [LawfulBEq α] : ∀ piece ∈ xs.splitOn a, a ∉ piece := by
  induction xs with
  | nil => simp
  | cons x xs ih =>
    obtain ⟨first, rest, he⟩ := List.exists_cons_of_ne_nil (List.splitOn_ne_nil a xs)
    rw [he, List.forall_mem_cons] at ih
    rw [List.splitOn_cons_eq_if_modifyHead, he]
    split_ifs with hx
    · exact List.forall_mem_cons.mpr ⟨List.not_mem_nil, List.forall_mem_cons.mpr ih⟩
    · refine List.forall_mem_cons.mpr ⟨?_, ih.2⟩
      rintro (_ | ⟨_, hmem⟩)
      · exact hx (BEq.refl _)
      · exact ih.1 hmem

theorem length_splitOn : (xs.splitOn a).length = xs.count a + 1 := by
  induction xs with
  | nil => simp
  | cons x xs ih =>
    rw [List.splitOn_cons_eq_if_modifyHead, List.count_cons]
    split_ifs <;> simp [ih]

end Pieces

namespace RawSlice

/-- Joining what `split` returns gives the slice back, and splitting a join gives the pieces
back. -/
theorem split_join_inverse (d : Byte) :
    (∀ s : RawSlice, s.Within → s.bytes ≠ [] → ∃ pieces, s.split d = .next pieces ∧
      [d].intercalate (pieces.map bytes) = s.bytes ∧
      (∀ piece ∈ pieces, piece.Within ∧ d ∉ piece.bytes) ∧
      pieces.length = s.bytes.count d + 1) ∧
    ∀ parts : List Bytes, parts ≠ [] → parts ≠ [[]] → (∀ part ∈ parts, d ∉ part) →
      ∀ s : RawSlice, s.Within → s.bytes = [d].intercalate parts →
        ∃ pieces, s.split d = .next pieces ∧ pieces.map bytes = parts := by
  constructor
  · intro s h hne
    obtain ⟨pieces, hsplit, hall, hmap⟩ := split_spec h hne d
    refine ⟨pieces, hsplit, ?_, fun piece hp => ⟨hall piece hp, ?_⟩, ?_⟩
    · rw [hmap, List.intercalate_splitOn]
    · exact not_mem_of_mem_splitOn d s.bytes _ (hmap ▸ List.mem_map_of_mem hp)
    · rw [← length_splitOn, ← hmap, List.length_map]
  · intro parts hne hone hfree s h hjoin
    have hback : s.bytes.splitOn d = parts := by
      rw [hjoin, List.splitOn_intercalate d hfree hne]
    have hbytes : s.bytes ≠ [] := by
      intro hnil
      rw [hnil, List.splitOn_nil] at hback
      exact hone hback.symm
    obtain ⟨pieces, hsplit, -, hmap⟩ := split_spec h hbytes d
    exact ⟨pieces, hsplit, hmap.trans hback⟩

/-- Empty pieces at the start, in the middle and at the end. -/
theorem split_join_inverse_empty : ∃ pieces,
    split ⟨[32, 44, 97, 44, 44, 98, 44, 32], 1, 6⟩ 44 = .next pieces ∧
      pieces.map bytes = [[], [97], [], [98], []] :=
  (split_join_inverse 44).2 [[], [97], [], [98], []] (by decide) (by decide) (by decide)
    ⟨[32, 44, 97, 44, 44, 98, 44, 32], 1, 6⟩ ⟨by decide, by decide⟩ (by decide)

end RawSlice
end Potato
