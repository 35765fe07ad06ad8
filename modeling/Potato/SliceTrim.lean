import Potato.RawSlice
import Potato.Trimming

/-!
# Trimming a slice

`trim` runs one index forward and one backward over the bytes of a slice. The loops are written over
the way in which a byte is read and an index is decremented: once as the code does it, and once so
that a read outside of the slice, or a decrement of zero, is a fault. Both give the same slice.
-/
namespace Potato
open Words Machine Trimming

namespace RawSlice

/-- `{"", 0}`: no bytes of an object that holds a NUL byte. -/
def literal : RawSlice := ⟨[0], 0, 0⟩

/-- The first loop of `trim` from the index `front` on, with `n` rounds left. -/
def frontLoop (read : ℕ → Outcome Fault Byte) (delim : Byte) : ℕ → ℕ → Outcome Fault ℕ
  | 0, front => return front
  | n + 1, front => do
    let c ← read front
    if c ≠ delim then return front else frontLoop read delim n (front + 1)

/-- The second loop. -/
def backLoop (read : ℕ → Outcome Fault Byte) (dec : ℕ → Outcome Fault ℕ) (delim : Byte)
    (front : ℕ) : ℕ → ℕ → Outcome Fault ℕ
  | 0, _ => .refused
  | fuel + 1, back => do
    if back > front then
      let c ← read back
      if c ≠ delim then return back
      else
        let back ← dec back
        backLoop read dec delim front fuel back
    else return back

def trimBy (s : RawSlice) (read : ℕ → Outcome Fault Byte) (dec : ℕ → Outcome Fault ℕ)
    (delim : Byte) : Outcome Fault RawSlice := do
  let front ← frontLoop read delim s.len 0
  if s.len = 0 ∨ front = s.len then return literal
  else
    let back ← dec s.len
    let back ← backLoop read dec delim front s.len back
    return s.slice front (addSize (subSize back front) 1)

def trim (s : RawSlice) (delim : Byte) : Outcome Fault RawSlice :=
  s.trimBy s.byteAt (fun i => return subSize i 1) delim

/-- `data_[i]`, where the index has to lie in the slice. -/
def guardedByteAt (s : RawSlice) (i : ℕ) : Outcome Fault Byte := do
  Outcome.check (i < s.len) .outOfRange
  s.byteAt i

/-- `--i`, where the index has to be above zero. -/
def guardedDec (i : ℕ) : Outcome Fault ℕ := do
  Outcome.check (0 < i) .outOfRange
  return subSize i 1

/-- `trim`, with a fault where an index leaves the slice or wraps. -/
def guardedTrim (s : RawSlice) (delim : Byte) : Outcome Fault RawSlice :=
  s.trimBy s.guardedByteAt guardedDec delim

variable {s : RawSlice} {d : Byte} {front back fuel i n : ℕ}

/-- Inside the slice, bytes are read and indices are decremented as one expects. -/
structure Faithful (s : RawSlice) (read : ℕ → Outcome Fault Byte) (dec : ℕ → Outcome Fault ℕ) :
    Prop where
  read_eq : ∀ i (hi : i < s.bytes.length), read i = .next s.bytes[i]
  dec_eq : ∀ i, 0 < i → i ≤ s.len → dec i = .next (i - 1)

theorem Within.len_lt (h : s.Within) : s.len < sizeBound := by
  have := h.end_le
  have := h.memory_lt
  omega

theorem Within.faithful (h : s.Within) : s.Faithful s.byteAt (fun i => return subSize i 1) where
  read_eq := fun _ hi => h.byteAt_eq hi
  dec_eq := fun i hpos hle => by
    have := h.len_lt
    rw [Outcome.pure_eq, subSize_of_le (by omega) hpos]

theorem Within.faithful_guarded (h : s.Within) : s.Faithful s.guardedByteAt guardedDec where
  read_eq := fun i hi => by
    rw [guardedByteAt, Outcome.check_pos (h.length_bytes ▸ hi), Outcome.next_bind, h.byteAt_eq hi]
  dec_eq := fun i hpos hle => by
    have := h.len_lt
    rw [guardedDec, Outcome.check_pos hpos, Outcome.next_bind, Outcome.pure_eq,
      subSize_of_le (by omega) hpos]

/-- The first loop stops at the first byte that is not the delimiter, or behind the last byte. -/
theorem frontLoop_spec (hn : i + n = s.bytes.length) (hbefore : ∀ k < i, s.bytes[k]? = some d) :
    ∃ front, (∀ {read dec}, s.Faithful read dec → frontLoop read d n i = .next front) ∧
      front ≤ s.bytes.length ∧ (∀ k < front, s.bytes[k]? = some d) ∧ s.bytes[front]? ≠ some d := by
  induction n generalizing i with
  | zero =>
    refine ⟨i, fun _ => rfl, by omega, hbefore, ?_⟩
    rw [List.getElem?_eq_none (by omega)]
    nofun
  | succ n ih =>
    have hi : i < s.bytes.length := by omega
    by_cases hd : s.bytes[i] = d
    · obtain ⟨front, hloop, hspec⟩ := ih (i := i + 1) (by omega) fun k hk => by
        by_cases hki : k = i
        · rw [hki, List.getElem?_eq_getElem hi, hd]
        · exact hbefore k (by omega)
      refine ⟨front, fun hf => ?_, hspec⟩
      rw [frontLoop, hf.read_eq i hi, Outcome.next_bind, if_neg (not_not.mpr hd), hloop hf]
    · refine ⟨i, fun hf => ?_, hi.le, hbefore, ?_⟩
      · rw [frontLoop, hf.read_eq i hi, Outcome.next_bind, if_pos hd]
        rfl
      · rw [List.getElem?_eq_getElem hi, ne_eq, Option.some.injEq]
        exact hd

/-- The second loop stops at the last byte that is not the delimiter: the first loop has found
one. -/
theorem backLoop_spec (h : s.Within) (hle : front ≤ back) (hlt : back < s.bytes.length)
    (hfuel : back < front + fuel) (hfirst : s.bytes[front]? ≠ some d)
    (hbehind : ∀ k, back < k → k < s.bytes.length → s.bytes[k]? = some d) :
    ∃ last, (∀ {read dec}, s.Faithful read dec →
        backLoop read dec d front fuel back = .next last) ∧
      front ≤ last ∧ last < s.bytes.length ∧ s.bytes[last]? ≠ some d ∧
      ∀ k, last < k → k < s.bytes.length → s.bytes[k]? = some d := by
  induction fuel generalizing back with
  | zero => omega
  | succ fuel ih =>
    by_cases hgt : back > front
    · by_cases hd : s.bytes[back] = d
      · have hlen := h.length_bytes
        obtain ⟨last, hloop, hspec⟩ := ih (by omega : front ≤ back - 1) (by omega) (by omega)
          fun k hk hk' => by
            by_cases hkb : k = back
            · rw [hkb, List.getElem?_eq_getElem hlt, hd]
            · exact hbehind k (by omega) hk'
        refine ⟨last, fun hf => ?_, hspec⟩
        rw [backLoop, if_pos hgt, hf.read_eq back hlt, Outcome.next_bind,
          if_neg (not_not.mpr hd), hf.dec_eq back (by omega) (by omega), Outcome.next_bind,
          hloop hf]
      · refine ⟨back, fun hf => ?_, hle, hlt, ?_, hbehind⟩
        · rw [backLoop, if_pos hgt, hf.read_eq back hlt, Outcome.next_bind, if_pos hd]
          rfl
        · rw [List.getElem?_eq_getElem hlt, ne_eq, Option.some.injEq]
          exact hd
    · obtain rfl : back = front := by omega
      refine ⟨back, fun _ => ?_, hle, hlt, hfirst, hbehind⟩
      rw [backLoop, if_neg hgt]
      rfl

/-- What `trim` returns: the literal if all bytes are the delimiter, and else the range from the
first to the last byte that is not. -/
theorem trimBy_spec (h : s.Within) (d : Byte) :
    ((∀ c ∈ s.bytes, c = d) ∧
      ∀ {read dec}, s.Faithful read dec → s.trimBy read dec d = .next literal) ∨
    ∃ front back, Outermost d s.bytes front back ∧ ∀ {read dec}, s.Faithful read dec →
      s.trimBy read dec d = .next (s.slice front (subSize (back + 1) front)) := by
  have hlen := h.length_bytes
  obtain ⟨front, hfront, hle, hbefore, hfirst⟩ :=
    frontLoop_spec (s := s) (d := d) (n := s.len) (i := 0) (by omega) (fun k hk => by omega)
  by_cases hend : s.len = 0 ∨ front = s.len
  · refine .inl ⟨fun c hc => ?_, fun hf => ?_⟩
    · obtain ⟨k, hk, rfl⟩ := List.mem_iff_getElem.mp hc
      have hk' := hbefore k (by omega)
      rwa [List.getElem?_eq_getElem hk, Option.some.injEq] at hk'
    · rw [trimBy, hfront hf, Outcome.next_bind, if_pos hend]
      rfl
  · have hstart : s.len - 1 < front + s.len := by omega
    obtain ⟨last, hback, hle', hlt, hlast, hbehind⟩ :=
      backLoop_spec h (by omega) (by omega) hstart hfirst (fun k hk hk' => by omega)
    refine .inr ⟨front, last, ⟨hle', hlt, hbefore, hfirst, hlast, hbehind⟩, fun hf => ?_⟩
    have hsize := h.len_lt
    have hcount : addSize (subSize last front) 1 = subSize (last + 1) front := by
      rw [subSize_of_le (by omega) hle', subSize_of_le (by omega) (by omega),
        addSize_of_lt (by omega)]
      omega
    rw [trimBy, hfront hf, Outcome.next_bind, if_neg hend, hf.dec_eq s.len (by omega) le_rfl,
      Outcome.next_bind, hback hf, Outcome.next_bind, hcount]
    rfl

theorem Within.trim_eq (h : s.Within) (d : Byte) : s.trim d = s.guardedTrim d := by
  obtain ⟨-, hspec⟩ | ⟨front, back, -, hspec⟩ := trimBy_spec h d
  · exact (hspec h.faithful).trans (hspec h.faithful_guarded).symm
  · exact (hspec h.faithful).trans (hspec h.faithful_guarded).symm

/-- A slice that neither starts nor ends with the delimiter is given back, unless it is empty. -/
theorem Within.trim_bare (h : s.Within) (hne : s.bytes ≠ []) (hbare : Bare d s.bytes) :
    s.trim d = .next s := by
  have hpos := List.length_pos_iff.mpr hne
  have hlen := h.length_bytes
  obtain ⟨hall, -⟩ | ⟨front, back, hout, hspec⟩ := trimBy_spec h d
  · have hnil := (trims_nil.mpr hall).unique hbare.trims
    exact absurd hnil.symm hne
  · have hlt := hout.lt
    have hfront : front = 0 := by
      by_contra hfront
      have hhead := hout.before 0 (by omega)
      rw [← List.head?_eq_getElem?] at hhead
      exact hbare.1 hhead
    have hback : back + 1 = s.len := by
      by_contra hback
      have hlast := hout.behind (s.bytes.length - 1) (by omega) (by omega)
      rw [← List.getLast?_eq_getElem?] at hlast
      exact hbare.2 hlast
    have hsame : s.slice 0 (subSize s.len 0) = s := by
      have hsize : (s.slice 0 (subSize s.len 0)).len = s.len :=
        h.len_slice (Nat.zero_le _) le_rfl
      change RawSlice.mk s.memory s.offset _ = s
      rw [show min (subSize s.len 0) (subSize s.len 0) = s.len from hsize]
    rw [trim, hspec h.faithful, hfront, hback, hsame]

/-- `trim` reads inside the slice only and never decrements zero; what it returns is the slice
without the runs of the delimiter at its ends, and nothing else is; and trimming that again changes
nothing. -/
theorem trim_surrounding (s : RawSlice) (d : Byte) (h : s.Within) : ∃ t,
    s.trim d = .next t ∧ s.guardedTrim d = .next t ∧ Trims d s.bytes t.bytes ∧
      (∀ core, Trims d s.bytes core → core = t.bytes) ∧
      (t.bytes = [] ↔ ∀ c ∈ s.bytes, c = d) ∧ t.trim d = .next t := by
  rw [← h.trim_eq]
  have hlen := h.length_bytes
  have hnil : Trims d s.bytes [] ↔ ∀ c ∈ s.bytes, c = d := trims_nil
  obtain ⟨hall, hspec⟩ | ⟨front, back, hout, hspec⟩ := trimBy_spec h d
  · have hliteral := hspec h.faithful
    have htrims := hnil.mpr hall
    exact ⟨literal, hliteral, hliteral, htrims, fun core hcore => hcore.unique htrims,
      iff_of_true rfl hall, rfl⟩
  · have hrange := hspec h.faithful
    have hle := hout.le
    have hlt := hout.lt
    obtain ⟨hin, hbytes⟩ := h.slice (b := front) (i := back + 1) (by omega) (by omega)
    have htrims := hout.trims
    rw [← hbytes] at htrims
    have hne : (s.slice front (subSize (back + 1) front)).bytes ≠ [] := by
      rw [← List.length_pos_iff, hin.length_bytes, h.len_slice (by omega) (by omega)]
      omega
    refine ⟨_, hrange, hrange, htrims, fun core hcore => hcore.unique htrims,
      iff_of_false hne fun hall => hne (htrims.unique (hnil.mpr hall)), ?_⟩
    exact hin.trim_bare hne htrims.bare

/-- Spaces at both ends and inside. -/
theorem trim_surrounding_spaces : ∃ t,
    trim ⟨[97, 32, 32, 98, 32, 99, 32, 0], 1, 6⟩ 32 = .next t ∧ t.bytes = [98, 32, 99] ∧
      t.trim 32 = .next t := by
  obtain ⟨t, htrim, -, -, hunique, -, hagain⟩ := trim_surrounding
    ⟨[97, 32, 32, 98, 32, 99, 32, 0], 1, 6⟩ 32 ⟨by decide, by decide⟩
  exact ⟨t, htrim, (hunique [98, 32, 99] ⟨⟨2, 1, by decide⟩, by decide, by decide⟩).symm, hagain⟩

end RawSlice
end Potato
