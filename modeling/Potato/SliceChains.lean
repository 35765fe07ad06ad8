import Potato.SliceTrim

/-!
# Chains of derived slices

`slice`, `trim` and the pieces of `split`, one called on the result of the other. `slice` subtracts
the first index from the length before it takes the minimum, so it is right up to the end of the
slice, and behind that the difference wraps.
-/
namespace Potato
open Words Machine Trimming

/-- A call that derives one slice from another. -/
inductive SliceCall where
  | slice (beginIndex len : ℕ)
  | trim (delim : Byte)
  /-- `split(delim)[piece]` -/
  | split (delim : Byte) (piece : ℕ)
  deriving DecidableEq, Repr

namespace RawSlice

def call (s : RawSlice) : SliceCall → Outcome Fault RawSlice
  | .slice beginIndex len => return s.slice beginIndex len
  | .trim delim => s.trim delim
  | .split delim piece => do
    let pieces ← s.split delim
    match pieces[piece]? with
    | some t => return t
    | none => .refused

/-- `slice` is asked to begin inside the slice, or right behind it. -/
def BeginsInside (s : RawSlice) : SliceCall → Prop
  | .slice beginIndex _ => beginIndex ≤ s.len
  | _ => True

instance (s : RawSlice) (c : SliceCall) : Decidable (s.BeginsInside c) := by
  cases c <;> simp only [BeginsInside] <;> infer_instance

/-- `slice(beginIndex, len)` is the range from the smaller of `beginIndex` and `size()` on, with as
many bytes as there are but at most `len`. -/
structure SlicesInside (s : RawSlice) (beginIndex len : ℕ) : Prop where
  inside : (s.slice beginIndex len).Inside s
  offset_eq : (s.slice beginIndex len).offset = s.offset + min beginIndex s.len
  len_eq : (s.slice beginIndex len).len = min (s.len - min beginIndex s.len) len

variable {s t u : RawSlice} {b n : ℕ}

theorem Within.slicesInside_iff (h : s.Within) : s.SlicesInside b n ↔ b ≤ s.len := by
  constructor
  · intro hs
    have := hs.inside.end_le
    change s.offset + b + _ ≤ s.offset + s.len at this
    omega
  · intro hb
    have hsize := h.len_lt
    have hlen : (s.slice b n).len = min (s.len - b) n := by
      change min (subSize s.len b) n = _
      rw [subSize_of_le hsize hb]
    refine ⟨⟨rfl, Nat.le_add_right _ _, ?_⟩, ?_, ?_⟩
    · rw [hlen]
      change s.offset + b + min (s.len - b) n ≤ s.offset + s.len
      omega
    · rw [Nat.min_eq_left hb]
      rfl
    · rw [hlen, Nat.min_eq_left hb]

/-- The range of `t` lies in that of `s`, or `t` is the empty literal that `trim` returns. -/
def Derived (s t : RawSlice) : Prop := t.Inside s ∨ t = literal

theorem Derived.trans (h : Derived s t) (h' : Derived t u) : Derived s u := by
  rcases h' with h' | rfl
  · rcases h with h | rfl
    · exact .inl (h'.trans h)
    · -- inside the literal there is only the literal
      refine .inr ?_
      obtain ⟨memory, offset, len⟩ := u
      obtain ⟨rfl, -, hend⟩ := h'
      change offset + len ≤ 0 + 0 at hend
      obtain rfl : offset = 0 := by omega
      obtain rfl : len = 0 := by omega
      rfl
  · exact .inr rfl

theorem Derived.within (h : Derived s t) (hs : s.Within) : t.Within := by
  rcases h with h | rfl
  · exact h.within hs
  · exact ⟨by decide, by decide⟩

/-- One call. -/
theorem Within.call_derived {c : SliceCall} (h : s.Within) (hc : s.BeginsInside c)
    (ht : s.call c = .next t) : Derived s t := by
  cases c with
  | slice b n =>
    cases ht
    exact .inl (h.slicesInside_iff.mpr hc).inside
  | trim d =>
    change s.trim d = .next t at ht
    obtain ⟨-, hspec⟩ | ⟨front, back, hout, hspec⟩ := trimBy_spec h d
    · rw [trim, hspec h.faithful] at ht
      cases ht
      exact .inr rfl
    · rw [trim, hspec h.faithful] at ht
      cases ht
      have hle := hout.le
      have hlt := hout.lt
      rw [h.length_bytes] at hlt
      exact .inl (h.slice_inside (by omega) (by omega))
  | split d i =>
    simp only [call, Outcome.bind_eq_next] at ht
    obtain ⟨pieces, hsplit, ht⟩ := ht
    split at ht
    · next piece hpiece =>
      cases ht
      exact .inl (split_inside h hsplit _ (List.mem_of_getElem? hpiece))
    · cases ht

/-- `slice` denotes a range inside its source if and only if it is asked to begin there; and no
chain of calls that all do leaves the source. -/
theorem slice_inside_iff (s : RawSlice) (h : s.Within) :
    (∀ beginIndex len, s.SlicesInside beginIndex len ↔ beginIndex ≤ s.len) ∧
    ∀ (calls : List SliceCall) (t : RawSlice), StepsMeet call BeginsInside s calls →
      run call s calls = .next t → Derived s t := by
  refine ⟨fun beginIndex len => h.slicesInside_iff, fun calls t hc hrun => ?_⟩
  have hstep : ∀ u c v, Derived s u → u.BeginsInside c → u.call c = .next v → Derived s v :=
    fun u c v hu hc hv => hu.trans ((hu.within h).call_derived hc hv)
  exact run_invariant_of hstep (.inl (.refl s)) hc hrun

/-- The text `a, bc `. -/
def listing : RawSlice := ⟨[97, 44, 32, 98, 99, 32, 0], 0, 6⟩

/-- The second piece of the text, less the spaces around it and its first byte. -/
theorem slice_inside_iff_piece : ∃ t : RawSlice,
    run call listing [.split 44 1, .trim 32, .slice 1 StringSlice.npos] = .next t ∧
      t.bytes = [99] ∧ Derived listing t ∧ listing.SlicesInside 6 StringSlice.npos := by
  have hs : listing.Within := ⟨by decide, by decide⟩
  have hrun : run call listing [.split 44 1, .trim 32, .slice 1 StringSlice.npos] =
      .next ⟨[97, 44, 32, 98, 99, 32, 0], 4, 1⟩ := by
    decide +kernel
  exact ⟨_, hrun, by decide, (slice_inside_iff listing hs).2 _ _ (by decide +kernel) hrun,
    ((slice_inside_iff listing hs).1 6 StringSlice.npos).mpr (by decide)⟩

/-- From the index 4 of a slice of three bytes on, the bytes behind it are denoted. -/
theorem slice_reaches_outside : Within ⟨[97, 98, 99, 0, 100, 101, 0], 0, 3⟩ ∧
    bytes (slice ⟨[97, 98, 99, 0, 100, 101, 0], 0, 3⟩ 4 2) = [100, 101] ∧
      ¬ SlicesInside ⟨[97, 98, 99, 0, 100, 101, 0], 0, 3⟩ 4 2 := by
  refine ⟨⟨by decide, by decide⟩, by decide, fun hs => ?_⟩
  exact absurd hs.offset_eq (by decide)

end RawSlice
end Potato
