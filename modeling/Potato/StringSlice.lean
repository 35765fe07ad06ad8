import Potato.Buffer
import Potato.Borders

/-!
# Searching in a string slice

`find` builds the failure table of the needle and runs through the haystack with it.
Its loops take fuel here, one round more than they need, and every access to the
needle or to the table is checked; the proofs show that no check fails and that the
fuel lasts. What the loops keep is the longest prefix of the needle at the end of
what has been read.
-/
namespace Potato
open Words Machine Borders

/-- A `StringSlice`, whose length is a `size_t`. -/
structure StringSlice where
  data : Bytes
  length_lt : data.length < sizeBound
  deriving DecidableEq, Repr

/-- Subtraction of `size_t` values, with its wrap-around. -/
def subSize (a b : ℕ) : ℕ := (a + (sizeBound - b)) % sizeBound

namespace StringSlice

/-- `SIZE_MAX`. -/
def npos : ℕ := sizeBound - 1

def size (s : StringSlice) : ℕ := s.data.length

/-- `operator[]`, with its assertion. -/
def get (s : StringSlice) (index : ℕ) : Outcome Fault Byte :=
  Outcome.deref s.data[index]? .assertion

/-- `while (j > 0 && c != slice[j]) j = next[j - 1];` -/
def fallBack (slice : StringSlice) (next : List ℕ) (c : Byte) : ℕ → ℕ → Outcome Fault ℕ
  | 0, _ => .refused
  | fuel + 1, j => do
    if j > 0 then
      let d ← slice.get j
      if c ≠ d then
        let j ← Outcome.deref next[j - 1]? .outOfRange
        fallBack slice next c fuel j
      else return j
    else return j

/-- The body of the loop that fills the table, for the index `i`. -/
def tableBody (slice : StringSlice) (next : List ℕ) (j i : ℕ) : Outcome Fault (List ℕ × ℕ) := do
  let c ← slice.get i
  let j ← fallBack slice next c (j + 1) j
  let d ← slice.get j
  let j := if c = d then j + 1 else j
  Outcome.check (i < next.length) .outOfRange
  return (next.set i j, j)

/-- That loop, with `n` rounds left. -/
def tableLoop (slice : StringSlice) : ℕ → List ℕ → ℕ → ℕ → Outcome Fault (List ℕ)
  | 0, next, _, _ => return next
  | n + 1, next, j, i => do
    let (next, j) ← tableBody slice next j i
    tableLoop slice n next j (i + 1)

/-- `next`, as it is when the first loop is done. -/
def failureTable (slice : StringSlice) : Outcome Fault (List ℕ) :=
  tableLoop slice (slice.size - 1) (List.replicate slice.size 0) 0 1

/-- The loop over the haystack, with the bytes from the index `i` on left. -/
def searchLoop (slice : StringSlice) (next : List ℕ) : Bytes → ℕ → ℕ → Outcome Fault ℕ
  | [], _, _ => return npos
  | c :: rest, j, i => do
    let j ← fallBack slice next c (j + 1) j
    let d ← slice.get j
    if d = c then
      let j := j + 1
      if j ≥ slice.size then return addSize (subSize i j) 1
      else searchLoop slice next rest j (i + 1)
    else searchLoop slice next rest j (i + 1)

def find (s slice : StringSlice) : Outcome Fault ℕ := do
  if slice.size = 0 ∨ s.size = 0 then return npos
  else
    let next ← slice.failureTable
    searchLoop slice next s.data 0 0

/-- The loop of `find(char)`. -/
def findCharLoop (c : Byte) : Bytes → ℕ → ℕ
  | [], _ => npos
  | d :: rest, i => if d = c then i else findCharLoop c rest (i + 1)

def findChar (s : StringSlice) (c : Byte) : ℕ := findCharLoop c s.data 0

variable {s slice : StringSlice} {next : List ℕ} {c : Byte} {xs : Bytes} {b i j m : ℕ}

theorem get_eq_next : slice.get i = .next c ↔ slice.data[i]? = some c := Outcome.deref_eq_next

/-- The first `m` entries of a table give the longest border of each prefix of the slice. -/
def IsTable (slice : StringSlice) (next : List ℕ) (m : ℕ) : Prop :=
  ∀ i, 0 < i → i ≤ m → ∃ v, next[i - 1]? = some v ∧ Longest slice.data (slice.data.take i) i v

/-- Falling back ends, within the fuel, at a prefix that `c` continues or at none. -/
theorem fallBack_spec {fuel : ℕ} (ht : slice.IsTable next m) (hb : b ≤ slice.size)
    (h : Covers slice.data xs b c j) (hj : j ≤ m) (hfuel : j < fuel) :
    ∃ r, fallBack slice next c fuel j = .next r ∧ Covers slice.data xs b c r ∧
      (r = 0 ∨ slice.data[r]? = some c) := by
  induction fuel generalizing j with
  | zero => omega
  | succ fuel ih =>
    unfold fallBack
    by_cases hpos : j > 0
    · have hlt : j < slice.data.length := Nat.lt_of_lt_of_le h.lt hb
      have hget : slice.get j = .next slice.data[j] :=
        get_eq_next.mpr (List.getElem?_eq_getElem hlt)
      rw [if_pos hpos, hget, Outcome.next_bind]
      by_cases hc : c = slice.data[j]
      · refine ⟨j, by rw [if_neg (not_not.mpr hc)]; rfl, h, .inr ?_⟩
        rw [List.getElem?_eq_getElem hlt, hc]
      · have hno : slice.data[j]? ≠ some c := by
          rw [List.getElem?_eq_getElem hlt, ne_eq, Option.some.injEq]
          exact fun he => hc he.symm
        obtain ⟨v, hv, hlongest⟩ := ht j hpos hj
        have hvj := hlongest.lt
        rw [if_pos hc, Outcome.deref_eq_next.mpr hv, Outcome.next_bind]
        exact ih (h.fall hno hlongest) (by omega) (by omega)
    · have hzero : j = 0 := by omega
      exact ⟨j, by rw [if_neg hpos]; rfl, h, .inl hzero⟩

theorem take_succ (hi : i < slice.size) :
    slice.data.take (i + 1) = slice.data.take i ++ [slice.data[i]] :=
  (List.take_concat_get' slice.data i hi).symm

/-- What holds of `next` and `j` when the loop that fills the table comes to the index `i`. -/
structure Filled (slice : StringSlice) (i : ℕ) (r : List ℕ × ℕ) : Prop where
  table : slice.IsTable r.1 i
  length_eq : r.1.length = slice.size
  longest : Longest slice.data (slice.data.take i) i r.2

/-- One round of that loop. -/
theorem Filled.tableBody (h : slice.Filled i (next, j)) (hi : i < slice.size) :
    ∃ r, slice.tableBody next j i = .next r ∧ slice.Filled (i + 1) r := by
  obtain ⟨ht, hlen, hlongest⟩ := h
  have hget : slice.get i = .next slice.data[i] := get_eq_next.mpr (List.getElem?_eq_getElem hi)
  obtain ⟨r, hr, hcovers, hend⟩ :=
    fallBack_spec ht hi.le (hlongest.covers slice.data[i]) hlongest.lt.le (Nat.lt_succ_self j)
  have hrlt : r < slice.data.length := hcovers.lt.trans hi
  have hget' : slice.get r = .next slice.data[r] :=
    get_eq_next.mpr (List.getElem?_eq_getElem hrlt)
  have hnext := hcovers.snoc hend
  rw [← take_succ hi, List.getElem?_eq_getElem hrlt] at hnext
  simp only [Option.some.injEq, eq_comm (a := slice.data[r])] at hnext
  refine ⟨(next.set i (if slice.data[i] = slice.data[r] then r + 1 else r), _), ?_, ?_,
    by rw [List.length_set, hlen], hnext⟩
  · have hroom : i < next.length := hlen ▸ hi
    simp only [StringSlice.tableBody, hget, hr, hget', Outcome.next_bind, Outcome.check_pos hroom]
    rfl
  · intro k hk hki
    by_cases hlast : k = i + 1
    · subst hlast
      refine ⟨_, ?_, hnext⟩
      rw [Nat.add_sub_cancel, List.getElem?_set_self (hlen ▸ hi)]
    · obtain ⟨v, hv, hv'⟩ := ht k hk (by omega)
      exact ⟨v, by rw [List.getElem?_set_ne (by omega), hv], hv'⟩

/-- `next` and `j` when the loop comes to its test of the index `i`. -/
def tableUpTo (slice : StringSlice) (i : ℕ) : Outcome Fault (List ℕ × ℕ) :=
  run (fun r i => tableBody slice r.1 r.2 i) (List.replicate slice.size 0, 0)
    (List.range' 1 (i - 1))

theorem tableUpTo_one (hne : 0 < slice.size) :
    ∃ r, slice.tableUpTo 1 = .next r ∧ slice.Filled 1 r := by
  have hone : Longest slice.data (slice.data.take 1) 1 0 :=
    ⟨Nat.one_pos, ends_zero _ _, fun k hk _ => by omega⟩
  refine ⟨_, rfl, fun i hpos hi => ?_, List.length_replicate, hone⟩
  obtain rfl : i = 1 := by omega
  exact ⟨0, by simp [hne], hone⟩

/-- The rounds up to every index run through. -/
theorem tableUpTo_spec (hpos : 1 ≤ i) (hi : i ≤ slice.size) :
    ∃ r, slice.tableUpTo i = .next r ∧ slice.Filled i r := by
  induction i, hpos using Nat.le_induction with
  | base => exact tableUpTo_one hi
  | succ i hpos ih =>
    obtain ⟨⟨next, j⟩, hrun, hfilled⟩ := ih (by omega)
    obtain ⟨r, hbody, hfilled'⟩ := hfilled.tableBody hi
    have hlast : List.range' 1 (i + 1 - 1) = List.range' 1 (i - 1) ++ [i] := by
      obtain ⟨n, rfl⟩ := Nat.exists_eq_add_of_le' hpos
      rw [Nat.add_sub_cancel, Nat.add_sub_cancel, List.range'_1_concat, Nat.add_comm 1 n]
    refine ⟨r, ?_, hfilled'⟩
    rw [tableUpTo, hlast]
    exact run_snoc hrun hbody

theorem tableLoop_eq_run {n : ℕ} : tableLoop slice n next j i =
    run (fun r i => tableBody slice r.1 r.2 i) (next, j) (List.range' i n) >>= fun r =>
      pure r.1 := by
  induction n generalizing next j i with
  | zero => rfl
  | succ n ih =>
    rw [tableLoop, List.range'_succ, run_cons]
    cases tableBody slice next j i with
    | refused => rfl
    | fault e => rfl
    | next r => exact ih

/-- Every entry of the failure table is the length of the longest proper border of the prefix
that ends there. -/
theorem failureTable_spec (hne : 0 < slice.size) :
    ∃ next, slice.failureTable = .next next ∧ next.length = slice.size ∧
      slice.IsTable next slice.size := by
  obtain ⟨⟨next, j⟩, hrun, hfilled⟩ := tableUpTo_spec hne le_rfl
  have htable : slice.failureTable = slice.tableUpTo slice.size >>= fun r => pure r.1 :=
    tableLoop_eq_run
  exact ⟨next, by rw [htable, hrun]; rfl, hfilled.length_eq, hfilled.table⟩

/-- The needle is at the index `i` of the haystack. -/
def Occurs (s slice : StringSlice) (i : ℕ) : Prop :=
  (s.data.drop i).take slice.size = slice.data

theorem Occurs.add_le (h : s.Occurs slice i) (hne : 0 < slice.size) :
    i + slice.size ≤ s.size := by
  have hlen := congrArg List.length h
  simp only [List.length_take, List.length_drop] at hlen
  unfold size at *
  omega

/-- An occurrence is the needle at the end of what is read when it has been read. -/
theorem occurs_iff_suffix (hi : i + slice.size ≤ s.size) :
    s.Occurs slice i ↔ slice.data <:+ s.data.take (i + slice.size) := by
  have hlen : (s.data.take (i + slice.size)).length = i + slice.size := by
    rw [List.length_take]
    exact Nat.min_eq_left hi
  rw [List.suffix_iff_eq_drop, hlen, show slice.data.length = slice.size from rfl,
    Nat.add_sub_cancel, List.drop_take, Nat.add_sub_cancel_left, Occurs]
  exact eq_comm

theorem addSize_subSize {n : ℕ} (hi : i < sizeBound) (hn : 0 < n) (hle : n ≤ i + 1) :
    addSize (subSize i n) 1 + n = i + 1 := by
  unfold addSize subSize sizeBound at *
  omega

/-- What a search finds: the smallest index at which the needle is, or `npos`. -/
def Finds (s slice : StringSlice) (r : ℕ) : Prop :=
  (r = npos ∧ ∀ i, ¬ s.Occurs slice i) ∨ (s.Occurs slice r ∧ ∀ i < r, ¬ s.Occurs slice i)

/-- While the prefix is short of the needle, the needle does not end here. -/
theorem not_occurs_of_longest (hi : i < s.size) (hj : j < slice.size)
    (h : Longest slice.data (s.data.take (i + 1)) (slice.size + 1) j)
    (hnone : ∀ k, k + slice.size ≤ i → ¬ s.Occurs slice k) :
    ∀ k, k + slice.size ≤ i + 1 → ¬ s.Occurs slice k := by
  intro k hk hoccurs
  by_cases hlast : k + slice.size = i + 1
  · rw [occurs_iff_suffix (by omega), hlast] at hoccurs
    have := h.max slice.size (Nat.lt_succ_self _) (ends_length.mpr hoccurs)
    omega
  · exact hnone k (by omega) hoccurs

/-- The search keeps the longest prefix of the needle, short of all of it, at the end of what it
has read. -/
theorem searchLoop_spec {rest : Bytes} (hne : 0 < slice.size)
    (ht : slice.IsTable next slice.size) (hrest : rest = s.data.drop i) (hi : i ≤ s.size)
    (h : Longest slice.data (s.data.take i) slice.size j)
    (hnone : ∀ k, k + slice.size ≤ i → ¬ s.Occurs slice k) :
    ∃ r, searchLoop slice next rest j i = .next r ∧ s.Finds slice r := by
  induction rest generalizing i j with
  | nil =>
    have hend : i = s.size := by
      have := congrArg List.length hrest
      rw [List.length_drop, List.length_nil] at this
      unfold size at *
      omega
    refine ⟨npos, rfl, .inl ⟨rfl, fun k hk => ?_⟩⟩
    have := hk.add_le hne
    exact hnone k (by omega) hk
  | cons c rest ih =>
    have hlt : i < s.size := by
      have := congrArg List.length hrest
      rw [List.length_drop, List.length_cons] at this
      unfold size at *
      omega
    obtain ⟨hc, hrest'⟩ : c = s.data[i] ∧ rest = s.data.drop (i + 1) := by
      rw [List.drop_eq_getElem_cons hlt] at hrest
      exact List.cons_eq_cons.mp hrest
    obtain ⟨r, hr, hcovers, hend⟩ :=
      fallBack_spec ht (Nat.le_refl _) (h.covers c) h.lt.le (Nat.lt_succ_self j)
    have hrlt : r < slice.data.length := hcovers.lt
    have hget : slice.get r = .next slice.data[r] :=
      get_eq_next.mpr (List.getElem?_eq_getElem hrlt)
    have hnext := hcovers.snoc hend
    rw [hc, List.take_concat_get' s.data i hlt, ← hc, List.getElem?_eq_getElem hrlt] at hnext
    simp only [Option.some.injEq] at hnext
    simp only [searchLoop, hr, hget, Outcome.next_bind]
    by_cases hd : slice.data[r] = c
    · rw [if_pos hd] at hnext ⊢
      by_cases hfull : r + 1 ≥ slice.size
      · -- the whole needle ends here, and it has not ended before
        have hlen : r + 1 = slice.size := by
          have := hnext.lt
          omega
        have hle : r + 1 ≤ i + 1 := by
          have := hnext.ends.le_length
          rw [List.length_take] at this
          omega
        have hindex : addSize (subSize i (r + 1)) 1 + (r + 1) = i + 1 :=
          addSize_subSize (hlt.trans s.length_lt) (Nat.succ_pos r) hle
        refine ⟨_, by rw [if_pos hfull]; rfl, .inr ⟨?_, fun k hk => hnone k (by omega)⟩⟩
        rw [hlen] at hindex hnext ⊢
        rw [occurs_iff_suffix (by omega), hindex]
        exact ends_length.mp hnext.ends
      · rw [if_neg hfull]
        exact ih hrest' hlt (hnext.below (by omega))
          (not_occurs_of_longest hlt (by omega) hnext hnone)
    · rw [if_neg hd] at hnext ⊢
      exact ih hrest' hlt (hnext.below hrlt) (not_occurs_of_longest hlt hrlt hnext hnone)

theorem findCharLoop_spec {rest : Bytes} (hrest : rest = s.data.drop i)
    (hnone : ∀ k : ℕ, k < i → s.data[k]? ≠ some c) :
    (findCharLoop c rest i = npos ∧ ∀ k : ℕ, s.data[k]? ≠ some c) ∨
      (s.data[findCharLoop c rest i]? = some c ∧
        ∀ k : ℕ, k < findCharLoop c rest i → s.data[k]? ≠ some c) := by
  induction rest generalizing i with
  | nil =>
    refine .inl ⟨rfl, fun k hk => ?_⟩
    have hlt := (List.getElem?_eq_some_iff.mp hk).1
    have hend := congrArg List.length hrest
    rw [List.length_drop, List.length_nil] at hend
    exact hnone k (by omega) hk
  | cons d rest ih =>
    have hd : s.data[i]? = some d := by
      rw [← List.head?_drop, ← hrest, List.head?_cons]
    unfold findCharLoop
    by_cases hc : d = c
    · rw [if_pos hc]
      exact .inr ⟨by rw [hd, hc], hnone⟩
    · rw [if_neg hc]
      refine ih ?_ fun k hk => ?_
      · rw [← List.tail_drop, ← hrest, List.tail_cons]
      · by_cases hki : k = i
        · rw [hki, hd, ne_eq, Option.some.injEq]
          exact hc
        · exact hnone k (by omega)

theorem occurs_singleton (hc : slice.data = [c]) : s.Occurs slice i ↔ s.data[i]? = some c := by
  have hone : slice.size = 1 := by rw [size, hc]; rfl
  rw [Occurs, hone, hc, ← List.head?_drop]
  cases s.data.drop i <;> simp

/-- A one-byte needle is found where the byte is. -/
theorem findChar_finds (hc : slice.data = [c]) : s.Finds slice (s.findChar c) := by
  simp only [Finds, occurs_singleton hc]
  exact findCharLoop_spec rfl fun k hk => absurd hk (Nat.not_lt_zero k)

theorem Finds.unique {r r' : ℕ} (h : s.Finds slice r) (h' : s.Finds slice r') : r = r' := by
  rcases h with ⟨hr, hnone⟩ | ⟨hr, hmin⟩
  · rcases h' with ⟨hr', -⟩ | ⟨hr', -⟩
    · rw [hr, hr']
    · exact absurd hr' (hnone r')
  · rcases h' with ⟨-, hnone⟩ | ⟨hr', hmin'⟩
    · exact absurd hr (hnone r)
    · have hle : ¬ r < r' := fun hlt => hmin' r hlt hr
      have hge : ¬ r' < r := fun hlt => hmin r' hlt hr'
      omega

/-- `find` returns, for every haystack and every needle: `npos` if one of them is empty or the
needle does not occur, and otherwise the smallest index at which it does. For a one-byte needle
it agrees with `find(char)`. -/
theorem find_spec (s slice : StringSlice) : ∃ r, s.find slice = .next r ∧
    (slice.data = [] ∨ s.data = [] ∨ (∀ i, ¬ s.Occurs slice i) → r = npos) ∧
    (slice.data ≠ [] → s.data ≠ [] → (∃ i, s.Occurs slice i) →
      s.Occurs slice r ∧ ∀ i < r, ¬ s.Occurs slice i) ∧
    ∀ c, slice.data = [c] → r = s.findChar c := by
  have hnil (x : StringSlice) : x.data = [] ↔ x.size = 0 := List.length_eq_zero_iff.symm
  unfold find
  by_cases hempty : slice.size = 0 ∨ s.size = 0
  · refine ⟨npos, by rw [if_pos hempty]; rfl, fun _ => rfl, fun hne hne' => ?_, fun c hc => ?_⟩
    · rcases hempty with h | h
      · exact absurd ((hnil slice).mpr h) hne
      · exact absurd ((hnil s).mpr h) hne'
    · have hs : s.data = [] := by
        rcases hempty with h | h
        · rw [(hnil slice).mpr h] at hc
          cases hc
        · exact (hnil s).mpr h
      rw [findChar, hs]
      rfl
  · have hne : 0 < slice.size := by omega
    obtain ⟨next, htable, -, ht⟩ := failureTable_spec hne
    have hstart : Longest slice.data (s.data.take 0) slice.size 0 :=
      ⟨hne, ends_zero _ _, fun k _ he => he.le_length⟩
    obtain ⟨r, hr, hfinds⟩ :=
      searchLoop_spec hne ht rfl (Nat.zero_le _) hstart (fun k hk => by omega)
    refine ⟨r, by rw [if_neg hempty, htable, Outcome.next_bind, ← hr]; rfl, fun h => ?_,
      fun _ _ hex => ?_, fun c hc => hfinds.unique (findChar_finds hc)⟩
    · rcases hfinds with ⟨hr, -⟩ | ⟨hr, -⟩
      · exact hr
      · rcases h with h | h | h
        · exact absurd ((hnil slice).mp h) (by omega)
        · exact absurd ((hnil s).mp h) (by omega)
        · exact absurd hr (h r)
    · obtain ⟨i, hi⟩ := hex
      exact hfinds.resolve_left fun h => h.2 i hi

end StringSlice
end Potato
