import Potato.StringSlice

/-!
# The comparisons of the substring search

The loops of `find` with the byte comparisons that they make. The value and the count are produced
together. A round of an inner loop lowers `j`, and a round of the loop around it raises `j` by one
at most: so `j` is what the inner rounds of all that follows can be paid from.
-/
namespace Potato
open Words Machine Borders

namespace StringSlice

/-- `while (j > 0 && c != slice[j]) j = next[j - 1];`, which compares wherever `j > 0`. -/
def fallBackCounted (slice : StringSlice) (next : List ℕ) (c : Byte) :
    ℕ → ℕ → Outcome Fault (ℕ × ℕ)
  | 0, _ => .refused
  | fuel + 1, j => do
    if j > 0 then
      let d ← slice.get j
      if c ≠ d then
        let j ← Outcome.deref next[j - 1]? .outOfRange
        let (j, count) ← fallBackCounted slice next c fuel j
        return (j, count + 1)
      else return (j, 1)
    else return (j, 0)

/-- The body of the loop that fills the table. -/
def tableBodyCounted (slice : StringSlice) (next : List ℕ) (j i : ℕ) :
    Outcome Fault ((List ℕ × ℕ) × ℕ) := do
  let c ← slice.get i
  let (j, count) ← fallBackCounted slice next c (j + 1) j
  let d ← slice.get j
  let j := if c = d then j + 1 else j
  Outcome.check (i < next.length) .outOfRange
  return ((next.set i j, j), count + 1)

def tableLoopCounted (slice : StringSlice) : ℕ → List ℕ → ℕ → ℕ → Outcome Fault (List ℕ × ℕ)
  | 0, next, _, _ => return (next, 0)
  | n + 1, next, j, i => do
    let ((next, j), count) ← tableBodyCounted slice next j i
    let (next, rest) ← tableLoopCounted slice n next j (i + 1)
    return (next, count + rest)

def failureTableCounted (slice : StringSlice) : Outcome Fault (List ℕ × ℕ) :=
  tableLoopCounted slice (slice.size - 1) (List.replicate slice.size 0) 0 1

def searchLoopCounted (slice : StringSlice) (next : List ℕ) :
    Bytes → ℕ → ℕ → Outcome Fault (ℕ × ℕ)
  | [], _, _ => return (npos, 0)
  | c :: rest, j, i => do
    let (j, count) ← fallBackCounted slice next c (j + 1) j
    let d ← slice.get j
    if d = c then
      let j := j + 1
      if j ≥ slice.size then return (addSize (subSize i j) 1, count + 1)
      else
        let (r, more) ← searchLoopCounted slice next rest j (i + 1)
        return (r, count + 1 + more)
    else
      let (r, more) ← searchLoopCounted slice next rest j (i + 1)
      return (r, count + 1 + more)

/-- `find`, with the number of the byte comparisons that it makes. -/
def findCounted (s slice : StringSlice) : Outcome Fault (ℕ × ℕ) := do
  if slice.size = 0 ∨ s.size = 0 then return (npos, 0)
  else
    let (next, count) ← slice.failureTableCounted
    let (r, more) ← searchLoopCounted slice next s.data 0 0
    return (r, count + more)

variable {s slice : StringSlice} {next next' : List ℕ} {c : Byte} {i j m n r : ℕ}

/-- Every entry of the table is a shorter prefix than the one that ends there. -/
def Lowers (next : List ℕ) : Prop := ∀ k v : ℕ, next[k]? = some v → v ≤ k

theorem lowers_replicate : Lowers (List.replicate n 0) := by
  intro k v hv
  rw [List.getElem?_replicate] at hv
  split_ifs at hv
  obtain rfl : 0 = v := Option.some.inj hv
  exact Nat.zero_le k

theorem Lowers.set (h : Lowers next) (hj : j ≤ i) : Lowers (next.set i j) := by
  intro k v hv
  rw [List.getElem?_set] at hv
  split_ifs at hv with hik hlen
  · obtain rfl : j = v := Option.some.inj hv
    omega
  · exact h k v hv

/-- What the inner loop compares is paid by what it takes from `j`, but for its last comparison,
which finds the byte. -/
theorem fallBackCounted_of {fuel : ℕ} (ht : Lowers next)
    (h : fallBack slice next c fuel j = .next r) :
    ∃ count, fallBackCounted slice next c fuel j = .next (r, count) ∧ r ≤ j ∧
      count + r ≤ j + if r = 0 then 0 else 1 := by
  induction fuel generalizing j with
  | zero => cases h
  | succ fuel ih =>
    unfold fallBack at h
    unfold fallBackCounted
    by_cases hpos : j > 0
    · rw [if_pos hpos, Outcome.bind_eq_next] at h
      obtain ⟨d, hd, h⟩ := h
      rw [if_pos hpos, hd, Outcome.next_bind]
      by_cases hc : c = d
      · rw [if_neg (not_not.mpr hc), Outcome.pure_eq, Outcome.next.injEq] at h
        subst h
        refine ⟨1, by rw [if_neg (not_not.mpr hc)]; rfl, le_rfl, ?_⟩
        rw [if_neg (Nat.pos_iff_ne_zero.mp hpos)]
        omega
      · rw [if_pos hc, Outcome.bind_eq_next] at h
        obtain ⟨v, hv, h⟩ := h
        obtain ⟨count, hcount, hle, hbound⟩ := ih h
        have hvj : v ≤ j - 1 := ht (j - 1) v (Outcome.deref_eq_next.mp hv)
        refine ⟨count + 1, ?_, by omega, by omega⟩
        rw [if_pos hc, hv, Outcome.next_bind, hcount]
        rfl
    · rw [if_neg hpos, Outcome.pure_eq, Outcome.next.injEq] at h
      subst h
      refine ⟨0, by rw [if_neg hpos]; rfl, le_rfl, by omega⟩

/-- A round that fills an entry: three comparisons, paid in part from `j`. -/
theorem tableBodyCounted_of (ht : Lowers next) (hj : j < i)
    (h : tableBody slice next j i = .next (next', m)) :
    ∃ count, tableBodyCounted slice next j i = .next ((next', m), count) ∧ Lowers next' ∧
      m ≤ i ∧ count + m ≤ j + 3 := by
  simp only [tableBody, Outcome.bind_eq_next, Outcome.pure_eq, Outcome.next.injEq,
    Prod.mk.injEq] at h
  obtain ⟨c, hc, r, hr, d, hd, u, hroom, rfl, hm⟩ := h
  obtain ⟨count, hcount, hrj, hbound⟩ := fallBackCounted_of ht hr
  have hmi : m ≤ r + 1 ∧ (r = 0 → m ≤ 1) := by
    subst hm
    split_ifs <;> omega
  rw [hm]
  refine ⟨count + 1, ?_, ht.set (by omega), by omega, ?_⟩
  · simp only [tableBodyCounted, hc, hcount, hd, hroom, hm, Outcome.next_bind, Outcome.pure_eq]
  · split_ifs at hbound <;> omega

/-- Filling what is left of the table. -/
theorem tableLoopCounted_of (ht : Lowers next) (hj : j < i)
    (h : tableLoop slice n next j i = .next next') :
    ∃ count, tableLoopCounted slice n next j i = .next (next', count) ∧ Lowers next' ∧
      count ≤ j + 3 * n := by
  induction n generalizing next j i with
  | zero =>
    obtain rfl : next = next' := Outcome.next.inj h
    exact ⟨0, rfl, ht, Nat.zero_le _⟩
  | succ n ih =>
    rw [tableLoop, Outcome.bind_eq_next] at h
    obtain ⟨⟨filled, k⟩, hbody, h⟩ := h
    obtain ⟨count, hcount, hlow, hki, hround⟩ := tableBodyCounted_of ht hj hbody
    obtain ⟨rest, hrest, hlow', hloop⟩ := ih hlow (Nat.lt_succ_of_le hki) h
    refine ⟨count + rest, ?_, hlow', by omega⟩
    simp only [tableLoopCounted, hcount, hrest, Outcome.next_bind, Outcome.pure_eq]

/-- Searching what is left of the haystack, of which the search has read `k` bytes when it ends. -/
theorem searchLoopCounted_of {rest : Bytes} (ht : Lowers next) (hj : j ≤ i)
    (hend : i + rest.length < sizeBound) (h : searchLoop slice next rest j i = .next r) :
    ∃ count k, searchLoopCounted slice next rest j i = .next (r, count) ∧ k ≤ rest.length ∧
      count ≤ j + 3 * k ∧ (r ≠ npos → i + k ≤ r + slice.size) := by
  induction rest generalizing i j with
  | nil =>
    obtain rfl : npos = r := Outcome.next.inj h
    exact ⟨0, 0, rfl, le_rfl, Nat.zero_le _, fun hr => absurd rfl hr⟩
  | cons c rest ih =>
    simp only [searchLoop, Outcome.bind_eq_next] at h
    obtain ⟨f, hf, d, hd, h⟩ := h
    obtain ⟨count, hcount, hfj, hround⟩ := fallBackCounted_of ht hf
    have hlt : f < slice.size := (List.getElem?_eq_some_iff.mp (get_eq_next.mp hd)).1
    have hcost : count + f ≤ j + 1 := by split_ifs at hround <;> omega
    have hlen : (c :: rest).length = rest.length + 1 := rfl
    simp only [searchLoopCounted, hcount, hd, Outcome.next_bind]
    by_cases hc : d = c
    · rw [if_pos hc] at h ⊢
      by_cases hfull : f + 1 ≥ slice.size
      · rw [if_pos hfull, Outcome.pure_eq, Outcome.next.injEq] at h
        subst h
        have hindex : addSize (subSize i (f + 1)) 1 + (f + 1) = i + 1 :=
          addSize_subSize (by omega) (Nat.succ_pos f) (by omega)
        exact ⟨count + 1, 1, by rw [if_pos hfull]; rfl, by omega, by omega, fun _ => by omega⟩
      · rw [if_neg hfull] at h ⊢
        obtain ⟨more, k, hmore, hk, hbound, hstop⟩ := ih (by omega) (by omega) h
        refine ⟨count + 1 + more, k + 1, by rw [hmore]; rfl, by omega, by omega, fun hr => ?_⟩
        have := hstop hr
        omega
    · rw [if_neg hc] at h ⊢
      obtain ⟨more, k, hmore, hk, hbound, hstop⟩ := ih (by omega) (by omega) h
      refine ⟨count + 1 + more, k + 1, by rw [hmore]; rfl, by omega, by omega, fun hr => ?_⟩
      have := hstop hr
      omega

/-- For every haystack and every needle, the search compares bytes at most three times for each byte
of the needle behind the first and for each byte of the haystack up to the end of the occurrence
that it finds, or of all of the haystack. -/
theorem find_linear (s slice : StringSlice) : ∃ r count,
    s.findCounted slice = .next (r, count) ∧ s.find slice = .next r ∧
      count ≤ 3 * (slice.size - 1) + 3 * s.size ∧
      (r ≠ npos → count ≤ 3 * (slice.size - 1) + 3 * (r + slice.size)) := by
  by_cases hempty : slice.size = 0 ∨ s.size = 0
  · refine ⟨npos, 0, ?_, ?_, Nat.zero_le _, fun _ => Nat.zero_le _⟩
    · rw [findCounted, if_pos hempty]
      rfl
    · rw [find, if_pos hempty]
      rfl
  · have hne : 0 < slice.size := by omega
    obtain ⟨next, htable, -, hlongest⟩ := failureTable_spec hne
    obtain ⟨r, hr, -⟩ := searchLoop_spec hne hlongest rfl (Nat.zero_le _)
      ⟨hne, ends_zero _ _, fun k _ he => he.le_length⟩ (fun k hk => by omega)
    rw [List.drop_zero] at hr
    obtain ⟨count, hcount, hlow, hfill⟩ := tableLoopCounted_of lowers_replicate Nat.one_pos htable
    obtain ⟨more, k, hmore, hk, hsearch, hstop⟩ :=
      searchLoopCounted_of hlow le_rfl (by rw [Nat.zero_add]; exact s.length_lt) hr
    have hk' : k ≤ s.size := hk
    refine ⟨r, count + more, ?_, ?_, by omega, fun hfound => ?_⟩
    · simp only [findCounted, if_neg hempty, failureTableCounted, hcount, hmore, Outcome.next_bind,
        Outcome.pure_eq]
    · rw [find, if_neg hempty, htable, Outcome.next_bind, hr]
    · have := hstop hfound
      omega

end StringSlice
end Potato
