import Mathlib.Data.Char
import Mathlib.Data.List.Lex
import Mathlib.Data.Nat.Basic
import Mathlib.Order.Monotone.Basic
import Mathlib.Tactic

/-!
# Decimal fields

Numbers in decimal digits, filled with zeros to a width, as format strings print them. A field of
its width gives its number back, and so does a row of such fields. Rows of fields compare like the
tuples of their numbers.
-/
namespace Decimal

/-- The digits of `n`, with zeros in front up to the width `w`. -/
def pad (w n : ℕ) : List Char :=
  List.replicate (w - (Nat.toDigits 10 n).length) '0' ++ Nat.toDigits 10 n

theorem ofDigitChars_pad (w n : ℕ) : Nat.ofDigitChars 10 (pad w n) 0 = n := by
  rw [pad, Nat.ofDigitChars_append, Nat.ofDigitChars_replicate_zero, Nat.mul_zero,
    Nat.ofDigitChars_ten_toDigits]

theorem pad_injective (w : ℕ) : Function.Injective (pad w) :=
  Function.LeftInverse.injective (ofDigitChars_pad w)

theorem length_pad {w n : ℕ} (hw : 0 < w) (h : n < 10 ^ w) : (pad w n).length = w := by
  have := (Nat.length_toDigits_le_iff (by decide) hw).mpr h
  rw [pad, List.length_append, List.length_replicate]
  omega

theorem length_pad_le {w k n : ℕ} (hw : 0 < w) (hk : w ≤ k) (h : n < 10 ^ k) :
    (pad w n).length ≤ k := by
  have := (Nat.length_toDigits_le_iff (by decide) (hw.trans_le hk)).mpr h
  rw [pad, List.length_append, List.length_replicate]
  omega

theorem isDigit_of_mem_pad {w n : ℕ} {c : Char} (h : c ∈ pad w n) : c.isDigit = true := by
  rw [pad, List.mem_append, List.mem_replicate] at h
  obtain ⟨-, rfl⟩ | h := h
  · rfl
  · exact Nat.isDigit_of_mem_toDigits (by decide) (by decide) h

/-- An integer in a width that counts its sign. -/
def format (w : ℕ) (x : ℤ) : List Char :=
  if x < 0 then '-' :: pad (w - 1) x.natAbs else pad w x.toNat

theorem format_of_nonneg {x : ℤ} (w : ℕ) (h : 0 ≤ x) : format w x = pad w x.toNat :=
  if_neg (not_lt.mpr h)

/-- A field behind a separator. -/
def field (separator : Char) (w n : ℕ) : List Char := separator :: pad w n

theorem length_field {separator : Char} {w n : ℕ} (hw : 0 < w) (h : n < 10 ^ w) :
    (field separator w n).length = w + 1 := by
  rw [field, List.length_cons, length_pad hw h]

/-- A field of a fixed width can be told off the end of a text. -/
theorem append_field_inj {xs ys : List Char} {separator : Char} {w m n : ℕ} (hw : 0 < w)
    (hm : m < 10 ^ w) (hn : n < 10 ^ w)
    (h : xs ++ field separator w m = ys ++ field separator w n) : xs = ys ∧ m = n := by
  have hlength : (field separator w m).length = (field separator w n).length := by
    rw [length_field hw hm, length_field hw hn]
  obtain ⟨hxs, hfield⟩ := List.append_inj' h hlength
  exact ⟨hxs, pad_injective w (List.cons.inj hfield).2⟩

/-- Texts whose fronts have one length compare by them first. -/
theorem append_lt_append_iff {xs ys us vs : List Char} (h : xs.length = ys.length) :
    xs ++ us < ys ++ vs ↔ xs < ys ∨ (xs = ys ∧ us < vs) := by
  induction xs generalizing ys with
  | nil =>
    cases List.length_eq_zero_iff.mp h.symm
    simp
  | cons x xs ih =>
    cases ys with
    | nil => cases h
    | cons y ys =>
      simp only [List.cons_append, List.cons_lt_cons_iff, ih (Nat.succ.inj h), List.cons.injEq]
      tauto

theorem digit_lt_iff {c d : Char} (hc : c.isDigit = true) (hd : d.isDigit = true) :
    c < d ↔ c.toNat - '0'.toNat < d.toNat - '0'.toNat := by
  have hzero := (Char.isDigit_iff_toNat.mp hc).1
  have hzero' := (Char.isDigit_iff_toNat.mp hd).1
  rw [Char.lt_def, UInt32.lt_iff_toNat_lt]
  change c.toNat < d.toNat ↔ _
  omega

theorem digit_inj {c d : Char} (hc : c.isDigit = true) (hd : d.isDigit = true) :
    c = d ↔ c.toNat - '0'.toNat = d.toNat - '0'.toNat := by
  have hzero := (Char.isDigit_iff_toNat.mp hc).1
  have hzero' := (Char.isDigit_iff_toNat.mp hd).1
  rw [← Char.toNat_inj]
  omega

/-- Rows of as many digits compare like their numbers, behind numbers that are in front. -/
theorem digits_lt_iff {xs ys : List Char} {m n : ℕ} (h : xs.length = ys.length)
    (hx : ∀ c ∈ xs, c.isDigit = true) (hy : ∀ c ∈ ys, c.isDigit = true) :
    Nat.ofDigitChars 10 xs m < Nat.ofDigitChars 10 ys n ↔ m < n ∨ (m = n ∧ xs < ys) := by
  induction xs generalizing ys m n with
  | nil =>
    cases List.length_eq_zero_iff.mp h.symm
    simp [Nat.ofDigitChars]
  | cons x xs ih =>
    cases ys with
    | nil => cases h
    | cons y ys =>
      have hxd := hx x List.mem_cons_self
      have hyd := hy y List.mem_cons_self
      have hten := (Char.isDigit_iff_toNat.mp hxd).2
      have hten' := (Char.isDigit_iff_toNat.mp hyd).2
      have hnine : '9'.toNat = '0'.toNat + 9 := rfl
      have ih := ih (Nat.succ.inj h) (fun c hc => hx c (List.mem_cons_of_mem x hc))
        (fun c hc => hy c (List.mem_cons_of_mem y hc)) (m := 10 * m + (x.toNat - '0'.toNat))
        (n := 10 * n + (y.toNat - '0'.toNat))
      rw [Nat.ofDigitChars_cons, Nat.ofDigitChars_cons, ih, List.cons_lt_cons_iff,
        digit_lt_iff hxd hyd, digit_inj hxd hyd]
      by_cases htail : xs < ys
      · simp only [htail, and_true]
        omega
      · simp only [htail, and_false, or_false]
        omega

theorem pad_lt_iff {w m n : ℕ} (hw : 0 < w) (hm : m < 10 ^ w) (hn : n < 10 ^ w) :
    pad w m < pad w n ↔ m < n := by
  have h := digits_lt_iff (m := 0) (n := 0)
    ((length_pad hw hm).trans (length_pad hw hn).symm) (fun _ => isDigit_of_mem_pad)
    (fun _ => isDigit_of_mem_pad)
  rw [ofDigitChars_pad, ofDigitChars_pad] at h
  simpa using h.symm

theorem append_field_lt_iff {xs ys : List Char} {separator : Char} {w m n : ℕ} (hw : 0 < w)
    (hlen : xs.length = ys.length) (hm : m < 10 ^ w) (hn : n < 10 ^ w) :
    xs ++ field separator w m < ys ++ field separator w n ↔ xs < ys ∨ (xs = ys ∧ m < n) := by
  rw [append_lt_append_iff hlen, field, field, List.cons_lt_cons_iff, pad_lt_iff hw hm hn]
  simp

/-- On a set, the texts have `k` letters and compare like what they stand for. -/
structure Sorts {α : Type*} [Preorder α] (s : Set α) (f : α → List Char) (k : ℕ) : Prop where
  length : ∀ x ∈ s, (f x).length = k
  strictMono : StrictMonoOn f s

variable {α β : Type*}

theorem sorts_pad [Preorder α] {s : Set α} {n : α → ℕ} {w : ℕ} (hw : 0 < w)
    (hn : ∀ x ∈ s, n x < 10 ^ w) (hmono : StrictMonoOn n s) :
    Sorts s (fun x => pad w (n x)) w where
  length x hx := length_pad hw (hn x hx)
  strictMono _ hx _ hy hxy := (pad_lt_iff hw (hn _ hx) (hn _ hy)).mpr (hmono hx hy hxy)

/-- A field behind a text that sorts the coarser values sorts the finer ones. -/
theorem Sorts.append_field [Preorder α] [Preorder β] {s : Set α} {r : Set β} {f : β → List Char}
    {w k : ℕ} (hf : Sorts r f k) (separator : Char) (q : α → β) (n : α → ℕ) (hw : 0 < w)
    (hq : Set.MapsTo q s r) (hn : ∀ x ∈ s, n x < 10 ^ w)
    (hlex : ∀ x ∈ s, ∀ y ∈ s, x < y → q x < q y ∨ (q x = q y ∧ n x < n y)) :
    Sorts s (fun x => f (q x) ++ field separator w (n x)) (k + (w + 1)) where
  length x hx := by
    rw [List.length_append, hf.length _ (hq hx), length_field hw (hn x hx)]
  strictMono x hx y hy hxy := by
    have hlen := (hf.length _ (hq hx)).trans (hf.length _ (hq hy)).symm
    refine (append_field_lt_iff hw hlen (hn x hx) (hn y hy)).mpr ?_
    obtain h | ⟨h, hlt⟩ := hlex x hx y hy hxy
    · exact .inl (hf.strictMono (hq hx) (hq hy) h)
    · exact .inr ⟨by rw [h], hlt⟩

theorem Sorts.lt_iff [LinearOrder α] {s : Set α} {f : α → List Char} {k : ℕ} (h : Sorts s f k)
    {x y : α} (hx : x ∈ s) (hy : y ∈ s) : f x < f y ↔ x < y :=
  h.strictMono.lt_iff_lt hx hy

theorem Sorts.eq_iff [LinearOrder α] {s : Set α} {f : α → List Char} {k : ℕ} (h : Sorts s f k)
    {x y : α} (hx : x ∈ s) (hy : y ∈ s) : f x = f y ↔ x = y :=
  h.strictMono.injOn.eq_iff hx hy

end Decimal
