import Mathlib.Tactic

/-!
# Fixed-width words and their bytes

`size_t` sums wrap at `2 ^ 64`. A word of `n` bytes is a natural number below
`256 ^ n`; its digits are listed least significant first, and a byte order says
in which direction memory holds them.
-/
namespace Words

/-- One more than the largest value of a `size_t`. -/
def sizeBound : ℕ := 2 ^ 64

/-- Addition of `size_t` values, with its wrap-around. -/
def addSize (a b : ℕ) : ℕ := (a + b) % sizeBound

theorem addSize_of_lt {a b : ℕ} (h : a + b < sizeBound) : addSize a b = a + b :=
  Nat.mod_eq_of_lt h

/-- The `n` low bytes of `x`, least significant first. -/
def toBytes : ℕ → ℕ → List UInt8
  | 0, _ => []
  | n + 1, x => UInt8.ofNat x :: toBytes n (x / 256)

/-- The number whose bytes, least significant first, are given. -/
def ofBytes : List UInt8 → ℕ
  | [] => 0
  | b :: bs => b.toNat + 256 * ofBytes bs

@[simp] theorem length_toBytes (n x : ℕ) : (toBytes n x).length = n := by
  induction n generalizing x with
  | zero => rfl
  | succ n ih => simp [toBytes, ih]

theorem ofBytes_lt (bs : List UInt8) : ofBytes bs < 256 ^ bs.length := by
  induction bs with
  | nil => simp [ofBytes]
  | cons b bs ih =>
    have hb : b.toNat < 256 := b.toNat_lt
    simp only [ofBytes, List.length_cons, pow_succ]
    omega

@[simp] theorem ofBytes_toBytes (n x : ℕ) : ofBytes (toBytes n x) = x % 256 ^ n := by
  induction n generalizing x with
  | zero => simp [toBytes, ofBytes, Nat.mod_one]
  | succ n ih =>
    have hb : (UInt8.ofNat x).toNat = x % 256 := by simp
    rw [toBytes, ofBytes, ih, hb, pow_succ, Nat.mul_comm (256 ^ n) 256, Nat.mod_mul]

@[simp] theorem toBytes_ofBytes (bs : List UInt8) : toBytes bs.length (ofBytes bs) = bs := by
  induction bs with
  | nil => rfl
  | cons b bs ih =>
    have hb : b.toNat < 256 := b.toNat_lt
    have hdiv : (b.toNat + 256 * ofBytes bs) / 256 = ofBytes bs := by omega
    have hlow : UInt8.ofNat (b.toNat + 256 * ofBytes bs) = b := by
      apply UInt8.toNat_inj.mp
      simp only [UInt8.toNat_ofNat', Nat.reducePow]
      omega
    simp only [List.length_cons, ofBytes, toBytes, hdiv, ih, hlow]

theorem toBytes_add (m n x : ℕ) : toBytes (m + n) x = toBytes m x ++ toBytes n (x / 256 ^ m) := by
  induction m generalizing x with
  | zero => simp [toBytes]
  | succ m ih =>
    rw [Nat.succ_add, toBytes, toBytes, ih, Nat.div_div_eq_div_mul, List.cons_append, pow_succ,
      Nat.mul_comm (256 ^ m) 256]

theorem ofBytes_append (as bs : List UInt8) :
    ofBytes (as ++ bs) = ofBytes as + 256 ^ as.length * ofBytes bs := by
  induction as with
  | nil => simp [ofBytes]
  | cons a as ih =>
    simp only [List.cons_append, ofBytes, ih, List.length_cons, pow_succ]
    ring

theorem toBytes_mod (n x : ℕ) : toBytes n (x % 256 ^ n) = toBytes n x := by
  have h := toBytes_ofBytes (toBytes n x)
  rwa [length_toBytes, ofBytes_toBytes] at h

/-- The word with the bytes of `x` in the opposite order. -/
def swapBytes (n x : ℕ) : ℕ := ofBytes (toBytes n x).reverse

@[simp] theorem swapBytes_mod (n x : ℕ) : swapBytes n (x % 256 ^ n) = swapBytes n x := by
  simp only [swapBytes, toBytes_mod]

theorem swapBytes_lt (n x : ℕ) : swapBytes n x < 256 ^ n := by
  simpa [swapBytes] using ofBytes_lt (toBytes n x).reverse

@[simp] theorem toBytes_swapBytes (n x : ℕ) : toBytes n (swapBytes n x) = (toBytes n x).reverse := by
  have h := toBytes_ofBytes (toBytes n x).reverse
  rwa [List.length_reverse, length_toBytes] at h

/-- Swapping a word swaps its two parts and exchanges their places. -/
theorem swapBytes_add (m n x : ℕ) :
    swapBytes (m + n) x = swapBytes m x * 256 ^ n + swapBytes n (x / 256 ^ m) := by
  simp only [swapBytes, toBytes_add, List.reverse_append, ofBytes_append, List.length_reverse,
    length_toBytes]
  ring

/-- The `n` low bytes of `x`, most significant first. -/
def bigEndian (n x : ℕ) : List UInt8 := (toBytes n x).reverse

/-- The number whose bytes, most significant first, are given. -/
def ofBigEndian (bs : List UInt8) : ℕ := ofBytes bs.reverse

@[simp] theorem length_bigEndian (n x : ℕ) : (bigEndian n x).length = n := by simp [bigEndian]

@[simp] theorem ofBigEndian_bigEndian (n x : ℕ) : ofBigEndian (bigEndian n x) = x % 256 ^ n := by
  simp [ofBigEndian, bigEndian]

theorem ofBigEndian_lt (bs : List UInt8) : ofBigEndian bs < 256 ^ bs.length := by
  simpa [ofBigEndian] using ofBytes_lt bs.reverse

/-- Where the least significant byte of a word lies in memory. -/
inductive ByteOrder where
  | little
  | big
  deriving DecidableEq, Repr

namespace ByteOrder

/-- The bytes that memory holds for an `n`-byte word. -/
def store (o : ByteOrder) (n x : ℕ) : List UInt8 :=
  match o with
  | little => toBytes n x
  | big => (toBytes n x).reverse

/-- The word that memory bytes stand for. -/
def load (o : ByteOrder) (bs : List UInt8) : ℕ :=
  match o with
  | little => ofBytes bs
  | big => ofBytes bs.reverse

/-- Conversion between a host word and its big-endian form, in either direction. -/
def network (o : ByteOrder) (n x : ℕ) : ℕ :=
  match o with
  | little => swapBytes n x
  | big => x

@[simp] theorem length_store (o : ByteOrder) (n x : ℕ) : (o.store n x).length = n := by
  cases o <;> simp [store]

theorem network_lt (o : ByteOrder) {n x : ℕ} (h : x < 256 ^ n) : o.network n x < 256 ^ n := by
  cases o with
  | little => exact swapBytes_lt n x
  | big => exact h

/-- Whatever the host, the network form of a word is stored most significant byte first. -/
theorem store_network (o : ByteOrder) (n x : ℕ) :
    o.store n (o.network n x) = bigEndian n x := by
  cases o <;> simp [store, network, bigEndian]

/-- The conversion undoes itself. -/
theorem network_network (o : ByteOrder) {n x : ℕ} (h : x < 256 ^ n) :
    o.network n (o.network n x) = x := by
  cases o with
  | little =>
    change swapBytes n (swapBytes n x) = x
    rw [swapBytes, toBytes_swapBytes, List.reverse_reverse, ofBytes_toBytes, Nat.mod_eq_of_lt h]
  | big => rfl

theorem network_load (o : ByteOrder) (bs : List UInt8) :
    o.network bs.length (o.load bs) = ofBigEndian bs := by
  cases o with
  | little => simp only [network, load, swapBytes, toBytes_ofBytes, ofBigEndian]
  | big => rfl

theorem load_lt (o : ByteOrder) (bs : List UInt8) : o.load bs < 256 ^ bs.length := by
  cases o with
  | little => exact ofBytes_lt bs
  | big => exact ofBigEndian_lt bs

end ByteOrder
end Words
