import Potato.Words

/-!
# Network byte order

`hostToNetwork16`, `hostToNetwork32`, `hostToNetwork64` and their inverses as
`Endian.h` defines them, once through the Linux `htobe32` family and once through
the Windows `htonl` and the `HTONLL` and `NTOHLL` macros.
-/
namespace Potato
open Words

inductive System where
  | linux
  | windows
  deriving DecidableEq, Repr

/-- The branch of `Endian.h` that is compiled and the byte order of the host. -/
structure Platform where
  system : System
  order : ByteOrder
  deriving DecidableEq, Repr

/-- `htobe16` and `be16toh`; `htons` and `ntohs` do the same. -/
def htobe16 (o : ByteOrder) (x : UInt16) : UInt16 := UInt16.ofNat (o.network 2 x.toNat)

/-- `htobe32` and `be32toh`; `htonl` and `ntohl` do the same. -/
def htobe32 (o : ByteOrder) (x : UInt32) : UInt32 := UInt32.ofNat (o.network 4 x.toNat)

def htobe64 (o : ByteOrder) (x : UInt64) : UInt64 := UInt64.ofNat (o.network 8 x.toNat)

/-- The macro `HTONLL`; `NTOHLL` has the same text with `ntohl` in place of `htonl`. -/
def htonll (o : ByteOrder) (x : UInt64) : UInt64 :=
  if 1 = htobe32 o 1 then x
  else (htobe32 o (x &&& 0xFFFFFFFF).toUInt32).toUInt64 <<< 32 |||
    (htobe32 o (x >>> 32).toUInt32).toUInt64

def hostToNetwork16 (p : Platform) (host16 : UInt16) : UInt16 := htobe16 p.order host16

def hostToNetwork32 (p : Platform) (host32 : UInt32) : UInt32 := htobe32 p.order host32

def hostToNetwork64 (p : Platform) (host64 : UInt64) : UInt64 :=
  match p.system with
  | .linux => htobe64 p.order host64
  | .windows => htonll p.order host64

def networkToHost16 (p : Platform) (net16 : UInt16) : UInt16 := htobe16 p.order net16

def networkToHost32 (p : Platform) (net32 : UInt32) : UInt32 := htobe32 p.order net32

def networkToHost64 (p : Platform) (net64 : UInt64) : UInt64 :=
  match p.system with
  | .linux => htobe64 p.order net64
  | .windows => htonll p.order net64

theorem htobe16_htobe16 (o : ByteOrder) (x : UInt16) : htobe16 o (htobe16 o x) = x := by
  have hlt : o.network 2 x.toNat < 2 ^ 16 := o.network_lt (n := 2) x.toNat_lt
  rw [htobe16, htobe16, UInt16.toNat_ofNat', Nat.mod_eq_of_lt hlt, o.network_network x.toNat_lt,
    UInt16.ofNat_toNat]

theorem htobe32_toNat (o : ByteOrder) (x : UInt32) : (htobe32 o x).toNat = o.network 4 x.toNat := by
  have h : o.network 4 x.toNat < 256 ^ 4 := o.network_lt x.toNat_lt
  simp only [htobe32, UInt32.toNat_ofNat']
  exact Nat.mod_eq_of_lt h

theorem htobe64_toNat (o : ByteOrder) (x : UInt64) : (htobe64 o x).toNat = o.network 8 x.toNat := by
  have h : o.network 8 x.toNat < 256 ^ 8 := o.network_lt x.toNat_lt
  simp only [htobe64, UInt64.toNat_ofNat']
  exact Nat.mod_eq_of_lt h

/-- The macro built from two 32-bit conversions is the 64-bit conversion. -/
theorem htonll_eq_htobe64 (o : ByteOrder) (x : UInt64) : htonll o x = htobe64 o x := by
  cases o with
  | big => simp [htonll, htobe32, htobe64, ByteOrder.network]
  | little =>
    have hne : ¬ (1 : UInt32) = htobe32 .little 1 := by decide
    apply UInt64.toNat_inj.mp
    have hlow : (x &&& 0xFFFFFFFF).toUInt32.toNat = x.toNat % 256 ^ 4 := by
      simp only [UInt64.toNat_toUInt32, UInt64.toNat_and]
      exact (congrArg (· % 2 ^ 32) (Nat.and_two_pow_sub_one_eq_mod x.toNat 32)).trans (Nat.mod_mod _ _)
    have hhigh : (x >>> 32).toUInt32.toNat = x.toNat / 256 ^ 4 := by
      have := x.toNat_lt
      simp only [UInt64.toNat_toUInt32, UInt64.toNat_shiftRight, UInt64.reduceToNat,
        Nat.shiftRight_eq_div_pow]
      norm_num
      omega
    have hshift (a : ℕ) (ha : a < 256 ^ 4) : a <<< (UInt64.toNat 32 % 64) % 2 ^ 64 = a <<< 32 := by
      have : UInt64.toNat 32 % 64 = 32 := rfl
      rw [this, Nat.shiftLeft_eq]
      exact Nat.mod_eq_of_lt (by omega)
    rw [htonll, if_neg hne, htobe64_toNat, UInt64.toNat_or, UInt64.toNat_shiftLeft,
      UInt32.toNat_toUInt64, UInt32.toNat_toUInt64, htobe32_toNat, htobe32_toNat, hlow, hhigh]
    simp only [ByteOrder.network, swapBytes_mod]
    rw [hshift _ (swapBytes_lt 4 _),
      ← Nat.shiftLeft_add_eq_or_of_lt (swapBytes_lt 4 (x.toNat / 256 ^ 4) : _ < 2 ^ 32),
      Nat.shiftLeft_eq]
    exact (swapBytes_add 4 4 x.toNat).symm

@[simp] theorem hostToNetwork64_eq (p : Platform) (x : UInt64) :
    hostToNetwork64 p x = htobe64 p.order x := by
  cases hs : p.system <;> simp only [hostToNetwork64, hs, htonll_eq_htobe64]

@[simp] theorem networkToHost64_eq (p : Platform) (x : UInt64) :
    networkToHost64 p x = htobe64 p.order x := by
  cases hs : p.system <;> simp only [networkToHost64, hs, htonll_eq_htobe64]

/-- A word in network order is stored most significant byte first on every host. -/
theorem store_htobe32 (o : ByteOrder) (x : UInt32) :
    o.store 4 (htobe32 o x).toNat = bigEndian 4 x.toNat := by
  rw [htobe32_toNat, o.store_network]

theorem store_htobe64 (o : ByteOrder) (x : UInt64) :
    o.store 8 (htobe64 o x).toNat = bigEndian 8 x.toNat := by
  rw [htobe64_toNat, o.store_network]

/-- Loading four bytes and converting them reads them most significant byte first. -/
theorem htobe32_load (o : ByteOrder) {bs : List UInt8} (h : bs.length = 4) :
    htobe32 o (UInt32.ofNat (o.load bs)) = UInt32.ofNat (ofBigEndian bs) := by
  have hlt : o.load bs < 2 ^ 32 := (o.load_lt bs).trans_eq (by rw [h]; rfl)
  rw [htobe32, UInt32.toNat_ofNat', Nat.mod_eq_of_lt hlt, ← h, o.network_load]

theorem htobe64_load (o : ByteOrder) {bs : List UInt8} (h : bs.length = 8) :
    htobe64 o (UInt64.ofNat (o.load bs)) = UInt64.ofNat (ofBigEndian bs) := by
  have hlt : o.load bs < 2 ^ 64 := (o.load_lt bs).trans_eq (by rw [h]; rfl)
  rw [htobe64, UInt64.toNat_ofNat', Nat.mod_eq_of_lt hlt, ← h, o.network_load]

end Potato
