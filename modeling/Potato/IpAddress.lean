import Potato.Endian
import Potato.RawSlice

/-!
# Addresses from text

The constructor of `IpAddress` from a slice hands the pointer of the slice to `inet_pton`, which
takes the text up to the first NUL byte, whatever the length of the slice is. Which texts are
addresses is a parameter.
-/
namespace Potato
open Machine

namespace RawSlice

/-- `operator==`, which compares the bytes by `memcmp`. -/
def equal (s t : RawSlice) : Bool := s.len == t.len && s.bytes == t.bytes

/-- The NUL-terminated text at `data()`. Without a NUL byte it runs out of the object. -/
def cString (s : RawSlice) : Outcome Fault Bytes := do
  let text := s.memory.drop s.offset
  Outcome.check (0 ∈ text) .outOfRange
  return text.takeWhile (· ≠ 0)

end RawSlice

/-- `AF_INET`, `AF_INET6` and the families that `inet_pton` does not know. -/
inductive AddressFamily where
  | inet
  | inet6
  | other (af : ℕ)
  deriving DecidableEq, Repr

namespace AddressFamily

/-- The bytes of an address. -/
def size : AddressFamily → ℕ
  | inet => 4
  | inet6 => 16
  | other _ => 0

def ofIpv6 (ipv6 : Bool) : AddressFamily := if ipv6 then inet6 else inet

end AddressFamily

/-- Which texts are literals of a family, and the bytes of their addresses. -/
abbrev Literals := (f : AddressFamily) → Bytes → Option (Vector Byte f.size)

/-- `inet_pton`: what it returns, and what is in the destination behind it. -/
def inetPton (literals : Literals) (f : AddressFamily) (src : Bytes) (dst : Vector Byte f.size) :
    ℤ × Vector Byte f.size :=
  match f with
  | .other _ => (-1, dst)
  | f =>
    match literals f src with
    | some addr => (1, addr)
    | none => (0, dst)

/-- The fields of the union that the class uses; `sin6_family` and `sin6_port` lie where
`sin_family` and `sin_port` do, and the two addresses do not overlap. -/
structure IpAddress where
  sinFamily : AddressFamily
  /-- in network order -/
  sinPort : UInt16
  sinAddr : Vector Byte 4 := .replicate 4 0
  sin6Addr : Vector Byte 16 := .replicate 16 0
  deriving DecidableEq, Repr

namespace IpAddress
variable (literals : Literals) (p : Platform)

/-- The constructor from a slice, and whether it reports an error. -/
def ofSlice (ip : RawSlice) (port : UInt16) (ipv6 : Bool) : Outcome Fault (IpAddress × Bool) := do
  let a : IpAddress :=
    { sinFamily := if ipv6 then .inet6 else .inet, sinPort := hostToNetwork16 p port }
  let text ← ip.cString
  let (ret, a) :=
    if ipv6 then
      let (ret, addr) := inetPton literals .inet6 text a.sin6Addr
      (ret, { a with sin6Addr := addr })
    else
      let (ret, addr) := inetPton literals .inet text a.sinAddr
      (ret, { a with sinAddr := addr })
  return (a, ret < 0)

/-- `Port()` -/
def Port (a : IpAddress) : UInt16 := networkToHost16 p a.sinPort

/-- The address itself, by the family. -/
def addr (a : IpAddress) : (f : AddressFamily) → Vector Byte f.size
  | .inet => a.sinAddr
  | .inet6 => a.sin6Addr
  | .other _ => #v[]

/-- An address of family `f` with the bytes `addr` and the port `port`. -/
structure Holds (a : IpAddress) (f : AddressFamily) (addr : Vector Byte f.size) (port : UInt16) :
    Prop where
  family : a.sinFamily = f
  addr : a.addr f = addr
  port : a.Port p = port

/-- The constructor goes by the bytes of the slice: it holds their address, or reports an error
when they are none. -/
def ReadsSlice (s : RawSlice) (port : UInt16) (ipv6 : Bool) : Prop :=
  ∃ a reported, ofSlice literals p s port ipv6 = .next (a, reported) ∧
    (∀ addr, literals (.ofIpv6 ipv6) s.bytes = some addr → a.Holds p (.ofIpv6 ipv6) addr port) ∧
    (literals (.ofIpv6 ipv6) s.bytes = none → reported = true)

/-- The bytes of the slice are a literal, and the text up to the first NUL byte is one of the same
address. When it is none at all the address is zero, which is what the union starts with. -/
def TextAgrees (s : RawSlice) (f : AddressFamily) : Prop :=
  ∃ addr text, literals f s.bytes = some addr ∧ s.cString = .next text ∧
    (literals f text = some addr ∨ literals f text = none ∧ addr = .replicate f.size 0)

variable {literals p} {s t : RawSlice} {port : UInt16} {ipv6 : Bool}

variable (literals) in
/-- With a family that it knows `inet_pton` does not fail, and changes the destination only for a
literal. -/
theorem inetPton_eq {f : AddressFamily} (hf : ∀ af, f ≠ .other af) (src : Bytes)
    (dst : Vector Byte f.size) :
    0 ≤ (inetPton literals f src dst).1 ∧
      (inetPton literals f src dst).2 = (literals f src).getD dst := by
  cases f with
  | other af => exact absurd rfl (hf af)
  | inet => cases h : literals .inet src <;> simp [inetPton, h]
  | inet6 => cases h : literals .inet6 src <;> simp [inetPton, h]

/-- The address with the bytes `addr`, and zero in the rest. -/
def ofAddr (p : Platform) (port : UInt16) : (f : AddressFamily) → Vector Byte f.size → IpAddress
  | .inet, addr => { sinFamily := .inet, sinPort := hostToNetwork16 p port, sinAddr := addr }
  | .inet6, addr => { sinFamily := .inet6, sinPort := hostToNetwork16 p port, sin6Addr := addr }
  | .other af, _ => { sinFamily := .other af, sinPort := hostToNetwork16 p port }

variable (p port) in
theorem holds_ofAddr (f : AddressFamily) (addr : Vector Byte f.size) :
    (ofAddr p port f addr).Holds p f addr port := by
  have hport : networkToHost16 p (hostToNetwork16 p port) = port := htobe16_htobe16 p.order port
  cases f with
  | inet => exact ⟨rfl, rfl, hport⟩
  | inet6 => exact ⟨rfl, rfl, hport⟩
  | other af => exact ⟨rfl, Vector.ext (fun i hi => absurd hi (Nat.not_lt_zero i)), hport⟩

/-- What the constructor builds from a text. No error is ever reported. -/
theorem ofSlice_eq {text : Bytes} (h : s.cString = .next text) :
    ofSlice literals p s port ipv6 = .next (ofAddr p port (.ofIpv6 ipv6)
      ((literals (.ofIpv6 ipv6) text).getD (.replicate _ 0)), false) := by
  cases ipv6 with
  | false =>
    obtain ⟨hret, haddr⟩ :=
      inetPton_eq literals (f := .inet) (by simp) text (.replicate 4 0)
    simp only [ofSlice, h, Outcome.next_bind, Outcome.pure_eq, Bool.false_eq_true, if_false,
      decide_eq_false (not_lt.mpr hret), haddr]
    rfl
  | true =>
    obtain ⟨hret, haddr⟩ :=
      inetPton_eq literals (f := .inet6) (by simp) text (.replicate 16 0)
    simp only [ofSlice, h, Outcome.next_bind, Outcome.pure_eq, if_true,
      decide_eq_false (not_lt.mpr hret), haddr]
    rfl

/-- Whatever the constructor builds, it has read a text for it. -/
theorem cString_of_ofSlice {a : IpAddress} {reported : Bool}
    (h : ofSlice literals p s port ipv6 = .next (a, reported)) :
    ∃ text, s.cString = .next text := by
  rw [ofSlice] at h
  obtain ⟨text, htext, -⟩ := Outcome.bind_eq_next.mp h
  exact ⟨text, htext⟩

variable (p port) in
theorem ofSlice_of_agrees (h : TextAgrees literals s (.ofIpv6 ipv6)) :
    ∃ addr, literals (.ofIpv6 ipv6) s.bytes = some addr ∧
      ofSlice literals p s port ipv6 = .next (ofAddr p port (.ofIpv6 ipv6) addr, false) := by
  obtain ⟨addr, text, hs, htext, hagree⟩ := h
  refine ⟨addr, hs, ?_⟩
  rw [ofSlice_eq htext]
  obtain ht | ⟨ht, hzero⟩ := hagree
  · rw [ht, Option.getD_some]
  · rw [ht, Option.getD_none, hzero]

theorem readsSlice_iff_agrees :
    ReadsSlice literals p s port ipv6 ↔ TextAgrees literals s (.ofIpv6 ipv6) := by
  constructor
  · rintro ⟨a, reported, hbuilt, hvalid, hinvalid⟩
    obtain ⟨text, htext⟩ := cString_of_ofSlice hbuilt
    rw [ofSlice_eq htext] at hbuilt
    cases hbuilt
    -- an error is not reported, so the bytes of the slice are a literal
    cases hs : literals (.ofIpv6 ipv6) s.bytes with
    | none =>
      have := hinvalid hs
      cases this
    | some addr =>
      have haddr := (hvalid addr hs).addr.symm.trans (holds_ofAddr p port _ _).addr
      refine ⟨addr, text, hs, htext, ?_⟩
      cases ht : literals (.ofIpv6 ipv6) text with
      | none => exact .inr ⟨rfl, by rw [haddr, ht, Option.getD_none]⟩
      | some addr' => exact .inl (by rw [haddr, ht, Option.getD_some])
  · intro h
    obtain ⟨addr, hs, hbuilt⟩ := ofSlice_of_agrees p port h
    refine ⟨_, false, hbuilt, ?_, ?_⟩
    · intro addr' hs'
      obtain rfl : addr = addr' := Option.some.inj (hs.symm.trans hs')
      exact holds_ofAddr p port _ addr
    · intro hnone
      rw [hs] at hnone
      cases hnone

/-- The constructor goes by the bytes of its slice if and only if the text up to the first NUL byte
agrees with them, and of two slices that agree and compare equal it builds one address. -/
theorem ofSlice_reads_slice_iff (literals : Literals) (p : Platform) (port : UInt16)
    (ipv6 : Bool) :
    (∀ s, ReadsSlice literals p s port ipv6 ↔ TextAgrees literals s (.ofIpv6 ipv6)) ∧
      ∀ s t, TextAgrees literals s (.ofIpv6 ipv6) → TextAgrees literals t (.ofIpv6 ipv6) →
        s.equal t = true →
          ofSlice literals p s port ipv6 = ofSlice literals p t port ipv6 := by
  refine ⟨fun s => readsSlice_iff_agrees, fun s t hs ht hequal => ?_⟩
  obtain ⟨addr, hlit, hbuilt⟩ := ofSlice_of_agrees p port hs
  obtain ⟨addr', hlit', hbuilt'⟩ := ofSlice_of_agrees p port ht
  have hbytes : s.bytes = t.bytes := by
    rw [RawSlice.equal, Bool.and_eq_true] at hequal
    exact eq_of_beq hequal.2
  obtain rfl : addr = addr' := Option.some.inj (hlit.symm.trans (hbytes ▸ hlit'))
  rw [hbuilt, hbuilt']

/-- `inet_pton` on the texts below: `1.2.3.4` and `1.2.3.45` are addresses. -/
def dottedQuads : Literals
  | .inet, text =>
    if text = [49, 46, 50, 46, 51, 46, 52] then some #v[1, 2, 3, 4]
    else if text = [49, 46, 50, 46, 51, 46, 52, 53] then some #v[1, 2, 3, 45]
    else none
  | _, _ => none

/-- The text `1.2.3.4`, alone and behind a space. -/
theorem ofSlice_reads_slice_iff_quads :
    ReadsSlice dottedQuads ⟨.linux, .little⟩ ⟨[49, 46, 50, 46, 51, 46, 52, 0], 0, 7⟩ 80 false ∧
      ofSlice dottedQuads ⟨.linux, .little⟩ ⟨[49, 46, 50, 46, 51, 46, 52, 0], 0, 7⟩ 80 false =
        ofSlice dottedQuads ⟨.linux, .little⟩ ⟨[32, 49, 46, 50, 46, 51, 46, 52, 0], 1, 7⟩ 80
          false := by
  have hs : TextAgrees dottedQuads ⟨[49, 46, 50, 46, 51, 46, 52, 0], 0, 7⟩ .inet :=
    ⟨#v[1, 2, 3, 4], _, rfl, rfl, .inl rfl⟩
  have ht : TextAgrees dottedQuads ⟨[32, 49, 46, 50, 46, 51, 46, 52, 0], 1, 7⟩ .inet :=
    ⟨#v[1, 2, 3, 4], _, rfl, rfl, .inl rfl⟩
  exact ⟨((ofSlice_reads_slice_iff dottedQuads ⟨.linux, .little⟩ 80 false).1 _).mpr hs,
    (ofSlice_reads_slice_iff dottedQuads ⟨.linux, .little⟩ 80 false).2 _ _ hs ht (by decide)⟩

/-- The slice `1.2.3.4` in front of another digit builds the address of the longer text, unlike an
equal slice; and no error is reported for a slice that is no address. -/
theorem ofSlice_reads_past_slice :
    ¬ ReadsSlice dottedQuads ⟨.linux, .little⟩ ⟨[49, 46, 50, 46, 51, 46, 52, 53, 0], 0, 7⟩ 80
        false ∧
      (RawSlice.equal ⟨[49, 46, 50, 46, 51, 46, 52, 53, 0], 0, 7⟩
          ⟨[49, 46, 50, 46, 51, 46, 52, 0], 0, 7⟩ = true ∧
        ofSlice dottedQuads ⟨.linux, .little⟩ ⟨[49, 46, 50, 46, 51, 46, 52, 53, 0], 0, 7⟩ 80 false ≠
          ofSlice dottedQuads ⟨.linux, .little⟩ ⟨[49, 46, 50, 46, 51, 46, 52, 0], 0, 7⟩ 80 false) ∧
      ¬ ReadsSlice dottedQuads ⟨.linux, .little⟩ ⟨[120, 0], 0, 1⟩ 80 false := by
  refine ⟨?_, ⟨by decide, by decide⟩, ?_⟩
  · rintro ⟨a, reported, hbuilt, hvalid, -⟩
    have haddr := (hvalid #v[1, 2, 3, 4] rfl).addr
    cases hbuilt
    have hne : (#v[1, 2, 3, 45] : Vector Byte 4) ≠ #v[1, 2, 3, 4] := by decide
    exact hne haddr
  · rintro ⟨a, reported, hbuilt, -, hinvalid⟩
    have hreported := hinvalid rfl
    cases hbuilt
    cases hreported

end IpAddress
end Potato
