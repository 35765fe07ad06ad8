import Potato.Decimal
import Potato.IpAddress

/-!
# The text of an address

`Ip` and `IpPort` write into a buffer of 128 bytes that nobody has set, and return it up to the
first NUL byte. The texts always fit, tell one address from another, and build the address again.
-/
namespace Potato
open Words Machine

/-- The ASCII code of a letter. -/
def code (c : Char) : Byte := UInt8.ofNat c.toNat

def ascii (text : List Char) : Bytes := text.map code

/-- `%u` -/
def decimal (n : ℕ) : Bytes := ascii (Nat.toDigits 10 n)

/-- What `inet_ntop` writes for `AF_INET`. -/
def dotted (addr : Vector Byte 4) : Bytes :=
  decimal addr[0].toNat ++ ascii ['.'] ++ decimal addr[1].toNat ++ ascii ['.'] ++
    decimal addr[2].toNat ++ ascii ['.'] ++ decimal addr[3].toNat

/-- The letters of the texts for `AF_INET6`. -/
def ipv6Letters : Bytes := ascii "0123456789abcdef:.".toList

/-- `INET6_ADDRSTRLEN` counts the NUL byte behind the longest of these texts. -/
structure Ipv6Text (text : Bytes) : Prop where
  length_lt : text.length < 46
  letters : ∀ c ∈ text, c ∈ ipv6Letters

/-- The bytes of `text` and a NUL byte, from the index `i` of `buf` on. -/
def putText (buf : Bytes) (i : ℕ) (text : Bytes) : Bytes :=
  buf.take i ++ (text ++ 0 :: buf.drop (i + text.length + 1))

/-- `inet_ntop` at the index `i`, which writes nothing when its text does not fit into `size`. -/
def inetNtop (text : Bytes) (buf : Bytes) (i size : ℕ) : Bytes :=
  if text.length < size then putText buf i text else buf

/-- `snprintf` at the index `i`, which cuts the text off at `size`. -/
def snprintf (text : Bytes) (buf : Bytes) (i size : ℕ) : Bytes :=
  if size = 0 then buf else putText buf i (text.take (size - 1))

/-- A buffer taken for a text, as `strlen` and `std::string` do. -/
def cString (buf : Bytes) : Outcome Fault Bytes := RawSlice.cString ⟨buf, 0, buf.length⟩

theorem cString_putText {buf text : Bytes} {i : ℕ} (hfront : 0 ∉ buf.take i) (htext : 0 ∉ text) :
    cString (putText buf i text) = .next (buf.take i ++ text) := by
  have hmem : 0 ∈ putText buf i text := by simp [putText]
  have hread : (putText buf i text).takeWhile (· ≠ 0) = buf.take i ++ text := by
    rw [putText, ← List.append_assoc, List.takeWhile_append_of_pos]
    · simp
    · intro c hc
      rw [decide_eq_true_eq]
      rintro rfl
      rw [List.mem_append] at hc
      exact hc.elim hfront htext
  simp only [cString, RawSlice.cString, List.drop_zero, Outcome.check_pos hmem, Outcome.next_bind,
    hread, Outcome.pure_eq]

theorem putText_eq (buf : Bytes) (i : ℕ) (text : Bytes) :
    putText buf i text = (buf.take i ++ text) ++ 0 :: buf.drop (i + text.length + 1) :=
  (List.append_assoc ..).symm

/-- A text that fits is put behind the one that the buffer holds. -/
theorem cString_snprintf {text tail rest : Bytes} {size : ℕ} (htext : 0 ∉ text) (htail : 0 ∉ tail)
    (hsize : tail.length < size) :
    cString (snprintf tail (text ++ 0 :: rest) text.length size) = .next (text ++ tail) := by
  have hfull : tail.take (size - 1) = tail := List.take_of_length_le (by omega)
  rw [snprintf, if_neg (by omega), hfull, cString_putText (by simpa using htext) htail,
    List.take_left]

namespace IpAddress

/-- `ipv6()` -/
def ipv6 (a : IpAddress) : Bool := a.sinFamily == .inet6

/-- The bytes of a word in memory. -/
def stored (p : Platform) (x : UInt32) : Vector Byte 4 :=
  ⟨(p.order.store 4 x.toNat).toArray, by simp⟩

def INADDR_ANY : UInt32 := 0

def INADDR_LOOPBACK : UInt32 := 0x7f000001

def in6addr_any : Vector Byte 16 := .replicate 16 0

def in6addr_loopback : Vector Byte 16 := #v[0, 0, 0, 0, 0, 0, 0, 0, 0, 0, 0, 0, 0, 0, 0, 1]

/-- The constructor from a port. -/
def ofPort (p : Platform) (port : UInt16) (loopBack ipv6 : Bool) : IpAddress :=
  let a : IpAddress :=
    { sinFamily := if ipv6 then .inet6 else .inet, sinPort := hostToNetwork16 p port }
  if ipv6 then { a with sin6Addr := if loopBack then in6addr_loopback else in6addr_any }
  else
    let word := if loopBack then hostToNetwork32 p INADDR_LOOPBACK else INADDR_ANY
    { a with sinAddr := stored p word }

/-- What `inet_ntop` is asked for. -/
def literal (text6 : Vector Byte 16 → Bytes) (a : IpAddress) : Bytes :=
  if a.ipv6 then text6 a.sin6Addr else dotted a.sinAddr

/-- `Ip()`, with what the buffer holds before. -/
def Ip (text6 : Vector Byte 16 → Bytes) (a : IpAddress) (buf : Vector Byte 128) :
    Outcome Fault Bytes :=
  if a.ipv6 = false then cString (inetNtop (dotted a.sinAddr) buf.toList 0 128)
  else cString (inetNtop (text6 a.sin6Addr) buf.toList 0 128)

/-- `IpPort()` -/
def IpPort (p : Platform) (text6 : Vector Byte 16 → Bytes) (a : IpAddress)
    (buf : Vector Byte 128) : Outcome Fault Bytes := do
  let buf :=
    if a.ipv6 = false then inetNtop (dotted a.sinAddr) buf.toList 0 128
    else inetNtop (text6 a.sin6Addr) (buf.toList.set 0 (code '[')) 1 127
  let text ← cString buf
  let buf := snprintf (ascii (if a.ipv6 then [']'] else []) ++ ascii [':'] ++
    decimal (a.Port p).toNat) buf text.length (128 - text.length)
  cString buf

/-- The text that `IpPort` builds. -/
def bracketed (ipv6 : Bool) (ip : Bytes) : Bytes :=
  if ipv6 then ascii ['['] ++ ip ++ ascii [']'] else ip

end IpAddress

section Letters
variable {c : Byte} {x y : Char} {n : ℕ}

theorem code_toNat (h : x.toNat < 256) : (code x).toNat = x.toNat := by
  rw [code, UInt8.toNat_ofNat', Nat.mod_eq_of_lt h]

theorem digit_toNat_lt (h : x.isDigit = true) : x.toNat < 256 :=
  (Char.isDigit_iff_toNat.mp h).2.trans_lt (by decide)

theorem digit_of_mem (h : x ∈ Nat.toDigits 10 n) : x.isDigit = true :=
  Nat.isDigit_of_mem_toDigits (by decide) (by decide) h

theorem mem_decimal (h : c ∈ decimal n) : 48 ≤ c.toNat ∧ c.toNat ≤ 57 := by
  obtain ⟨x, hx, rfl⟩ := List.mem_map.mp h
  have hdigit := digit_of_mem hx
  rw [code_toNat (digit_toNat_lt hdigit)]
  exact Char.isDigit_iff_toNat.mp hdigit

theorem not_mem_decimal (h : c.toNat < 48 ∨ 57 < c.toNat) (n : ℕ) : c ∉ decimal n := by
  intro hmem
  have := mem_decimal hmem
  omega

/-- The number comes back from its digits. -/
theorem decimal_injective : Function.Injective decimal := by
  have hback (n : ℕ) : (decimal n).map (fun b => Char.ofNat b.toNat) = Nat.toDigits 10 n := by
    rw [decimal, ascii, List.map_map]
    refine (List.map_congr_left fun x hx => ?_).trans (List.map_id _)
    rw [Function.comp_apply, code_toNat (digit_toNat_lt (digit_of_mem hx)), Char.ofNat_toNat]
    rfl
  intro m n h
  rw [← Nat.ofDigitChars_ten_toDigits (n := m), ← hback, h, hback, Nat.ofDigitChars_ten_toDigits]

theorem length_decimal_le {k : ℕ} (hk : 0 < k) (h : n < 10 ^ k) : (decimal n).length ≤ k := by
  rw [decimal, ascii, List.length_map]
  exact (Nat.length_toDigits_le_iff (by decide) hk).mpr h

/-- A letter that neither front has ends both. -/
theorem append_cons_inj {xs ys us vs : Bytes} (hx : c ∉ xs) (hy : c ∉ ys)
    (h : xs ++ c :: us = ys ++ c :: vs) : xs = ys ∧ us = vs := by
  induction xs generalizing ys with
  | nil =>
    cases ys with
    | nil => exact ⟨rfl, (List.cons.inj h).2⟩
    | cons y ys =>
      obtain ⟨rfl, -⟩ := List.cons.inj h
      exact absurd List.mem_cons_self hy
  | cons x xs ih =>
    cases ys with
    | nil =>
      obtain ⟨rfl, -⟩ := List.cons.inj h
      exact absurd List.mem_cons_self hx
    | cons y ys =>
      obtain ⟨rfl, hrest⟩ := List.cons.inj h
      obtain ⟨rfl, hback⟩ := ih (fun hno => hx (List.mem_cons_of_mem x hno))
        (fun hno => hy (List.mem_cons_of_mem x hno)) hrest
      exact ⟨rfl, hback⟩

theorem dotted_eq (addr : Vector Byte 4) : dotted addr = decimal addr[0].toNat ++ code '.' ::
    (decimal addr[1].toNat ++ code '.' :: (decimal addr[2].toNat ++
      code '.' :: decimal addr[3].toNat)) := by
  simp [dotted, ascii]

theorem mem_dotted {addr : Vector Byte 4} (h : c ∈ dotted addr) :
    c = code '.' ∨ 48 ≤ c.toNat ∧ c.toNat ≤ 57 := by
  simp only [dotted_eq, List.mem_append, List.mem_cons] at h
  rcases h with h | h | h | h | h | h | h
  · exact .inr (mem_decimal h)
  · exact .inl h
  · exact .inr (mem_decimal h)
  · exact .inl h
  · exact .inr (mem_decimal h)
  · exact .inl h
  · exact .inr (mem_decimal h)

theorem dotted_injective : Function.Injective dotted := by
  intro x y h
  have hdot (n : ℕ) : code '.' ∉ decimal n := not_mem_decimal (.inl (by decide)) n
  have hbyte {i : ℕ} (hi : i < 4) (he : decimal x[i].toNat = decimal y[i].toNat) : x[i] = y[i] :=
    UInt8.toNat_inj.mp (decimal_injective he)
  rw [dotted_eq, dotted_eq] at h
  obtain ⟨h₀, h⟩ := append_cons_inj (hdot _) (hdot _) h
  obtain ⟨h₁, h⟩ := append_cons_inj (hdot _) (hdot _) h
  obtain ⟨h₂, h₃⟩ := append_cons_inj (hdot _) (hdot _) h
  refine Vector.ext fun i hi => ?_
  interval_cases i
  · exact hbyte (by decide) h₀
  · exact hbyte (by decide) h₁
  · exact hbyte (by decide) h₂
  · exact hbyte (by decide) h₃

theorem length_dotted_le (addr : Vector Byte 4) : (dotted addr).length ≤ 15 := by
  have hbyte (b : Byte) : (decimal b.toNat).length ≤ 3 :=
    length_decimal_le (by decide) (b.toNat_lt.trans (by decide))
  have h₀ := hbyte addr[0]
  have h₁ := hbyte addr[1]
  have h₂ := hbyte addr[2]
  have h₃ := hbyte addr[3]
  rw [dotted_eq]
  simp only [List.length_append, List.length_cons]
  omega

end Letters

namespace IpAddress
variable {text6 : Vector Byte 16 → Bytes} {a b : IpAddress} {buf buf' : Vector Byte 128}
  {p : Platform}

/-- The letters of an address: no NUL byte and no bracket, and a colon only in the longer ones. -/
theorem literal_letters (h6 : ∀ addr, Ipv6Text (text6 addr)) (a : IpAddress) {c : Byte}
    (h : c ∈ a.literal text6) : c ≠ 0 ∧ c ≠ code '[' ∧ c ≠ code ']' ∧
      (a.ipv6 = false → c ≠ code ':') := by
  unfold literal at h
  split_ifs at h with hv
  · have hc := (h6 _).letters c h
    have hall : ∀ c ∈ ipv6Letters, c ≠ 0 ∧ c ≠ code '[' ∧ c ≠ code ']' := by
      decide +kernel
    obtain ⟨hzero, hopen, hclose⟩ := hall c hc
    exact ⟨hzero, hopen, hclose, fun hno => absurd (hv.symm.trans hno) (by decide)⟩
  · have hc := mem_dotted h
    refine ⟨?_, ?_, ?_, fun _ => ?_⟩
    all_goals
      rintro rfl
      revert hc
      decide

theorem length_literal_lt (h6 : ∀ addr, Ipv6Text (text6 addr)) (a : IpAddress) :
    (a.literal text6).length < 46 := by
  unfold literal
  split_ifs
  · exact (h6 _).length_lt
  · exact (length_dotted_le _).trans_lt (by decide)

/-- The text of `Ip` is not cut off, whatever the buffer held. -/
theorem Ip_eq (h6 : ∀ addr, Ipv6Text (text6 addr)) (a : IpAddress) (buf : Vector Byte 128) :
    a.Ip text6 buf = .next (a.literal text6) := by
  have hlength := length_literal_lt h6 a
  have hzero : 0 ∉ a.literal text6 := fun hno => (literal_letters h6 a hno).1 rfl
  have hput : cString (inetNtop (a.literal text6) buf.toList 0 128) =
      .next (a.literal text6) := by
    rw [inetNtop, if_pos (by omega), cString_putText List.not_mem_nil hzero]
    rfl
  unfold literal at hput ⊢
  unfold Ip
  cases hv : a.ipv6 <;> simpa [hv] using hput

theorem IpPort_eq (h6 : ∀ addr, Ipv6Text (text6 addr)) (p : Platform) (a : IpAddress)
    (buf : Vector Byte 128) :
    a.IpPort p text6 buf = .next (bracketed a.ipv6 (a.literal text6) ++ ascii [':'] ++
      decimal (a.Port p).toNat) := by
  have hlength := length_literal_lt h6 a
  have hzero : 0 ∉ a.literal text6 := fun hno => (literal_letters h6 a hno).1 rfl
  have hport : (decimal (a.Port p).toNat).length ≤ 5 :=
    length_decimal_le (by decide) ((a.Port p).toNat_lt.trans (by decide))
  have hdigits : 0 ∉ decimal (a.Port p).toNat := not_mem_decimal (.inl (by decide)) _
  unfold literal bracketed at *
  unfold IpPort
  cases hv : a.ipv6 with
  | false =>
    simp only [hv, Bool.false_eq_true, if_false, if_true] at hlength hzero ⊢
    rw [inetNtop, if_pos (by omega), cString_putText List.not_mem_nil hzero, Outcome.next_bind,
      putText_eq, List.take_zero, List.nil_append, cString_snprintf hzero]
    · simp [ascii]
    · simp [ascii, code, hdigits]
    · simp [ascii]
      omega
  | true =>
    simp only [hv, Bool.true_eq_false, if_false, if_true] at hlength hzero ⊢
    have hopen : (buf.toList.set 0 (code '[')).take 1 = ascii ['['] := by
      obtain ⟨c, rest, hbuf⟩ := List.exists_cons_of_length_pos (l := buf.toList) (by simp)
      rw [hbuf]
      rfl
    have hfront : 0 ∉ ascii ['['] := by decide
    have htext : 0 ∉ ascii ['['] ++ text6 a.sin6Addr := by
      rw [List.mem_append, not_or]
      exact ⟨hfront, hzero⟩
    rw [inetNtop, if_pos (by omega), cString_putText (by rw [hopen]; exact hfront) hzero,
      Outcome.next_bind, putText_eq, hopen, cString_snprintf htext]
    · simp [ascii]
    · simp [ascii, code, hdigits]
    · simp [ascii]
      omega

/-- Only a bracketed text has a bracket. -/
theorem bracket_mem {v : Bool} {ip : Bytes} {n : ℕ} (hip : code '[' ∉ ip) :
    code '[' ∈ bracketed v ip ++ ascii [':'] ++ decimal n ↔ v = true := by
  have hcolon : code '[' ∉ ascii [':'] := by decide
  have hdigits : code '[' ∉ decimal n := not_mem_decimal (.inr (by decide)) n
  have hclose : code '[' ∉ ascii [']'] := by decide
  cases v with
  | false => simp [bracketed, hip, hcolon, hdigits]
  | true => simp [bracketed, ascii]

/-- The parts of such a text come back. -/
theorem portText_inj {v v' : Bool} {ip ip' : Bytes} {m n : ℕ}
    (hip : code '[' ∉ ip ∧ code ']' ∉ ip ∧ (v = false → code ':' ∉ ip))
    (hip' : code '[' ∉ ip' ∧ code ']' ∉ ip' ∧ (v' = false → code ':' ∉ ip'))
    (h : bracketed v ip ++ ascii [':'] ++ decimal m =
      bracketed v' ip' ++ ascii [':'] ++ decimal n) :
    v = v' ∧ ip = ip' ∧ m = n := by
  have hfamily : v = true ↔ v' = true := by
    rw [← bracket_mem (n := m) hip.1, h, bracket_mem hip'.1]
  obtain rfl : v = v' := Bool.eq_iff_iff.mpr hfamily
  refine ⟨rfl, ?_⟩
  cases v with
  | false =>
    have h' : ip ++ code ':' :: decimal m = ip' ++ code ':' :: decimal n := by
      simpa [bracketed, ascii] using h
    obtain ⟨rfl, hport⟩ := append_cons_inj (hip.2.2 rfl) (hip'.2.2 rfl) h'
    exact ⟨rfl, decimal_injective hport⟩
  | true =>
    have h' : ip ++ code ']' :: (code ':' :: decimal m) =
        ip' ++ code ']' :: (code ':' :: decimal n) := by
      simpa [bracketed, ascii] using h
    obtain ⟨rfl, hport⟩ := append_cons_inj hip.2.1 hip'.2.1 h'
    exact ⟨rfl, decimal_injective (List.cons.inj hport).2⟩

/-- The loopback addresses and the others have their bytes on every host. -/
theorem ofPort_holds (p : Platform) (port : UInt16) (loopBack : Bool) :
    (ofPort p port loopBack false).Holds p .inet
        (if loopBack then #v[127, 0, 0, 1] else #v[0, 0, 0, 0]) port ∧
      (ofPort p port loopBack true).Holds p .inet6
        (if loopBack then in6addr_loopback else in6addr_any) port := by
  have hport : networkToHost16 p (hostToNetwork16 p port) = port := htobe16_htobe16 p.order port
  refine ⟨⟨rfl, ?_, hport⟩, ⟨rfl, rfl, hport⟩⟩
  cases loopBack with
  | false => cases ho : p.order <;> simp [ofPort, addr, stored, INADDR_ANY, ho] <;> rfl
  | true =>
    have hbytes : p.order.store 4 (hostToNetwork32 p INADDR_LOOPBACK).toNat = [127, 0, 0, 1] :=
      store_htobe32 p.order INADDR_LOOPBACK
    simp only [ofPort, addr, stored, if_true, hbytes, Bool.false_eq_true, if_false]
    rfl

/-- `IpPort` tells `ipv6()`, the address and the port. No text is cut off, whatever the buffers
held before. -/
theorem ipPort_identifies (p : Platform) (text6 : Vector Byte 16 → Bytes)
    (h6 : ∀ addr, Ipv6Text (text6 addr)) (a b : IpAddress) (buf buf' : Vector Byte 128) :
    a.Ip text6 buf = .next (a.literal text6) ∧
    a.IpPort p text6 buf = .next (bracketed a.ipv6 (a.literal text6) ++ ascii [':'] ++
      decimal (a.Port p).toNat) ∧
    (a.IpPort p text6 buf = b.IpPort p text6 buf' ↔
      a.ipv6 = b.ipv6 ∧ a.literal text6 = b.literal text6 ∧ a.Port p = b.Port p) ∧
    (a.ipv6 = false → b.ipv6 = false →
      (a.IpPort p text6 buf = b.IpPort p text6 buf' ↔
        a.sinAddr = b.sinAddr ∧ a.Port p = b.Port p)) := by
  have hletters (a : IpAddress) : code '[' ∉ a.literal text6 ∧ code ']' ∉ a.literal text6 ∧
      (a.ipv6 = false → code ':' ∉ a.literal text6) :=
    ⟨fun hno => (literal_letters h6 a hno).2.1 rfl, fun hno => (literal_letters h6 a hno).2.2.1 rfl,
      fun hv hno => (literal_letters h6 a hno).2.2.2 hv rfl⟩
  have htells : a.IpPort p text6 buf = b.IpPort p text6 buf' ↔
      a.ipv6 = b.ipv6 ∧ a.literal text6 = b.literal text6 ∧ a.Port p = b.Port p := by
    rw [IpPort_eq h6, IpPort_eq h6, Outcome.next.injEq]
    constructor
    · intro h
      obtain ⟨hfamily, hip, hport⟩ := portText_inj (hletters a) (hletters b) h
      exact ⟨hfamily, hip, UInt16.toNat_inj.mp hport⟩
    · rintro ⟨hfamily, hip, hport⟩
      rw [hfamily, hip, hport]
  refine ⟨Ip_eq h6 a buf, IpPort_eq h6 p a buf, htells, fun ha hb => ?_⟩
  have hliteral {a : IpAddress} (ha : a.ipv6 = false) : a.literal text6 = dotted a.sinAddr := by
    rw [literal, ha, if_neg Bool.false_ne_true]
  rw [htells, ha, hb, hliteral ha, hliteral hb, dotted_injective.eq_iff]
  exact and_iff_right rfl

/-- The port of one family, and the loopback address of the other. -/
theorem ipPort_identifies_loopback :
    (ofPort ⟨.linux, .little⟩ 10086 true true).IpPort ⟨.linux, .little⟩
        (fun _ => ascii "::1".toList) (.replicate 128 255) =
      .next (ascii "[::1]:10086".toList) ∧
    (ofPort ⟨.linux, .little⟩ 10086 true true).IpPort ⟨.linux, .little⟩
        (fun _ => ascii "::1".toList) (.replicate 128 255) ≠
      (ofPort ⟨.linux, .little⟩ 10086 true false).IpPort ⟨.linux, .little⟩
        (fun _ => ascii "::1".toList) (.replicate 128 255) := by
  obtain ⟨-, htext, htells, -⟩ := ipPort_identifies ⟨.linux, .little⟩ (fun _ => ascii "::1".toList)
    (fun _ => ⟨by decide, by decide +kernel⟩) (ofPort ⟨.linux, .little⟩ 10086 true true)
    (ofPort ⟨.linux, .little⟩ 10086 true false) (.replicate 128 255) (.replicate 128 255)
  exact ⟨htext.trans (by decide +kernel), fun h => absurd (htells.mp h).1 (by decide)⟩

/-- A `std::string` taken for a slice: a NUL byte ends what it holds. -/
def ofString (text : Bytes) : RawSlice := ⟨text ++ [0], 0, text.length⟩

theorem cString_ofString {text : Bytes} (h : 0 ∉ text) : (ofString text).cString = .next text := by
  have hread := @cString_putText [] text 0 List.not_mem_nil h
  simpa [cString, RawSlice.cString, putText, ofString] using hread

/-- The text goes by the family and its address. -/
theorem literal_congr (hfamily : b.sinFamily = a.sinFamily)
    (haddr : b.addr a.sinFamily = a.addr a.sinFamily) (known : a.sinFamily = .ofIpv6 a.ipv6) :
    b.literal text6 = a.literal text6 := by
  have hv : b.ipv6 = a.ipv6 := congrArg (· == AddressFamily.inet6) hfamily
  rw [known] at haddr
  unfold literal
  rw [hv]
  cases ha : a.ipv6 with
  | false =>
    rw [ha] at haddr
    exact congrArg dotted haddr
  | true =>
    rw [ha] at haddr
    exact congrArg text6 haddr

/-- An address of one of the two families is built again from what `Ip` and `Port` return, whatever
the buffer held, if `inet_pton` reads what `inet_ntop` writes for it. -/
theorem rebuilt (p : Platform) (literals : Literals) (text6 : Vector Byte 16 → Bytes)
    (h6 : ∀ addr, Ipv6Text (text6 addr)) (a : IpAddress) (buf buf' : Vector Byte 128)
    (known : a.sinFamily = .ofIpv6 a.ipv6)
    (reads : literals (.ofIpv6 a.ipv6) (a.literal text6) = some (a.addr (.ofIpv6 a.ipv6))) :
    ∃ ip b, a.Ip text6 buf = .next ip ∧
      ofSlice literals p (ofString ip) (a.Port p) a.ipv6 = .next (b, false) ∧
      b.Holds p a.sinFamily (a.addr a.sinFamily) (a.Port p) ∧
      b.IpPort p text6 buf' = a.IpPort p text6 buf' := by
  have hzero : 0 ∉ a.literal text6 := fun hno => (literal_letters h6 a hno).1 rfl
  have hbuilt : ofSlice literals p (ofString (a.literal text6)) (a.Port p) a.ipv6 = _ :=
    ofSlice_eq (cString_ofString hzero)
  rw [reads, Option.getD_some] at hbuilt
  have hholds := holds_ofAddr p (a.Port p) (.ofIpv6 a.ipv6) (a.addr (.ofIpv6 a.ipv6))
  rw [← known] at hholds hbuilt
  refine ⟨_, _, Ip_eq h6 a buf, hbuilt, hholds, ?_⟩
  have hv : (ofAddr p (a.Port p) a.sinFamily (a.addr a.sinFamily)).ipv6 = a.ipv6 :=
    congrArg (· == AddressFamily.inet6) hholds.family
  rw [IpPort_eq h6, IpPort_eq h6, hv, literal_congr hholds.family hholds.addr known, hholds.port]

/-- `inet_pton` on the text below. -/
def loopbackQuad : Literals
  | .inet, text => if text = ascii "127.0.0.1".toList then some #v[127, 0, 0, 1] else none
  | _, _ => none

/-- The loopback address, with its four bytes. -/
theorem rebuilt_loopback : ∃ ip b,
    (ofPort ⟨.linux, .little⟩ 8888 true false).Ip (fun _ => ascii "::1".toList)
        (.replicate 128 255) = .next ip ∧
      ofSlice loopbackQuad ⟨.linux, .little⟩ (ofString ip) 8888 false = .next (b, false) ∧
      b.Holds ⟨.linux, .little⟩ .inet #v[127, 0, 0, 1] 8888 := by
  obtain ⟨ip, b, hip, hbuilt, hholds, -⟩ := rebuilt ⟨.linux, .little⟩ loopbackQuad
    (fun _ => ascii "::1".toList) (fun _ => ⟨by decide, by decide +kernel⟩)
    (ofPort ⟨.linux, .little⟩ 8888 true false) (.replicate 128 255) (.replicate 128 255) rfl
    (by decide +kernel)
  obtain ⟨hloop, -⟩ := ofPort_holds ⟨.linux, .little⟩ 8888 true
  exact ⟨ip, b, hip, hbuilt, hholds.family.trans hloop.family, hholds.addr.trans hloop.addr,
    hholds.port.trans hloop.port⟩

end IpAddress
end Potato
