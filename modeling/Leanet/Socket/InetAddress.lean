import Leanet.Buffer.Integers
import Leanet.Time.Text
import Mathlib.Data.List.TakeWhile

/-! Addresses and their texts.

An `InetAddress` is the 28 bytes of a `sockaddr_in6`; a `sockaddr_in` is the first 16 of them, and
the port lies in one place in both. Of an IPv4 address the first 8 bytes count: the family, the port
and the address. Its text tells them and is read back to them, two of them are the same exactly if
their texts are, and a text that is no address makes `0.0.0.0` (`address_texts`). -/
namespace Leanet
open Bytes Endian
open Logger (percentD)
open Numeral (numeral)
open detail (spellDecimal readDecimal)

/-! ### The dotted texts of libc -/

/-- `inet_ntop(AF_INET, …)`. -/
def inet_ntop4 (a : List UInt8) : List UInt8 :=
  [46].intercalate (a.map fun c => percentD false 0 c.toNat)

/-- A decimal number up to 255, with no zero in front of others. -/
def octet (s : List UInt8) : Option UInt8 := do
  let v ← Numeral.parse 10 readDecimal s
  if v ≤ 255 ∧ (s.head? = some 48 → s = [48]) then some (.ofNat v) else none

/-- `inet_pton(AF_INET, …)`. -/
def inet_pton4 (s : List UInt8) : Option (List UInt8) := do
  let a ← (s.splitOn 46).mapM octet
  if a.length = 4 then some a else none

/-- The same for IPv6, of which the code makes one use each. -/
structure Inet where
  ntop6 : List UInt8 → List UInt8
  pton6 : List UInt8 → Option (List UInt8)

/-! ### The class -/

def AF_INET : UInt16 := 2

def AF_INET6 : UInt16 := 10

def INADDR_ANY : UInt32 := 0

def INADDR_LOOPBACK : UInt32 := 0x7f000001

/-- The union of a `sockaddr_in` and a `sockaddr_in6`. -/
structure InetAddress where
  addr6_ : List UInt8
  size : addr6_.length = 28
  deriving DecidableEq

namespace InetAddress

def set (a : InetAddress) (pos : Nat) (data : List UInt8) : InetAddress :=
  ⟨store a.addr6_ pos data, by rw [length_store, a.size]⟩

/-- `sin_family`, which is `sin6_family`. -/
def family (a : InetAddress) : UInt16 := .ofBitVec (ofBytes 2 (slice a.addr6_ 0 2))

/-- `sin_port`, which is `sin6_port`. -/
def portNetOrder (a : InetAddress) : UInt16 := .ofBitVec (ofBytes 2 (slice a.addr6_ 2 4))

def sin_addr (a : InetAddress) : List UInt8 := slice a.addr6_ 4 8

def sin6_addr (a : InetAddress) : List UInt8 := slice a.addr6_ 8 24

def setFamily (a : InetAddress) (family : UInt16) : InetAddress :=
  a.set 0 (bytes (n := 2) family.toBitVec)

/-- `hostToNet16(port)`. -/
def setPort (a : InetAddress) (port : UInt16) : InetAddress :=
  a.set 2 (bytes (n := 2) (sockets.hostToNet16 port).toBitVec)

/-- `InetAddress(port, loopbackOnly, ipv6)`, in memory that holds `union`. -/
def ofPort (union : InetAddress) (port : UInt16) (loopbackOnly ipv6 : Bool) : InetAddress :=
  if ipv6 then
    let a := (union.set 0 (List.replicate 28 0)).setFamily AF_INET6
    let a := a.set 8 (List.replicate 15 0 ++ [if loopbackOnly then 1 else 0])
    a.setPort port
  else
    let a := (union.set 0 (List.replicate 16 0)).setFamily AF_INET
    let ipaddr := if loopbackOnly then INADDR_LOOPBACK else INADDR_ANY
    let a := a.set 4 (bytes (n := 4) (sockets.hostToNet32 ipaddr).toBitVec)
    a.setPort port

/-- What is read of `ip.c_str()`. -/
def c_str (ip : List UInt8) : List UInt8 := ip.takeWhile (· ≠ 0)

/-- `InetAddress(ip, port, ipv6)` with both overloads of `sockets::fromIpPort`; a text that is no
address is logged. -/
def ofIp (inet : Inet) (union : InetAddress) (ip : List UInt8) (port : UInt16) (ipv6 : Bool) :
    InetAddress :=
  if ipv6 then
    let a := ((union.set 0 (List.replicate 28 0)).setFamily AF_INET6).setPort port
    match inet.pton6 (c_str ip) with
    | some sin6_addr => a.set 8 sin6_addr
    | none => a
  else
    let a := ((union.set 0 (List.replicate 16 0)).setFamily AF_INET).setPort port
    match inet_pton4 (c_str ip) with
    | some sin_addr => a.set 4 sin_addr
    | none => a

/-- `sockets::toIp`; of another family nothing is written. -/
def ip (inet : Inet) (a : InetAddress) : List UInt8 :=
  if a.family = AF_INET then inet_ntop4 a.sin_addr
  else if a.family = AF_INET6 then inet.ntop6 a.sin6_addr
  else []

def port (build : Build) (a : InetAddress) : Except Fault UInt16 := do
  build.assert (a.family = AF_INET)
  pure (sockets.netToHost16 a.portNetOrder)

/-- `sockets::toIpPort`, into 64 bytes. -/
def ipPort (build : Build) (inet : Inet) (a : InetAddress) : Except Fault (List UInt8) := do
  let buf := a.ip inet
  let port := sockets.netToHost16 a.portNetOrder
  build.assert (64 > buf.length)
  pure (buf ++ (58 :: percentD false 0 port.toNat).take (64 - buf.length - 1))

/-- `sockets::isSelfConnected`, of what `getLocalAddr` and `getPeerAddr` return. -/
def isSelfConnected (localaddr peeraddr : InetAddress) : Bool :=
  if localaddr.family = AF_INET then
    localaddr.portNetOrder = peeraddr.portNetOrder ∧ localaddr.sin_addr = peeraddr.sin_addr
  else if localaddr.family = AF_INET6 then
    localaddr.portNetOrder = peeraddr.portNetOrder ∧ localaddr.sin6_addr = peeraddr.sin6_addr
  else false

end InetAddress

/-! ### Dotted texts -/

variable {s : List UInt8} {a : List UInt8} {c : UInt8} {n : Nat}

theorem percentD_plain (n : Nat) : percentD false 0 n = (numeral 10 n).map spellDecimal := by
  have hsign : ¬ (n : Int) < 0 := Int.not_lt.mpr (Int.natCast_nonneg n)
  simp [percentD, hsign]

theorem spell_readDecimal {d : Nat} (h : readDecimal c = some d) : spellDecimal d = c ∧ d < 10 := by
  unfold readDecimal at h
  split at h
  · next hc =>
    obtain ⟨hlow, hhigh⟩ := hc
    rw [UInt8.le_iff_toNat_le] at hlow hhigh
    have hlow' : 48 ≤ c.toNat := hlow
    have hhigh' : c.toNat ≤ 57 := hhigh
    obtain rfl := Option.some.inj h
    refine ⟨?_, by omega⟩
    rw [spellDecimal, Nat.add_sub_cancel' hlow', UInt8.ofNat_toNat]
  · cases h

theorem spell_mapM {l : List Nat} (h : s.mapM readDecimal = some l) :
    s = l.map spellDecimal ∧ ∀ d ∈ l, d < 10 := by
  induction s generalizing l with
  | nil =>
    cases h
    exact ⟨rfl, nofun⟩
  | cons c s ih =>
    simp only [List.mapM_cons, Option.bind_eq_bind, Option.bind_eq_some_iff, Option.pure_def,
      Option.some.injEq] at h
    obtain ⟨d, hd, l, hl, rfl⟩ := h
    obtain ⟨rfl, hlt⟩ := spell_readDecimal hd
    obtain ⟨rfl, hrest⟩ := ih hl
    exact ⟨rfl, List.forall_mem_cons.mpr ⟨hlt, hrest⟩⟩

/-- A part is read exactly if it is written as the number that is read. -/
theorem octet_eq_some_iff : octet s = some c ↔ s = percentD false 0 c.toNat := by
  have hdigit : ∀ d < 10, spellDecimal d = 48 ↔ d = 0 := by decide
  have hcanonical := Numeral.canonical_numeral (b := 10) (by decide)
  rw [percentD_plain]
  constructor
  · intro h
    simp only [octet, Option.bind_eq_bind, Option.bind_eq_some_iff] at h
    obtain ⟨v, hv, h⟩ := h
    split at h
    · next hok =>
      obtain ⟨hle, hzero⟩ := hok
      unfold Numeral.parse at hv
      split at hv
      · cases hv
      · next hne =>
        obtain ⟨l, hl, rfl⟩ := Option.map_eq_some_iff.mp hv
        obtain ⟨rfl, hdigits⟩ := spell_mapM hl
        have hnonempty : l ≠ [] := by simpa using hne
        have hleading : l.head? = some 0 → l = [0] := by
          intro hhead
          have hspelled := hzero (by rw [List.head?_map, hhead]; rfl)
          obtain ⟨d, rfl, hd⟩ := List.map_eq_singleton_iff.mp hspelled
          rw [(hdigit d (hdigits d List.mem_cons_self)).mp hd]
        have hvalue := Numeral.Canonical.eq_numeral (by decide) ⟨hdigits, hnonempty, hleading⟩
        obtain rfl := Option.some.inj h
        rw [UInt8.toNat_ofNat', Nat.mod_eq_of_lt (by omega), ← hvalue]
    · cases h
  · rintro rfl
    have hparse := Numeral.parse_spell detail.read_spellDecimal (hcanonical c.toNat)
    rw [Numeral.value_numeral] at hparse
    have hle : c.toNat ≤ 255 := Nat.le_of_lt_succ c.toNat_lt
    have hleading (hhead : ((numeral 10 c.toNat).map spellDecimal).head? = some 48) :
        (numeral 10 c.toNat).map spellDecimal = [48] := by
      rw [List.head?_map] at hhead
      obtain ⟨d, hd, hspell⟩ := Option.map_eq_some_iff.mp hhead
      have hlt := (hcanonical c.toNat).digits d (List.mem_of_head? hd)
      rw [(hdigit d hlt).mp hspell] at hd
      rw [(hcanonical c.toNat).leading hd]
      rfl
    simp only [octet, hparse, Option.bind_eq_bind, Option.bind_some]
    rw [if_pos ⟨hle, hleading⟩, UInt8.ofNat_toNat]

theorem mapM_octet {parts : List (List UInt8)} : parts.mapM octet = some a ↔
    parts = a.map fun c => percentD false 0 c.toNat := by
  induction parts generalizing a with
  | nil => cases a <;> simp
  | cons s parts ih =>
    simp only [List.mapM_cons, Option.bind_eq_bind, Option.bind_eq_some_iff, Option.pure_def,
      Option.some.injEq, octet_eq_some_iff, ih]
    constructor
    · rintro ⟨c, rfl, a, rfl, rfl⟩
      rfl
    · intro h
      obtain _ | ⟨c, a⟩ := a
      · cases h
      · obtain ⟨rfl, rfl⟩ := List.cons.inj h
        exact ⟨c, rfl, a, rfl, rfl⟩

/-- **The dotted texts that are read are the ones that are written.** -/
theorem inet_pton4_eq_some_iff : inet_pton4 s = some a ↔ a.length = 4 ∧ s = inet_ntop4 a := by
  have hdot : ∀ l ∈ a.map fun c => percentD false 0 c.toNat, 46 ∉ l := by
    intro l hl
    obtain ⟨c, -, rfl⟩ := List.mem_map.mp hl
    exact foreign_dot.not_mem_percentD
  simp only [inet_pton4, Option.bind_eq_bind, Option.bind_eq_some_iff]
  constructor
  · rintro ⟨a', ha', h⟩
    split at h
    · next hlength =>
      obtain rfl := Option.some.inj h
      exact ⟨hlength, by rw [inet_ntop4, ← mapM_octet.mp ha', List.intercalate_splitOn]⟩
    · cases h
  · rintro ⟨hlength, rfl⟩
    have hne : (a.map fun c => percentD false 0 c.toNat) ≠ [] := by
      rintro hnil
      rw [List.map_eq_nil_iff.mp hnil] at hlength
      cases hlength
    exact ⟨a, mapM_octet.mpr (List.splitOn_intercalate 46 hdot hne), if_pos hlength⟩

theorem inet_pton4_ntop4 (h : a.length = 4) : inet_pton4 (inet_ntop4 a) = some a :=
  inet_pton4_eq_some_iff.mpr ⟨h, rfl⟩

theorem inet_ntop4_inj {b : List UInt8} (ha : a.length = 4) (hb : b.length = 4) :
    inet_ntop4 a = inet_ntop4 b ↔ a = b := by
  refine ⟨fun h => ?_, congrArg _⟩
  have hread := congrArg inet_pton4 h
  rw [inet_pton4_ntop4 ha, inet_pton4_ntop4 hb] at hread
  exact Option.some.inj hread

theorem colon_not_mem {z : Bool} {w : Nat} {n : Int} : 58 ∉ percentD z w n := by
  intro h
  rcases mem_percentD h with h | h | h <;> revert h <;> decide

theorem inet_ntop4_eq (h : a.length = 4) : ∃ p q r t : UInt8, a = [p, q, r, t] ∧ inet_ntop4 a =
    percentD false 0 p.toNat ++ [46] ++ percentD false 0 q.toNat ++ [46] ++
      percentD false 0 r.toNat ++ [46] ++ percentD false 0 t.toNat := by
  obtain ⟨p, q, r, t, rfl⟩ := List.length_eq_four.mp h
  exact ⟨p, q, r, t, rfl, by simp [inet_ntop4, List.intercalate]⟩

theorem colon_not_mem_ntop4 (h : a.length = 4) : 58 ∉ inet_ntop4 a := by
  obtain ⟨p, q, r, t, -, heq⟩ := inet_ntop4_eq h
  simp [heq, colon_not_mem]

theorem nul_not_mem_ntop4 (h : a.length = 4) : 0 ∉ inet_ntop4 a := by
  obtain ⟨p, q, r, t, -, heq⟩ := inet_ntop4_eq h
  simp [heq, foreign_nul.not_mem_percentD]

theorem length_octet (c : UInt8) : (percentD false 0 c.toNat).length ≤ 4 := by
  have hlt : ((c.toNat : Int)).natAbs < 10 ^ 3 := by
    have := c.toNat_lt
    omega
  exact length_percentD_le (by decide) hlt

theorem length_ntop4 (h : a.length = 4) : (inet_ntop4 a).length ≤ 19 := by
  obtain ⟨p, q, r, t, -, heq⟩ := inet_ntop4_eq h
  have hp := length_octet p
  have hq := length_octet q
  have hr := length_octet r
  have ht := length_octet t
  simp only [heq, List.length_append, List.length_singleton]
  omega

/-! ### Fields -/

namespace InetAddress
variable {a b : InetAddress} {pos lo hi : Nat} {data : List UInt8}

theorem slice_set (a : InetAddress) (h : pos + data.length ≤ 28) :
    slice (a.set pos data).addr6_ pos (pos + data.length) = data :=
  slice_store _ _ _ (by rwa [a.size])

theorem slice_set_frame (a : InetAddress) (h : pos + data.length ≤ 28)
    (hout : hi ≤ pos ∨ pos + data.length ≤ lo) :
    slice (a.set pos data).addr6_ lo hi = slice a.addr6_ lo hi :=
  slice_store_frame _ _ (by rwa [a.size]) hout

/-- Zeros are stored over the address as well. -/
theorem slice_set_zeros (a : InetAddress) (h : pos + n ≤ 28) (hlo : pos ≤ lo) (hhi : hi ≤ pos + n) :
    slice (a.set pos (List.replicate n 0)).addr6_ lo hi = List.replicate (hi - lo) 0 := by
  apply List.ext_getElem?
  intro i
  have hlength : (List.replicate n (0 : UInt8)).length = n := List.length_replicate
  rw [getElem?_slice, set, getElem?_store _ _ _ _ (by rw [hlength, a.size]; exact h), hlength,
    List.getElem?_replicate, List.getElem?_replicate]
  split
  · rw [if_pos (by omega), if_pos (by omega)]
  · rfl

theorem length_sin_addr (a : InetAddress) : a.sin_addr.length = 4 :=
  length_slice _ _ _ (by rw [a.size]; decide)

theorem length_field (a : InetAddress) (h : lo + 2 ≤ 28) : (slice a.addr6_ lo (lo + 2)).length = 2 := by
  rw [length_slice _ _ _ (by rw [a.size]; exact h), Nat.add_sub_cancel_left]

theorem field_eq_iff {l l' : List UInt8} (hl : l.length = 2) (hl' : l'.length = 2) :
    UInt16.ofBitVec (ofBytes 2 l) = UInt16.ofBitVec (ofBytes 2 l') ↔ l = l' := by
  refine ⟨fun h => ?_, fun h => by rw [h]⟩
  have hbytes : bytes (ofBytes 2 l) = bytes (ofBytes 2 l') :=
    congrArg (fun x : UInt16 => bytes (n := 2) x.toBitVec) h
  rwa [bytes_ofBytes hl, bytes_ofBytes hl'] at hbytes

/-- The bytes of an IPv4 address that count. -/
def head (a : InetAddress) : List UInt8 := a.addr6_.take 8

theorem head_eq (a : InetAddress) :
    a.head = slice a.addr6_ 0 2 ++ slice a.addr6_ 2 4 ++ a.sin_addr := by
  rw [sin_addr, slice_append _ (by decide) (by decide), slice_append _ (by decide) (by decide)]
  rfl

theorem head_eq_iff : a.head = b.head ↔
    a.family = b.family ∧ a.portNetOrder = b.portNetOrder ∧ a.sin_addr = b.sin_addr := by
  have hfamily (a : InetAddress) : (slice a.addr6_ 0 2).length = 2 := length_field a (by decide)
  have hport (a : InetAddress) : (slice a.addr6_ 2 4).length = 2 := length_field a (by decide)
  rw [family, family, field_eq_iff (hfamily a) (hfamily b), portNetOrder, portNetOrder,
    field_eq_iff (hport a) (hport b), head_eq, head_eq]
  constructor
  · intro h
    obtain ⟨h, haddr⟩ := List.append_inj h (by
      rw [List.length_append, List.length_append, hfamily, hport, hfamily, hport])
    obtain ⟨hf, hp⟩ := List.append_inj h (by rw [hfamily, hfamily])
    exact ⟨hf, hp, haddr⟩
  · rintro ⟨hf, hp, haddr⟩
    rw [hf, hp, haddr]

/-! ### Texts -/

variable {build : Build} {inet : Inet} {p : UInt16} {text : List UInt8}

/-- The text of an IPv4 address: address, colon, port. -/
def ipPortText (a : InetAddress) : List UInt8 :=
  inet_ntop4 a.sin_addr ++ 58 :: percentD false 0 (sockets.netToHost16 a.portNetOrder).toNat

theorem c_str_ntop4 {x : List UInt8} (h : x.length = 4) : c_str (inet_ntop4 x) = inet_ntop4 x :=
  List.takeWhile_eq_self_iff.mpr fun _ hc => decide_eq_true fun hzero =>
    nul_not_mem_ntop4 h (hzero ▸ hc)

theorem ip_eq (h : a.family = AF_INET) : a.ip inet = inet_ntop4 a.sin_addr := if_pos h

/-- It is never cut. -/
theorem ipPort_eq (h : a.family = AF_INET) : a.ipPort build inet = .ok a.ipPortText := by
  have hip := length_ntop4 a.length_sin_addr
  have hport : (((sockets.netToHost16 a.portNetOrder).toNat : Int)).natAbs < 10 ^ 5 := by
    have := (sockets.netToHost16 a.portNetOrder).toNat_lt
    omega
  have hlength : (percentD false 0 (sockets.netToHost16 a.portNetOrder).toNat).length ≤ 6 :=
    length_percentD_le (by decide) hport
  have hassert : build.assert (64 > (inet_ntop4 a.sin_addr).length) = .ok () := by
    rw [Build.assert, if_pos (.inr (by omega))]
  rw [ipPort, ip_eq h, hassert, ok_bind, List.take_of_length_le (by
    rw [List.length_cons]
    omega)]
  rfl

theorem netToHost16_inj {m n : UInt16} :
    (sockets.netToHost16 m).toNat = (sockets.netToHost16 n).toNat ↔ m = n := by
  refine ⟨fun h => ?_, fun h => by rw [h]⟩
  have hswap (x : UInt16) : sockets.hostToNet16 (sockets.netToHost16 x) = x :=
    congrArg UInt16.ofBitVec (swap_swap (n := 2) x.toBitVec)
  rw [← hswap m, ← hswap n, UInt16.toNat_inj.mp h]

theorem ipPortText_eq_iff : a.ipPortText = b.ipPortText ↔
    a.portNetOrder = b.portNetOrder ∧ a.sin_addr = b.sin_addr := by
  rw [ipPortText, ipPortText, List.append_cons_inj_of_notMem
    (colon_not_mem_ntop4 a.length_sin_addr) colon_not_mem,
    inet_ntop4_inj a.length_sin_addr b.length_sin_addr, percentD_eq_iff, Nat.cast_inj,
    netToHost16_inj]
  tauto

/-- A zeroed IPv4 address. -/
def blank (union : InetAddress) : InetAddress := (union.set 0 (List.replicate 16 0)).setFamily AF_INET

theorem length_bytes16 (x : UInt16) : (bytes (n := 2) x.toBitVec).length = 2 := length_bytes _

theorem ofBytes_bytes16 (x : UInt16) :
    UInt16.ofBitVec (ofBytes 2 (bytes (n := 2) x.toBitVec)) = x :=
  congrArg UInt16.ofBitVec (ofBytes_bytes (n := 2) x.toBitVec)

theorem blank_fields (union : InetAddress) :
    (blank union).family = AF_INET ∧ (blank union).sin_addr = [0, 0, 0, 0] := by
  have hlength := length_bytes16 AF_INET
  constructor
  · have hslice : slice (blank union).addr6_ 0 2 = bytes (n := 2) AF_INET.toBitVec :=
      slice_set _ (by rw [hlength]; decide)
    rw [family, hslice, ofBytes_bytes16]
  · exact (slice_set_frame _ (by rw [hlength]; decide) (.inr (by rw [hlength]; decide))).trans
      (slice_set_zeros _ (by decide) (by decide) (by decide))

theorem setPort_fields (a : InetAddress) (p : UInt16) :
    (a.setPort p).family = a.family ∧ (a.setPort p).portNetOrder = sockets.hostToNet16 p ∧
      (a.setPort p).sin_addr = a.sin_addr := by
  have hlength := length_bytes16 (sockets.hostToNet16 p)
  refine ⟨?_, ?_, ?_⟩
  · exact congrArg (fun l => UInt16.ofBitVec (ofBytes 2 l))
      (slice_set_frame a (by rw [hlength]; decide) (.inl (Nat.le_refl 2)))
  · have hslice : slice (a.setPort p).addr6_ 2 4 =
        bytes (n := 2) (sockets.hostToNet16 p).toBitVec := slice_set a (by rw [hlength]; decide)
    rw [portNetOrder, hslice, ofBytes_bytes16]
  · exact slice_set_frame a (by rw [hlength]; decide) (.inr (by rw [hlength]))

theorem set_addr_fields (a : InetAddress) {x : List UInt8} (hx : x.length = 4) :
    (a.set 4 x).family = a.family ∧ (a.set 4 x).portNetOrder = a.portNetOrder ∧
      (a.set 4 x).sin_addr = x := by
  refine ⟨?_, ?_, ?_⟩
  · rw [family, slice_set_frame a (by omega) (.inl (by decide)), family]
  · rw [portNetOrder, slice_set_frame a (by omega) (.inl (by decide)), portNetOrder]
  · rw [sin_addr, show (8 : Nat) = 4 + x.length by omega, slice_set a (by omega)]

/-- The fields that a text makes. -/
theorem ofIp_fields (inet : Inet) (union : InetAddress) (text : List UInt8) (p : UInt16) :
    (ofIp inet union text p false).family = AF_INET ∧
      (ofIp inet union text p false).portNetOrder = sockets.hostToNet16 p ∧
      (ofIp inet union text p false).sin_addr = (inet_pton4 (c_str text)).getD [0, 0, 0, 0] := by
  obtain ⟨hfamily, haddr⟩ := blank_fields union
  obtain ⟨hfamily', hport, haddr'⟩ := setPort_fields (blank union) p
  cases hread : inet_pton4 (c_str text) with
  | none =>
    have ha : ofIp inet union text p false = (blank union).setPort p := by simp [ofIp, hread, blank]
    rw [ha]
    exact ⟨hfamily'.trans hfamily, hport, haddr'.trans haddr⟩
  | some x =>
    have ha : ofIp inet union text p false = ((blank union).setPort p).set 4 x := by
      simp [ofIp, hread, blank]
    obtain ⟨hf, hp, hx⟩ := set_addr_fields ((blank union).setPort p)
      (inet_pton4_eq_some_iff.mp hread).1
    rw [ha]
    exact ⟨hf.trans (hfamily'.trans hfamily), hp.trans hport, hx⟩

/-- The fields that a port makes. -/
theorem ofPort_fields (union : InetAddress) (p : UInt16) (loopbackOnly : Bool) :
    (ofPort union p loopbackOnly false).family = AF_INET ∧
      (ofPort union p loopbackOnly false).portNetOrder = sockets.hostToNet16 p ∧
      (ofPort union p loopbackOnly false).sin_addr =
        if loopbackOnly then [127, 0, 0, 1] else [0, 0, 0, 0] := by
  have hbytes : bytes (n := 4) (sockets.hostToNet32
      (if loopbackOnly then INADDR_LOOPBACK else INADDR_ANY)).toBitVec =
        if loopbackOnly then [127, 0, 0, 1] else [0, 0, 0, 0] := by cases loopbackOnly <;> decide
  have hlength : (if loopbackOnly then [127, 0, 0, 1] else [0, 0, 0, 0] : List UInt8).length = 4 := by
    cases loopbackOnly <;> rfl
  obtain ⟨hfamily, -⟩ := blank_fields union
  obtain ⟨hf, -, hx⟩ := set_addr_fields (blank union) hlength
  obtain ⟨hfamily', hport, haddr⟩ := setPort_fields
    ((blank union).set 4 (if loopbackOnly then [127, 0, 0, 1] else [0, 0, 0, 0])) p
  have ha : ofPort union p loopbackOnly false = ((blank union).set 4
      (if loopbackOnly then [127, 0, 0, 1] else [0, 0, 0, 0])).setPort p := by
    rw [← hbytes]
    rfl
  rw [ha]
  exact ⟨hfamily'.trans (hf.trans hfamily), hport, haddr.trans hx⟩

theorem port_eq (h : a.family = AF_INET) :
    a.port build = .ok (sockets.netToHost16 a.portNetOrder) := by
  have hassert : build.assert (a.family = AF_INET) = .ok () := by
    rw [Build.assert, if_pos (.inr h)]
  rw [port, hassert, ok_bind, pure_eq_ok]

/-- **The text of an IPv4 address tells it, is read back to it, and a text that is no address makes
`0.0.0.0`.** A socket is connected to itself exactly if the texts of both ends are the same, and a
port alone makes `127.0.0.1` or `0.0.0.0`. -/
theorem address_texts (build : Build) (inet : Inet) (union : InetAddress)
    (ha : a.family = AF_INET) (hb : b.family = AF_INET) : ∃ p s t,
    a.port build = .ok p ∧ a.ipPort build inet = .ok s ∧ b.ipPort build inet = .ok t ∧
    s = a.ip inet ++ 58 :: percentD false 0 p.toNat ∧ (s = t ↔ a.head = b.head) ∧
    (isSelfConnected a b = true ↔ s = t) ∧ (ofIp inet union (a.ip inet) p false).head = a.head ∧
    (∀ loopbackOnly, (ofPort union p loopbackOnly false).head =
      (ofIp inet union (inet_ntop4 (if loopbackOnly then [127, 0, 0, 1] else [0, 0, 0, 0])) p
        false).head) ∧
    ∀ text, (ofIp inet union text p false).ip inet =
      if (inet_pton4 (c_str text)).isSome then c_str text else [48, 46, 48, 46, 48, 46, 48] := by
  have hswap : sockets.hostToNet16 (sockets.netToHost16 a.portNetOrder) = a.portNetOrder :=
    congrArg UInt16.ofBitVec (swap_swap (n := 2) a.portNetOrder.toBitVec)
  refine ⟨_, _, _, port_eq ha, ipPort_eq ha, ipPort_eq hb, by rw [ip_eq ha, ipPortText], ?_, ?_, ?_,
    fun loopbackOnly => ?_, fun text => ?_⟩
  · rw [ipPortText_eq_iff, head_eq_iff, ha, hb]
    simp
  · rw [ipPortText_eq_iff, isSelfConnected, if_pos ha, decide_eq_true_iff]
  · obtain ⟨hfamily, hport, haddr⟩ := ofIp_fields inet union (a.ip inet)
      (sockets.netToHost16 a.portNetOrder)
    rw [head_eq_iff, hfamily, hport, haddr, ha, hswap, ip_eq ha, c_str_ntop4 a.length_sin_addr,
      inet_pton4_ntop4 a.length_sin_addr]
    exact ⟨rfl, rfl, rfl⟩
  · have hlength : (if loopbackOnly then [127, 0, 0, 1] else [0, 0, 0, 0] : List UInt8).length = 4 := by
      cases loopbackOnly <;> rfl
    obtain ⟨hfamily, hport, haddr⟩ := ofIp_fields inet union
      (inet_ntop4 (if loopbackOnly then [127, 0, 0, 1] else [0, 0, 0, 0]))
      (sockets.netToHost16 a.portNetOrder)
    obtain ⟨hfamily', hport', haddr'⟩ := ofPort_fields union (sockets.netToHost16 a.portNetOrder)
      loopbackOnly
    rw [head_eq_iff, hfamily, hport, haddr, hfamily', hport', haddr', c_str_ntop4 hlength,
      inet_pton4_ntop4 hlength]
    exact ⟨rfl, rfl, rfl⟩
  · obtain ⟨hfamily, -, haddr⟩ := ofIp_fields inet union text
      (sockets.netToHost16 a.portNetOrder)
    rw [ip_eq hfamily, haddr]
    cases hread : inet_pton4 (c_str text) with
    | none => exact (by decide : inet_ntop4 [0, 0, 0, 0] = [48, 46, 48, 46, 48, 46, 48])
    | some x => exact (inet_pton4_eq_some_iff.mp hread).2.symm

/-- `127.0.0.1:80` and `0.0.0.0:80`. -/
theorem address_texts_loopback : ∃ p s t,
    (ofPort ⟨List.replicate 28 255, rfl⟩ 80 true false).port .debug = .ok p ∧
    (ofPort ⟨List.replicate 28 255, rfl⟩ 80 true false).ipPort .debug ⟨id, some⟩ = .ok s ∧
    (ofPort ⟨List.replicate 28 255, rfl⟩ 80 false false).ipPort .debug ⟨id, some⟩ = .ok t ∧
    s = [49, 50, 55, 46, 48, 46, 48, 46, 49, 58, 56, 48] ∧ s ≠ t := by
  obtain ⟨p, s, t, hp, hs, ht, htext, hiff, -⟩ := address_texts .debug ⟨id, some⟩
    ⟨List.replicate 28 255, rfl⟩ (a := ofPort ⟨List.replicate 28 255, rfl⟩ 80 true false)
    (b := ofPort ⟨List.replicate 28 255, rfl⟩ 80 false false) (by decide) (by decide)
  refine ⟨p, s, t, hp, hs, ht, ?_, fun hst => ?_⟩
  · have hloopback : (ofPort ⟨List.replicate 28 255, rfl⟩ 80 true false).ipPort .debug ⟨id, some⟩ =
        .ok [49, 50, 55, 46, 48, 46, 48, 46, 49, 58, 56, 48] := by decide +kernel
    exact Except.ok.inj (hs.symm.trans hloopback)
  · exact absurd (hiff.mp hst) (by decide)

end InetAddress
end Leanet
