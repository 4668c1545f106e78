import Mathlib.Algebra.Ring.Nat
import Shyake.Go.Std

/-!
# `net/netip`

Addresses, prefixes and their text, as the server uses them. Each function has the name it has in Go.
-/

namespace Shyake.Go.Netip

/-- `netip.Addr`; `zero` is the one that is no address. -/
inductive Addr where
  | zero
  | v4 (addr : BitVec 32)
  | v6 (addr : BitVec 128) (zone : Bytes)
  deriving DecidableEq

namespace Addr

def is4 : Addr → Bool
  | v4 _ => true
  | _ => false

def is6 : Addr → Bool
  | v6 _ _ => true
  | _ => false

def is4In6 : Addr → Bool
  | v6 a _ => a >>> 32 == 0xffff
  | _ => false

def unmap (ip : Addr) : Addr :=
  match ip with
  | v6 a _ => if ip.is4In6 then v4 (a.setWidth 32) else ip
  | _ => ip

/-- `IPv4Unspecified` and `IPv6Unspecified`. -/
def isUnspecified (ip : Addr) : Bool := ip == v4 0 || ip == v6 0 []

def isLoopback (ip : Addr) : Bool :=
  match ip.unmap with
  | v4 a => a >>> 24 == 127
  | v6 a _ => a == 1
  | zero => false

def isLinkLocalUnicast (ip : Addr) : Bool :=
  match ip.unmap with
  | v4 a => a >>> 16 == 0xa9fe
  | v6 a _ => a >>> 118 == 0xfe80 >>> 6
  | zero => false

def isMulticast (ip : Addr) : Bool :=
  match ip.unmap with
  | v4 a => a >>> 28 == 0xe
  | v6 a _ => a >>> 120 == 0xff
  | zero => false

def isPrivate (ip : Addr) : Bool :=
  match ip.unmap with
  | v4 a => a >>> 24 == 10 || a >>> 20 == 0xac1 || a >>> 16 == 0xc0a8
  | v6 a _ => a >>> 121 == 0xfc >>> 1
  | zero => false

def isGlobalUnicast (ip : Addr) : Bool :=
  if ip = zero then false
  else
    let ip := ip.unmap
    if ip.is4 && (ip == v4 0 || ip == v4 0xffffffff) then false
    else ip != v6 0 [] && !ip.isLoopback && !ip.isMulticast && !ip.isLinkLocalUnicast

end Addr

/-! ## Prefixes -/

-- by name, so that a number of bits is the same term in every module
instance neZeroBits4 : NeZero 33 := ⟨by decide⟩
instance neZeroBits6 : NeZero 129 := ⟨by decide⟩

/-- `netip.Prefix`, one that is valid: it has no zone. -/
inductive Prefix where
  | v4 (addr : BitVec 32) (bits : Fin 33)
  | v6 (addr : BitVec 128) (bits : Fin 129)
  deriving DecidableEq

namespace Prefix

/-- An address with a zone is in no prefix, and one of the other family neither. -/
def contains : Prefix → Addr → Bool
  | v4 p bits, .v4 a => (a ^^^ p) >>> (32 - bits.val) == 0
  | v6 p bits, .v6 a zone => zone == [] && (a ^^^ p) >>> (128 - bits.val) == 0
  | _, _ => false

/-- `p.Addr()`. -/
def addr : Prefix → Addr
  | v4 a _ => .v4 a
  | v6 a _ => .v6 a []

end Prefix

/-- `ip.Prefix(64)` of an IPv6 address: the upper half, without the zone. -/
def prefix64 (a : BitVec 128) : Prefix := .v6 (a >>> 64 <<< 64) 64

/-! ## Texts -/

def isHex (c : UInt8) : Bool := isDigit c || (97 ≤ c && c ≤ 102) || (65 ≤ c && c ≤ 70)

def hexVal (c : UInt8) : Nat :=
  if isDigit c then c.toNat - 48 else if 97 ≤ c then c.toNat - 87 else c.toNat - 55

/-- One field of `parseIPv4Fields`: digits without a leading zero, up to 255. -/
def ipv4Field (s : Bytes) : Option Nat := do
  let n ← parseUint s
  if (s.head? = some 48 ∧ s.length ≠ 1) ∨ n > 255 then none else some n

/-- `parseIPv4Fields`: the four bytes. -/
def parseIPv4Fields (s : Bytes) : Option (List Nat) := do
  let fields ← (Bytes.split 46 s).mapM ipv4Field
  if fields.length = 4 then some fields else none

/-- The number of a list of bytes. -/
def ofBytes (n : Nat) (bytes : List Nat) : BitVec n :=
  BitVec.ofNat n (bytes.foldl (fun acc b => acc * 256 + b) 0)

def parseIPv4 (s : Bytes) : Option Addr := (parseIPv4Fields s).map fun fields => .v4 (ofBytes 32 fields)

/-- What the loop of `parseIPv6` leaves: the bytes so far and where the "::" was. -/
structure Ipv6Fields where
  ip : List Nat
  ellipsis : Option Nat

/-- The loop of `parseIPv6`, at most eight times; `none` is an error. The text has to be used up. -/
def parseIPv6Loop : Nat → Ipv6Fields → Bytes → Option Ipv6Fields
  | 0, st, s => if s = [] then some st else none
  | n + 1, st, s =>
    let digits := s.takeWhile isHex
    let rest := s.drop digits.length
    if digits = [] ∨ digits.length > 4 then none
    else if rest.head? = some 46 then
      if (st.ellipsis = none ∧ st.ip.length ≠ 12) ∨ st.ip.length + 4 > 16 then none
      else (parseIPv4Fields s).map fun fields => { st with ip := st.ip ++ fields }
    else
      let acc := digits.foldl (fun acc c => acc * 16 + hexVal c) 0
      let st := { st with ip := st.ip ++ [acc / 256, acc % 256] }
      match rest with
      | [] => some st
      | c :: s =>
        if c ≠ 58 ∨ s = [] then none
        else if s.head? = some 58 then
          if st.ellipsis.isSome then none
          else
            let st := { st with ellipsis := some st.ip.length }
            if s.tail = [] then some st else parseIPv6Loop n st s.tail
        else parseIPv6Loop n st s

def parseIPv6 (text : Bytes) : Option Addr := do
  let (s, zone) := Bytes.cut 37 text
  if zone = some [] then none
  else
    let zone := zone.getD []
    if s = [58, 58] then some (.v6 0 zone)
    else
      let st ← if (utf8 "::").isPrefixOf s then parseIPv6Loop 8 ⟨[], some 0⟩ (s.drop 2)
        else parseIPv6Loop 8 ⟨[], none⟩ s
      let i := st.ip.length
      match st.ellipsis with
      | none => if i < 16 then none else some (.v6 (ofBytes 128 st.ip) zone)
      | some e =>
        if i < 16 then
          some (.v6 (ofBytes 128 (st.ip.take e ++ List.replicate (16 - i) 0 ++ st.ip.drop e)) zone)
        else none

def parseAddr (s : Bytes) : Option Addr :=
  match s.find? fun c => c == 46 || c == 58 || c == 37 with
  | some 46 => parseIPv4 s
  | some 58 => parseIPv6 s
  | _ => none

/-- `splitAddrPort`: the address, the port, and whether the address is in brackets. -/
def splitAddrPort (s : Bytes) : Option (Bytes × Bytes × Bool) :=
  let port := (s.reverse.takeWhile (· != 58)).reverse
  if ¬s.contains 58 then none
  else
    let ip := s.take (s.length - port.length - 1)
    if ip = [] ∨ port = [] then none
    else if ip.head? = some 91 then
      if ip.length < 2 ∨ ip.getLast? ≠ some 93 then none
      else some (ip.tail.dropLast, port, true)
    else some (ip, port, false)

/-- `ParseAddrPort`, and of that the address. -/
def parseAddrPort (s : Bytes) : Option Addr := do
  let (ip, port, v6) ← splitAddrPort s
  let port ← parseUint port
  if port > 65535 then none
  else
    let addr ← parseAddr ip
    if v6 ≠ addr.is6 then none else some addr

/-- `ParsePrefix`. -/
def parsePrefix (s : Bytes) : Option Prefix := do
  let bits := (s.reverse.takeWhile (· != 47)).reverse
  if ¬s.contains 47 then none
  else
    let ip ← parseAddr (s.take (s.length - bits.length - 1))
    -- a sign and leading zeros are what Atoi would take as well
    if bits.length > 1 ∧ ¬(bits.head?.any fun c => 49 ≤ c && c ≤ 57) then none
    else
      let n ← parseInt bits
      match ip with
      | .v4 a => if h : 0 ≤ n ∧ n.toNat < 33 then some (.v4 a ⟨n.toNat, h.2⟩) else none
      | .v6 a zone =>
        if zone ≠ [] then none
        else if h : 0 ≤ n ∧ n.toNat < 129 then some (.v6 a ⟨n.toNat, h.2⟩) else none
      | .zero => none

example : parseAddr (utf8 "::ffff:10.0.0.1") = some (.v6 0xffff0a000001 []) := by decide +kernel
example : parseAddr (utf8 "fe80::1%eth0") = some (.v6 (0xfe80 <<< 112 ||| 1) (utf8 "eth0")) := by
  decide +kernel
example : parseAddr (utf8 "2001:db8::5:0:0:1:2:3") = none := by decide +kernel
example : parseAddrPort (utf8 "[::1]:1234") = some (.v6 1 []) := by decide +kernel
example : parsePrefix (utf8 "10.0.0.0/8") = some (.v4 0x0a000000 8) := by decide +kernel

end Shyake.Go.Netip
