import Mathlib.Data.Fin.Basic
import Shyake.Go.Netip

/-!
# The addresses a server may be asked at

The guard at dial time: no other instance is asked at an address that is not globally routable.
An IPv6 address may stand for an IPv4 one, and the guard has to see through that.
-/

namespace Shyake.Go

open Netip (Addr Prefix parseAddr parsePrefix)

/-- Special-purpose ranges that `IsGlobalUnicast` still accepts. -/
def blockedPrefixes : List Prefix :=
  [ "0.0.0.0/8",       -- "this network"
    "100.64.0.0/10",   -- carrier-grade NAT
    "192.0.0.0/24",    -- IETF protocol assignments
    "192.0.2.0/24",    -- documentation
    "198.18.0.0/15",   -- benchmarking
    "198.51.100.0/24", -- documentation
    "203.0.113.0/24",  -- documentation
    "240.0.0.0/4",     -- reserved
    "64:ff9b::/96",    -- NAT64: would reach IPv4 space unchecked
    "64:ff9b:1::/48",  -- local-use NAT64
    "2001:db8::/32",   -- documentation
    "2002::/16"        -- 6to4: embeds an arbitrary IPv4 address
  ].filterMap fun s => parsePrefix (utf8 s)

/-- `publicAddr` reports whether `ip` is globally routable. -/
def publicAddr (ip : Addr) : Bool :=
  let ip := ip.unmap
  if !ip.isGlobalUnicast || ip.isPrivate || ip.isLoopback || ip.isLinkLocalUnicast ||
      ip.isMulticast || ip.isUnspecified then
    false
  else !blockedPrefixes.any (·.contains ip)

/-- What the dialer does with the host it is about to connect to. -/
def dials (host : Bytes) : Bool := (parseAddr host).any publicAddr

/-! ## The IPv4 address in an IPv6 address -/

/-- Where the bits of an IPv4 address stand in the local-use NAT64 range: the prefix that is
used there may have any of these lengths, and the bits from 64 to 71 are left out. -/
inductive Nat64Length where
  | l48
  | l56
  | l64
  | l96

/-- The forms of IPv6 addresses whose traffic goes to an IPv4 address. -/
inductive Form where
  | mapped
  | compatible
  | nat64
  | nat64Local (length : Nat64Length)
  | sixToFour
  | teredo

/-- The IPv6 addresses of the form. -/
def Form.range : Form → Prefix
  | .mapped => .v6 (0xffff#128 <<< 32) 96
  | .compatible => .v6 0 96
  | .nat64 => .v6 (0x64ff9b#128 <<< 96) 96
  | .nat64Local _ => .v6 (0x64ff9b0001#128 <<< 80) 48
  | .sixToFour => .v6 (0x2002#128 <<< 112) 16
  | .teredo => .v6 (0x20010000#128 <<< 96) 32

/-- The IPv4 address that stands in one of the form. -/
def Form.embedded (x : BitVec 128) : Form → BitVec 32
  | .mapped | .compatible | .nat64 | .nat64Local .l96 => x.setWidth 32
  | .nat64Local .l48 => x.extractLsb' 64 16 ++ x.extractLsb' 40 16
  | .nat64Local .l56 => x.extractLsb' 64 8 ++ x.extractLsb' 32 24
  | .nat64Local .l64 => x.extractLsb' 24 32
  | .sixToFour => x.extractLsb' 80 32
  -- the client's address is stored with every bit turned over
  | .teredo => ~~~(x.setWidth 32)

/-- `ip` embeds the IPv4 address `a` in the form. -/
def Embeds (form : Form) (a : BitVec 32) : Addr → Prop
  | .v6 x _ => form.range.contains (.v6 x []) = true ∧ form.embedded x = a
  | _ => False

/-! ## The ranges -/

/-- The special-purpose ranges that the predicates of `publicAddr` name, and those of its table. -/
def specialRanges : List Prefix :=
  [ .v4 0 32, .v4 0xffffffff 32, .v4 0x0a000000 8, .v4 0xac100000 12, .v4 0xc0a80000 16,
    .v4 0x7f000000 8, .v4 0xa9fe0000 16, .v4 0xe0000000 4,
    .v6 0 128, .v6 1 128, .v6 (0xfc00#128 <<< 112) 7, .v6 (0xfe80#128 <<< 112) 10, .v6 (0xff00#128 <<< 112) 8,
    .v4 0 8, .v4 0x64400000 10, .v4 0xc0000000 24, .v4 0xc0000200 24, .v4 0xc6120000 15,
    .v4 0xc6336400 24, .v4 0xcb007100 24, .v4 0xf0000000 4,
    .v6 (0x64ff9b#128 <<< 96) 96, .v6 (0x64ff9b0001#128 <<< 80) 48, .v6 (0x20010db8#128 <<< 96) 32,
    .v6 (0x2002#128 <<< 112) 16 ]

namespace Netip

def Addr.withoutZone : Addr → Addr
  | .v6 a _ => .v6 a []
  | ip => ip

end Netip

/-- `ip` is in one of the ranges, in either spelling and with any zone. -/
def special (ip : Addr) : Bool := specialRanges.any (·.contains ip.unmap.withoutZone)

theorem blockedPrefixes_eq : blockedPrefixes =
    [ .v4 0 8, .v4 0x64400000 10, .v4 0xc0000000 24, .v4 0xc0000200 24, .v4 0xc6120000 15,
      .v4 0xc6336400 24, .v4 0xcb007100 24, .v4 0xf0000000 4,
      .v6 (0x64ff9b#128 <<< 96) 96, .v6 (0x64ff9b0001#128 <<< 80) 48, .v6 (0x20010db8#128 <<< 96) 32,
      .v6 (0x2002#128 <<< 112) 16 ] := by
  decide +kernel

theorem xor_shift {w : Nat} (a p : BitVec w) (n : Nat) :
    ((a ^^^ p) >>> n == 0) = (a.toNat / 2 ^ n == p.toNat / 2 ^ n) := by
  rw [BitVec.ushiftRight_xor_distrib, Bool.eq_iff_iff, beq_iff_eq, beq_iff_eq]
  rw [show (0 : BitVec w) = 0#w from rfl, BitVec.xor_eq_zero_iff, ← BitVec.toNat_inj]
  simp only [BitVec.toNat_ushiftRight, Nat.shiftRight_eq_div_pow]

theorem contains_v4 (p : BitVec 32) (bits : Fin 33) (a : BitVec 32) :
    (Prefix.v4 p bits).contains (.v4 a) =
      (a.toNat / 2 ^ (32 - bits.val) == p.toNat / 2 ^ (32 - bits.val)) := xor_shift a p _

theorem contains_v6 (p : BitVec 128) (bits : Fin 129) (x : BitVec 128) (zone : Bytes) :
    (Prefix.v6 p bits).contains (.v6 x zone) =
      (zone == [] && x.toNat / 2 ^ (128 - bits.val) == p.toNat / 2 ^ (128 - bits.val)) := by
  rw [Prefix.contains, xor_shift]

theorem shift_eq {w : Nat} (a c : BitVec w) (n : Nat) :
    (a >>> n == c) = (a.toNat / 2 ^ n == c.toNat) := by
  rw [Bool.eq_iff_iff, beq_iff_eq, beq_iff_eq, ← BitVec.toNat_inj, BitVec.toNat_ushiftRight,
    Nat.shiftRight_eq_div_pow]

theorem v6_contains_v4 (p : BitVec 128) (bits : Fin 129) (a : BitVec 32) :
    (Prefix.v6 p bits).contains (.v4 a) = false := rfl

theorem v4_contains_v6 (p : BitVec 32) (bits : Fin 33) (x : BitVec 128) (zone : Bytes) :
    (Prefix.v4 p bits).contains (.v6 x zone) = false := rfl

theorem publicAddr_v4 (a : BitVec 32) : publicAddr (.v4 a) = !special (.v4 a) := by
  rw [Bool.eq_iff_iff]
  simp [publicAddr, special, specialRanges, blockedPrefixes_eq, Addr.unmap, Addr.withoutZone,
    Addr.isGlobalUnicast, Addr.isPrivate, Addr.isLoopback, Addr.isLinkLocalUnicast,
    Addr.isMulticast, Addr.isUnspecified, Addr.is4, contains_v4, v6_contains_v4, ← BitVec.toNat_inj,
    shift_eq]
  omega

/-! IPv6 addresses by their number. -/

theorem is4In6_iff (x : BitVec 128) (zone : Bytes) :
    (Addr.v6 x zone).is4In6 = true ↔ x.toNat / 2 ^ 32 = 0xffff := by
  simp [Addr.is4In6, shift_eq]

theorem unmap_mapped {x : BitVec 128} (h : x.toNat / 2 ^ 32 = 0xffff) (zone : Bytes) :
    (Addr.v6 x zone).unmap = .v4 (x.setWidth 32) := by
  rw [Addr.unmap, if_pos ((is4In6_iff x zone).mpr h)]

theorem unmap_v6 {x : BitVec 128} (h : x.toNat / 2 ^ 32 ≠ 0xffff) (zone : Bytes) :
    (Addr.v6 x zone).unmap = .v6 x zone := by
  rw [Addr.unmap, if_neg fun mapped => h ((is4In6_iff x zone).mp mapped)]

/-- The ranges of the table that are for IPv6. -/
def Translated (n : Nat) : Prop :=
  n / 2 ^ 32 = 0x64ff9b * 2 ^ 64 ∨ n / 2 ^ 80 = 0x64ff9b0001 ∨ n / 2 ^ 96 = 0x20010db8 ∨
    n / 2 ^ 112 = 0x2002

/-- The IPv6 ranges of the predicates, less the unspecified address. -/
def Internal (n : Nat) : Prop :=
  n = 1 ∨ n / 2 ^ 121 = 0x7e ∨ n / 2 ^ 118 = 0x3fa ∨ n / 2 ^ 120 = 0xff

theorem publicAddr_v6 {x : BitVec 128} (h : x.toNat / 2 ^ 32 ≠ 0xffff) (zone : Bytes) :
    publicAddr (.v6 x zone) = true ↔
      ¬Internal x.toNat ∧ (zone = [] → x.toNat ≠ 0 ∧ ¬Translated x.toNat) := by
  simp [publicAddr, unmap_v6 h, blockedPrefixes_eq, Internal, Translated,
    Addr.isGlobalUnicast, Addr.isPrivate, Addr.isLoopback, Addr.isLinkLocalUnicast,
    Addr.isMulticast, Addr.isUnspecified, Addr.is4, contains_v6, v4_contains_v6, ← BitVec.toNat_inj,
    shift_eq]
  grind

theorem special_v6 {x : BitVec 128} (h : x.toNat / 2 ^ 32 ≠ 0xffff) (zone : Bytes) :
    special (.v6 x zone) = true ↔ Internal x.toNat ∨ x.toNat = 0 ∨ Translated x.toNat := by
  simp [special, specialRanges, unmap_v6 h, Internal, Translated, Addr.withoutZone, contains_v6,
    v4_contains_v6]
  omega

theorem publicAddr_mapped {x : BitVec 128} (h : x.toNat / 2 ^ 32 = 0xffff) (zone : Bytes) :
    publicAddr (.v6 x zone) = !special (.v6 x zone) := by
  have unmapped := unmap_mapped h zone
  have same : special (.v6 x zone) = special (.v4 (x.setWidth 32)) := by
    rw [special, unmapped]
    rfl
  rw [same, ← publicAddr_v4, publicAddr, unmapped]
  rfl

/-! ## What the guard lets through -/

/-- The guard at `ip`: an address that embeds a refused one is refused, and one that is let through is
in none of the special-purpose ranges. -/
def Guarded (ip : Addr) : Prop :=
  (∀ form a, Embeds form a ip → publicAddr (.v4 a) = false → publicAddr ip = false) ∧
    (publicAddr ip = true → special ip = false)

/-- The addresses the guard fails at: an IPv4-compatible or a Teredo address of a special-purpose
IPv4 address, and, with a zone, the unspecified address and the IPv6 ranges of the table. -/
def Unguarded : Addr → Prop
  | .v6 x zone =>
    (Form.compatible.range.contains (.v6 x []) = true ∧ x ≠ 0 ∧ x ≠ 1 ∧
        special (.v4 (Form.compatible.embedded x)) = true) ∨
      (Form.teredo.range.contains (.v6 x []) = true ∧
        special (.v4 (Form.teredo.embedded x)) = true) ∨
      (zone ≠ [] ∧ (x = 0 ∨ blockedPrefixes.any (·.contains (.v6 x [])) = true))
  | _ => False

theorem blocked_v6 (x : BitVec 128) :
    blockedPrefixes.any (·.contains (.v6 x [])) = true ↔ Translated x.toNat := by
  simp [blockedPrefixes_eq, contains_v6, v4_contains_v6, Translated]

/-- Which numbers are in a form's range. -/
def Form.Numbers (n : Nat) : Form → Prop
  | .mapped => n / 2 ^ 32 = 0xffff
  | .compatible => n / 2 ^ 32 = 0
  | .nat64 => n / 2 ^ 32 = 0x64ff9b * 2 ^ 64
  | .nat64Local _ => n / 2 ^ 80 = 0x64ff9b0001
  | .sixToFour => n / 2 ^ 112 = 0x2002
  | .teredo => n / 2 ^ 96 = 0x20010000

theorem Form.range_iff (form : Form) (x : BitVec 128) :
    form.range.contains (.v6 x []) = true ↔ form.Numbers x.toNat := by
  cases form <;> simp [Form.range, Form.Numbers, contains_v6]

theorem guarded_v4 (a : BitVec 32) : Guarded (.v4 a) := by
  constructor
  · rintro form b ⟨⟩
  · rw [publicAddr_v4]
    simp

theorem guarded_mapped {x : BitVec 128} (h : x.toNat / 2 ^ 32 = 0xffff) (zone : Bytes) :
    Guarded (.v6 x zone) := by
  constructor
  · rintro form a ⟨range, rfl⟩ refused
    rw [Form.range_iff] at range
    cases form with
    | mapped =>
      rw [publicAddr, unmap_mapped h]
      exact refused
    | compatible | nat64 | nat64Local | sixToFour | teredo =>
      simp only [Form.Numbers] at range
      omega
  · rw [publicAddr_mapped h]
    simp

theorem guarded_v6 {x : BitVec 128} (h : x.toNat / 2 ^ 32 ≠ 0xffff) {zone : Bytes}
    (fine : ¬Unguarded (.v6 x zone)) : Guarded (.v6 x zone) := by
  simp only [Unguarded, Form.range_iff, blocked_v6, not_or, not_and] at fine
  obtain ⟨compatible, teredo, zoned⟩ := fine
  have unzoned (outside : x.toNat = 0 ∨ Translated x.toNat) : zone = [] := by
    by_contra named
    obtain ⟨nonzero, untranslated⟩ := zoned named
    rcases outside with zero | translated
    · exact nonzero (BitVec.toNat_inj.mp zero)
    · exact untranslated translated
  constructor
  · rintro form a ⟨range, rfl⟩ refused
    rw [Form.range_iff] at range
    rw [publicAddr_v4, Bool.not_eq_false'] at refused
    rw [← Bool.not_eq_true, publicAddr_v6 h]
    rintro ⟨notInternal, notZero⟩
    cases form with
    | mapped => exact h range
    | compatible =>
      by_cases zero : x = 0
      · have zero : x.toNat = 0 := by rw [zero]; rfl
        exact (notZero (unzoned (.inl zero))).1 zero
      · have notOne : x ≠ 1 := by
          rintro rfl
          exact notInternal (.inl rfl)
        exact compatible range zero notOne refused
    | nat64 => exact (notZero (unzoned (.inr (.inl range)))).2 (.inl range)
    | nat64Local => exact (notZero (unzoned (.inr (.inr (.inl range))))).2 (.inr (.inl range))
    | sixToFour => exact (notZero (unzoned (.inr (.inr (.inr (.inr range)))))).2 (.inr (.inr (.inr range)))
    | teredo => exact teredo range refused
  · intro accepted
    obtain ⟨notInternal, notZero⟩ := (publicAddr_v6 h zone).mp accepted
    rw [← Bool.not_eq_true, special_v6 h]
    rintro (internal | outside)
    · exact notInternal internal
    · rcases outside with zero | translated
      · exact (notZero (unzoned (.inl zero))).1 zero
      · exact (notZero (unzoned (.inr translated))).2 translated

theorem not_guarded_v6 {x : BitVec 128} {zone : Bytes} (exposed : Unguarded (.v6 x zone)) :
    ¬Guarded (.v6 x zone) := by
  rintro ⟨refuses, accepts⟩
  simp only [Unguarded, Form.range_iff, blocked_v6] at exposed
  rcases exposed with ⟨range, nonzero, notOne, reserved⟩ | ⟨range, reserved⟩ | ⟨zoned, outside⟩
  · have h : x.toNat / 2 ^ 32 ≠ 0xffff := by simp only [Form.Numbers] at range; omega
    have notZero : x.toNat ≠ 0 := fun zero => nonzero (BitVec.toNat_inj.mp zero)
    have notOne : x.toNat ≠ 1 := fun one => notOne (BitVec.toNat_inj.mp one)
    have accepted : publicAddr (.v6 x zone) = true := by
      rw [publicAddr_v6 h]
      simp only [Form.Numbers, Internal, Translated] at *
      omega
    have refused := refuses .compatible _ ⟨(Form.range_iff _ x).mpr range, rfl⟩
      (by rw [publicAddr_v4, reserved]; rfl)
    simp [accepted] at refused
  · have h : x.toNat / 2 ^ 32 ≠ 0xffff := by simp only [Form.Numbers] at range; omega
    have accepted : publicAddr (.v6 x zone) = true := by
      rw [publicAddr_v6 h]
      simp only [Form.Numbers, Internal, Translated] at *
      omega
    have refused := refuses .teredo _ ⟨(Form.range_iff _ x).mpr range, rfl⟩
      (by rw [publicAddr_v4, reserved]; rfl)
    simp [accepted] at refused
  · have outside : x.toNat = 0 ∨ Translated x.toNat := outside.imp (by rintro rfl; rfl) id
    have h : x.toNat / 2 ^ 32 ≠ 0xffff := by simp only [Translated] at outside; omega
    have accepted : publicAddr (.v6 x zone) = true := by
      rw [publicAddr_v6 h]
      refine ⟨?_, fun unzoned => absurd unzoned zoned⟩
      simp only [Internal, Translated] at *
      omega
    have named : special (.v6 x zone) = true := (special_v6 h zone).mpr (.inr outside)
    simp [named] at accepts
    simp [accepts] at accepted

/-- The guard holds at an address exactly when it is none of those it does not look through. -/
theorem forbidden_unreachable (ip : Addr) : Guarded ip ↔ ¬Unguarded ip := by
  cases ip with
  | zero =>
    refine iff_of_true ⟨?_, ?_⟩ id
    · rintro form b ⟨⟩
    · decide +kernel
  | v4 a => exact iff_of_true (guarded_v4 a) id
  | v6 x zone =>
    by_cases h : x.toNat / 2 ^ 32 = 0xffff
    · refine iff_of_true (guarded_mapped h zone) fun exposed => ?_
      exact not_guarded_v6 exposed (guarded_mapped h zone)
    · exact ⟨fun guarded exposed => not_guarded_v6 exposed guarded, guarded_v6 h⟩

namespace Sample

/-- 10.0.0.1 is not asked, but `::10.0.0.1` and its Teredo address are. -/
theorem compatible_reached :
    dials (utf8 "10.0.0.1") = false ∧ dials (utf8 "64:ff9b::10.0.0.1") = false ∧
      dials (utf8 "::10.0.0.1") = true ∧ dials (utf8 "2001::f5ff:fffe") = true ∧
      Embeds .compatible 0x0a000001 (.v6 0x0a000001 []) ∧
      ¬Guarded (.v6 0x0a000001 []) := by
  have embeds : Embeds .compatible 0x0a000001 (.v6 0x0a000001 []) := by
    constructor <;> decide +kernel
  refine ⟨by decide +kernel, by decide +kernel, by decide +kernel, by decide +kernel, embeds, ?_⟩
  rintro ⟨refuses, -⟩
  have refused := refuses _ _ embeds (by decide +kernel)
  revert refused
  decide +kernel

end Sample

end Shyake.Go
