import Shyake.Go.Std

/-!
# Signatures (`internal/protocol/sig.go`)

The scheme itself is circl's `mldsa65`, which the server only calls: `Mldsa65` is
that package as the server sees it. Around it is base64 as `decodeB64` reads it,
which takes several spellings of one byte string. `StdSpelling` is the one
spelling the client writes, and decoding is injective on it.
-/

namespace Shyake.Go.Protocol

/-- Package `mldsa65`: a key is made from `PublicKeySize` bytes, and a signature is
checked with an empty context. -/
structure Mldsa65 where
  PublicKey : Type
  unmarshalBinary : Bytes → Option PublicKey
  verify : PublicKey → Bytes → Bytes → Bool

def publicKeySize : Nat := 1952
def signatureSize : Nat := 3309

/-! ## base64 -/

/-- The value of a byte of the standard alphabet. -/
def b64Value (c : UInt8) : Option Nat :=
  if isUpper c then some (c.toNat - 65)
  else if isLower c then some (c.toNat - 71)
  else if isDigit c then some (c.toNat + 4)
  else if c = 43 then some 62
  else if c = 47 then some 63
  else none

/-- `base64.RawStdEncoding.DecodeString` of a string without line ends: no padding, and the
unused bits at the end are not checked. -/
def rawStdDecode : Bytes → Option Bytes
  | [] => some []
  | [_] => none
  | [a, b] => do
    let a ← b64Value a
    let b ← b64Value b
    some [UInt8.ofNat (a * 4 + b / 16)]
  | [a, b, c] => do
    let a ← b64Value a
    let b ← b64Value b
    let c ← b64Value c
    some [UInt8.ofNat (a * 4 + b / 16), UInt8.ofNat (b % 16 * 16 + c / 4)]
  | a :: b :: c :: d :: rest => do
    let a ← b64Value a
    let b ← b64Value b
    let c ← b64Value c
    let d ← b64Value d
    let tail ← rawStdDecode rest
    some (UInt8.ofNat (a * 4 + b / 16) :: UInt8.ofNat (b % 16 * 16 + c / 4) ::
      UInt8.ofNat (c % 4 * 64 + d) :: tail)

/-- The mapping of `decodeB64`. A rune outside ASCII stays outside the alphabet, so it is
read byte by byte here. -/
def b64Map (c : UInt8) : Bytes :=
  if c = 32 ∨ c = 9 ∨ c = 10 ∨ c = 13 then []
  else if c = 45 then [43]
  else if c = 95 then [47]
  else [c]

def decodeB64 (s : Bytes) : Option Bytes :=
  rawStdDecode (Bytes.trimRight 61 (s.flatMap b64Map))

def parsePublicKey (M : Mldsa65) (b64 : Bytes) : Option M.PublicKey :=
  match decodeB64 b64 with
  | none => none
  | some raw => if raw.length ≠ publicKeySize then none else M.unmarshalBinary raw

/-- `pk.Verify(msg, sigB64)`. -/
def verify (M : Mldsa65) (pk : M.PublicKey) (msg sigB64 : Bytes) : Bool :=
  match decodeB64 sigB64 with
  | none => false
  | some sig => if sig.length ≠ signatureSize then false else M.verify pk msg sig

def decodeKEMKey (b64 : Bytes) : Option Bytes := decodeB64 b64

/-! ## One spelling -/

/-- Written in the standard alphabet only: no padding, no white space, no URL alphabet. -/
def StdSpelling (s : Bytes) : Prop := ∀ c ∈ s, (b64Value c).isSome = true

instance (s : Bytes) : Decidable (StdSpelling s) := inferInstanceAs (Decidable (∀ c ∈ s, _))

def b64Alphabet : Bytes :=
  utf8 "ABCDEFGHIJKLMNOPQRSTUVWXYZabcdefghijklmnopqrstuvwxyz0123456789+/"

private theorem b64Alphabet_table : ∀ n : Fin 256,
    (b64Value (UInt8.ofNat n)).all (fun v => b64Alphabet[v]? == some (UInt8.ofNat n)) = true := by
  decide +kernel

/-- A value is the position of its byte in the alphabet. -/
theorem b64Alphabet_get {c : UInt8} {v : Nat} (h : b64Value c = some v) :
    b64Alphabet[v]? = some c := by
  have table := b64Alphabet_table ⟨c.toNat, c.toNat_lt⟩
  simpa only [UInt8.ofNat_toNat, h, Option.all_some, beq_iff_eq] using table

theorem b64Value_lt {c : UInt8} {v : Nat} (h : b64Value c = some v) : v < 64 := by
  obtain ⟨lt, -⟩ := List.getElem?_eq_some_iff.mp (b64Alphabet_get h)
  exact lt

/-- The alphabet has one byte for each value. -/
theorem b64Value_injective {c d : UInt8} {v : Nat} (hc : b64Value c = some v)
    (hd : b64Value d = some v) : c = d :=
  Option.some.inj ((b64Alphabet_get hc).symm.trans (b64Alphabet_get hd))

/-- Four characters determine three bytes and the other way round. -/
private theorem quantum_injective {a b c d a' b' c' d' : Nat} (ha : a < 64) (hb : b < 64)
    (hc : c < 64) (hd : d < 64) (ha' : a' < 64) (hb' : b' < 64) (hc' : c' < 64) (hd' : d' < 64)
    (h₁ : UInt8.ofNat (a * 4 + b / 16) = UInt8.ofNat (a' * 4 + b' / 16))
    (h₂ : UInt8.ofNat (b % 16 * 16 + c / 4) = UInt8.ofNat (b' % 16 * 16 + c' / 4))
    (h₃ : UInt8.ofNat (c % 4 * 64 + d) = UInt8.ofNat (c' % 4 * 64 + d')) :
    a = a' ∧ b = b' ∧ c = c' ∧ d = d' := by
  have e₁ := congrArg UInt8.toNat h₁
  have e₂ := congrArg UInt8.toNat h₂
  have e₃ := congrArg UInt8.toNat h₃
  simp only [UInt8.toNat_ofNat'] at e₁ e₂ e₃
  omega

/-- What the decoder does with whole quanta. -/
theorem rawStdDecode_cons {a b c d : UInt8} {rest out : Bytes} :
    rawStdDecode (a :: b :: c :: d :: rest) = some out ↔
      ∃ va vb vc vd tail, b64Value a = some va ∧ b64Value b = some vb ∧ b64Value c = some vc ∧
        b64Value d = some vd ∧ rawStdDecode rest = some tail ∧
        out = UInt8.ofNat (va * 4 + vb / 16) :: UInt8.ofNat (vb % 16 * 16 + vc / 4) ::
          UInt8.ofNat (vc % 4 * 64 + vd) :: tail := by
  simp only [rawStdDecode, Option.bind_eq_bind, Option.bind_eq_some_iff, Option.some.injEq]
  constructor
  · rintro ⟨va, ha, vb, hb, vc, hc, vd, hd, tail, ht, rfl⟩
    exact ⟨va, vb, vc, vd, tail, ha, hb, hc, hd, ht, rfl⟩
  · rintro ⟨va, vb, vc, vd, tail, ha, hb, hc, hd, ht, rfl⟩
    exact ⟨va, ha, vb, hb, vc, hc, vd, hd, tail, ht, rfl⟩

/-- A whole number of three-byte groups comes from a whole number of quanta. -/
theorem length_of_rawStdDecode {s out : Bytes} (h : rawStdDecode s = some out)
    (whole : out.length % 3 = 0) : s.length % 4 = 0 := by
  induction s using rawStdDecode.induct generalizing out with
  | case1 => rfl
  | case2 a => cases h
  | case3 a b =>
    simp only [rawStdDecode, Option.bind_eq_bind, Option.bind_eq_some_iff, Option.some.injEq] at h
    obtain ⟨_, -, _, -, rfl⟩ := h
    cases whole
  | case4 a b c =>
    simp only [rawStdDecode, Option.bind_eq_bind, Option.bind_eq_some_iff, Option.some.injEq] at h
    obtain ⟨_, -, _, -, _, -, rfl⟩ := h
    cases whole
  | case5 a b c d rest ih =>
    obtain ⟨_, _, _, _, tail, -, -, -, -, ht, rfl⟩ := rawStdDecode_cons.mp h
    have := ih ht (by simp only [List.length_cons] at whole; omega)
    simp only [List.length_cons]
    omega

theorem rawStdDecode_injective {s t out : Bytes} (hs : rawStdDecode s = some out)
    (ht : rawStdDecode t = some out) (whole : out.length % 3 = 0) : s = t := by
  have ls := length_of_rawStdDecode hs whole
  have lt := length_of_rawStdDecode ht whole
  induction s using rawStdDecode.induct generalizing t out with
  | case1 =>
    cases hs
    match t, ht with
    | [], _ => rfl
    | _ :: _ :: _ :: _ :: _, ht =>
      obtain ⟨_, _, _, _, _, -, -, -, -, -, e⟩ := rawStdDecode_cons.mp ht
      cases e
  | case2 a => cases ls
  | case3 a b => cases ls
  | case4 a b c => cases ls
  | case5 a b c d rest ih =>
    obtain ⟨va, vb, vc, vd, tail, ha, hb, hc, hd, hr, rfl⟩ := rawStdDecode_cons.mp hs
    match t, ht, lt with
    | [], ht, _ => cases ht
    | a' :: b' :: c' :: d' :: rest', ht, lt =>
      obtain ⟨va', vb', vc', vd', tail', ha', hb', hc', hd', hr', e⟩ := rawStdDecode_cons.mp ht
      simp only [List.cons.injEq] at e
      obtain ⟨e₁, e₂, e₃, rfl⟩ := e
      obtain ⟨rfl, rfl, rfl, rfl⟩ := quantum_injective (b64Value_lt ha) (b64Value_lt hb)
        (b64Value_lt hc) (b64Value_lt hd) (b64Value_lt ha') (b64Value_lt hb') (b64Value_lt hc')
        (b64Value_lt hd') e₁ e₂ e₃
      rw [b64Value_injective ha ha', b64Value_injective hb hb', b64Value_injective hc hc',
        b64Value_injective hd hd']
      have := ih hr hr' (by simp only [List.length_cons] at whole; omega)
        (by simp only [List.length_cons] at ls; omega) (by simp only [List.length_cons] at lt; omega)
      rw [this]

theorem decodeB64_of_stdSpelling {s : Bytes} (h : StdSpelling s) :
    decodeB64 s = rawStdDecode s := by
  have same : s.flatMap b64Map = s := by
    have each : ∀ c ∈ s, b64Map c = [c] := by
      intro c mem
      have some := h c mem
      unfold b64Map
      split
      · rename_i space
        rcases space with rfl | rfl | rfl | rfl <;> cases some
      split
      · rename_i minus
        subst minus; cases some
      split
      · rename_i under
        subst under; cases some
      · rfl
    rw [List.flatMap_congr each, List.flatMap_singleton']
  have noPadding : Bytes.trimRight 61 s = s := by
    refine List.rdropWhile_eq_self_iff.mpr fun ne => ?_
    have some := h _ (List.getLast_mem ne)
    intro last
    rw [beq_iff_eq] at last
    rw [last] at some
    cases some
  rw [decodeB64, same, noPadding]

/-- **One spelling, one signature**: among standard spellings, signatures of the right size
with the same bytes are the same string. -/
theorem decodeB64_injective_of_stdSpelling {s t sig : Bytes} (hs : StdSpelling s)
    (ht : StdSpelling t) (ds : decodeB64 s = some sig) (dt : decodeB64 t = some sig)
    (size : sig.length = signatureSize) : s = t := by
  rw [decodeB64_of_stdSpelling hs] at ds
  rw [decodeB64_of_stdSpelling ht] at dt
  exact rawStdDecode_injective ds dt (by rw [size]; rfl)

/-- Padding is one of the spellings that decode alike. -/
theorem decodeB64_append_pad (s : Bytes) : decodeB64 (s ++ [61]) = decodeB64 s := by
  have map : b64Map 61 = [61] := by decide
  rw [decodeB64, decodeB64, List.flatMap_append, List.flatMap_singleton, map]
  simp [Bytes.trimRight]

end Shyake.Go.Protocol
