import Shyake.Client.CJson
import Shyake.Go.Protocol.Sig

/-!
# base64 in the client (`base64_encode` and `base64_decode` of `libshyake.c`)

Over OpenSSL's `EVP_EncodeBlock` and `EVP_DecodeBlock`, whose lengths are `int`. A
length that does not fit one is cut down to 32 bits on the way in, so data of more
than `maxLength` bytes is not encoded as a whole.
-/

namespace Shyake.Client

open Go.Protocol (b64Value b64Alphabet)

/-- A number as an `int`. -/
def toInt (n : Int) : Int := Int.bmod n (2 ^ 32)

theorem toInt_of_small {n : Nat} (h : n < 2 ^ 31) : toInt n = n := by
  unfold toInt
  exact Int.bmod_eq_of_le (by omega) (by omega)

theorem toInt_lt (n : Nat) : toInt n < 2 ^ 31 := by
  unfold toInt
  rw [Int.bmod_def]
  split <;> omega

/-! ## EVP_EncodeBlock -/

/-- `conv_bin2ascii`. -/
def binToAscii (a : Nat) : UInt8 := b64Alphabet.getD (a % 64) 0

/-- `EVP_EncodeBlock`, of a length that is no negative number. -/
def encodeBlock : Bytes → Bytes
  | a :: b :: c :: rest =>
    let l := a.toNat * 2 ^ 16 + b.toNat * 2 ^ 8 + c.toNat
    binToAscii (l / 2 ^ 18) :: binToAscii (l / 2 ^ 12) :: binToAscii (l / 2 ^ 6) ::
      binToAscii l :: encodeBlock rest
  | [a, b] =>
    let l := a.toNat * 2 ^ 16 + b.toNat * 2 ^ 8
    [binToAscii (l / 2 ^ 18), binToAscii (l / 2 ^ 12), binToAscii (l / 2 ^ 6), 61]
  | [a] =>
    let l := a.toNat * 2 ^ 16
    [binToAscii (l / 2 ^ 18), binToAscii (l / 2 ^ 12), 61, 61]
  | [] => []

/-! ## EVP_DecodeBlock -/

/-- `conv_ascii2bin` of a character that is no white space; padding counts as zero. -/
def asciiToBin (c : UInt8) : Option Nat := if c = 61 then some 0 else b64Value c

/-- The loop over the quanta. -/
def decodeQuanta : Bytes → Option Bytes
  | [] => some []
  | a :: b :: c :: d :: rest => do
    let a ← asciiToBin a
    let b ← asciiToBin b
    let c ← asciiToBin c
    let d ← asciiToBin d
    let l := a * 2 ^ 18 + b * 2 ^ 12 + c * 2 ^ 6 + d
    let tail ← decodeQuanta rest
    some (UInt8.ofNat (l / 2 ^ 16) :: UInt8.ofNat (l / 2 ^ 8) :: UInt8.ofNat l :: tail)
  | _ => none

/-- White space at the end, of a text that is given backwards; three characters stay. -/
def stripBack : Bytes → Bytes
  | [] => []
  | c :: cs =>
    if 3 ≤ cs.length ∧ (c = 32 ∨ c = 9 ∨ c = 10 ∨ c = 13 ∨ c = 45) then stripBack cs else c :: cs

/-- `EVP_DecodeBlock`; `none` is -1. -/
def decodeBlock (f : Bytes) : Option Bytes :=
  decodeQuanta (stripBack (f.dropWhile fun c => c == 32 || c == 9).reverse).reverse

/-! ## base64_encode and base64_decode -/

/-- The size of the buffer is an `int`, and so is the length that is encoded. `none` is NULL, or a
buffer that is too small for what is written. -/
def base64Encode (data : Bytes) : Option Bytes :=
  let outLen := toInt (4 * ((data.length + 2) / 3) : Nat)
  if outLen < 0 then none
  else
    let out := encodeBlock (data.take (toInt data.length).toNat)
    if out.length ≤ outLen then some out else none

/-- The longest data whose encoded length fits an `int`. -/
def maxLength : Nat := 1610612733

/-- How many bytes the padding stands for, by the last characters or by what is missing. -/
def padding (b64 : Bytes) : Nat :=
  match b64.reverse with
  | 61 :: 61 :: _ => 2
  | 61 :: _ => 1
  | _ => if b64.length % 4 = 2 then 2 else if b64.length % 4 = 3 then 1 else 0

/-- Line ends and spaces at the end do not count. -/
def strip (b64 : Bytes) : Bytes := b64.rdropWhile fun c => c == 13 || c == 10 || c == 32

/-- The URL alphabet is taken for the standard one. -/
def standard (c : UInt8) : UInt8 := if c = 45 then 43 else if c = 95 then 47 else c

/-- The decoded buffer, and the length that is reported for it. A length below zero becomes a huge
`usize`. Of a text whose own length comes out below zero, `EVP_DecodeBlock` looks at no more than
whether it is a multiple of four. -/
def base64Decode (b64 : Bytes) : Option (Bytes × Int) :=
  let b64 := strip b64
  let n := toInt b64.length
  if n < 0 ∧ n % 4 ≠ 0 then none
  else (decodeBlock ((b64.map standard).take n.toNat)).map fun out =>
    (out, out.length - padding b64)

/-! ## Round trip -/

theorem b64Value_binToAscii (a : Nat) : b64Value (binToAscii a) = some (a % 64) := by
  have table : ∀ n : Fin 64, b64Value (b64Alphabet.getD n 0) = some n.val := by decide +kernel
  exact table ⟨a % 64, Nat.mod_lt _ (by omega)⟩

theorem asciiToBin_binToAscii (a : Nat) : asciiToBin (binToAscii a) = some (a % 64) := by
  have value := b64Value_binToAscii a
  unfold asciiToBin
  split
  · rename_i pad
    rw [pad] at value
    cases value
  · exact value

/-- How many bytes are missing in the last group. -/
def missing (data : Bytes) : Nat := (3 - data.length % 3) % 3

theorem decodeQuanta_encodeBlock (data : Bytes) :
    decodeQuanta (encodeBlock data) = some (data ++ List.replicate (missing data) 0) := by
  have byte (c : UInt8) : c.toNat < 256 := c.toNat_lt
  have back (n : Nat) (c : UInt8) (h : n % 256 = c.toNat) : UInt8.ofNat n = c := by
    rw [← UInt8.ofNat_toNat (x := c), ← h]
    exact (UInt8.ofNat_mod_size).symm
  have pad : asciiToBin 61 = some 0 := rfl
  induction data using encodeBlock.induct with
  | case1 a b c rest ih =>
    have ha := byte a
    have hb := byte b
    have hc := byte c
    simp only [encodeBlock, decodeQuanta, asciiToBin_binToAscii, Option.bind_eq_bind,
      Option.bind_some, ih]
    have same : missing (a :: b :: c :: rest) = missing rest := by
      unfold missing
      simp only [List.length_cons]
      omega
    rw [same, back _ a (by omega), back _ b (by omega), back _ c (by omega)]
    rfl
  | case2 a b =>
    have ha := byte a
    have hb := byte b
    simp only [encodeBlock, decodeQuanta, asciiToBin_binToAscii, pad, Option.bind_eq_bind,
      Option.bind_some]
    rw [back _ a (by omega), back _ b (by omega), back _ 0 (by rw [UInt8.toNat_zero]; omega)]
    rfl
  | case3 a =>
    have ha := byte a
    simp only [encodeBlock, decodeQuanta, asciiToBin_binToAscii, pad, Option.bind_eq_bind,
      Option.bind_some]
    rw [back _ a (by omega), back _ 0 (by rw [UInt8.toNat_zero]; omega),
      back _ 0 (by rw [UInt8.toNat_zero]; omega)]
    rfl
  | case4 => rfl

/-- What an encoded text is made of: digits, then padding. -/
theorem encodeBlock_eq (data : Bytes) : ∃ s, (∀ c ∈ s, (b64Value c).isSome = true) ∧
    encodeBlock data = s ++ List.replicate (missing data) 61 ∧ (data ≠ [] → s ≠ []) := by
  have digit (a : Nat) : (b64Value (binToAscii a)).isSome = true := by
    rw [b64Value_binToAscii]
    rfl
  induction data using encodeBlock.induct with
  | case1 a b c rest ih =>
    obtain ⟨s, digits, made, -⟩ := ih
    have same : missing (a :: b :: c :: rest) = missing rest := by
      unfold missing
      simp only [List.length_cons]
      omega
    let l := a.toNat * 2 ^ 16 + b.toNat * 2 ^ 8 + c.toNat
    refine ⟨binToAscii (l / 2 ^ 18) :: binToAscii (l / 2 ^ 12) :: binToAscii (l / 2 ^ 6) ::
      binToAscii l :: s, ?_, ?_, fun _ => List.cons_ne_nil _ _⟩
    · simp only [List.mem_cons]
      rintro c (rfl | rfl | rfl | rfl | mem)
      · exact digit _
      · exact digit _
      · exact digit _
      · exact digit _
      · exact digits c mem
    · rw [same, encodeBlock, made]
      rfl
  | case2 a b =>
    let l := a.toNat * 2 ^ 16 + b.toNat * 2 ^ 8
    refine ⟨[binToAscii (l / 2 ^ 18), binToAscii (l / 2 ^ 12), binToAscii (l / 2 ^ 6)], ?_, rfl,
      fun _ => List.cons_ne_nil _ _⟩
    simp only [List.mem_cons, List.not_mem_nil, or_false]
    rintro c (rfl | rfl | rfl) <;> exact digit _
  | case3 a =>
    let l := a.toNat * 2 ^ 16
    refine ⟨[binToAscii (l / 2 ^ 18), binToAscii (l / 2 ^ 12)], ?_, rfl,
      fun _ => List.cons_ne_nil _ _⟩
    simp only [List.mem_cons, List.not_mem_nil, or_false]
    rintro c (rfl | rfl) <;> exact digit _
  | case4 => exact ⟨[], by simp, rfl, fun ne => absurd rfl ne⟩

theorem length_encodeBlock (data : Bytes) :
    (encodeBlock data).length = 4 * ((data.length + 2) / 3) := by
  induction data using encodeBlock.induct with
  | case1 a b c rest ih =>
    simp only [encodeBlock, List.length_cons, ih]
    omega
  | case2 a b => simp [encodeBlock]
  | case3 a => simp [encodeBlock]
  | case4 => rfl

/-- A digit or padding is none of the characters that are skipped or replaced. -/
theorem plain_of_encoded {c : UInt8} (h : (b64Value c).isSome = true ∨ c = 61) :
    c ≠ 32 ∧ c ≠ 9 ∧ c ≠ 10 ∧ c ≠ 13 ∧ c ≠ 45 ∧ c ≠ 95 := by
  refine ⟨?_, ?_, ?_, ?_, ?_, ?_⟩ <;>
    · rintro rfl
      rcases h with value | pad
      · cases value
      · cases pad

theorem encoded_of_mem {data : Bytes} {c : UInt8} (mem : c ∈ encodeBlock data) :
    (b64Value c).isSome = true ∨ c = 61 := by
  obtain ⟨s, digits, made, -⟩ := encodeBlock_eq data
  rw [made] at mem
  rcases List.mem_append.mp mem with here | pad
  · exact .inl (digits c here)
  · exact .inr (List.eq_of_mem_replicate pad)

theorem decodeBlock_encodeBlock (data : Bytes) :
    decodeBlock (encodeBlock data) = some (data ++ List.replicate (missing data) 0) := by
  have front : (encodeBlock data).dropWhile (fun c => c == 32 || c == 9) = encodeBlock data := by
    cases h : encodeBlock data with
    | nil => rfl
    | cons c cs =>
      obtain ⟨space, tab, -⟩ := plain_of_encoded (encoded_of_mem
        (show c ∈ encodeBlock data by rw [h]; exact List.mem_cons_self))
      exact List.dropWhile_cons_of_neg (by simp [space, tab])
  have back : stripBack (encodeBlock data).reverse = (encodeBlock data).reverse := by
    cases h : (encodeBlock data).reverse with
    | nil => rfl
    | cons c cs =>
      have mem : c ∈ encodeBlock data := by
        rw [← List.mem_reverse, h]
        exact List.mem_cons_self
      obtain ⟨h₁, h₂, h₃, h₄, h₅, -⟩ := plain_of_encoded (encoded_of_mem mem)
      unfold stripBack
      rw [if_neg (by simp [h₁, h₂, h₃, h₄, h₅])]
  unfold decodeBlock
  rw [front, back, List.reverse_reverse, decodeQuanta_encodeBlock]

theorem padding_encodeBlock (data : Bytes) : padding (encodeBlock data) = missing data := by
  obtain ⟨s, digits, made, nonempty⟩ := encodeBlock_eq data
  have length := length_encodeBlock data
  have few : missing data < 3 := Nat.mod_lt _ (by omega)
  cases data with
  | nil => rfl
  | cons x xs =>
    obtain ⟨t, last, rfl⟩ : ∃ t last, s = t ++ [last] :=
      ⟨s.dropLast, s.getLast (nonempty (List.cons_ne_nil _ _)),
        (List.dropLast_append_getLast _).symm⟩
    have digit : last ≠ 61 := by
      rintro rfl
      have value := digits 61 (by simp)
      cases value
    match missing (x :: xs), few, made with
    | 0, _, made =>
      have back : (encodeBlock (x :: xs)).reverse = last :: t.reverse := by
        rw [made]
        simp
      unfold padding
      rw [length, back]
      split
      · rename_i h
        exact absurd (List.cons.inj h).1 digit
      · rename_i h
        exact absurd (List.cons.inj h).1 digit
      · rw [if_neg (by omega), if_neg (by omega)]
    | 1, _, made =>
      unfold padding
      rw [made]
      simp [List.replicate, digit]
    | 2, _, made =>
      unfold padding
      rw [made]
      simp [List.replicate]

theorem base64Encode_of_small {data : Bytes} (h : data.length ≤ maxLength) :
    base64Encode data = some (encodeBlock data) := by
  unfold maxLength at h
  unfold base64Encode
  rw [toInt_of_small (n := 4 * ((data.length + 2) / 3)) (by omega),
    toInt_of_small (n := data.length) (by omega), Int.toNat_natCast, List.take_length]
  simp only [length_encodeBlock]
  rw [if_neg (by omega), if_pos (by omega)]

theorem base64Encode_eq {data b64 : Bytes} (encoded : base64Encode data = some b64) :
    ∃ n, b64 = encodeBlock (data.take n) := by
  unfold base64Encode at encoded
  simp only at encoded
  split at encoded
  · cases encoded
  · split at encoded
    · exact ⟨_, (Option.some.inj encoded).symm⟩
    · cases encoded

/-- Longer data is not encoded, or only a part of it is. -/
theorem base64Encode_of_large {data b64 : Bytes} (h : maxLength < data.length)
    (encoded : base64Encode data = some b64) :
    ∃ n, n ≤ maxLength ∧ b64 = encodeBlock (data.take n) := by
  unfold maxLength at h
  unfold base64Encode at encoded
  simp only [length_encodeBlock, List.length_take] at encoded
  have outLen := toInt_lt (4 * ((data.length + 2) / 3))
  generalize toInt (4 * ((data.length + 2) / 3) : Nat) = outLen at encoded outLen
  generalize (toInt data.length).toNat = n at encoded
  split at encoded
  · cases encoded
  · split at encoded
    · rename_i fits
      cases encoded
      rcases le_total n data.length with le | le
      · refine ⟨n, ?_, rfl⟩
        unfold maxLength
        omega
      · exfalso
        omega
    · cases encoded

/-- Nothing is stripped from an encoded text, and no character is replaced. -/
theorem strip_encodeBlock (data : Bytes) : strip (encodeBlock data) = encodeBlock data := by
  unfold strip
  rw [List.rdropWhile_eq_self_iff]
  intro nonempty stripped
  obtain ⟨h₁, -, h₂, h₃, -⟩ := plain_of_encoded (encoded_of_mem (List.getLast_mem nonempty))
  simp [h₁, h₂, h₃] at stripped

theorem standard_encodeBlock (data : Bytes) :
    (encodeBlock data).map standard = encodeBlock data := by
  conv_rhs => rw [← List.map_id (encodeBlock data)]
  refine List.map_congr_left fun c mem => ?_
  obtain ⟨-, -, -, -, h₁, h₂⟩ := plain_of_encoded (encoded_of_mem mem)
  unfold standard
  rw [if_neg h₁, if_neg h₂, id]

theorem length_encodeBlock_of_small {data : Bytes} (h : data.length ≤ maxLength) :
    (encodeBlock data).length < 2 ^ 31 := by
  rw [length_encodeBlock]
  unfold maxLength at h
  omega

theorem base64Decode_encodeBlock {data : Bytes} (h : data.length ≤ maxLength) :
    base64Decode (encodeBlock data) =
      some (data ++ List.replicate (missing data) 0, (data.length : Int)) := by
  have length : ((data ++ List.replicate (missing data) 0).length : Int) - missing data =
      data.length := by
    simp
  unfold base64Decode
  simp only [strip_encodeBlock, standard_encodeBlock]
  rw [toInt_of_small (length_encodeBlock_of_small h), if_neg (by omega), Int.toNat_natCast,
    List.take_length, decodeBlock_encodeBlock, padding_encodeBlock, Option.map_some, length]

end Shyake.Client
