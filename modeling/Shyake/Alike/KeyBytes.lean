import Shyake.Client.Decoded
import Shyake.Go.Api.Accepting

/-!
# The bytes of a key, on the server and in the client

The server reads a key without its white space and without the padding at its end. The
client's decoder skips white space only around the digits, and wants whole groups of
four characters; so it reads the same key from one run of digits with one "=" after it.
-/

namespace Shyake.Alike

open Client (strip standard toInt base64Decode decodeBlock decodeQuanta stripBack padding isDigit64
  isAround asciiToBin)
open Go (validKEM kemPubkeySize)
open Go.Protocol (b64Value b64Map rawStdDecode decodeB64 decodeKEMKey)

/-- The part of a text that `EVP_DecodeBlock` is given. -/
def given (b64 : Bytes) : Bytes := (strip b64).take (toInt (strip b64).length).toNat

/-- One run of the 1579 digits of a key, one "=" after it, and white space around it, of which there
is at the front as much as the client's padding allows. -/
structure OneRun (b64 : Bytes) : Prop where
  run : ∃ pre key post, given b64 = pre ++ (key ++ [61]) ++ post ∧ (∀ c ∈ pre, c = 32 ∨ c = 9) ∧
    (∀ c ∈ key, isDigit64 c = true) ∧ key.length = 1579 ∧
    ∀ c ∈ post, c = 32 ∨ c = 9 ∨ c = 10 ∨ c = 13
  padded : padding (strip b64) = 1

/-- The client decodes the key that the server has decoded, and signs its fingerprint. -/
def SameKey (b64 : Bytes) : Prop :=
  ∃ raw out, decodeKEMKey b64 = some raw ∧ base64Decode b64 = some (out, (kemPubkeySize : Int)) ∧
    out.take kemPubkeySize = raw ∧
    Go.hexEncode (Lib.sha256 (out.take kemPubkeySize)) = Go.fingerprint b64

/-! ## Without white space -/

def isSpace (c : UInt8) : Bool := c == 32 || c == 9 || c == 10 || c == 13

/-- What the server's mapping leaves. -/
def clean (s : Bytes) : Bytes := (s.filter fun c => !isSpace c).map standard

private theorem clean_table : ∀ n : Fin 256, b64Map (UInt8.ofNat n) = clean [UInt8.ofNat n] := by
  decide +kernel

theorem flatMap_b64Map (s : Bytes) : s.flatMap b64Map = clean s := by
  induction s with
  | nil => rfl
  | cons c cs ih =>
    have here : b64Map c = clean [c] := by
      have table := clean_table ⟨c.toNat, c.toNat_lt⟩
      simpa only [UInt8.ofNat_toNat] using table
    rw [List.flatMap_cons, ih, here]
    unfold clean
    rw [← List.map_append, ← List.filter_append]
    rfl

theorem clean_append (s t : Bytes) : clean (s ++ t) = clean s ++ clean t := by
  unfold clean
  rw [List.filter_append, List.map_append]

theorem clean_spaces {s : Bytes} (all : ∀ c ∈ s, isSpace c = true) : clean s = [] := by
  have none_ : s.filter (fun c => !isSpace c) = [] := by
    rw [List.filter_eq_nil_iff]
    intro c mem
    simp [all c mem]
  unfold clean
  rw [none_]
  rfl

theorem clean_plain {s : Bytes} (all : ∀ c ∈ s, isSpace c = false) : clean s = s.map standard := by
  unfold clean
  rw [List.filter_eq_self.mpr fun c mem => by simp [all c mem]]

private theorem spaces_table : ∀ n : Fin 256,
    (isSpace (UInt8.ofNat n) = true → isDigit64 (UInt8.ofNat n) = false ∧ UInt8.ofNat n ≠ 61) ∧
      isSpace (standard (UInt8.ofNat n)) = isSpace (UInt8.ofNat n) ∧
      (standard (UInt8.ofNat n) = 61 ↔ UInt8.ofNat n = 61) ∧ standard (UInt8.ofNat n) ≠ 45 := by
  decide +kernel

theorem spaces (c : UInt8) : (isSpace c = true → isDigit64 c = false ∧ c ≠ 61) ∧
    isSpace (standard c) = isSpace c ∧ (standard c = 61 ↔ c = 61) ∧ standard c ≠ 45 := by
  have table := spaces_table ⟨c.toNat, c.toNat_lt⟩
  simpa only [UInt8.ofNat_toNat] using table

theorem isSpace_standard_eq {c : UInt8} (h : isSpace c = true) : standard c = c := by
  unfold isSpace at h
  simp only [Bool.or_eq_true, beq_iff_eq] at h
  rcases h with ((rfl | rfl) | rfl) | rfl <;> rfl

theorem map_spaces {s : Bytes} (all : ∀ c ∈ s, isSpace c = true) : s.map standard = s := by
  conv_rhs => rw [← List.map_id s]
  exact List.map_congr_left fun c mem => isSpace_standard_eq (all c mem)

/-! ## What the server decodes -/

theorem length_rawStdDecode {s out : Bytes} (h : rawStdDecode s = some out) :
    out.length = 3 * s.length / 4 ∧ s.length % 4 ≠ 1 ∧ ∀ c ∈ s, (b64Value c).isSome = true := by
  induction s using Go.Protocol.rawStdDecode.induct generalizing out with
  | case1 =>
    cases h
    exact ⟨rfl, by decide, List.forall_mem_nil _⟩
  | case2 a => cases h
  | case3 a b =>
    simp only [rawStdDecode, Option.bind_eq_bind, Option.bind_eq_some_iff, Option.some.injEq] at h
    obtain ⟨va, ha, vb, hb, rfl⟩ := h
    refine ⟨by simp, by simp, ?_⟩
    simp [ha, hb]
  | case4 a b c =>
    simp only [rawStdDecode, Option.bind_eq_bind, Option.bind_eq_some_iff, Option.some.injEq] at h
    obtain ⟨va, ha, vb, hb, vc, hc, rfl⟩ := h
    refine ⟨by simp, by simp, ?_⟩
    simp [ha, hb, hc]
  | case5 a b c d rest ih =>
    obtain ⟨va, vb, vc, vd, tail, ha, hb, hc, hd, ht, rfl⟩ := Go.Protocol.rawStdDecode_cons.mp h
    obtain ⟨length, whole, values⟩ := ih ht
    refine ⟨?_, ?_, ?_⟩
    · simp only [List.length_cons, length]
      omega
    · simp only [List.length_cons]
      omega
    · simp only [List.mem_cons]
      rintro x (rfl | rfl | rfl | rfl | mem)
      · rw [ha]
        rfl
      · rw [hb]
        rfl
      · rw [hc]
        rfl
      · rw [hd]
        rfl
      · exact values x mem

/-- An accepted key is 1579 digits, then padding, when its white space is left out. -/
theorem clean_of_valid {s : Bytes} (accepted : validKEM s = true) :
    ∃ key k raw, clean s = key ++ List.replicate k 61 ∧ rawStdDecode key = some raw ∧
      decodeKEMKey s = some raw ∧ raw.length = 1184 ∧ key.length = 1579 := by
  unfold validKEM at accepted
  split at accepted
  · cases accepted
  rename_i raw decoded
  have length : raw.length = 1184 := by simpa [kemPubkeySize] using accepted
  have made : rawStdDecode (Bytes.trimRight 61 (clean s)) = some raw := by
    rw [← flatMap_b64Map]
    exact decoded
  obtain ⟨size, rest, -⟩ := length_rawStdDecode made
  have pads : ∃ k, (clean s).rtakeWhile (· == 61) = List.replicate k 61 :=
    ⟨_, List.eq_replicate_of_mem fun c mem => by simpa using List.mem_rtakeWhile_imp mem⟩
  obtain ⟨k, pads⟩ := pads
  refine ⟨_, k, raw, ?_, made, decoded, length, by omega⟩
  unfold Bytes.trimRight
  rw [← pads, List.rdropWhile_append_rtakeWhile]

/-! ## What the client decodes -/

/-- The digits of a key with one "=" after them. -/
theorem decodeQuanta_pad {key raw : Bytes} (h : rawStdDecode key = some raw)
    (three : key.length % 4 = 3) : ∃ x, decodeQuanta (key ++ [61]) = some (raw ++ [x]) := by
  have digit {c : UInt8} {v : Nat} (h : b64Value c = some v) : asciiToBin c = some v := by
    unfold asciiToBin
    split
    · rename_i pad
      rw [pad] at h
      cases h
    · exact h
  have pad : asciiToBin 61 = some 0 := rfl
  have same {n m : Nat} (h : n % 256 = m % 256) : UInt8.ofNat n = UInt8.ofNat m := by
    rw [← UInt8.ofNat_mod_size (x := n), ← UInt8.ofNat_mod_size (x := m)]
    exact congrArg _ h
  induction key using Go.Protocol.rawStdDecode.induct generalizing raw with
  | case1 => cases three
  | case2 a => cases three
  | case3 a b => cases three
  | case4 a b c =>
    simp only [rawStdDecode, Option.bind_eq_bind, Option.bind_eq_some_iff, Option.some.injEq] at h
    obtain ⟨va, ha, vb, hb, vc, hc, rfl⟩ := h
    have la := Go.Protocol.b64Value_lt ha
    have lb := Go.Protocol.b64Value_lt hb
    have lc := Go.Protocol.b64Value_lt hc
    refine ⟨UInt8.ofNat (va * 2 ^ 18 + vb * 2 ^ 12 + vc * 2 ^ 6 + 0), ?_⟩
    simp only [List.cons_append, List.nil_append, decodeQuanta, digit ha, digit hb, digit hc, pad,
      Option.bind_eq_bind, Option.bind_some]
    rw [same (show (va * 2 ^ 18 + vb * 2 ^ 12 + vc * 2 ^ 6 + 0) / 2 ^ 16 % 256 =
        (va * 4 + vb / 16) % 256 by omega),
      same (show (va * 2 ^ 18 + vb * 2 ^ 12 + vc * 2 ^ 6 + 0) / 2 ^ 8 % 256 =
        (vb % 16 * 16 + vc / 4) % 256 by omega)]
  | case5 a b c d rest ih =>
    obtain ⟨va, vb, vc, vd, tail, ha, hb, hc, hd, ht, rfl⟩ := Go.Protocol.rawStdDecode_cons.mp h
    have la := Go.Protocol.b64Value_lt ha
    have lb := Go.Protocol.b64Value_lt hb
    have lc := Go.Protocol.b64Value_lt hc
    have ld := Go.Protocol.b64Value_lt hd
    obtain ⟨x, decoded⟩ := ih ht (by simp only [List.length_cons] at three; omega)
    refine ⟨x, ?_⟩
    simp only [List.cons_append, decodeQuanta, digit ha, digit hb, digit hc, digit hd, decoded,
      Option.bind_eq_bind, Option.bind_some]
    rw [same (show (va * 2 ^ 18 + vb * 2 ^ 12 + vc * 2 ^ 6 + vd) / 2 ^ 16 % 256 =
        (va * 4 + vb / 16) % 256 by omega),
      same (show (va * 2 ^ 18 + vb * 2 ^ 12 + vc * 2 ^ 6 + vd) / 2 ^ 8 % 256 =
        (vb % 16 * 16 + vc / 4) % 256 by omega),
      same (show (va * 2 ^ 18 + vb * 2 ^ 12 + vc * 2 ^ 6 + vd) % 256 =
        (vc % 4 * 64 + vd) % 256 by omega)]

theorem stripBack_around {post core : Bytes} (spaces : ∀ c ∈ post, isAround c)
    (long : 3 ≤ core.length) (last : ∀ c, core.head? = some c → ¬ isAround c) :
    stripBack (post ++ core) = core := by
  induction post with
  | nil =>
    cases core with
    | nil => rfl
    | cons c cs =>
      rw [List.nil_append]
      exact if_neg fun h => last c rfl h.2
  | cons c cs ih =>
    have length : 3 ≤ (cs ++ core).length := by
      rw [List.length_append]
      omega
    exact (if_pos ⟨length, spaces c List.mem_cons_self⟩).trans
      (ih fun x mem => spaces x (List.mem_cons_of_mem _ mem))

/-- White space around the quanta does not count. -/
theorem decodeBlock_around {pre core post : Bytes} (front : ∀ c ∈ pre, c = 32 ∨ c = 9)
    (back : ∀ c ∈ post, isAround c) (long : 3 ≤ core.length) (plain : ∀ c ∈ core, ¬ isAround c) :
    decodeBlock (pre ++ core ++ post) = decodeQuanta core := by
  have skipped : (pre ++ core ++ post).dropWhile (fun c => c == 32 || c == 9) = core ++ post := by
    rw [List.append_assoc, List.dropWhile_append_of_pos (fun c mem => by simpa using front c mem)]
    cases core with
    | nil => cases long
    | cons c cs =>
      have other := plain c List.mem_cons_self
      unfold isAround at other
      simp only [not_or] at other
      exact List.dropWhile_cons_of_neg (by simp [other.1, other.2.1])
  have trimmed : stripBack (core ++ post).reverse = core.reverse := by
    rw [List.reverse_append]
    refine stripBack_around (fun c mem => back c (List.mem_reverse.mp mem)) (by simpa using long) ?_
    intro c first
    exact plain c (List.mem_reverse.mp (List.mem_of_mem_head? first))
  unfold decodeBlock
  rw [skipped, trimmed, List.reverse_reverse]

/-- The given part is the front of the text. -/
theorem given_prefix (b64 : Bytes) : ∃ rest, b64 = given b64 ++ rest := by
  obtain ⟨t, made⟩ := List.rdropWhile_prefix (fun c : UInt8 => c == 13 || c == 10 || c == 32)
    (l := b64)
  refine ⟨(strip b64).drop (toInt (strip b64).length).toNat ++ t, ?_⟩
  unfold given
  rw [← List.append_assoc, List.take_append_drop]
  exact made.symm

/-- What `base64_decode` does with a text that it decodes. -/
theorem base64Decode_iff {b64 out : Bytes} {len : Int} :
    base64Decode b64 = some (out, len) ↔
      ¬ (toInt (strip b64).length < 0 ∧ toInt (strip b64).length % 4 ≠ 0) ∧
        decodeBlock ((given b64).map standard) = some out ∧
        len = out.length - padding (strip b64) := by
  unfold base64Decode given
  dsimp only
  rw [List.map_take]
  split
  · rename_i bad
    exact iff_of_false nofun fun h => h.1 bad
  · rename_i good
    rw [Option.map_eq_some_iff]
    constructor
    · rintro ⟨out', decoded, same⟩
      obtain ⟨rfl, rfl⟩ := Prod.mk.inj same
      exact ⟨good, decoded, rfl⟩
    · rintro ⟨-, decoded, rfl⟩
      exact ⟨out, decoded, rfl⟩

/-! ## The same key -/

private theorem decoded_table : ∀ n : Fin 256, (asciiToBin (UInt8.ofNat n)).isSome = true →
    isSpace (UInt8.ofNat n) = false ∧ ¬ isAround (UInt8.ofNat n) := by
  unfold isAround
  decide +kernel

/-- A character that is decoded is no white space. -/
theorem plain_of_decoded {c : UInt8} (h : (asciiToBin c).isSome = true) :
    isSpace c = false ∧ ¬ isAround c := by
  have table := decoded_table ⟨c.toNat, c.toNat_lt⟩
  rw [UInt8.ofNat_toNat] at table
  exact table h

/-- The digits that the server keeps, when the client decodes one run of so many characters. -/
theorem run_of_clean {s core rest : Bytes} (accepted : validKEM s = true)
    (made : clean s = core ++ rest) (long : core.length = 1580) :
    ∃ key raw, core = key ++ [61] ∧ rawStdDecode key = some raw ∧ decodeKEMKey s = some raw ∧
      raw.length = 1184 ∧ key.length = 1579 := by
  obtain ⟨key, k, raw, cleaned, decoded, server, size, digits⟩ := clean_of_valid accepted
  have both : core ++ rest = key ++ List.replicate k 61 := made.symm.trans cleaned
  have lengths := congrArg List.length both
  simp only [List.length_append, List.length_replicate] at lengths
  obtain ⟨j, rfl⟩ : ∃ j, k = j + 1 := ⟨k - 1, by omega⟩
  rw [List.replicate_succ, List.append_cons key 61] at both
  obtain ⟨same, -⟩ := List.append_inj both (by simp [long, digits])
  exact ⟨key, raw, same, decoded, server, size, digits⟩

/-- A text that the client decodes to as many bytes as a key has is one run. -/
theorem oneRun_of_decoded {s out : Bytes} (accepted : validKEM s = true)
    (decoded : base64Decode s = some (out, (kemPubkeySize : Int))) : OneRun s := by
  obtain ⟨-, block, len⟩ := base64Decode_iff.mp decoded
  obtain ⟨pre, core, post, made, front, back, quanta⟩ := Client.decodeBlock_spec block
  obtain ⟨whole, length, values⟩ := Client.length_decodeQuanta quanta
  have few := Client.padding_le (strip s)
  have size : (kemPubkeySize : Int) = 1184 := rfl
  have long : core.length = 1580 := by omega
  obtain ⟨ab, c, split, hab, rfl⟩ := List.map_eq_append_iff.mp made
  obtain ⟨a, b, rfl, rfl, rfl⟩ := List.map_eq_append_iff.mp hab
  have spaceA : ∀ x ∈ a, x = 32 ∨ x = 9 := by
    intro x mem
    have mapped := front (standard x) (List.mem_map_of_mem mem)
    have space : isSpace x = true := by
      rw [← (spaces x).2.1]
      rcases mapped with same | same
      · rw [same]
        rfl
      · rw [same]
        rfl
    rwa [isSpace_standard_eq space] at mapped
  have spaceC : ∀ x ∈ c, isSpace x = true := by
    intro x mem
    rw [← (spaces x).2.1]
    rcases back (standard x) (List.mem_map_of_mem mem) with same | same | same | same | same
    · rw [same]
      rfl
    · rw [same]
      rfl
    · rw [same]
      rfl
    · rw [same]
      rfl
    · exact absurd same (spaces x).2.2.2
  have plainB : ∀ x ∈ b, isSpace x = false := by
    intro x mem
    rw [← (spaces x).2.1]
    exact (plain_of_decoded (values _ (List.mem_map_of_mem mem))).1
  obtain ⟨rest, front_⟩ := given_prefix s
  have cleaned : clean s = b.map standard ++ clean rest := by
    have noneA : clean a = [] := clean_spaces fun x mem => by
      rcases spaceA x mem with rfl | rfl <;> rfl
    conv_lhs => rw [front_, split]
    rw [clean_append, clean_append, clean_append, noneA, clean_spaces spaceC, clean_plain plainB]
    simp
  obtain ⟨key', raw, same, server, -, -, digits⟩ := run_of_clean accepted cleaned long
  obtain ⟨key, last, rfl, rfl, hlast⟩ := List.map_eq_append_iff.mp same
  obtain ⟨x, rfl, pad⟩ := List.map_eq_singleton_iff.mp hlast
  obtain rfl := (spaces x).2.2.1.mp pad
  refine ⟨⟨a, key, c, split, spaceA, ?_, by simpa using digits, ?_⟩, by omega⟩
  · intro x mem
    exact (length_rawStdDecode server).2.2 _ (List.mem_map_of_mem mem)
  · intro x mem
    have space := spaceC x mem
    unfold isSpace at space
    simp only [Bool.or_eq_true, beq_iff_eq] at space
    rcases space with ((h | h) | h) | h
    · exact .inl h
    · exact .inr (.inl h)
    · exact .inr (.inr (.inl h))
    · exact .inr (.inr (.inr h))

/-- The client reads the key of one run. -/
theorem decoded_of_oneRun {s : Bytes} (accepted : validKEM s = true) (one : OneRun s) : SameKey s := by
  obtain ⟨⟨pre, key, post, made, front, digits, count, back⟩, padded⟩ := one
  have spaceC : ∀ x ∈ post, isSpace x = true := by
    intro x mem
    rcases back x mem with rfl | rfl | rfl | rfl <;> rfl
  have spaceA : ∀ x ∈ pre, isSpace x = true := by
    intro x mem
    rcases front x mem with rfl | rfl <;> rfl
  have plainB : ∀ x ∈ key ++ [61], isSpace x = false := by
    intro x mem
    rw [Bool.eq_false_iff]
    intro space
    rcases List.mem_append.mp mem with mem | mem
    · have digit := digits x mem
      rw [((spaces x).1 space).1] at digit
      cases digit
    · exact ((spaces x).1 space).2 (List.mem_singleton.mp mem)
  have mapped : (key ++ [61]).map standard = key.map standard ++ [61] := by
    rw [List.map_append]
    rfl
  obtain ⟨rest, front_⟩ := given_prefix s
  have cleaned : clean s = (key.map standard ++ [61]) ++ clean rest := by
    conv_lhs => rw [front_, made]
    rw [clean_append, clean_append, clean_append, clean_spaces spaceA, clean_spaces spaceC,
      clean_plain plainB, mapped]
    simp
  obtain ⟨key', raw, same, decoded, server, size, -⟩ := run_of_clean accepted cleaned (by simp [count])
  obtain rfl := (List.append_inj' same rfl).1
  obtain ⟨x, quanta⟩ := decodeQuanta_pad decoded (by simp [count])
  have block : decodeBlock ((given s).map standard) = some (raw ++ [x]) := by
    have keepA : pre.map standard = pre := map_spaces spaceA
    have keepC : post.map standard = post := map_spaces spaceC
    rw [made, List.map_append, List.map_append, keepA, keepC, mapped]
    rw [decodeBlock_around front ?_ (by simp [count]) ?_, quanta]
    · intro c mem
      rcases back c mem with rfl | rfl | rfl | rfl
      · exact .inl rfl
      · exact .inr (.inl rfl)
      · exact .inr (.inr (.inl rfl))
      · exact .inr (.inr (.inr (.inl rfl)))
    · intro c mem
      exact (plain_of_decoded ((Client.length_decodeQuanta quanta).2.2 c mem)).2
  have positive : ¬ (toInt (strip s).length < 0 ∧ toInt (strip s).length % 4 ≠ 0) := by
    rintro ⟨negative, -⟩
    have empty : given s = [] := by
      unfold given
      rw [Int.toNat_of_nonpos (le_of_lt negative)]
      rfl
    rw [empty] at made
    simp at made
  have whole : (raw ++ [x]).take kemPubkeySize = raw := List.take_left' size
  refine ⟨raw, raw ++ [x], server, base64Decode_iff.mpr ⟨positive, block, ?_⟩, whole, ?_⟩
  · rw [padded, List.length_append, size]
    rfl
  · rw [whole]
    unfold Go.fingerprint
    rw [server]

/-- **The client reads the key that the server has accepted** exactly when it is one run of digits
with one "=" after it. -/
theorem same_key_bytes (s : Bytes) (accepted : validKEM s = true) : SameKey s ↔ OneRun s := by
  constructor
  · rintro ⟨raw, out, -, decoded, -, -⟩
    exact oneRun_of_decoded accepted decoded
  · exact decoded_of_oneRun accepted

namespace Sample

open Go.Sample (kemPubkey)

/-- A key without padding, which the server accepts and the client cannot decode. -/
theorem unpadded_key : validKEM (kemPubkey 65) = true ∧ ¬ SameKey (kemPubkey 65) := by
  refine ⟨by decide +kernel, ?_⟩
  rintro ⟨raw, out, -, decoded, -, -⟩
  have refused : base64Decode (kemPubkey 65) = none := by decide +kernel
  rw [refused] at decoded
  cases decoded

/-- The same key with its padding. -/
theorem same_key_padded : SameKey (kemPubkey 65 ++ [61]) ↔ OneRun (kemPubkey 65 ++ [61]) :=
  same_key_bytes (kemPubkey 65 ++ [61]) (by decide +kernel)

end Sample

end Shyake.Alike
