import Shyake.Client.Base64

/-!
# Sealing to a key (`crypto_ops.c`, `shyake_crypto.c`)

A text is encrypted under a symmetric key, and the symmetric key is wrapped for the
holder of a KEM key. liboqs and OpenSSL are not in this repository: `Kem` and `Aead`
are what the client calls of them, with what their documentation promises.
-/

namespace Shyake.Client

/-- ML-KEM-768 of liboqs. `Matches pk sk` says that one `OQS_KEM_keypair` gave both. -/
structure Kem where
  /-- The ciphertext and the shared secret, out of the random bytes that are drawn. -/
  encaps : (coins pk : Bytes) → Option (Bytes × Bytes)
  decaps : (ct sk : Bytes) → Option Bytes
  Matches : (pk sk : Bytes) → Prop
  length_encaps : ∀ {coins pk ct ss}, encaps coins pk = some (ct, ss) →
    ct.length = 1088 ∧ ss.length = 32
  decaps_encaps : ∀ {coins pk sk ct ss}, Matches pk sk → encaps coins pk = some (ct, ss) →
    decaps ct sk = some ss

def lengthPublicKey : Nat := 1184
def lengthCiphertext : Nat := 1088

/-- The two wrappers of `EVP_chacha20_poly1305`. A length has to be an `int`; nothing is promised
for a longer text but that the buffers are as long as the text. -/
structure Aead where
  /-- The ciphertext and the tag. -/
  encrypt : (key nonce pt : Bytes) → Option (Bytes × Bytes)
  decrypt : (key nonce ct mac : Bytes) → Option Bytes
  encrypts : ∀ key nonce {pt : Bytes}, pt.length < 2 ^ 31 → (encrypt key nonce pt).isSome
  length_encrypt : ∀ {key nonce pt ct mac}, encrypt key nonce pt = some (ct, mac) →
    ct.length = pt.length ∧ mac.length = 16
  length_decrypt : ∀ {key nonce ct mac pt}, decrypt key nonce ct mac = some pt →
    pt.length = ct.length
  decrypt_encrypt : ∀ {key nonce pt ct mac}, pt.length < 2 ^ 31 →
    encrypt key nonce pt = some (ct, mac) → decrypt key nonce ct mac = some pt

variable (kem : Kem) (aead : Aead)

/-! ## Text under a symmetric key -/

/-- `encrypt_to_b64`, with the nonce that it draws. -/
def encryptToB64 (key nonce pt : Bytes) : Option Bytes :=
  if pt = [] then none
  else do
    let sealed ← aead.encrypt key nonce pt
    base64Encode (nonce ++ sealed.1 ++ sealed.2)

/-- `decrypt_from_b64`. What it returns is read up to the first NUL. -/
def decryptFromB64 (key b64 : Bytes) : Option Bytes :=
  if b64 = [] then none
  else do
    let (packed, packedLen) ← base64Decode b64
    if packedLen ≤ 28 then none
    else
      let ctLen := packedLen.toNat - 28
      let nonce := packed.take 12
      let ct := (packed.drop 12).take ctLen
      let mac := (packed.drop (12 + ctLen)).take 16
      (aead.decrypt key nonce ct mac).map cstr

/-! ## A symmetric key for the holder of a KEM key -/

def xor (a b : Bytes) : Bytes := List.zipWith (· ^^^ ·) a b

/-- `kem_encapsulate_key`. -/
def kemEncapsulateKey (coins kemPk symKey : Bytes) : Option Bytes :=
  if kemPk.length ≠ lengthPublicKey then none
  else do
    let drawn ← kem.encaps coins kemPk
    base64Encode (drawn.1 ++ xor symKey drawn.2)

/-- `kem_decapsulate_key`. -/
def kemDecapsulateKey (encKeyB64 mySk : Bytes) : Option Bytes := do
  let (packed, packedLen) ← base64Decode encKeyB64
  if packedLen ≠ (lengthCiphertext + 32 : Nat) then none
  else
    let ss ← kem.decaps (packed.take lengthCiphertext) mySk
    some (xor ((packed.drop lengthCiphertext).take 32) ss)

/-! ## Round trips -/

theorem length_xor {a b : Bytes} (h : a.length = b.length) : (xor a b).length = a.length := by
  unfold xor
  rw [List.length_zipWith, h, Nat.min_self]

theorem xor_xor {a b : Bytes} (h : a.length = b.length) : xor (xor a b) b = a := by
  induction a generalizing b with
  | nil => rfl
  | cons x xs ih =>
    cases b with
    | nil => cases h
    | cons y ys =>
      have head : (x ^^^ y) ^^^ y = x := by
        rw [UInt8.xor_assoc, UInt8.xor_self, UInt8.xor_zero]
      have tail : xor (xor xs ys) ys = xs := ih (Nat.succ.inj h)
      calc xor (xor (x :: xs) (y :: ys)) (y :: ys)
          = ((x ^^^ y) ^^^ y) :: xor (xor xs ys) ys := rfl
        _ = x :: xs := by rw [head, tail]

theorem encodeBlock_ne_nil {data : Bytes} (h : data ≠ []) : encodeBlock data ≠ [] := by
  intro none
  have length := length_encodeBlock data
  have pos := List.length_pos_iff.mpr h
  rw [none, List.length_nil] at length
  omega

/-- What encapsulation wraps, decapsulation with the matching key unwraps. -/
theorem kemDecapsulateKey_encapsulated {coins pk sk symKey b64 : Bytes} (pair : kem.Matches pk sk)
    (key : symKey.length = 32) (h : kemEncapsulateKey kem coins pk symKey = some b64) :
    kemDecapsulateKey kem b64 sk = some symKey := by
  unfold kemEncapsulateKey at h
  split at h
  · cases h
  · obtain ⟨⟨ct, ss⟩, drawn, h⟩ := Option.bind_eq_some_iff.mp h
    obtain ⟨lengthCt, lengthSs⟩ := kem.length_encaps drawn
    have lengthXor : (xor symKey ss).length = 32 := by
      rw [length_xor (by omega), key]
    have length : (ct ++ xor symKey ss).length = lengthCiphertext + 32 := by
      rw [List.length_append, lengthCt, lengthXor]
      rfl
    have small : (ct ++ xor symKey ss).length ≤ maxLength := by
      rw [length]
      decide
    replace h : base64Encode (ct ++ xor symKey ss) = some b64 := h
    rw [base64Encode_of_small small] at h
    cases h
    unfold kemDecapsulateKey
    rw [base64Decode_encodeBlock small, length]
    generalize List.replicate (missing (ct ++ xor symKey ss)) (0 : UInt8) = rest
    have front : (ct ++ xor symKey ss ++ rest).take lengthCiphertext = ct := by
      rw [List.append_assoc]
      exact List.take_left' lengthCt
    have back : ((ct ++ xor symKey ss ++ rest).drop lengthCiphertext).take 32 = xor symKey ss := by
      rw [List.append_assoc, show lengthCiphertext = 1088 from rfl, List.drop_left' lengthCt]
      exact List.take_left' lengthXor
    simp only [Option.bind_eq_bind, Option.bind_some, front, back, kem.decaps_encaps pair drawn,
      ne_eq, not_true_eq_false, if_false]
    rw [xor_xor (by omega)]

theorem kemEncapsulateKey_isSome {coins pk symKey : Bytes} (length : pk.length = lengthPublicKey)
    (key : symKey.length = 32) (drawn : (kem.encaps coins pk).isSome) :
    (kemEncapsulateKey kem coins pk symKey).isSome := by
  obtain ⟨⟨ct, ss⟩, drawn⟩ := Option.isSome_iff_exists.mp drawn
  obtain ⟨lengthCt, lengthSs⟩ := kem.length_encaps drawn
  have small : (ct ++ xor symKey ss).length ≤ maxLength := by
    rw [List.length_append, lengthCt, length_xor (by omega), key]
    decide
  unfold kemEncapsulateKey
  rw [if_neg (not_not_intro length), drawn, Option.bind_eq_bind, Option.bind_some,
    base64Encode_of_small small]
  rfl

/-- The longest text that is encrypted as a whole: a nonce and a tag come with it. -/
def maxText : Nat := maxLength - 28

/-- A text of that length at most comes back. -/
theorem decryptFromB64_encrypted (key : Bytes) {nonce pt : Bytes} (drawn : nonce.length = 12)
    (text : pt ≠ []) (small : pt.length ≤ maxText) :
    ∃ b64, encryptToB64 aead key nonce pt = some b64 ∧
      decryptFromB64 aead key b64 = some (cstr pt) := by
  unfold maxText maxLength at small
  have int : pt.length < 2 ^ 31 := by omega
  have pos := List.length_pos_iff.mpr text
  obtain ⟨⟨ct, mac⟩, encrypted⟩ := Option.isSome_iff_exists.mp (aead.encrypts key nonce int)
  obtain ⟨lengthCt, lengthMac⟩ := aead.length_encrypt encrypted
  have length : (nonce ++ ct ++ mac).length = pt.length + 28 := by
    simp only [List.length_append]
    omega
  have fits : (nonce ++ ct ++ mac).length ≤ maxLength := by
    unfold maxLength
    omega
  refine ⟨encodeBlock (nonce ++ ct ++ mac), ?_, ?_⟩
  · unfold encryptToB64
    rw [if_neg text, encrypted, Option.bind_eq_bind, Option.bind_some]
    exact base64Encode_of_small fits
  · have nonempty : encodeBlock (nonce ++ ct ++ mac) ≠ [] := by
      refine encodeBlock_ne_nil fun none => ?_
      rw [none, List.length_nil] at length
      omega
    unfold decryptFromB64
    rw [if_neg nonempty, base64Decode_encodeBlock fits]
    generalize List.replicate (missing (nonce ++ ct ++ mac)) (0 : UInt8) = rest
    have ctLen : ((nonce ++ ct ++ mac).length : Int).toNat - 28 = ct.length := by omega
    have front : (nonce ++ ct ++ mac ++ rest).take 12 = nonce := by
      simp only [List.append_assoc]
      exact List.take_left' drawn
    have middle : ((nonce ++ ct ++ mac ++ rest).drop 12).take ct.length = ct := by
      simp only [List.append_assoc]
      rw [List.drop_left' drawn]
      exact List.take_left' rfl
    have back : ((nonce ++ ct ++ mac ++ rest).drop (12 + ct.length)).take 16 = mac := by
      have behind : (nonce ++ ct).length = 12 + ct.length := by
        rw [List.length_append, drawn]
      rw [List.append_assoc, List.drop_left' behind]
      exact List.take_left' lengthMac
    simp only [Option.bind_eq_bind, Option.bind_some, ctLen, front, middle, back,
      aead.decrypt_encrypt int encrypted, Option.map_some]
    rw [if_neg (by omega)]

/-- A longer text never does. -/
theorem decryptFromB64_cut {key nonce pt b64 key' pt' : Bytes} (drawn : nonce.length = 12)
    (large : maxText < pt.length) (h : encryptToB64 aead key nonce pt = some b64)
    (opened : decryptFromB64 aead key' b64 = some pt') : pt'.length < pt.length := by
  unfold encryptToB64 at h
  split at h
  · cases h
  · obtain ⟨⟨ct, mac⟩, encrypted, h⟩ := Option.bind_eq_some_iff.mp h
    obtain ⟨lengthCt, lengthMac⟩ := aead.length_encrypt encrypted
    have long : maxLength < (nonce ++ ct ++ mac).length := by
      unfold maxText at large
      simp only [List.length_append]
      omega
    obtain ⟨n, le, rfl⟩ := base64Encode_of_large long h
    have short : ((nonce ++ ct ++ mac).take n).length ≤ maxLength :=
      (List.length_take_le _ _).trans le
    unfold decryptFromB64 at opened
    rw [base64Decode_encodeBlock short] at opened
    generalize (nonce ++ ct ++ mac).take n = packed at opened short
    split at opened
    · cases opened
    · simp only [Option.bind_eq_bind, Option.bind_some] at opened
      split at opened
      · cases opened
      · obtain ⟨whole, decrypted, rfl⟩ := Option.map_eq_some_iff.mp opened
        have length := aead.length_decrypt decrypted
        have cut : (cstr whole).length ≤ whole.length :=
          (List.takeWhile_prefix _).length_le
        have part := List.length_take_le ((packed.length : Int).toNat - 28)
          ((packed ++ List.replicate (missing packed) 0).drop 12)
        unfold maxText at large
        omega

/-! ## A sample

A KEM and a cipher that only the right key opens. They hide nothing. -/

namespace Sample

def fit (n : Nat) (b : Bytes) : Bytes := (b ++ List.replicate n 0).take n

theorem length_fit (n : Nat) (b : Bytes) : (fit n b).length = n := by
  unfold fit
  rw [List.length_take, List.length_append, List.length_replicate]
  omega

/-- The two keys of a pair start with the same 32 bytes, and those hide the shared secret. -/
def xorKem : Kem where
  encaps coins pk := some (xor (fit 32 coins) (fit 32 pk) ++ List.replicate 1056 0, fit 32 coins)
  decaps ct sk := some (xor (ct.take 32) (fit 32 sk))
  Matches pk sk := fit 32 pk = fit 32 sk
  length_encaps := by
    intro coins pk ct ss h
    cases h
    rw [List.length_append, length_xor (by rw [length_fit, length_fit]), length_fit,
      List.length_replicate]
    exact ⟨rfl, rfl⟩
  decaps_encaps := by
    intro coins pk sk ct ss pair h
    cases h
    have same : (fit 32 coins).length = (fit 32 pk).length := by rw [length_fit, length_fit]
    rw [List.take_left' ((length_xor same).trans (length_fit 32 coins)), ← pair, xor_xor same]

/-- The tag is the key. -/
def tagAead : Aead where
  encrypt key _ pt := some (pt, fit 16 key)
  decrypt key _ ct mac := if mac = fit 16 key then some ct else none
  encrypts _ _ _ _ := rfl
  length_encrypt := by
    intro key nonce pt ct mac h
    cases h
    exact ⟨rfl, length_fit 16 key⟩
  length_decrypt := by
    intro key nonce ct mac pt h
    split at h
    · cases h
      rfl
    · cases h
  decrypt_encrypt := by
    intro key nonce pt ct mac _ h
    cases h
    exact if_pos rfl

end Sample

end Shyake.Client
