import Shyake.Lib.Program
import Shyake.Client.Mail
import Shyake.Client.Rotate

/-!
# Calls with a secret key

Those functions of the library that hand a secret key to liboqs, as programs over these
calls. The buffers of a call are as long as they are given here; liboqs takes no length
and reads as many bytes as its algorithm has. A read through NULL is a call without an
answer.
-/

namespace Shyake.Client

open CJson

inductive Call where
  /-- `OQS_KEM_decaps`. -/
  | decaps (ct sk : Bytes)
  /-- `OQS_SIG_sign`. -/
  | sign (message sk : Bytes)
  /-- A read or a write through NULL. -/
  | fault

abbrev Call.Answer : Call → Type
  | .decaps _ _ => Option Bytes
  | .sign _ _ => Bytes
  | .fault => Empty

abbrev Calls : Lib.Interface := ⟨Call, Call.Answer⟩

/-- A part of the library. -/
abbrev Routine := Lib.Prog Calls

/-- The answers of liboqs, with the bytes that signing draws. -/
def liboqs (kem : Kem) (sig : Sig) (coins : Bytes) : (c : Call) → Option c.Answer
  | .decaps ct sk => some (kem.decaps ct sk)
  | .sign message sk => some (sig.sign coins sk message)
  | .fault => none

/-- What is behind a pointer. -/
def deref : Option α → Routine α
  | some a => .ret a
  | none => .ask .fault Empty.elim

/-- No NULL is followed. -/
abbrev NoFault (c : Call) : Prop := c ≠ .fault

/-- Where a NULL is never followed, there was something behind the pointer. -/
theorem asks_deref {o : Option α} {f : α → Routine β} :
    (deref o >>= f).Asks NoFault ↔ ∃ a, o = some a ∧ (f a).Asks NoFault := by
  cases o with
  | none =>
    refine iff_of_false (fun h => h.1 rfl) ?_
    rintro ⟨a, none, -⟩
    cases none
  | some a =>
    constructor
    · exact fun h => ⟨a, rfl, h⟩
    · rintro ⟨a', same, h⟩
      cases same
      exact h

/-- A guard that lets NULL be followed says nothing of a pointer. -/
theorem asks_deref_of {A : Call → Prop} (fault : A .fault) {o : Option α} {f : α → Routine β}
    (next : ∀ a, o = some a → (f a).Asks A) : (deref o >>= f).Asks A := by
  cases o with
  | none => exact ⟨fault, Empty.rec⟩
  | some a => exact next a rfl

theorem result_deref {answer : (c : Call) → Option c.Answer} (fault : answer .fault = none)
    (o : Option α) : (deref o).result answer = o := by
  cases o with
  | none =>
    change (answer .fault).bind _ = none
    rw [fault]
    rfl
  | some a => rfl

namespace Calls

/-! ## Unwrapping a symmetric key (`crypto_ops.c`) -/

/-- `kem_decapsulate_key`. -/
@[irreducible] def kemDecapsulateKey (encKeyB64 mySk : Bytes) : Routine (Option Bytes) :=
  (base64Decode encKeyB64).elim (.ret none) fun (packed, packedLen) =>
    if packedLen ≠ (lengthCiphertext + 32 : Nat) then .ret none
    else
      .ask (.decaps (packed.take lengthCiphertext) mySk) fun (ss : Option Bytes) =>
        .ret (ss.map (xor ((packed.drop lengthCiphertext).take 32)))

/-- The one call is the decapsulation with the key. -/
theorem kemDecapsulateKey_asks {A : Call → Prop} {mySk : Bytes} (allowed : ∀ ct, A (.decaps ct mySk))
    (encKeyB64 : Bytes) : (kemDecapsulateKey encKeyB64 mySk).Asks A := by
  unfold kemDecapsulateKey
  cases base64Decode encKeyB64 with
  | none => trivial
  | some decoded =>
    rw [Option.elim_some]
    dsimp only
    split
    · trivial
    · exact ⟨allowed _, fun _ => trivial⟩

theorem kemDecapsulateKey_result (kem : Kem) (sig : Sig) (coins encKeyB64 mySk : Bytes) :
    (kemDecapsulateKey encKeyB64 mySk).result (liboqs kem sig coins) =
      some (Client.kemDecapsulateKey kem encKeyB64 mySk) := by
  unfold kemDecapsulateKey Client.kemDecapsulateKey
  cases base64Decode encKeyB64 with
  | none => rfl
  | some decoded =>
    obtain ⟨packed, packedLen⟩ := decoded
    rw [Option.bind_eq_bind, Option.bind_some, Option.elim_some]
    dsimp only
    by_cases length : packedLen ≠ (lengthCiphertext + 32 : Nat)
    · rw [if_pos length, if_pos length]
      rfl
    · rw [if_neg length, if_neg length]
      generalize lengthCiphertext = n
      rw [Lib.Prog.result_ask]
      change some (Option.map _ (kem.decaps (packed.take n) mySk)) = _
      cases kem.decaps (packed.take n) mySk with
      | none => rfl
      | some ss => rfl

variable (kdf : Kdf) (keyAead : Bytes → Aead)

/-- `kem_sk.bin`, as it is loaded. -/
def loadKsk (ctx : Ctx) (files : Files) : Except (Option Bytes) Bytes :=
  loadSkDecrypted kdf keyAead ctx.passphrase (ctx.path (utf8 "kem_sk.bin")) files

/-- `sig_sk.bin`, as it is loaded. -/
def loadSsk (ctx : Ctx) (files : Files) : Except (Option Bytes) Bytes :=
  loadSkDecrypted kdf keyAead ctx.passphrase (ctx.path (utf8 "sig_sk.bin")) files

/-- `shyake_selfdec_new`. -/
def shyakeSelfdecNew (ctx : Ctx) (files : Files) : Option Bytes :=
  (loadKsk kdf keyAead ctx files).toOption

/-- `shyake_selfdec_key`. The key is written on success only. -/
def shyakeSelfdecKey (sd : Option Bytes) (encKeyB64 : Bytes) : Routine (ShyakeErr × Option Bytes) :=
  match sd with
  | none => .ret (.ERR, none)
  | some ksk => do
    match ← kemDecapsulateKey encKeyB64 ksk with
    | none => .ret (.ERR_CRYPTO, none)
    | some sym => .ret (.OK, some sym)

/-! ## Signed requests (`network.c`) -/

/-- `create_signed_headers_body`. -/
def createSignedHeadersBody (now : Int) (pow : Bytes) (ctx : Ctx) (files : Files)
    (method endpoint : Bytes) (body : Option Bytes) : Routine (Option (List Bytes)) :=
  match loadSsk kdf keyAead ctx files with
  | .error _ => .ret none
  | .ok ssk =>
    .ask (.sign (signedString ctx now method endpoint body) ssk) fun signature =>
      let sig_b64 := (base64Encode signature).getD []
      .ret (some [snprintf 8192 (utf8 "X-Shyake-Username: " ++ ctx.username),
        snprintf 8192 (utf8 "X-Shyake-Timestamp: " ++ snprintf 32 (Go.formatInt now)),
        snprintf 8192 (utf8 "X-Shyake-Signature: " ++ sig_b64),
        snprintf 8192 (utf8 "X-Shyake-Pow: " ++ pow)])

theorem createSignedHeadersBody_result (kem : Kem) (sig : Sig) (signing : Signing) (ctx : Ctx)
    (files : Files) (method endpoint : Bytes) (body : Option Bytes) :
    (createSignedHeadersBody kdf keyAead signing.now signing.pow ctx files method endpoint
        body).result (liboqs kem sig signing.coins) =
      some (Client.createSignedHeadersBody kdf keyAead sig signing ctx files method endpoint
        body) := by
  unfold createSignedHeadersBody Client.createSignedHeadersBody loadSsk
  cases loadSkDecrypted kdf keyAead ctx.passphrase (ctx.path (utf8 "sig_sk.bin")) files with
  | error text => rfl
  | ok ssk => rfl

end Calls

end Shyake.Client
