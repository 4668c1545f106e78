import Shyake.Client.KeyFile
import Shyake.Client.Pow
import Shyake.Client.Signed

/-!
# Rotating the keys (`shyake_rotate` of `account.c`)

The new keys are posted under a signature of the old one. Once the server has
confirmed them they are written to four files, and no later step can undo that: from
then on the user can act only with what is in the files.
-/

namespace Shyake.Client

open CJson

/-- ML-DSA-65 of liboqs. -/
structure Sig where
  sign : (coins sk message : Bytes) → Bytes
  verify : (pk message signature : Bytes) → Bool
  Matches : (pk sk : Bytes) → Prop
  length_sign : ∀ coins sk message, (sign coins sk message).length = 3309
  verify_sign : ∀ {pk sk} coins message, Matches pk sk →
    verify pk message (sign coins sk message) = true

/-- The keys that one `OQS_KEM_keypair` or `OQS_SIG_keypair` gives. -/
structure Pair (Matches : Bytes → Bytes → Prop) (lengthPk lengthSk : Nat) where
  pk : Bytes
  sk : Bytes
  length_pk : pk.length = lengthPk
  length_sk : sk.length = lengthSk
  pair : Matches pk sk

/-- What `shyake_rotate` reads of a `shyake_ctx`. -/
structure Ctx where
  configDir : Bytes
  username : Bytes
  passphrase : Bytes
  newPassphrase : Bytes

/-- `shyake_set_passphrase`, of a string that is not NULL. -/
def Ctx.setPassphrase (ctx : Ctx) (passphrase : Bytes) : Ctx :=
  { ctx with passphrase := snprintf 512 passphrase }

/-- `shyake_set_new_passphrase`. -/
def Ctx.setNewPassphrase (ctx : Ctx) (passphrase : Bytes) : Ctx :=
  { ctx with newPassphrase := snprintf 512 passphrase }

/-- A file of the configuration directory. -/
def Ctx.path (ctx : Ctx) (name : Bytes) : Bytes := snprintf 512 (ctx.configDir ++ 47 :: name)

/-! ## Signed headers (`network.c`) -/

/-- What `create_signed_headers_body` takes from the clock, `OQS_SIG_sign` and `shyake_mint_pow`. -/
structure Signing where
  now : Int
  coins : Bytes
  pow : Bytes

/-- `message`. -/
def signedString (ctx : Ctx) (now : Int) (method endpoint : Bytes) (body : Option Bytes) : Bytes :=
  snprintf 640 (method ++ 58 :: endpoint ++ 58 :: ctx.username ++ 58 ::
    snprintf 32 (Go.formatInt now) ++
    match body with
    | some body => 58 :: Go.hexEncode (Lib.sha256 body)
    | none => [])

variable (kdf : Kdf) (aead : Bytes → Aead) (kem : Kem) (sig : Sig) (printG : Int → Bytes)

/-- `create_signed_headers_body`. -/
def createSignedHeadersBody (signing : Signing) (ctx : Ctx) (files : Files)
    (method endpoint : Bytes) (body : Option Bytes) : Option (List Bytes) :=
  match loadSkDecrypted kdf aead ctx.passphrase (ctx.path (utf8 "sig_sk.bin")) files with
  | .error _ => none
  | .ok ssk =>
    let message := signedString ctx signing.now method endpoint body
    let sig_b64 := (base64Encode (sig.sign signing.coins ssk message)).getD []
    some [snprintf 8192 (utf8 "X-Shyake-Username: " ++ ctx.username),
      snprintf 8192 (utf8 "X-Shyake-Timestamp: " ++ snprintf 32 (Go.formatInt signing.now)),
      snprintf 8192 (utf8 "X-Shyake-Signature: " ++ sig_b64),
      snprintf 8192 (utf8 "X-Shyake-Pow: " ++ signing.pow)]

/-! ## shyake_rotate -/

/-- `shyake_err`. -/
inductive ShyakeErr where
  | OK
  | ERR
  | ERR_NETWORK
  | ERR_HTTP
  | ERR_KEY_MISMATCH
  | ERR_GONE
  | ERR_NOT_FOUND
  | ERR_FORBIDDEN
  | ERR_CRYPTO
  | ERR_NO_INSTANCE
  | ERR_BLOCKED
  deriving DecidableEq

/-- `body_json`. -/
def rotateObj (kpk_b64 spk_b64 : Option Bytes) : Object :=
  addStringOrNull (addStringOrNull createObject (utf8 "new_kem_pubkey") kpk_b64)
    (utf8 "new_sig_pubkey") spk_b64

abbrev KemPair := Pair kem.Matches lengthPublicKey 2400
abbrev SigPair := Pair sig.Matches 1952 4032

/-- What the calls of one `shyake_rotate` come to. -/
structure RotateCalls where
  /-- `none` when liboqs fails. -/
  pairs : Option (KemPair kem × SigPair sig)
  curl : Bool
  signing : Signing
  /-- The HTTP code, or `none` when there is no answer. -/
  answer : Option Nat
  kemPk : Write
  kemSk : SkCalls
  sigPk : Write
  sigSk : SkCalls

variable {kem sig} in
/-- The four writes. What they return is not looked at. -/
def saveKeys (ctx : Ctx) (calls : RotateCalls kem sig) (k : KemPair kem) (s : SigPair sig)
    (files : Files) : Files :=
  let files := (saveFile calls.kemPk (ctx.path (utf8 "kem_pk.bin")) k.pk files).2
  let files := (saveSkEncrypted kdf aead calls.kemSk (ctx.path (utf8 "kem_sk.bin"))
    ctx.newPassphrase k.sk files).2
  let files := (saveFile calls.sigPk (ctx.path (utf8 "sig_pk.bin")) s.pk files).2
  (saveSkEncrypted kdf aead calls.sigSk (ctx.path (utf8 "sig_sk.bin"))
    ctx.newPassphrase s.sk files).2

/-- `shyake_rotate`. -/
def shyakeRotate (ctx : Ctx) (calls : RotateCalls kem sig) (files : Files) : ShyakeErr × Files :=
  match calls.pairs with
  | none => (.ERR_CRYPTO, files)
  | some (k, s) =>
    if calls.curl = false then (.ERR, files)
    else
      let body := printUnformatted printG (rotateObj (base64Encode k.pk) (base64Encode s.pk))
      match createSignedHeadersBody kdf aead sig calls.signing ctx files (utf8 "POST")
          (utf8 "/api/rotate") (some (body.getD [])) with
      | none => (.ERR, files)
      | some _ =>
        match calls.answer with
        | none => (.ERR_NETWORK, files)
        | some code =>
          if code = 200 ∨ code = 201 then (.OK, saveKeys kdf aead ctx calls k s files)
          else (.ERR_HTTP, files)

/-! ## What a confirmed rotation leaves behind -/

variable {kem sig} {ctx : Ctx} {calls : RotateCalls kem sig} {files : Files}
variable {k : KemPair kem} {s : SigPair sig}

/-- The server has confirmed the new keys. -/
structure Confirmed (ctx : Ctx) (calls : RotateCalls kem sig) (files : Files) (k : KemPair kem)
    (s : SigPair sig) : Prop where
  pairs : calls.pairs = some (k, s)
  curl : calls.curl = true
  signed : (createSignedHeadersBody kdf aead sig calls.signing ctx files (utf8 "POST")
    (utf8 "/api/rotate") (some ((printUnformatted printG
      (rotateObj (base64Encode k.pk) (base64Encode s.pk))).getD []))).isSome
  answer : calls.answer = some 200 ∨ calls.answer = some 201

/-- It returns `SHYAKE_OK` exactly then. -/
theorem shyakeRotate_ok {files' : Files} (pairs : calls.pairs = some (k, s)) :
    shyakeRotate kdf aead kem sig printG ctx calls files = (.OK, files') ↔
      Confirmed kdf aead printG ctx calls files k s ∧
        files' = saveKeys kdf aead ctx calls k s files := by
  unfold shyakeRotate
  rw [pairs]
  dsimp only
  constructor
  · intro returned
    split at returned
    · cases returned
    rename_i curl
    split at returned
    · cases returned
    rename_i headers signed
    split at returned
    · cases returned
    rename_i code answer
    split at returned
    · rename_i good
      refine ⟨⟨pairs, by simpa using curl, by rw [signed]; rfl, ?_⟩,
        ((Prod.mk.inj returned).2).symm⟩
      rcases good with rfl | rfl
      · exact .inl answer
      · exact .inr answer
    · cases returned
  · rintro ⟨confirmed, rfl⟩
    obtain ⟨headers, signed⟩ := Option.isSome_iff_exists.mp confirmed.signed
    rw [confirmed.curl, if_neg (by decide), signed]
    rcases confirmed.answer with answer | answer
    · rw [answer]
      rfl
    · rw [answer]
      rfl

/-- Every file operation of the four writes succeeds. -/
structure Saved (ctx : Ctx) (calls : RotateCalls kem sig) : Prop where
  kemPk : calls.kemPk = .whole
  kemSk : calls.kemSk.Succeed ctx.newPassphrase
  sigPk : calls.sigPk = .whole
  sigSk : calls.sigSk.Succeed ctx.newPassphrase

variable (sig) in
/-- Whatever the context signs from these files verifies under the key. -/
def NextVerifies (ctx : Ctx) (files : Files) (pk : Bytes) : Prop :=
  ∀ (signing : Signing) (method endpoint : Bytes) (body : Option Bytes),
    ∃ headers signature sig_b64,
      createSignedHeadersBody kdf aead sig signing ctx files method endpoint body = some headers ∧
      utf8 "X-Shyake-Signature: " ++ sig_b64 ∈ headers ∧
      base64Encode signature = some sig_b64 ∧
      sig.verify pk (signedString ctx signing.now method endpoint body) signature = true

/-- The user can go on with the new keys, and no failure was kept from him. -/
structure GoesOn (ctx : Ctx) (calls : RotateCalls kem sig) (k : KemPair kem) (s : SigPair sig)
    (files : Files) : Prop where
  kemPk : files (ctx.path (utf8 "kem_pk.bin")) = some k.pk
  kemSk : ∃ content, files (ctx.path (utf8 "kem_sk.bin")) = some content ∧
    KeyFile kdf aead ctx.newPassphrase k.sk content
  sigPk : files (ctx.path (utf8 "sig_pk.bin")) = some s.pk
  sigSk : ∃ content, files (ctx.path (utf8 "sig_sk.bin")) = some content ∧
    KeyFile kdf aead ctx.newPassphrase s.sk content
  loadKem : loadSkDecrypted kdf aead ctx.passphrase (ctx.path (utf8 "kem_sk.bin")) files = .ok k.sk
  loadSig : loadSkDecrypted kdf aead ctx.passphrase (ctx.path (utf8 "sig_sk.bin")) files = .ok s.sk
  next : NextVerifies kdf aead sig ctx files s.pk
  reported : Saved ctx calls

theorem nextVerifies_of_load (load : loadSkDecrypted kdf aead ctx.passphrase
    (ctx.path (utf8 "sig_sk.bin")) files = .ok s.sk) :
    NextVerifies kdf aead sig ctx files s.pk := by
  intro signing method endpoint body
  have length := sig.length_sign signing.coins s.sk
    (signedString ctx signing.now method endpoint body)
  have small : (sig.sign signing.coins s.sk
      (signedString ctx signing.now method endpoint body)).length ≤ maxLength := by
    rw [length]
    decide
  have encoded := base64Encode_of_small small
  have line : (utf8 "X-Shyake-Signature: " ++ encodeBlock (sig.sign signing.coins s.sk
      (signedString ctx signing.now method endpoint body))).length ≤ 8191 := by
    have chars : (utf8 "X-Shyake-Signature: ").length = 20 := by decide
    rw [List.length_append, chars, length_encodeBlock, length]
    decide
  unfold createSignedHeadersBody
  rw [load]
  refine ⟨_, _, _, rfl, ?_, encoded, sig.verify_sign signing.coins _ s.pair⟩
  rw [encoded, Option.getD_some]
  have whole := List.take_of_length_le line
  rw [snprintf, snprintf, snprintf, snprintf, whole]
  simp

/-! ## The paths -/

/-- In a directory of at most 505 characters the names keep what tells them apart. -/
theorem path_ne (short : ctx.configDir.length ≤ 505) {n m : Bytes} (front : n.take 5 ≠ m.take 5) :
    ctx.path n ≠ ctx.path m := by
  intro same
  have cut (x : Bytes) : ((ctx.path x).drop ctx.configDir.length).take 6 = 47 :: x.take 5 := by
    unfold Ctx.path snprintf
    rw [List.drop_take, List.drop_left, List.take_take]
    rw [Nat.min_eq_left (by omega)]
    rfl
  have both := (cut n).symm.trans ((congrArg (fun p => (p.drop ctx.configDir.length).take 6)
    same).trans (cut m))
  exact front (List.cons.inj both).2

/-- In a longer one the two files of a pair are one. -/
theorem path_eq (long : 505 < ctx.configDir.length) (pre n m : Bytes) (kept : pre.length = 4) :
    ctx.path (pre ++ n) = ctx.path (pre ++ m) := by
  have cut (x : Bytes) : ctx.path (pre ++ x) = snprintf 512 (ctx.configDir ++ 47 :: pre) := by
    unfold Ctx.path snprintf
    have text : ctx.configDir ++ 47 :: (pre ++ x) = (ctx.configDir ++ 47 :: pre) ++ x := by simp
    rw [text]
    refine List.take_append_of_le_length ?_
    simp only [List.length_append, List.length_cons]
    omega
  rw [cut, cut]

/-! ## When a rotation can be gone on from -/

/-- The files after four writes that succeed. -/
theorem saveKeys_saved (saved : Saved ctx calls) (k : KemPair kem) (s : SigPair sig)
    (files : Files) : ∃ kemFile sigFile : Bytes,
      saveKeys kdf aead ctx calls k s files =
        Function.update (Function.update (Function.update (Function.update files
          (ctx.path (utf8 "kem_pk.bin")) (some k.pk)) (ctx.path (utf8 "kem_sk.bin")) (some kemFile))
          (ctx.path (utf8 "sig_pk.bin")) (some s.pk)) (ctx.path (utf8 "sig_sk.bin")) (some sigFile) ∧
      KeyFile kdf aead ctx.newPassphrase k.sk kemFile ∧
      KeyFile kdf aead ctx.newPassphrase s.sk sigFile ∧
      (openSk kdf aead ctx.passphrase kemFile = .ok k.sk ↔
        Unlocks kdf aead ctx.passphrase ctx.newPassphrase k.sk calls.kemSk) ∧
      (openSk kdf aead ctx.passphrase sigFile = .ok s.sk ↔
        Unlocks kdf aead ctx.passphrase ctx.newPassphrase s.sk calls.sigSk) := by
  obtain ⟨kemFile, savedKem, holdsKem, opensKem⟩ := saveSkEncrypted_succeed kdf aead saved.kemSk
    (show k.sk.length < 2 ^ 31 by rw [k.length_sk]; decide) (ctx.path (utf8 "kem_sk.bin"))
    (Function.update files (ctx.path (utf8 "kem_pk.bin")) (some k.pk))
  obtain ⟨sigFile, savedSig, holdsSig, opensSig⟩ := saveSkEncrypted_succeed kdf aead saved.sigSk
    (show s.sk.length < 2 ^ 31 by rw [s.length_sk]; decide) (ctx.path (utf8 "sig_sk.bin"))
    (Function.update (Function.update (Function.update files (ctx.path (utf8 "kem_pk.bin"))
      (some k.pk)) (ctx.path (utf8 "kem_sk.bin")) (some kemFile)) (ctx.path (utf8 "sig_pk.bin"))
      (some s.pk))
  refine ⟨kemFile, sigFile, ?_, holdsKem, holdsSig, opensKem ctx.passphrase,
    opensSig ctx.passphrase⟩
  unfold saveKeys
  rw [saved.kemPk, saved.sigPk]
  dsimp only [saveFile]
  rw [savedKem, savedSig]

/-- Four writes that succeed, at four paths. -/
theorem goesOn_of_saved (saved : Saved ctx calls) (short : ctx.configDir.length ≤ 505)
    (unlocksKem : Unlocks kdf aead ctx.passphrase ctx.newPassphrase k.sk calls.kemSk)
    (unlocksSig : Unlocks kdf aead ctx.passphrase ctx.newPassphrase s.sk calls.sigSk) :
    GoesOn kdf aead ctx calls k s (saveKeys kdf aead ctx calls k s files) := by
  obtain ⟨kemFile, sigFile, made, holdsKem, holdsSig, opensKem, opensSig⟩ :=
    saveKeys_saved kdf aead saved k s files
  have apart {n m : Bytes} (front : n.take 5 ≠ m.take 5) := path_ne short front
  have kemPk : saveKeys kdf aead ctx calls k s files (ctx.path (utf8 "kem_pk.bin")) =
      some k.pk := by
    rw [made, Function.update_of_ne (apart (by decide)), Function.update_of_ne (apart (by decide)),
      Function.update_of_ne (apart (by decide)), Function.update_self]
  have kemSk : saveKeys kdf aead ctx calls k s files (ctx.path (utf8 "kem_sk.bin")) =
      some kemFile := by
    rw [made, Function.update_of_ne (apart (by decide)), Function.update_of_ne (apart (by decide)),
      Function.update_self]
  have sigPk : saveKeys kdf aead ctx calls k s files (ctx.path (utf8 "sig_pk.bin")) =
      some s.pk := by
    rw [made, Function.update_of_ne (apart (by decide)), Function.update_self]
  have sigSk : saveKeys kdf aead ctx calls k s files (ctx.path (utf8 "sig_sk.bin")) =
      some sigFile := by
    rw [made, Function.update_self]
  have loadSig : loadSkDecrypted kdf aead ctx.passphrase (ctx.path (utf8 "sig_sk.bin"))
      (saveKeys kdf aead ctx calls k s files) = .ok s.sk := by
    unfold loadSkDecrypted
    rw [sigSk]
    exact opensSig.mpr unlocksSig
  refine ⟨kemPk, ⟨kemFile, kemSk, holdsKem⟩, sigPk, ⟨sigFile, sigSk, holdsSig⟩, ?_, loadSig,
    nextVerifies_of_load kdf aead loadSig, saved⟩
  unfold loadSkDecrypted
  rw [kemSk]
  exact opensKem.mpr unlocksKem

/-- What lets the user go on says how the writes went. -/
theorem saved_of_goesOn
    (goes : GoesOn kdf aead ctx calls k s (saveKeys kdf aead ctx calls k s files)) :
    Saved ctx calls ∧ ctx.configDir.length ≤ 505 ∧
      Unlocks kdf aead ctx.passphrase ctx.newPassphrase k.sk calls.kemSk ∧
      Unlocks kdf aead ctx.passphrase ctx.newPassphrase s.sk calls.sigSk := by
  obtain ⟨kemFile, sigFile, made, -, -, opensKem, opensSig⟩ :=
    saveKeys_saved kdf aead goes.reported k s files
  have short : ctx.configDir.length ≤ 505 := by
    -- otherwise the secret key has been written over the public one, and it is longer
    by_contra long
    obtain ⟨content, here, holds⟩ := goes.kemSk
    have same := path_eq (show 505 < ctx.configDir.length by omega) (utf8 "kem_") (utf8 "pk.bin")
      (utf8 "sk.bin") (by decide)
    have pk : saveKeys kdf aead ctx calls k s files (ctx.path (utf8 "kem_sk.bin")) = some k.pk :=
      (congrArg _ same).symm.trans goes.kemPk
    have length := length_of_keyFile kdf aead holds
    rw [← Option.some.inj (pk.symm.trans here), k.length_pk, k.length_sk] at length
    exact absurd length (by decide)
  have kemSk : saveKeys kdf aead ctx calls k s files (ctx.path (utf8 "kem_sk.bin")) =
      some kemFile := by
    rw [made, Function.update_of_ne (path_ne short (by decide)),
      Function.update_of_ne (path_ne short (by decide)), Function.update_self]
  have sigSk : saveKeys kdf aead ctx calls k s files (ctx.path (utf8 "sig_sk.bin")) =
      some sigFile := by
    rw [made, Function.update_self]
  refine ⟨goes.reported, short, opensKem.mp ?_, opensSig.mp ?_⟩
  · have load := goes.loadKem
    unfold loadSkDecrypted at load
    rwa [kemSk] at load
  · have load := goes.loadSig
    unfold loadSkDecrypted at load
    rwa [sigSk] at load

/-- **A rotation can be gone on from** exactly if every file operation succeeds, the directory's
name leaves room for the names of the files, and the context's passphrase opens what is stored
under the new one. -/
theorem rotation_goes_on (ctx : Ctx) (calls : RotateCalls kem sig) (files : Files) :
    (∀ k s files', calls.pairs = some (k, s) →
      shyakeRotate kdf aead kem sig printG ctx calls files = (.OK, files') →
      GoesOn kdf aead ctx calls k s files') ↔
    ∀ k s, Confirmed kdf aead printG ctx calls files k s →
      Saved ctx calls ∧ ctx.configDir.length ≤ 505 ∧
      Unlocks kdf aead ctx.passphrase ctx.newPassphrase k.sk calls.kemSk ∧
      Unlocks kdf aead ctx.passphrase ctx.newPassphrase s.sk calls.sigSk := by
  constructor
  · intro goes k s confirmed
    apply @saved_of_goesOn kdf aead _ _ ctx calls files k s
    apply goes k s _ confirmed.pairs
    exact (shyakeRotate_ok kdf aead printG confirmed.pairs).mpr ⟨confirmed, rfl⟩
  · intro ready k s files' pairs returned
    obtain ⟨confirmed, rfl⟩ := (shyakeRotate_ok kdf aead printG pairs).mp returned
    obtain ⟨saved, short, unlocksKem, unlocksSig⟩ := ready k s confirmed
    exact goesOn_of_saved kdf aead saved short unlocksKem unlocksSig

/-! ## A sample -/

namespace Sample

/-- One signature for everything, which every key verifies. -/
def oneSig : Sig where
  sign _ _ _ := List.replicate 3309 0
  verify _ _ signature := signature == List.replicate 3309 0
  Matches _ _ := True
  length_sign _ _ _ := List.length_replicate
  verify_sign _ _ _ := beq_self_eq_true _

/-- The derived key is made of the passphrase and the salt. -/
def plainKdf : Kdf where
  scrypt passphrase salt _ _ _ := some (fit 32 (passphrase ++ salt))
  derives _ _ := rfl

def kemPair : KemPair xorKem where
  pk := List.replicate 1184 7
  sk := List.replicate 2400 7
  length_pk := List.length_replicate
  length_sk := List.length_replicate
  pair := show fit 32 (List.replicate 1184 7) = fit 32 (List.replicate 2400 7) by
    unfold fit
    rw [List.take_append_of_le_length (by rw [List.length_replicate]; omega),
      List.take_append_of_le_length (by rw [List.length_replicate]; omega), List.take_replicate,
      List.take_replicate]
    rfl

def sigPair : SigPair oneSig where
  pk := List.replicate 1952 8
  sk := List.replicate 4032 8
  length_pk := List.length_replicate
  length_sk := List.length_replicate
  pair := trivial

/-- Alice uses no passphrase. -/
def alice : Ctx where
  configDir := utf8 "/home/alice/.config/shyake"
  username := utf8 "alice"
  passphrase := []
  newPassphrase := []

def oldKey : Bytes := List.replicate 4032 1

def oldFiles : Files := Function.update (fun _ => none) (alice.path (utf8 "sig_sk.bin")) (some oldKey)

/-- The server confirms the keys, and `sig_sk.bin` cannot be opened for writing. -/
def readOnlyKey : RotateCalls xorKem oneSig where
  pairs := some (kemPair, sigPair)
  curl := true
  signing := ⟨1749513600, [], []⟩
  answer := some 200
  kemPk := .whole
  kemSk := ⟨none, none, .whole⟩
  sigPk := .whole
  sigSk := ⟨none, none, .refused⟩

theorem load_old {files : Files} (here : files (alice.path (utf8 "sig_sk.bin")) = some oldKey) :
    loadSkDecrypted plainKdf (fun _ => tagAead) alice.passphrase (alice.path (utf8 "sig_sk.bin"))
      files = .ok oldKey := by
  have raw : oldKey.take 4 ≠ SK_MAGIC := by
    unfold oldKey
    rw [List.take_replicate]
    decide
  unfold loadSkDecrypted
  rw [here]
  exact openSk_raw plainKdf _ raw _

/-- **A failed write is reported as a success**: the context goes on signing with the old key,
which the server has replaced. -/
theorem failed_write_is_ok : ∃ files',
    shyakeRotate plainKdf (fun _ => tagAead) xorKem oneSig Go.formatInt alice readOnlyKey
      oldFiles = (.OK, files') ∧
    loadSkDecrypted plainKdf (fun _ => tagAead) alice.passphrase
      (alice.path (utf8 "sig_sk.bin")) files' = .ok oldKey ∧
    ¬ GoesOn plainKdf (fun _ => tagAead) alice readOnlyKey kemPair sigPair files' := by
  have short : alice.configDir.length ≤ 505 := by decide
  have here : oldFiles (alice.path (utf8 "sig_sk.bin")) = some oldKey :=
    Function.update_self _ _ _
  have confirmed : Confirmed plainKdf (fun _ => tagAead) Go.formatInt alice readOnlyKey oldFiles
      kemPair sigPair := by
    refine ⟨rfl, rfl, ?_, .inl rfl⟩
    unfold createSignedHeadersBody
    rw [load_old here]
    rfl
  refine ⟨_, (shyakeRotate_ok _ _ Go.formatInt confirmed.pairs).mpr ⟨confirmed, rfl⟩, load_old ?_, ?_⟩
  · -- three writes at other paths
    have kept : saveKeys plainKdf (fun _ => tagAead) alice readOnlyKey kemPair sigPair oldFiles =
        Function.update (Function.update (Function.update oldFiles
          (alice.path (utf8 "kem_pk.bin")) (some kemPair.pk))
          (alice.path (utf8 "kem_sk.bin")) (some kemPair.sk))
          (alice.path (utf8 "sig_pk.bin")) (some sigPair.pk) := rfl
    rw [kept, Function.update_of_ne (path_ne short (by decide)),
      Function.update_of_ne (path_ne short (by decide)),
      Function.update_of_ne (path_ne short (by decide))]
    exact here
  · intro goes
    cases goes.reported.sigSk.2

end Sample

end Shyake.Client
