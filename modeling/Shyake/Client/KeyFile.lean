import Shyake.Client.Crypto

/-!
# Secret key files (`passphrase.c`, and the file helpers of `libshyake.c`)

A secret key is stored as it is, or behind a header under a key that scrypt derives
of a passphrase. What the writer does when a file operation fails is a matter of
`Write`; the reader knows an encrypted file by its first four bytes.
-/

namespace Shyake.Client

/-- `EVP_PBE_scrypt` of OpenSSL. `save_sk_encrypted` asks for parameters that it takes. -/
structure Kdf where
  scrypt : (passphrase salt : Bytes) → (N r p : Nat) → Option Bytes
  derives : ∀ passphrase salt, (scrypt passphrase salt 65536 8 1).isSome

/-! ## Files -/

/-- What reading a file gives, for each path. -/
abbrev Files := Bytes → Option Bytes

/-- What becomes of a file that is to be written. -/
inductive Write where
  /-- `fopen` fails. -/
  | refused
  /-- `fwrite` or `fclose` fails: `fwrite` reports `count` bytes, and `left` is in the file. -/
  | part (count : Nat) (left : Bytes)
  | whole
  deriving DecidableEq

/-- `save_file`. -/
def saveFile (w : Write) (path data : Bytes) (files : Files) : Int × Files :=
  match w with
  | .refused => (-1, files)
  | .part count left => (if count = data.length then 0 else -1, Function.update files path (some left))
  | .whole => (0, Function.update files path (some data))

/-- `set_error` writes to a buffer of 512 bytes. -/
def setError (text : Bytes) : Option Bytes := some (text.take 511)

/-! ## The format -/

def SK_MAGIC : Bytes := utf8 "SHYK"

/-- `write_u32le`. -/
def writeU32le (v : Nat) : Bytes :=
  [UInt8.ofNat v, UInt8.ofNat (v / 2 ^ 8), UInt8.ofNat (v / 2 ^ 16), UInt8.ofNat (v / 2 ^ 24)]

/-- `read_u32le`. -/
def readU32le (buf : Bytes) : Nat :=
  (buf.getD 0 0).toNat + (buf.getD 1 0).toNat * 2 ^ 8 + (buf.getD 2 0).toNat * 2 ^ 16 +
    (buf.getD 3 0).toNat * 2 ^ 24

/-- The 62 bytes before the ciphertext. -/
def skHeader (salt nonce : Bytes) : Bytes :=
  SK_MAGIC ++ [1, 1] ++ salt ++ writeU32le 65536 ++ writeU32le 8 ++ writeU32le 1 ++ nonce

/-- `fill_random`: so many bytes, or `none` when `/dev/urandom` cannot be read. -/
abbrev Random (len : Nat) := Option {b : Bytes // b.length = len}

/-- The outcomes of the file operations of one `save_sk_encrypted`. -/
structure SkCalls where
  salt : Random 32
  nonce : Random 12
  file : Write

/-- The content of an encrypted key file, of the two primitives it is made with. The cipher takes the
header as additional data. -/
def sealSkWith (scrypt : Bytes → Bytes → Nat → Nat → Nat → Option Bytes)
    (encrypt : (header key nonce pt : Bytes) → Option (Bytes × Bytes))
    (passphrase sk salt nonce : Bytes) : Option Bytes := do
  let derived ← scrypt passphrase salt 65536 8 1
  let sealed ← encrypt (skHeader salt nonce) derived nonce sk
  some (skHeader salt nonce ++ sealed.1 ++ sealed.2)

/-- `load_sk_decrypted`, of the bytes of the file and of the two primitives it calls. An error may
set no text. -/
def openSkWith (scrypt : Bytes → Bytes → Nat → Nat → Nat → Option Bytes)
    (decrypt : (header key nonce ct mac : Bytes) → Option Bytes) (passphrase data : Bytes) :
    Except (Option Bytes) Bytes :=
  if data.take 4 ≠ SK_MAGIC then .ok data
  else if passphrase = [] then .error (setError (utf8 "The key needs a passphrase."))
  else if data.length < 62 + 16 then .error (setError (utf8 "The key file is corrupt."))
  else if data.getD 4 0 ≠ 1 ∨ data.getD 5 0 ≠ 1 then
    .error (setError (utf8 "The key file format is not supported."))
  else
    let N := readU32le (data.drop 38)
    let r := readU32le (data.drop 42)
    let p := readU32le (data.drop 46)
    let ctLen := data.length - 62 - 16
    match scrypt passphrase ((data.drop 6).take 32) N r p with
    | none => .error none
    | some derived =>
      match decrypt (data.take 62) derived ((data.drop 50).take 12) ((data.drop 62).take ctLen)
          ((data.drop (62 + ctLen)).take 16) with
      | none => .error (setError (utf8 "The passphrase is wrong."))
      | some sk => .ok sk

variable (kdf : Kdf) (aead : Bytes → Aead)

/-- The same with the primitives of OpenSSL (`aead header`). -/
def sealSk (passphrase sk salt nonce : Bytes) : Option Bytes :=
  sealSkWith kdf.scrypt (fun header => (aead header).encrypt) passphrase sk salt nonce

def openSk (passphrase data : Bytes) : Except (Option Bytes) Bytes :=
  openSkWith kdf.scrypt (fun header => (aead header).decrypt) passphrase data

/-- A file in which a key is stored under a passphrase. -/
def KeyFile (passphrase sk content : Bytes) : Prop :=
  if passphrase = [] then content = sk
  else ∃ salt nonce : Bytes, salt.length = 32 ∧ nonce.length = 12 ∧
    sealSk kdf aead passphrase sk salt nonce = some content

/-- `save_sk_encrypted`. The results of its three `fwrite` and of `fclose` are not looked at. -/
def saveSkEncrypted (calls : SkCalls) (path passphrase sk : Bytes) (files : Files) : Int × Files :=
  if passphrase = [] then saveFile calls.file path sk files
  else
    match calls.salt, calls.nonce with
    | some salt, some nonce =>
      match sealSk kdf aead passphrase sk salt nonce with
      | none => (-1, files)
      | some content =>
        match calls.file with
        | .refused => (-1, files)
        | .part _ left => (0, Function.update files path (some left))
        | .whole => (0, Function.update files path (some content))
    | _, _ => (-1, files)

/-- `load_sk_decrypted`. -/
def loadSkDecrypted (passphrase path : Bytes) (files : Files) : Except (Option Bytes) Bytes :=
  match files path with
  | none => .error (setError (utf8 "Cannot read " ++ path ++ utf8 "."))
  | some data => openSk kdf aead passphrase data

/-! ## Reading back what was written -/

theorem readU32le_writeU32le {v : Nat} (small : v < 2 ^ 32) (rest : Bytes) :
    readU32le (writeU32le v ++ rest) = v := by
  unfold readU32le writeU32le
  simp only [List.cons_append, List.nil_append, List.getD_cons_zero, List.getD_cons_succ,
    UInt8.toNat_ofNat']
  omega

theorem length_skHeader {salt nonce : Bytes} (lengthSalt : salt.length = 32)
    (lengthNonce : nonce.length = 12) : (skHeader salt nonce).length = 62 := by
  have magic : SK_MAGIC.length = 4 := rfl
  unfold skHeader writeU32le
  simp only [List.length_append, List.length_cons, List.length_nil, magic]
  omega

/-- The fields of the header, each where the reader looks for it. -/
theorem fields_skHeader {salt : Bytes} (lengthSalt : salt.length = 32) (nonce rest : Bytes) :
    (skHeader salt nonce ++ rest).take 4 = SK_MAGIC ∧
    (skHeader salt nonce ++ rest).getD 4 0 = 1 ∧ (skHeader salt nonce ++ rest).getD 5 0 = 1 ∧
    ((skHeader salt nonce ++ rest).drop 6).take 32 = salt ∧
    readU32le ((skHeader salt nonce ++ rest).drop 38) = 65536 ∧
    readU32le ((skHeader salt nonce ++ rest).drop 42) = 8 ∧
    readU32le ((skHeader salt nonce ++ rest).drop 46) = 1 ∧
    (skHeader salt nonce ++ rest).drop 50 = nonce ++ rest := by
  have front : skHeader salt nonce ++ rest = (SK_MAGIC ++ [1, 1]) ++ (salt ++ (writeU32le 65536 ++
      (writeU32le 8 ++ (writeU32le 1 ++ (nonce ++ rest))))) := by
    simp [skHeader]
  have six (n : Nat) : ((SK_MAGIC ++ [1, 1]) ++ (salt ++ (writeU32le 65536 ++ (writeU32le 8 ++
      (writeU32le 1 ++ (nonce ++ rest)))))).drop (38 + n) = (writeU32le 65536 ++ (writeU32le 8 ++
      (writeU32le 1 ++ (nonce ++ rest)))).drop n := by
    rw [← List.drop_drop, ← List.append_assoc (SK_MAGIC ++ [1, 1])]
    rw [List.drop_left' (by simp only [List.length_append, lengthSalt]; rfl)]
  rw [front]
  refine ⟨rfl, rfl, rfl, ?_, ?_, ?_, ?_, ?_⟩
  · exact List.take_left' lengthSalt
  · rw [six 0]
    exact readU32le_writeU32le (by decide) _
  · rw [six 4]
    exact readU32le_writeU32le (by decide) _
  · rw [six 8]
    exact readU32le_writeU32le (by decide) _
  · rw [six 12]
    rfl

/-- A file that does not begin with the magic is the key. -/
theorem openSk_raw {sk : Bytes} (raw : sk.take 4 ≠ SK_MAGIC) (passphrase : Bytes) :
    openSk kdf aead passphrase sk = .ok sk := by
  unfold openSk openSkWith
  exact if_pos raw

/-- A key that begins with the magic is not read back. -/
theorem openSk_magic {sk : Bytes} (magic : sk.take 4 = SK_MAGIC) (passphrase : Bytes) :
    openSk kdf aead passphrase sk ≠ .ok sk := by
  intro opened
  unfold openSk openSkWith at opened
  rw [if_neg (not_not.mpr magic)] at opened
  split at opened
  · cases opened
  split at opened
  · cases opened
  split at opened
  · cases opened
  dsimp only at opened
  split at opened
  · cases opened
  split at opened
  · cases opened
  rename_i long _ _ _ sk' decrypted
  cases opened
  have length := (aead (sk.take 62)).length_decrypt decrypted
  simp only [List.length_take, List.length_drop] at length
  omega

/-- What the reader makes of an encrypted file. -/
theorem openSkWith_sealed {scrypt : Bytes → Bytes → Nat → Nat → Nat → Option Bytes}
    {decrypt : (header key nonce ct mac : Bytes) → Option Bytes} {salt nonce ct mac : Bytes}
    (lengthSalt : salt.length = 32) (lengthNonce : nonce.length = 12) (lengthMac : mac.length = 16)
    (passphrase sk : Bytes) :
    openSkWith scrypt decrypt passphrase (skHeader salt nonce ++ ct ++ mac) = .ok sk ↔
      passphrase ≠ [] ∧ ∃ derived, scrypt passphrase salt 65536 8 1 = some derived ∧
        decrypt (skHeader salt nonce) derived nonce ct mac = some sk := by
  have lengthHeader := length_skHeader lengthSalt lengthNonce
  obtain ⟨magic, version, kdfId, salt_, N, r, p, nonce_⟩ :=
    fields_skHeader lengthSalt nonce (ct ++ mac)
  have length : (skHeader salt nonce ++ (ct ++ mac)).length - 62 - 16 = ct.length := by
    simp only [List.length_append]
    omega
  have long : ¬ (skHeader salt nonce ++ (ct ++ mac)).length < 62 + 16 := by
    simp only [List.length_append]
    omega
  have header : (skHeader salt nonce ++ (ct ++ mac)).take 62 = skHeader salt nonce :=
    List.take_left' lengthHeader
  have text : ((skHeader salt nonce ++ (ct ++ mac)).drop 62).take ct.length = ct := by
    rw [List.drop_left' lengthHeader]
    exact List.take_left' rfl
  have tag : ((skHeader salt nonce ++ (ct ++ mac)).drop (62 + ct.length)).take 16 = mac := by
    rw [← List.drop_drop, List.drop_left' lengthHeader, List.drop_left' rfl]
    exact List.take_of_length_le (by omega)
  have nonceHere : ((nonce ++ (ct ++ mac)) : Bytes).take 12 = nonce := List.take_left' lengthNonce
  rw [List.append_assoc]
  unfold openSkWith
  simp only [magic, version, kdfId, salt_, N, r, p, nonce_, length, header, text, tag, nonceHere,
    long, ne_eq, not_true_eq_false, or_self, if_false]
  by_cases empty : passphrase = []
  · simp only [empty, if_true, not_true_eq_false, false_and, iff_false]
    exact nofun
  · simp only [empty, if_false, not_false_eq_true, true_and]
    cases derived : scrypt passphrase salt 65536 8 1 with
    | none => simp
    | some key =>
      simp only [Option.some.injEq, exists_eq_left']
      cases decrypt (skHeader salt nonce) key nonce ct mac with
      | none => simp
      | some sk' => simp

theorem openSk_sealed {salt nonce ct mac : Bytes} (lengthSalt : salt.length = 32)
    (lengthNonce : nonce.length = 12) (lengthMac : mac.length = 16) (passphrase sk : Bytes) :
    openSk kdf aead passphrase (skHeader salt nonce ++ ct ++ mac) = .ok sk ↔
      passphrase ≠ [] ∧ ∃ derived, kdf.scrypt passphrase salt 65536 8 1 = some derived ∧
        (aead (skHeader salt nonce)).decrypt derived nonce ct mac = some sk :=
  openSkWith_sealed lengthSalt lengthNonce lengthMac passphrase sk

/-- What is stored is made of a ciphertext and a tag. -/
theorem sealSk_spec {passphrase sk salt nonce content : Bytes}
    (h : sealSk kdf aead passphrase sk salt nonce = some content) :
    ∃ derived ct mac, kdf.scrypt passphrase salt 65536 8 1 = some derived ∧
      (aead (skHeader salt nonce)).encrypt derived nonce sk = some (ct, mac) ∧
      content = skHeader salt nonce ++ ct ++ mac := by
  unfold sealSk sealSkWith at h
  obtain ⟨derived, hd, h⟩ := Option.bind_eq_some_iff.mp h
  obtain ⟨⟨ct, mac⟩, he, h⟩ := Option.bind_eq_some_iff.mp h
  cases h
  exact ⟨derived, ct, mac, hd, he, rfl⟩

/-- Every key of a size that OpenSSL takes is encrypted. -/
theorem sealSk_isSome (passphrase salt nonce : Bytes) {sk : Bytes} (small : sk.length < 2 ^ 31) :
    (sealSk kdf aead passphrase sk salt nonce).isSome := by
  obtain ⟨derived, hd⟩ := Option.isSome_iff_exists.mp (kdf.derives passphrase salt)
  obtain ⟨sealed, he⟩ :=
    Option.isSome_iff_exists.mp ((aead (skHeader salt nonce)).encrypts derived nonce small)
  unfold sealSk sealSkWith
  simp only [hd, he, Option.bind_eq_bind, Option.bind_some, Option.isSome_some]

/-! ## Another passphrase -/

/-- The key derived of `passphrase` opens what was sealed under the one of `newPassphrase`. For two
different passphrases that takes a forged tag. -/
def Opens (passphrase newPassphrase sk salt nonce : Bytes) : Prop :=
  ∃ derived derived' ct mac, kdf.scrypt passphrase salt 65536 8 1 = some derived ∧
    kdf.scrypt newPassphrase salt 65536 8 1 = some derived' ∧
    (aead (skHeader salt nonce)).encrypt derived' nonce sk = some (ct, mac) ∧
    (aead (skHeader salt nonce)).decrypt derived nonce ct mac = some sk

/-- A key that is stored under `newPassphrase` can be read with `passphrase`. -/
def Unlocks (passphrase newPassphrase sk : Bytes) (calls : SkCalls) : Prop :=
  if newPassphrase = [] then sk.take 4 ≠ SK_MAGIC
  else passphrase = newPassphrase ∨ passphrase ≠ [] ∧ ∃ salt nonce, calls.salt = some salt ∧
    calls.nonce = some nonce ∧ Opens kdf aead passphrase newPassphrase sk salt nonce

/-- Every file operation of `save_sk_encrypted` succeeds. -/
def SkCalls.Succeed (calls : SkCalls) (passphrase : Bytes) : Prop :=
  (passphrase ≠ [] → calls.salt.isSome ∧ calls.nonce.isSome) ∧ calls.file = .whole

/-- An encrypted file gives the key back exactly to those passphrases. -/
theorem openSk_iff {calls : SkCalls} {passphrase newPassphrase sk content : Bytes}
    {salt : {b : Bytes // b.length = 32}} {nonce : {b : Bytes // b.length = 12}}
    (hs : calls.salt = some salt) (hn : calls.nonce = some nonce) (small : sk.length < 2 ^ 31)
    (set : newPassphrase ≠ []) (h : sealSk kdf aead newPassphrase sk salt nonce = some content) :
    openSk kdf aead passphrase content = .ok sk ↔
      Unlocks kdf aead passphrase newPassphrase sk calls := by
  obtain ⟨derived', ct, mac, hd, he, rfl⟩ := sealSk_spec kdf aead h
  have lengthMac := ((aead (skHeader salt nonce)).length_encrypt he).2
  unfold Unlocks
  rw [openSk_sealed kdf aead salt.2 nonce.2 lengthMac, if_neg set]
  constructor
  · rintro ⟨ne, derived, here, opened⟩
    exact .inr ⟨ne, salt, nonce, hs, hn, derived, derived', ct, mac, here, hd, he, opened⟩
  · rintro (rfl | ⟨ne, salt', nonce', hs', hn', derived, d, c, t, here, hd', he', opened⟩)
    · exact ⟨set, derived', hd, (aead (skHeader salt nonce)).decrypt_encrypt small he⟩
    · obtain rfl := Option.some.inj (hs.symm.trans hs')
      obtain rfl := Option.some.inj (hn.symm.trans hn')
      obtain rfl := Option.some.inj (hd.symm.trans hd')
      cases he.symm.trans he'
      exact ⟨ne, derived, here, opened⟩

/-- What `save_sk_encrypted` leaves behind when no file operation fails. -/
theorem saveSkEncrypted_succeed {calls : SkCalls} {passphrase sk : Bytes}
    (succeed : calls.Succeed passphrase) (small : sk.length < 2 ^ 31) (path : Bytes)
    (files : Files) : ∃ content : Bytes,
      saveSkEncrypted kdf aead calls path passphrase sk files =
        (0, Function.update files path (some content)) ∧
      KeyFile kdf aead passphrase sk content ∧
      ∀ p, openSk kdf aead p content = .ok sk ↔ Unlocks kdf aead p passphrase sk calls := by
  obtain ⟨drawn, file⟩ := succeed
  unfold saveSkEncrypted KeyFile
  by_cases empty : passphrase = []
  · refine ⟨sk, ?_, by rw [if_pos empty], fun p => ?_⟩
    · rw [if_pos empty, file]
      rfl
    · unfold Unlocks
      rw [if_pos empty]
      constructor
      · intro opened magic
        exact openSk_magic kdf aead magic p opened
      · intro raw
        exact openSk_raw kdf aead raw p
  · obtain ⟨salt, hs⟩ := Option.isSome_iff_exists.mp (drawn empty).1
    obtain ⟨nonce, hn⟩ := Option.isSome_iff_exists.mp (drawn empty).2
    obtain ⟨content, sealed⟩ :=
      Option.isSome_iff_exists.mp (sealSk_isSome kdf aead passphrase salt nonce small)
    refine ⟨content, ?_, ?_, fun p => openSk_iff kdf aead hs hn small empty sealed⟩
    · rw [if_neg empty, hs, hn]
      dsimp only
      rw [sealed, file]
    · rw [if_neg empty]
      exact ⟨salt, nonce, salt.2, nonce.2, sealed⟩

/-- A key file is longer than the key, unless it is the key. -/
theorem length_of_keyFile {passphrase sk content : Bytes}
    (h : KeyFile kdf aead passphrase sk content) : sk.length ≤ content.length := by
  unfold KeyFile at h
  split at h
  · rw [h]
  · obtain ⟨salt, nonce, -, -, sealed⟩ := h
    obtain ⟨derived, ct, mac, -, he, rfl⟩ := sealSk_spec kdf aead sealed
    have length := ((aead (skHeader salt nonce)).length_encrypt he).1
    simp only [List.length_append]
    omega

end Shyake.Client
