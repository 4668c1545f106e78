import Shyake.Client.EncDec

/-!
# Encrypted files that are read again (`enc_dec.c`, `shyake_crypto.c`)

The length of a file goes through an `int` of the cipher and a field of 32 bits, and the
path of the output through a buffer of 640 bytes. Within these limits a file comes back.
-/

namespace Shyake.Client

/-! ## The cipher -/

/-- `EVP_chacha20_poly1305` of OpenSSL. A negative length is not taken by its update functions. -/
structure Evp where
  /-- The ciphertext and the tag. -/
  sealText : (key nonce pt : Bytes) → Bytes × Bytes
  openText : (key nonce ct mac : Bytes) → Option Bytes
  length_seal : ∀ key nonce pt, (sealText key nonce pt).1.length = pt.length ∧
    (sealText key nonce pt).2.length = 16
  length_open : ∀ {key nonce ct mac pt}, openText key nonce ct mac = some pt → pt.length = ct.length
  open_seal : ∀ key nonce pt,
    openText key nonce (sealText key nonce pt).1 (sealText key nonce pt).2 = some pt

/-- A buffer of `len` bytes whose first ones are written. What `malloc` left in it is still in the
others. -/
def filled (heap : Nat → UInt8) (len : Nat) (text : Bytes) : Bytes :=
  text ++ (List.range' text.length (len - text.length)).map heap

/-- `chacha20_poly1305_encrypt`, without additional data. The length is cut down to an `int`. -/
@[irreducible] def chacha20Poly1305Encrypt (evp : Evp) (heap : Nat → UInt8) (key nonce plaintext : Bytes) :
    Option (Bytes × Bytes) :=
  let inl := toInt plaintext.length
  if inl < 0 then none
  else
    let sealed := evp.sealText key nonce (plaintext.take inl.toNat)
    some (filled heap plaintext.length sealed.1, sealed.2)

/-- `chacha20_poly1305_decrypt`, without additional data. -/
@[irreducible] def chacha20Poly1305Decrypt (evp : Evp) (heap : Nat → UInt8) (key nonce ciphertext mac : Bytes) :
    Option Bytes :=
  let inl := toInt ciphertext.length
  if inl < 0 then none
  else (evp.openText key nonce (ciphertext.take inl.toNat) mac).map (filled heap ciphertext.length)

theorem length_filled (heap : Nat → UInt8) {len : Nat} {text : Bytes} (h : text.length ≤ len) :
    (filled heap len text).length = len := by
  unfold filled
  rw [List.length_append, List.length_map, List.length_range']
  omega

theorem filled_self (heap : Nat → UInt8) (text : Bytes) : filled heap text.length text = text := by
  unfold filled
  rw [Nat.sub_self]
  exact List.append_nil text

section

variable {evp : Evp} {heap : Nat → UInt8} {key nonce pt ct mac : Bytes}

theorem length_encrypt (h : chacha20Poly1305Encrypt evp heap key nonce pt = some (ct, mac)) :
    ct.length = pt.length ∧ mac.length = 16 := by
  unfold chacha20Poly1305Encrypt at h
  dsimp only at h
  split at h
  · cases h
  · cases h
    obtain ⟨ct, mac⟩ := evp.length_seal key nonce (pt.take (toInt pt.length).toNat)
    refine ⟨length_filled heap ?_, mac⟩
    rw [ct]
    exact List.length_take_le' _ _

theorem length_decrypt (h : chacha20Poly1305Decrypt evp heap key nonce ct mac = some pt) :
    pt.length = ct.length := by
  unfold chacha20Poly1305Decrypt at h
  dsimp only at h
  split at h
  · cases h
  · obtain ⟨text, opened, rfl⟩ := Option.map_eq_some_iff.mp h
    refine length_filled heap ?_
    rw [evp.length_open opened]
    exact List.length_take_le' _ _

/-- A text that fits an `int` leaves nothing of the buffer as it was. -/
theorem encrypt_small (small : pt.length < 2 ^ 31) :
    chacha20Poly1305Encrypt evp heap key nonce pt = some (evp.sealText key nonce pt) := by
  have nonneg : ¬ ((pt.length : Nat) : Int) < 0 := by omega
  have length := (evp.length_seal key nonce pt).1
  unfold chacha20Poly1305Encrypt
  rw [toInt_of_small small, if_neg nonneg, Int.toNat_natCast, List.take_length]
  dsimp only
  rw [← length, filled_self]

theorem decrypt_small (small : pt.length < 2 ^ 31) :
    chacha20Poly1305Decrypt evp heap key nonce (evp.sealText key nonce pt).1
      (evp.sealText key nonce pt).2 = some pt := by
  have nonneg : ¬ ((pt.length : Nat) : Int) < 0 := by omega
  have length := (evp.length_seal key nonce pt).1
  unfold chacha20Poly1305Decrypt
  rw [length, toInt_of_small small, if_neg nonneg, Int.toNat_natCast, ← length, List.take_length,
    evp.open_seal, Option.map_some, length, filled_self]

end

/-- The two wrappers are what the rest of the client takes them for. -/
def Evp.aead (evp : Evp) (heap : Nat → UInt8) : Aead where
  encrypt := chacha20Poly1305Encrypt evp heap
  decrypt := chacha20Poly1305Decrypt evp heap
  encrypts key nonce pt small := by
    rw [encrypt_small small]
    rfl
  length_encrypt := length_encrypt
  length_decrypt := length_decrypt
  decrypt_encrypt := by
    intro key nonce pt ct mac small h
    have opens : chacha20Poly1305Decrypt evp heap key nonce (evp.sealText key nonce pt).1
        (evp.sealText key nonce pt).2 = some pt := decrypt_small small
    rw [encrypt_small small] at h
    rw [Option.some.inj h] at opens
    exact opens

/-! ## Files by their paths -/

/-- The files as they are seen through their paths: a path leads to `real path`. -/
def seen (real : Bytes → Bytes) (disk : Files) : Files := fun path => disk (real path)

variable (real : Bytes → Bytes) (kdf : Kdf) (keyAead : Bytes → Aead)

/-! ## shyake_enc_file -/

/-- What `shyake_enc_file` takes from its surroundings. -/
structure EncCalls where
  /-- `fetch_recipient_pubkey`, which leaves a text of its own on failure; it is asked if a recipient
  is named. -/
  lookup : Option (Except (ShyakeErr × Option Bytes) Bytes)
  symKey : Random 32
  coins : Bytes
  nonce : Random 12
  heap : Nat → UInt8
  out : Write

/-- What it returns, with the text that it leaves in the context and the path that it reports. -/
structure Encoded where
  err : ShyakeErr
  error : Option Bytes
  usedPath : Option Bytes

/-- `kem_pk`, or NULL. -/
@[irreducible] def encPublicKey (calls : EncCalls) (ctx : Ctx) (files : Files) :
    Except (ShyakeErr × Option Bytes) (Option Bytes) :=
  match calls.lookup with
  | some lookup => lookup.map fun pkB64 =>
    (base64Decode pkB64).map fun (pk, pkLen) => pk.take pkLen.toNat
  | none => .ok (files (ctx.path (utf8 "kem_pk.bin")))

/-- The lengths are written in 32 bits. -/
def container (kemCt ek : Bytes) (ptLen : Nat) (nonce ct mac : Bytes) : Bytes :=
  writeU32le kemCt.length ++ kemCt ++ writeU32le 32 ++ ek ++ writeU32le ptLen ++ nonce ++ ct ++ mac

/-- `dest`: the derived path is cut to its buffer. -/
def encDest (inPath : Bytes) (outPath : Option Bytes) : Bytes :=
  outPath.getD (snprintf 640 (inPath ++ utf8 ".enc"))

/-- `shyake_enc_file` once the public key is resolved. The results of the writes are not looked at. -/
def encWithKey (kem : Kem) (evp : Evp) (calls : EncCalls) (dest pt : Bytes) (disk : Files) :
    Except (ShyakeErr × Option Bytes) (Option Bytes) → Encoded × Files
  | .error (err, error) => (⟨err, error, none⟩, disk)
  | .ok kemPk =>
    let failed := (⟨.ERR_CRYPTO, none, none⟩, disk)
    kemPk.elim failed fun kemPk =>
    calls.symKey.elim failed fun symKey =>
    if kemPk.length ≠ lengthPublicKey then failed
    else
      (kem.encaps calls.coins kemPk).elim failed fun (kemCt, ss) =>
      calls.nonce.elim failed fun nonce =>
      (chacha20Poly1305Encrypt evp calls.heap symKey nonce pt).elim failed fun (ct, mac) =>
        let text := container kemCt (xor symKey ss) pt.length nonce ct mac
        match calls.out with
        | .refused => (⟨.ERR, setError (utf8 "Cannot write " ++ dest ++ utf8 "."), none⟩, disk)
        | .part _ left => (⟨.OK, none, some dest⟩, Function.update disk (real dest) (some left))
        | .whole => (⟨.OK, none, some dest⟩, Function.update disk (real dest) (some text))

/-- `shyake_enc_file`. -/
def shyakeEncFile (kem : Kem) (evp : Evp) (calls : EncCalls) (ctx : Ctx) (inPath : Bytes)
    (outPath : Option Bytes) (disk : Files) : Encoded × Files :=
  match seen real disk inPath with
  | none => (⟨.ERR, setError (utf8 "Cannot open " ++ inPath ++ utf8 "."), none⟩, disk)
  | some pt =>
    encWithKey real kem evp calls (encDest inPath outPath) pt disk
      (encPublicKey calls ctx (seen real disk))

/-! ## The round trip -/

theorem writeU32le_mod (v : Nat) : writeU32le (v % 2 ^ 32) = writeU32le v := by
  unfold writeU32le
  simp only [List.cons.injEq, and_true]
  refine ⟨?_, ?_, ?_, ?_⟩ <;> apply UInt8.toNat_inj.mp <;> simp only [UInt8.toNat_ofNat'] <;> omega

/-- A length that comes out as an `int` that is not negative. -/
theorem toInt_nonneg {n : Nat} (h : ¬ toInt n < 0) :
    (toInt n).toNat = n % 2 ^ 32 ∧ n % 2 ^ 32 < 2 ^ 31 := by
  unfold toInt at h ⊢
  rw [Int.bmod_def] at h ⊢
  split at h <;> rename_i half <;> simp only [half, if_true, if_false] <;> omega

/-- What `shyake_enc_file` has done when it reports a success, all writes having succeeded. -/
structure Written (kem : Kem) (evp : Evp) (calls : EncCalls) (dest pt pk : Bytes) (disk : Files)
    (path : Bytes) (disk' : Files) where
  kemCt : Bytes
  ss : Bytes
  symKey : Bytes
  nonce : Bytes
  ct : Bytes
  mac : Bytes
  length_symKey : symKey.length = 32
  length_nonce : nonce.length = 12
  encaps : kem.encaps calls.coins pk = some (kemCt, ss)
  encrypted : chacha20Poly1305Encrypt evp calls.heap symKey nonce pt = some (ct, mac)
  reported : path = dest
  written : disk' = Function.update disk (real path)
    (some (container kemCt (xor symKey ss) pt.length nonce ct mac))

theorem encWithKey_ok {kem : Kem} {evp : Evp} {calls : EncCalls} {dest pt pk path : Bytes}
    {disk disk' : Files} {error : Option Bytes} (writes : calls.out = .whole)
    (ok : encWithKey real kem evp calls dest pt disk (.ok (some pk)) =
      (⟨.OK, error, some path⟩, disk')) :
    Nonempty (Written real kem evp calls dest pt pk disk path disk') := by
  unfold encWithKey at ok
  dsimp only at ok
  rw [Option.elim_some] at ok
  cases drawn : calls.symKey with
  | none =>
    rw [drawn] at ok
    cases ok
  | some symKey =>
  rw [drawn, Option.elim_some] at ok
  by_cases length : pk.length ≠ lengthPublicKey
  · rw [if_pos length] at ok
    cases ok
  rw [if_neg length] at ok
  cases encaps : kem.encaps calls.coins pk with
  | none =>
    rw [encaps] at ok
    cases ok
  | some wrapped =>
  cases drawn' : calls.nonce with
  | none =>
    rw [encaps, drawn'] at ok
    cases ok
  | some nonce =>
  rw [encaps, drawn', Option.elim_some, Option.elim_some] at ok
  cases encrypted : chacha20Poly1305Encrypt evp calls.heap symKey nonce pt with
  | none =>
    rw [encrypted] at ok
    cases ok
  | some sealed =>
  rw [encrypted, Option.elim_some, writes] at ok
  cases ok
  exact ⟨⟨wrapped.1, wrapped.2, symKey, nonce, sealed.1, sealed.2, symKey.2, nonce.2, encaps,
    encrypted, rfl, rfl⟩⟩

/-- A run in which nothing fails. -/
theorem encWithKey_whole {kem : Kem} {evp : Evp} {calls : EncCalls} {dest pt pk : Bytes} {disk : Files}
    {symKey : {b : Bytes // b.length = 32}} {nonce : {b : Bytes // b.length = 12}}
    {kemCt ss ct mac : Bytes} (writes : calls.out = .whole) (drawn : calls.symKey = some symKey)
    (length : pk.length = lengthPublicKey) (encaps : kem.encaps calls.coins pk = some (kemCt, ss))
    (drawn' : calls.nonce = some nonce)
    (encrypted : chacha20Poly1305Encrypt evp calls.heap symKey nonce pt = some (ct, mac)) :
    encWithKey real kem evp calls dest pt disk (.ok (some pk)) =
      (⟨.OK, none, some dest⟩, Function.update disk (real dest)
        (some (container kemCt (xor symKey ss) pt.length nonce ct mac))) := by
  unfold encWithKey
  dsimp only
  rw [Option.elim_some, drawn, Option.elim_some, if_neg (not_not_intro length), encaps,
    Option.elim_some, drawn', Option.elim_some, encrypted, Option.elim_some, writes]

/-- The container holds all fields, with as much of the ciphertext as its 32 bits of length say. -/
theorem layout_container {kemCt ek nonce ct mac : Bytes} {n : Nat} (hk : kemCt.length < 2 ^ 32)
    (hek : ek.length = 32) (hn : nonce.length = 12) (hct : ct.length = n) (hmac : mac.length = 16) :
    Layout (container kemCt ek n nonce ct mac)
      ⟨⟨kemCt, ek, n % 2 ^ 32, nonce⟩, ct.take (n % 2 ^ 32), (ct.drop (n % 2 ^ 32) ++ mac).take 16,
        (ct.drop (n % 2 ^ 32) ++ mac).drop 16⟩ where
  head := ⟨hk, hek, Nat.mod_lt _ (by decide), hn⟩
  ct := by
    have le := Nat.mod_le n (2 ^ 32)
    rw [List.length_take, hct]
    exact min_eq_left le
  mac := by
    rw [List.length_take, List.length_append, hmac]
    omega
  bytes := by
    unfold container EncHead.bytes
    rw [writeU32le_mod, List.take_append_drop]
    simp only [List.append_assoc]
    rw [← List.append_assoc (ct.take _), List.take_append_drop]

/-- A container is longer than its text. -/
theorem length_container (kemCt ek nonce mac : Bytes) {ct : Bytes} {n : Nat} (hct : ct.length = n) :
    n < (container kemCt ek n nonce ct mac).length := by
  unfold container
  simp only [List.length_append, length_writeU32le]
  omega

/-- Every buffer is there, and the output can be opened. -/
structure DecCalls.Works (calls : DecCalls) : Prop where
  kemCt : calls.kemCt = true
  ct : calls.ct = true
  pt : calls.pt = true
  kem : calls.kem = true
  out : calls.out = true

/-- A file with the layout is read to what the cipher makes of its text. -/
theorem shyakeDecFile_reads (decrypt : (key nonce ct mac : Bytes) → Option Bytes) {calls : DecCalls}
    (works : calls.Works) {ctx : Ctx} {files : Files} {inPath : Bytes} (outPath : Bytes)
    {data : Bytes} (here : files inPath = some data) {f : EncFields} (layout : Layout data f) {ksk : Bytes}
    (load : Calls.loadKsk kdf keyAead ctx files = .ok ksk)
    (decaps : (ct sk : Bytes) → Option Bytes) {ss : Bytes}
    (decapsulates : decaps f.kemCt ksk = some ss) (pt : Bytes) :
    (shyakeDecFile kdf keyAead decrypt calls ctx files inPath outPath).result (decapsBy decaps) =
        some ⟨.OK, none, some pt⟩ ↔ decrypt (xor f.ek ss) f.nonce f.ct f.mac = some pt := by
  rcases shyakeDecFile_cases kdf keyAead decrypt calls ctx outPath here with
    ⟨null | ⟨h, rest, -, -, null, -⟩, -⟩ | ⟨-, ⟨none, -⟩ | ⟨f', layout', run⟩⟩
  · cases works.kemCt.symm.trans null.1
  · cases works.ct.symm.trans null
  · exact absurd layout (none f)
  obtain rfl := layout_unique layout layout'
  have asks : openFields kdf keyAead decrypt calls ctx files outPath f =
      .ask (.decaps f.kemCt ksk) (decapsulated decrypt calls outPath f) := by
    unfold openFields
    rw [load]
    dsimp only
    rw [if_neg (by simp [works.kem])]
  have answer : (openFields kdf keyAead decrypt calls ctx files outPath f).result (decapsBy decaps) =
      (decapsulated decrypt calls outPath f (some ss)).result (decapsBy decaps) := by
    rw [asks, ← decapsulates]
    rfl
  have made : decrypted decrypt calls f ss =
      (decrypt (xor f.ek ss) f.nonce f.ct f.mac).map some := if_pos (.inl works.pt)
  rw [run, answer]
  unfold decapsulated
  dsimp only
  rw [made]
  cases decrypt (xor f.ek ss) f.nonce f.ct f.mac with
  | none =>
    constructor
    · intro ends
      cases ends
    · intro same
      cases same
  | some text =>
    dsimp only [Option.map_some]
    rw [if_neg (by simp [works.out])]
    constructor
    · intro ends
      cases ends
      rfl
    · intro same
      cases same
      rfl

/-- **A file comes back** exactly when the derived path leads to another file and the length of the
file fits its field. -/
theorem enc_round_trip (kem : Kem) (evp : Evp) (enc : EncCalls) (dec : DecCalls) (heap : Nat → UInt8)
    (ctx owner : Ctx) (inPath outPath : Bytes) {pt pk sk path : Bytes} {disk disk' : Files}
    {error : Option Bytes} (here : seen real disk inPath = some pt)
    (key : encPublicKey enc ctx (seen real disk) = .ok (some pk)) (pair : kem.Matches pk sk)
    (writes : enc.out = .whole)
    (ok : shyakeEncFile real kem evp enc ctx inPath none disk = (⟨.OK, error, some path⟩, disk'))
    (owns : Calls.loadKsk kdf keyAead owner (seen real disk') = .ok sk)
    (works : dec.Works) :
    (seen real disk' inPath = some pt ∧
      (shyakeDecFile kdf keyAead (chacha20Poly1305Decrypt evp heap) dec owner (seen real disk') path
        outPath).result (decapsBy kem.decaps) = some ⟨.OK, none, some pt⟩) ↔
      real (encDest inPath none) ≠ real inPath ∧ pt.length < 2 ^ 32 := by
  obtain ⟨w⟩ : Nonempty (Written real kem evp enc (encDest inPath none) pt pk disk path disk') := by
    unfold shyakeEncFile at ok
    rw [here] at ok
    dsimp only at ok
    rw [key] at ok
    exact encWithKey_ok real writes ok
  obtain ⟨kemCt, ss, symKey, nonce, ct, mac, lenKey, lenNonce, encaps, encrypted, rfl, rfl⟩ := w
  obtain ⟨lenCt, lenMac⟩ := length_encrypt encrypted
  obtain ⟨lenKem, lenSs⟩ := kem.length_encaps encaps
  have nonneg : ¬ toInt pt.length < 0 := by
    intro negative
    unfold chacha20Poly1305Encrypt at encrypted
    rw [if_pos negative] at encrypted
    cases encrypted
  obtain ⟨-, half⟩ := toInt_nonneg nonneg
  have lenEk : (xor symKey ss).length = 32 :=
    (length_xor (lenKey.trans lenSs.symm)).trans lenKey
  have layout := layout_container (show kemCt.length < 2 ^ 32 by omega) lenEk lenNonce lenCt lenMac
  generalize hm : pt.length % 2 ^ 32 = m at layout half
  have text : seen real (Function.update disk (real (encDest inPath none))
      (some (container kemCt (xor symKey ss) pt.length nonce ct mac))) (encDest inPath none) =
      some (container kemCt (xor symKey ss) pt.length nonce ct mac) := Function.update_self ..
  have reads := shyakeDecFile_reads kdf keyAead (chacha20Poly1305Decrypt evp heap) works outPath text
    layout owns kem.decaps (kem.decaps_encaps pair encaps) pt
  rw [reads]
  dsimp only
  rw [xor_xor (lenKey.trans lenSs.symm)]
  constructor
  · rintro ⟨kept, opened⟩
    constructor
    · -- the container would be where the file was
      intro same
      unfold seen at kept
      rw [same, Function.update_self] at kept
      have longer := length_container kemCt (xor symKey ss) nonce mac lenCt
      rw [Option.some.inj kept] at longer
      exact lt_irrefl _ longer
    · have length := length_decrypt opened
      rw [List.length_take] at length
      omega
  · rintro ⟨other, fits⟩
    constructor
    · unfold seen
      rw [Function.update_of_ne other.symm]
      exact here
    · have whole : m = pt.length := by omega
      have small : pt.length < 2 ^ 31 := by omega
      rw [encrypt_small small] at encrypted
      have opens : chacha20Poly1305Decrypt evp heap symKey nonce (evp.sealText symKey nonce pt).1
          (evp.sealText symKey nonce pt).2 = some pt := decrypt_small small
      rw [Option.some.inj encrypted] at opens
      have front : ct.take m = ct := by
        rw [whole, ← lenCt, List.take_length]
      have back : ct.drop m = [] := by
        rw [whole, ← lenCt, List.drop_length]
      rw [front, back, List.nil_append, List.take_of_length_le (le_of_eq lenMac)]
      exact opens

namespace Sample

/-- The tag is the key. -/
def tagEvp : Evp where
  sealText key _ pt := (pt, fit 16 key)
  openText key _ ct mac := if mac = fit 16 key then some ct else none
  length_seal key _ _ := ⟨rfl, length_fit 16 key⟩
  length_open := @tagAead.length_decrypt
  open_seal _ _ _ := if_pos rfl

/-- Alice encrypts to herself, and nothing fails. -/
def encCalls : EncCalls where
  lookup := none
  symKey := some ⟨List.replicate 32 5, List.length_replicate⟩
  coins := []
  nonce := some ⟨List.replicate 12 6, List.length_replicate⟩
  heap _ := 0
  out := .whole

/-- Her two KEM keys, and a file. -/
def aliceDisk (path : Bytes) : Files := fun p =>
  if p = alice.path (utf8 "kem_pk.bin") then some kemPair.pk
  else if p = alice.path (utf8 "kem_sk.bin") then some kemPair.sk
  else if p = path then some (utf8 "hi")
  else none

theorem aliceDisk_pk (path : Bytes) :
    encPublicKey encCalls alice (seen id (aliceDisk path)) = .ok (some kemPair.pk) := by
  unfold encPublicKey seen aliceDisk
  exact congrArg _ (if_pos rfl)

/-- What is written for a path that is none of the two keys'. -/
def hiContainer : Bytes :=
  container (xor (fit 32 []) (fit 32 kemPair.pk) ++ List.replicate 1056 0)
    (xor (List.replicate 32 5) (fit 32 [])) (utf8 "hi").length (List.replicate 12 6) (utf8 "hi")
    (fit 16 (List.replicate 32 5))

theorem enc_hi {path : Bytes} (pk : path ≠ alice.path (utf8 "kem_pk.bin"))
    (sk : path ≠ alice.path (utf8 "kem_sk.bin")) :
    shyakeEncFile id xorKem tagEvp encCalls alice path none (aliceDisk path) =
      (⟨.OK, none, some (encDest path none)⟩,
        Function.update (aliceDisk path) (encDest path none) (some hiContainer)) := by
  have here : seen id (aliceDisk path) path = some (utf8 "hi") := by
    unfold seen aliceDisk
    dsimp only [id]
    rw [if_neg pk, if_neg sk, if_pos rfl]
  unfold shyakeEncFile
  rw [here]
  dsimp only
  rw [aliceDisk_pk]
  exact @encWithKey_whole id xorKem tagEvp encCalls (encDest path none) (utf8 "hi") kemPair.pk
    (aliceDisk path) ⟨List.replicate 32 5, List.length_replicate⟩
    ⟨List.replicate 12 6, List.length_replicate⟩
    (xor (fit 32 []) (fit 32 kemPair.pk) ++ List.replicate 1056 0) (fit 32 []) (utf8 "hi")
    (fit 16 (List.replicate 32 5)) rfl rfl kemPair.length_pk rfl rfl (encrypt_small (by decide))

theorem enc_round_trip_notes :
    seen id (Function.update (aliceDisk (utf8 "notes")) (utf8 "notes.enc") (some hiContainer))
        (utf8 "notes") = some (utf8 "hi") ∧
      (shyakeDecFile plainKdf (fun _ => tagAead) (chacha20Poly1305Decrypt tagEvp fun _ => 0) everyBuffer
        alice
        (seen id (Function.update (aliceDisk (utf8 "notes")) (utf8 "notes.enc") (some hiContainer)))
        (utf8 "notes.enc") (utf8 "out")).result (decapsBy xorKem.decaps) =
          some ⟨.OK, none, some (utf8 "hi")⟩ := by
  have dest : encDest (utf8 "notes") none = utf8 "notes.enc" := by decide
  have ok := enc_hi (show utf8 "notes" ≠ alice.path (utf8 "kem_pk.bin") by decide)
    (show utf8 "notes" ≠ alice.path (utf8 "kem_sk.bin") by decide)
  rw [dest] at ok
  have here : seen id (aliceDisk (utf8 "notes")) (utf8 "notes") = some (utf8 "hi") := by
    unfold seen aliceDisk
    dsimp only [id]
    rw [if_neg (by decide), if_neg (by decide), if_pos rfl]
  have owns : Calls.loadKsk plainKdf (fun _ => tagAead) alice (seen id
      (Function.update (aliceDisk (utf8 "notes")) (utf8 "notes.enc") (some hiContainer))) =
      .ok kemPair.sk := by
    have raw : kemPair.sk.take 4 ≠ SK_MAGIC := by
      unfold kemPair
      rw [List.take_replicate]
      decide
    have apart : alice.path (utf8 "kem_sk.bin") ≠ utf8 "notes.enc" := by decide
    have stored : seen id (Function.update (aliceDisk (utf8 "notes")) (utf8 "notes.enc")
        (some hiContainer)) (alice.path (utf8 "kem_sk.bin")) = some kemPair.sk := by
      unfold seen aliceDisk
      dsimp only [id]
      rw [Function.update_of_ne apart, if_neg (by decide), if_pos rfl]
    unfold Calls.loadKsk loadSkDecrypted
    rw [stored]
    exact openSk_raw plainKdf _ raw _
  have other : id (encDest (utf8 "notes") none) ≠ id (utf8 "notes") := by decide
  exact (enc_round_trip id plainKdf (fun _ => tagAead) xorKem tagEvp encCalls everyBuffer (fun _ => 0)
    alice alice (utf8 "notes") (utf8 "out") here (aliceDisk_pk (utf8 "notes")) kemPair.pair rfl ok owns
    ⟨rfl, rfl, rfl, rfl, rfl⟩).mpr ⟨other, by decide⟩

/-- A path as long as the buffer of the derived path. -/
def longPath : Bytes := List.replicate 639 97

/-- **A file whose path has 639 bytes is overwritten**: the derived path is cut to the path itself. -/
theorem overwritten :
    (shyakeEncFile id xorKem tagEvp encCalls alice longPath none (aliceDisk longPath)).1 =
      ⟨.OK, none, some longPath⟩ ∧
    seen id (aliceDisk longPath) longPath = some (utf8 "hi") ∧
    seen id (shyakeEncFile id xorKem tagEvp encCalls alice longPath none (aliceDisk longPath)).2
      longPath ≠ some (utf8 "hi") := by
  have length : longPath.length = 639 := List.length_replicate
  have cut : encDest longPath none = longPath := by
    unfold encDest snprintf
    exact List.take_left' length
  have other {name : Bytes} (short : name.length < 512) : longPath ≠ name := by
    rintro rfl
    omega
  have pk : longPath ≠ alice.path (utf8 "kem_pk.bin") := other (by decide)
  have sk : longPath ≠ alice.path (utf8 "kem_sk.bin") := other (by decide)
  rw [enc_hi pk sk, cut]
  refine ⟨rfl, ?_, ?_⟩
  · unfold seen aliceDisk
    dsimp only [id]
    rw [if_neg pk, if_neg sk, if_pos rfl]
  · intro kept
    have longer := length_container (xor (fit 32 []) (fit 32 kemPair.pk) ++ List.replicate 1056 0)
      (xor (List.replicate 32 5) (fit 32 [])) (List.replicate 12 6) (fit 16 (List.replicate 32 5))
      (rfl : (utf8 "hi").length = (utf8 "hi").length)
    unfold seen at kept
    dsimp only [id] at kept
    rw [Function.update_self] at kept
    have same := Option.some.inj kept
    unfold hiContainer at same
    rw [same] at longer
    exact lt_irrefl _ longer

end Sample

end Shyake.Client
