import Shyake.Client.EncDec
import Shyake.Client.Sending

/-!
# The secret keys that liboqs is given

Every function of the library that hands a secret key to liboqs takes it from
`load_sk_decrypted`, and none of them looks at its length. So the lengths are right
exactly when the two files hold keys of the right lengths.
-/

namespace Shyake.Client

/-! ## What a key file holds -/

section

variable (kdf : Kdf) (keyAead : Bytes → Aead)

/-- An encrypted key file that opens under the passphrase. -/
def Authentic (passphrase content : Bytes) : Prop :=
  passphrase ≠ [] ∧ 78 ≤ content.length ∧ content.getD 4 0 = 1 ∧ content.getD 5 0 = 1 ∧
    ∃ derived, kdf.scrypt passphrase ((content.drop 6).take 32) (readU32le (content.drop 38))
        (readU32le (content.drop 42)) (readU32le (content.drop 46)) = some derived ∧
      ((keyAead (content.take 62)).decrypt derived ((content.drop 50).take 12)
        ((content.drop 62).take (content.length - 62 - 16))
        ((content.drop (62 + (content.length - 62 - 16))).take 16)).isSome

/-- A file that holds a key of that length, or one that is refused. -/
def HoldsKey (length : Nat) (passphrase content : Bytes) : Prop :=
  if content.take 4 ≠ SK_MAGIC then content.length = length
  else Authentic kdf keyAead passphrase content → content.length = length + 78

/-- An encrypted file that is opened is authentic, and the key has its bytes but for the header and
the tag. -/
theorem openSk_authentic {passphrase content sk : Bytes} (magic : content.take 4 = SK_MAGIC)
    (opened : openSk kdf keyAead passphrase content = .ok sk) :
    Authentic kdf keyAead passphrase content ∧ sk.length + 78 = content.length := by
  unfold openSk openSkWith at opened
  rw [if_neg (not_not.mpr magic)] at opened
  split at opened
  · cases opened
  rename_i set
  split at opened
  · cases opened
  rename_i long
  split at opened
  · cases opened
  rename_i version
  dsimp only at opened
  split at opened
  · cases opened
  rename_i derived hd
  split at opened
  · cases opened
  rename_i sk' decrypted
  cases opened
  have length := (keyAead (content.take 62)).length_decrypt decrypted
  rw [List.length_take, List.length_drop] at length
  rw [not_or, not_not, not_not] at version
  refine ⟨⟨set, by omega, version.1, version.2, derived, hd, ?_⟩, by omega⟩
  rw [decrypted]
  rfl

theorem openSk_of_authentic {passphrase content : Bytes} (magic : content.take 4 = SK_MAGIC)
    (authentic : Authentic kdf keyAead passphrase content) :
    ∃ sk, openSk kdf keyAead passphrase content = .ok sk := by
  obtain ⟨set, long, version, kdfId, derived, hd, opens⟩ := authentic
  obtain ⟨sk, decrypted⟩ := Option.isSome_iff_exists.mp opens
  refine ⟨sk, ?_⟩
  unfold openSk openSkWith
  rw [if_neg (not_not.mpr magic), if_neg set, if_neg (by omega),
    if_neg (by rw [version, kdfId]; decide)]
  dsimp only
  rw [hd]
  dsimp only
  rw [decrypted]

/-- Every key that is loaded of a file has the length, exactly if the file holds such a key. -/
theorem holdsKey_iff (length : Nat) (passphrase content : Bytes) :
    (∀ sk, openSk kdf keyAead passphrase content = .ok sk → sk.length = length) ↔
      HoldsKey kdf keyAead length passphrase content := by
  unfold HoldsKey
  by_cases magic : content.take 4 = SK_MAGIC
  · rw [if_neg (not_not_intro magic)]
    constructor
    · intro h authentic
      obtain ⟨sk, opened⟩ := openSk_of_authentic kdf keyAead magic authentic
      have whole := (openSk_authentic kdf keyAead magic opened).2
      rw [h sk opened] at whole
      exact whole.symm
    · intro h sk opened
      obtain ⟨authentic, whole⟩ := openSk_authentic kdf keyAead magic opened
      have same := h authentic
      omega
  · rw [if_pos magic]
    have raw := openSk_raw kdf keyAead magic passphrase
    constructor
    · exact fun h => h content raw
    · intro h sk opened
      cases raw.symm.trans opened
      exact h

/-- The two files of secret keys hold keys of their algorithms' lengths. -/
structure HoldKeys (ctx : Ctx) (files : Files) : Prop where
  kem : ∀ content, files (ctx.path (utf8 "kem_sk.bin")) = some content →
    HoldsKey kdf keyAead 2400 ctx.passphrase content
  sig : ∀ content, files (ctx.path (utf8 "sig_sk.bin")) = some content →
    HoldsKey kdf keyAead 4032 ctx.passphrase content

theorem loaded_iff (length : Nat) (passphrase path : Bytes) (files : Files) :
    (∀ sk, loadSkDecrypted kdf keyAead passphrase path files = .ok sk → sk.length = length) ↔
      ∀ content, files path = some content → HoldsKey kdf keyAead length passphrase content := by
  unfold loadSkDecrypted
  cases files path with
  | none => exact iff_of_true nofun nofun
  | some content =>
    simp only [Option.some.injEq, forall_eq']
    exact holdsKey_iff kdf keyAead length passphrase content

end

/-! ## What reaches liboqs -/

/-- The secret key of a call has the length of its algorithm. -/
def RightKey : Call → Prop
  | .decaps _ sk => sk.length = 2400
  | .sign _ sk => sk.length = 4032
  | .fault => True

variable (aead : Aead) (kdf : Kdf) (keyAead : Bytes → Aead) (kem : Kem) (printG : Int → Bytes)

open Calls in
/-- Every call with a secret key that any function of the library makes has a right one. -/
structure RightCalls (ctx : Ctx) (files : Files) : Prop where
  selfdecKey : ∀ encKey,
    (shyakeSelfdecKey (shyakeSelfdecNew kdf keyAead ctx files) encKey).Asks RightKey
  headers : ∀ now pow method endpoint body,
    (Calls.createSignedHeadersBody kdf keyAead now pow ctx files method endpoint body).Asks RightKey
  register : ∀ calls username,
    (shyakeRegister kdf keyAead printG ctx files calls username).Asks RightKey
  send : ∀ instanceUrl calls recipient replyRef subject body,
    (sendMail kdf keyAead printG kem aead ctx files instanceUrl calls recipient replyRef subject
      body).Asks RightKey
  decFile : ∀ decrypt calls inPath outPath,
    (shyakeDecFile kdf keyAead decrypt calls ctx files inPath outPath).Asks RightKey
  check : ∀ now pow reply type,
    (Calls.shyakeCheck aead kdf keyAead ⟨ctx, files, now, pow, reply⟩ type).Asks RightKey
  fetch : ∀ now pow reply mailId,
    (Calls.shyakeFetch aead kdf keyAead ⟨ctx, files, now, pow, reply⟩ mailId).Asks RightKey
  checkOne : ∀ now pow reply mailId,
    (Calls.shyakeCheckOne aead kdf keyAead ⟨ctx, files, now, pow, reply⟩ mailId).Asks RightKey
  saved : ∀ mailId saved decryptBody,
    (Calls.parseSavedJson aead kdf keyAead ctx files mailId saved decryptBody).Asks RightKey
  listSaved : ∀ dir, (shyakeListSaved aead kdf keyAead ctx files dir).Asks RightKey

open Calls in
/-- What becomes of the functions that take `kem_sk.bin` when it is not loaded. The readers of mail
give no text. -/
structure KemRefused (ctx : Ctx) (files : Files) : Prop where
  selfdecNew : shyakeSelfdecNew kdf keyAead ctx files = none
  decFile : ∀ decrypt calls inPath outPath,
    (shyakeDecFile kdf keyAead decrypt calls ctx files inPath outPath).Returns fun d =>
      d.err ≠ .OK ∧ d.out = none
  check : ∀ now pow reply type,
    (Calls.shyakeCheck aead kdf keyAead ⟨ctx, files, now, pow, reply⟩ type).Returns fun list =>
      ∀ entries ∈ list, ∀ e ∈ entries, e.subject = decryptionFailed
  fetch : ∀ now pow reply mailId,
    (Calls.shyakeFetch aead kdf keyAead ⟨ctx, files, now, pow, reply⟩ mailId).Returns fun mail =>
      ∀ d ∈ mail, d.subject = none ∧ d.body = none ∧ d.replyRef = none
  checkOne : ∀ now pow reply mailId,
    (Calls.shyakeCheckOne aead kdf keyAead ⟨ctx, files, now, pow, reply⟩ mailId).Returns fun mail =>
      ∀ d ∈ mail, d.subject = none ∧ d.body = none ∧ d.replyRef = none
  saved : ∀ mailId saved decryptBody,
    (Calls.parseSavedJson aead kdf keyAead ctx files mailId saved decryptBody).Returns fun mail =>
      ∀ d ∈ mail, d.subject = none ∧ d.body = none ∧ d.replyRef = none
  listSaved : ∀ dir, (shyakeListSaved aead kdf keyAead ctx files dir).Returns fun list =>
    ∀ entries ∈ list, ∀ e ∈ entries, e.subject = decryptionFailed

open Calls in
/-- What becomes of those that take `sig_sk.bin` when it is not loaded. -/
structure SigRefused (ctx : Ctx) (files : Files) : Prop where
  headers : ∀ now pow method endpoint body,
    Calls.createSignedHeadersBody kdf keyAead now pow ctx files method endpoint body = .ret none
  register : ∀ calls username,
    shyakeRegister kdf keyAead printG ctx files calls username = .ret .ERR_CRYPTO
  send : ∀ instanceUrl calls recipient replyRef subject body,
    (sendMail kdf keyAead printG kem aead ctx files instanceUrl calls recipient replyRef subject
      body).Returns fun err => err ≠ .OK

/-- The keys that reach liboqs have the right lengths, and files without such keys end in errors. -/
structure KeysChecked (ctx : Ctx) (files : Files) : Prop where
  calls : RightCalls aead kdf keyAead kem printG ctx files
  kemRefused : (¬ ∃ ksk, Calls.loadKsk kdf keyAead ctx files = .ok ksk ∧ ksk.length = 2400) →
    KemRefused aead kdf keyAead ctx files
  sigRefused : (¬ ∃ ssk, Calls.loadSsk kdf keyAead ctx files = .ok ssk ∧ ssk.length = 4032) →
    SigRefused aead kdf keyAead kem printG ctx files

/-! ### Calls with the key that was loaded -/

theorem deref_right (o : Option α) : (deref o).Asks RightKey := by
  cases o with
  | none => exact ⟨trivial, Empty.rec⟩
  | some a => trivial

theorem kemDecapsulateKey_right {ksk : Bytes} (right : ksk.length = 2400) (encKey : Bytes) :
    (Calls.kemDecapsulateKey encKey ksk).Asks RightKey :=
  Calls.kemDecapsulateKey_asks (fun _ => right) encKey

namespace Calls

theorem valuestring_right (json : Json) (name : Bytes) : (valuestring json name).Asks RightKey :=
  (deref_right _).bind fun _ => trivial

theorem valueint_right (json : Json) (name : Bytes) : (valueint json name).Asks RightKey :=
  (deref_right _).bind fun _ => trivial

theorem optional_right (wanted : Bool) {read : Routine α} (right : read.Asks RightKey) (d : α) :
    (optional wanted read d).Asks RightKey := by
  unfold optional
  split
  · exact right
  · trivial

/-- A secret key that is there is a right one. -/
abbrev RightKsk (ksk : Option Bytes) : Prop := ∀ k, ksk = some k → k.length = 2400

theorem openKey_right {ksk : Option Bytes} (right : RightKsk ksk) (encKey : Option Bytes) :
    (openKey ksk encKey).Asks RightKey := by
  cases ksk with
  | none => trivial
  | some k => exact (deref_right _).bind fun encKey => kemDecapsulateKey_right (right k rfl) encKey

theorem takeMail_right {ksk : Option Bytes} (right : RightKsk ksk) (username : Bytes)
    (sized bodied : Bool) (json : Json) :
    (takeMail aead username ksk sized bodied json).Asks RightKey := by
  unfold takeMail
  refine (valuestring_right _ _).bind fun snd => (valuestring_right _ _).bind fun rcp =>
    (valueint_right _ _).bind fun ts => (optional_right _ (valueint_right _ _) _).bind fun sz =>
    (deref_right _).bind fun snd => (valuestring_right _ _).bind fun encKey =>
    (valuestring_right _ _).bind fun encSub =>
    (optional_right _ (valuestring_right _ _) _).bind fun encBdy => ?_
  exact (openKey_right right _).bind fun sym => (deref_right _).bind fun rcp => trivial

theorem mailEntries_right {ksk : Option Bytes} (right : RightKsk ksk) (isSent : Bool)
    (items : List Json) : (mailEntries aead isSent ksk items).Asks RightKey := by
  induction items with
  | nil => trivial
  | cons item items ih =>
    have entry : (mailEntry aead isSent ksk item).Asks RightKey := by
      unfold mailEntry
      refine (valuestring_right _ _).bind fun id => (valuestring_right _ _).bind fun party =>
        (valueint_right _ _).bind fun sz => (valueint_right _ _).bind fun ts =>
        (valuestring_right _ _).bind fun encKey => (valuestring_right _ _).bind fun encSub => ?_
      exact (openKey_right right _).bind fun sym => (deref_right _).bind fun id =>
        (deref_right _).bind fun party => trivial
    exact entry.bind fun _ => ih.bind fun _ => trivial

theorem savedEntries_right {ksk : Option Bytes} (right : RightKsk ksk) (username : Bytes)
    (dir : List SavedFile) : (savedEntries aead username ksk dir).Asks RightKey := by
  induction dir with
  | nil => trivial
  | cons file dir ih =>
    unfold savedEntries
    cases file.json with
    | none => exact ih
    | some json => exact (takeMail_right aead right _ _ _ _).bind fun _ => ih.bind fun _ => trivial

theorem createSignedHeadersBody_right {ctx : Ctx} {files : Files}
    (right : ∀ ssk, loadSsk kdf keyAead ctx files = .ok ssk → ssk.length = 4032) (now : Int)
    (pow method endpoint : Bytes) (body : Option Bytes) :
    (createSignedHeadersBody kdf keyAead now pow ctx files method endpoint body).Asks RightKey := by
  unfold createSignedHeadersBody
  cases loaded : loadSsk kdf keyAead ctx files with
  | error text => trivial
  | ok ssk => exact ⟨right ssk loaded, fun _ => trivial⟩

theorem request_right {r : Reading}
    (right : ∀ ssk, loadSsk kdf keyAead r.ctx r.files = .ok ssk → ssk.length = 4032)
    (endpoint : Bytes) {read : Json → Routine (Option α)} (next : ∀ json, (read json).Asks RightKey) :
    (r.request kdf keyAead endpoint read).Asks RightKey := by
  unfold Reading.request
  refine (createSignedHeadersBody_right kdf keyAead right _ _ _ _ _).bind fun headers => ?_
  cases headers with
  | none => trivial
  | some headers =>
    dsimp only
    cases r.reply.json with
    | none => trivial
    | some json => exact next json

theorem keyChanged_right (known : Option Bytes) (recipPk : Bytes) :
    (keyChanged known recipPk).Asks RightKey := by
  unfold keyChanged
  cases known.bind decodedKey with
  | none => trivial
  | some known => exact (deref_right _).bind fun _ => trivial

theorem shyakeRegister_right {ctx : Ctx} {files : Files}
    (right : ∀ ssk, loadSsk kdf keyAead ctx files = .ok ssk → ssk.length = 4032)
    (calls : RegisterCalls) (username : Bytes) :
    (shyakeRegister kdf keyAead printG ctx files calls username).Asks RightKey := by
  unfold shyakeRegister
  split
  · rename_i ssk _ _ loaded
    generalize registerRoot _ _ _ _ = root
    extract_lets root
    exact (deref_right _).bind fun json_raw => ⟨right ssk loaded, fun signature => trivial⟩
  · trivial

theorem sendMail_right {ctx : Ctx} {files : Files}
    (right : ∀ ssk, loadSsk kdf keyAead ctx files = .ok ssk → ssk.length = 4032)
    (instanceUrl : Bytes) (calls : SendCalls) (recipient : Bytes) (replyRef : Option Bytes)
    (subject body : Bytes) :
    (sendMail kdf keyAead printG kem aead ctx files instanceUrl calls recipient replyRef subject
      body).Asks RightKey := by
  unfold sendMail
  split
  · trivial
  split
  · trivial
  rename_i recipPkB64 _
  cases decodedKey recipPkB64 with
  | none => trivial
  | some recipPk =>
    rw [Option.elim_some]
    refine (deref_right _).bind fun recipPk => (keyChanged_right _ _).bind fun changed => ?_
    split
    · trivial
    split
    · rename_i mySsk draws _ loaded _
      split
      · trivial
      · generalize mailObj _ _ _ _ _ _ = signed_obj
        extract_lets signed_obj
        exact (deref_right _).bind fun json_raw => ⟨right mySsk loaded, fun signature => trivial⟩
    · trivial

end Calls

theorem fread_right (buffer : Bool) (n : Nat) (rest : Bytes) :
    (fread buffer n rest).Asks RightKey := by
  unfold fread
  split
  · exact ⟨trivial, Empty.rec⟩
  · trivial

theorem readHead_right (calls : DecCalls) (data : Bytes) : (readHead calls data).Asks RightKey := by
  unfold readHead
  refine (fread_right _ _ _).bind fun kemCt => ?_
  cases kemCt with
  | none => trivial
  | some kemCt =>
    dsimp only
    split
    · trivial
    refine (fread_right _ _ _).bind fun ek => ?_
    cases ek with
    | none => trivial
    | some ek =>
      refine (fread_right _ _ _).bind fun nonce => ?_
      cases nonce with
      | none => trivial
      | some nonce => trivial

theorem readText_right (calls : DecCalls) (head : EncHead) (rest : Bytes) :
    (readText calls head rest).Asks RightKey := by
  unfold readText
  refine (fread_right _ _ _).bind fun ct => ?_
  cases ct with
  | none => trivial
  | some ct =>
    refine (fread_right _ _ _).bind fun mac => ?_
    cases mac with
    | none => trivial
    | some mac => trivial

theorem shyakeDecFile_right {ctx : Ctx} {files : Files}
    (right : ∀ ksk, Calls.loadKsk kdf keyAead ctx files = .ok ksk → ksk.length = 2400)
    (decrypt : (key nonce ct mac : Bytes) → Option Bytes) (calls : DecCalls)
    (inPath outPath : Bytes) :
    (shyakeDecFile kdf keyAead decrypt calls ctx files inPath outPath).Asks RightKey := by
  unfold shyakeDecFile
  split
  · trivial
  refine (readHead_right _ _).bind fun head => ?_
  cases head with
  | none => trivial
  | some head =>
    refine (readText_right _ _ _).bind fun f => ?_
    cases f with
    | none => trivial
    | some f =>
      dsimp only
      unfold openFields
      split
      · trivial
      rename_i ksk loaded
      split
      · trivial
      refine ⟨right ksk loaded, fun ss => ?_⟩
      unfold decapsulated
      split
      · trivial
      split
      · trivial
      split
      · trivial
      exact (deref_right _).bind fun _ => trivial

/-- Keys of the right lengths are all that the library takes. -/
theorem rightCalls_of_loaded {ctx : Ctx} {files : Files}
    (kemRight : ∀ ksk, Calls.loadKsk kdf keyAead ctx files = .ok ksk → ksk.length = 2400)
    (sigRight : ∀ ssk, Calls.loadSsk kdf keyAead ctx files = .ok ssk → ssk.length = 4032) :
    RightCalls aead kdf keyAead kem printG ctx files := by
  have held : Calls.RightKsk (Calls.loadKsk kdf keyAead ctx files).toOption := by
    intro k here
    cases loaded : Calls.loadKsk kdf keyAead ctx files with
    | error text =>
      rw [loaded] at here
      cases here
    | ok ksk =>
      rw [loaded] at here
      cases here
      exact kemRight k loaded
  constructor
  · intro encKey
    unfold Calls.shyakeSelfdecNew Calls.shyakeSelfdecKey
    cases here : (Calls.loadKsk kdf keyAead ctx files).toOption with
    | none => trivial
    | some ksk =>
      refine (kemDecapsulateKey_right (held ksk here) encKey).bind fun sym => ?_
      cases sym with
      | none => trivial
      | some sym => trivial
  · exact Calls.createSignedHeadersBody_right kdf keyAead sigRight
  · exact Calls.shyakeRegister_right kdf keyAead printG sigRight
  · exact Calls.sendMail_right aead kdf keyAead kem printG sigRight
  · exact shyakeDecFile_right kdf keyAead kemRight
  · intro now pow reply type
    unfold Calls.shyakeCheck
    refine Calls.request_right kdf keyAead sigRight _ fun json => ?_
    split
    · trivial
    · extract_lets count
      clear_value count
      exact (Calls.mailEntries_right aead held _ _).bind fun _ => trivial
  · intro now pow reply mailId
    unfold Calls.shyakeFetch
    refine Calls.request_right kdf keyAead sigRight _ fun json => ?_
    exact (Calls.takeMail_right aead held _ _ _ _).bind fun _ => trivial
  · intro now pow reply mailId
    unfold Calls.shyakeCheckOne
    refine Calls.request_right kdf keyAead sigRight _ fun json => ?_
    exact (Calls.takeMail_right aead held _ _ _ _).bind fun _ => trivial
  · intro mailId saved decryptBody
    unfold Calls.parseSavedJson
    split
    · exact (Calls.takeMail_right aead held _ _ _ _).bind fun _ => trivial
    · trivial
  · intro dir
    unfold Calls.shyakeListSaved
    split
    · trivial
    extract_lets dir
    split
    · trivial
    · exact (Calls.savedEntries_right aead held _ _).bind fun _ => trivial

/-! ### Without a key -/

namespace Calls

/-- Nothing is opened of a mail. -/
theorem takeMail_closed (username : Bytes) (sized bodied : Bool) (json : Json) :
    (takeMail aead username none sized bodied json).Returns fun t =>
      t.subject = none ∧ t.body = none ∧ t.replyRef = none := by
  unfold takeMail
  refine .after _ fun snd => .after _ fun rcp => .after _ fun ts => .after _ fun sz => .after _ fun snd =>
    .after _ fun encKey => .after _ fun encSub => .after _ fun encBdy => ?_
  exact .after (deref rcp) fun rcp => ⟨rfl, rfl, rfl⟩

theorem mailEntries_closed (isSent : Bool) (items : List Json) :
    (mailEntries aead isSent none items).Returns fun entries =>
      ∀ e ∈ entries, e.subject = decryptionFailed := by
  induction items with
  | nil => exact nofun
  | cons item items ih =>
    have entry : (mailEntry aead isSent none item).Returns fun e =>
        e.subject = decryptionFailed := by
      unfold mailEntry
      refine .after _ fun id => .after _ fun party => .after _ fun sz => .after _ fun ts =>
        .after _ fun encKey => .after _ fun encSub => ?_
      exact .after (deref id) fun id => .after _ fun party => rfl
    exact entry.bind fun e failed => ih.bind fun entries others =>
      List.forall_mem_cons.mpr ⟨failed, others⟩

theorem savedEntries_closed (username : Bytes) (dir : List SavedFile) :
    (savedEntries aead username none dir).Returns fun entries =>
      ∀ e ∈ entries, e.subject = decryptionFailed := by
  induction dir with
  | nil => exact nofun
  | cons file dir ih =>
    unfold savedEntries
    cases file.json with
    | none => exact ih
    | some json =>
      refine (takeMail_closed aead username true false json).bind fun t closed =>
        ih.bind fun entries others => List.forall_mem_cons.mpr ⟨?_, others⟩
      rw [closed.1]
      rfl

theorem request_closed {r : Reading} (endpoint : Bytes) {read : Json → Routine (Option α)}
    {Q : α → Prop} (next : ∀ json, (read json).Returns fun o => ∀ a ∈ o, Q a) :
    (r.request kdf keyAead endpoint read).Returns fun o => ∀ a ∈ o, Q a := by
  unfold Reading.request
  refine .after _ fun headers => ?_
  cases headers with
  | none => exact nofun
  | some headers =>
    dsimp only
    cases r.reply.json with
    | none => exact nofun
    | some json => exact next json

end Calls

theorem kemRefused_of_error {ctx : Ctx} {files : Files} {text : Option Bytes}
    (refused : Calls.loadKsk kdf keyAead ctx files = .error text) :
    KemRefused aead kdf keyAead ctx files := by
  have null : (Calls.loadKsk kdf keyAead ctx files).toOption = none := by
    rw [refused]
    rfl
  have ksk (now : Int) (pow : Bytes) (reply : Calls.Reply) :
      Calls.Reading.ksk kdf keyAead ⟨ctx, files, now, pow, reply⟩ = none := null
  constructor
  · exact null
  · intro decrypt calls inPath outPath
    unfold shyakeDecFile
    split
    · exact ⟨nofun, rfl⟩
    refine .after _ fun head => ?_
    cases head with
    | none => exact ⟨nofun, rfl⟩
    | some head =>
      refine .after _ fun f => ?_
      cases f with
      | none => exact ⟨nofun, rfl⟩
      | some f =>
        dsimp only
        unfold openFields
        rw [refused]
        exact ⟨nofun, rfl⟩
  · intro now pow reply type
    unfold Calls.shyakeCheck
    refine Calls.request_closed kdf keyAead _ fun json => ?_
    split
    · exact nofun
    · extract_lets count
      clear_value count
      rw [ksk]
      refine (Calls.mailEntries_closed aead _ _).bind fun entries closed => ?_
      rintro _ ⟨⟩
      exact closed
  · intro now pow reply mailId
    unfold Calls.shyakeFetch
    refine Calls.request_closed kdf keyAead _ fun json => ?_
    rw [ksk]
    refine (Calls.takeMail_closed aead _ _ _ _).bind fun t closed => ?_
    rintro _ ⟨⟩
    exact closed
  · intro now pow reply mailId
    unfold Calls.shyakeCheckOne
    refine Calls.request_closed kdf keyAead _ fun json => ?_
    rw [ksk]
    refine (Calls.takeMail_closed aead _ _ _ _).bind fun t closed => ?_
    rintro _ ⟨⟩
    exact ⟨closed.1, rfl, closed.2.2⟩
  · intro mailId saved decryptBody
    unfold Calls.parseSavedJson
    split
    · rw [null]
      refine (Calls.takeMail_closed aead _ _ _ _).bind fun t closed => ?_
      rintro _ ⟨⟩
      refine ⟨closed.1, ?_, closed.2.2⟩
      dsimp only
      split
      · exact closed.2.1
      · rfl
    · exact nofun
  · intro dir
    unfold Calls.shyakeListSaved
    split
    · exact nofun
    extract_lets dir
    split
    · rintro _ ⟨⟩
      exact nofun
    · rw [null]
      refine (Calls.savedEntries_closed aead _ _).bind fun entries closed => ?_
      rintro _ ⟨⟩
      exact closed

theorem sigRefused_of_error {ctx : Ctx} {files : Files} {text : Option Bytes}
    (refused : Calls.loadSsk kdf keyAead ctx files = .error text) :
    SigRefused aead kdf keyAead kem printG ctx files := by
  constructor
  · intro now pow method endpoint body
    unfold Calls.createSignedHeadersBody
    rw [refused]
  · intro calls username
    unfold Calls.shyakeRegister
    rw [refused]
    split
    · rename_i loaded
      cases loaded
    · rfl
  · intro instanceUrl calls recipient replyRef subject body
    unfold Calls.sendMail
    split
    · exact nofun
    split
    · rename_i err _
      exact err.2
    rename_i recipPkB64 _
    cases Calls.decodedKey recipPkB64 with
    | none => exact nofun
    | some recipPk =>
      rw [Option.elim_some]
      refine .after _ fun recipPk => .after _ fun changed => ?_
      split
      · exact nofun
      rw [refused]
      split
      · rename_i loaded _
        cases loaded
      · exact nofun

/-! ## Keys of the wrong length -/

/-- A wrapped key of the right length reaches the KEM with the secret key, whatever that is. -/
theorem loadedKsk_right {ctx : Ctx} {files : Files}
    (right : ∀ encKey, (Calls.shyakeSelfdecKey (Calls.shyakeSelfdecNew kdf keyAead ctx files)
      encKey).Asks RightKey) {ksk : Bytes}
    (loaded : Calls.loadKsk kdf keyAead ctx files = .ok ksk) : ksk.length = 2400 := by
  have short : (List.replicate 1120 (0 : UInt8)).length ≤ maxLength := by
    rw [List.length_replicate]
    decide
  have asked := right (encodeBlock (List.replicate 1120 0))
  unfold Calls.shyakeSelfdecNew Calls.shyakeSelfdecKey at asked
  rw [loaded] at asked
  have asked := Lib.Prog.Asks.left asked
  unfold Calls.kemDecapsulateKey at asked
  rw [base64Decode_encodeBlock short, Option.elim_some, List.length_replicate] at asked
  dsimp only at asked
  rw [if_neg (by decide)] at asked
  exact asked.1

theorem loadedSsk_right {ctx : Ctx} {files : Files}
    (right : ∀ now pow method endpoint body, (Calls.createSignedHeadersBody kdf keyAead now pow ctx
      files method endpoint body).Asks RightKey) {ssk : Bytes}
    (loaded : Calls.loadSsk kdf keyAead ctx files = .ok ssk) : ssk.length = 4032 := by
  have asked := right 0 [] [] [] none
  unfold Calls.createSignedHeadersBody at asked
  rw [loaded] at asked
  exact asked.1

/-- **Secret keys reach liboqs with the right lengths exactly when their files hold such keys**: a
raw file is taken as it is, and an encrypted one with whatever was encrypted. -/
theorem secret_keys (ctx : Ctx) (files : Files) :
    KeysChecked aead kdf keyAead kem printG ctx files ↔ HoldKeys kdf keyAead ctx files := by
  constructor
  · rintro ⟨right, -, -⟩
    refine ⟨(loaded_iff kdf keyAead 2400 _ _ files).mp fun ksk loaded => ?_,
      (loaded_iff kdf keyAead 4032 _ _ files).mp fun ssk loaded => ?_⟩
    · exact loadedKsk_right kdf keyAead right.selfdecKey loaded
    · exact loadedSsk_right kdf keyAead right.headers loaded
  · rintro ⟨kemHeld, sigHeld⟩
    have kemRight : ∀ ksk, Calls.loadKsk kdf keyAead ctx files = .ok ksk → ksk.length = 2400 :=
      (loaded_iff kdf keyAead 2400 _ _ files).mpr kemHeld
    have sigRight : ∀ ssk, Calls.loadSsk kdf keyAead ctx files = .ok ssk → ssk.length = 4032 :=
      (loaded_iff kdf keyAead 4032 _ _ files).mpr sigHeld
    refine ⟨rightCalls_of_loaded aead kdf keyAead kem printG kemRight sigRight, fun no => ?_,
      fun no => ?_⟩
    · cases loaded : Calls.loadKsk kdf keyAead ctx files with
      | error text => exact kemRefused_of_error aead kdf keyAead loaded
      | ok ksk => exact absurd ⟨ksk, loaded, kemRight ksk loaded⟩ no
    · cases loaded : Calls.loadSsk kdf keyAead ctx files with
      | error text => exact sigRefused_of_error aead kdf keyAead kem printG loaded
      | ok ssk => exact absurd ⟨ssk, loaded, sigRight ssk loaded⟩ no

namespace Sample

/-- A KEM key file that was cut off after its first byte. -/
def cutOff : Files := fun path => if path = alice.path (utf8 "kem_sk.bin") then some [7] else none

/-- **A key of one byte reaches liboqs**, which reads 2400. -/
theorem one_byte_key :
    ¬ KeysChecked tagAead plainKdf (fun _ => tagAead) xorKem Go.formatInt alice cutOff := by
  intro checked
  have here : cutOff (alice.path (utf8 "kem_sk.bin")) = some [7] := if_pos rfl
  have loaded : Calls.loadKsk plainKdf (fun _ => tagAead) alice cutOff = .ok [7] := by
    unfold Calls.loadKsk loadSkDecrypted
    rw [here]
    exact openSk_raw _ _ (by decide) _
  have length := loadedKsk_right _ _ checked.calls.selfdecKey loaded
  cases length

end Sample

end Shyake.Client
