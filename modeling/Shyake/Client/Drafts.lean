import Shyake.Client.Calls
import Shyake.Client.Json

/-!
# Drafts (`cli/drafts.c`)

A draft is sealed to the user's own key and kept as JSON in a file. Saving over one cuts
the file to nothing before the new JSON is made, and what becomes of the bytes that are
written is not looked at.
-/

namespace Shyake.Client

open CJson (Object addStringToObject addNumberToObject addStringOrNull createObject printUnformatted)

/-- An argument that is a C string. -/
abbrev CString := {s : Bytes // NulFree s}

/-- What the library takes from `cJSON_Parse`: the tree, and the double of the item of a name, cut to
an integer. -/
structure JsonParser where
  parse : (text : Bytes) → Option Json
  valuedouble : (text name : Bytes) → Int

/-- The tree of an object of strings and numbers. -/
def Json.ofObject (o : Object) : Json :=
  .object (o.map fun item => (item.string,
    match item.value with
    | .string s => .string s
    | .number i _ => .number i))

/-- What is printed of an object is parsed to it, and neither a part of it nor nothing is JSON. -/
structure ParsesBack (parser : JsonParser) (printG : Int → Bytes) (o : Object) : Prop where
  nothing : parser.parse [] = none
  whole : ∀ text, printUnformatted printG o = some text → parser.parse text = some (.ofObject o)
  part : ∀ text, printUnformatted printG o = some text → ∀ n < text.length,
    parser.parse (text.take n) = none

/-! ## Saving -/

/-- `drafts_set_error`. -/
def draftsSetError (text : Bytes) : Bytes := snprintf 256 text

/-- The file of a draft. -/
def draftPath (configDir id : Bytes) : Bytes :=
  snprintf 640 (configDir ++ utf8 "/drafts/" ++ id ++ utf8 ".json")

/-- What `cli_save_draft` takes from its surroundings. -/
structure DraftCalls where
  /-- `ensure_drafts_dir`. -/
  dir : Bool
  now : Int
  /-- Whether a draft that is there can be read. -/
  read : Bool
  symKey : Random 32
  /-- `none` when liboqs has no KEM. -/
  coins : Option Bytes
  nonceRecipient : Random 12
  nonceSubject : Random 12
  nonceReply : Random 12
  nonceBody : Random 12
  /-- `max_draft_id`. -/
  maxId : Int
  /-- Whether a file that can be there is opened. -/
  opens : Bool
  fdopen : Bool
  /-- How many bytes of the JSON are in the file once it is closed. -/
  written : Nat

/-- The sealed fields of a draft. -/
structure SealedDraft where
  encKey : Bytes
  encRecipient : Option Bytes
  encSubject : Option Bytes
  encBody : Bytes
  encReplyTo : Option Bytes

/-- What it returns, with the text in `drafts_error` and `*out_id`. -/
structure SavedDraft where
  err : ShyakeErr
  error : Bytes
  outId : Option Bytes

variable (kdf : Kdf) (keyAead : Bytes → Aead) (kem : Kem) (aead : Aead) (printG : Int → Bytes)
  (parser : JsonParser)

/-- `shyake_selfenc_begin`: the key that is drawn, and the same wrapped. -/
def shyakeSelfencBegin (ctx : Ctx) (files : Files) (calls : DraftCalls) :
    Option ({b : Bytes // b.length = 32} × Bytes) := do
  let kpk ← files (ctx.path (utf8 "kem_pk.bin"))
  let symKey ← calls.symKey
  let coins ← calls.coins
  let encKey ← kemEncapsulateKey kem coins kpk symKey
  some (symKey, encKey)

/-- `shyake_seal_b64`. -/
def shyakeSealB64 (symKey : Bytes) (nonce : Random 12) (pt : Bytes) : Option Bytes :=
  nonce.bind fun nonce => encryptToB64 aead symKey nonce pt

/-- The recipient and the subject are left out when they are empty, and the reference when it is
NULL; `none` when a field that is not left out cannot be sealed. -/
def sealDraft (calls : DraftCalls) (symKey encKey : Bytes) (recipient subject replyRef : Option CString)
    (body : Bytes) : Option SealedDraft :=
  let filled (text : Option CString) := text.filter (·.1 ≠ [])
  let encRec := (filled recipient).bind fun s => shyakeSealB64 aead symKey calls.nonceRecipient s.1
  let encSub := (filled subject).bind fun s => shyakeSealB64 aead symKey calls.nonceSubject s.1
  let encRe := replyRef.bind fun s => shyakeSealB64 aead symKey calls.nonceReply s.1
  match shyakeSealB64 aead symKey calls.nonceBody body with
  | none => none
  | some encBdy =>
    if ((filled recipient).isSome ∧ encRec.isNone) ∨ ((filled subject).isSome ∧ encSub.isNone) ∨
        (replyRef.isSome ∧ encRe.isNone) then none
    else some ⟨encKey, encRec, encSub, encBdy, encRe⟩

/-- The loop over the ids of a new draft. -/
def newDraft (configDir : Bytes) (files : Files) (opens : Bool) : (tries : Nat) → (id : Int) →
    Option (Bytes × Bytes)
  | 0, _ => none
  | tries + 1, id =>
    let path := draftPath configDir (Go.formatInt id)
    if (files path).isSome then newDraft configDir files opens tries (id + 1)
    else if opens then some (snprintf 32 (Go.formatInt id), path)
    else none

/-- `open`: the id and the path of the file, which is cut to nothing. -/
def openDraft (configDir : Bytes) (files : Files) (calls : DraftCalls) :
    Option Bytes → Option (Bytes × Bytes)
  | some draftId =>
    let path := draftPath configDir draftId
    if (files path).isSome ∧ calls.opens then some (snprintf 32 draftId, path) else none
  | none => newDraft configDir files calls.opens 100 (calls.maxId + 1)

/-- `created`: that of the draft that is there, if it has one; `none` when it cannot be read. -/
def draftCreated (configDir : Bytes) (files : Files) (calls : DraftCalls) :
    Option Bytes → Option Int
  | none => some calls.now
  | some draftId =>
    match if calls.read then files (draftPath configDir draftId) else none with
    | none => none
    | some raw =>
      if ((parser.parse raw).bind (·.getObjectItem (utf8 "created"))).isSome then
        some (parser.valuedouble raw (utf8 "created"))
      else some calls.now

/-- `root`. -/
def draftObj (id : Bytes) (created now : Int) (body_len : Nat) (sealed : SealedDraft) : Object :=
  let o := createObject
  let o := addNumberToObject o (utf8 "version") 1
  let o := addStringToObject o (utf8 "draft_id") id
  let o := addNumberToObject o (utf8 "created") created
  let o := addNumberToObject o (utf8 "modified") now
  let o := addNumberToObject o (utf8 "size") body_len
  let o := addStringToObject o (utf8 "enc_key") sealed.encKey
  let o := addStringToObject o (utf8 "enc_recipient") (sealed.encRecipient.getD [])
  let o := addStringToObject o (utf8 "enc_subject") (sealed.encSubject.getD [])
  let o := addStringToObject o (utf8 "enc_body") sealed.encBody
  addStringOrNull o (utf8 "enc_reply_to") sealed.encReplyTo

/-- `cli_save_draft`, with the files that it leaves. It does not return when a print that failed is
written. -/
def cliSaveDraft (ctx : Ctx) (calls : DraftCalls) (recipient subject replyRef : Option CString)
    (body : Bytes) (draftId : Option Bytes) (files : Files) : Option SavedDraft × Files :=
  if body = [] then (some ⟨.ERR, [], none⟩, files)
  else if calls.dir = false then
    (some ⟨.ERR, draftsSetError (utf8 "Cannot create the drafts directory."), none⟩, files)
  else
    match draftCreated parser ctx.configDir files calls draftId with
    | none => (some ⟨.ERR_NOT_FOUND, [], none⟩, files)
    | some created =>
      match shyakeSelfencBegin kem ctx files calls with
      | none => (some ⟨.ERR_CRYPTO,
          draftsSetError (utf8 "Cannot load kem_pk.bin. Run 'shyake init'."), none⟩, files)
      | some (symKey, encKey) =>
        match sealDraft aead calls symKey encKey recipient subject replyRef body with
        | none => (some ⟨.ERR_CRYPTO, [], none⟩, files)
        | some sealed =>
          match openDraft ctx.configDir files calls draftId with
          | none => (some ⟨.ERR, [], none⟩, files)
          | some (id, path) =>
            let files := Function.update files path (some [])
            let payload :=
              printUnformatted printG (draftObj id created calls.now body.length sealed)
            if calls.fdopen = false then (some ⟨.ERR, [], none⟩, files)
            else
              match payload with
              | none => (none, files)
              | some payload => (some ⟨.OK, [], some id⟩,
                  Function.update files path (some (payload.take calls.written)))

/-! ## Reading -/

/-- What `cli_read_draft` returns. -/
structure Draft where
  mailId : Bytes
  sender : Bytes
  recipient : Option Bytes
  subject : Option Bytes
  body : Option Bytes
  timestamp : Int
  created : Int
  size : Int
  replyRef : Option Bytes

/-- `decrypt_field`. -/
def decryptField (sym : Bytes) (enc : Option Bytes) : Option Bytes :=
  match enc.filter (· ≠ []) with
  | none => some []
  | some enc => decryptFromB64 aead sym enc

/-- The number of that name, or zero. -/
def jsonDouble (raw : Bytes) (json : Json) (name : Bytes) : Int :=
  if (json.getObjectItem name).isSome then parser.valuedouble raw name else 0

/-- `parse_draft_json`, with the text in `drafts_error` for a NULL. `lastError` is what the context
holds from before. -/
def parseDraftJson (ctx : Ctx) (lastError username draftId : Bytes) (decryptBody : Bool)
    (files : Files) : Except Bytes Draft :=
  match files (draftPath ctx.configDir draftId) with
  | none => .error (draftsSetError (utf8 "Draft " ++ draftId ++ utf8 " not found."))
  | some raw =>
    match parser.parse raw with
    | none => .error (draftsSetError (utf8 "Draft " ++ draftId ++ utf8 " is corrupt."))
    | some json =>
      match json.getString (utf8 "enc_key"), json.getString (utf8 "enc_body") with
      | some jkey, some jbdy =>
        match Calls.loadKsk kdf keyAead ctx files with
        | .error e =>
          let e := e.getD lastError
          .error (draftsSetError (if e ≠ [] then e else utf8 "Cannot unlock the secret key."))
        | .ok ksk =>
          let jre := (json.getString (utf8 "enc_reply_to")).filter (· ≠ [])
          let failed :=
            .error (draftsSetError (utf8 "Cannot decrypt draft " ++ draftId ++ utf8 "."))
          (kemDecapsulateKey kem jkey ksk).elim failed fun sym =>
            let re := jre.bind (decryptFromB64 aead sym)
            let bdy := if decryptBody then decryptFromB64 aead sym jbdy else none
            if (decryptBody ∧ bdy.isNone) ∨ (jre.isSome ∧ re.isNone) then failed
            else .ok
              { mailId := draftId
                sender := if username ≠ [] then username else utf8 "(me)"
                recipient := decryptField aead sym (json.getString (utf8 "enc_recipient"))
                subject := decryptField aead sym (json.getString (utf8 "enc_subject"))
                body := bdy
                timestamp := jsonDouble parser raw json (utf8 "modified")
                created := jsonDouble parser raw json (utf8 "created")
                size := ((json.getObjectItem (utf8 "size")).map Json.valueint).getD 0
                replyRef := re }
      | _, _ => .error (draftsSetError (utf8 "Draft " ++ draftId ++ utf8 " is corrupt."))

/-- `cli_read_draft`. -/
def cliReadDraft (ctx : Ctx) (lastError username draftId : Bytes) (files : Files) :
    Except Bytes Draft :=
  parseDraftJson kdf keyAead kem aead parser ctx lastError username draftId true files

end Shyake.Client
