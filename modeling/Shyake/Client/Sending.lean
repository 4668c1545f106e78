import Shyake.Client.Readers

/-!
# Registering and sending (`libshyake.c`, `mail.c`)

`shyake_register` and `send_mail` sign a print of their own JSON and post it. What the
network makes of a request is given; of the texts that they leave in the context none is
modelled.
-/

namespace Shyake.Client.Calls

open CJson

/-! ## Requests with a body -/

/-- What comes of a POST. -/
inductive Posted where
  /-- `curl_easy_init` fails. -/
  | notSent
  | noAnswer
  /-- The HTTP code, and the JSON of the body unless `cJSON_Parse` fails. -/
  | answer (code : Nat) (json : Option Json)

/-- `http_error_is`. -/
def httpErrorIs (body : Option Json) (text : Bytes) : Bool :=
  body.any fun json => json.getString (utf8 "error") == some text

variable (kdf : Kdf) (keyAead : Bytes → Aead) (printG : Int → Bytes)

/-! ## shyake_register -/

/-- `root`, with as much as is signed. -/
def registerRoot (username : Bytes) (kpk_b64 spk_b64 : Option Bytes) (timestamp : Bytes) : Object :=
  let o := addStringToObject createObject (utf8 "username") username
  let o := addStringOrNull o (utf8 "kem_pubkey") kpk_b64
  let o := addStringOrNull o (utf8 "sig_pubkey") spk_b64
  addStringToObject o (utf8 "timestamp") timestamp

theorem registerRoot_some (username kpk_b64 spk_b64 timestamp : Bytes) :
    registerRoot username (some kpk_b64) (some spk_b64) timestamp =
      registerObj username kpk_b64 spk_b64 timestamp := rfl

/-- What `shyake_register` takes from its surroundings. -/
structure RegisterCalls where
  now : Int
  /-- `shyake_mint_pow`. -/
  pow : Option Bytes
  /-- What comes of the payload, if an instance is configured. -/
  post : Option (Option Bytes → Posted)

def registered : Posted → ShyakeErr
  | .notSent => .OK
  | .noAnswer => .ERR_NETWORK
  | .answer code _ => if code = 200 ∨ code = 201 then .OK else .ERR_HTTP

/-- `shyake_register`. -/
def shyakeRegister (ctx : Ctx) (files : Files) (calls : RegisterCalls) (username : Bytes) :
    Routine ShyakeErr :=
  match files (ctx.path (utf8 "kem_pk.bin")), files (ctx.path (utf8 "sig_pk.bin")),
      loadSsk kdf keyAead ctx files with
  | some kpk, some spk, .ok ssk => do
    let root := registerRoot username (base64Encode kpk) (base64Encode spk)
      (snprintf 32 (Go.formatInt calls.now))
    -- `strlen` reads the print
    let json_raw ← deref (printUnformatted printG root)
    .ask (.sign json_raw ssk) fun signature =>
      let root := addStringOrNull root (utf8 "signature") (base64Encode signature)
      let root := addStringOrNull root (utf8 "pow") calls.pow
      .ret (match calls.post with
        | none => .ERR_NO_INSTANCE
        | some post => registered (post (printUnformatted printG root)))
  | _, _, _ => .ret .ERR_CRYPTO

/-! ## send_mail -/

/-- `signed_obj`. -/
def mailObj (m : Sealed) (sender recipient fp_hex timestamp : Bytes) (body_len : Nat) : Object :=
  let o := createObject
  let o := addStringToObject o (utf8 "sender") sender
  let o := addStringToObject o (utf8 "recipient") recipient
  let o := addStringToObject o (utf8 "recipient_kem_fingerprint") fp_hex
  let o := addStringToObject o (utf8 "enc_subject") (m.encSubject.getD [])
  let o := addStringOrNull o (utf8 "enc_body") m.encBody
  let o := addStringOrNull o (utf8 "enc_reply_to") m.encReplyTo
  let o := addStringToObject o (utf8 "timestamp") timestamp
  addNumberToObject o (utf8 "size") body_len

/-- `root`, which begins with a duplicate of `signed_obj`. -/
def mailRoot (signed_obj : Object) (m : Sealed) (sig_b64 pow : Option Bytes) : Object :=
  let o := addStringToObject signed_obj (utf8 "enc_key_sender") m.encKeySender
  let o := addStringToObject o (utf8 "enc_key_recipient") m.encKeyRecipient
  let o := addStringOrNull o (utf8 "signature") sig_b64
  addStringOrNull o (utf8 "pow") pow

theorem mailRoot_some (m : Sealed) (sender recipient fp_hex timestamp : Bytes) (body_len : Nat)
    (sig_b64 pow : Bytes) :
    mailRoot (mailObj m sender recipient fp_hex timestamp body_len) m (some sig_b64) (some pow) =
      rootObj m sender recipient fp_hex timestamp body_len sig_b64 pow := rfl

/-- What follows the first `://`, if there is one. -/
def afterScheme : Bytes → Option Bytes
  | [] => none
  | c :: cs => if (c :: cs).take 3 = utf8 "://" then some (cs.drop 2) else afterScheme cs

/-- `sender`. -/
def senderOf (ctx : Ctx) (instanceUrl recipient : Bytes) : Bytes :=
  if recipient.contains 64 then
    let d := (afterScheme instanceUrl).getD instanceUrl
    let domain := (d.takeWhile (· != 47)).take 127
    snprintf 256 (ctx.username ++ 64 :: domain)
  else ctx.username

/-- What `send_mail` takes from its surroundings. -/
structure SendCalls where
  /-- `fetch_recipient_pubkey`, which sets an error when it returns NULL. -/
  lookup : Except {err : ShyakeErr // err ≠ .OK} Bytes
  /-- `get_known_host`. -/
  known : Option Bytes
  /-- `none` when `/dev/urandom` cannot be read. -/
  draws : Option Draws
  now : Int
  pow : Option Bytes
  post : Option Bytes → Posted

def sent : Posted → ShyakeErr
  | .notSent => .ERR
  | .noAnswer => .ERR_NETWORK
  | .answer code body =>
    if code = 200 ∨ code = 201 then .OK
    else if code = 409 then .ERR_KEY_MISMATCH
    else if code = 410 then .ERR_GONE
    else if code = 403 ∧ httpErrorIs body (utf8 "Recipient has blocked this sender") then .ERR_BLOCKED
    else .ERR_HTTP

/-- A key that is base64-decoded. A length below zero is a huge `usize`, and `SHA256` reads past the
buffer. -/
def decodedKey (b64 : Bytes) : Option (Option Bytes) :=
  (base64Decode b64).map fun (pk, pkLen) => if pkLen < 0 then none else some (pk.take pkLen.toNat)

/-- Whether the key that is known of a recipient is another one. A known key that cannot be decoded is
not compared. -/
def keyChanged (known : Option Bytes) (recipPk : Bytes) : Routine Bool :=
  match known.bind decodedKey with
  | none => .ret false
  | some known => do
    let known ← deref known
    .ret (Lib.sha256 known != Lib.sha256 recipPk)

variable (kem : Kem) (aead : Aead)

/-- `send_mail`. -/
def sendMail (ctx : Ctx) (files : Files) (instanceUrl : Bytes) (calls : SendCalls)
    (recipient : Bytes) (replyRef : Option Bytes) (subject body : Bytes) : Routine ShyakeErr :=
  if replyRef.any (!isRef ·) then .ret .ERR
  else
    match calls.lookup with
    | .error err => .ret err
    | .ok recipPkB64 =>
      (decodedKey recipPkB64).elim (.ret .ERR_CRYPTO) fun recipPk => do
        let recipPk ← deref recipPk
        if ← keyChanged calls.known recipPk then .ret .ERR_KEY_MISMATCH
        else
          match files (ctx.path (utf8 "kem_pk.bin")), loadSsk kdf keyAead ctx files, calls.draws with
          | some myKpk, .ok mySsk, some draws =>
            match sealMail kem aead draws recipPk myKpk replyRef subject body with
            | none => .ret .ERR_CRYPTO
            | some m => do
              let signed_obj := mailObj m (senderOf ctx instanceUrl recipient) recipient
                (Go.hexEncode (Lib.sha256 recipPk)) (snprintf 32 (Go.formatInt calls.now)) body.length
              let json_raw ← deref (printUnformatted printG signed_obj)
              .ask (.sign json_raw mySsk) fun signature =>
                let root := mailRoot signed_obj m (base64Encode signature) calls.pow
                .ret (sent (calls.post (printUnformatted printG root)))
          | _, _, _ => .ret .ERR_CRYPTO

end Shyake.Client.Calls
