import Shyake.Client.Crypto
import Shyake.Client.Signed

/-!
# Writing and reading mail (`mail.c`)

`send_mail` seals a subject, a body and a reply reference under one symmetric key, and
wraps that key twice, for the recipient and for the sender. The readers open a mail's
JSON with the secret key of the user; which of the two wrapped keys they take is a
matter of the names in it.
-/

namespace Shyake.Client

open CJson

/-! ## References -/

def REF_LEN : Nat := 64

/-- `is_ref`. -/
def isRef (s : Bytes) : Bool :=
  s.length == REF_LEN && s.all fun c => (utf8 "0123456789abcdef").contains c

/-- `sig_ref`, of a C string. -/
def sigRef (signature : Bytes) : Bytes := Go.hexEncode (Lib.sha256 signature)

/-- `json_ref`. -/
def jsonRef (json : Object) : Option Bytes := (getString json (utf8 "signature")).map sigRef

variable (kem : Kem) (aead : Aead)

/-- `open_reply_ref`. -/
def openReplyRef (sym : Bytes) (json : Object) : Option Bytes := do
  let e ← getString json (utf8 "enc_reply_to")
  let ref ← decryptFromB64 aead sym e
  if isRef ref then some ref else none

/-! ## send_mail -/

/-- What `send_mail` draws at random. -/
structure Draws where
  symKey : Bytes
  nonceSubject : Bytes
  nonceBody : Bytes
  nonceReply : Bytes
  coinsRecipient : Bytes
  coinsSender : Bytes
  length_symKey : symKey.length = 32
  length_nonceSubject : nonceSubject.length = 12
  length_nonceBody : nonceBody.length = 12
  length_nonceReply : nonceReply.length = 12

/-- What it computes of them; a subject or a body that was not encrypted is NULL. -/
structure Sealed where
  encSubject : Option Bytes
  encBody : Option Bytes
  encReplyTo : Option Bytes
  encKeyRecipient : Bytes
  encKeySender : Bytes

def sealMail (draws : Draws) (recipPk myKpk : Bytes) (replyRef : Option Bytes)
    (subject body : Bytes) : Option Sealed := do
  let encSubject := encryptToB64 aead draws.symKey draws.nonceSubject subject
  let encBody := encryptToB64 aead draws.symKey draws.nonceBody body
  let encReplyTo := replyRef.bind (encryptToB64 aead draws.symKey draws.nonceReply)
  let encKeyRecipient ← kemEncapsulateKey kem draws.coinsRecipient recipPk draws.symKey
  let encKeySender ← kemEncapsulateKey kem draws.coinsSender myKpk draws.symKey
  if replyRef.isSome ∧ encReplyTo.isNone then none
  else some ⟨encSubject, encBody, encReplyTo, encKeyRecipient, encKeySender⟩

/-- `root`. The signature and the token are made of `signed_obj`, and are given here. -/
def rootObj (m : Sealed) (sender recipient fp_hex timestamp : Bytes) (body_len : Nat)
    (sig_b64 pow : Bytes) : Object :=
  let o := createObject
  let o := addStringToObject o (utf8 "sender") sender
  let o := addStringToObject o (utf8 "recipient") recipient
  let o := addStringToObject o (utf8 "recipient_kem_fingerprint") fp_hex
  let o := addStringToObject o (utf8 "enc_subject") (m.encSubject.getD [])
  let o := addStringOrNull o (utf8 "enc_body") m.encBody
  let o := addStringOrNull o (utf8 "enc_reply_to") m.encReplyTo
  let o := addStringToObject o (utf8 "timestamp") timestamp
  let o := addNumberToObject o (utf8 "size") body_len
  let o := addStringToObject o (utf8 "enc_key_sender") m.encKeySender
  let o := addStringToObject o (utf8 "enc_key_recipient") m.encKeyRecipient
  let o := addStringToObject o (utf8 "signature") sig_b64
  addStringToObject o (utf8 "pow") pow

/-- The mail that `send_mail` posts, once the recipient's key is known and agreed to. -/
def buildMail (draws : Draws) (recipPk myKpk : Bytes) (replyRef : Option Bytes)
    (subject body sender recipient fp_hex timestamp sig_b64 pow : Bytes) : Option Object :=
  if replyRef.any (!isRef ·) then none
  else do
    let m ← sealMail kem aead draws recipPk myKpk replyRef subject body
    some (rootObj m sender recipient fp_hex timestamp body.length sig_b64 pow)

/-! ## Readers

`none` is a read through a NULL: a field that is not there, or that has to be a string and is not. -/

/-- What the readers have of a mail's JSON in common. The symmetric key is NULL without a secret
key that unwraps it, and so is what it would open. -/
structure Opened where
  sender : Bytes
  recipient : Bytes
  timestamp : Int
  sym : Option Bytes
  subject : Option Bytes
  replyRef : Option Bytes

/-- `ekf`. -/
def keyField (mine : Bool) : Bytes :=
  if mine then utf8 "enc_key_sender" else utf8 "enc_key_recipient"

/-- `sym`: without a secret key nothing is unwrapped. -/
def openKey : (ksk encKey : Option Bytes) → Option (Option Bytes)
  | none, _ => some none
  | some _, none => none
  | some ksk, some encKey => some (kemDecapsulateKey kem encKey ksk)

/-- `decrypt_from_b64` with a key and a text that may be NULL. -/
def openText (sym enc : Option Bytes) : Option Bytes := do
  let sym ← sym
  let enc ← enc
  decryptFromB64 aead sym enc

def openJson (username : Bytes) (ksk : Option Bytes) (json : Object) : Option Opened := do
  let snd ← getString json (utf8 "sender")
  let rcp ← getString json (utf8 "recipient")
  let ts ← getObjectItem json (utf8 "timestamp")
  let encKey ← getObjectItem json (keyField (username == snd))
  let encSub ← getObjectItem json (utf8 "enc_subject")
  let sym ← openKey kem ksk encKey.valuestring
  some ⟨snd, rcp, ts.valueint, sym, openText aead sym encSub.valuestring,
    sym.bind fun sym => openReplyRef aead sym json⟩

structure MailDetail where
  mailId : Bytes
  sender : Bytes
  recipient : Bytes
  subject : Option Bytes
  body : Option Bytes
  timestamp : Int
  size : Int
  ref : Option Bytes
  replyRef : Option Bytes

/-- `shyake_fetch`, of an answer with status 200. -/
def shyakeFetch (username : Bytes) (ksk : Option Bytes) (mailId : Bytes) (json : Object) :
    Option MailDetail := do
  let o ← openJson kem aead username ksk json
  let encBdy ← getObjectItem json (utf8 "enc_body")
  some
    { mailId, sender := o.sender, recipient := o.recipient, subject := o.subject,
      body := openText aead o.sym encBdy.valuestring, timestamp := o.timestamp, size := 0,
      ref := jsonRef json, replyRef := o.replyRef }

/-- `shyake_check_one`, of an answer with status 200. -/
def shyakeCheckOne (username : Bytes) (ksk : Option Bytes) (mailId : Bytes) (json : Object) :
    Option MailDetail := do
  let o ← openJson kem aead username ksk json
  let sz ← getObjectItem json (utf8 "size")
  some
    { mailId, sender := o.sender, recipient := o.recipient, subject := o.subject, body := none,
      timestamp := o.timestamp, size := sz.valueint, ref := jsonRef json, replyRef := o.replyRef }

/-- `parse_saved_json`, of the JSON in the file. -/
def parseSavedJson (username : Bytes) (ksk : Option Bytes) (mailId : Bytes) (json : Object)
    (decryptBody : Bool) : Option MailDetail := do
  let o ← openJson kem aead username ksk json
  let sz ← getObjectItem json (utf8 "size")
  let encBdy ← getObjectItem json (utf8 "enc_body")
  some
    { mailId, sender := o.sender, recipient := o.recipient, subject := o.subject,
      body := if decryptBody then openText aead o.sym encBdy.valuestring else none,
      timestamp := o.timestamp, size := sz.valueint, ref := jsonRef json, replyRef := o.replyRef }

def shyakeReadSaved (username : Bytes) (ksk : Option Bytes) (mailId : Bytes) (json : Object) :
    Option MailDetail :=
  parseSavedJson kem aead username ksk mailId json true

def shyakeCheckSavedOne (username : Bytes) (ksk : Option Bytes) (mailId : Bytes) (json : Object) :
    Option MailDetail :=
  parseSavedJson kem aead username ksk mailId json false

def decryptionFailed : Bytes := utf8 "(decryption failed)"

structure SavedEntry where
  mailId : Bytes
  sender : Bytes
  recipient : Bytes
  subject : Bytes
  timestamp : Int
  size : Int

/-- The entry that `shyake_list_saved` makes of one file. -/
def savedEntry (username : Bytes) (ksk : Option Bytes) (mailId : Bytes) (json : Object) :
    Option SavedEntry := do
  let o ← openJson kem aead username ksk json
  let sz ← getObjectItem json (utf8 "size")
  some
    { mailId, sender := o.sender, recipient := o.recipient,
      subject := o.subject.getD decryptionFailed, timestamp := o.timestamp, size := sz.valueint }

structure MailEntry where
  mailId : Bytes
  party : Bytes
  subject : Bytes
  size : Int
  timestamp : Int
  isSent : Bool
  ref : Option Bytes

/-- The entry that `shyake_check` makes of one item of the list. -/
def mailEntry (isSent : Bool) (ksk : Option Bytes) (item : Object) : Option MailEntry := do
  let id ← getString item (utf8 "mail_id")
  let party ← getString item (if isSent then utf8 "recipient" else utf8 "sender")
  let sz ← getObjectItem item (utf8 "size")
  let ts ← getObjectItem item (utf8 "timestamp")
  let encKey ← getObjectItem item (keyField isSent)
  let encSub ← getObjectItem item (utf8 "enc_subject")
  let sym ← openKey kem ksk encKey.valuestring
  some
    { mailId := id, party,
      subject := (openText aead sym encSub.valuestring).getD decryptionFailed,
      size := sz.valueint, timestamp := ts.valueint, isSent,
      ref := (getString item (utf8 "sig_hash")).filter isRef }

end Shyake.Client
