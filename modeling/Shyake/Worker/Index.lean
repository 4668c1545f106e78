import Shyake.Go.Std
import Shyake.Worker.Utils

/-!
# The Worker's handlers (`server/cf/src/index.ts`)

Registration, keys, mail, mailboxes, the blocklist, rotation and destruction, as
programs over what they ask of their surroundings: the clock, the random source, D1,
and other instances. A D1 statement that fails throws; so does a method call on a
value that is no string.
-/

namespace Shyake.Worker

/-- A row of table `users`. Only `register` inserts one, after `isValidUsername`. -/
structure User where
  username : Bytes
  kemPubkey : Bytes
  sigPubkey : Bytes
  createdAt : Int
  named : isValidUsername username = true

/-- A value of a decoded body: falsy, a string, or anything else, with the text that D1 stores for
it if it binds such a value. -/
inductive Field where
  | missing
  | text (s : Bytes)
  | other (bound : Option Bytes)
  deriving DecidableEq

/-- A falsy field. -/
def Field.isMissing : Field → Bool
  | missing => true
  | _ => false

/-- What D1 binds. -/
def Field.bound : Field → Option Bytes
  | missing => none
  | text s => some s
  | other bound => bound

/-- What a key lookup returns. -/
structure Keys where
  kem : Field
  sig : Field
  deriving DecidableEq

/-- A row of table `mail`; the values that are only stored are taken from the raw body. -/
structure Mail where
  id : Bytes
  sender : Bytes
  recipient : Bytes
  raw : Bytes
  timestamp : Int
  deriving DecidableEq

inductive Stmt where
  /-- The guarded INSERT of `register`; its result is whether a row was added. -/
  | createUser (u : User)
  /-- `SELECT kem_pubkey, sig_pubkey FROM users WHERE username = ?`. -/
  | keys (username : Bytes)
  | blocked (blocker sender domain : Bytes)
  | insertMail (m : Mail)
  | addBlock (blocker blocked : Bytes) (at_ : Int)
  | removeBlock (blocker blocked raw : Bytes)
  | updateKeys (username kem sig : Bytes)
  /-- `DELETE FROM mail WHERE sender = ? OR recipient = ?`. -/
  | deleteMail (username : Bytes)
  | listMail (username : Bytes) (sent : Bool)
  /-- `SELECT * FROM mail WHERE mail_id = ? AND (sender = ? OR recipient = ?)`. -/
  | getMail (id username : Bytes)
  /-- The same, of `mail_id` alone. -/
  | hasMail (id username : Bytes)
  /-- `DELETE FROM mail WHERE mail_id = ?`. -/
  | burnMail (id : Bytes)
  | listBlocks (blocker : Bytes)
  /-- `DELETE FROM blocks WHERE blocker = ? OR blocked = ?`. -/
  | deleteBlocks (username : Bytes)

abbrev Stmt.Result : Stmt → Type
  | createUser _ => Bool
  | keys _ => Option (Bytes × Bytes)
  | blocked _ _ _ => Bool
  | listMail _ _ => List Mail
  | getMail _ _ => Option Mail
  | hasMail _ _ => Bool
  | listBlocks _ => List (Bytes × Int)
  | _ => Unit

inductive Query where
  /-- `Date.now()`. -/
  | now
  /-- `Math.random()`, ten times, as indexes into the charset. -/
  | random
  | db (s : Stmt)
  /-- `fetch`; no answer is an exception. -/
  | get (url : Bytes)
  | post (url body : Bytes)

abbrev Answer : Query → Type
  | .now => Nat
  | .random => List Nat
  | .db s => Option s.Result
  | .get _ => Option (Nat × Bytes)
  | .post _ _ => Option (Nat × Bytes)

abbrev Effects : Lib.Interface := ⟨Query, Answer⟩

abbrev Handler := Lib.Prog Effects

def ask (q : Query) : Handler (Answer q) := Lib.Prog.query (I := Effects) q

def exec (s : Stmt) : Handler (Option s.Result) := ask (.db s)

/-! ## Bodies -/

/-- The body of POST /api/mail. -/
structure MailBody where
  sender : Field
  recipient : Field
  fingerprint : Field
  encKeySender : Field
  encKeyRecipient : Field
  /-- Whether the field is there at all. -/
  hasSubject : Bool
  encBody : Field
  /-- `none` when it is undefined or null; an empty string is falsy. -/
  encReplyTo : Option Field
  hasSize : Bool
  timestamp : Field
  /-- `String(timestamp)`, which `parseInt` reads. -/
  timestampText : Bytes
  signature : Field
  pow : Field

structure RegisterBody where
  username : Bytes
  kemPubkey : Bytes
  sigPubkey : Bytes
  timestamp : Bytes
  signature : Bytes
  pow : Bytes

/-- JSON, the decoder of an answer, base64 and the signature scheme. -/
structure Runtime where
  lowering : Lowering
  /-- `JSON.parse`; `none` is an exception. -/
  mail : Bytes → Option MailBody
  register : Bytes → Option RegisterBody
  target : Bytes → Option Field
  rotate : Bytes → Option Keys
  /-- `JSON.stringify` of the signed fields of a body. -/
  signedMail : Bytes → Bytes
  signedRegister : RegisterBody → Bytes
  /-- `resp.json()` of a key lookup; `none` is an exception. -/
  keys : Bytes → Option Keys
  /-- The printable `error` text of an answer, bounded. -/
  error : Bytes → Bytes
  /-- The protocol level an answer states; `none` is an exception. -/
  protocol : Bytes → Option Int
  /-- `atob`; `none` is an exception. -/
  atob : Bytes → Option Bytes
  /-- `verifySignature(key, message, signature)`; `none` is an exception. -/
  verifySignature : Bytes → Bytes → Bytes → Option Bool

structure Env extends Runtime where
  instanceDomain : Bytes
  registrationEnabled : Bool
  reservedUsernames : List Bytes
  federationEnabled : Bool
  /-- `parseInt` of the setting; NaN limits nothing. -/
  maxMailSize : Option Int

inductive Route where
  | register
  | sendMail
  | block
  | unblock
  | rotate
  | pubkey (username : Bytes)
  /-- The query parameter `type`; one that is absent is empty. -/
  | listMail (typ : Bytes)
  | getMail (id : Bytes)
  | burnMail (id : Bytes)
  | listBlocks
  | destroy
  deriving DecidableEq

structure Request where
  route : Route
  /-- The X-Shyake headers; one that is absent is empty. -/
  username : Bytes
  timestamp : Bytes
  signature : Bytes
  pow : Bytes
  body : Bytes
  deriving DecidableEq

/-- A mail as a reply has it, with the columns of its row. A listing leaves out `enc_body`,
`signature` and `enc_reply_to`, and adds `sig_hash`. -/
structure MailJSON where
  row : Mail
  sigHash : Option Bytes
  deriving DecidableEq

inductive Reply where
  | fail (status : Nat) (error : Bytes)
  | message (status : Nat) (message id : Bytes)
  | pubkeys (keys : Keys)
  | mails (list : List MailJSON)
  | mail (m : MailJSON)
  | blocks (list : List (Bytes × Int))
  /-- An exception no handler catches: 500. -/
  | crash
  deriving DecidableEq

def fail (status : Nat) (msg : String) : Reply := .fail status (utf8 msg)

/-- `parseInt(timestamp)` is within 300 seconds of the clock; NaN compares false. -/
def inWindow (timestamp : Bytes) (now : Nat) : Bool :=
  match parseInt timestamp with
  | none => true
  | some clientTs => ((now / 1000 : Nat) - clientTs).natAbs ≤ 300

/-- `toBase64Url`. -/
def toBase64Url (b64 : Bytes) : Bytes :=
  (b64.map fun c => if c == 43 then 45 else if c == 47 then 95 else c).filter fun c =>
    !(c == 61 || c == 32 || (9 ≤ c && c ≤ 13))

/-- The one that `rotate` and `destroy` have of their own leaves white space in. -/
def toBase64UrlPlain (b64 : Bytes) : Bytes :=
  (b64.map fun c => if c == 43 then 45 else if c == 47 then 95 else c).filter fun c => c != 61

/-! ## Keys -/

/-- The user whose key `getPubkeyForUser` looks up, and the instance it asks. -/
def keyOwner (e : Env) (userString : Bytes) : Bytes × Bytes :=
  let localPart := if userString.contains 64 then (Bytes.split 64 userString).getD 0 [] else
    userString
  let domainPart := if userString.contains 64 then (Bytes.split 64 userString).getD 1 [] else
    e.instanceDomain
  (localPart, domainPart)

def pubkeyURL (domainPart localPart : Bytes) : Bytes :=
  utf8 "https://" ++ domainPart ++ utf8 "/api/pubkey/" ++ localPart

/-- The outer `none` is an exception, the inner one null. -/
def getPubkeyForUser (e : Env) (userString : Bytes) : Handler (Option (Option Keys)) := do
  let (localPart, domainPart) := keyOwner e userString
  if domainPart = e.instanceDomain then
    match ← exec (.keys localPart) with
    | none => return none
    | some none => return some none
    | some (some (kem, sig)) =>
      let field (s : Bytes) : Field := if s = [] then .missing else .text s
      return some (some ⟨field kem, field sig⟩)
  else if !e.federationEnabled then return some none
  else
    match ← ask (.get (pubkeyURL domainPart localPart)) with
    | none => return some none
    | some (status, body) =>
      if ¬ (200 ≤ status ∧ status < 300) then return some none
      match e.keys body with
      | none => return some none
      | some keys => return some (some keys)

/-! ## POST /api/mail -/

/-- The SHA-256 fingerprint of a key in either base64 alphabet; `none` is an exception. -/
def fingerprintOf (e : Env) (kem : Bytes) : Option Bytes :=
  (e.atob (kem.map fun c => if c == 45 then 43 else if c == 95 then 47 else c)).map fun raw =>
    Go.hexEncode (Lib.sha256 raw)

/-- The body, its required fields and the reply field. -/
def parseMail (e : Env) (rawBody : Bytes) : Except Reply (MailBody × Bool) :=
  if e.maxMailSize.any fun max => (length rawBody : Int) > max then
    .error (fail 413 "Payload too large")
  else
    match e.mail rawBody with
    | none => .error (fail 400 "Invalid JSON")
    | some m =>
      if m.sender.isMissing || m.recipient.isMissing || m.fingerprint.isMissing ||
          m.encKeySender.isMissing || m.encKeyRecipient.isMissing || !m.hasSubject ||
          m.encBody.isMissing || !m.hasSize || m.timestamp.isMissing || m.signature.isMissing ||
          m.pow.isMissing then
        .error (fail 400 "Missing required fields")
      else
        match m.encReplyTo with
        | none => .ok (m, false)
        | some (.text _) => .ok (m, true)
        | some _ => .error (fail 400 "Invalid enc_reply_to")

/-- The signature of a mail under the sender's key. -/
def checkSignature (e : Env) (rawBody : Bytes) (signature sigPubkey : Field) : Except Reply Unit :=
  match signature, sigPubkey with
  | .other _, _ | _, .other _ => .error (fail 401 "Signature verification failed")
  | signature, sigPubkey =>
    let string : Field → Bytes
      | .text s => toBase64Url s
      | _ => []
    match e.verifySignature (string sigPubkey) (e.signedMail rawBody) (string signature) with
    | none => .error (fail 401 "Signature verification failed")
    | some false => .error (fail 401 "Invalid signature")
    | some true => .ok ()

/-- Proof of work, timestamp, keys, fingerprint and signature: the two addresses, as strings, and
the time of the check in seconds. -/
def checkMail (e : Env) (rawBody : Bytes) (m : MailBody) :
    Handler (Except Reply (Bytes × Bytes × Nat)) := do
  let now ← ask .now
  match m.pow, m.sender with
  | .text pow, .text sender =>
    if !verifyPoW pow sender now then return .error (fail 403 "Invalid Proof of Work")
    let now ← ask .now
    if !inWindow m.timestampText now then return .error (fail 403 "Timestamp out of window")
    match ← getPubkeyForUser e sender with
    | none => return .error .crash
    | some none => return .error (fail 401 "Sender not registered")
    | some (some senderUser) =>
      match m.recipient with
      | .text recipient =>
        match ← getPubkeyForUser e recipient with
        | none => return .error .crash
        | some none => return .error (fail 404 "Recipient not found")
        | some (some recipientUser) =>
          match recipientUser.kem with
          | .missing => return .error (fail 410 "USER_DESTROYED")
          | .other _ => return .error .crash
          | .text kem =>
            match fingerprintOf e kem with
            | none => return .error .crash
            | some expectedFp =>
              if m.fingerprint ≠ .text expectedFp then return .error (fail 409 "KEY_MISMATCH")
              match checkSignature e rawBody m.signature senderUser.sig with
              | .error reply => return .error reply
              | .ok _ => return .ok (sender, recipient, now / 1000)
      | _ => return .error .crash
  | _, _ => return .error (fail 403 "Invalid Proof of Work")

def charset : Bytes := utf8 "123456789ABCDEFGHJKLMNPQRSTUVWXYZabcdefghijkmnopqrstuvwxyz"

def mailURL (domain : Bytes) : Bytes := utf8 "https://" ++ domain ++ utf8 "/api/mail"

/-- `remoteLevel`; `none` is null. -/
def remoteLevel (e : Env) (domain : Bytes) : Handler (Option Int) := do
  match ← ask (.get (utf8 "https://" ++ domain ++ utf8 "/api/version")) with
  | none => return none
  | some (status, body) =>
    if status = 404 then return some 1
    if ¬ (200 ≤ status ∧ status < 300) then return none
    match e.protocol body with
    | none => return none
    | some level => return some (if level ≥ 1 then level else 1)

/-- `relayMail`; `none` is null, for a mail that the remote has accepted. -/
def relayMail (e : Env) (domain rawBody : Bytes) : Handler (Option Reply) := do
  match ← ask (.post (mailURL domain) rawBody) with
  | none => return some (fail 502 "Recipient instance unreachable")
  | some (status, body) =>
    if 200 ≤ status ∧ status < 300 then return none
    if status < 400 ∨ status ≥ 500 ∨ status = 408 ∨ status = 429 then
      return some (fail 502 "Recipient instance unreachable")
    let text := e.error body
    return some (.fail status (if text = [] then utf8 "Relay refused" else text))

/-- An older instance would reject a reply as a bad signature. -/
def takesReplies (e : Env) (recipientDomain : Bytes) (isReply : Bool) :
    Handler (Except Reply Unit) := do
  if !isReply then return .ok ()
  match ← remoteLevel e recipientDomain with
  | none => return .error (fail 502 "Recipient instance unreachable")
  | some level =>
    if level < 3 then
      return .error (fail 422 "Recipient instance does not support replies")
    return .ok ()

/-- Forward a mail for a recipient of another instance. -/
def relay (e : Env) (rawBody recipient : Bytes) (isReply : Bool) : Handler (Except Reply Unit) := do
  let recipientDomain := addressDomain e.lowering recipient e.instanceDomain
  if recipientDomain = e.lowering.toLowerCase e.instanceDomain then return .ok ()
  match ← takesReplies e recipientDomain isReply with
  | .error reply => return .error reply
  | .ok _ =>
    match ← relayMail e recipientDomain rawBody with
    | some refused => return .error refused
    | none => return .ok ()

/-- Blocklist, relay and the row. -/
def storeMail (e : Env) (rawBody : Bytes) (isReply : Bool) (sender recipient : Bytes)
    (serverTs : Nat) : Handler Reply := do
  let dbSender := normalizeAddress e.lowering sender e.instanceDomain
  let dbRecipient := normalizeAddress e.lowering recipient e.instanceDomain
  let senderDomain := addressDomain e.lowering sender e.instanceDomain
  match ← exec (.blocked dbRecipient dbSender senderDomain) with
  | none => return .crash
  | some true => return fail 403 "Recipient has blocked this sender"
  | some false =>
    let indexes ← ask .random
    let mailId := indexes.map fun i => charset.getD i 0
    match ← relay e rawBody recipient isReply with
    | .error reply => return reply
    | .ok _ =>
      match ← exec (.insertMail ⟨mailId, dbSender, dbRecipient, rawBody, serverTs⟩) with
      | none => return fail 500 "Database error"
      | some _ => return .message 201 (utf8 "Mail sent") mailId

def sendMail (e : Env) (r : Request) : Handler Reply :=
  match parseMail e r.body with
  | .error reply => return reply
  | .ok (m, isReply) => do
    match ← checkMail e r.body m with
    | .error reply => return reply
    | .ok (sender, recipient, serverTs) => storeMail e r.body isReply sender recipient serverTs

/-! ## register -/

/-- `isReservedUsername`; a username is ASCII. -/
def isReservedUsername (e : Env) (username : Bytes) : Bool :=
  e.reservedUsernames.contains (e.lowering.toLowerCase username)

def register (e : Env) (r : Request) : Handler Reply := do
  if !e.registrationEnabled then return fail 403 "Registration is disabled"
  match e.register r.body with
  | none => return .crash
  | some b =>
    if b.username = [] ∨ b.kemPubkey = [] ∨ b.sigPubkey = [] ∨ b.timestamp = [] ∨
        b.signature = [] ∨ b.pow = [] then
      return fail 400 "Missing required fields"
    if named : isValidUsername b.username = true then
      if isReservedUsername e b.username then return fail 403 "Username is reserved"
      if !verifyPoW b.pow b.username (← ask .now) then return fail 403 "Invalid Proof of Work"
      let now ← ask .now
      if !inWindow b.timestamp now then return fail 403 "Timestamp out of window"
      match e.verifySignature (toBase64Url b.sigPubkey) (e.signedRegister b)
          (toBase64Url b.signature) with
      | none => return fail 401 "Signature verification failed"
      | some false => return fail 401 "Invalid signature"
      | some true =>
        match ← exec (.createUser ⟨b.username, b.kemPubkey, b.sigPubkey, (now / 1000 : Nat),
            named⟩) with
        | none => return fail 500 "Database error"
        | some false => return fail 409 "Username already taken"
        | some true => return .message 201 (utf8 "Registered successfully") []
    else return fail 400 "Invalid username format"

/-! ## Requests that are signed in their headers -/

/-- The key of the request's user verifies the message. `destroyed` is whether the handler also
refuses a user without keys, and with which text. -/
def checkSigned (e : Env) (r : Request) (message : Bytes) (destroyed : Option Bytes)
    (sigPubkey : Bytes) : Except Reply Unit :=
  if sigPubkey = [] ∧ destroyed.isSome then .error (.fail 401 (destroyed.getD []))
  else
    let toUrl := if destroyed.isSome then toBase64UrlPlain else toBase64Url
    match e.verifySignature (toUrl sigPubkey) message (toUrl r.signature) with
    | none => .error (fail 401 "Signature verification failed")
    | some false => .error (fail 401 "Invalid signature")
    | some true => .ok ()

/-- The checks of a request, over the message that its headers and its path make. -/
def headerAuth (e : Env) (r : Request) (message : Bytes) (destroyed : Option Bytes) :
    Handler (Except Reply Unit) := do
  if r.username = [] ∨ r.timestamp = [] ∨ r.signature = [] ∨ r.pow = [] then
    return .error (fail 401 "Missing auth headers")
  if !verifyPoW r.pow r.username (← ask .now) then
    return .error (fail 403 "Invalid Proof of Work")
  if !inWindow r.timestamp (← ask .now) then return .error (fail 403 "Timestamp out of window")
  match ← exec (.keys r.username) with
  | none => return .error .crash
  | some none => return .error (.fail 401 (destroyed.getD (utf8 "User not found")))
  | some (some (_, sigPubkey)) => return checkSigned e r message destroyed sigPubkey

/-- The checks of a request with a signed body. -/
def auth (e : Env) (r : Request) (method path : Bytes) (destroyed : Option Bytes) :
    Handler (Except Reply Unit) := do
  if r.body.length > 65536 then return .error (fail 413 "Payload too large")
  let digest := Go.hexEncode (Lib.sha256 r.body)
  headerAuth e r (Bytes.join 58 [method, path, r.username, r.timestamp, digest]) destroyed

def handleBlock (e : Env) (r : Request) (unblock : Bool) : Handler Reply := do
  let method := if unblock then utf8 "DELETE" else utf8 "POST"
  match ← auth e r method (utf8 "/api/block") none with
  | .error reply => return reply
  | .ok _ =>
    match e.target r.body with
    | none => return fail 400 "Invalid JSON"
    | some .missing => return fail 400 "Missing target"
    | some (.other _) => return .crash
    | some (.text target) =>
      let normTarget := normalizeAddress e.lowering target e.instanceDomain
      if unblock then
        match ← exec (.removeBlock r.username normTarget target) with
        | none => return .crash
        | some _ => return .message 200 (utf8 "Unblocked") []
      else
        let now ← ask .now
        match ← exec (.addBlock r.username normTarget (now / 1000 : Nat)) with
        | none => return .crash
        | some _ => return .message 201 (utf8 "Blocked") []

/-- The keys and the mail are two statements. -/
def rotate (e : Env) (r : Request) : Handler Reply := do
  match ← auth e r (utf8 "POST") (utf8 "/api/rotate") (some (utf8 "User not found or destroyed"))
    with
  | .error reply => return reply
  | .ok _ =>
    match e.rotate r.body with
    | none => return fail 400 "Invalid JSON"
    | some b =>
      if b.kem.isMissing || b.sig.isMissing then return fail 400 "Missing new keys"
      match b.kem.bound, b.sig.bound with
      | some kem, some sig =>
        match ← exec (.updateKeys r.username kem sig) with
        | none => return fail 500 "Database error"
        | some _ =>
          match ← exec (.deleteMail r.username) with
          | none => return fail 500 "Database error"
          | some _ => return .message 200 (utf8 "Keys rotated and old mails deleted") []
      | _, _ => return fail 500 "Database error"

/-! ## Mailboxes -/

/-- What is signed when the body is not. -/
def headerMessage (r : Request) (method path : Bytes) : Bytes :=
  Bytes.join 58 [method, path, r.username, r.timestamp]

/-- The reference of a row: the hash of the signature in its body. -/
def sigHash (e : Env) (m : Mail) : Bytes :=
  Go.hexEncode (Lib.sha256 (((e.mail m.raw).bind fun b => b.signature.bound).getD []))

def listMail (e : Env) (r : Request) (typ : Bytes) : Handler Reply := do
  let typ := if typ = [] then utf8 "inbox" else typ
  match ← headerAuth e r (headerMessage r (utf8 "GET") (utf8 "/api/mail?type=" ++ typ)) none with
  | .error reply => return reply
  | .ok _ =>
    match ← exec (.listMail r.username (typ == utf8 "sent")) with
    | none => return fail 500 "Database error"
    | some rows => return .mails (rows.map fun m => ⟨m, some (sigHash e m)⟩)

def getMail (e : Env) (r : Request) (id : Bytes) : Handler Reply := do
  match ← headerAuth e r (headerMessage r (utf8 "GET") (utf8 "/api/mail/" ++ id)) none with
  | .error reply => return reply
  | .ok _ =>
    match ← exec (.getMail id r.username) with
    | none => return fail 500 "Database error"
    | some none => return fail 404 "Mail not found"
    | some (some m) => return .mail ⟨m, none⟩

/-- The check of the party and the removal are two statements. -/
def burnMail (e : Env) (r : Request) (id : Bytes) : Handler Reply := do
  match ← headerAuth e r (headerMessage r (utf8 "DELETE") (utf8 "/api/mail/" ++ id)) none with
  | .error reply => return reply
  | .ok _ =>
    match ← exec (.hasMail id r.username) with
    | none => return .crash
    | some false => return fail 404 "Mail not found"
    | some true =>
      match ← exec (.burnMail id) with
      | none => return .crash
      | some _ => return .message 200 (utf8 "Mail burned") []

/-! ## Keys, blocks and destruction -/

def localPubkey (username : Bytes) : Handler Reply := do
  match ← exec (.keys username) with
  | none => return .crash
  | some none => return fail 404 "User not found"
  | some (some (kem, sig)) =>
    let field (s : Bytes) : Field := if s = [] then .missing else .text s
    return .pubkeys ⟨field kem, field sig⟩

def pubkey (e : Env) (username : Bytes) : Handler Reply := do
  if username.contains 64 then
    let localUser := (Bytes.split 64 username).getD 0 []
    let domain := (Bytes.split 64 username).getD 1 []
    if domain = e.instanceDomain then localPubkey localUser
    else if !e.federationEnabled then return fail 403 "Federation disabled"
    else
      match ← ask (.get (pubkeyURL domain localUser)) with
      | none => return fail 502 "Failed to connect"
      | some (status, body) =>
        if ¬ (200 ≤ status ∧ status < 300) then
          return .fail status (utf8 "External user not found")
        match e.keys body with
        | none => return fail 502 "Failed to connect"
        | some keys => return .pubkeys keys
  else localPubkey username

def listBlocks (e : Env) (r : Request) : Handler Reply := do
  match ← headerAuth e r (headerMessage r (utf8 "GET") (utf8 "/api/block")) none with
  | .error reply => return reply
  | .ok _ =>
    match ← exec (.listBlocks r.username) with
    | none => return fail 500 "Database error"
    | some rows => return .blocks rows

/-- The keys, the mail and the blocks are three statements. -/
def destroy (e : Env) (r : Request) : Handler Reply := do
  match ← headerAuth e r (headerMessage r (utf8 "DELETE") (utf8 "/api/destroy"))
      (some (utf8 "User not found or already destroyed")) with
  | .error reply => return reply
  | .ok _ =>
    match ← exec (.updateKeys r.username [] []) with
    | none => return fail 500 "Database error"
    | some _ =>
      match ← exec (.deleteMail r.username) with
      | none => return fail 500 "Database error"
      | some _ =>
        match ← exec (.deleteBlocks r.username) with
        | none => return fail 500 "Database error"
        | some _ => return .message 200 (utf8 "Account destroyed") []

def handler (e : Env) (r : Request) : Handler Reply :=
  match r.route with
  | .register => register e r
  | .sendMail => sendMail e r
  | .block => handleBlock e r false
  | .unblock => handleBlock e r true
  | .rotate => rotate e r
  | .pubkey username => pubkey e username
  | .listMail typ => listMail e r typ
  | .getMail id => getMail e r id
  | .burnMail id => burnMail e r id
  | .listBlocks => listBlocks e r
  | .destroy => destroy e r

end Shyake.Worker
