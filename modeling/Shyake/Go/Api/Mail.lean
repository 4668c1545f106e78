import Mathlib.Algebra.Field.Rat
import Shyake.Go.Api.Auth
import Shyake.Go.Federation

/-!
# Accepting mail (`Server.sendMail`)

One long handler, cut where the source asks its first question and where the last
check on keys and signature is done: a submission is parsed, then checked, then
stored. A `Submission` is what the parsing has established.
-/

namespace Shyake.Go

open Protocol (Address parseAddress verifyPoW decodeKEMKey mailMessage replyLevel)

/-- `store.NewMailID`: ten characters of base58. -/
def mailIDAlphabet : Bytes := utf8 "123456789ABCDEFGHJKLMNPQRSTUVWXYZabcdefghijkmnopqrstuvwxyz"

def newMailID : Handler Bytes := do
  let b ← ask .random
  return b.map fun c => mailIDAlphabet.getD (c.toNat % mailIDAlphabet.length) 0

/-- The loop of `InsertMail`: at most three ids are tried. -/
def insertAttempts : Nat → Mail → Handler (Except StoreError (Bytes × Bool))
  | 0, _ => return .error .other
  | attempts + 1, m => do
    let id ← newMailID
    match ← exec (.insertMail { m with id := id }) with
    | .ok _ => return .ok (id, false)
    | .error .conflict =>
      -- the signature is stored already, or the id is taken
      match ← exec (.mailIDBySignature m.signature) with
      | .ok id => return .ok (id, true)
      | .error _ => insertAttempts attempts m
    | .error e => return .error e

def insertMail (m : Mail) : Handler (Except StoreError (Bytes × Bool)) := insertAttempts 3 m

def fingerprint (kem : Bytes) : Bytes :=
  match decodeKEMKey kem with
  | none => []
  | some raw => hexEncode (Lib.sha256 raw)

/-- `m.Size.Float64()` and the checks on it. -/
def Server.sizeOf (s : Server) (text : Bytes) : Option Int :=
  match s.json.float64 text with
  | none => none
  | some f => if f < 0 ∨ f ≠ f.floor ∨ f > 2 ^ 53 then none else some f.floor

/-- A parsed mail: every field is present, the size is a natural number, both addresses are
valid, and one of them is of this instance. -/
structure Submission (s : Server) (r : Request) where
  raw : Bytes
  m : MailBody
  encSubject : Bytes
  encReplyTo : Bytes
  size : Int
  sender : Address
  recipient : Address
  read : readBody r s.cfg.maxMailSize = .ok raw
  decoded : s.json.mail raw = some m
  encSubject_eq : m.encSubject = some encSubject
  encReplyTo_eq : encReplyTo = m.encReplyTo.getD []
  size_eq : m.size.bind s.sizeOf = some size
  sender_parsed : parseAddress m.sender s.cfg.instanceDomain = .ok sender
  recipient_parsed : parseAddress m.recipient s.cfg.instanceDomain = .ok recipient
  ours : sender.isLocal = true ∨ recipient.isLocal = true

namespace Submission

variable {s : Server} {r : Request}

/-- The signed message. -/
def message (b : Submission s r) : Bytes :=
  mailMessage b.m.sender b.m.recipient b.m.fingerprint b.encSubject b.m.encBody b.encReplyTo
    b.m.timestamp b.size

/-- The row a submission becomes, but for its id. -/
def row (b : Submission s r) (now : Time) : Mail where
  id := []
  sender := b.sender.stored
  recipient := b.recipient.stored
  encKeySender := b.m.encKeySender
  encKeyRecipient := b.m.encKeyRecipient
  encSubject := b.encSubject
  encBody := b.m.encBody
  size := b.size
  signature := b.m.signature
  timestamp := now.unix
  encReplyTo := b.encReplyTo
  ref := []

end Submission

inductive KeysError where
  | notFound
  | unreachable
  | other
  deriving DecidableEq

structure KeysAnswer where
  kem : Bytes
  sig : Bytes
  cached : Bool

namespace Server

/-- An address's keys, and whether they may come from the key cache. -/
def keysOf (s : Server) (a : Address) (fresh : Bool) : Handler (Except KeysError KeysAnswer) := do
  if a.isLocal then
    match ← exec (.getUser a.localName) with
    | .ok u => return .ok ⟨u.kemPubkey, u.sigPubkey, false⟩
    | .error .notFound => return .error .notFound
    | .error _ => return .error .other
  else if !s.cfg.federationEnabled then return .error .notFound
  else
    match ← s.lookup a fresh with
    | .ok k => return .ok ⟨k.kem, k.sig, !fresh⟩
    | .error .remoteNotFound => return .error .notFound
    | .error .unreachable => return .error .unreachable

def parseSubmission (s : Server) (r : Request) : Except Reply (Submission s r) :=
  match read : readBody r s.cfg.maxMailSize with
  | .error reply => .error reply
  | .ok raw =>
    match decoded : s.json.mail raw with
    | none => .error (fail 400 "Invalid JSON")
    | some m =>
      if m.sender = [] ∨ m.recipient = [] ∨ m.fingerprint = [] ∨ m.encKeySender = [] ∨
          m.encKeyRecipient = [] ∨ m.encSubject.isNone ∨ m.encBody = [] ∨ m.size.isNone ∨
          m.timestamp = [] ∨ m.signature = [] ∨ m.pow = [] then
        .error (fail 400 "Missing required fields")
      else if m.encReplyTo = some [] then .error (fail 400 "Invalid enc_reply_to")
      else
        match subject : m.encSubject, size_eq : m.size.bind s.sizeOf with
        | none, _ => .error (fail 400 "Missing required fields")
        | some _, none => .error (fail 400 "Invalid size")
        | some encSubject, some size =>
          match sender_parsed : parseAddress m.sender s.cfg.instanceDomain with
          | .error _ => .error (fail 401 "Sender not registered")
          | .ok sender =>
            match recipient_parsed : parseAddress m.recipient s.cfg.instanceDomain with
            | .error _ => .error (fail 404 "Recipient not found")
            | .ok recipient =>
              if ours : sender.isLocal = true ∨ recipient.isLocal = true then
                if !recipient.isLocal && !m.sender.contains 64 then
                  .error (fail 400 "Sender must be qualified for a remote recipient")
                else
                  .ok { raw, m, encSubject, encReplyTo := m.encReplyTo.getD [], size, sender,
                        recipient, read, decoded, encSubject_eq := subject, encReplyTo_eq := rfl,
                        size_eq, sender_parsed, recipient_parsed, ours }
              else .error (fail 403 "Relaying denied")

/-! ## The checks -/

variable {r : Request}

/-- The sender's signing key. -/
def senderKey (s : Server) (b : Submission s r) : Handler (Except Reply KeysAnswer) := do
  match ← s.keysOf b.sender false with
  | .error .unreachable => return .error (fail 503 "Sender instance unreachable")
  | .error .notFound => return .error (fail 401 "Sender not registered")
  | .error .other => return .error internal
  | .ok k => if k.sig = [] then return .error (fail 401 "Sender not registered") else return .ok k

/-- The recipient's key is the one the client encrypted to. -/
def recipientKey (s : Server) (b : Submission s r) : Handler (Except Reply Unit) := do
  match ← s.keysOf b.recipient false with
  | .error .notFound => return .error (fail 404 "Recipient not found")
  | .error .unreachable => return .error (fail 502 "Recipient instance unreachable")
  | .error .other => return .error internal
  | .ok k =>
    if k.kem = [] then return .error (fail 410 "USER_DESTROYED")
    if fingerprint k.kem = b.m.fingerprint then return .ok ()
    if !k.cached then return .error (fail 409 "KEY_MISMATCH")
    -- a cached key may predate a rotation; a failed second lookup leaves an empty key
    let kem : Bytes := match ← s.keysOf b.recipient true with
      | .ok k => k.kem
      | .error _ => []
    if fingerprint kem = b.m.fingerprint then return .ok ()
    return .error (fail 409 "KEY_MISMATCH")

/-- `verifyFresh`: once more with a newly fetched key. -/
def verifyFresh (s : Server) (b : Submission s r) : Handler Bool := do
  match ← s.keysOf b.sender true with
  | .error _ => return false
  | .ok k => return s.verify k.sig b.message b.m.signature

def checkSignature (s : Server) (b : Submission s r) (k : KeysAnswer) :
    Handler (Except Reply Unit) := do
  if s.verify k.sig b.message b.m.signature then return .ok ()
  if !k.cached then return .error (fail 401 "Invalid signature")
  if ← s.verifyFresh b then return .ok ()
  return .error (fail 401 "Invalid signature")

/-- Proof of work, timestamp, keys, fingerprint and signature. -/
def checkSubmission (s : Server) (b : Submission s r) : Handler (Except Reply Unit) := do
  if !verifyPoW b.m.pow b.m.sender (← ask .now) then
    return .error (fail 403 "Invalid Proof of Work")
  if !(← inWindow b.m.timestamp) then return .error (fail 403 "Timestamp out of window")
  match ← s.senderKey b with
  | .error reply => return .error reply
  | .ok k =>
    match ← s.recipientKey b with
    | .error reply => return .error reply
    | .ok _ => s.checkSignature b k

/-! ## Storing -/

/-- The recipient's blocklist, for a local recipient. -/
def checkBlocklist {s : Server} (b : Submission s r) : Handler (Except Reply Unit) := do
  if !b.recipient.isLocal then return .ok ()
  match ← exec (.blocked b.recipient.stored [b.sender.stored, b.sender.domain]) with
  | .error _ => return .error internal
  | .ok true => return .error (fail 403 "Recipient has blocked this sender")
  | .ok false => return .ok ()

/-- An older instance would reject a reply as a bad signature. -/
def remoteTakesReplies (s : Server) (b : Submission s r) : Handler (Except Reply Unit) := do
  if b.encReplyTo = [] ∨ b.recipient.isLocal = true then return .ok ()
  match ← s.levelOf b.recipient.domain with
  | none => return .error (fail 502 "Recipient instance unreachable")
  | some level =>
    if level < replyLevel then
      return .error (fail 422 "Recipient instance does not support replies")
    return .ok ()

/-- Forward a submission for a remote recipient. A refusal reaches the client with the remote's
status and text; any other failure is a 502. -/
def relay (s : Server) (b : Submission s r) : Handler (Except Reply Unit) := do
  if b.recipient.isLocal then return .ok ()
  match ← s.relayTo b.recipient.domain b.raw with
  | none => return .error (fail 502 "Recipient instance unreachable")
  | some (status, text) =>
    if status ≥ 200 ∧ status < 300 then return .ok ()
    if status ≥ 400 ∧ status < 500 ∧ status ≠ 408 ∧ status ≠ 429 then
      return .error (.fail status (if text = [] then utf8 "Relay refused" else text))
    return .error (fail 502 "Recipient instance unreachable")

/-- Blocklist, deduplication, spending the token, relay, and the row. -/
def storeSubmission (s : Server) (b : Submission s r) : Handler Reply := do
  match ← checkBlocklist b with
  | .error reply => return reply
  | .ok _ =>
    match ← exec (.mailIDBySignature b.m.signature) with
    | .ok id => return .message 201 (utf8 "Mail sent") id
    | .error _ =>
      match ← s.remoteTakesReplies b with
      | .error reply => return reply
      | .ok _ =>
        let now ← ask .now
        if !(← ask (.spentAdd (Lib.sha256 b.m.pow) now)) then
          return fail 403 "Invalid Proof of Work"
        match ← s.relay b with
        | .error reply => return reply
        | .ok _ =>
          let now ← ask .now
          match ← insertMail (b.row now) with
          | .error _ => return internal
          | .ok (id, _) => return .message 201 (utf8 "Mail sent") id

def sendMail (s : Server) (r : Request) : Handler Reply :=
  match s.parseSubmission r with
  | .error reply => return reply
  | .ok b => do
    match ← s.checkSubmission b with
    | .error reply => return reply
    | .ok _ => s.storeSubmission b

end Server

end Shyake.Go
