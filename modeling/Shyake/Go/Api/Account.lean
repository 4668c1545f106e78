import Shyake.Go.Api.Auth
import Shyake.Go.Federation

/-!
# Accounts, mailboxes and blocks (`internal/api/handlers.go`)

Every handler but the one that accepts mail.
-/

namespace Shyake.Go

open Protocol (Address parseAddress parseBlockTarget validUsername isReserved verifyPoW
  parsePublicKey decodeKEMKey registerMessage)

/-- The size of an ML-KEM-768 public key. -/
def kemPubkeySize : Nat := 1184

def validKEM (s : Bytes) : Bool :=
  match decodeKEMKey s with
  | none => false
  | some raw => raw.length == kemPubkeySize

namespace Server

/-! ## register, pubkey -/

def register (s : Server) (r : Request) : Handler Reply := do
  if !s.cfg.registrationEnabled then return fail 403 "Registration is disabled"
  match readBody r smallBody with
  | .error reply => return reply
  | .ok body =>
    match s.json.register body with
    | none => return fail 400 "Invalid JSON"
    | some b =>
      if b.username = [] ∨ b.kemPubkey = [] ∨ b.sigPubkey = [] ∨ b.timestamp = [] ∨
          b.signature = [] ∨ b.pow = [] then
        return fail 400 "Missing required fields"
      if !validUsername b.username then return fail 400 "Invalid username format"
      if isReserved b.username s.cfg.reservedUsernames then
        return fail 403 "Username is reserved"
      if !verifyPoW b.pow b.username (← ask .now) then return fail 403 "Invalid Proof of Work"
      if !(← inWindow b.timestamp) then return fail 403 "Timestamp out of window"
      match parsePublicKey s.mldsa b.sigPubkey with
      | none => return fail 400 "Invalid public key"
      | some pk =>
        if !validKEM b.kemPubkey then return fail 400 "Invalid public key"
        let msg := registerMessage b.username b.kemPubkey b.sigPubkey b.timestamp
        if !Protocol.verify s.mldsa pk msg b.signature then return fail 401 "Invalid signature"
        if !(← fresh b.signature b.pow) then return fail 403 "Replayed request"
        let now ← ask .now
        match ← exec (.createUser ⟨b.username, b.kemPubkey, b.sigPubkey, now.unix⟩) with
        | .error .conflict => return fail 409 "Username already taken"
        | .error _ => return internal
        | .ok _ => return .message 201 (utf8 "Registered successfully") []

/-- The local part of `pubkey`. -/
def localPubkey (name : Bytes) : Handler Reply := do
  match ← exec (.getUser name) with
  | .error .notFound => return fail 404 "User not found"
  | .error _ => return internal
  | .ok u => return .pubkeys ⟨u.kemPubkey, u.sigPubkey⟩

def pubkey (s : Server) (name : Bytes) : Handler Reply := do
  if !name.contains 64 then localPubkey name
  else
    match parseAddress name s.cfg.instanceDomain with
    | .error _ => return fail 404 "User not found"
    | .ok addr =>
      if addr.isLocal then localPubkey addr.localName
      else if !s.cfg.federationEnabled then return fail 403 "Federation disabled"
      else
        match ← s.lookup addr false with
        | .error .remoteNotFound => return fail 404 "External user not found"
        | .error _ => return fail 502 "Failed to connect"
        | .ok k => return .pubkeys k

/-! ## Mailboxes -/

def toJSON (m : Mail) (full : Bool) : MailJSON where
  id := m.id
  sender := m.sender
  recipient := m.recipient
  encKeySender := m.encKeySender
  encKeyRecipient := m.encKeyRecipient
  encSubject := m.encSubject
  encBody := if full then some m.encBody else none
  size := m.size
  signature := if full then some m.signature else none
  timestamp := m.timestamp
  encReplyTo := if full then m.encReplyTo else []
  sigHash := if full then [] else m.ref

def listMail (s : Server) (r : Request) (typ : Bytes) : Handler Reply := do
  let typ := if typ = [] then utf8 "inbox" else typ
  match ← s.headerAuth r (utf8 "/api/mail?type=" ++ typ) with
  | .error reply => return reply
  | .ok user =>
    match ← exec (.listMail user.username (typ == utf8 "sent")) with
    | .error _ => return internal
    | .ok list => return .mails (list.map fun m => toJSON m false)

def getMail (s : Server) (r : Request) (id : Bytes) : Handler Reply := do
  match ← s.headerAuth r (utf8 "/api/mail/" ++ id) with
  | .error reply => return reply
  | .ok user =>
    match ← exec (.getMail id user.username) with
    | .error .notFound => return fail 404 "Mail not found"
    | .error _ => return internal
    | .ok m => return .mail (toJSON m true)

def burnMail (s : Server) (r : Request) (id : Bytes) : Handler Reply := do
  match ← s.headerAuth r (utf8 "/api/mail/" ++ id) with
  | .error reply => return reply
  | .ok user =>
    match ← exec (.deleteMail id user.username) with
    | .error .notFound => return fail 404 "Mail not found"
    | .error _ => return internal
    | .ok _ => return .message 200 (utf8 "Mail burned") []

/-! ## Blocks -/

def blockTarget (s : Server) (r : Request) : Handler (Except Reply (User × Address × Bytes)) := do
  match ← s.bodyAuth r (utf8 "/api/block") with
  | .error reply => return .error reply
  | .ok (user, body) =>
    match s.json.target body with
    | none => return .error (fail 400 "Invalid JSON")
    | some target =>
      if target = [] then return .error (fail 400 "Missing target")
      match parseBlockTarget target s.cfg.instanceDomain with
      | .error _ => return .error (fail 400 "Invalid target")
      | .ok t => return .ok (user, t, target)

def block (s : Server) (r : Request) : Handler Reply := do
  match ← s.blockTarget r with
  | .error reply => return reply
  | .ok (user, t, _) =>
    let now ← ask .now
    match ← exec (.addBlock user.username t.stored now.unix) with
    | .error _ => return internal
    | .ok _ => return .message 201 (utf8 "Blocked") []

/-- `RemoveBlock` deletes each form with a statement of its own. -/
def removeBlock (blocker : Bytes) : List Bytes → Handler (Except StoreError Unit)
  | [] => return .ok ()
  | b :: rest => do
    match ← exec (.removeBlock blocker b) with
    | .error e => return .error e
    | .ok _ => removeBlock blocker rest

def unblock (s : Server) (r : Request) : Handler Reply := do
  match ← s.blockTarget r with
  | .error reply => return reply
  | .ok (user, t, raw) =>
    match ← removeBlock user.username [t.stored, raw] with
    | .error _ => return internal
    | .ok _ => return .message 200 (utf8 "Unblocked") []

def listBlocks (s : Server) (r : Request) : Handler Reply := do
  match ← s.headerAuth r (utf8 "/api/block") with
  | .error reply => return reply
  | .ok user =>
    match ← exec (.listBlocks user.username) with
    | .error _ => return internal
    | .ok list => return .blocks list

/-! ## rotate, destroy -/

def rotate (s : Server) (r : Request) : Handler Reply := do
  match ← s.bodyAuth r (utf8 "/api/rotate") with
  | .error reply => return reply
  | .ok (user, body) =>
    match s.json.rotate body with
    | none => return fail 400 "Invalid JSON"
    | some b =>
      if b.kem = [] ∨ b.sig = [] then return fail 400 "Missing new keys"
      if (parsePublicKey s.mldsa b.sig).isNone ∨ !validKEM b.kem then
        return fail 400 "Invalid public key"
      match ← exec (.rotateKeys user.username b.kem b.sig) with
      | .error _ => return internal
      | .ok _ => return .message 200 (utf8 "Keys rotated and old mails deleted") []

def destroy (s : Server) (r : Request) : Handler Reply := do
  match ← s.headerAuth r (utf8 "/api/destroy") with
  | .error reply => return reply
  | .ok user =>
    match ← exec (.destroyUser user.username) with
    | .error _ => return internal
    | .ok _ => return .message 200 (utf8 "Account destroyed") []

end Server

end Shyake.Go
