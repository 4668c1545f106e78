import Shyake.Go.Effects
import Shyake.Go.Protocol.Pow
import Shyake.Go.Protocol.Signed

/-!
# Requests and their authentication (`internal/api/auth.go`)

A `Request` is what the mux hands to a handler. The checks of `auth` run in the
source's order; each failure is the reply it sends.
-/

namespace Shyake.Go

open Protocol (verifyPoW parsePublicKey headerMessage headerBodyMessage)

inductive Route where
  | register
  | pubkey (username : Bytes)
  | sendMail
  | listMail (typ : Bytes)
  | getMail (id : Bytes)
  | burnMail (id : Bytes)
  | block
  | unblock
  | listBlocks
  | rotate
  | destroy
  deriving DecidableEq

structure Request where
  route : Route
  /-- A GET route reached with HEAD. -/
  head : Bool
  /-- The X-Shyake headers; one that is absent is empty. -/
  username : Bytes
  timestamp : Bytes
  signature : Bytes
  pow : Bytes
  /-- The bytes of the body, `none` when the connection broke before the limit. -/
  body : Option Bytes
  deriving DecidableEq

def Request.method (r : Request) : Bytes :=
  match r.route with
  | .register | .sendMail | .block | .rotate => utf8 "POST"
  | .burnMail _ | .unblock | .destroy => utf8 "DELETE"
  | .pubkey _ | .listMail _ | .getMail _ | .listBlocks => if r.head then utf8 "HEAD" else utf8 "GET"

/-- The allowed clock difference in seconds. -/
def window : Int := 300

/-- Bounds every body except a mail's. -/
def smallBody : Nat := 65536

def readBody (r : Request) (limit : Nat) : Except Reply Bytes :=
  match r.body with
  | none => .error (fail 400 "Invalid JSON")
  | some body => if body.length > limit then .error (fail 413 "Payload too large") else .ok body

/-- `inWindow`; the parsed timestamp is not used by any caller. -/
def inWindow (ts : Bytes) : Handler Bool :=
  match parseInt ts with
  | none => return false
  | some t => do
    let now ← ask .now
    let d := int64 (now.unix - t)
    return d ≥ -window && d ≤ window

/-- Neither the signature nor the token was used before; both are marked used. -/
def fresh (signature pow : Bytes) : Handler Bool := do
  let now ← ask .now
  if !(← ask (.seenAdd (Lib.sha256 signature) now)) then return false
  ask (.spentAdd (Lib.sha256 pow) now)

namespace Server

/-- What a header-authenticated request has signed. -/
def signedMessage (r : Request) (signedPath body : Bytes) (signsBody : Bool) : Bytes :=
  if signsBody then headerBodyMessage r.method signedPath r.username r.timestamp body
  else headerMessage r.method signedPath r.username r.timestamp

/-- `verify`: the key is decoded and the signature checked. -/
def verify (s : Server) (sigPub msg signature : Bytes) : Bool :=
  match parsePublicKey s.mldsa sigPub with
  | none => false
  | some pk => Protocol.verify s.mldsa pk msg signature

def auth (s : Server) (r : Request) (signedPath body : Bytes) (signsBody : Bool) :
    Handler (Except Reply User) := do
  if r.username = [] ∨ r.timestamp = [] ∨ r.signature = [] ∨ r.pow = [] then
    return .error (fail 401 "Missing auth headers")
  if !verifyPoW r.pow r.username (← ask .now) then
    return .error (fail 403 "Invalid Proof of Work")
  if !(← inWindow r.timestamp) then
    return .error (fail 403 "Timestamp out of window")
  match ← exec (.getUser r.username) with
  | .error .notFound => return .error (fail 401 "User not found")
  | .error _ => return .error internal
  | .ok user =>
    if user.sigPubkey = [] then
      return .error (fail 401 "User not found or destroyed")
    if !s.verify user.sigPubkey (signedMessage r signedPath body signsBody) r.signature then
      return .error (fail 401 "Invalid signature")
    if !(← fresh r.signature r.pow) then
      return .error (fail 403 "Replayed request")
    return .ok user

def headerAuth (s : Server) (r : Request) (signedPath : Bytes) : Handler (Except Reply User) :=
  s.auth r signedPath [] false

def bodyAuth (s : Server) (r : Request) (signedPath : Bytes) :
    Handler (Except Reply (User × Bytes)) :=
  match readBody r smallBody with
  | .error reply => return .error reply
  | .ok body => do
    match ← s.auth r signedPath body true with
    | .error reply => return .error reply
    | .ok user => return .ok (user, body)

end Server

end Shyake.Go
