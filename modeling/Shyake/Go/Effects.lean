import Shyake.Lib.Program
import Shyake.Go.Protocol.Address
import Shyake.Go.Protocol.Sig
import Shyake.Go.Store
import Shyake.Go.TtlSet

/-!
# What a request handler asks its surroundings

A handler is a program over these questions: the clock, the random source, the
statements of the store, the two replay sets, the key cache with its flights, and
other instances over HTTP. `Server` is what does not change while the server runs,
with the packages it only calls: ML-DSA, `encoding/json` and the Unicode tables.
-/

namespace Shyake.Go

open Protocol (Mldsa65)

structure RemoteKeys where
  kem : Bytes
  sig : Bytes
  deriving DecidableEq

inductive LookupError where
  | remoteNotFound
  | unreachable
  deriving DecidableEq

inductive Query where
  | now
  /-- `rand.Read` of ten bytes. -/
  | random
  | db (s : Stmt)
  | seenAdd (k : Bytes) (now : Time)
  | spentAdd (k : Bytes) (now : Time)
  | cacheGet (id : Bytes)
  /-- Sweep the cache and put keys in it, under its lock. -/
  | cachePut (id : Bytes) (keys : RemoteKeys)
  /-- Join the flight of a key that is under way, or start one. -/
  | join (id : Bytes)
  | land (flight : Nat) (result : Except LookupError RemoteKeys)
  | wait (flight : Nat)
  | get (url : Bytes)
  | post (url body : Bytes)

abbrev Answer : Query → Type
  | .now => Time
  | .random => Bytes
  | .db s => Except StoreError s.Result
  | .seenAdd _ _ => Bool
  | .spentAdd _ _ => Bool
  | .cacheGet _ => Option (RemoteKeys × Time)
  | .cachePut _ _ => Unit
  | .join _ => Bool × Nat
  | .land _ _ => Unit
  | .wait _ => Except LookupError RemoteKeys
  | .get _ => Option (Nat × Bytes)
  | .post _ _ => Option (Nat × Bytes)

abbrev Effects : Lib.Interface := ⟨Query, Answer⟩

/-- A part of a request handler. -/
abbrev Handler := Lib.Prog Effects

/-- Ask a question. -/
def ask (q : Query) : Handler (Answer q) := Lib.Prog.query (I := Effects) q

def exec (s : Stmt) : Handler (Except StoreError s.Result) := ask (.db s)

/-! ## The server -/

structure Config where
  instanceDomain : Bytes
  registrationEnabled : Bool
  reservedUsernames : List Bytes
  federationEnabled : Bool
  maxMailSize : Nat

/-- The body of POST /api/mail. A string that is absent is empty; a pointer that is nil is
`none`; `size` keeps the text of the number. -/
structure MailBody where
  sender : Bytes
  recipient : Bytes
  fingerprint : Bytes
  encKeySender : Bytes
  encKeyRecipient : Bytes
  encSubject : Option Bytes
  encBody : Bytes
  encReplyTo : Option Bytes
  size : Option Bytes
  timestamp : Bytes
  signature : Bytes
  pow : Bytes

/-- The body of POST /api/register. -/
structure RegisterBody where
  username : Bytes
  kemPubkey : Bytes
  sigPubkey : Bytes
  timestamp : Bytes
  signature : Bytes
  pow : Bytes

/-- `encoding/json` at the types the server decodes into; `none` is an error. -/
structure Json where
  mail : Bytes → Option MailBody
  register : Bytes → Option RegisterBody
  /-- `{"target": ..}`. -/
  target : Bytes → Option Bytes
  /-- `{"new_kem_pubkey": .., "new_sig_pubkey": ..}`. -/
  rotate : Bytes → Option RemoteKeys
  /-- `{"kem_pubkey": .., "sig_pubkey": ..}`. -/
  keys : Bytes → Option RemoteKeys
  /-- `{"error": ..}`; a reply that does not decode leaves it empty. -/
  error : Bytes → Bytes
  /-- `{"protocol": ..}`. -/
  protocol : Bytes → Option Int
  /-- `json.Number.Float64`; a finite double is a rational. -/
  float64 : Bytes → Option Rat

structure Server where
  cfg : Config
  mldsa : Mldsa65
  json : Json
  /-- "https" or "http". -/
  scheme : Bytes
  /-- `unicode.Is(unicode.C, r)`. -/
  control : Nat → Bool

/-- A mail as a listing or a fetch shows it; an empty string or `none` is left out. -/
structure MailJSON where
  id : Bytes
  sender : Bytes
  recipient : Bytes
  encKeySender : Bytes
  encKeyRecipient : Bytes
  encSubject : Bytes
  encBody : Option Bytes
  size : Int
  signature : Option Bytes
  timestamp : Int
  encReplyTo : Bytes
  sigHash : Bytes

/-- What a handler answers: a status and a JSON body. -/
inductive Reply where
  | fail (status : Nat) (error : Bytes)
  | message (status : Nat) (message id : Bytes)
  | pubkeys (keys : RemoteKeys)
  | mails (list : List MailJSON)
  | mail (m : MailJSON)
  | blocks (list : List Block)

/-- `fail` with a literal text. -/
def fail (status : Nat) (msg : String) : Reply := .fail status (utf8 msg)

/-- `s.internal`. -/
def internal : Reply := fail 500 "Database error"

end Shyake.Go
