import Shyake.Go.Effects

/-!
# Other instances (`internal/federation`)

Key lookup with its one-minute cache and single flights, relay, and the protocol
level. The HTTP client bounds what it reads; everything else an instance answers is
arbitrary.
-/

namespace Shyake.Go

open Protocol (Address)

namespace Server

def url (s : Server) (domain path : Bytes) : Bytes := s.scheme ++ utf8 "://" ++ domain ++ path

/-- `url.PathEscape`. -/
def pathEscape (s : Bytes) : Bytes :=
  s.flatMap fun c =>
    if isLower c || isUpper c || isDigit c || (utf8 "-_.~$&+=:@").contains c then [c]
    else
      let upper (d : UInt8) : UInt8 := if isLower d then d - 32 else d
      [37, upper (hexDigit (c >>> 4)), upper (hexDigit (c &&& 15))]

/-- The limit on a response body. -/
def responseLimit : Nat := 65536

/-- `Client.Do`: an answer over the limit is an error. -/
def bounded : Option (Nat × Bytes) → Option (Nat × Bytes)
  | none => none
  | some (status, body) => if body.length > responseLimit then none else some (status, body)

def get (url : Bytes) : Handler (Option (Nat × Bytes)) := do
  return bounded (← ask (.get url))

def postJSON (url body : Bytes) : Handler (Option (Nat × Bytes)) := do
  return bounded (← ask (.post url body))

/-! ## Keys -/

def keyCacheTTL : Nat := seconds 60

/-- Where a remote user's keys are. -/
def pubkeyURL (s : Server) (addr : Address) : Bytes :=
  s.url addr.domain (utf8 "/api/pubkey/" ++ pathEscape addr.localName)

def fetch (s : Server) (addr : Address) : Handler (Except LookupError RemoteKeys) := do
  match ← get (s.pubkeyURL addr) with
  | none => return .error .unreachable
  | some (status, body) =>
    if status ≠ 200 then return .error .remoteNotFound
    match s.json.keys body with
    | none => return .error .unreachable
    | some keys => return .ok keys

/-- The flight of one id: the first caller fetches, the others wait for what it gets. -/
def flight (s : Server) (addr : Address) : Handler (Except LookupError RemoteKeys) := do
  let (leads, n) ← ask (.join addr.stored)
  if leads then
    let result ← s.fetch addr
    match result with
    | .ok keys => ask (.cachePut addr.stored keys)
    | .error _ => pure ()
    ask (.land n result)
    return result
  else ask (.wait n)

/-- `Keys.Lookup`. -/
def lookup (s : Server) (addr : Address) (fresh : Bool) :
    Handler (Except LookupError RemoteKeys) := do
  if fresh then s.flight addr
  else
    match ← ask (.cacheGet addr.stored) with
    | none => s.flight addr
    | some (keys, at_) =>
      let now ← ask .now
      if now.sub at_ < keyCacheTTL then return .ok keys
      s.flight addr

/-! ## Relay -/

/-- `utf8.EncodeRune`. -/
def encodeRune (r : Nat) : Bytes :=
  if r < 0x80 then [UInt8.ofNat r]
  else if r < 0x800 then [UInt8.ofNat (0xc0 + r / 64), UInt8.ofNat (0x80 + r % 64)]
  else if r < 0x10000 then
    [UInt8.ofNat (0xe0 + r / 4096), UInt8.ofNat (0x80 + r / 64 % 64), UInt8.ofNat (0x80 + r % 64)]
  else
    [UInt8.ofNat (0xf0 + r / 262144), UInt8.ofNat (0x80 + r / 4096 % 64),
      UInt8.ofNat (0x80 + r / 64 % 64), UInt8.ofNat (0x80 + r % 64)]

def cleanRemoteText (s : Server) (text : Bytes) : Bytes :=
  let kept := (runesFrom 0 text).filter fun r => !s.control r
  (kept.take 200).flatMap encodeRune

/-- Post a submission to the recipient's instance, byte for byte; `none` is a transport error. -/
def relayTo (s : Server) (domain payload : Bytes) : Handler (Option (Nat × Bytes)) := do
  match ← postJSON (s.url domain (utf8 "/api/mail")) payload with
  | none => return none
  | some (status, body) => return some (status, s.cleanRemoteText (s.json.error body))

/-- The protocol level of an instance. -/
def levelOf (s : Server) (domain : Bytes) : Handler (Option Int) := do
  match ← get (s.url domain (utf8 "/api/version")) with
  | none => return none
  | some (status, body) =>
    if status = 404 then return some 1
    if status ≠ 200 then return none
    match s.json.protocol body with
    | none => return none
    | some v => return some (if v < 1 then 1 else v)

end Server

end Shyake.Go
