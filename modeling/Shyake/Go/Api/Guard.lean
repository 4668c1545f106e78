import Shyake.Go.Api.Server

/-!
# What every question rests on

`Guard s r l q` says what a request `r` must have learned, by its log `l`, before it
asks `q`. It is proved once for every handler, by the lemmas of its parts, and the
results about runs use nothing else about the handlers.
-/

namespace Shyake.Go

open Lib.Prog
open Protocol (Address validUsername verifyPoW parseBlockTarget parseAddress)

abbrev Log := List (Lib.Event Effects)

/-- The log holds this question with this answer. -/
def Log.Has (l : Log) (q : Query) (a : Answer q) : Prop := (⟨q, a⟩ : Lib.Event Effects) ∈ l

theorem Log.Has.mono {l l' : Log} {q : Query} {a : Answer q} (h : l.Has q a) (pre : l <+: l') :
    l'.Has q a :=
  pre.subset h

theorem Log.has_last (l : Log) (q : Query) (a : Answer q) : Log.Has (l ++ [⟨q, a⟩]) q a :=
  List.mem_append_right _ List.mem_cons_self

/-- The log up to an event. -/
theorem Log.Has.upTo {l : Log} {q : Query} {a : Answer q} (h : l.Has q a) :
    ∃ l₀ : Log, l₀ ++ [⟨q, a⟩] <+: l := by
  obtain ⟨l₀, l₁, rfl⟩ := List.append_of_mem h
  exact ⟨l₀, l₁, List.append_assoc _ _ _⟩

/-! ## Facts that a log can hold -/

/-- A timestamp within the window around a clock reading. -/
def Within (ts : Bytes) (now : Time) : Prop :=
  ∃ n, parseInt ts = some n ∧ -window ≤ now.unix - n ∧ now.unix - n ≤ window

def InWindow (l : Log) (ts : Bytes) : Prop := ∃ now, l.Has .now now ∧ Within ts now

/-- A request that `auth` let pass. -/
structure Authenticated (s : Server) (r : Request) (path body : Bytes) (signsBody : Bool) (u : User)
    (l : Log) : Prop where
  pow : ∃ now, l.Has .now now ∧ verifyPoW r.pow r.username now = true
  inWindow : InWindow l r.timestamp
  user : l.Has (.db (.getUser r.username)) (.ok u)
  key : u.sigPubkey ≠ []
  signed : s.verify u.sigPubkey (Server.signedMessage r path body signsBody) r.signature = true
  seen : ∃ now, l.Has (.seenAdd (Lib.sha256 r.signature) now) true
  spent : ∃ now, l.Has (.spentAdd (Lib.sha256 r.pow) now) true

/-- An instance's answer to a key request. -/
def Answered (s : Server) (l : Log) (a : Address) (keys : RemoteKeys) : Prop :=
  ∃ body, l.Has (.get (s.pubkeyURL a)) (some (200, body)) ∧ s.json.keys body = some keys

/-- Keys that may be kept under `id`: they were fetched from a remote address stored as `id`. -/
def Fetched (s : Server) (l : Log) (id : Bytes) (keys : RemoteKeys) : Prop :=
  ∃ a : Address, a.isLocal = false ∧ validUsername a.localName = true ∧ a.stored = id ∧
    Answered s l a keys

/-- Keys a lookup of `a` returned: from the cache, from another request's flight, or fetched. -/
def LookedUp (s : Server) (l : Log) (a : Address) (keys : RemoteKeys) : Prop :=
  (∃ at_, l.Has (.cacheGet a.stored) (some (keys, at_))) ∨
  (∃ n, l.Has (.join a.stored) (false, n) ∧ l.Has (.wait n) (.ok keys)) ∨
  Answered s l a keys

/-- The keys `keysOf` returned for an address. -/
def Returned (s : Server) (l : Log) (a : Address) (keys : RemoteKeys) : Prop :=
  (a.isLocal = true ∧ ∃ u, l.Has (.db (.getUser a.localName)) (.ok u) ∧
    keys = ⟨u.kemPubkey, u.sigPubkey⟩) ∨
  (a.isLocal = false ∧ LookedUp s l a keys)

/-- A submission all of whose checks are in the log. -/
structure Passed (s : Server) (r : Request) (b : Submission s r) (l : Log) : Prop where
  pow : ∃ now, l.Has .now now ∧ verifyPoW b.m.pow b.m.sender now = true
  inWindow : InWindow l b.m.timestamp
  signed : ∃ keys, Returned s l b.sender keys ∧ keys.sig ≠ [] ∧
    s.verify keys.sig b.message b.m.signature = true
  fingerprint : b.recipient.isLocal = true → ∃ u,
    l.Has (.db (.getUser b.recipient.localName)) (.ok u) ∧ u.kemPubkey ≠ [] ∧
      fingerprint u.kemPubkey = b.m.fingerprint
  blocklist : b.recipient.isLocal = true →
    l.Has (.db (.blocked b.recipient.stored [b.sender.stored, b.sender.domain])) (.ok false)
  spent : ∃ now, l.Has (.spentAdd (Lib.sha256 b.m.pow) now) true
  relayed : b.recipient.isLocal = false → ∃ status body,
    l.Has (.post (s.url b.recipient.domain (utf8 "/api/mail")) b.raw) (some (status, body)) ∧
      200 ≤ status ∧ status < 300

/-- The proof-of-work token of a request, and the user it must name. -/
def Request.token (s : Server) (r : Request) : Option (Bytes × Bytes) :=
  match r.route with
  | .register =>
    match readBody r smallBody with
    | .error _ => none
    | .ok body => (s.json.register body).map fun b => (b.pow, b.username)
  | .sendMail =>
    match readBody r s.cfg.maxMailSize with
    | .error _ => none
    | .ok raw => (s.json.mail raw).map fun m => (m.pow, m.sender)
  | _ => some (r.pow, r.username)

/-- The token was verified at one reading of the clock, and is spent at a later one. -/
def Spends (s : Server) (r : Request) (l : Log) (k : Bytes) (now : Time) : Prop :=
  ∃ (token user : Bytes) (l₀ l₁ : Log) (reading : Time), r.token s = some (token, user) ∧
    k = Lib.sha256 token ∧ l = l₀ ++ ⟨.now, now⟩ :: l₁ ∧ l₀.Has .now reading ∧
    verifyPoW token user reading = true

/-- The token was new. -/
def Spent (s : Server) (r : Request) (l : Log) : Prop :=
  ∃ token user now, r.token s = some (token, user) ∧
    l.Has (.spentAdd (Lib.sha256 token) now) true

/-- The request in whose name a statement runs has been authenticated as that user. -/
def ActsAs (s : Server) (r : Request) (l : Log) (username : Bytes) : Prop :=
  ∃ path body signsBody u, Authenticated s r path body signsBody u l ∧ u.username = username

/-- What must be in the log before a question is asked. -/
def Guard (s : Server) (r : Request) (l : Log) : Query → Prop
  | .cachePut id keys => Fetched s l id keys
  | .land n (.ok keys) => ∃ id, l.Has (.join id) (true, n) ∧ Fetched s l id keys
  | .seenAdd _ now => ∃ l₀, l = l₀ ++ [⟨.now, now⟩] ∧
      (r.route ≠ .register → InWindow l₀ r.timestamp)
  | .spentAdd k now => Spends s r l k now
  | .post url body => Spent s r l ∧ r.route = .sendMail ∧ ∃ b : Submission s r,
      b.recipient.isLocal = false ∧ url = s.url b.recipient.domain (utf8 "/api/mail") ∧ body = b.raw
  | .db (.createUser u) => validUsername u.username = true ∧ r.route = .register ∧ Spent s r l
  | .db (.rotateKeys username _ _) => r.route = .rotate ∧ ActsAs s r l username
  | .db (.destroyUser username) => r.route = .destroy ∧ ActsAs s r l username
  | .db (.deleteMail id username) => r.route = .burnMail id ∧ ActsAs s r l username
  | .db (.addBlock blocker _ _) => r.route = .block ∧ ActsAs s r l blocker
  | .db (.removeBlock blocker _) => ActsAs s r l blocker
  | .db (.insertMail m) => r.route = .sendMail ∧ ∃ (b : Submission s r) (id : Bytes) (now : Time),
      Passed s r b l ∧ m = { b.row now with id := id }
  | _ => True

/-- A request that is authenticated by its headers carries its token there. -/
theorem token_of_header {s : Server} {r : Request} (register : r.route ≠ .register)
    (sendMail : r.route ≠ .sendMail) : r.token s = some (r.pow, r.username) := by
  unfold Request.token
  split
  · contradiction
  · contradiction
  · rfl

theorem token_of_register {s : Server} {r : Request} {body : Bytes} {b : RegisterBody}
    (route : r.route = .register) (read : readBody r smallBody = .ok body)
    (decoded : s.json.register body = some b) : r.token s = some (b.pow, b.username) := by
  unfold Request.token
  simp only [route, read, decoded, Option.map_some]

theorem Submission.token {s : Server} {r : Request} (b : Submission s r)
    (route : r.route = .sendMail) : r.token s = some (b.m.pow, b.m.sender) := by
  unfold Request.token
  simp only [route, b.read, b.decoded, Option.map_some]

/-! ## Facts stay true of a longer log -/

section Mono

variable {s : Server} {r : Request} {l l' : Log} {a : Address} {keys : RemoteKeys}

theorem InWindow.mono {ts : Bytes} (h : InWindow l ts) (pre : l <+: l') : InWindow l' ts := by
  obtain ⟨now, read, within⟩ := h
  exact ⟨now, read.mono pre, within⟩

theorem Authenticated.mono {path body : Bytes} {signsBody : Bool} {u : User}
    (h : Authenticated s r path body signsBody u l) (pre : l <+: l') :
    Authenticated s r path body signsBody u l' where
  pow := by
    obtain ⟨now, read, ok⟩ := h.pow
    exact ⟨now, read.mono pre, ok⟩
  inWindow := h.inWindow.mono pre
  user := h.user.mono pre
  key := h.key
  signed := h.signed
  seen := h.seen.imp fun _ new => new.mono pre
  spent := h.spent.imp fun _ new => new.mono pre

theorem Spent.mono (h : Spent s r l) (pre : l <+: l') : Spent s r l' := by
  obtain ⟨token, user, now, own, new⟩ := h
  exact ⟨token, user, now, own, new.mono pre⟩

theorem Answered.mono (h : Answered s l a keys) (pre : l <+: l') : Answered s l' a keys := by
  obtain ⟨body, got, decoded⟩ := h
  exact ⟨body, got.mono pre, decoded⟩

theorem LookedUp.mono (h : LookedUp s l a keys) (pre : l <+: l') : LookedUp s l' a keys := by
  obtain ⟨at_, hit⟩ | ⟨n, joined, waited⟩ | answered := h
  · exact .inl ⟨at_, hit.mono pre⟩
  · exact .inr (.inl ⟨n, joined.mono pre, waited.mono pre⟩)
  · exact .inr (.inr (answered.mono pre))

theorem Returned.mono (h : Returned s l a keys) (pre : l <+: l') : Returned s l' a keys := by
  obtain ⟨here, u, read, e⟩ | ⟨there, looked⟩ := h
  · exact .inl ⟨here, u, read.mono pre, e⟩
  · exact .inr ⟨there, looked.mono pre⟩

end Mono

end Shyake.Go
