import Shyake.Lib.Interleave
import Shyake.Go.Api.Account
import Shyake.Go.Api.Mail

/-!
# The running server (`internal/api/server.go`, `ttlset`, `federation/keys.go`)

The shared state of all requests, and how it answers their questions. Whatever the
state does not decide is chosen by the step: whether a statement fails, what another
instance answers, which bytes the random source gives. The clock never goes back.
-/

namespace Shyake.Go

namespace Server

def handler (s : Server) (r : Request) : Handler Reply :=
  match r.route with
  | .register => s.register r
  | .pubkey username => s.pubkey username
  | .sendMail => s.sendMail r
  | .listMail typ => s.listMail r typ
  | .getMail id => s.getMail r id
  | .burnMail id => s.burnMail r id
  | .block => s.block r
  | .unblock => s.unblock r
  | .listBlocks => s.listBlocks r
  | .rotate => s.rotate r
  | .destroy => s.destroy r

end Server

structure CacheEntry where
  id : Bytes
  keys : RemoteKeys
  at_ : Time

structure World where
  clock : Time
  db : Db
  /-- Signatures already used. -/
  seen : TtlSet
  /-- PoW tokens already used. -/
  spent : TtlSet
  cache : List CacheEntry
  /-- Flights by number: the id, and the result once it has landed. -/
  flights : List (Bytes × Option (Except LookupError RemoteKeys))

namespace World

/-- `New`: empty sets and an empty cache, over a database. -/
def init (clock : Time) (db : Db) : World where
  clock := clock
  db := db
  seen := TtlSet.new (seconds 600) 250000
  spent := TtlSet.new (seconds (72 * 3600)) 250000
  cache := []
  flights := []

/-- `sweepLocked`. -/
def sweep (now : Time) (cache : List CacheEntry) : List CacheEntry :=
  if cache.length < 4096 then cache
  else cache.filter fun e => now.sub e.at_ < Server.keyCacheTTL

/-- The number of the flight of `id` that has not landed. -/
def underWay (id : Bytes) (flights : List (Bytes × Option (Except LookupError RemoteKeys))) :
    Option Nat :=
  flights.findIdx? fun f => f.1 == id && f.2.isNone

end World

/-- What a step decides by itself. -/
inductive Oracle where
  /-- The question is answered by the state. -/
  | ok
  /-- A statement fails and has no effect. -/
  | dbError
  | random (bytes : Bytes)
  /-- Another instance's answer; `none` is a transport error. -/
  | http (answer : Option (Nat × Bytes))

def serve (w : World) : (q : Query) → Oracle → Option (Answer q × World)
  | .now, .ok => some (w.clock, w)
  | .random, .random bytes => if bytes.length = 10 then some (bytes, w) else none
  | .db s, .ok => some ((w.db.exec s).1, { w with db := (w.db.exec s).2 })
  | .db _, .dbError => some (.error .other, w)
  | .seenAdd k now, .ok => some ((w.seen.add k now).1, { w with seen := (w.seen.add k now).2 })
  | .spentAdd k now, .ok =>
    some ((w.spent.add k now).1, { w with spent := (w.spent.add k now).2 })
  | .cacheGet id, .ok => some ((w.cache.find? fun e => e.id == id).map fun e => (e.keys, e.at_), w)
  | .cachePut id keys, .ok =>
    some ((), { w with
      cache := ⟨id, keys, w.clock⟩ :: (World.sweep w.clock w.cache).filter fun e => e.id != id })
  | .join id, .ok =>
    match World.underWay id w.flights with
    | some n => some ((false, n), w)
    | none => some ((true, w.flights.length), { w with flights := w.flights ++ [(id, none)] })
  | .land n result, .ok =>
    some ((), { w with flights := w.flights.modify n fun f => (f.1, some result) })
  | .wait n, .ok =>
    match w.flights[n]? with
    | some (_, some result) => some (result, w)
    | _ => none
  | .get _, .http answer => some (answer, w)
  | .post _ _, .http answer => some (answer, w)
  | _, _ => none

/-- What answering a question can be: the question, its answer and the state after it. -/
inductive Served (w : World) : (q : Query) → Answer q → World → Prop where
  | now : Served w .now w.clock w
  | random (bytes : Bytes) (ten : bytes.length = 10) : Served w .random bytes w
  | db (s : Stmt) : Served w (.db s) (w.db.exec s).1 { w with db := (w.db.exec s).2 }
  | dbError (s : Stmt) : Served w (.db s) (.error .other) w
  | seenAdd (k : Bytes) (now : Time) :
    Served w (.seenAdd k now) (w.seen.add k now).1 { w with seen := (w.seen.add k now).2 }
  | spentAdd (k : Bytes) (now : Time) :
    Served w (.spentAdd k now) (w.spent.add k now).1 { w with spent := (w.spent.add k now).2 }
  | cacheGet (id : Bytes) : Served w (.cacheGet id)
      ((w.cache.find? fun e => e.id == id).map fun e => (e.keys, e.at_)) w
  | cachePut (id : Bytes) (keys : RemoteKeys) : Served w (.cachePut id keys) () { w with
      cache := ⟨id, keys, w.clock⟩ :: (World.sweep w.clock w.cache).filter fun e => e.id != id }
  | joined (id : Bytes) (n : Nat) (flying : World.underWay id w.flights = some n) :
    Served w (.join id) (false, n) w
  | started (id : Bytes) (none_ : World.underWay id w.flights = none) :
    Served w (.join id) (true, w.flights.length) { w with flights := w.flights ++ [(id, none)] }
  | land (n : Nat) (result : Except LookupError RemoteKeys) : Served w (.land n result) ()
      { w with flights := w.flights.modify n fun f => (f.1, some result) }
  | waited (n : Nat) (id : Bytes) (result : Except LookupError RemoteKeys)
      (landed : w.flights[n]? = some (id, some result)) : Served w (.wait n) result w
  | get (url : Bytes) (answer : Option (Nat × Bytes)) : Served w (.get url) answer w
  | post (url body : Bytes) (answer : Option (Nat × Bytes)) : Served w (.post url body) answer w

theorem served_of_serve {w w' : World} {q : Query} {o : Oracle} {a : Answer q}
    (h : serve w q o = some (a, w')) : Served w q a w' := by
  unfold serve at h
  split at h
  · cases h; exact .now
  · rename_i bytes
    split at h
    · rename_i ten
      cases h
      exact .random bytes ten
    · cases h
  · cases h; exact .db _
  · cases h; exact .dbError _
  · cases h; exact .seenAdd _ _
  · cases h; exact .spentAdd _ _
  · cases h; exact .cacheGet _
  · cases h; exact .cachePut _ _
  · split at h
    · rename_i n flying
      cases h
      exact .joined _ n flying
    · rename_i none_
      cases h
      exact .started _ none_
  · cases h; exact .land _ _
  · split at h
    · rename_i id result landed
      cases h
      exact .waited _ id _ landed
    · cases h
  · cases h; exact .get _ _
  · cases h; exact .post _ _ _
  · cases h

/-- The clock moves on. -/
def drift (w : World) (clock : Time) : Option World :=
  if w.clock ≤ clock then some { w with clock } else none

/-- The Go server as a service. -/
def service (s : Server) : Lib.Service where
  I := Effects
  State := World
  Req := Request
  Resp := Reply
  Oracle := Oracle
  Drift := Time
  handler := s.handler
  serve := serve
  drift := drift

end Shyake.Go
