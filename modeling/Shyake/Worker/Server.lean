import Shyake.Lib.Interleave
import Shyake.Worker.Index

/-!
# The running Worker

D1 with its three tables, and how it answers a handler's questions. A statement may
fail, and then has no effect.
-/

namespace Shyake.Worker

/-- A row of table `blocks`. -/
structure BlockRow where
  blocker : Bytes
  blocked : Bytes
  createdAt : Int
  deriving DecidableEq

structure Db where
  users : List User
  mail : List Mail
  blocks : List BlockRow

/-- `COLLATE NOCASE`. -/
def nocase (s : Bytes) : Bytes := s.map fun c => if isUpper c then c + 32 else c

namespace Db

/-- `WHERE sender = ? OR recipient = ?`. -/
def names (username : Bytes) (m : Mail) : Bool := m.sender == username || m.recipient == username

def setKeys (username kem sig : Bytes) (u : User) : User :=
  if u.username = username then { u with kemPubkey := kem, sigPubkey := sig } else u

/-- The keys of a user. -/
def keys (username : Bytes) (db : Db) : Option (Bytes × Bytes) :=
  (db.users.find? fun u => u.username == username).map fun u => (u.kemPubkey, u.sigPubkey)

def blocked (blocker sender domain : Bytes) (db : Db) : Bool :=
  db.blocks.any fun b => b.blocker == blocker && (b.blocked == sender || b.blocked == domain)

/-- One column is compared; `ORDER BY timestamp DESC`. -/
def listMail (username : Bytes) (sent : Bool) (db : Db) : List Mail :=
  let rows := db.mail.filter fun m => if sent then m.sender == username else m.recipient == username
  rows.mergeSort fun m n => decide (m.timestamp ≥ n.timestamp)

def getMail (id username : Bytes) (db : Db) : Option Mail :=
  db.mail.find? fun m => m.id == id && names username m

def listBlocks (blocker : Bytes) (db : Db) : List (Bytes × Int) :=
  let rows := db.blocks.filter fun b => b.blocker == blocker
  (rows.mergeSort fun a b => decide (a.createdAt ≥ b.createdAt)).map fun b =>
    (b.blocked, b.createdAt)

/-- A statement and its effect; `none` is a broken constraint. -/
def exec (db : Db) : (s : Stmt) → Option s.Result × Db
  | .createUser u =>
    if db.users.any fun v => nocase v.username == nocase u.username then (some false, db)
    else (some true, { db with users := db.users ++ [u] })
  | .keys username => (some (db.keys username), db)
  | .blocked blocker sender domain => (some (db.blocked blocker sender domain), db)
  | .insertMail m =>
    if db.mail.any fun n => n.id == m.id then (none, db)
    else (some (), { db with mail := db.mail ++ [m] })
  | .addBlock blocker blocked at_ =>
    let key (b : BlockRow) : Bool := b.blocker == blocker && b.blocked == blocked
    (some (), { db with blocks := (db.blocks.filter fun b => !key b) ++ [⟨blocker, blocked, at_⟩] })
  | .removeBlock blocker blocked raw =>
    let key (b : BlockRow) : Bool := b.blocker == blocker && (b.blocked == blocked || b.blocked == raw)
    (some (), { db with blocks := db.blocks.filter fun b => !key b })
  | .updateKeys username kem sig =>
    (some (), { db with users := db.users.map (setKeys username kem sig) })
  | .deleteMail username => (some (), { db with mail := db.mail.filter fun m => !names username m })
  | .listMail username sent => (some (db.listMail username sent), db)
  | .getMail id username => (some (db.getMail id username), db)
  | .hasMail id username => (some (db.getMail id username).isSome, db)
  | .burnMail id => (some (), { db with mail := db.mail.filter fun m => m.id != id })
  | .listBlocks blocker => (some (db.listBlocks blocker), db)
  | .deleteBlocks username => (some (), { db with
      blocks := db.blocks.filter fun b => !(b.blocker == username || b.blocked == username) })

end Db

structure World where
  /-- Milliseconds since 1970. -/
  clock : Nat
  db : Db

inductive Oracle where
  | ok
  /-- A statement fails and has no effect. -/
  | dbError
  | random (indexes : List Nat)
  | http (answer : Option (Nat × Bytes))

def serve (w : World) : (q : Query) → Oracle → Option (Answer q × World)
  | .now, .ok => some (w.clock, w)
  | .random, .random indexes =>
    if indexes.length = 10 ∧ ∀ i ∈ indexes, i < charset.length then some (indexes, w) else none
  | .db s, .ok => some ((w.db.exec s).1, { w with db := (w.db.exec s).2 })
  | .db _, .dbError => some (none, w)
  | .get _, .http answer => some (answer, w)
  | .post _ _, .http answer => some (answer, w)
  | _, _ => none

def drift (w : World) (clock : Nat) : Option World :=
  if w.clock ≤ clock then some { w with clock } else none

/-- The Worker as a service. -/
def service (e : Env) : Lib.Service where
  I := Effects
  State := World
  Req := Request
  Resp := Reply
  Oracle := Oracle
  Drift := Nat
  handler := handler e
  serve := serve
  drift := drift

abbrev Log := List (Lib.Event Effects)

/-- What answering a statement can be. -/
theorem serve_db_cases {w w' : World} {s : Stmt} {o : Oracle} {a : Option s.Result}
    (h : serve w (.db s) o = some (a, w')) :
    a = (w.db.exec s).1 ∧ w' = { w with db := (w.db.exec s).2 } ∨ a = none ∧ w' = w := by
  cases o with
  | ok =>
    cases h
    exact .inl ⟨rfl, rfl⟩
  | dbError =>
    cases h
    exact .inr ⟨rfl, rfl⟩
  | random _ => cases h
  | http _ => cases h

end Shyake.Worker
