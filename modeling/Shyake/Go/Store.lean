import Mathlib.Data.List.Pairwise
import Shyake.Lib.Sha
import Shyake.Go.Std

/-!
# The store (`internal/store`, `internal/store/sqlite`)

The three tables with their constraints, and the statements the backend runs on
them. A statement of the single writer is one step; so is a transaction. A `Db`
carries the proof that its constraints hold, so a statement that would break one
has no result but `conflict`.
-/

namespace Shyake.Go

structure User where
  username : Bytes
  kemPubkey : Bytes
  sigPubkey : Bytes
  createdAt : Int
  deriving DecidableEq

structure Mail where
  id : Bytes
  sender : Bytes
  recipient : Bytes
  encKeySender : Bytes
  encKeyRecipient : Bytes
  encSubject : Bytes
  encBody : Bytes
  size : Int
  signature : Bytes
  timestamp : Int
  encReplyTo : Bytes
  /-- Filled by `listMail`, never written. -/
  ref : Bytes
  deriving DecidableEq

structure Block where
  blocked : Bytes
  createdAt : Int
  deriving DecidableEq

inductive StoreError where
  | notFound
  | conflict
  | other
  deriving DecidableEq

def sigHash (signature : Bytes) : Bytes := Lib.sha256 signature

/-- A row of table `mail`. -/
structure MailRow where
  mail : Mail
  sigHash : Bytes

/-- A row of table `blocks`. -/
structure BlockRow where
  blocker : Bytes
  blocked : Bytes
  createdAt : Int

/-- SQLite's NOCASE collation folds ASCII letters. -/
def nocase (s : Bytes) : Bytes := s.map fun c => if isUpper c then c + 32 else c

structure Db where
  users : List User
  mail : List MailRow
  blocks : List BlockRow
  /-- The primary key and the unique index `users_username_nocase`. -/
  users_username : users.Pairwise fun u v => nocase u.username ≠ nocase v.username
  mail_id : mail.Pairwise fun r s => r.mail.id ≠ s.mail.id
  mail_sig_hash : mail.Pairwise fun r s => r.sigHash ≠ s.sigHash
  blocks_key : blocks.Pairwise fun a b => ¬ (a.blocker = b.blocker ∧ a.blocked = b.blocked)

namespace Db

def empty : Db := ⟨[], [], [], .nil, .nil, .nil, .nil⟩

/-- `WHERE sender = ? OR recipient = ?`. -/
def names (username : Bytes) (m : Mail) : Bool := m.sender == username || m.recipient == username

/-- `UPDATE users SET kem_pubkey = ?, sig_pubkey = ? WHERE username = ?`. -/
def setKeys (username kem sig : Bytes) (u : User) : User :=
  if u.username = username then { u with kemPubkey := kem, sigPubkey := sig } else u

theorem setKeys_username (username kem sig : Bytes) (u : User) :
    (setKeys username kem sig u).username = u.username := by
  unfold setKeys
  split <;> rfl

/-- `DELETE FROM mail` where `p` holds. -/
def deleteMailWhere (p : Mail → Bool) (db : Db) : Db :=
  { db with
    mail := db.mail.filter fun r => !p r.mail
    mail_id := db.mail_id.filter _
    mail_sig_hash := db.mail_sig_hash.filter _ }

def deleteBlocksWhere (p : BlockRow → Bool) (db : Db) : Db :=
  { db with
    blocks := db.blocks.filter fun b => !p b
    blocks_key := db.blocks_key.filter _ }

def updateKeys (username kem sig : Bytes) (db : Db) : Db :=
  { db with
    users := db.users.map (setKeys username kem sig)
    users_username := by
      rw [List.pairwise_map]
      simpa only [setKeys_username] using db.users_username }

/-! ## Statements -/

def createUser (u : User) (db : Db) : Except StoreError Unit × Db :=
  if h : ∀ v ∈ db.users, nocase v.username ≠ nocase u.username then
    (.ok (), { db with
      users := db.users ++ [u]
      users_username := by
        rw [List.pairwise_append]
        exact ⟨db.users_username, List.pairwise_singleton _ _, by simpa using h⟩ })
  else (.error .conflict, db)

def getUser (username : Bytes) (db : Db) : Except StoreError User :=
  match db.users.find? fun u => u.username == username with
  | some u => .ok u
  | none => .error .notFound

def hasUser (username : Bytes) (db : Db) : Bool := db.users.any fun u => u.username == username

/-- One transaction. -/
def rotateKeys (username kem sig : Bytes) (db : Db) : Except StoreError Unit × Db :=
  if db.hasUser username then
    (.ok (), (db.updateKeys username kem sig).deleteMailWhere (names username))
  else (.error .notFound, db)

/-- One transaction. -/
def destroyUser (username : Bytes) (db : Db) : Except StoreError Unit × Db :=
  if db.hasUser username then
    (.ok (), ((db.updateKeys username [] []).deleteMailWhere (names username)).deleteBlocksWhere
      fun b => b.blocker == username || b.blocked == username)
  else (.error .notFound, db)

/-- The `INSERT` of `InsertMail`. -/
def insertMail (m : Mail) (db : Db) : Except StoreError Unit × Db :=
  if h : ∀ r ∈ db.mail, r.mail.id ≠ m.id ∧ r.sigHash ≠ sigHash m.signature then
    (.ok (), { db with
      mail := db.mail ++ [⟨m, sigHash m.signature⟩]
      mail_id := by
        rw [List.pairwise_append]
        exact ⟨db.mail_id, List.pairwise_singleton _ _, by simpa using fun r mem => (h r mem).1⟩
      mail_sig_hash := by
        rw [List.pairwise_append]
        exact ⟨db.mail_sig_hash, List.pairwise_singleton _ _,
          by simpa using fun r mem => (h r mem).2⟩ })
  else (.error .conflict, db)

def mailIDBySignature (signature : Bytes) (db : Db) : Except StoreError Bytes :=
  match db.mail.find? fun r => r.sigHash == sigHash signature with
  | some r => .ok r.mail.id
  | none => .error .notFound

/-- The columns `ListMail` reads. -/
def listed (r : MailRow) : Mail :=
  { r.mail with encBody := [], signature := [], encReplyTo := [], ref := hexEncode r.sigHash }

def listMail (username : Bytes) (sent : Bool) (db : Db) : List Mail :=
  let rows := db.mail.filter fun r =>
    if sent then r.mail.sender == username else r.mail.recipient == username
  (rows.mergeSort fun r s => decide (r.mail.timestamp ≥ s.mail.timestamp)).map listed

def getMail (id username : Bytes) (db : Db) : Except StoreError Mail :=
  match db.mail.find? fun r => r.mail.id == id && names username r.mail with
  | some r => .ok r.mail
  | none => .error .notFound

def deleteMail (id username : Bytes) (db : Db) : Except StoreError Unit × Db :=
  if db.mail.any fun r => r.mail.id == id && names username r.mail then
    (.ok (), db.deleteMailWhere fun m => m.id == id && names username m)
  else (.error .notFound, db)

def blocked (blocker : Bytes) (candidates : List Bytes) (db : Db) : Bool :=
  db.blocks.any fun b => b.blocker == blocker && candidates.contains b.blocked

/-- `INSERT OR REPLACE`. -/
def addBlock (blocker blocked : Bytes) (at_ : Int) (db : Db) : Db :=
  let key (b : BlockRow) : Bool := b.blocker == blocker && b.blocked == blocked
  let rest := db.deleteBlocksWhere key
  { rest with
    blocks := rest.blocks ++ [⟨blocker, blocked, at_⟩]
    blocks_key := by
      rw [List.pairwise_append]
      refine ⟨rest.blocks_key, List.pairwise_singleton _ _, ?_⟩
      intro b mem c hc same
      obtain rfl := List.mem_singleton.mp hc
      have := (List.mem_filter.mp mem).2
      simp [key, same.1, same.2] at this }

/-- One `DELETE` of `RemoveBlock`. -/
def removeBlock (blocker blocked : Bytes) (db : Db) : Db :=
  db.deleteBlocksWhere fun b => b.blocker == blocker && b.blocked == blocked

def listBlocks (blocker : Bytes) (db : Db) : List Block :=
  let rows := db.blocks.filter fun b => b.blocker == blocker
  (rows.mergeSort fun a b => decide (a.createdAt ≥ b.createdAt)).map
    fun b => ⟨b.blocked, b.createdAt⟩

end Db

/-- The statements the handlers run. -/
inductive Stmt where
  | createUser (u : User)
  | getUser (username : Bytes)
  | rotateKeys (username kem sig : Bytes)
  | destroyUser (username : Bytes)
  | insertMail (m : Mail)
  | mailIDBySignature (signature : Bytes)
  | listMail (username : Bytes) (sent : Bool)
  | getMail (id username : Bytes)
  | deleteMail (id username : Bytes)
  | blocked (blocker : Bytes) (candidates : List Bytes)
  | addBlock (blocker blocked : Bytes) (at_ : Int)
  | removeBlock (blocker blocked : Bytes)
  | listBlocks (blocker : Bytes)
  deriving DecidableEq

abbrev Stmt.Result : Stmt → Type
  | getUser _ => User
  | mailIDBySignature _ => Bytes
  | listMail _ _ => List Mail
  | getMail _ _ => Mail
  | blocked _ _ => Bool
  | listBlocks _ => List Block
  | _ => Unit

def Db.exec (db : Db) : (s : Stmt) → Except StoreError s.Result × Db
  | .createUser u => db.createUser u
  | .getUser username => (db.getUser username, db)
  | .rotateKeys username kem sig => db.rotateKeys username kem sig
  | .destroyUser username => db.destroyUser username
  | .insertMail m => db.insertMail m
  | .mailIDBySignature signature => (db.mailIDBySignature signature, db)
  | .listMail username sent => (.ok (db.listMail username sent), db)
  | .getMail id username => (db.getMail id username, db)
  | .deleteMail id username => db.deleteMail id username
  | .blocked blocker candidates => (.ok (db.blocked blocker candidates), db)
  | .addBlock blocker blocked at_ => (.ok (), db.addBlock blocker blocked at_)
  | .removeBlock blocker blocked => (.ok (), db.removeBlock blocker blocked)
  | .listBlocks blocker => (.ok (db.listBlocks blocker), db)

namespace Db

/-! ## What a statement can do -/

variable {db : Db} {s : Stmt}

/-- No two rows have one name. -/
theorem user_unique {u v : User} (hu : u ∈ db.users) (hv : v ∈ db.users)
    (e : u.username = v.username) : u = v := by
  have : Std.Symm fun u v : User => nocase u.username ≠ nocase v.username := ⟨fun _ _ h => h.symm⟩
  by_contra ne
  exact db.users_username.forall hu hv ne (by rw [e])

theorem getUser_ok {username : Bytes} {u : User} :
    db.getUser username = .ok u ↔ u ∈ db.users ∧ u.username = username := by
  unfold getUser
  constructor
  · intro h
    split at h
    · rename_i found
      cases h
      exact ⟨List.mem_of_find?_eq_some found, by simpa using List.find?_some found⟩
    · cases h
  · rintro ⟨mem, name⟩
    split
    · rename_i v found
      have same : v.username = username := by simpa using List.find?_some found
      rw [user_unique (List.mem_of_find?_eq_some found) mem (same.trans name.symm)]
    · rename_i none
      have := List.find?_eq_none.mp none u mem
      simp [name] at this

theorem hasUser_iff {username : Bytes} :
    db.hasUser username = true ↔ ∃ u ∈ db.users, u.username = username := by
  simp [hasUser]

/-- A mail row is an old one or the one just inserted. -/
theorem mem_mail_exec {r : MailRow} (h : r ∈ (db.exec s).2.mail) :
    r ∈ db.mail ∨ s = .insertMail r.mail ∧ r.sigHash = Go.sigHash r.mail.signature := by
  cases s with
  | insertMail m =>
    simp only [exec, insertMail] at h
    split at h
    · rcases List.mem_append.mp h with old | new
      · exact .inl old
      · obtain rfl := List.mem_singleton.mp new
        exact .inr ⟨rfl, rfl⟩
    · exact .inl h
  | createUser | rotateKeys | destroyUser | deleteMail =>
    simp only [exec, createUser, rotateKeys, destroyUser, deleteMail] at h
    split at h
    · first
        | exact .inl h
        | exact .inl (List.mem_of_mem_filter h)
    · exact .inl h
  | _ => exact .inl h

/-- Only three statements remove mail. -/
theorem mail_kept {r : MailRow} (h : r ∈ db.mail) (rotate : ∀ u k k', s ≠ .rotateKeys u k k')
    (destroy : ∀ u, s ≠ .destroyUser u) (delete : ∀ id u, s ≠ .deleteMail id u) :
    r ∈ (db.exec s).2.mail := by
  cases s with
  | insertMail m =>
    simp only [exec, insertMail]
    split
    · exact List.mem_append_left _ h
    · exact h
  | rotateKeys u k k' => exact absurd rfl (rotate u k k')
  | destroyUser u => exact absurd rfl (destroy u)
  | deleteMail id u => exact absurd rfl (delete id u)
  | createUser u =>
    simp only [exec, createUser]
    split <;> exact h
  | _ => exact h

/-- A user row is an old one, a new one, or an old one with new keys. -/
theorem mem_users_exec {v : User} (h : v ∈ (db.exec s).2.users) :
    v ∈ db.users ∨ (s = .createUser v ∧ ∀ u ∈ db.users, nocase u.username ≠ nocase v.username) ∨
      ∃ u ∈ db.users, u.username = v.username ∧
        (s = .rotateKeys v.username v.kemPubkey v.sigPubkey ∨
          s = .destroyUser v.username ∧ v.kemPubkey = [] ∧ v.sigPubkey = []) := by
  have set : ∀ {username kem sig : Bytes}, v ∈ (db.updateKeys username kem sig).users →
      v ∈ db.users ∨ ∃ u ∈ db.users, u.username = v.username ∧ v.username = username ∧
        v.kemPubkey = kem ∧ v.sigPubkey = sig := by
    intro username kem sig h
    obtain ⟨u, mem, rfl⟩ := List.mem_map.mp h
    by_cases name : u.username = username
    · exact .inr ⟨u, mem, by rw [setKeys_username], by rw [setKeys_username, name],
        by simp [setKeys, name]⟩
    · exact .inl (by simpa [setKeys, name] using mem)
  cases s with
  | createUser u =>
    simp only [exec, createUser] at h
    split at h
    · rename_i fresh
      rcases List.mem_append.mp h with old | new
      · exact .inl old
      · obtain rfl := List.mem_singleton.mp new
        exact .inr (.inl ⟨rfl, fresh⟩)
    · exact .inl h
  | rotateKeys username kem sig =>
    simp only [exec, rotateKeys] at h
    split at h
    · rcases set h with old | ⟨u, mem, name, rfl, rfl, rfl⟩
      · exact .inl old
      · exact .inr (.inr ⟨u, mem, name, .inl rfl⟩)
    · exact .inl h
  | destroyUser username =>
    simp only [exec, destroyUser] at h
    split at h
    · rcases set h with old | ⟨u, mem, name, rfl, kem, sig⟩
      · exact .inl old
      · exact .inr (.inr ⟨u, mem, name, .inr ⟨rfl, kem, sig⟩⟩)
    · exact .inl h
  | insertMail m =>
    simp only [exec, insertMail] at h
    split at h <;> exact .inl h
  | deleteMail id username =>
    simp only [exec, deleteMail] at h
    split at h <;> exact .inl h
  | _ => exact .inl h

/-- A block row is an old one or the one just added. -/
theorem mem_blocks_exec {b : BlockRow} (h : b ∈ (db.exec s).2.blocks) :
    b ∈ db.blocks ∨ s = .addBlock b.blocker b.blocked b.createdAt := by
  cases s with
  | addBlock blocker blocked at_ =>
    rcases List.mem_append.mp h with old | new
    · exact .inl (List.mem_of_mem_filter old)
    · obtain rfl := List.mem_singleton.mp new
      exact .inr rfl
  | removeBlock => exact .inl (List.mem_of_mem_filter h)
  | destroyUser =>
    simp only [exec, destroyUser] at h
    split at h
    · exact .inl (List.mem_of_mem_filter h)
    · exact .inl h
  | createUser | rotateKeys | insertMail | deleteMail =>
    simp only [exec, createUser, rotateKeys, insertMail, deleteMail] at h
    split at h <;> exact .inl h
  | _ => exact .inl h

/-- No statement removes a name. -/
theorem exists_user_exec {u : User} (h : u ∈ db.users) :
    ∃ v ∈ (db.exec s).2.users, v.username = u.username := by
  have set : ∀ username kem sig, ∃ v ∈ (db.updateKeys username kem sig).users,
      v.username = u.username := fun username kem sig =>
    ⟨setKeys username kem sig u, List.mem_map_of_mem h, setKeys_username ..⟩
  cases s with
  | createUser =>
    simp only [exec, createUser]
    split
    · exact ⟨u, List.mem_append_left _ h, rfl⟩
    · exact ⟨u, h, rfl⟩
  | rotateKeys =>
    simp only [exec, rotateKeys]
    split
    · exact set _ _ _
    · exact ⟨u, h, rfl⟩
  | destroyUser =>
    simp only [exec, destroyUser]
    split
    · exact set _ _ _
    · exact ⟨u, h, rfl⟩
  | insertMail =>
    simp only [exec, insertMail]
    split <;> exact ⟨u, h, rfl⟩
  | deleteMail =>
    simp only [exec, deleteMail]
    split <;> exact ⟨u, h, rfl⟩
  | _ => exact ⟨u, h, rfl⟩

/-- Only two statements change a user. -/
theorem user_kept {u : User} (h : u ∈ db.users) (rotate : ∀ n k k', s ≠ .rotateKeys n k k')
    (destroy : ∀ n, s ≠ .destroyUser n) : u ∈ (db.exec s).2.users := by
  obtain ⟨v, mem, same⟩ := exists_user_exec (s := s) h
  rcases mem_users_exec mem with old | ⟨-, fresh⟩ | ⟨-, -, -, rotated | ⟨destroyed, -⟩⟩
  · rw [user_unique h old same.symm]
    exact mem
  · exact absurd (congrArg nocase same.symm) (fresh u h)
  · exact absurd rotated (rotate _ _ _)
  · exact absurd destroyed (destroy _)

/-- No row, no id. -/
theorem mailIDBySignature_unknown {signature : Bytes}
    (unknown : ∀ r ∈ db.mail, r.sigHash ≠ sigHash signature) :
    db.mailIDBySignature signature = .error .notFound := by
  have missing : db.mail.find? (fun r => r.sigHash == sigHash signature) = none := by
    refine List.find?_eq_none.mpr fun r mem => ?_
    simpa using unknown r mem
  unfold mailIDBySignature
  rw [missing]

/-- A row of the signature is found. -/
theorem mailIDBySignature_known {signature : Bytes} {row : MailRow} (mem : row ∈ db.mail)
    (hash : row.sigHash = sigHash signature) : ∃ id, db.mailIDBySignature signature = .ok id := by
  unfold mailIDBySignature
  cases found : db.mail.find? fun r => r.sigHash == sigHash signature with
  | none => exact absurd hash (by simpa using List.find?_eq_none.mp found row mem)
  | some r => exact ⟨_, rfl⟩

/-- What is found is the id of a row of the signature. -/
theorem mailIDBySignature_ok {signature id : Bytes}
    (h : db.mailIDBySignature signature = .ok id) :
    ∃ row ∈ db.mail, row.mail.id = id ∧ row.sigHash = sigHash signature := by
  unfold mailIDBySignature at h
  split at h
  · rename_i row found
    cases h
    exact ⟨row, List.mem_of_find?_eq_some found, rfl, by simpa using List.find?_some found⟩
  · cases h

/-- There is one row of a signature. -/
theorem row_unique {row row' : MailRow} (mem : row ∈ db.mail) (mem' : row' ∈ db.mail)
    (same : row.sigHash = row'.sigHash) : row = row' := by
  have : Std.Symm fun r r' : MailRow => r.sigHash ≠ r'.sigHash := ⟨fun _ _ h => h.symm⟩
  by_contra ne
  exact db.mail_sig_hash.forall mem mem' ne same

/-- A new row is stored. -/
theorem exec_insertMail (db : Db) {m : Mail}
    (new : ∀ r ∈ db.mail, r.mail.id ≠ m.id ∧ r.sigHash ≠ sigHash m.signature) :
    ∃ db', db.exec (.insertMail m) = (.ok (), db') ∧ db'.users = db.users ∧
      db'.mail = db.mail ++ [⟨m, sigHash m.signature⟩] ∧ db'.blocks = db.blocks := by
  simp only [exec, insertMail]
  rw [dif_pos new]
  exact ⟨_, rfl, rfl, rfl, rfl⟩

/-- A mail of the user is deleted. -/
theorem exec_deleteMail (db : Db) (id username : Bytes)
    (here : ∃ r ∈ db.mail, r.mail.id = id ∧ names username r.mail = true) :
    ∃ db', db.exec (.deleteMail id username) = (.ok (), db') ∧ db'.users = db.users ∧
      db'.mail = db.mail.filter (fun r => !(r.mail.id == id && names username r.mail)) ∧
      db'.blocks = db.blocks := by
  have some : (db.mail.any fun r => r.mail.id == id && names username r.mail) = true := by
    obtain ⟨r, mem, same, name⟩ := here
    exact List.any_eq_true.mpr ⟨r, mem, by simp [same, name]⟩
  simp only [exec, deleteMail, some, if_true]
  exact ⟨_, rfl, rfl, rfl, rfl⟩

/-- An INSERT that succeeds leaves its row. -/
theorem mem_of_insertMail {m : Mail} (h : (db.exec (.insertMail m)).1 = .ok ()) :
    (⟨m, sigHash m.signature⟩ : MailRow) ∈ (db.exec (.insertMail m)).2.mail := by
  simp only [exec, insertMail] at h ⊢
  split at h
  · rename_i new
    rw [dif_pos new]
    exact List.mem_append_right _ List.mem_cons_self
  · cases h

/-- An INSERT that fails changes nothing. -/
theorem insertMail_cases (db : Db) (m : Mail) : (db.exec (.insertMail m)).1 = .ok () ∨
    (db.exec (.insertMail m)).2 = db := by
  simp only [exec, insertMail]
  split
  · exact .inl rfl
  · exact .inr rfl

/-- An INSERT leaves the users alone. -/
theorem users_insertMail (db : Db) (m : Mail) : (db.exec (.insertMail m)).2.users = db.users := by
  simp only [exec, insertMail]
  split <;> rfl

/-- An INSERT that succeeds has found no row of its signature. -/
theorem insertMail_ok {m : Mail} (h : (db.exec (.insertMail m)).1 = .ok ()) :
    ∀ r ∈ db.mail, r.sigHash ≠ sigHash m.signature := by
  simp only [exec, insertMail] at h
  split at h
  · rename_i new
    exact fun r mem => (new r mem).2
  · cases h

/-- A rotation or a destruction leaves no mail that names the user. -/
theorem names_of_updated {username : Bytes} {r : MailRow}
    (hs : (∃ kem sig, s = .rotateKeys username kem sig) ∨ s = .destroyUser username)
    (user : db.hasUser username = true) (h : r ∈ (db.exec s).2.mail) :
    names username r.mail = false := by
  obtain ⟨kem, sig, rfl⟩ | rfl := hs
  · simp only [exec, rotateKeys, user, if_true] at h
    simpa using (List.mem_filter.mp h).2
  · simp only [exec, destroyUser, user, if_true] at h
    simpa using (List.mem_filter.mp h).2

/-- A destruction empties the keys and leaves no block of the user. -/
theorem destroyed {username : Bytes} (user : db.hasUser username = true) :
    (∀ u ∈ (db.exec (.destroyUser username)).2.users, u.username = username →
      u.kemPubkey = [] ∧ u.sigPubkey = []) ∧
    ∀ b ∈ (db.exec (.destroyUser username)).2.blocks,
      b.blocker ≠ username ∧ b.blocked ≠ username := by
  simp only [exec, destroyUser, user, if_true]
  constructor
  · intro u mem name
    obtain ⟨v, -, rfl⟩ := List.mem_map.mp mem
    rw [setKeys_username] at name
    unfold setKeys
    rw [if_pos name]
    exact ⟨rfl, rfl⟩
  · intro b mem
    have kept := (List.mem_filter.mp mem).2
    simpa using kept

/-- A user's keys are replaced. -/
theorem exec_rotateKeys (db : Db) (username kem sig : Bytes)
    (user : db.hasUser username = true) : ∃ db',
      db.exec (.rotateKeys username kem sig) = (.ok (), db') ∧
      db'.users = db.users.map (setKeys username kem sig) := by
  simp only [exec, rotateKeys, user, if_true]
  exact ⟨_, rfl, rfl⟩

/-- A user is destroyed. -/
theorem exec_destroyUser (db : Db) (username : Bytes) (user : db.hasUser username = true) :
    ∃ db', db.exec (.destroyUser username) = (.ok (), db') ∧
      db'.users = db.users.map (setKeys username [] []) := by
  simp only [exec, destroyUser, user, if_true]
  exact ⟨_, rfl, rfl⟩

/-- A destruction that succeeds has found the user. -/
theorem hasUser_of_destroyUser {username : Bytes}
    (h : (db.exec (.destroyUser username)).1 = .ok ()) : db.hasUser username = true := by
  simp only [exec, destroyUser] at h
  split at h
  · assumption
  · cases h

/-- A name that exists in some letter case is taken. -/
theorem createUser_taken {u v : User} (mem : u ∈ db.users)
    (same : nocase u.username = nocase v.username) : db.createUser v = (.error .conflict, db) :=
  dif_neg fun free => free u mem same

end Db

end Shyake.Go
