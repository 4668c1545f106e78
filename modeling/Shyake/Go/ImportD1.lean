import Shyake.Go.Protocol.Address
import Shyake.Go.Store
import Shyake.Lib.KeepFirst

/-!
# Importing a Worker's database (`internal/store/sqlite/import.go`)

The rows of the three tables are inserted one after the other, and the constraints of the target
decide which stay.
-/

namespace Shyake.Go

open Protocol (parseBlockTarget)

/-! ## The source -/

/-- A row of the Worker's table `mail`. -/
structure D1Mail where
  mailId : Bytes
  sender : Bytes
  recipient : Bytes
  encKeySender : Bytes
  encKeyRecipient : Bytes
  encSubject : Bytes
  encBody : Bytes
  size : Int
  signature : Bytes
  timestamp : Int
  /-- A Worker database from before replies has no such column. -/
  encReplyTo : Option Bytes

/-- A Worker's database, with the primary keys of its tables. -/
structure D1 where
  users : List User
  mail : List D1Mail
  blocks : List BlockRow
  users_username : users.Pairwise fun u v => u.username ≠ v.username
  mail_id : mail.Pairwise fun m n => m.mailId ≠ n.mailId
  blocks_key : blocks.Pairwise fun a b => ¬(a.blocker = b.blocker ∧ a.blocked = b.blocked)

/-- `ORDER BY created_at, username`. -/
def Earlier (u v : User) : Prop :=
  u.createdAt < v.createdAt ∨ u.createdAt = v.createdAt ∧ u.username ≤ v.username

/-- What the three `SELECT`s return: the rows of the tables, as far as `ORDER BY` says in order. -/
structure Selected (src : D1) where
  users : List User
  mail : List D1Mail
  blocks : List BlockRow
  users_perm : users.Perm src.users
  users_sorted : users.Pairwise Earlier
  mail_perm : mail.Perm src.mail
  mail_sorted : mail.Pairwise fun m n => m.timestamp ≤ n.timestamp
  blocks_perm : blocks.Perm src.blocks

/-- The file given to the import. -/
inductive Source where
  /-- It cannot be read, with the driver's error. -/
  | unreadable (err : Bytes)
  /-- It has not all three tables. -/
  | noTables
  | d1 (src : D1) (rows : Selected src)

/-! ## The import -/

/-- `ImportReport` says what an import copied and what it had to leave out. -/
structure ImportReport where
  users : Nat
  mail : Nat
  blocks : Nat
  skippedUsers : List Bytes
  duplicateMail : Nat

namespace D1Mail

/-- The row as it is inserted; `COALESCE(enc_reply_to, '')`. -/
def toMail (m : D1Mail) : Mail where
  id := m.mailId
  sender := m.sender
  recipient := m.recipient
  encKeySender := m.encKeySender
  encKeyRecipient := m.encKeyRecipient
  encSubject := m.encSubject
  encBody := m.encBody
  size := m.size
  signature := m.signature
  timestamp := m.timestamp
  encReplyTo := m.encReplyTo.getD []
  ref := []

def toRow (m : D1Mail) : MailRow := ⟨m.toMail, sigHash m.signature⟩

end D1Mail

/-- The stored form of a block's target, and the text itself where it names nothing. -/
def storedTarget (domain blocked : Bytes) : Bytes :=
  match parseBlockTarget blocked domain with
  | .ok t => t.stored
  | .error _ => blocked

/-- The row as it is inserted. -/
def BlockRow.normalized (domain : Bytes) (b : BlockRow) : BlockRow :=
  { b with blocked := storedTarget domain b.blocked }

namespace Import

/-- The body of the loop of `importUsers`. -/
def importUser (st : ImportReport × Db) (u : User) : ImportReport × Db :=
  match st.2.createUser u with
  | (.error _, _) => ({ st.1 with skippedUsers := st.1.skippedUsers ++ [u.username] }, st.2)
  | (.ok _, db) => ({ st.1 with users := st.1.users + 1 }, db)

def importUsers (rows : List User) (st : ImportReport × Db) : ImportReport × Db :=
  rows.foldl importUser st

/-- The body of the loop of `importMail`. -/
def importMailRow (st : ImportReport × Db) (m : D1Mail) : ImportReport × Db :=
  match st.2.insertMail m.toMail with
  | (.error _, _) => ({ st.1 with duplicateMail := st.1.duplicateMail + 1 }, st.2)
  | (.ok _, db) => ({ st.1 with mail := st.1.mail + 1 }, db)

def importMail (rows : List D1Mail) (st : ImportReport × Db) : ImportReport × Db :=
  rows.foldl importMailRow st

/-- The body of the loop of `importBlocks`. -/
def importBlock (domain : Bytes) (st : ImportReport × Db) (b : BlockRow) : ImportReport × Db :=
  let b := b.normalized domain
  ({ st.1 with blocks := st.1.blocks + 1 }, st.2.addBlock b.blocker b.blocked b.createdAt)

def importBlocks (domain : Bytes) (rows : List BlockRow) (st : ImportReport × Db) :
    ImportReport × Db := rows.foldl (importBlock domain) st

/-- `ImportD1`. An error of a statement other than a constraint's is the database's, and leaves
the transaction undone. -/
def importD1 (dst : Db) (path : Bytes) (src : Source) (instanceDomain : Bytes) :
    Except Bytes (ImportReport × Db) :=
  if dst.users ≠ [] then
    .error (utf8 "import: the target database already has users; import into a new one")
  else
    match src with
    | .unreadable err => .error (utf8 "import: cannot read " ++ path ++ utf8 ": " ++ err)
    | .noTables => .error (utf8 "import: " ++ path ++ utf8 " has no users, mail and blocks tables. " ++
        utf8 "Pass the D1 file that is not metadata.sqlite. " ++
        utf8 "If you copied it, copy its -wal file with it, or pass it where it is")
    | .d1 _ rows =>
      .ok (importBlocks instanceDomain rows.blocks
        (importMail rows.mail (importUsers rows.users (⟨0, 0, 0, [], 0⟩, dst))))

/-! ## What each loop does -/

/-- What the unique index on `users` compares. -/
def nameKey (u : User) : Bytes := nocase u.username

/-- `importUsers` keeps the first row of each name and reports the others. -/
structure UsersImported (rows : List User) (st st' : ImportReport × Db) : Prop where
  users : st'.2.users = (Lib.keepFirst nameKey st.2.users rows).1
  mail : st'.2.mail = st.2.mail
  blocks : st'.2.blocks = st.2.blocks
  skipped : st'.1.skippedUsers =
    st.1.skippedUsers ++ (Lib.keepFirst nameKey st.2.users rows).2.map User.username
  count : st'.1.users + st.2.users.length = st.1.users + st'.2.users.length
  mailCount : st'.1.mail = st.1.mail
  blockCount : st'.1.blocks = st.1.blocks
  duplicates : st'.1.duplicateMail = st.1.duplicateMail

theorem importUser_fresh {st : ImportReport × Db} {u : User}
    (fresh : ∀ v ∈ st.2.users, nameKey v ≠ nameKey u) :
    ∃ db : Db, importUser st u = ({ st.1 with users := st.1.users + 1 }, db) ∧
      db.users = st.2.users ++ [u] ∧ db.mail = st.2.mail ∧ db.blocks = st.2.blocks := by
  have created : ∀ v ∈ st.2.users, nocase v.username ≠ nocase u.username := fresh
  refine ⟨(st.2.createUser u).2, ?_, ?_⟩
  · simp [importUser, Db.createUser, dif_pos created]
  · simp [Db.createUser, dif_pos created]

theorem importUser_refused {st : ImportReport × Db} {u : User}
    (known : ¬∀ v ∈ st.2.users, nameKey v ≠ nameKey u) :
    importUser st u =
      ({ st.1 with skippedUsers := st.1.skippedUsers ++ [u.username] }, st.2) := by
  have refused : ¬∀ v ∈ st.2.users, nocase v.username ≠ nocase u.username := known
  simp [importUser, Db.createUser, dif_neg refused]

theorem importUsers_imported (rows : List User) (st : ImportReport × Db) :
    UsersImported rows st (importUsers rows st) := by
  induction rows generalizing st with
  | nil => exact ⟨rfl, rfl, rfl, by simp [Lib.keepFirst, importUsers], rfl, rfl, rfl, rfl⟩
  | cons u rows ih =>
    rw [show importUsers (u :: rows) st = importUsers rows (importUser st u) from rfl]
    have rest := ih (importUser st u)
    by_cases fresh : ∀ v ∈ st.2.users, nameKey v ≠ nameKey u
    · obtain ⟨db, step, users, mail, blocks⟩ := importUser_fresh fresh
      rw [step] at rest ⊢
      have count : _ + db.users.length = st.1.users + 1 + _ := rest.count
      rw [users, List.length_append, List.length_singleton] at count
      refine ⟨?_, rest.mail.trans mail, rest.blocks.trans blocks, ?_, by omega, rest.mailCount,
        rest.blockCount, rest.duplicates⟩
      · rw [Lib.keepFirst_fresh fresh, ← users]
        exact rest.users
      · rw [Lib.keepFirst_fresh fresh, ← users]
        exact rest.skipped
    · rw [importUser_refused fresh] at rest ⊢
      refine ⟨?_, rest.mail, rest.blocks, ?_, rest.count, rest.mailCount, rest.blockCount,
        rest.duplicates⟩
      · rw [Lib.keepFirst_refused fresh]
        exact rest.users
      · rw [Lib.keepFirst_refused fresh, rest.skipped]
        simp

/-- `importMail` adds a row or counts it. -/
structure MailImported (rows : List D1Mail) (st st' : ImportReport × Db) : Prop where
  users : st'.2.users = st.2.users
  blocks : st'.2.blocks = st.2.blocks
  kept : ∀ r ∈ st.2.mail, r ∈ st'.2.mail
  count : st'.1.mail + st.2.mail.length = st.1.mail + st'.2.mail.length
  userCount : st'.1.users = st.1.users
  blockCount : st'.1.blocks = st.1.blocks
  skipped : st'.1.skippedUsers = st.1.skippedUsers

/-- What becomes of the rows, where no two in the table or to come have one id: of those with one
signature hash the first is kept. -/
structure MailKept (rows : List D1Mail) (st st' : ImportReport × Db) : Prop where
  mail : st'.2.mail = (Lib.keepFirst MailRow.sigHash st.2.mail (rows.map D1Mail.toRow)).1
  duplicates : st'.1.duplicateMail =
    st.1.duplicateMail + (Lib.keepFirst MailRow.sigHash st.2.mail (rows.map D1Mail.toRow)).2.length

theorem importMailRow_stored {st : ImportReport × Db} {m : D1Mail}
    (fresh : ∀ r ∈ st.2.mail, r.mail.id ≠ m.mailId ∧ r.sigHash ≠ sigHash m.signature) :
    ∃ db : Db, importMailRow st m = ({ st.1 with mail := st.1.mail + 1 }, db) ∧
      db.users = st.2.users ∧ db.mail = st.2.mail ++ [m.toRow] ∧ db.blocks = st.2.blocks := by
  have inserted : ∀ r ∈ st.2.mail,
      r.mail.id ≠ m.toMail.id ∧ r.sigHash ≠ sigHash m.toMail.signature := fresh
  refine ⟨(st.2.insertMail m.toMail).2, ?_, ?_⟩
  · simp [importMailRow, Db.insertMail, dif_pos inserted]
  · rw [Db.insertMail, dif_pos inserted]
    exact ⟨rfl, rfl, rfl⟩

theorem importMailRow_refused {st : ImportReport × Db} {m : D1Mail}
    (known : ¬∀ r ∈ st.2.mail, r.mail.id ≠ m.mailId ∧ r.sigHash ≠ sigHash m.signature) :
    importMailRow st m = ({ st.1 with duplicateMail := st.1.duplicateMail + 1 }, st.2) := by
  have refused : ¬∀ r ∈ st.2.mail,
      r.mail.id ≠ m.toMail.id ∧ r.sigHash ≠ sigHash m.toMail.signature := known
  simp [importMailRow, Db.insertMail, dif_neg refused]

theorem importMail_imported (rows : List D1Mail) (st : ImportReport × Db) :
    MailImported rows st (importMail rows st) := by
  induction rows generalizing st with
  | nil => exact ⟨rfl, rfl, fun _ mem => mem, rfl, rfl, rfl, rfl⟩
  | cons m rows ih =>
    rw [show importMail (m :: rows) st = importMail rows (importMailRow st m) from rfl]
    have rest := ih (importMailRow st m)
    by_cases fresh : ∀ r ∈ st.2.mail, r.mail.id ≠ m.mailId ∧ r.sigHash ≠ sigHash m.signature
    · obtain ⟨db, step, users, mail, blocks⟩ := importMailRow_stored fresh
      rw [step] at rest ⊢
      have count : _ + db.mail.length = st.1.mail + 1 + _ := rest.count
      rw [mail, List.length_append, List.length_singleton] at count
      refine ⟨rest.users.trans users, rest.blocks.trans blocks, ?_, by omega, rest.userCount,
        rest.blockCount, rest.skipped⟩
      intro r mem
      apply rest.kept
      rw [mail]
      exact List.mem_append_left _ mem
    · rw [importMailRow_refused fresh] at rest ⊢
      exact ⟨rest.users, rest.blocks, rest.kept, rest.count, rest.userCount, rest.blockCount,
        rest.skipped⟩

theorem importMail_kept {rows : List D1Mail} {st : ImportReport × Db}
    (ids : (st.2.mail ++ rows.map D1Mail.toRow).Pairwise fun r s => r.mail.id ≠ s.mail.id) :
    MailKept rows st (importMail rows st) := by
  induction rows generalizing st with
  | nil => exact ⟨rfl, rfl⟩
  | cons m rows ih =>
    rw [show importMail (m :: rows) st = importMail rows (importMailRow st m) from rfl]
    rw [List.map_cons] at ids
    have other : ∀ r ∈ st.2.mail, r.mail.id ≠ m.mailId := fun r mem =>
      (List.pairwise_append.mp ids).2.2 r mem m.toRow List.mem_cons_self
    by_cases fresh : ∀ r ∈ st.2.mail, r.sigHash ≠ m.toRow.sigHash
    · obtain ⟨db, step, users, mail, blocks⟩ :=
        importMailRow_stored fun r mem => ⟨other r mem, fresh r mem⟩
      rw [step]
      have rest := @ih ({ st.1 with mail := st.1.mail + 1 }, db) (by
        rw [mail, List.append_assoc]
        exact ids)
      refine ⟨?_, ?_⟩
      · rw [List.map_cons, Lib.keepFirst_fresh fresh, ← mail]
        exact rest.mail
      · rw [List.map_cons, Lib.keepFirst_fresh fresh, ← mail]
        exact rest.duplicates
    · rw [importMailRow_refused fun all => fresh fun r mem => (all r mem).2]
      have rest := @ih ({ st.1 with duplicateMail := st.1.duplicateMail + 1 }, st.2)
        (ids.sublist (List.Sublist.append_left (List.sublist_cons_self _ _) _))
      refine ⟨?_, ?_⟩
      · rw [List.map_cons, Lib.keepFirst_refused fresh]
        exact rest.mail
      · rw [List.map_cons, Lib.keepFirst_refused fresh, rest.duplicates, List.length_cons]
        simp only
        omega

/-- The key of table `blocks`. -/
def blockKey (b : BlockRow) : Bytes × Bytes := (b.blocker, b.blocked)

theorem mem_addBlock {db : Db} {b c : BlockRow} :
    c ∈ (db.addBlock b.blocker b.blocked b.createdAt).blocks ↔
      c = b ∨ c ∈ db.blocks ∧ blockKey c ≠ blockKey b := by
  simp only [Db.addBlock, Db.deleteBlocksWhere, List.mem_append, List.mem_filter,
    List.mem_singleton, blockKey, ne_eq, Prod.mk.injEq, Bool.not_eq_true', Bool.and_eq_false_iff,
    beq_eq_false_iff_ne, not_and_or]
  exact or_comm

/-- `importBlocks` has a row for every key, the last one given, and counts every row it is given. -/
structure BlocksImported (domain : Bytes) (rows : List BlockRow) (st st' : ImportReport × Db) :
    Prop where
  users : st'.2.users = st.2.users
  mail : st'.2.mail = st.2.mail
  report : st'.1 = { st.1 with blocks := st.1.blocks + rows.length }
  origin : ∀ b ∈ st'.2.blocks, (∃ s ∈ rows, b = s.normalized domain) ∨
    b ∈ st.2.blocks ∧ ∀ s ∈ rows, blockKey b ≠ blockKey (s.normalized domain)
  imported : ∀ s ∈ rows, ∃ b ∈ st'.2.blocks, blockKey b = blockKey (s.normalized domain)
  kept : ∀ b ∈ st.2.blocks, ∃ c ∈ st'.2.blocks, blockKey c = blockKey b

theorem importBlocks_imported (domain : Bytes) (rows : List BlockRow) (st : ImportReport × Db) :
    BlocksImported domain rows st (importBlocks domain rows st) := by
  induction rows generalizing st with
  | nil =>
    refine ⟨rfl, rfl, rfl, fun b mem => .inr ⟨mem, ?_⟩, ?_, fun b mem => ⟨b, mem, rfl⟩⟩
    · intro s none
      cases none
    · intro s none
      cases none
  | cons s rows ih =>
    have rest := ih (importBlock domain st s)
    rw [show importBlocks domain (s :: rows) st =
      importBlocks domain rows (importBlock domain st s) from rfl]
    have added : ∀ c, c ∈ (importBlock domain st s).2.blocks ↔ c = s.normalized domain ∨
        c ∈ st.2.blocks ∧ blockKey c ≠ blockKey (s.normalized domain) := fun c => mem_addBlock
    refine ⟨rest.users, rest.mail, ?_, ?_, ?_, ?_⟩
    · rw [rest.report]
      simp only [importBlock, List.length_cons, ImportReport.mk.injEq, true_and, and_true]
      omega
    · intro b mem
      rcases rest.origin b mem with ⟨t, later, same⟩ | ⟨old, untouched⟩
      · exact .inl ⟨t, List.mem_cons_of_mem _ later, same⟩
      rcases (added b).mp old with rfl | ⟨old, other⟩
      · exact .inl ⟨s, List.mem_cons_self, rfl⟩
      · refine .inr ⟨old, fun t here => ?_⟩
        rcases List.mem_cons.mp here with rfl | later
        · exact other
        · exact untouched t later
    · intro t here
      rcases List.mem_cons.mp here with rfl | later
      · exact rest.kept _ ((added _).mpr (.inl rfl))
      · exact rest.imported t later
    · intro b mem
      by_cases same : blockKey b = blockKey (s.normalized domain)
      · obtain ⟨c, here, key⟩ := rest.kept _ ((added _).mpr (.inl rfl))
        exact ⟨c, here, key.trans same.symm⟩
      · exact rest.kept b ((added b).mpr (.inr ⟨mem, same⟩))

end Import

/-! ## Everything once -/

open Import

/-- The target holds one row for each name, signature and block of the source. -/
structure KeptOnce (src : D1) (domain : Bytes) (db : Db) : Prop where
  user_unique : db.users.Pairwise fun u v => nocase u.username ≠ nocase v.username
  user_least : ∀ u ∈ db.users, u ∈ src.users ∧
    ∀ v ∈ src.users, nocase v.username = nocase u.username → Earlier u v
  user_kept : ∀ u ∈ src.users, ∃ v ∈ db.users, nocase v.username = nocase u.username
  mail_unique : db.mail.Pairwise fun r s => r.mail.signature ≠ s.mail.signature
  mail_least : ∀ r ∈ db.mail, ∃ m ∈ src.mail, r = m.toRow ∧
    ∀ n ∈ src.mail, n.signature = m.signature → m.timestamp ≤ n.timestamp
  mail_kept : ∀ m ∈ src.mail, ∃ r ∈ db.mail, r.mail.signature = m.signature
  block_unique : db.blocks.Pairwise fun a b => blockKey a ≠ blockKey b
  block_origin : ∀ b ∈ db.blocks, ∃ s ∈ src.blocks, b = s.normalized domain
  block_kept : ∀ s ∈ src.blocks, ∃ b ∈ db.blocks, blockKey b = blockKey (s.normalized domain)

/-- The report counts what the target holds, and names and counts the rows left out. -/
structure Reported (src : D1) (rep : ImportReport) (db : Db) : Prop where
  users : rep.users = db.users.length
  mail : rep.mail = db.mail.length
  blocks : rep.blocks = db.blocks.length
  skipped : rep.skippedUsers.Perm
    ((src.users.filter fun u => !db.hasUser u.username).map User.username)
  duplicates : rep.duplicateMail =
    src.mail.countP fun m => db.mail.all fun r => r.mail.id != m.mailId

/-- The target has no mail and no blocks but those the source has too, no two signatures have one
hash, and no two blocks become one. -/
structure Importable (dst : Db) (src : D1) (domain : Bytes) : Prop where
  no_mail : dst.mail = []
  no_blocks : ∀ b ∈ dst.blocks, ∃ s ∈ src.blocks, blockKey b = blockKey (s.normalized domain)
  no_collision : ∀ m ∈ src.mail, ∀ n ∈ src.mail,
    sigHash m.signature = sigHash n.signature → m.signature = n.signature
  no_merge : src.blocks.Pairwise fun a b =>
    blockKey (a.normalized domain) ≠ blockKey (b.normalized domain)

section

variable {dst db : Db} {path domain : Bytes} {src : D1} {rows : Selected src} {rep : ImportReport}

theorem earlier_refl (u : User) : Earlier u u := .inr ⟨rfl, List.le_refl _⟩

/-- The three loops of an import that gave no error. -/
theorem importD1_ok (h : importD1 dst path (.d1 src rows) domain = .ok (rep, db)) :
    dst.users = [] ∧ ∃ st st',
      UsersImported rows.users (⟨0, 0, 0, [], 0⟩, dst) st ∧ MailImported rows.mail st st' ∧
      st' = importMail rows.mail st ∧ BlocksImported domain rows.blocks st' (rep, db) := by
  unfold importD1 at h
  by_cases populated : dst.users ≠ []
  · rw [if_pos populated] at h
    cases h
  · rw [if_neg populated] at h
    refine ⟨not_not.mp populated, _, _, importUsers_imported _ _, importMail_imported _ _, rfl, ?_⟩
    rw [← Except.ok.inj h]
    exact importBlocks_imported _ _ _

theorem name_unique {u v : User} (hu : u ∈ db.users) (hv : v ∈ db.users)
    (e : nocase u.username = nocase v.username) : u = v := by
  have : Std.Symm fun u v : User => nocase u.username ≠ nocase v.username := ⟨fun _ _ h => h.symm⟩
  by_contra ne
  exact db.users_username.forall hu hv ne e

/-- The users of the source, whatever else it holds. -/
theorem users_once {st : ImportReport × Db} (empty : dst.users = [])
    (h : UsersImported rows.users (⟨0, 0, 0, [], 0⟩, dst) st) :
    (∀ u ∈ st.2.users, u ∈ src.users ∧
      ∀ v ∈ src.users, nocase v.username = nocase u.username → Earlier u v) ∧
    (∀ u ∈ src.users, ∃ v ∈ st.2.users, nocase v.username = nocase u.username) ∧
    st.1.users = st.2.users.length ∧
    st.1.skippedUsers.Perm
      ((src.users.filter fun u => !st.2.hasUser u.username).map User.username) := by
  have users := h.users
  have skipped := h.skipped
  have count := h.count
  simp only [empty, List.nil_append, List.length_nil] at users skipped count
  have perm := Lib.keepFirst_perm nameKey [] rows.users
  rw [← users, List.nil_append] at perm
  have all := perm.trans rows.users_perm
  have first : ∀ v ∈ rows.users, ∃ y ∈ (Lib.keepFirst nameKey [] rows.users).1,
      nameKey y = nameKey v ∧ (y = v ∨ Earlier y v) :=
    fun v mem => @Lib.exists_keepFirst _ _ _ nameKey [] _ _ rows.users_sorted v mem
  rw [← users] at first
  have least : ∀ v ∈ src.users, ∃ y ∈ st.2.users, nocase y.username = nocase v.username ∧
      Earlier y v := by
    intro v mem
    obtain ⟨y, here, same, rfl | before⟩ := first v (rows.users_perm.mem_iff.mpr mem)
    · exact ⟨y, here, same, earlier_refl y⟩
    · exact ⟨y, here, same, before⟩
  refine ⟨?_, ?_, by omega, ?_⟩
  · intro u mem
    refine ⟨all.mem_iff.mp (List.mem_append_left _ mem), fun v other same => ?_⟩
    obtain ⟨y, here, key, before⟩ := least v other
    rw [← name_unique here mem (key.trans same)]
    exact before
  · intro u mem
    obtain ⟨y, here, same, -⟩ := least u mem
    exact ⟨y, here, same⟩
  · rw [skipped]
    apply List.Perm.map
    have names := (all.pairwise_iff fun h => Ne.symm h).mpr src.users_username
    apply Lib.refused_perm all
    · intro u mem
      simpa [Db.hasUser] using ⟨u, mem, rfl⟩
    · intro u mem
      simpa [Db.hasUser] using fun v here => (List.pairwise_append.mp names).2.2 v here u mem

/-- The mail of the source, where the target has none. -/
theorem mail_once {st st' : ImportReport × Db} (empty : st.2.mail = [])
    (left : st.1.duplicateMail = 0) (h : st' = importMail rows.mail st) :
    (∀ m ∈ src.mail, ∃ r ∈ st'.2.mail, r.sigHash = sigHash m.signature) ∧
    (∀ r ∈ st'.2.mail, ∃ m ∈ src.mail, r = m.toRow ∧
      ∀ n ∈ src.mail, sigHash n.signature = sigHash m.signature → m.timestamp ≤ n.timestamp) ∧
    st'.1.duplicateMail = src.mail.countP fun m => st'.2.mail.all fun r => r.mail.id != m.mailId := by
  have ids : (rows.mail.map D1Mail.toRow).Pairwise fun r s => r.mail.id ≠ s.mail.id := by
    rw [List.pairwise_map]
    exact (rows.mail_perm.pairwise_iff fun h => h.symm).mpr src.mail_id
  have kept : MailKept rows.mail st st' := h ▸ importMail_kept (by rwa [empty, List.nil_append])
  have mail := kept.mail
  have duplicates := kept.duplicates
  rw [empty] at mail duplicates
  have perm := Lib.keepFirst_perm MailRow.sigHash [] (rows.mail.map D1Mail.toRow)
  rw [← mail, List.nil_append] at perm
  have all := perm.trans (rows.mail_perm.map D1Mail.toRow)
  have first : ∀ r ∈ rows.mail.map D1Mail.toRow, ∃ s ∈ st'.2.mail, s.sigHash = r.sigHash ∧
      (s = r ∨ s.mail.timestamp ≤ r.mail.timestamp) := by
    rw [mail]
    exact fun r mem => @Lib.exists_keepFirst _ _ _ MailRow.sigHash [] _
      (fun r s => r.mail.timestamp ≤ s.mail.timestamp)
      (List.pairwise_map.mpr rows.mail_sorted) r mem
  have least : ∀ m ∈ src.mail, ∃ r ∈ st'.2.mail, r.sigHash = sigHash m.signature ∧
      r.mail.timestamp ≤ m.timestamp := by
    intro m mem
    obtain ⟨r, here, same, before⟩ := first m.toRow
      (List.mem_map_of_mem (rows.mail_perm.mem_iff.mpr mem))
    refine ⟨r, here, same, ?_⟩
    rcases before with rfl | before
    · exact Int.le_refl _
    · exact before
  refine ⟨?_, ?_, ?_⟩
  · intro m mem
    obtain ⟨r, here, same, -⟩ := least m mem
    exact ⟨r, here, same⟩
  · intro r mem
    obtain ⟨m, here, rfl⟩ := List.mem_map.mp (all.mem_iff.mp (List.mem_append_left _ mem))
    refine ⟨m, here, rfl, fun n other same => ?_⟩
    obtain ⟨s, stored, hash, before⟩ := least n other
    have one : s = m.toRow := Db.row_unique stored mem (hash.trans same)
    rw [one] at before
    exact before
  · rw [duplicates, left, Nat.zero_add, List.countP_eq_length_filter]
    have names : (src.mail.map D1Mail.toRow).Pairwise fun r s => r.mail.id ≠ s.mail.id :=
      List.pairwise_map.mpr src.mail_id
    have names := (all.pairwise_iff fun h => Ne.symm h).mpr names
    have counted : (Lib.keepFirst MailRow.sigHash [] (rows.mail.map D1Mail.toRow)).2.Perm
        ((src.mail.map D1Mail.toRow).filter fun r => st'.2.mail.all fun s => s.mail.id != r.mail.id) := by
      apply Lib.refused_perm all
      · intro r mem
        simpa using ⟨r, mem, rfl⟩
      · intro r mem
        simpa using fun s here => (List.pairwise_append.mp names).2.2 s here r mem
    rw [counted.length_eq, List.filter_map, List.length_map]
    rfl

/-- The keys of the blocks as they are inserted. -/
def sourceKeys (domain : Bytes) (src : D1) : List (Bytes × Bytes) :=
  src.blocks.map fun s => blockKey (s.normalized domain)

theorem block_keys_nodup (db : Db) : (db.blocks.map blockKey).Nodup := by
  rw [List.Nodup, List.pairwise_map]
  refine db.blocks_key.imp fun ne same => ne ?_
  exact Prod.mk.inj same

/-- As many rows as keys of the source: no two of them are one. -/
theorem no_merge_iff (origin : ∀ b ∈ db.blocks, blockKey b ∈ sourceKeys domain src)
    (kept : ∀ k ∈ sourceKeys domain src, ∃ b ∈ db.blocks, blockKey b = k) :
    db.blocks.length = src.blocks.length ↔ (sourceKeys domain src).Nodup := by
  have sub : (db.blocks.map blockKey) ⊆ sourceKeys domain src := by
    intro k mem
    obtain ⟨b, here, rfl⟩ := List.mem_map.mp mem
    exact origin b here
  have size : (sourceKeys domain src).length = src.blocks.length := List.length_map _
  constructor
  · intro same
    have perm := (List.subperm_of_subset (block_keys_nodup db) sub).perm_of_length_le
      (by rw [size, List.length_map]; omega)
    exact perm.nodup_iff.mp (block_keys_nodup db)
  · intro nodup
    have perm : (db.blocks.map blockKey).Perm (sourceKeys domain src) := by
      refine (List.perm_ext_iff_of_nodup (block_keys_nodup db) nodup).mpr fun k => ⟨@sub k, ?_⟩
      intro mem
      obtain ⟨b, here, rfl⟩ := kept k mem
      exact List.mem_map_of_mem here
    rw [← size, ← perm.length_eq, List.length_map]

theorem sourceKeys_nodup_iff : (sourceKeys domain src).Nodup ↔
    src.blocks.Pairwise fun a b => blockKey (a.normalized domain) ≠ blockKey (b.normalized domain) :=
  List.pairwise_map

/-- What an import that met the conditions leaves. -/
theorem kept_of_importable (h : importD1 dst path (.d1 src rows) domain = .ok (rep, db))
    (fine : Importable dst src domain) : KeptOnce src domain db ∧ Reported src rep db := by
  obtain ⟨empty, st, st', users, mail, run, blocks⟩ := importD1_ok h
  obtain ⟨least, kept, count, skipped⟩ := users_once empty users
  obtain ⟨stored, first, duplicates⟩ := mail_once (users.mail.trans fine.no_mail)
    users.duplicates run
  have names : db.users = st.2.users := blocks.users.trans mail.users
  have letters : db.mail = st'.2.mail := blocks.mail
  have report : rep = { st'.1 with blocks := st'.1.blocks + rows.blocks.length } := blocks.report
  have signatures : ∀ r ∈ db.mail, ∃ m ∈ src.mail, r = m.toRow ∧
      ∀ n ∈ src.mail, n.signature = m.signature → m.timestamp ≤ n.timestamp := by
    intro r mem
    rw [letters] at mem
    obtain ⟨m, here, row, earliest⟩ := first r mem
    exact ⟨m, here, row, fun n other same => earliest n other (by rw [same])⟩
  have origin : ∀ b ∈ db.blocks, ∃ s ∈ src.blocks, b = s.normalized domain := by
    intro b mem
    rcases blocks.origin b mem with ⟨s, here, same⟩ | ⟨old, untouched⟩
    · exact ⟨s, rows.blocks_perm.mem_iff.mp here, same⟩
    · rw [mail.blocks, users.blocks] at old
      obtain ⟨s, here, same⟩ := fine.no_blocks b old
      exact absurd same (untouched s (rows.blocks_perm.mem_iff.mpr here))
  have imported : ∀ s ∈ src.blocks, ∃ b ∈ db.blocks, blockKey b = blockKey (s.normalized domain) :=
    fun s mem => blocks.imported s (rows.blocks_perm.mem_iff.mpr mem)
  constructor
  · exact
      { user_unique := db.users_username
        user_least := names ▸ least
        user_kept := names ▸ kept
        mail_unique := by
          refine db.mail_sig_hash.imp_of_mem fun {r s} hr hs ne same => ne ?_
          obtain ⟨m, -, rfl, -⟩ := signatures r hr
          obtain ⟨n, -, rfl, -⟩ := signatures s hs
          exact congrArg sigHash same
        mail_least := signatures
        mail_kept := by
          intro m mem
          obtain ⟨r, here, hash⟩ := stored m mem
          obtain ⟨n, other, rfl, -⟩ := first r here
          exact ⟨n.toRow, letters ▸ here, fine.no_collision n other m mem hash⟩
        block_unique := by
          rw [← List.pairwise_map]
          exact block_keys_nodup db
        block_origin := origin
        block_kept := imported }
  · have merged : db.blocks.length = src.blocks.length := (no_merge_iff ?_ ?_).mpr
      (sourceKeys_nodup_iff.mpr fine.no_merge)
    · exact
        { users := by
            rw [names, ← count, report]
            exact mail.userCount
          mail := by
            have total := mail.count
            rw [users.mail, fine.no_mail, users.mailCount] at total
            rw [letters, report]
            simpa using total
          blocks := by
            have zero : st'.1.blocks = 0 := mail.blockCount.trans users.blockCount
            rw [merged, ← rows.blocks_perm.length_eq, report]
            simp [zero]
          skipped := by
            have same : rep.skippedUsers = st.1.skippedUsers := by
              rw [report]
              exact mail.skipped
            have known (name : Bytes) : db.hasUser name = st.2.hasUser name := by
              simp only [Db.hasUser, names]
            simp only [same, known]
            exact skipped
          duplicates := by
            rw [letters, ← duplicates, report] }
    · intro b mem
      obtain ⟨s, here, rfl⟩ := origin b mem
      exact List.mem_map_of_mem here
    · intro k mem
      obtain ⟨s, here, rfl⟩ := List.mem_map.mp mem
      exact imported s here

/-- An import keeps everything once and reports it exactly when the conditions are met. -/
theorem imported_once (dst : Db) (path : Bytes) (src : D1) (rows : Selected src) (domain : Bytes)
    (rep : ImportReport) (db : Db) (h : importD1 dst path (.d1 src rows) domain = .ok (rep, db)) :
    KeptOnce src domain db ∧ Reported src rep db ↔ Importable dst src domain := by
  refine ⟨?_, kept_of_importable h⟩
  rintro ⟨once, reported⟩
  obtain ⟨-, st, st', users, mail, -, blocks⟩ := importD1_ok h
  have letters : db.mail = st'.2.mail := blocks.mail
  have report : rep = { st'.1 with blocks := st'.1.blocks + rows.blocks.length } := blocks.report
  refine ⟨?_, ?_, ?_, ?_⟩
  · have total := mail.count
    have counted := reported.mail
    rw [users.mail, users.mailCount] at total
    rw [letters, report] at counted
    simp only at total counted
    exact List.length_eq_zero_iff.mp (by omega)
  · intro b mem
    obtain ⟨c, here, same⟩ := blocks.kept b (by rw [mail.blocks, users.blocks]; exact mem)
    obtain ⟨s, origin, rfl⟩ := once.block_origin c here
    exact ⟨s, origin, same.symm⟩
  · intro m hm n hn hash
    obtain ⟨r, hr, signed⟩ := once.mail_kept m hm
    obtain ⟨r', hr', signed'⟩ := once.mail_kept n hn
    obtain ⟨o, -, rfl, -⟩ := once.mail_least r hr
    obtain ⟨o', -, rfl, -⟩ := once.mail_least r' hr'
    have one : o.toRow = o'.toRow := Db.row_unique hr hr' (by
      show sigHash o.toMail.signature = sigHash o'.toMail.signature
      rw [show o.toMail.signature = m.signature from signed,
        show o'.toMail.signature = n.signature from signed', hash])
    rw [← signed, ← signed', one]
  · have zero : st'.1.blocks = 0 := mail.blockCount.trans users.blockCount
    have counted := reported.blocks
    rw [report, zero, rows.blocks_perm.length_eq] at counted
    simp only [Nat.zero_add] at counted
    refine sourceKeys_nodup_iff.mp ((no_merge_iff ?_ ?_).mp counted.symm)
    · intro b mem
      obtain ⟨s, here, rfl⟩ := once.block_origin b mem
      exact List.mem_map_of_mem here
    · intro k mem
      obtain ⟨s, here, rfl⟩ := List.mem_map.mp mem
      exact once.block_kept s here

end

namespace Sample

def importedAlice : User := ⟨utf8 "alice", utf8 "kemA", utf8 "sigA", 100⟩
def importedUpper : User := ⟨utf8 "Alice", utf8 "kemA2", utf8 "sigA2", 200⟩

def importedMail (id signature : String) (timestamp : Int) : D1Mail :=
  ⟨utf8 id, utf8 "alice", utf8 "bobby", utf8 "ks", utf8 "kr", utf8 "sub", utf8 "body", 4,
    utf8 signature, timestamp, none⟩

/-- Two names, and a mail sent twice. -/
def workerDb (blocks : List BlockRow)
    (h : blocks.Pairwise fun a b => ¬(a.blocker = b.blocker ∧ a.blocked = b.blocked)) : D1 :=
  ⟨[importedAlice, importedUpper],
    [importedMail "m1" "sig-1" 1000, importedMail "m2" "sig-1" 1001, importedMail "m3" "sig-3" 1002],
    blocks, by decide +kernel, by decide +kernel, h⟩

def inOrder (blocks : List BlockRow)
    (h : blocks.Pairwise fun a b => ¬(a.blocker = b.blocker ∧ a.blocked = b.blocked)) :
    Selected (workerDb blocks h) where
  users := [importedAlice, importedUpper]
  mail := [importedMail "m1" "sig-1" 1000, importedMail "m2" "sig-1" 1001,
    importedMail "m3" "sig-3" 1002]
  blocks := blocks
  users_perm := .refl _
  users_sorted := by
    refine List.pairwise_pair.mpr (.inl ?_)
    decide
  mail_perm := .refl _
  mail_sorted := by decide +kernel
  blocks_perm := .refl _

def blocksMallory : BlockRow := ⟨utf8 "bobby", utf8 "mallory@Evil.Example", 5⟩
def blocksMalloryAgain : BlockRow := ⟨utf8 "bobby", utf8 "mallory@evil.example", 6⟩

def oneBlock : D1 := workerDb [blocksMallory] (List.pairwise_singleton _ _)

/-- The second Alice and the second mail are left out. -/
theorem one_block_imported : ∃ rep db,
    importD1 .empty [] (.d1 oneBlock (inOrder _ _)) (utf8 "old.example") = .ok (rep, db) ∧
      KeptOnce oneBlock (utf8 "old.example") db ∧ Reported oneBlock rep db ∧
      rep.skippedUsers = [utf8 "Alice"] ∧ rep.duplicateMail = 1 := by
  refine ⟨_, _, rfl, ?_⟩
  have both := (imported_once .empty [] oneBlock (inOrder _ _) (utf8 "old.example") _ _ rfl).mpr
    { no_mail := rfl
      no_blocks := nofun
      no_collision := by
        have different : sigHash (utf8 "sig-1") ≠ sigHash (utf8 "sig-3") := by decide +kernel
        intro m hm n hn hash
        simp only [oneBlock, workerDb, List.mem_cons, List.not_mem_nil, or_false] at hm hn
        rcases hm with rfl | rfl | rfl <;> rcases hn with rfl | rfl | rfl
        all_goals first
          | rfl
          | exact absurd hash different
          | exact absurd hash.symm different
      no_merge := List.pairwise_singleton _ _ }
  exact ⟨both.1, both.2, by decide +kernel, by decide +kernel⟩

def twoBlocks : D1 := workerDb [blocksMallory, blocksMalloryAgain] (by decide +kernel)

/-- Two blocks of one sender, spelled differently, are one row and are reported as two. -/
theorem two_blocks_reported : ∃ rep db,
    importD1 .empty [] (.d1 twoBlocks (inOrder _ _)) (utf8 "old.example") = .ok (rep, db) ∧
      rep.blocks = 2 ∧ db.blocks.length = 1 ∧ ¬Reported twoBlocks rep db := by
  refine ⟨_, _, rfl, ?_⟩
  have counted : ∀ rep : ImportReport, ∀ db : Db, rep.blocks = 2 → db.blocks.length = 1 →
      rep.blocks = 2 ∧ db.blocks.length = 1 ∧ ¬Reported twoBlocks rep db := by
    intro rep db two one
    refine ⟨two, one, fun reported => ?_⟩
    have := reported.blocks
    omega
  apply counted <;> decide +kernel

end Sample

end Shyake.Go
