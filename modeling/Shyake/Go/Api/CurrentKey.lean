import Shyake.Go.Api.Destroyed

/-!
# Stored mail and the recipient's key (`sendMail`, `rotate`)

A rotation and a destruction delete the user's mail with the key it was made for. A
submission reads the key first and inserts its row later; while the key it has read
is still the user's at the INSERT, every row of a local user is for the current key.
-/

namespace Shyake.Go

open Protocol (validUsername)

section

variable {s : Server} {c : State s} {ok : State s → Lib.Label (service s) → Prop} {clock : Time}
  {db : Db}

/-- The row was inserted for a submission that names this key. -/
def SubmittedTo (c : State s) (m : Mail) (kem : Bytes) : Prop :=
  ∃ t ∈ c.threads, ∃ (b : Submission s t.req) (id : Bytes) (now : Time),
    Log.Has t.log (.db (.insertMail m)) (.ok ()) ∧ m = { b.row now with id := id } ∧
    b.m.fingerprint = fingerprint kem

/-- Every mail of a local user was submitted to the key the user has now. -/
def CurrentKeys (c : State s) : Prop :=
  ∀ r ∈ c.shared.db.mail, ∀ u ∈ c.shared.db.users, u.username = r.mail.recipient →
    u.kemPubkey ≠ [] ∧ SubmittedTo c r.mail u.kemPubkey

/-- A mail about to be inserted: the key that was read of the recipient, and that the submission
names, is still the recipient's. -/
def KeyStill (c : State s) (lab : Lib.Label (service s)) : Prop :=
  ∀ (i : Nat) (o : Oracle) (t : Lib.Thread (service s)) (m : Mail)
    (k : Except StoreError Unit → Handler Reply),
    lab = .act i o → c.threads[i]? = some t → t.rest = .ask (.db (.insertMail m)) k →
    ∀ v, Log.Has t.log (.db (.getUser m.recipient)) (.ok v) →
      (∃ b : Submission s t.req, b.m.fingerprint = fingerprint v.kemPubkey) →
      ∃ u ∈ c.shared.db.users, u.username = m.recipient ∧ u.kemPubkey = v.kemPubkey

theorem SubmittedTo.mono {c' : State s} {m : Mail} {kem : Bytes} (h : SubmittedTo c m kem)
    (later : Lib.Run ok c c') : SubmittedTo c' m kem := by
  obtain ⟨t, mem, b, id, now, inserted, row, key⟩ := h
  obtain ⟨i, thread⟩ := List.mem_iff_getElem?.mp mem
  obtain ⟨t', thread', req, pre⟩ := later.grows i t thread
  refine ⟨t', List.mem_of_getElem? thread', req ▸ b, id, now, inserted.mono pre, ?_, ?_⟩
  · rw [row]
    obtain ⟨r, l, rest⟩ := t'
    dsimp only at req
    subst req
    rfl
  · rw [← key]
    obtain ⟨r, l, rest⟩ := t'
    dsimp only at req
    subst req
    rfl

/-- The user a row is for, with the key it was submitted to. -/
def Owned (c : State s) (r : MailRow) : Prop :=
  ∃ u ∈ c.shared.db.users, u.username = r.mail.recipient ∧ u.kemPubkey ≠ [] ∧
    SubmittedTo c r.mail u.kemPubkey

/-- A statement keeps the owner of a row that it keeps. -/
theorem owner_exec {db : Db} {st : Stmt} {r : MailRow} (kept : r ∈ (db.exec st).2.mail) {u : User}
    (mem : u ∈ db.users) (name : u.username = r.mail.recipient) : u ∈ (db.exec st).2.users := by
  obtain ⟨v, mem', same⟩ := Db.exists_user_exec (s := st) mem
  rcases Db.mem_users_exec mem' with old | ⟨-, fresh⟩ | ⟨u₀, old, name₀, changed⟩
  · rw [Db.user_unique mem old same.symm]
    exact mem'
  · exact absurd (congrArg nocase same.symm) (fresh u mem)
  · -- a statement that changes the user's keys deletes the user's mail
    have user : db.hasUser v.username = true := Db.hasUser_iff.mpr ⟨u₀, old, name₀⟩
    have gone : Db.names v.username r.mail = false := by
      rcases changed with rfl | ⟨rfl, -⟩
      · exact Db.names_of_updated (.inl ⟨_, _, rfl⟩) user kept
      · exact Db.names_of_updated (.inr rfl) user kept
    have named : Db.names v.username r.mail = true := by
      unfold Db.names
      rw [same, name, beq_self_eq_true, Bool.or_true]
    exact absurd (named.symm.trans gone) (by decide)

/-- The row that an INSERT has just made is for the key the recipient has. -/
theorem owned_of_insert {i : Nat} {o : Oracle} {t : Lib.Thread (service s)} {m : Mail}
    {k : Except StoreError Unit → Handler Reply} {w : World} (cond : KeyStill c (.act i o))
    (acts : Lib.Config.Acts c i o t (.db (.insertMail m)) k (.ok ()) w)
    (guard : Guard s t.req t.log (.db (.insertMail m)))
    (valid : validUsername m.recipient = true) (users : w.db.users = c.shared.db.users)
    (r : MailRow) (row : r.mail = m) :
    Owned (⟨w, c.threads.set i (t.answered (.db (.insertMail m)) k (.ok ()))⟩ : State s) r := by
  obtain ⟨-, b, id, now, passed, rfl⟩ := guard
  have own : b.recipient.isLocal = true := Protocol.own_of_stored b.recipient_parsed valid
  obtain ⟨v, read, nonempty, key⟩ := passed.fingerprint own
  rw [← Protocol.stored_of_own b.recipient_parsed own] at read
  obtain ⟨u, mem, name, same⟩ := cond i o t _ k rfl acts.thread acts.rest v read ⟨b, key.symm⟩
  have lt : i < c.threads.length := (List.getElem?_eq_some_iff.mp acts.thread).1
  rw [← same] at nonempty key
  refine ⟨u, users ▸ mem, by rw [row]; exact name, nonempty, ?_⟩
  refine ⟨_, List.mem_set lt _, b, id, now, ?_, row, key.symm⟩
  rw [row]
  exact Log.has_last _ _ _

theorem owned (none : db.mail = [])
    (run : Lib.Run KeyStill (State.start s clock db) c) :
    ∀ r ∈ c.shared.db.mail, validUsername r.mail.recipient = true → Owned c r := by
  refine run.invariant
    (fun c : State s => ∀ r ∈ c.shared.db.mail, validUsername r.mail.recipient = true → Owned c r)
    ?_ ?_ ?_ ?_
  · intro r mem
    rw [show (State.start s clock db).shared.db.mail = [] from none] at mem
    cases mem
  · intro c req _ h _ r mem valid
    obtain ⟨u, here, name, nonempty, submitted⟩ := h r mem valid
    have step : Lib.Run (anyStep s) c { c with threads := c.threads ++ [Lib.Thread.start req] } :=
      Lib.Run.start.next (l := .arrive req) trivial rfl
    exact ⟨u, here, name, nonempty, submitted.mono step⟩
  · intro c i o t q k a w before h cond acts r mem valid
    have guard := before.guarded (handler_guarded s) t acts.mem
    rw [acts.rest] at guard
    have served : Served c.shared q a w := served_of_serve acts.served
    have step : Lib.Run (anyStep s) c ⟨w, c.threads.set i (t.answered q k a)⟩ :=
      Lib.Run.start.next (l := .act i o) trivial
        (Lib.Config.step_act acts.thread acts.rest acts.served)
    have kept : ∀ u ∈ c.shared.db.users, u.username = r.mail.recipient → u ∈ w.db.users := by
      intro u here name
      rcases served_dbState served with same | ⟨st, rfl, same⟩
      · rwa [same]
      · rw [same] at mem ⊢
        exact owner_exec mem here name
    have old : r ∈ c.shared.db.mail →
        Owned (⟨w, c.threads.set i (t.answered q k a)⟩ : State s) r := by
      intro here
      obtain ⟨u, user, name, nonempty, submitted⟩ := h r here valid
      exact ⟨u, kept u user name, name, nonempty, submitted.mono step⟩
    rcases served_dbState served with same | ⟨st, rfl, -⟩
    · exact old (same ▸ mem)
    · rcases served_db served with ⟨rfl, executed⟩ | ⟨-, same⟩
      · rw [executed] at mem
        rcases Db.mem_mail_exec mem with here | ⟨rfl, -⟩
        · exact old here
        · rcases Db.insertMail_cases c.shared.db r.mail with done | same
          · have users : w.db.users = c.shared.db.users := by
              rw [executed]
              exact Db.users_insertMail _ _
            rw [done] at acts
            rw [done]
            exact owned_of_insert cond acts guard.1 valid users r rfl
          · exact old (same ▸ mem)
      · exact old (same ▸ mem)
  · intro c d w _ h _ moved r mem valid
    obtain ⟨-, -, same⟩ := drift_clock moved
    have step : Lib.Run (anyStep s) c { c with shared := w } :=
      Lib.Run.start.next (l := .drift d) trivial (Lib.Config.step_drift moved)
    obtain ⟨u, here, name, nonempty, submitted⟩ := h r (same ▸ mem) valid
    exact ⟨u, same ▸ here, name, nonempty, submitted.mono step⟩

/-! ## While no key changes -/

/-- No request that changes keys arrives. -/
def NoKeyChange (_ : State s) (lab : Lib.Label (service s)) : Prop :=
  ∀ r : Request, lab = .arrive r → r.route ≠ .rotate ∧ r.route ≠ .destroy

/-- Every row that was read is still there. -/
structure Unchanged (c : State s) : Prop where
  quiet : ∀ t ∈ c.threads, t.req.route ≠ .rotate ∧ t.req.route ≠ .destroy
  reads : ∀ t ∈ c.threads, ∀ username v, Log.Has t.log (.db (.getUser username)) (.ok v) →
    v ∈ c.shared.db.users ∧ v.username = username

theorem unchanged (run : Lib.Run NoKeyChange (State.start s clock db) c) : Unchanged c := by
  refine run.invariant Unchanged ?_ ?_ ?_ ?_
  · constructor <;> simp [State.start, Lib.Config.init]
  · intro c r _ h cond
    constructor
    · intro t mem
      rcases List.mem_append.mp mem with old | new
      · exact h.quiet t old
      · obtain rfl := List.mem_singleton.mp new
        exact cond r rfl
    · intro t mem username v has
      rcases List.mem_append.mp mem with old | new
      · exact h.reads t old username v has
      · obtain rfl := List.mem_singleton.mp new
        cases has
  · intro c i o t q k a w before h _ acts
    have guard := before.guarded (handler_guarded s) t acts.mem
    rw [acts.rest] at guard
    have served : Served c.shared q a w := served_of_serve acts.served
    obtain ⟨rotate, destroy⟩ := h.quiet t acts.mem
    have stays : ∀ v ∈ c.shared.db.users, v ∈ w.db.users := by
      intro v mem
      rcases served_dbState served with same | ⟨st, rfl, same⟩
      · exact same ▸ mem
      · rw [same]
        refine Db.user_kept mem ?_ ?_
        · rintro u kem sig rfl
          exact rotate guard.1.1
        · rintro u rfl
          exact destroy guard.1.1
    constructor
    · intro t' mem
      rcases List.mem_or_eq_of_mem_set mem with old | rfl
      · exact h.quiet t' old
      · exact h.quiet t acts.mem
    · intro t' mem username v has
      rcases acts.mem_log mem has with ⟨t₀, mem₀, -, old⟩ | ⟨-, new⟩
      · obtain ⟨here, name⟩ := h.reads t₀ mem₀ username v old
        exact ⟨stays v here, name⟩
      · obtain ⟨rfl, new⟩ := Lib.Event.mk.inj new
        obtain rfl := eq_of_heq new
        obtain ⟨here, name⟩ := served_getUser served
        exact ⟨stays v here, name⟩
  · intro c d w _ h _ moved
    obtain ⟨-, -, same⟩ := drift_clock moved
    exact ⟨h.quiet, fun t mem username v has => same ▸ h.reads t mem username v has⟩

/-- While no key changes, the condition is met. -/
theorem keyStill_of_quiet (run : Lib.Run NoKeyChange (State.start s clock db) c) :
    Lib.Run KeyStill (State.start s clock db) c := by
  refine run.strengthen fun c lab before _ => ?_
  rintro i o t m k rfl thread rest v read -
  obtain ⟨here, name⟩ := (unchanged before).reads t (List.mem_of_getElem? thread) _ v read
  exact ⟨v, here, name, rfl⟩

end

/-- **Stored mail is for the current key**, in every run whose INSERTs find the key that was read. -/
theorem stored_mail_current_key (s : Server) (clock : Time) (db : Db) (names : Named db)
    (none : db.mail = []) (c : State s) (run : Lib.Run KeyStill (State.start s clock db) c) :
    CurrentKeys c := by
  intro r mem u user name
  have valid : validUsername r.mail.recipient = true := by
    rw [← name]
    exact named names run u user
  obtain ⟨v, user', name', nonempty, submitted⟩ := owned none run r mem valid
  obtain rfl : v = u := Db.user_unique user' user (name'.trans name.symm)
  exact ⟨nonempty, submitted⟩

/-! ## How a mail is stored for a key that is gone -/

namespace Sample

abbrev rotateServer : Server := server [aliceSignsMail, bobbySignsRotate] [firstMail] [] [otherKeys]

def firstRow : Mail := row (utf8 "1:20:250610:alice::one:6e7368") (utf8 "1111111111") (clock 0)

variable {ok : State rotateServer → Lib.Label (service rotateServer) → Prop}

variable (ok) in
/-- Alice's mail comes to its INSERT. -/
theorem mail_comes (allows : ∀ reqs, Lib.Allows (S := service rotateServer) ok reqs fun _ => True)
    (arrives : ok (State.start rotateServer (clock 0) db) (.arrive (submit firstMail))) :
    ∃ (c : State rotateServer) (l : Log) (k : Except StoreError Unit → Handler Reply),
      Lib.Run ok (State.start rotateServer (clock 0) db) c ∧
      c.threads = [⟨submit firstMail, l, .ask (.db (.insertMail firstRow)) k⟩] ∧
      c.shared.clock = clock 0 ∧ c.shared.db = db ∧ c.shared.seen = TtlSet.new (seconds 600) 250000 ∧
      c.shared.spent = (TtlSet.new (seconds (72 * 3600)) 250000).addAll
        [(Lib.sha256 (utf8 "1:20:250610:alice::one:6e7368"), clock 0)] := by
  obtain ⟨b, k, c, -, run, shared, threads⟩ := run_mail (P := fun _ => True)
    (utf8 "1:20:250610:alice::one:6e7368") (List.replicate 10 0)
    (.start : Lib.Run ok (State.start rotateServer (clock 0) db) _) (allows _) arrives (by simp)
    (by simp [firstMail]) (small_mail (by decide)) (by decide) (by decide +kernel) (within (by decide))
    rfl rfl (fun _ mem => by cases mem) (TtlSet.add_of_notMem List.not_mem_nil List.not_mem_nil)
    rfl trivial trivial
  exact ⟨c, _, k, run, threads, by rw [shared]; rfl, by rw [shared]; rfl, by rw [shared]; rfl,
    by rw [shared]; rfl⟩

/-- While no key changes, a stored mail is for its recipient's key. -/
theorem stored_mail_current_key_firstMail :
    ∃ c : State rotateServer, requests c = [submit firstMail] ∧
      (∃ r ∈ c.shared.db.mail, r.mail = firstRow) ∧ CurrentKeys c := by
  have allows (reqs : List Request) :
      Lib.Allows (S := service rotateServer) NoKeyChange reqs fun _ => True :=
    fun _ _ _ others _ r arrives => absurd arrives (others r)
  obtain ⟨c, l, k, run, threads, -, same, -, -⟩ := mail_comes _ allows
    (fun r arrives => by cases arrives; exact ⟨nofun, nofun⟩)
  obtain ⟨db', inserted, -, rows, -⟩ := Db.exec_insertMail c.shared.db (m := firstRow)
    (fun r mem => by rw [same] at mem; cases mem)
  have first : c.threads[0]? = some ⟨submit firstMail, l, .ask (.db (.insertMail firstRow)) k⟩ := by
    rw [threads]
    rfl
  obtain ⟨c', run', shared', threads'⟩ := run_db (P := fun _ => True) run (allows _) first rfl
    trivial inserted
  refine ⟨c', ?_, ⟨⟨firstRow, sigHash firstRow.signature⟩, ?_, rfl⟩,
    stored_mail_current_key _ _ db (by decide) rfl c' (keyStill_of_quiet run')⟩
  · rw [requests, threads', threads]
    rfl
  · rw [shared']
    show _ ∈ db'.mail
    rw [rows]
    exact List.mem_append_right _ List.mem_cons_self

/-- **A mail is stored for a key that its recipient has replaced** between the check and the
INSERT. -/
theorem stored_for_old_key :
    ∃ c : State rotateServer, Lib.Run (anyStep _) (State.start _ (clock 0) db) c ∧
      requests c = [submit firstMail, bobbyRotates] ∧ ¬ CurrentKeys c := by
  obtain ⟨c₁, l, k, run₁, threads₁, now₁, db₁, seen₁, spent₁⟩ := mail_comes (anyStep _)
    (fun _ _ _ _ _ _ => trivial) trivial
  obtain ⟨db₂, executed, users₂⟩ := Db.exec_rotateKeys c₁.shared.db (utf8 "bobby") otherKeys.kem
    otherKeys.sig (Db.hasUser_iff.mpr ⟨bobby, by rw [db₁]; simp [db], rfl⟩)
  have mail₂ : ∀ r, r ∉ db₂.mail := by
    intro r mem
    have after : (c₁.shared.db.exec (.rotateKeys (utf8 "bobby") otherKeys.kem otherKeys.sig)).2 =
        db₂ := congrArg Prod.snd executed
    rcases Db.mem_mail_exec (after ▸ mem) with old | ⟨other, -⟩
    · rw [db₁] at old
      cases old
    · cases other
  obtain ⟨c₂, run₂, shared₂, threads₂⟩ := run_request (P := fun _ => True) (r := bobbyRotates)
    (u := bobby) run₁ (fun _ _ _ _ _ => trivial) trivial
    (by
      rw [now₁]
      exact (rotate_bobby (by simp) : (rotateServer.handler bobbyRotates).Resumes _ _))
    (Db.getUser_ok.mpr (by rw [db₁]; exact ⟨by simp [db], rfl⟩))
    (by rw [seen₁]; exact TtlSet.add_of_notMem List.not_mem_nil List.not_mem_nil)
    (by rw [spent₁]; exact TtlSet.addAll_add (by decide +kernel)) trivial trivial
    (serves_db (w := c₁.shared.used bobbyRotates.signature bobbyRotates.pow) executed trivial)
  obtain ⟨db₃, inserted, users₃, rows₃, -⟩ := Db.exec_insertMail c₂.shared.db (m := firstRow)
    (fun r mem => by
      rw [shared₂] at mem
      exact absurd mem (mail₂ r))
  have first : c₂.threads[0]? = some ⟨submit firstMail, l, .ask (.db (.insertMail firstRow)) k⟩ := by
    rw [threads₂, threads₁]
    rfl
  obtain ⟨c₃, run₃, shared₃, threads₃⟩ := run_db (P := fun _ => True) run₂
    (fun _ _ _ _ _ => trivial) first rfl trivial inserted
  refine ⟨c₃, run₃, ?_, fun current => ?_⟩
  · rw [requests, threads₃, threads₂, threads₁]
    rfl
  · have stored : (⟨firstRow, sigHash firstRow.signature⟩ : MailRow) ∈ c₃.shared.db.mail := by
      rw [shared₃]
      show _ ∈ db₃.mail
      rw [rows₃]
      exact List.mem_append_right _ List.mem_cons_self
    have rotated : Db.setKeys (utf8 "bobby") otherKeys.kem otherKeys.sig bobby ∈
        c₃.shared.db.users := by
      rw [shared₃]
      show _ ∈ db₃.users
      rw [users₃, shared₂]
      show _ ∈ db₂.users
      rw [users₂, db₁]
      exact List.mem_map_of_mem (by simp [db])
    obtain ⟨-, t, -, b, -, -, -, -, key⟩ := current _ stored _ rotated rfl
    have sent : b.m = firstMail := List.mem_singleton.mp (mem_of_decoded b)
    have differ : fingerprint (kemPubkey 66) ≠ fingerprint (kemPubkey 65) := by decide +kernel
    rw [sent] at key
    exact differ key

end Sample

end Shyake.Go
