import Shyake.Go.Api.Runs
import Shyake.Go.Api.Accepting

/-!
# A destroyed account stays destroyed (`destroy`, `DestroyUser`)

The destruction is one transaction; the statements that could undo it rest on a key
that the request has read of the user. A request that arrives after the destruction
has read empty keys only, so it asks for none of them.
-/

namespace Shyake.Go

open Protocol (validUsername)

/-- What `DestroyUser` leaves of an account, and what no later statement changes. -/
structure Destroyed (name : Bytes) (db : Db) : Prop where
  kept : ∃ u ∈ db.users, u.username = name
  keys : ∀ u ∈ db.users, u.username = name → u.kemPubkey = [] ∧ u.sigPubkey = []
  mail : ∀ r ∈ db.mail, Db.names name r.mail = false
  blocker : ∀ b ∈ db.blocks, b.blocker ≠ name

/-- The statements that give a destroyed account something again. -/
def Restores (name : Bytes) : Stmt → Prop
  | .rotateKeys username _ _ => username = name
  | .insertMail m => Db.names name m = true
  | .addBlock blocker _ _ => blocker = name
  | _ => False

section

variable {name : Bytes} {db : Db} {st : Stmt}

theorem Destroyed.exec (h : Destroyed name db) (not : ¬ Restores name st) :
    Destroyed name (db.exec st).2 := by
  constructor
  · obtain ⟨u, mem, rfl⟩ := h.kept
    exact Db.exists_user_exec mem
  · intro v mem same
    rcases Db.mem_users_exec mem with old | ⟨rfl, fresh⟩ | ⟨u, old, name_, rotated | destroyed⟩
    · exact h.keys v old same
    · obtain ⟨u, old, taken⟩ := h.kept
      exact absurd (congrArg nocase (taken.trans same.symm)) (fresh u old)
    · subst rotated
      exact absurd same not
    · exact destroyed.2
  · intro r mem
    rcases Db.mem_mail_exec mem with old | ⟨rfl, -⟩
    · exact h.mail r old
    · exact eq_false_of_ne_true not
  · intro b mem
    rcases Db.mem_blocks_exec mem with old | rfl
    · exact h.blocker b old
    · exact not

/-- The name is taken in every letter case. -/
theorem Destroyed.taken (h : Destroyed name db) {u : User} (same : nocase u.username = nocase name) :
    db.createUser u = (.error .conflict, db) := by
  obtain ⟨v, mem, rfl⟩ := h.kept
  exact Db.createUser_taken mem same.symm

/-- What the transaction leaves. -/
theorem destroyed_of_exec (done : (db.exec (.destroyUser name)).1 = .ok ()) :
    Destroyed name (db.exec (.destroyUser name)).2 ∧
      ∀ b ∈ (db.exec (.destroyUser name)).2.blocks, b.blocked ≠ name := by
  have user := Db.hasUser_of_destroyUser done
  obtain ⟨keys, blocks⟩ := Db.destroyed user
  have kept : ∃ u ∈ (db.exec (.destroyUser name)).2.users, u.username = name := by
    obtain ⟨u, mem, rfl⟩ := Db.hasUser_iff.mp user
    exact Db.exists_user_exec mem
  have mail : ∀ r ∈ (db.exec (.destroyUser name)).2.mail, Db.names name r.mail = false :=
    fun r mem => Db.names_of_updated (.inr rfl) user mem
  exact ⟨⟨kept, keys, mail, fun b mem => (blocks b mem).1⟩, fun b mem => (blocks b mem).2⟩

end

/-! ## Requests that arrive later -/

section

variable {s : Server} {c c₁ : State s} {ok : State s → Lib.Label (service s) → Prop} {clock : Time}
  {db : Db} {name : Bytes}

/-- A thread that has read of the user nothing but empty keys. -/
def ReadsNoKeys (name : Bytes) (l : Log) : Prop :=
  ∀ u, Log.Has l (.db (.getUser name)) (.ok u) → u.kemPubkey = [] ∧ u.sigPubkey = []

/-- Such a thread does not act as the user. -/
theorem not_actsAs (names : Named db) (run : Lib.Run ok (State.start s clock db) c)
    {t : Lib.Thread (service s)} (mem : t ∈ c.threads) (reads : ReadsNoKeys name t.log) :
    ¬ ActsAs s t.req t.log name := by
  rintro ⟨path, body, signsBody, u, authenticated, rfl⟩
  obtain ⟨same, -⟩ := read_user names run mem authenticated.user
  have read := authenticated.user
  rw [← same] at read
  exact authenticated.key (reads u read).2

/-- Nor does it send or deliver the user's mail. -/
theorem not_names (valid : validUsername name = true) {r : Request} {l : Log}
    (reads : ReadsNoKeys name l) {m : Mail} (guard : Guard s r l (.db (.insertMail m))) :
    Db.names name m = false := by
  obtain ⟨-, b, id, now, passed, rfl⟩ := guard
  rw [Bool.eq_false_iff]
  intro named
  rcases Bool.or_eq_true_iff.mp named with sender | recipient
  · have stored : b.sender.stored = name := eq_of_beq sender
    have own := Protocol.own_of_stored b.sender_parsed (stored ▸ valid)
    obtain ⟨keys, returned, nonempty, -⟩ := passed.signed
    rcases returned with ⟨-, u, read, rfl⟩ | ⟨remote, -⟩
    · rw [← Protocol.stored_of_own b.sender_parsed own, stored] at read
      exact nonempty (reads u read).2
    · exact absurd (own.symm.trans remote) (by decide)
  · have stored : b.recipient.stored = name := eq_of_beq recipient
    have own := Protocol.own_of_stored b.recipient_parsed (stored ▸ valid)
    obtain ⟨u, read, nonempty, -⟩ := passed.fingerprint own
    rw [← Protocol.stored_of_own b.recipient_parsed own, stored] at read
    exact nonempty (reads u read).1

/-- So it asks for no statement that restores the account. -/
theorem not_restores (names : Named db) (valid : validUsername name = true)
    (run : Lib.Run ok (State.start s clock db) c) {t : Lib.Thread (service s)}
    (mem : t ∈ c.threads) (reads : ReadsNoKeys name t.log) {st : Stmt}
    (guard : Guard s t.req t.log (.db st)) : ¬ Restores name st := by
  cases st with
  | rotateKeys username kem sig =>
    rintro rfl
    exact not_actsAs names run mem reads guard.2
  | insertMail m =>
    intro named
    have unnamed := not_names valid reads guard
    exact absurd (named.symm.trans unnamed) (by decide)
  | addBlock blocker blocked at_ =>
    rintro rfl
    exact not_actsAs names run mem reads guard.2
  | _ => exact id

/-! ## The run after the destruction -/

/-- No statement of a request that was running already restores the account. -/
def Undisturbed (name : Bytes) (running : Nat) (c : State s) (lab : Lib.Label (service s)) : Prop :=
  ∀ (i : Nat) (o : Oracle) (r : Request) (st : Stmt), lab = .act i o → i < running →
    c.pending lab = some (r, .db st) → ¬ Restores name st

/-- The row was added after `c₁`, by the blocker's own block request. -/
def AddedAfter (c₁ c : State s) (b : BlockRow) : Prop :=
  ∃ (i p : Nat) (t : Lib.Thread (service s)), c.threads[i]? = some t ∧ t.req.route = .block ∧
    t.req.username = b.blocker ∧
    t.log[p]? = some ⟨.db (.addBlock b.blocker b.blocked b.createdAt), .ok ()⟩ ∧
    ∀ t₁, c₁.threads[i]? = some t₁ → t₁.log.length ≤ p

/-- What holds from the destruction on. -/
structure Gone (name : Bytes) (c₁ c : State s) : Prop where
  destroyed : Destroyed name c.shared.db
  reads : ∀ (i : Nat) (t : Lib.Thread (service s)), c₁.threads.length ≤ i →
    c.threads[i]? = some t → ReadsNoKeys name t.log
  blocked : ∀ b ∈ c.shared.db.blocks, b.blocked = name → AddedAfter c₁ c b

theorem AddedAfter.mono {c' : State s} {b : BlockRow} (h : AddedAfter c₁ c b)
    (later : Lib.Run ok c c') : AddedAfter c₁ c' b := by
  obtain ⟨i, p, t, thread, route, username, added, after⟩ := h
  obtain ⟨t', thread', req, pre⟩ := later.grows i t thread
  refine ⟨i, p, t', thread', by rw [req, route], by rw [req, username], ?_, after⟩
  obtain ⟨lt, -⟩ := List.getElem?_eq_some_iff.mp added
  obtain ⟨rest, log⟩ := pre
  rw [← log, List.getElem?_append_left lt, added]

/-- The account is gone when the destruction commits. -/
theorem gone_of_destroy {i : Nat} {o : Oracle} {t : Lib.Thread (service s)}
    {k : Except StoreError Unit → Handler Reply} {w : World}
    (acts : Lib.Config.Acts c i o t (.db (.destroyUser name)) k (.ok ()) w) :
    Gone name (⟨w, c.threads.set i (t.answered (.db (.destroyUser name)) k (.ok ()))⟩ : State s)
      ⟨w, c.threads.set i (t.answered (.db (.destroyUser name)) k (.ok ()))⟩ := by
  have served : Served c.shared (.db (.destroyUser name)) (.ok ()) w := served_of_serve acts.served
  rcases served_db served with ⟨done, same⟩ | ⟨failed, -⟩
  · obtain ⟨destroyed, blocked⟩ := destroyed_of_exec done.symm
    refine ⟨same ▸ destroyed, ?_, ?_⟩
    · intro j t' late thread
      obtain ⟨lt, -⟩ := List.getElem?_eq_some_iff.mp thread
      omega
    · intro b mem named
      rw [same] at mem
      exact absurd named (blocked b mem)
  · cases failed

/-- A block that a request of the blocker has just added. -/
theorem addedAfter_of_acts {ok' : State s → Lib.Label (service s) → Prop} (names : Named db)
    (run : Lib.Run ok (State.start s clock db) c) (later : Lib.Run ok' c₁ c) {i : Nat} {o : Oracle}
    {t : Lib.Thread (service s)} {b : BlockRow} {k : Except StoreError Unit → Handler Reply}
    {w : World} (acts : Lib.Config.Acts c i o t
      (.db (.addBlock b.blocker b.blocked b.createdAt)) k (.ok ()) w)
    (guard : Guard s t.req t.log (.db (.addBlock b.blocker b.blocked b.createdAt))) :
    AddedAfter c₁ (⟨w, c.threads.set i
      (t.answered (.db (.addBlock b.blocker b.blocked b.createdAt)) k (.ok ()))⟩ : State s) b := by
  obtain ⟨route, path, body, signsBody, u, authenticated, same⟩ := guard
  obtain ⟨username, -⟩ := read_user names run acts.mem authenticated.user
  have lt : i < c.threads.length := (List.getElem?_eq_some_iff.mp acts.thread).1
  refine ⟨i, t.log.length, _, List.getElem?_set_self lt, route, username.symm.trans same, ?_, ?_⟩
  · show (t.log ++ [_])[t.log.length]? = _
    rw [List.getElem?_append_right (Nat.le_refl _), Nat.sub_self]
    rfl
  · intro t₁ thread₁
    obtain ⟨t', thread', -, pre⟩ := later.grows i t₁ thread₁
    obtain rfl : t = t' := Option.some.inj (acts.thread.symm.trans thread')
    exact pre.length_le

/-- The steps after it keep it gone. -/
theorem gone (names : Named db) (valid : validUsername name = true)
    (run : Lib.Run ok (State.start s clock db) c₁) (start : Gone name c₁ c₁)
    (later : Lib.Run (Undisturbed name c₁.threads.length) c₁ c) : Gone name c₁ c := by
  refine later.invariant (Gone name c₁) start ?_ ?_ ?_
  · intro c r before h _
    have step : Lib.Run (anyStep s) c { c with threads := c.threads ++ [Lib.Thread.start r] } :=
      Lib.Run.start.next (l := .arrive r) trivial rfl
    refine ⟨h.destroyed, ?_, fun b mem same => (h.blocked b mem same).mono step⟩
    intro j t late thread
    rcases Nat.lt_or_ge j c.threads.length with lt | ge
    · rw [List.getElem?_append_left lt] at thread
      exact h.reads j t late thread
    · rw [List.getElem?_append_right ge] at thread
      obtain rfl := List.mem_singleton.mp (List.mem_of_getElem? thread)
      intro u has
      cases has
  · intro c i o t q k a w before h cond acts
    have whole : Lib.Run (anyStep s) (State.start s clock db) c :=
      (run.weaken fun _ _ _ => trivial).trans (before.weaken fun _ _ _ => trivial)
    have guard := whole.guarded (handler_guarded s) t acts.mem
    rw [acts.rest] at guard
    have served : Served c.shared q a w := served_of_serve acts.served
    have step : Lib.Run (anyStep s) c ⟨w, c.threads.set i (t.answered q k a)⟩ :=
      Lib.Run.start.next (l := .act i o) trivial
        (Lib.Config.step_act acts.thread acts.rest acts.served)
    have harmless : ∀ st, q = .db st → ¬ Restores name st := by
      rintro st rfl
      by_cases late : c₁.threads.length ≤ i
      · exact not_restores names valid whole acts.mem (h.reads i t late acts.thread) guard.1
      · exact cond i o t.req st rfl (by omega) acts.pending
    refine ⟨?_, ?_, ?_⟩
    · rcases served_dbState served with same | ⟨st, rfl, same⟩
      · exact same ▸ h.destroyed
      · exact same ▸ h.destroyed.exec (harmless st rfl)
    · intro j t' late thread u has
      obtain ⟨p, hp⟩ := List.mem_iff_getElem?.mp has
      rcases acts.log_at thread hp with ⟨t₀, thread₀, -, old⟩ | ⟨-, -, new⟩
      · exact h.reads j t₀ late thread₀ u (List.mem_of_getElem? old)
      · obtain ⟨rfl, new⟩ := Lib.Event.mk.inj new
        obtain rfl := eq_of_heq new
        obtain ⟨mem, same⟩ := served_getUser served
        exact h.destroyed.keys u mem same
    · intro b mem same
      rcases served_dbState served with kept | ⟨st, rfl, kept⟩
      · exact (h.blocked b (kept ▸ mem) same).mono step
      · rcases served_db served with ⟨rfl, executed⟩ | ⟨-, kept⟩
        · rw [executed] at mem
          rcases Db.mem_blocks_exec mem with old | rfl
          · exact (h.blocked b old same).mono step
          · exact addedAfter_of_acts names whole before acts guard.1
        · exact (h.blocked b (kept ▸ mem) same).mono step
  · intro c d w before h _ moved
    obtain ⟨-, -, same⟩ := drift_clock moved
    have step : Lib.Run (anyStep s) c { c with shared := w } :=
      Lib.Run.start.next (l := .drift d) trivial (Lib.Config.step_drift moved)
    refine ⟨same ▸ h.destroyed, h.reads, ?_⟩
    intro b mem named
    exact (h.blocked b (same ▸ mem) named).mono step

/-- A step of `c` commits the destruction, and leaves `c₁`. -/
def Destroys (name : Bytes) (c c₁ : State s) : Prop :=
  ∃ (i : Nat) (o : Oracle) (t : Lib.Thread (service s)) (k : Except StoreError Unit → Handler Reply)
    (w : World), Lib.Config.Acts c i o t (.db (.destroyUser name)) k (.ok ()) w ∧
    c₁ = ⟨w, c.threads.set i (t.answered (.db (.destroyUser name)) k (.ok ()))⟩

/-- **Once a destruction has committed**, the row has empty keys, the name is taken in every letter
case, no mail names the user and the user blocks nobody; another user's block of the name is one
that was added since. -/
theorem destroyed_for_good (s : Server) (clock : Time) (db : Db) (names : Named db)
    (c c₁ c₂ : State s) (run : Lib.Run (anyStep s) (State.start s clock db) c) (name : Bytes)
    (commit : Destroys name c c₁)
    (later : Lib.Run (Undisturbed name c₁.threads.length) c₁ c₂) :
    Destroyed name c₂.shared.db ∧
    (∀ u, nocase u.username = nocase name →
      c₂.shared.db.createUser u = (.error .conflict, c₂.shared.db)) ∧
    ∀ b ∈ c₂.shared.db.blocks, b.blocked = name → AddedAfter c₁ c₂ b := by
  obtain ⟨i, o, t, k, w, acts, rfl⟩ := commit
  have valid : validUsername name = true := by
    have guard := run.guarded (handler_guarded s) t acts.mem
    rw [acts.rest] at guard
    obtain ⟨⟨-, path, body, signsBody, u, authenticated, same⟩, -⟩ := guard
    obtain ⟨username, valid⟩ := read_user names run acts.mem authenticated.user
    rw [← same, username]
    exact valid
  have committed := run.next (l := .act i o) trivial
    (Lib.Config.step_act acts.thread acts.rest acts.served)
  have gone := gone names valid committed (gone_of_destroy acts) later
  exact ⟨gone.destroyed, fun u same => gone.destroyed.taken same, gone.blocked⟩

/-- When every request that was running has been answered, later runs are undisturbed. -/
theorem undisturbed_of_done (done : ∀ t ∈ c₁.threads, ∃ r, t.rest = .ret r)
    (later : Lib.Run (anyStep s) c₁ c) : Lib.Run (Undisturbed name c₁.threads.length) c₁ c := by
  refine later.strengthen fun c lab before _ => ?_
  rintro i o r st rfl running pending
  obtain ⟨t, thread⟩ : ∃ t, c₁.threads[i]? = some t := ⟨_, List.getElem?_eq_getElem running⟩
  obtain ⟨reply, rest⟩ := done t (List.mem_of_getElem? thread)
  have settled := before.settled thread rest
  unfold Lib.Config.pending at pending
  simp only [settled] at pending
  split at pending
  · rename_i same
    cases same
    cases rest
  · cases pending

end

/-! ## What a destruction does not keep out -/

namespace Sample

def bobbyDestroys : Request :=
  request .destroy bobby (utf8 "1749513600") (signature 66) (utf8 "1:20:250610:bobby::one:12c85d") none

def aliceBlocks : Request :=
  request .block alice (utf8 "1749513600") (signature 65) (utf8 "1:20:250610:alice::one:6e7368")
    (some (targetText (utf8 "bobby")))

def otherKeys : RemoteKeys := ⟨kemPubkey 65, sigPubkey 65⟩

def bobbyRotates : Request :=
  request .rotate bobby (utf8 "1749513600") (signature 67) (utf8 "1:20:250610:bobby::two:10d0e")
    (some (rotateText otherKeys))

def bobbySignsDestroy : Signed :=
  ⟨bobby, Server.signedMessage bobbyDestroys (utf8 "/api/destroy") [] false, signature 66⟩

def aliceSignsBlock : Signed :=
  ⟨alice, Server.signedMessage aliceBlocks (utf8 "/api/block") (targetText (utf8 "bobby")) true,
    signature 65⟩

def bobbySignsRotate : Signed :=
  ⟨bobby, Server.signedMessage bobbyRotates (utf8 "/api/rotate") (rotateText otherKeys) true,
    signature 67⟩

abbrev destroyServer : Server :=
  server [bobbySignsDestroy, aliceSignsBlock, bobbySignsRotate] [] [utf8 "bobby"] [otherKeys]

theorem valid_destroy : Valid destroyServer bobbyDestroys (utf8 "/api/destroy") [] false bobby
    (clock 0) :=
  valid (a := bobbySignsDestroy) (by simp) rfl (decodeB64_sigPubkey _ (by simp))
    (decodeB64_signature _ (by simp)) rfl ⟨by decide, by decide, signature_ne_nil 66, by decide⟩
    (by decide +kernel) (within (by decide))

theorem valid_block : Valid destroyServer aliceBlocks (utf8 "/api/block")
    (targetText (utf8 "bobby")) true alice (clock 0) :=
  valid (a := aliceSignsBlock) (by simp) rfl (decodeB64_sigPubkey _ (by simp))
    (decodeB64_signature _ (by simp)) rfl ⟨by decide, by decide, signature_ne_nil 65, by decide⟩
    (by decide +kernel) (within (by decide))

theorem sha256_destroyTokens : ([bobbyDestroys.pow, aliceBlocks.pow, bobbyRotates.pow].map
    Lib.sha256).Nodup := by
  decide +kernel

variable {c₀ c : State destroyServer}

/-- Bobby's account is destroyed. -/
theorem destroy_bobby (run : Lib.Run (anyStep _) c₀ c) (now : c.shared.clock = clock 0)
    (users : c.shared.db.users = [alice, bobby])
    (seen : (c.shared.seen.add (Lib.sha256 bobbyDestroys.signature) (clock 0)).1 = true)
    (spent : (c.shared.spent.add (Lib.sha256 bobbyDestroys.pow) (clock 0)).1 = true) :
    ∃ (c₁ c₂ : State destroyServer) (t : Lib.Thread (service destroyServer)) (reply : Reply),
      Lib.Run (anyStep _) c₀ c₁ ∧ Destroys (utf8 "bobby") c₁ c₂ ∧ t.req = bobbyDestroys ∧
      t.rest = .ret reply ∧ c₂.threads = c.threads ++ [t] ∧ c₂.shared.clock = clock 0 ∧
      c₂.shared.db.users = [alice, ⟨utf8 "bobby", [], [], 0⟩] ∧
      c₂.shared.seen = (c.shared.used bobbyDestroys.signature bobbyDestroys.pow).seen ∧
      c₂.shared.spent = (c.shared.used bobbyDestroys.signature bobbyDestroys.pow).spent := by
  obtain ⟨k, c₁, reply, run₁, shared, threads⟩ := run_statement (P := fun _ => True)
    (r := bobbyDestroys) (u := bobby) run (fun _ _ _ _ _ => trivial) trivial
    (by rw [now]; exact destroy_resumes valid_destroy)
    (Db.getUser_ok.mpr (by rw [users]; exact ⟨by simp, rfl⟩)) (by rw [now]; exact seen)
    (by rw [now]; exact spent) trivial trivial
  have users₁ : c₁.shared.db.users = [alice, bobby] := by
    rw [shared]
    exact users
  obtain ⟨db', executed, users'⟩ := Db.exec_destroyUser c₁.shared.db (utf8 "bobby")
    (Db.hasUser_iff.mpr ⟨bobby, by rw [users₁]; simp, rfl⟩)
  have last : c₁.threads[c.threads.length]? = some ⟨bobbyDestroys,
      authLog bobbyDestroys bobby c.shared.clock, .ask (.db (.destroyUser (utf8 "bobby"))) k⟩ := by
    rw [threads]
    exact List.getElem?_concat_length
  refine ⟨c₁, _, ⟨bobbyDestroys, authLog bobbyDestroys bobby c.shared.clock ++
      [⟨.db (.destroyUser (utf8 "bobby")), .ok ()⟩], k (.ok ())⟩, _, run₁,
    ⟨c.threads.length, Oracle.ok, _, k, _, ⟨last, rfl, serve_db executed⟩, rfl⟩, rfl, reply.symm,
    ?_, ?_, ?_, ?_, ?_⟩
  · rw [threads]
    exact List.set_append_right _ _ (Nat.le_refl _) |>.trans (by rw [Nat.sub_self]; rfl)
  · show c₁.shared.clock = _
    rw [shared]
    exact now
  · show db'.users = _
    rw [users', users₁]
    rfl
  · show c₁.shared.seen = _
    rw [shared]
  · show c₁.shared.spent = _
    rw [shared]

/-- Alice blocks the name. -/
theorem block_bobby (now : c.shared.clock = clock 0)
    (users : c.shared.db.users = [alice, ⟨utf8 "bobby", [], [], 0⟩])
    (seen : (c.shared.seen.add (Lib.sha256 aliceBlocks.signature) (clock 0)).1 = true)
    (spent : (c.shared.spent.add (Lib.sha256 aliceBlocks.pow) (clock 0)).1 = true) :
    ∃ (c' : State destroyServer) (t : Lib.Thread (service destroyServer)),
      Lib.Run (anyStep _) c c' ∧ c'.threads = c.threads ++ [t] ∧ t.req = aliceBlocks ∧
      ∃ b ∈ c'.shared.db.blocks, b.blocked = utf8 "bobby" := by
  have body : readBody aliceBlocks smallBody = .ok (targetText (utf8 "bobby")) :=
    readBody_ok rfl (by decide)
  have target : destroyServer.json.target (targetText (utf8 "bobby")) = some (utf8 "bobby") := by
    decide +kernel
  obtain ⟨c', run, shared, threads⟩ := run_request (P := fun _ => True) (r := aliceBlocks)
    (u := alice) (.start : Lib.Run (anyStep destroyServer) c c) (fun _ _ _ _ _ => trivial) trivial
    (by
      rw [now]
      exact block_resumes body valid_block target (by decide) (t := here bobby (by decide)) rfl)
    (Db.getUser_ok.mpr (by rw [users]; exact ⟨by simp, rfl⟩)) (by rw [now]; exact seen)
    (by rw [now]; exact spent) trivial trivial
    (.cons .ok trivial (by rw [← now]; rfl) (serves_db rfl trivial))
  refine ⟨c', _, run, threads, rfl, ?_⟩
  rw [shared]
  exact ⟨_, List.mem_append_right _ List.mem_cons_self, rfl⟩

/-- Bobby's rotation goes through. -/
theorem rotate_bobby {accepted : List Signed} {mails : List MailBody} {targets : List Bytes}
    (signed : bobbySignsRotate ∈ accepted) :
    ((server accepted mails targets [otherKeys]).rotate bobbyRotates).Resumes
      (authLog bobbyRotates bobby (clock 0) ++
        [⟨.db (.rotateKeys (utf8 "bobby") otherKeys.kem otherKeys.sig), .ok ()⟩])
      (.ret (.message 200 (utf8 "Keys rotated and old mails deleted") [])) := by
  have valid : Valid (server accepted mails targets [otherKeys]) bobbyRotates (utf8 "/api/rotate")
      (rotateText otherKeys) true bobby (clock 0) :=
    valid (a := bobbySignsRotate) signed rfl (decodeB64_sigPubkey _ (by simp))
      (decodeB64_signature _ (by simp)) rfl ⟨by decide, by decide, signature_ne_nil 67, by decide⟩
      (by decide +kernel) (within (by decide))
  have body : readBody bobbyRotates smallBody = .ok (rotateText otherKeys) :=
    readBody_ok rfl (by decide +kernel)
  have keys : (server accepted mails targets [otherKeys]).json.rotate (rotateText otherKeys) =
      some otherKeys := by
    show [otherKeys].find? (fun k => rotateText k == rotateText otherKeys) = some otherKeys
    exact List.find?_cons_of_pos (by exact beq_self_eq_true _)
  obtain ⟨raw, decoded, size⟩ := decodeB64_sigPubkey 65 (by simp)
  have parsed : (Protocol.parsePublicKey (scheme accepted) otherKeys.sig).isSome = true := by
    unfold Protocol.parsePublicKey otherKeys
    dsimp only
    rw [decoded]
    dsimp only
    rw [if_neg (not_not.mpr size)]
    rfl
  exact rotate_resumes body valid keys ⟨kemPubkey_ne_nil 65, sigPubkey_ne_nil 65⟩
    ⟨parsed, by decide +kernel⟩

/-- **A destroyed name is blocked again, and a rotation that was running gives it keys again.** -/
theorem destroyed_yet_named :
    (∃ c c₁ c₂ : State destroyServer, Lib.Run (anyStep _) (State.start _ (clock 0) db) c ∧
      Destroys (utf8 "bobby") c c₁ ∧ Lib.Run (anyStep _) c₁ c₂ ∧
      requests c₂ = [bobbyDestroys, aliceBlocks] ∧
      ∃ b ∈ c₂.shared.db.blocks, b.blocked = utf8 "bobby") ∧
    ∃ c c₁ c₂ : State destroyServer, Lib.Run (anyStep _) (State.start _ (clock 0) db) c ∧
      Destroys (utf8 "bobby") c c₁ ∧ Lib.Run (anyStep _) c₁ c₂ ∧
      requests c₂ = [bobbyRotates, bobbyDestroys] ∧
      ∃ u ∈ c₂.shared.db.users, u.username = utf8 "bobby" ∧ u.kemPubkey ≠ [] ∧ u.sigPubkey ≠ [] := by
  obtain ⟨h₁, -, h₃⟩ : Lib.sha256 aliceBlocks.signature ≠ Lib.sha256 bobbyDestroys.signature ∧
      Lib.sha256 bobbyRotates.signature ≠ Lib.sha256 aliceBlocks.signature ∧
      Lib.sha256 bobbyRotates.signature ≠ Lib.sha256 bobbyDestroys.signature := sha256_signatures
  have tokens := sha256_destroyTokens
  simp only [List.map_cons, List.map_nil, List.nodup_cons, List.mem_cons, List.not_mem_nil,
    or_false, not_or] at tokens
  obtain ⟨⟨t₁₂, t₁₃⟩, t₂₃, -⟩ := tokens
  have fresh : Lib.Run (anyStep destroyServer) (State.start destroyServer (clock 0) db)
    (State.start destroyServer (clock 0) db) := .start
  constructor
  · obtain ⟨c, c₁, t₁, reply, run, destroys, req₁, -, threads₁, now, users, seen, spent⟩ :=
      destroy_bobby fresh rfl rfl (TtlSet.add_of_notMem List.not_mem_nil List.not_mem_nil)
        (TtlSet.add_of_notMem List.not_mem_nil List.not_mem_nil)
    obtain ⟨c₂, t₂, later, threads₂, req₂, blocked⟩ := block_bobby now users
      (by rw [seen]; exact TtlSet.addAll_add (l := [(_, _)]) (by simpa using h₁))
      (by rw [spent]; exact TtlSet.addAll_add (l := [(_, _)]) (by simpa using Ne.symm t₁₂))
    refine ⟨c, c₁, c₂, run, destroys, later, ?_, blocked⟩
    rw [requests, threads₂, threads₁]
    show [t₁.req, t₂.req] = _
    rw [req₁, req₂]
    rfl
  · obtain ⟨k, c₀, -, run₀, shared₀, threads₀⟩ := run_statement (P := fun _ => True)
      (r := bobbyRotates) (u := bobby) fresh (fun _ _ _ _ _ => trivial) trivial
      (rotate_bobby (by simp) : (destroyServer.handler bobbyRotates).Resumes _ _)
      (Db.getUser_ok.mpr ⟨by simp [db, State.start, Lib.Config.init, World.init], rfl⟩)
      (TtlSet.add_of_notMem List.not_mem_nil List.not_mem_nil)
      (TtlSet.add_of_notMem List.not_mem_nil List.not_mem_nil) trivial trivial
    obtain ⟨c, c₁, t₁, reply, run, destroys, req₁, -, threads₁, now, users, seen, spent⟩ :=
      destroy_bobby run₀ (by rw [shared₀]; rfl) (by rw [shared₀]; rfl)
        (by
          rw [shared₀]
          exact TtlSet.addAll_add (l := [(_, _)]) (by simpa using Ne.symm h₃))
        (by
          rw [shared₀]
          exact TtlSet.addAll_add (l := [(_, _)]) (by simpa using t₁₃))
    obtain ⟨db', executed, users'⟩ := Db.exec_rotateKeys c₁.shared.db (utf8 "bobby") otherKeys.kem
      otherKeys.sig (Db.hasUser_iff.mpr ⟨⟨utf8 "bobby", [], [], 0⟩, by rw [users]; simp, rfl⟩)
    have first : c₁.threads[0]? = some ⟨bobbyRotates, authLog bobbyRotates bobby (clock 0),
        .ask (.db (.rotateKeys (utf8 "bobby") otherKeys.kem otherKeys.sig)) k⟩ := by
      rw [threads₁, threads₀]
      rfl
    obtain ⟨c₂, later, shared₂, threads₂⟩ := run_db (P := fun _ => True)
      (.start : Lib.Run (anyStep destroyServer) c₁ c₁) (fun _ _ _ _ _ => trivial) first rfl trivial
      executed
    refine ⟨c, c₁, c₂, run, destroys, later, ?_, Db.setKeys (utf8 "bobby") otherKeys.kem
      otherKeys.sig ⟨utf8 "bobby", [], [], 0⟩, ?_, rfl, kemPubkey_ne_nil 65, sigPubkey_ne_nil 65⟩
    · rw [requests, threads₂, threads₁, threads₀]
      show [bobbyRotates, t₁.req] = _
      rw [req₁]
    · rw [shared₂]
      show _ ∈ db'.users
      rw [users', users]
      exact List.mem_map_of_mem (by simp)

/-- A name that has been destroyed and blocked keeps to what is said of it. -/
theorem destroyed_for_good_blocked : ∃ c₁ c₂ : State destroyServer,
    requests c₂ = [bobbyDestroys, aliceBlocks] ∧ Destroyed (utf8 "bobby") c₂.shared.db ∧
    (∀ u, nocase u.username = nocase (utf8 "bobby") →
      c₂.shared.db.createUser u = (.error .conflict, c₂.shared.db)) ∧
    ∀ b ∈ c₂.shared.db.blocks, b.blocked = utf8 "bobby" → AddedAfter c₁ c₂ b := by
  obtain ⟨h₁, -⟩ : Lib.sha256 aliceBlocks.signature ≠ Lib.sha256 bobbyDestroys.signature ∧ _ :=
    sha256_signatures
  have tokens := sha256_destroyTokens
  simp only [List.map_cons, List.nodup_cons, List.mem_cons, not_or] at tokens
  obtain ⟨⟨t₁₂, -⟩, -⟩ := tokens
  have fresh : Lib.Run (anyStep destroyServer) (State.start destroyServer (clock 0) db)
    (State.start destroyServer (clock 0) db) := .start
  obtain ⟨c, c₁, t₁, reply, run, destroys, req₁, done, threads₁, now, users, seen, spent⟩ :=
    destroy_bobby fresh rfl rfl (TtlSet.add_of_notMem List.not_mem_nil List.not_mem_nil)
      (TtlSet.add_of_notMem List.not_mem_nil List.not_mem_nil)
  obtain ⟨c₂, t₂, later, threads₂, req₂, -⟩ := block_bobby now users
    (by rw [seen]; exact TtlSet.addAll_add (l := [(_, _)]) (by simpa using h₁))
    (by rw [spent]; exact TtlSet.addAll_add (l := [(_, _)]) (by simpa using Ne.symm t₁₂))
  have answered : ∀ t ∈ c₁.threads, ∃ r, t.rest = .ret r := by
    intro t mem
    rw [threads₁] at mem
    obtain rfl := List.mem_singleton.mp mem
    exact ⟨reply, done⟩
  refine ⟨c₁, c₂, ?_, destroyed_for_good destroyServer (clock 0) db (by decide) c c₁ c₂ run
    (utf8 "bobby") destroys (undisturbed_of_done answered later)⟩
  rw [requests, threads₂, threads₁]
  show [t₁.req, t₂.req] = _
  rw [req₁, req₂]
  rfl

end Sample

end Shyake.Go
