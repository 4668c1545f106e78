import Shyake.Go.Api.Runs

/-!
# One request at a time

A request that is handled with no other in between takes the server from one state
to another. Here is what a block, an unblock and the blocklist's verdict on a mail
come to then.
-/

namespace Shyake.Go

open Lib.Prog
open Protocol (Address parseBlockTarget)

/-- From the state `w` the request is handled alone: its log, its reply, the state after it. -/
structure Handled (s : Server) (w : World) (r : Request) (l : Log) (reply : Reply) (w' : World) :
    Prop where
  served : Lib.Serves (S := service s) (fun _ => True) w l w'
  returned : (s.handler r).Resumes l (.ret reply)

/-- A question that leaves the database alone. -/
def Query.reads : Query → Prop
  | .db (.getUser _) => True
  | .db _ => False
  | .post _ _ => False
  | _ => True

/-- A question that leaves the replay sets alone too. -/
def Query.looks : Query → Prop
  | .db (.getUser _) => True
  | .db _ => False
  | .post _ _ => False
  | .seenAdd _ _ => False
  | .spentAdd _ _ => False
  | _ => True

theorem reads_of_looks (q : Query) (h : q.looks) : q.reads := by
  cases q with
  | db st =>
    cases st with
    | getUser _ => trivial
    | _ => exact h
  | post => exact h
  | _ => trivial

/-! ## What is only read -/

section

variable {s : Server} {r : Request}

theorem asks_ask {A : Query → Prop} {α : Type} (q : Query) (f : Answer q → Handler α) :
    (ask q >>= f).Asks (I := Effects) A ↔ A q ∧ ∀ a, (f a).Asks (I := Effects) A := Iff.rfl

theorem asks_only {A : Query → Prop} (q : Query) :
    (ask q).Asks (I := Effects) A ↔ A q := by
  show (A q ∧ ∀ _, True) ↔ A q
  simp

/-- The questions of an authentication are allowed. -/
structure AllowsAuth (A : Query → Prop) : Prop where
  now : A .now
  user : ∀ username, A (.db (.getUser username))
  seen : ∀ k now, A (.seenAdd k now)
  spent : ∀ k now, A (.spentAdd k now)

theorem inWindow_asks {A : Query → Prop} (now : A .now) (ts : Bytes) :
    (inWindow ts).Asks (I := Effects) A := by
  unfold inWindow
  split
  · trivial
  · exact ⟨now, fun _ => trivial⟩

section

variable {A : Query → Prop} (allows : AllowsAuth A)

include allows

theorem fresh_asks (signature pow : Bytes) : (fresh signature pow).Asks (I := Effects) A := by
  unfold fresh
  refine (asks_ask _ _).mpr ⟨allows.now, fun now => ?_⟩
  refine (asks_ask _ _).mpr ⟨allows.seen _ _, fun new => ?_⟩
  split
  · trivial
  · exact (asks_only _).mpr (allows.spent _ _)

theorem auth_asks (path body : Bytes) (signsBody : Bool) :
    (s.auth r path body signsBody).Asks (I := Effects) A := by
  unfold Server.auth
  split
  · trivial
  refine (asks_ask _ _).mpr ⟨allows.now, fun now => ?_⟩
  split
  · trivial
  refine (inWindow_asks allows.now _).bind fun ok => ?_
  split
  · trivial
  refine (asks_ask _ _).mpr ⟨allows.user _, fun user => ?_⟩
  split
  · trivial
  · trivial
  · split
    · trivial
    split
    · trivial
    refine (fresh_asks allows _ _).bind fun ok => ?_
    split <;> trivial

theorem bodyAuth_asks (path : Bytes) : (s.bodyAuth r path).Asks (I := Effects) A := by
  unfold Server.bodyAuth
  split
  · trivial
  · refine (auth_asks allows _ _ _).bind fun res => ?_
    split <;> trivial

theorem blockTarget_asks : (s.blockTarget r).Asks (I := Effects) A := by
  unfold Server.blockTarget
  refine (bodyAuth_asks allows _).bind fun res => ?_
  split
  · trivial
  split
  · trivial
  split
  · trivial
  split <;> trivial

end

theorem allowsAuth_reads : AllowsAuth Query.reads where
  now := trivial
  user _ := trivial
  seen _ _ := trivial
  spent _ _ := trivial

theorem get_looks (url : Bytes) : (Server.get url).Asks (I := Effects) Query.looks :=
  (asks_ask _ _).mpr ⟨trivial, fun _ => trivial⟩

theorem flight_looks (a : Address) : (s.flight a).Asks (I := Effects) Query.looks := by
  unfold Server.flight
  refine (asks_ask _ _).mpr ⟨trivial, fun joined => ?_⟩
  obtain ⟨leads, n⟩ := joined
  cases leads with
  | false => exact (asks_only _).mpr trivial
  | true =>
    have fetched : (s.fetch a).Asks (I := Effects) Query.looks := by
      unfold Server.fetch
      refine (get_looks _).bind fun res => ?_
      split
      · trivial
      split
      · trivial
      split <;> trivial
    refine fetched.bind fun res => ?_
    cases res with
    | ok keys => exact ⟨trivial, fun _ => ⟨trivial, fun _ => trivial⟩⟩
    | error e => exact ⟨trivial, fun _ => trivial⟩

theorem keysOf_looks (a : Address) (fresh : Bool) :
    (s.keysOf a fresh).Asks (I := Effects) Query.looks := by
  unfold Server.keysOf
  split
  · refine (asks_ask _ _).mpr ⟨trivial, fun answer => ?_⟩
    split <;> trivial
  split
  · trivial
  have lookup : (s.lookup a fresh).Asks (I := Effects) Query.looks := by
    unfold Server.lookup
    split
    · exact flight_looks a
    refine (asks_ask _ _).mpr ⟨trivial, fun hit => ?_⟩
    split
    · exact flight_looks a
    refine (asks_ask _ _).mpr ⟨trivial, fun now => ?_⟩
    split
    · trivial
    · exact flight_looks a
  refine lookup.bind fun res => ?_
  split <;> trivial

theorem checkSubmission_looks (b : Submission s r) :
    (s.checkSubmission b).Asks (I := Effects) Query.looks := by
  have sender : (s.senderKey b).Asks (I := Effects) Query.looks := by
    unfold Server.senderKey
    refine (keysOf_looks _ _).bind fun res => ?_
    split
    any_goals trivial
    split <;> trivial
  have recipient : (s.recipientKey b).Asks (I := Effects) Query.looks := by
    unfold Server.recipientKey
    refine (keysOf_looks _ _).bind fun res => ?_
    split
    any_goals trivial
    split
    · trivial
    split
    · trivial
    split
    · trivial
    refine (keysOf_looks _ _).bind fun res => ?_
    split
    all_goals
      dsimp only
      split <;> trivial
  have signature : ∀ k, (s.checkSignature b k).Asks (I := Effects) Query.looks := by
    intro k
    unfold Server.checkSignature
    split
    · trivial
    split
    · trivial
    refine Asks.bind (Asks.bind (keysOf_looks _ _) fun res => ?_) fun ok => ?_
    · split <;> trivial
    · split <;> trivial
  unfold Server.checkSubmission
  refine (asks_ask _ _).mpr ⟨trivial, fun now => ?_⟩
  split
  · trivial
  refine (inWindow_asks (A := Query.looks) trivial _).bind fun ok => ?_
  split
  · trivial
  refine sender.bind fun res => ?_
  split
  · trivial
  refine recipient.bind fun res => ?_
  split
  · trivial
  · exact signature _

theorem remoteTakesReplies_looks (b : Submission s r) :
    (s.remoteTakesReplies b).Asks (I := Effects) Query.looks := by
  unfold Server.remoteTakesReplies
  split
  · trivial
  refine Asks.bind ?_ fun level => ?_
  · unfold Server.levelOf
    refine (get_looks _).bind fun answer => ?_
    split
    · trivial
    split
    · trivial
    split
    · trivial
    split <;> trivial
  · split
    · trivial
    split <;> trivial

/-! ## The database between two points of a log -/

variable {P : World → Prop} {w w' : World} {l : Log}

theorem served_reads {q : Query} {a : Answer q} (h : Served w q a w') (reads : q.reads) :
    w'.db = w.db := by
  rcases served_dbState h with same | ⟨st, rfl, executed⟩
  · exact same
  · cases st with
    | getUser _ => exact executed
    | _ => exact reads.elim

theorem drift_db {d : Time} (h : drift w d = some w') : w'.db = w.db := (drift_clock h).2.2

theorem db_of_reads (served : Lib.Serves (S := service s) P w l w')
    (reads : ∀ e ∈ l, e.query.reads) : w'.db = w.db :=
  served.invariant (fun w₁ : World => w₁.db = w.db) rfl
    (fun _ _ _ e mem same h => (served_reads (served_of_serve h) (reads e mem)).trans same)
    (fun _ _ _ same h => (drift_db h).trans same)

/-- What one statement leaves. -/
theorem db_of_statement {st : Stmt} {a : Except StoreError st.Result}
    (served : Lib.Serves (S := service s) P w [⟨.db st, a⟩] w') :
    a = (w.db.exec st).1 ∧ w'.db = (w.db.exec st).2 ∨ a = .error .other ∧ w'.db = w.db := by
  obtain ⟨w₀, o, w₁, before, executed, after⟩ := served.single_inv
  rw [db_of_reads after nofun, ← db_of_reads before nofun]
  exact served_db (served_of_serve executed)

variable {α : Type} {b : α}

/-- A question answered alone, then the rest. -/
theorem asked_inv {q : Query} {f : Answer q → Handler α}
    (returned : (ask q >>= f).Resumes l (.ret b))
    (served : Lib.Serves (S := service s) P w l w') :
    ∃ a l' w₁, Lib.Serves (S := service s) P w [⟨q, a⟩] w₁ ∧
      Lib.Serves (S := service s) P w₁ l' w' ∧ (f a).Resumes (I := Effects) l' (.ret b) := by
  rcases Resumes.ask_inv (I := Effects) (q := q) (k := f) returned with ⟨-, e⟩ | ⟨a, l', rfl, rest⟩
  · cases e
  · have parts : Lib.Serves (S := service s) P w ([⟨q, a⟩] ++ l') w' := served
    obtain ⟨w₁, here, after⟩ := parts.append_inv
    exact ⟨a, l', w₁, here, after, rest⟩

/-- A question that leaves the database alone, then the rest. -/
theorem read_inv {q : Query} {f : Answer q → Handler α}
    (returned : (ask q >>= f).Resumes l (.ret b))
    (served : Lib.Serves (S := service s) P w l w') (reads : q.reads) :
    ∃ a l' w₁, w₁.db = w.db ∧ Lib.Serves (S := service s) P w₁ l' w' ∧
      (f a).Resumes (I := Effects) l' (.ret b) := by
  obtain ⟨a, l', w₁, here, after, rest⟩ := asked_inv returned served
  refine ⟨a, l', w₁, db_of_reads here fun e mem => ?_, after, rest⟩
  obtain rfl := List.mem_singleton.mp mem
  exact reads

/-- A statement executed alone, or failed, then the rest. -/
theorem exec_inv {st : Stmt} {f : Except StoreError st.Result → Handler α}
    (returned : (exec st >>= f).Resumes l (.ret b))
    (served : Lib.Serves (S := service s) P w l w') :
    ∃ a l' w₁, (a = (w.db.exec st).1 ∧ w₁.db = (w.db.exec st).2 ∨
        a = .error .other ∧ w₁.db = w.db) ∧
      Lib.Serves (S := service s) P w₁ l' w' ∧ (f a).Resumes (I := Effects) l' (.ret b) := by
  obtain ⟨a, l', w₁, here, after, rest⟩ := asked_inv returned served
  exact ⟨a, l', w₁, db_of_statement here, after, rest⟩

/-- A request that has returned is over. -/
theorem returned_inv {a : α} (returned : (ret a : Handler α).Resumes l (.ret b))
    (served : Lib.Serves (S := service s) P w l w') : a = b ∧ w'.db = w.db := by
  obtain ⟨rfl, e⟩ := returned.ret_inv
  exact ⟨(ret.inj e).symm, db_of_reads served nofun⟩

end

/-! ## What comes back -/

/-- Whose addresses and which target a block request names. -/
def Request.target (s : Server) (r : Request) : Option Bytes :=
  match readBody r smallBody with
  | .error _ => none
  | .ok body => s.json.target body

/-- A refusal. -/
def Reply.IsFail (reply : Reply) : Prop := ∃ status text, reply = .fail status text

theorem isFail_fail (status : Nat) (msg : String) : (fail status msg).IsFail := ⟨_, _, rfl⟩

section

variable {s : Server} {r : Request} {l : Log}

/-- `auth` refuses, or returns the user it has read. -/
def AuthResult (r : Request) (l : Log) : Except Reply User → Prop
  | .error reply => reply.IsFail
  | .ok u => l.Has (.db (.getUser r.username)) (.ok u)

theorem auth_result (path body : Bytes) (signsBody : Bool) :
    (s.auth r path body signsBody).Meets (fun _ _ => True) (AuthResult r) l := by
  unfold Server.auth
  split
  · exact isFail_fail _ _
  refine (meets_ask_bind _ _).mpr ⟨trivial, fun now => ?_⟩
  split
  · exact isFail_fail _ _
  refine Meets.after _ fun l₁ ok _ => ?_
  split
  · exact isFail_fail _ _
  refine (meets_ask_bind _ _).mpr ⟨trivial, fun user => ?_⟩
  match user with
  | .error .notFound => exact isFail_fail _ _
  | .error .conflict => exact isFail_fail _ _
  | .error .other => exact isFail_fail _ _
  | .ok u =>
    dsimp only
    split
    · exact isFail_fail _ _
    split
    · exact isFail_fail _ _
    refine Meets.after _ fun l₂ ok pre => ?_
    split
    · exact isFail_fail _ _
    · exact (Log.has_last _ _ _).mono pre

theorem not_isFail_message {status : Nat} {text id : Bytes} :
    ¬ (Reply.message status text id).IsFail := by
  rintro ⟨_, _, e⟩
  cases e

theorem isFail_of_readBody {limit : Nat} {reply : Reply} (h : readBody r limit = .error reply) :
    reply.IsFail := by
  unfold readBody at h
  split at h
  · cases h
    exact isFail_fail _ _
  · split at h
    · cases h
      exact isFail_fail _ _
    · cases h

/-- What `blockTarget` has found out when it does not refuse. -/
structure BlockRequest (s : Server) (r : Request) (l : Log) (u : User) (t : Address) (raw : Bytes) :
    Prop where
  user : l.Has (.db (.getUser r.username)) (.ok u)
  decoded : r.target s = some raw
  parsed : parseBlockTarget raw s.cfg.instanceDomain = .ok t

/-- `blockTarget` refuses, or returns what the request names. -/
def BlockResult (s : Server) (r : Request) (l : Log) : Except Reply (User × Address × Bytes) → Prop
  | .error reply => reply.IsFail
  | .ok (u, t, raw) => BlockRequest s r l u t raw

/-- `bodyAuth` refuses, or returns the user it has read and the body. -/
def BodyAuthResult (r : Request) (body : Bytes) (l : Log) : Except Reply (User × Bytes) → Prop
  | .error reply => reply.IsFail
  | .ok (u, body') => body' = body ∧ l.Has (.db (.getUser r.username)) (.ok u)

theorem blockTarget_result :
    (s.blockTarget r).Meets (fun _ _ => True) (BlockResult s r) l := by
  unfold Server.blockTarget Server.bodyAuth
  split
  · rename_i reply refused
    exact isFail_of_readBody refused
  rename_i body read
  refine Meets.bind (Q := BodyAuthResult r body) ?_ ?_
  · refine (auth_result _ _ _).bind fun l' res _ found => ?_
    cases res with
    | error reply => exact found
    | ok u => exact ⟨rfl, found⟩
  · intro l' res _ found
    cases res with
    | error reply => exact found
    | ok authenticated =>
      obtain ⟨u, body'⟩ := authenticated
      obtain ⟨rfl, user⟩ := found
      dsimp only
      split
      · exact isFail_fail _ _
      rename_i target decoded
      split
      · exact isFail_fail _ _
      split
      · exact isFail_fail _ _
      rename_i t parsed
      refine ⟨user, ?_, parsed⟩
      unfold Request.target
      rw [read]
      exact decoded

/-! ## Blocks -/

variable {w w' : World}

/-- The authenticated user is the one the request names. -/
theorem username_of_read {P : World → Prop} {u : User}
    (served : Lib.Serves (S := service s) P w l w')
    (user : l.Has (.db (.getUser r.username)) (.ok u)) : u.username = r.username := by
  obtain ⟨w₀, o, w₁, -, answered⟩ := served.served_of_mem (fun _ => True) trivial
    (fun _ _ _ _ _ _ _ => trivial) (fun _ _ _ _ _ => trivial) user
  exact (served_getUser (served_of_serve answered)).2

/-- The first part of a block or an unblock that goes through. -/
theorem handled_blockTarget {f : Except Reply (User × Address × Bytes) → Handler Reply}
    {reply : Reply} (served : Lib.Serves (S := service s) (fun _ => True) w l w')
    (returned : (s.blockTarget r >>= f).Resumes (I := Effects) l (.ret reply))
    (refuses : ∀ reply, f (.error reply) = .ret reply) (passed : ¬ reply.IsFail) :
    ∃ u t raw l₂ w₁, u.username = r.username ∧ r.target s = some raw ∧
      parseBlockTarget raw s.cfg.instanceDomain = .ok t ∧ w₁.db = w.db ∧
      Lib.Serves (S := service s) (fun _ => True) w₁ l₂ w' ∧
      (f (.ok (u, t, raw))).Resumes (I := Effects) l₂ (.ret reply) := by
  obtain ⟨l₁, l₂, res, rfl, first, second⟩ := returned.bind_inv
  obtain ⟨w₁, before, after⟩ := Lib.Serves.append_inv served
  have same := db_of_reads before ((blockTarget_asks allowsAuth_reads).resumes first).1
  have found : BlockResult s r l₁ res := blockTarget_result.resumes first
  match res with
  | .error reply' =>
    rw [refuses] at second
    obtain ⟨-, e⟩ := second.ret_inv
    cases e
    exact absurd found passed
  | .ok (u, t, raw) =>
    have found : BlockRequest s r l₁ u t raw := found
    exact ⟨u, t, raw, l₂, w₁, username_of_read before found.user, found.decoded, found.parsed, same,
      after, second⟩

/-- **A block that is answered 201** has replaced one row. -/
theorem handled_block (route : r.route = .block)
    (handled : Handled s w r l (.message 201 (utf8 "Blocked") []) w') :
    ∃ raw t at_, r.target s = some raw ∧ parseBlockTarget raw s.cfg.instanceDomain = .ok t ∧
      w'.db = w.db.addBlock r.username t.stored at_ := by
  have returned := handled.returned
  unfold Server.handler at returned
  rw [route] at returned
  obtain ⟨u, t, raw, l₂, w₁, name, decoded, parsed, same, served, rest⟩ :=
    handled_blockTarget handled.served returned (fun _ => rfl) not_isFail_message
  obtain ⟨now, l₃, w₂, clock, served, rest⟩ := read_inv rest served trivial
  obtain ⟨done, l₄, w₃, executed, served, rest⟩ := exec_inv rest served
  match done with
  | .error e => cases (returned_inv rest served).1
  | .ok _ =>
    have later := (returned_inv rest served).2
    rcases executed with ⟨-, added⟩ | ⟨e, -⟩
    · refine ⟨raw, t, now.unix, decoded, parsed, ?_⟩
      rw [later, added, clock, same, name]
      rfl
    · cases e

/-- `RemoveBlock`, when no statement fails. -/
theorem removeBlock_ok {username : Bytes} {targets : List Bytes}
    (served : Lib.Serves (S := service s) (fun _ => True) w l w')
    (returned : (Server.removeBlock username targets).Resumes (I := Effects) l (.ret (.ok ()))) :
    w'.db = targets.foldl (fun db t => db.removeBlock username t) w.db := by
  induction targets generalizing w l with
  | nil => exact (returned_inv returned served).2
  | cons t rest ih =>
    obtain ⟨done, l₁, w₁, executed, served, later⟩ := exec_inv returned served
    match done with
    | .error e => cases (returned_inv later served).1
    | .ok _ =>
      rcases executed with ⟨-, removed⟩ | ⟨e, -⟩
      · rw [ih served later, removed]
        rfl
      · cases e

/-- **An unblock that is answered 200** has deleted the stored form and the raw one. -/
theorem handled_unblock (route : r.route = .unblock)
    (handled : Handled s w r l (.message 200 (utf8 "Unblocked") []) w') :
    ∃ raw t, r.target s = some raw ∧ parseBlockTarget raw s.cfg.instanceDomain = .ok t ∧
      w'.db = (w.db.removeBlock r.username t.stored).removeBlock r.username raw := by
  have returned := handled.returned
  unfold Server.handler at returned
  rw [route] at returned
  obtain ⟨u, t, raw, l₂, w₁, name, decoded, parsed, same, served, rest⟩ :=
    handled_blockTarget handled.served returned (fun _ => rfl) not_isFail_message
  obtain ⟨l₃, l₄, done, rfl, first, second⟩ := rest.bind_inv
  obtain ⟨w₂, removing, after⟩ := Lib.Serves.append_inv served
  match done with
  | .error e => cases (returned_inv second after).1
  | .ok _ =>
    refine ⟨raw, t, decoded, parsed, ?_⟩
    rw [(returned_inv second after).2, removeBlock_ok removing first, same, name]
    rfl

/-! ## The blocklist's verdict on a mail -/

/-- The reply to a blocked sender. -/
def refusal : Reply := fail 403 "Recipient has blocked this sender"

/-- The question the blocklist is asked. -/
def Submission.lookup (b : Submission s r) : Stmt :=
  .blocked b.recipient.stored [b.sender.stored, b.sender.domain]

/-- Not a question to the blocklist. -/
def Query.otherThanBlocked (q : Query) : Prop := ∀ u c, q ≠ .db (.blocked u c)

/-- A question of the INSERT of a mail. -/
def Query.inserts : Query → Prop
  | .random | .db (.insertMail _) | .db (.mailIDBySignature _) => True
  | _ => False

theorem otherThanBlocked_of_inserts {q : Query} (h : q.inserts) : q.otherThanBlocked := by
  rintro u c rfl
  exact h

theorem insertAttempts_inserts (n : Nat) (m : Mail) :
    (insertAttempts n m).Asks (I := Effects) Query.inserts := by
  induction n with
  | zero => trivial
  | succ n ih =>
    unfold insertAttempts newMailID
    refine ⟨trivial, fun bytes => ?_⟩
    refine (asks_ask _ _).mpr ⟨trivial, fun done => ?_⟩
    cases done with
    | ok done => trivial
    | error e =>
      cases e with
      | conflict =>
        refine (asks_ask _ _).mpr ⟨trivial, fun found => ?_⟩
        cases found with
        | ok id => trivial
        | error e => exact ih
      | notFound => trivial
      | other => trivial

/-- What follows the blocklist, for a local recipient: it does not come back to the blocklist,
and its reply is another one. -/
theorem storeSubmission_rest {b : Submission s r} (here : b.recipient.isLocal = true) :
    ∃ f : Except Reply Unit → Handler Reply, s.storeSubmission b = Server.checkBlocklist b >>= f ∧
      (∀ reply, f (.error reply) = .ret reply) ∧
      (f (.ok ())).Asks (I := Effects) Query.otherThanBlocked ∧
      (f (.ok ())).Meets (I := Effects) (fun _ _ => True) (fun _ reply => reply ≠ refusal) [] := by
  have text : utf8 "Invalid Proof of Work" ≠ utf8 "Recipient has blocked this sender" := by decide
  refine ⟨_, rfl, fun _ => rfl, ?_, ?_⟩
  · refine (asks_ask _ _).mpr ⟨nofun, fun known => ?_⟩
    split
    · trivial
    simp only [Server.remoteTakesReplies, here, or_true, if_true, pure_eq, ret_bind]
    refine (asks_ask _ _).mpr ⟨nofun, fun now => (asks_ask _ _).mpr ⟨nofun, fun new => ?_⟩⟩
    split
    · trivial
    simp only [Server.relay, here, if_true, pure_eq, ret_bind]
    refine (asks_ask _ _).mpr ⟨nofun, fun now => Asks.bind ((insertAttempts_inserts _ _).mono
      fun _ => otherThanBlocked_of_inserts) fun done => ?_⟩
    split <;> trivial
  · refine (meets_ask_bind _ _).mpr ⟨trivial, fun known => ?_⟩
    split
    · exact nofun
    simp only [Server.remoteTakesReplies, here, or_true, if_true, pure_eq, ret_bind]
    refine (meets_ask_bind _ _).mpr ⟨trivial, fun now => (meets_ask_bind _ _).mpr
      ⟨trivial, fun new => ?_⟩⟩
    split
    · exact fun same => text (Reply.fail.inj same).2
    simp only [Server.relay, here, if_true, pure_eq, ret_bind]
    refine (meets_ask_bind _ _).mpr ⟨trivial, fun now => Meets.after _ fun l' done _ => ?_⟩
    split
    · exact nofun
    · exact nofun

/-- **A mail that comes to the blocklist** is refused if and only if the blocklist of that moment
has its sender, or its sender's domain. -/
theorem handled_mail {reply : Reply} {b : Submission s r} (route : r.route = .sendMail)
    (handled : Handled s w r l reply w') (parsed : s.parseSubmission r = .ok b)
    (here : b.recipient.isLocal = true) {found : Bool} (looked : l.Has (.db b.lookup) (.ok found)) :
    reply = refusal ↔ w.db.blocked b.recipient.stored [b.sender.stored, b.sender.domain] = true := by
  have returned := handled.returned
  unfold Server.handler at returned
  rw [route] at returned
  unfold Server.sendMail at returned
  simp only [parsed] at returned
  obtain ⟨l₁, l₂, res, rfl, first, second⟩ := returned.bind_inv
  obtain ⟨w₁, before, served⟩ := Lib.Serves.append_inv handled.served
  have reads := ((checkSubmission_looks b).resumes first).1
  have same := db_of_reads before fun e mem => reads_of_looks _ (reads e mem)
  have later : (⟨.db b.lookup, .ok found⟩ : Lib.Event Effects) ∈ l₂ := by
    rcases List.mem_append.mp looked with early | late
    · exact (reads _ early).elim
    · exact late
  match res with
  | .error reply' =>
    obtain ⟨rfl, -⟩ := second.ret_inv
    cases later
  | .ok _ =>
    have second : (s.storeSubmission b).Resumes (I := Effects) l₂ (.ret reply) := second
    obtain ⟨f, parts, refuses, asks, result⟩ := storeSubmission_rest here
    rw [parts] at second
    unfold Server.checkBlocklist at second
    rw [if_neg (by simp [here])] at second
    rw [bind_assoc] at second
    rcases second.ask_inv with ⟨-, e⟩ | ⟨answer, l', rfl, rest⟩
    · cases e
    have parts : Lib.Serves (S := service s) _ w₁ ([⟨.db b.lookup, answer⟩] ++ l') w' := served
    obtain ⟨w₂, here', after⟩ := parts.append_inv
    have executed := db_of_statement here'
    rw [same] at executed
    match answer with
    | .error e =>
      have rest : (f (.error internal)).Resumes (I := Effects) l' (.ret reply) := rest
      rw [refuses] at rest
      obtain ⟨rfl, -⟩ := rest.ret_inv
      cases List.mem_singleton.mp later
    | .ok true =>
      have rest : (f (.error refusal)).Resumes (I := Effects) l' (.ret reply) := rest
      rw [refuses] at rest
      obtain ⟨-, e⟩ := rest.ret_inv
      rcases executed with ⟨e', -⟩ | ⟨e', -⟩
      · exact iff_of_true (ret.inj e) (Except.ok.inj e').symm
      · cases e'
    | .ok false =>
      have rest : (f (.ok ())).Resumes (I := Effects) l' (.ret reply) := rest
      have other : reply ≠ refusal := result.resumes rest
      rcases executed with ⟨e', -⟩ | ⟨e', -⟩
      · refine iff_of_false other ?_
        rw [← Except.ok.inj e']
        exact Bool.false_ne_true
      · cases e'

end

end Shyake.Go
