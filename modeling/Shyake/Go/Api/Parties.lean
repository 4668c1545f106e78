import Shyake.Lib.Registry
import Shyake.Go.Api.Alone
import Shyake.Go.Api.Identical
import Shyake.Go.Api.Replay

/-!
# Who reads and removes mail (`listMail`, `getMail`, `burnMail`, `RotateKeys`, `DestroyUser`)

Every statement on the mailbox of a user runs for a request that `auth` has let pass as
that user, on the path of its own route, and each one of them checks the party and
acts on the row at once.
-/

namespace Shyake.Go

open Lib.Prog
open Protocol (validUsername)

/-! ## Acting as a user -/

/-- `auth` has let the request pass, on the path of its route. -/
def ActsOnRoute (s : Server) (r : Request) (l : Log) (username : Bytes) : Prop :=
  ∃ path body signsBody u, r.authCall = some (path, body, signsBody) ∧
    Authenticated s r path body signsBody u l ∧ u.username = username

section

variable {s : Server} {r : Request} {l : Log} {q : Query} {k : Answer q → Handler Reply}

/-- A question that `auth` does not ask comes after it. -/
theorem authenticated_of_asks {path body : Bytes} {signsBody : Bool}
    (call : r.authCall = some (path, body, signsBody))
    (asks : (s.handler r).Resumes (I := Effects) l (.ask q k)) (later : ¬ q.reads) :
    ∃ u, Authenticated s r path body signsBody u l := by
  obtain ⟨f, same, refuses⟩ := handler_authCall (s := s) call
  obtain ⟨register, sendMail⟩ := route_of_authCall call
  have own := token_of_header (s := s) register sendMail
  rw [same] at asks
  rcases asks.bind_cases with ⟨q', k', first, e⟩ | ⟨l₁, l₂, res, rfl, first, second⟩
  · cases e
    exact absurd ((auth_asks allowsAuth_reads path body signsBody).resumes first).2.1 later
  · have passed := (meets_auth own path body signsBody (l := [])).resumes first
    cases res with
    | error reply =>
      rw [refuses] at second
      obtain ⟨-, e⟩ := second.ret_inv
      cases e
    | ok u => exact ⟨u, (passed u rfl).mono (List.prefix_append _ _)⟩

/-- A rotation asks nothing before its body is read. -/
theorem read_of_rotate (route : r.route = .rotate)
    (asks : (s.handler r).Resumes (I := Effects) l (.ask q k)) :
    ∃ body, readBody r smallBody = .ok body := by
  unfold Server.handler at asks
  rw [route] at asks
  have asks : (s.rotate r).Resumes (I := Effects) l (.ask q k) := asks
  unfold Server.rotate Server.bodyAuth at asks
  cases read : readBody r smallBody with
  | ok body => exact ⟨body, rfl⟩
  | error reply =>
    rw [read] at asks
    obtain ⟨-, e⟩ := asks.ret_inv
    cases e

/-- A statement on a mailbox, with its user. -/
def Stmt.onMailbox : Stmt → Option Bytes
  | .deleteMail _ username => some username
  | .rotateKeys username _ _ => some username
  | .destroyUser username => some username
  | _ => none

/-- A request that is meant to remove mail. -/
def Route.removesMail : Route → Bool
  | .burnMail _ | .rotate | .destroy => true
  | _ => false

theorem removesMail_of_guard {st : Stmt} {username : Bytes} (guard : Guard s r l (.db st))
    (on : st.onMailbox = some username) : r.route.removesMail = true ∧ ActsAs s r l username := by
  cases st with
  | deleteMail id user =>
    cases on
    exact ⟨by rw [guard.1]; rfl, guard.2⟩
  | rotateKeys user kem sig =>
    cases on
    exact ⟨by rw [guard.1]; rfl, guard.2⟩
  | destroyUser user =>
    cases on
    exact ⟨by rw [guard.1]; rfl, guard.2⟩
  | _ => cases on

theorem authCall_of_removes (removes : r.route.removesMail = true)
    (asks : (s.handler r).Resumes (I := Effects) l (.ask q k)) : ∃ call, r.authCall = some call := by
  unfold Request.authCall
  cases route : r.route with
  | burnMail id => exact ⟨_, rfl⟩
  | destroy => exact ⟨_, rfl⟩
  | rotate =>
    obtain ⟨body, read⟩ := read_of_rotate route asks
    rw [read]
    exact ⟨_, rfl⟩
  | _ =>
    rw [route] at removes
    cases removes

end

/-! ## What a reply shows -/

/-- A reply with no mail in it. -/
def Reply.ShowsNone : Reply → Prop
  | .mail _ | .mails _ => False
  | _ => True

theorem Reply.IsFail.showsNone {reply : Reply} (h : reply.IsFail) : reply.ShowsNone := by
  obtain ⟨status, text, rfl⟩ := h
  trivial

/-- Mail that a statement has read from the mailbox of the user that the request acts as. -/
def ShowsOwn (s : Server) (r : Request) (l : Log) (reply : Reply) : Prop :=
  ∃ username, ActsOnRoute s r l username ∧
    ((∃ sent ms, l.Has (.db (.listMail username sent)) (.ok ms) ∧
        reply = .mails (ms.map fun m => Server.toJSON m false)) ∨
      ∃ id m, l.Has (.db (.getMail id username)) (.ok m) ∧ reply = .mail (Server.toJSON m true))

section

variable {s : Server} {r : Request} {l : Log}

/-- The handler of a route without mail in its replies. -/
def NoMail (p : Handler Reply) : Prop :=
  ∀ l, p.Meets (I := Effects) (fun _ _ => True) (fun _ reply => reply.ShowsNone) l

/-- `auth` refuses, or the user is authenticated. -/
theorem auth_passes (own : r.token s = some (r.pow, r.username)) (path body : Bytes)
    (signsBody : Bool) : (s.auth r path body signsBody).Meets (I := Effects) (fun _ _ => True)
      (fun l' res => match res with
        | .error reply => reply.IsFail
        | .ok u => Authenticated s r path body signsBody u l') l := by
  refine ((meets_auth own path body signsBody).and (auth_result path body signsBody)).mono
    (fun _ _ _ _ => trivial) fun l' res _ both => ?_
  cases res with
  | error reply => exact both.2
  | ok u => exact both.1 u rfl

theorem noMail_ret {reply : Reply} (h : reply.ShowsNone) : NoMail (.ret reply) := fun _ => h

/-- The first part does not decide what is shown. -/
theorem NoMail.after {α : Type} {p : Handler α} {f : α → Handler Reply} (h : ∀ a, NoMail (f a)) :
    NoMail (p >>= f) :=
  fun _ => Meets.after p fun l' a _ => h a l'

/-- What is refused is refused with an error. -/
theorem NoMail.refused {α : Type} {p : Handler (Except Reply α)} {f : Except Reply α → Handler Reply}
    (only : ∀ l, p.Meets (I := Effects) (fun _ _ => True) (fun _ res => OnlyRefuses res) l)
    (refuses : ∀ reply, f (.error reply) = .ret reply) (passed : ∀ a, NoMail (f (.ok a))) :
    NoMail (p >>= f) := by
  intro l
  refine (only l).bind fun l' res _ result => ?_
  cases res with
  | error reply =>
    rw [refuses]
    exact Reply.IsFail.showsNone result
  | ok a => exact passed a l'

theorem auth_onlyRefuses (path body : Bytes) (signsBody : Bool) (l : Log) :
    (s.auth r path body signsBody).Meets (I := Effects) (fun _ _ => True)
      (fun _ res => OnlyRefuses res) l := by
  refine (auth_result path body signsBody).mono (fun _ _ _ guard => guard) fun l' res _ result => ?_
  cases res with
  | error reply => exact result
  | ok u => trivial

theorem bodyAuth_onlyRefuses (path : Bytes) (l : Log) :
    (s.bodyAuth r path).Meets (I := Effects) (fun _ _ => True) (fun _ res => OnlyRefuses res) l := by
  unfold Server.bodyAuth
  split
  · rename_i reply refused
    exact isFail_of_readBody refused
  · refine (auth_onlyRefuses _ _ _ l).bind fun l' res _ result => ?_
    cases res with
    | error reply => exact result
    | ok u => trivial

theorem blockTarget_onlyRefuses (l : Log) :
    (s.blockTarget r).Meets (I := Effects) (fun _ _ => True) (fun _ res => OnlyRefuses res) l := by
  refine blockTarget_result.mono (fun _ _ _ guard => guard) fun l' res _ result => ?_
  cases res with
  | error reply => exact result
  | ok u => trivial

theorem relay_onlyRefuses (b : Submission s r) (l : Log) :
    (s.relay b).Meets (I := Effects) (fun _ _ => True) (fun _ res => OnlyRefuses res) l := by
  unfold Server.relay
  split
  · trivial
  refine Meets.after _ fun l' answer _ => ?_
  split
  · exact isFail_fail _ _
  split
  · trivial
  split
  · exact ⟨_, _, rfl⟩
  · exact isFail_fail _ _

theorem noMail_localPubkey (name : Bytes) : NoMail (Server.localPubkey name) := by
  refine .after fun answer => ?_
  split <;> exact fun _ => trivial

theorem noMail_pubkey (name : Bytes) : NoMail (s.pubkey name) := by
  unfold Server.pubkey
  split
  · exact noMail_localPubkey name
  split
  · exact fun _ => trivial
  split
  · exact noMail_localPubkey _
  split
  · exact fun _ => trivial
  refine .after fun answer => ?_
  split <;> exact fun _ => trivial

theorem noMail_register : NoMail (s.register r) := by
  unfold Server.register
  split
  · exact fun _ => trivial
  split
  · rename_i reply refused
    exact noMail_ret (isFail_of_readBody refused).showsNone
  split
  · exact fun _ => trivial
  split
  · exact fun _ => trivial
  split
  · exact fun _ => trivial
  split
  · exact fun _ => trivial
  refine .after fun now => ?_
  split
  · exact fun _ => trivial
  refine .after fun inTime => ?_
  split
  · exact fun _ => trivial
  split
  · exact fun _ => trivial
  split
  · exact fun _ => trivial
  dsimp only
  split
  · exact fun _ => trivial
  refine .after fun new => ?_
  split
  · exact fun _ => trivial
  refine .after fun now => ?_
  refine .after fun done => ?_
  split <;> exact fun _ => trivial

theorem noMail_storeSubmission (b : Submission s r) : NoMail (s.storeSubmission b) := by
  unfold Server.storeSubmission
  refine .refused checkBlocklist_onlyRefuses (fun _ => rfl) fun _ => ?_
  refine .after fun known => ?_
  split
  · exact fun _ => trivial
  refine .refused remoteTakesReplies_onlyRefuses (fun _ => rfl) fun _ => ?_
  refine .after fun now => ?_
  refine .after fun new => ?_
  split
  · exact fun _ => trivial
  refine .refused (relay_onlyRefuses b) (fun _ => rfl) fun _ => ?_
  refine .after fun now => ?_
  refine .after fun done => ?_
  split <;> exact fun _ => trivial

theorem noMail_sendMail : NoMail (s.sendMail r) := by
  unfold Server.sendMail
  split
  · rename_i reply refused
    exact noMail_ret (isFail_of_parseSubmission refused).showsNone
  · exact .refused (fun _ => checkSubmission_refuses) (fun _ => rfl) fun _ =>
      noMail_storeSubmission _

theorem noMail_rotate : NoMail (s.rotate r) := by
  unfold Server.rotate
  refine .refused (bodyAuth_onlyRefuses _) (fun _ => rfl) fun passed => ?_
  dsimp only
  split
  · exact fun _ => trivial
  split
  · exact fun _ => trivial
  split
  · exact fun _ => trivial
  refine .after fun done => ?_
  split <;> exact fun _ => trivial

theorem noMail_block : NoMail (s.block r) := by
  unfold Server.block
  refine .refused blockTarget_onlyRefuses (fun _ => rfl) fun passed => ?_
  refine .after fun now => ?_
  refine .after fun done => ?_
  split <;> exact fun _ => trivial

theorem noMail_unblock : NoMail (s.unblock r) := by
  unfold Server.unblock
  refine .refused blockTarget_onlyRefuses (fun _ => rfl) fun passed => ?_
  refine .after fun done => ?_
  split <;> exact fun _ => trivial

/-- **A reply shows only the user's own mail.** -/
theorem handler_shows (s : Server) (r : Request) :
    (s.handler r).Meets (I := Effects) (fun _ _ => True)
      (fun l reply => reply.ShowsNone ∨ ShowsOwn s r l reply) [] := by
  have none_ : ∀ {p : Handler Reply}, NoMail p → p.Meets (I := Effects) (fun _ _ => True)
      (fun l reply => reply.ShowsNone ∨ ShowsOwn s r l reply) [] :=
    fun h => (h []).mono (fun _ _ _ guard => guard) fun _ _ _ shows => .inl shows
  have own := token_of_header (s := s) (r := r)
  unfold Server.handler
  cases route : r.route with
  | register => exact none_ noMail_register
  | pubkey name => exact none_ (noMail_pubkey name)
  | sendMail => exact none_ noMail_sendMail
  | listMail typ =>
    have call : r.authCall = some (utf8 "/api/mail?type=" ++ (if typ = [] then utf8 "inbox" else typ),
        [], false) := by
      unfold Request.authCall
      rw [route]
    unfold Server.listMail
    refine (auth_passes (own (by simp [route]) (by simp [route])) _ [] false).bind
      fun l res _ result => ?_
    cases res with
    | error reply => exact .inl (Reply.IsFail.showsNone result)
    | ok u =>
      refine (meets_ask_bind _ _).mpr ⟨trivial, fun answer => ?_⟩
      cases answer with
      | error e => exact .inl trivial
      | ok ms =>
        exact .inr ⟨u.username, ⟨_, _, _, u, call, result.mono (List.prefix_append _ _), rfl⟩,
          .inl ⟨_, ms, Log.has_last _ _ _, rfl⟩⟩
  | getMail id =>
    have call : r.authCall = some (utf8 "/api/mail/" ++ id, [], false) := by
      unfold Request.authCall
      rw [route]
    unfold Server.getMail
    refine (auth_passes (own (by simp [route]) (by simp [route])) _ [] false).bind
      fun l res _ result => ?_
    cases res with
    | error reply => exact .inl (Reply.IsFail.showsNone result)
    | ok u =>
      refine (meets_ask_bind _ _).mpr ⟨trivial, fun answer => ?_⟩
      match answer with
      | .error .notFound => exact .inl trivial
      | .error .conflict => exact .inl trivial
      | .error .other => exact .inl trivial
      | .ok m =>
        exact .inr ⟨u.username, ⟨_, _, _, u, call, result.mono (List.prefix_append _ _), rfl⟩,
          .inr ⟨_, m, Log.has_last _ _ _, rfl⟩⟩
  | burnMail id =>
    exact none_ (.refused (auth_onlyRefuses _ _ _) (fun _ => rfl) fun u =>
      .after fun done => by split <;> exact fun _ => trivial)
  | block => exact none_ noMail_block
  | unblock => exact none_ noMail_unblock
  | listBlocks =>
    exact none_ (.refused (auth_onlyRefuses _ _ _) (fun _ => rfl) fun u =>
      .after fun list => by split <;> exact fun _ => trivial)
  | rotate => exact none_ noMail_rotate
  | destroy =>
    exact none_ (.refused (auth_onlyRefuses _ _ _) (fun _ => rfl) fun u =>
      .after fun done => by split <;> exact fun _ => trivial)

end

/-! ## The registry of mail -/

/-- The users whose mailboxes a row is in. -/
def MailRow.party (row : MailRow) (username : Bytes) : Prop :=
  row.mail.sender = username ∨ row.mail.recipient = username

/-- What a reply holds of a row: all of it, or what a listing shows. -/
def Reply.Shows (reply : Reply) (row : MailRow) : Prop :=
  reply = .mail (Server.toJSON row.mail true) ∨
    ∃ list, reply = .mails list ∧ Server.toJSON (Db.listed row) false ∈ list

/-- The mail of the Go server. -/
def mailRegistry (s : Server) : Lib.Registry (service s) Bytes where
  Record := MailRow
  records w := w.db.mail
  Party := MailRow.party
  ActsAs t username := ActsOnRoute s t.req t.log username
  Removes r := r.route.removesMail = true
  Shows := Reply.Shows

theorem party_iff {row : MailRow} {username : Bytes} :
    row.party username ↔ Db.names username row.mail = true := by
  unfold MailRow.party Db.names
  simp

/-- What a statement reads of a mailbox is the user's. -/
theorem party_of_listMail {db : Db} {username : Bytes} {sent : Bool} {m : Mail}
    (mem : m ∈ db.listMail username sent) : m.sender = username ∨ m.recipient = username := by
  unfold Db.listMail at mem
  simp only [List.mem_map, List.mem_mergeSort, List.mem_filter] at mem
  obtain ⟨row, ⟨-, box⟩, rfl⟩ := mem
  cases sent with
  | true =>
    left
    show row.mail.sender = username
    simpa using box
  | false =>
    right
    show row.mail.recipient = username
    simpa using box

theorem party_of_getMail {db : Db} {id username : Bytes} {m : Mail}
    (found : db.getMail id username = .ok m) : m.sender = username ∨ m.recipient = username := by
  unfold Db.getMail at found
  split at found
  · rename_i row here
    cases found
    have named := List.find?_some here
    simp only [Bool.and_eq_true] at named
    exact party_iff.mpr named.2
  · cases found

/-- A statement on the mailbox of one user removes that user's mail only. -/
theorem party_of_removed {db : Db} {st : Stmt} {row : MailRow} (here : row ∈ db.mail)
    (gone : row ∉ (db.exec st).2.mail) :
    ∃ username, st.onMailbox = some username ∧ row.party username := by
  have others : ∀ {p : Mail → Bool} {rows : List MailRow},
      rows = db.mail.filter (fun r => !p r.mail) → row ∉ rows → p row.mail = true := by
    rintro p rows rfl out
    by_contra no
    exact out (List.mem_filter.mpr ⟨here, by simpa using no⟩)
  cases st with
  | deleteMail id username =>
    refine ⟨username, rfl, ?_⟩
    simp only [Db.exec, Db.deleteMail] at gone
    split at gone
    · have both := others (p := fun m => m.id == id && Db.names username m) rfl gone
      simp only [Bool.and_eq_true] at both
      exact party_iff.mpr both.2
    · exact absurd here gone
  | rotateKeys username kem sig =>
    refine ⟨username, rfl, ?_⟩
    simp only [Db.exec, Db.rotateKeys] at gone
    split at gone
    · exact party_iff.mpr (others rfl gone)
    · exact absurd here gone
  | destroyUser username =>
    refine ⟨username, rfl, ?_⟩
    simp only [Db.exec, Db.destroyUser] at gone
    split at gone
    · exact party_iff.mpr (others rfl gone)
    · exact absurd here gone
  | _ =>
    refine absurd (Db.mail_kept here ?_ ?_ ?_) gone
    · intro u kem sig same
      cases same
    · intro u same
      cases same
    · intro id u same
      cases same

section

variable {s : Server} {c : State s} {ok : State s → Lib.Label (service s) → Prop} {clock : Time}
  {db : Db}

/-- A statement on a mailbox runs for a request that acts as its user. -/
theorem actsOnRoute_of_acts (names : Named db) (run : Lib.Run ok (State.start s clock db) c) {i : Nat}
    {o : Oracle} {t : Lib.Thread (service s)} {st : Stmt} {k : Answer (.db st) → Handler Reply}
    {a : Answer (.db st)} {w : World} (acts : Lib.Config.Acts c i o t (.db st) k a w)
    {username : Bytes} (on : st.onMailbox = some username) :
    t.req.route.removesMail = true ∧ ActsOnRoute s t.req t.log username := by
  have guard := run.guarded (handler_guarded s) t acts.mem
  rw [acts.rest] at guard
  obtain ⟨removes, path', body', signsBody', u', authenticated', rfl⟩ :=
    removesMail_of_guard guard.1 on
  have asks : (s.handler t.req).Resumes (I := Effects) t.log (.ask (.db st) k) :=
    acts.rest ▸ run.resumes t acts.mem
  obtain ⟨⟨path, body, signsBody⟩, call⟩ := authCall_of_removes removes asks
  have writes : ¬ (Query.db st).reads := by
    cases st with
    | getUser => cases on
    | _ => exact id
  obtain ⟨u, authenticated⟩ := authenticated_of_asks call asks writes
  have same := (read_user names run acts.mem authenticated.user).1
  have same' := (read_user names run acts.mem authenticated'.user).1
  exact ⟨removes, path, body, signsBody, u, call, authenticated, same.trans same'.symm⟩

/-- **Only its parties read or remove a mail**, on the Go server. -/
theorem onlyParties (s : Server) (ok : State s → Lib.Label (service s) → Prop) (clock : Time)
    (db : Db) (names : Named db) : (mailRegistry s).OnlyParties ok (State.start s clock db) := by
  refine .of_acts ?_ ?_ fun w d w' moved => congrArg Db.mail (drift_clock moved).2.2
  · intro c run t mem reply returned row shows
    have left := run.guarded (handler_shows s) t mem
    rw [returned] at left
    have party : ∀ m : Mail, ∀ username, (m.sender = username ∨ m.recipient = username) →
        row.mail.sender = m.sender → row.mail.recipient = m.recipient → row.party username := by
      intro m username own sender recipient
      unfold MailRow.party
      rw [sender, recipient]
      exact own
    rcases left with none_ | ⟨username, acts, read⟩
    · rcases shows with rfl | ⟨list, rfl, -⟩
      · cases none_
      · cases none_
    refine ⟨username, ?_, acts⟩
    rcases read with ⟨sent, ms, has, rfl⟩ | ⟨id, m, has, rfl⟩
    · rcases shows with same | ⟨list, same, mem'⟩
      · cases same
      cases same
      obtain ⟨m, mem'', same⟩ := List.mem_map.mp mem'
      obtain ⟨c', o, w, -, served⟩ := run.served t mem _ has
      rcases served_db (served_of_serve served) with ⟨answer, -⟩ | ⟨answer, -⟩
      · obtain rfl := Except.ok.inj answer
        exact party m username (party_of_listMail mem'') (congrArg MailJSON.sender same).symm
          (congrArg MailJSON.recipient same).symm
      · cases answer
    · rcases shows with same | ⟨list, same, -⟩
      · have same := Reply.mail.inj same
        obtain ⟨c', o, w, -, served⟩ := run.served t mem _ has
        rcases served_db (served_of_serve served) with ⟨answer, -⟩ | ⟨answer, -⟩
        · exact party m username (party_of_getMail answer.symm) (congrArg MailJSON.sender same).symm
            (congrArg MailJSON.recipient same).symm
        · cases answer
      · cases same
  · intro c i o t q k a w run _ acts row here gone
    have here : row ∈ c.shared.db.mail := here
    have gone : row ∉ w.db.mail := gone
    rcases served_dbState (served_of_serve acts.served) with same | ⟨st, rfl, same⟩
    · exact absurd (same ▸ here) gone
    · obtain ⟨username, on, party⟩ := party_of_removed here (same ▸ gone)
      obtain ⟨removes, route⟩ := actsOnRoute_of_acts names run acts on
      exact ⟨removes, username, party, route⟩

/-- A request acts as a user of this instance, never as a remote address. -/
theorem at_notMem_of_actsAs (names : Named db) (run : Lib.Run ok (State.start s clock db) c)
    {t : Lib.Thread (service s)} (mem : t ∈ c.threads) {username : Bytes}
    (acts : (mailRegistry s).ActsAs t username) : (64 : UInt8) ∉ username := by
  obtain ⟨path, body, signsBody, u, -, authenticated, rfl⟩ := acts
  obtain ⟨same, valid⟩ := read_user names run mem authenticated.user
  rw [same]
  exact Protocol.at_notMem_of_validUsername valid

end

end Shyake.Go
