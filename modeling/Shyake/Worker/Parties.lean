import Shyake.Lib.Registry
import Shyake.Worker.Sender
import Shyake.Go.Api.Parties

/-!
# Who reads and removes mail on the Worker

Reading and removing all the mail of a user name the user in the statement. A burn
checks the party with one statement and removes the row with another, by its id alone:
what has become of the id in between is not checked.
-/

namespace Shyake.Worker

open Lib.Prog

/-! ## Acting as a user -/

/-- What the signature of a request is over, for the routes that check one in the headers. -/
def Request.signedMessage (r : Request) : Option Bytes :=
  let signed (method path : String) : Bytes :=
    Bytes.join 58 [utf8 method, utf8 path, r.username, r.timestamp,
      Go.hexEncode (Lib.sha256 r.body)]
  match r.route with
  | .register | .sendMail | .pubkey _ => none
  | .block => some (signed "POST" "/api/block")
  | .unblock => some (signed "DELETE" "/api/block")
  | .rotate => some (signed "POST" "/api/rotate")
  | .listMail typ => some (headerMessage r (utf8 "GET")
      (utf8 "/api/mail?type=" ++ if typ = [] then utf8 "inbox" else typ))
  | .getMail id => some (headerMessage r (utf8 "GET") (utf8 "/api/mail/" ++ id))
  | .burnMail id => some (headerMessage r (utf8 "DELETE") (utf8 "/api/mail/" ++ id))
  | .listBlocks => some (headerMessage r (utf8 "GET") (utf8 "/api/block"))
  | .destroy => some (headerMessage r (utf8 "DELETE") (utf8 "/api/destroy"))

/-- A request that `headerAuth` has let pass. -/
structure Authenticated (e : Env) (r : Request) (message : Bytes) (l : Log) : Prop where
  pow : ∃ now, (⟨.now, now⟩ : Lib.Event Effects) ∈ l ∧ verifyPoW r.pow r.username now = true
  inWindow : ∃ now, (⟨.now, now⟩ : Lib.Event Effects) ∈ l ∧ inWindow r.timestamp now = true
  signed : ∃ kem sig, (⟨.db (.keys r.username), some (some (kem, sig))⟩ : Lib.Event Effects) ∈ l ∧
    ∃ destroyed, checkSigned e r message destroyed sig = .ok ()

theorem Authenticated.mono {e : Env} {r : Request} {message : Bytes} {l l' : Log}
    (h : Authenticated e r message l) (pre : l <+: l') : Authenticated e r message l' where
  pow := h.pow.imp fun _ read => ⟨pre.subset read.1, read.2⟩
  inWindow := h.inWindow.imp fun _ read => ⟨pre.subset read.1, read.2⟩
  signed := by
    obtain ⟨kem, sig, mem, checked⟩ := h.signed
    exact ⟨kem, sig, pre.subset mem, checked⟩

/-- The request has been authenticated as that user, over the message of its route. -/
def ActsOnRoute (e : Env) (r : Request) (l : Log) (username : Bytes) : Prop :=
  r.username = username ∧ ∃ message, r.signedMessage = some message ∧ Authenticated e r message l

/-- A request that is meant to remove mail. -/
def Route.removesMail : Route → Bool
  | .burnMail _ | .rotate | .destroy => true
  | _ => false

/-- What must be in the log before mail is removed. -/
def Removing (e : Env) (r : Request) (l : Log) : Query → Prop
  | .db (.deleteMail username) => r.route.removesMail = true ∧ ActsOnRoute e r l username
  | .db (.burnMail _) => r.route.removesMail = true ∧ ActsOnRoute e r l r.username
  | _ => True

/-- A reply with no mail in it. -/
def Reply.ShowsNone : Reply → Prop
  | .mail _ | .mails _ => False
  | _ => True

/-- Mail that a statement has read from the mailbox of the user that the request acts as. -/
def ShowsOwn (e : Env) (r : Request) (l : Log) (reply : Reply) : Prop :=
  ActsOnRoute e r l r.username ∧
    ((∃ sent rows, (⟨.db (.listMail r.username sent), some rows⟩ : Lib.Event Effects) ∈ l ∧
        reply = .mails (rows.map fun m => ⟨m, some (sigHash e m)⟩)) ∨
      ∃ id m, (⟨.db (.getMail id r.username), some (some m)⟩ : Lib.Event Effects) ∈ l ∧
        reply = .mail ⟨m, none⟩)

/-- An error is a reply without mail. -/
def OnlyRefuses {α : Type} : Except Reply α → Prop
  | .error reply => reply.ShowsNone
  | .ok _ => True

section

variable {e : Env} {r : Request} {l : Log}

theorem checkSigned_refuses {message : Bytes} {destroyed : Option Bytes} {sig : Bytes}
    {reply : Reply} (refused : checkSigned e r message destroyed sig = .error reply) :
    reply.ShowsNone := by
  unfold checkSigned at refused
  split at refused
  · cases refused
    trivial
  dsimp only at refused
  split at refused
  · cases refused
    trivial
  · cases refused
    trivial
  · cases refused

/-- `headerAuth` refuses, or the user is authenticated. -/
theorem headerAuth_passes (message : Bytes) (destroyed : Option Bytes) :
    (headerAuth e r message destroyed).Meets (I := Effects) (Removing e r)
      (fun l' res => match res with
        | .error reply => reply.ShowsNone
        | .ok _ => Authenticated e r message l') l := by
  unfold headerAuth
  split
  · trivial
  refine (meets_ask_bind _ _).mpr ⟨trivial, fun now => ?_⟩
  split
  · trivial
  rename_i work
  refine (meets_ask_bind _ _).mpr ⟨trivial, fun later => ?_⟩
  split
  · trivial
  rename_i inTime
  refine (meets_ask_bind _ _).mpr ⟨trivial, fun user => ?_⟩
  match user with
  | none => trivial
  | some none => trivial
  | some (some (kem, sig)) =>
    dsimp only [pure_eq]
    rw [meets_ret]
    cases checked : checkSigned e r message destroyed sig with
    | error reply => exact checkSigned_refuses checked
    | ok _ =>
      exact
        { pow := ⟨now, by simp, by simpa using work⟩,
          inWindow := ⟨later, by simp, by simpa using inTime⟩,
          signed := ⟨kem, sig, by simp, destroyed, checked⟩ }

/-- `auth` does the same over the hash of the body. -/
theorem auth_passes (method path : Bytes) (destroyed : Option Bytes) :
    (auth e r method path destroyed).Meets (I := Effects) (Removing e r)
      (fun l' res => match res with
        | .error reply => reply.ShowsNone
        | .ok _ => Authenticated e r (Bytes.join 58 [method, path, r.username, r.timestamp,
            Go.hexEncode (Lib.sha256 r.body)]) l') l := by
  unfold auth
  split
  · trivial
  · exact headerAuth_passes _ _

/-! ## Handlers without mail -/

/-- A handler that removes no mail and has none in its reply. -/
def NoMail (e : Env) (r : Request) (p : Handler Reply) : Prop :=
  ∀ l, p.Meets (I := Effects) (Removing e r) (fun _ reply => reply.ShowsNone) l

theorem NoMail.ask {q : Query} {f : Answer q → Handler Reply} (free : ∀ l, Removing e r l q)
    (next : ∀ a, NoMail e r (f a)) : NoMail e r (ask q >>= f) :=
  fun l => (meets_ask_bind q f).mpr ⟨free l, fun a => next a _⟩

/-- What is refused is refused with an error. -/
theorem NoMail.refused {α : Type} {p : Handler (Except Reply α)} {f : Except Reply α → Handler Reply}
    (only : ∀ l, p.Meets (I := Effects) (Removing e r) (fun _ res => OnlyRefuses res) l)
    (refuses : ∀ reply, f (.error reply) = .ret reply) (passed : ∀ a, NoMail e r (f (.ok a))) :
    NoMail e r (p >>= f) := by
  intro l
  refine (only l).bind fun l' res _ result => ?_
  cases res with
  | error reply =>
    rw [refuses]
    exact result
  | ok a => exact passed a l'

theorem headerAuth_onlyRefuses (message : Bytes) (destroyed : Option Bytes) (l : Log) :
    (headerAuth e r message destroyed).Meets (I := Effects) (Removing e r)
      (fun _ res => OnlyRefuses res) l := by
  refine (headerAuth_passes message destroyed).mono (fun _ _ _ guard => guard) fun l' res _ result => ?_
  cases res with
  | error reply => exact result
  | ok _ => trivial

theorem auth_onlyRefuses (method path : Bytes) (destroyed : Option Bytes) (l : Log) :
    (auth e r method path destroyed).Meets (I := Effects) (Removing e r)
      (fun _ res => OnlyRefuses res) l := by
  unfold auth
  split
  · trivial
  · exact headerAuth_onlyRefuses _ _ l

theorem removing_of_looksUp {q : Query} (h : q.looksUp) : Removing e r l q := by
  unfold Query.looksUp at h
  split at h
  · trivial
  · trivial
  · trivial
  · exact h.elim

theorem getPubkeyForUser_meets (userString : Bytes) :
    (getPubkeyForUser e userString).Meets (I := Effects) (Removing e r) (fun _ _ => True) l :=
  (getPubkeyForUser_looksUp userString).meets fun _ _ => removing_of_looksUp

theorem checkSignature_refuses {rawBody : Bytes} {signature sigPubkey : Field} {reply : Reply}
    (refused : checkSignature e rawBody signature sigPubkey = .error reply) : reply.ShowsNone := by
  unfold checkSignature at refused
  split at refused
  · cases refused
    trivial
  · cases refused
    trivial
  dsimp only at refused
  split at refused
  · cases refused
    trivial
  · cases refused
    trivial
  · cases refused

theorem checkMail_onlyRefuses (rawBody : Bytes) (m : MailBody) (l : Log) :
    (checkMail e rawBody m).Meets (I := Effects) (Removing e r) (fun _ res => OnlyRefuses res) l := by
  unfold checkMail
  refine (meets_ask_bind _ _).mpr ⟨trivial, fun now => ?_⟩
  split
  · split
    · trivial
    refine (meets_ask_bind _ _).mpr ⟨trivial, fun now => ?_⟩
    split
    · trivial
    refine (getPubkeyForUser_meets _).bind fun l₁ senderUser _ _ => ?_
    split
    · trivial
    · trivial
    split
    · refine (getPubkeyForUser_meets _).bind fun l₂ recipientUser _ _ => ?_
      split
      · trivial
      · trivial
      split
      · trivial
      · trivial
      split
      · trivial
      split
      · trivial
      split
      · rename_i reply refused
        exact checkSignature_refuses refused
      · trivial
    · trivial
  · trivial

theorem takesReplies_onlyRefuses (domain : Bytes) (isReply : Bool) (l : Log) :
    (takesReplies e domain isReply).Meets (I := Effects) (Removing e r)
      (fun _ res => OnlyRefuses res) l := by
  unfold takesReplies
  split
  · trivial
  refine Meets.bind (Q := fun _ _ => True) ?_ fun l₁ level _ _ => ?_
  · unfold remoteLevel
    refine (meets_ask_bind _ _).mpr ⟨trivial, fun answer => ?_⟩
    split
    · trivial
    split
    · trivial
    split
    · trivial
    split <;> trivial
  · split
    · trivial
    split <;> trivial

theorem relayMail_refuses (domain rawBody : Bytes) (l : Log) :
    (relayMail e domain rawBody).Meets (I := Effects) (Removing e r)
      (fun _ res => ∀ reply, res = some reply → reply.ShowsNone) l := by
  unfold relayMail
  refine (meets_ask_bind _ _).mpr ⟨trivial, fun answer => ?_⟩
  have failed : ∀ {status : Nat} {text : Bytes} (reply : Reply),
      some (.fail status text) = some reply → reply.ShowsNone := by
    rintro status text reply same
    cases same
    trivial
  match answer with
  | none => exact failed
  | some (status, body) =>
    dsimp only
    split
    · exact nofun
    split
    · exact failed
    · exact failed

theorem relay_onlyRefuses (rawBody recipient : Bytes) (isReply : Bool) (l : Log) :
    (relay e rawBody recipient isReply).Meets (I := Effects) (Removing e r)
      (fun _ res => OnlyRefuses res) l := by
  unfold relay
  dsimp only
  split
  · trivial
  refine (takesReplies_onlyRefuses _ isReply l).bind fun l₁ res _ result => ?_
  cases res with
  | error reply => exact result
  | ok _ =>
    refine (relayMail_refuses _ _ l₁).bind fun l₂ refused _ result => ?_
    cases refused with
    | none => trivial
    | some reply => exact result reply rfl

theorem noMail_register : NoMail e r (register e r) := by
  unfold register
  split
  · exact fun _ => trivial
  split
  · exact fun _ => trivial
  split
  · exact fun _ => trivial
  split
  · split
    · exact fun _ => trivial
    refine .ask (fun _ => trivial) fun now => ?_
    split
    · exact fun _ => trivial
    refine .ask (fun _ => trivial) fun now => ?_
    split
    · exact fun _ => trivial
    split
    · exact fun _ => trivial
    · exact fun _ => trivial
    refine .ask (fun _ => trivial) fun done => ?_
    split <;> exact fun _ => trivial
  · exact fun _ => trivial

theorem parseMail_refuses {rawBody : Bytes} {reply : Reply}
    (refused : parseMail e rawBody = .error reply) : reply.ShowsNone := by
  unfold parseMail at refused
  split at refused
  · cases refused
    trivial
  split at refused
  · cases refused
    trivial
  split at refused
  · cases refused
    trivial
  split at refused
  · cases refused
  · cases refused
  · cases refused
    trivial

theorem noMail_storeMail (rawBody : Bytes) (isReply : Bool) (sender recipient : Bytes) (ts : Nat) :
    NoMail e r (storeMail e rawBody isReply sender recipient ts) := by
  unfold storeMail
  refine .ask (fun _ => trivial) fun blocked => ?_
  split
  · exact fun _ => trivial
  · exact fun _ => trivial
  refine .ask (fun _ => trivial) fun indexes => ?_
  refine .refused (relay_onlyRefuses _ _ _) (fun _ => rfl) fun _ => ?_
  refine .ask (fun _ => trivial) fun done => ?_
  split <;> exact fun _ => trivial

theorem noMail_sendMail : NoMail e r (sendMail e r) := by
  unfold sendMail
  split
  · rename_i reply refused
    exact fun _ => parseMail_refuses refused
  · exact .refused (checkMail_onlyRefuses _ _) (fun _ => rfl) fun (sender, recipient, ts) =>
      noMail_storeMail _ _ _ _ _

theorem noMail_localPubkey (username : Bytes) : NoMail e r (localPubkey username) := by
  refine .ask (fun _ => trivial) fun user => ?_
  split <;> exact fun _ => trivial

theorem noMail_pubkey (username : Bytes) : NoMail e r (pubkey e username) := by
  unfold pubkey
  split
  · dsimp only
    split
    · exact noMail_localPubkey _
    split
    · exact fun _ => trivial
    refine .ask (fun _ => trivial) fun answer => ?_
    split
    · exact fun _ => trivial
    split
    · exact fun _ => trivial
    split <;> exact fun _ => trivial
  · exact noMail_localPubkey _

theorem noMail_handleBlock (unblock : Bool) : NoMail e r (handleBlock e r unblock) := by
  unfold handleBlock
  refine .refused (auth_onlyRefuses _ _ _) (fun _ => rfl) fun _ => ?_
  dsimp only
  split
  · exact fun _ => trivial
  · exact fun _ => trivial
  · exact fun _ => trivial
  split
  · refine .ask (fun _ => trivial) fun done => ?_
    split <;> exact fun _ => trivial
  · refine .ask (fun _ => trivial) fun now => ?_
    refine .ask (fun _ => trivial) fun done => ?_
    split <;> exact fun _ => trivial

theorem noMail_listBlocks : NoMail e r (listBlocks e r) := by
  unfold listBlocks
  refine .refused (headerAuth_onlyRefuses _ _) (fun _ => rfl) fun _ => ?_
  refine .ask (fun _ => trivial) fun rows => ?_
  split <;> exact fun _ => trivial

/-! ## Handlers of a mailbox -/

/-- A handler that authenticates first, over the message of its route. -/
theorem shows_signed {message : Bytes} {destroyed : Option Bytes}
    {f : Except Reply Unit → Handler Reply} (known : r.signedMessage = some message)
    (refuses : ∀ reply, f (.error reply) = .ret reply)
    (passed : ∀ l, ActsOnRoute e r l r.username → (f (.ok ())).Meets (I := Effects) (Removing e r)
      (fun l reply => reply.ShowsNone ∨ ShowsOwn e r l reply) l) :
    (headerAuth e r message destroyed >>= f).Meets (I := Effects) (Removing e r)
      (fun l reply => reply.ShowsNone ∨ ShowsOwn e r l reply) l := by
  refine (headerAuth_passes _ _).bind fun l₁ res _ result => ?_
  cases res with
  | error reply =>
    rw [refuses]
    exact .inl result
  | ok _ => exact passed l₁ ⟨rfl, message, known, result⟩

theorem ActsOnRoute.mono {username : Bytes} {l l' : Log} (h : ActsOnRoute e r l username)
    (pre : l <+: l') : ActsOnRoute e r l' username := by
  obtain ⟨same, message, known, authenticated⟩ := h
  exact ⟨same, message, known, authenticated.mono pre⟩

theorem shows_listMail (typ : Bytes) (route : r.route = .listMail typ) :
    (listMail e r typ).Meets (I := Effects) (Removing e r)
      (fun l reply => reply.ShowsNone ∨ ShowsOwn e r l reply) l := by
  unfold listMail
  refine shows_signed (by unfold Request.signedMessage; rw [route]) (fun _ => rfl) fun l acts => ?_
  refine (meets_ask_bind _ _).mpr ⟨trivial, fun answer => ?_⟩
  cases answer with
  | none => exact .inl trivial
  | some rows =>
    exact .inr ⟨acts.mono (List.prefix_append _ _), .inl ⟨_, rows, by simp, rfl⟩⟩

theorem shows_getMail (id : Bytes) (route : r.route = .getMail id) :
    (getMail e r id).Meets (I := Effects) (Removing e r)
      (fun l reply => reply.ShowsNone ∨ ShowsOwn e r l reply) l := by
  unfold getMail
  refine shows_signed (by unfold Request.signedMessage; rw [route]) (fun _ => rfl) fun l acts => ?_
  refine (meets_ask_bind _ _).mpr ⟨trivial, fun answer => ?_⟩
  match answer with
  | none => exact .inl trivial
  | some none => exact .inl trivial
  | some (some m) =>
    exact .inr ⟨acts.mono (List.prefix_append _ _), .inr ⟨id, m, by simp, rfl⟩⟩

theorem shows_burnMail (id : Bytes) (route : r.route = .burnMail id) :
    (burnMail e r id).Meets (I := Effects) (Removing e r)
      (fun l reply => reply.ShowsNone ∨ ShowsOwn e r l reply) l := by
  unfold burnMail
  refine shows_signed (by unfold Request.signedMessage; rw [route]) (fun _ => rfl) fun l acts => ?_
  refine (meets_ask_bind _ _).mpr ⟨trivial, fun answer => ?_⟩
  match answer with
  | none => exact .inl trivial
  | some false => exact .inl trivial
  | some true =>
    refine (meets_ask_bind _ _).mpr
      ⟨⟨by rw [route]; rfl, acts.mono (List.prefix_append _ _)⟩, fun done => ?_⟩
    cases done with
    | none => exact .inl trivial
    | some _ => exact .inl trivial

theorem shows_destroy (route : r.route = .destroy) :
    (destroy e r).Meets (I := Effects) (Removing e r)
      (fun l reply => reply.ShowsNone ∨ ShowsOwn e r l reply) l := by
  unfold destroy
  refine shows_signed (by unfold Request.signedMessage; rw [route]) (fun _ => rfl) fun l acts => ?_
  refine (meets_ask_bind _ _).mpr ⟨trivial, fun updated => ?_⟩
  cases updated with
  | none => exact .inl trivial
  | some _ =>
    refine (meets_ask_bind _ _).mpr
      ⟨⟨by rw [route]; rfl, acts.mono (List.prefix_append _ _)⟩, fun deleted => ?_⟩
    cases deleted with
    | none => exact .inl trivial
    | some _ =>
      refine (meets_ask_bind _ _).mpr ⟨trivial, fun done => ?_⟩
      cases done with
      | none => exact .inl trivial
      | some _ => exact .inl trivial

theorem shows_rotate (route : r.route = .rotate) :
    (rotate e r).Meets (I := Effects) (Removing e r)
      (fun l reply => reply.ShowsNone ∨ ShowsOwn e r l reply) l := by
  unfold rotate
  refine (auth_passes _ _ _).bind fun l₁ res _ result => ?_
  cases res with
  | error reply => exact .inl result
  | ok _ =>
    have acts : ActsOnRoute e r l₁ r.username :=
      ⟨rfl, _, by unfold Request.signedMessage; rw [route], result⟩
    dsimp only
    split
    · exact .inl trivial
    split
    · exact .inl trivial
    split
    · refine (meets_ask_bind _ _).mpr ⟨trivial, fun updated => ?_⟩
      cases updated with
      | none => exact .inl trivial
      | some _ =>
        refine (meets_ask_bind _ _).mpr
          ⟨⟨by rw [route]; rfl, acts.mono (List.prefix_append _ _)⟩, fun deleted => ?_⟩
        cases deleted with
        | none => exact .inl trivial
        | some _ => exact .inl trivial
    · exact .inl trivial

/-- **A reply shows only the user's own mail**, and every statement that removes mail comes after
the authentication. -/
theorem handler_shows (e : Env) (r : Request) :
    (handler e r).Meets (I := Effects) (Removing e r)
      (fun l reply => reply.ShowsNone ∨ ShowsOwn e r l reply) [] := by
  have none_ : ∀ {p : Handler Reply}, NoMail e r p → p.Meets (I := Effects) (Removing e r)
      (fun l reply => reply.ShowsNone ∨ ShowsOwn e r l reply) [] :=
    fun h => (h []).mono (fun _ _ _ guard => guard) fun _ _ _ shows => .inl shows
  unfold handler
  cases route : r.route with
  | register => exact none_ noMail_register
  | sendMail => exact none_ noMail_sendMail
  | block => exact none_ (noMail_handleBlock _)
  | unblock => exact none_ (noMail_handleBlock _)
  | rotate => exact shows_rotate route
  | pubkey username => exact none_ (noMail_pubkey _)
  | listMail typ => exact shows_listMail typ route
  | getMail id => exact shows_getMail id route
  | burnMail id => exact shows_burnMail id route
  | listBlocks => exact none_ noMail_listBlocks
  | destroy => exact shows_destroy route

end

/-! ## The registry of mail -/

/-- The users whose mailboxes a mail is in. -/
def Mail.party (m : Mail) (username : Bytes) : Prop := m.sender = username ∨ m.recipient = username

/-- What a reply holds of a mail: all of it, or what a listing shows. -/
def Reply.Shows (reply : Reply) (m : Mail) : Prop :=
  reply = .mail ⟨m, none⟩ ∨ ∃ list hash, reply = .mails list ∧ ⟨m, some hash⟩ ∈ list

/-- The mail of the Worker. -/
def mailRegistry (e : Env) : Lib.Registry (service e) Bytes where
  Record := Mail
  records w := w.db.mail
  Party := Mail.party
  ActsAs t username := ActsOnRoute e t.req t.log username
  Removes r := r.route.removesMail = true
  Shows := Reply.Shows

theorem party_iff {m : Mail} {username : Bytes} : m.party username ↔ Db.names username m = true := by
  unfold Mail.party Db.names
  simp

theorem party_of_listMail {db : Db} {username : Bytes} {sent : Bool} {m : Mail}
    (mem : m ∈ db.listMail username sent) : m.party username := by
  unfold Db.listMail at mem
  simp only [List.mem_mergeSort, List.mem_filter] at mem
  obtain ⟨-, box⟩ := mem
  cases sent with
  | true =>
    left
    simpa using box
  | false =>
    right
    simpa using box

theorem party_of_getMail {db : Db} {id username : Bytes} {m : Mail}
    (found : db.getMail id username = some m) : m.party username := by
  have named := List.find?_some found
  simp only [Bool.and_eq_true] at named
  exact party_iff.mpr named.2

/-- The two statements that remove mail: one by the parties, one by the id alone. -/
theorem removed_cases {db : Db} {st : Stmt} {m : Mail} (here : m ∈ db.mail)
    (gone : m ∉ (db.exec st).2.mail) :
    (∃ username, st = .deleteMail username ∧ m.party username) ∨ st = .burnMail m.id := by
  have others : ∀ {p : Mail → Bool} {rows : List Mail}, rows = db.mail.filter (fun m => !p m) →
      m ∉ rows → p m = true := by
    rintro p rows rfl out
    by_contra no
    exact out (List.mem_filter.mpr ⟨here, by simpa using no⟩)
  cases st with
  | deleteMail username => exact .inl ⟨username, rfl, party_iff.mpr (others rfl gone)⟩
  | burnMail id =>
    have same : (m.id == id) = true := others (p := fun m => m.id == id) rfl gone
    exact .inr (by rw [beq_iff_eq.mp same])
  | createUser u =>
    unfold Db.exec at gone
    dsimp only at gone
    split at gone
    · exact absurd here gone
    · exact absurd here gone
  | insertMail n =>
    unfold Db.exec at gone
    dsimp only at gone
    split at gone
    · exact absurd here gone
    · exact absurd (List.mem_append_left _ here) gone
  | _ => exact absurd here gone

/-- Only a statement touches the database. -/
theorem serve_db {w w' : World} {q : Query} {o : Oracle} {a : Answer q}
    (h : serve w q o = some (a, w')) :
    w'.db = w.db ∨ ∃ st, q = .db st ∧ w'.db = (w.db.exec st).2 := by
  cases q with
  | db st =>
    rcases serve_db_cases h with ⟨-, rfl⟩ | ⟨-, rfl⟩
    · exact .inr ⟨st, rfl, rfl⟩
    · exact .inl rfl
  | now =>
    cases o with
    | ok =>
      cases h
      exact .inl rfl
    | _ => cases h
  | random =>
    cases o with
    | random indexes =>
      simp only [serve, Option.ite_none_right_eq_some, Option.some.injEq, Prod.mk.injEq] at h
      obtain ⟨-, -, rfl⟩ := h
      exact .inl rfl
    | _ => cases h
  | get url =>
    cases o with
    | http answer =>
      cases h
      exact .inl rfl
    | _ => cases h
  | post url body =>
    cases o with
    | http answer =>
      cases h
      exact .inl rfl
    | _ => cases h

/-- A burn that is about to remove the mail of an id removes mail of its own user. -/
def BurnsOwn {e : Env} (c : Lib.Config (service e)) (lab : Lib.Label (service e)) : Prop :=
  ∀ (r : Request) (id : Bytes), c.pending lab = some (r, .db (.burnMail id)) →
    ∀ m ∈ c.shared.db.mail, m.id = id → Db.names r.username m = true

section

variable {e : Env} {ok : Lib.Config (service e) → Lib.Label (service e) → Prop}
  {c : Lib.Config (service e)} {clock : Nat} {db : Db}

/-- **Only its parties read or remove a mail**, on the Worker, as long as every burn still finds
mail of its user under the id. -/
theorem onlyParties (e : Env) (clock : Nat) (db : Db) :
    (mailRegistry e).OnlyParties BurnsOwn (Lib.Config.init (S := service e) ⟨clock, db⟩) := by
  refine .of_acts ?_ ?_ ?_
  · intro c run t mem reply returned m shows
    have left := run.guarded (handler_shows e) t mem
    rw [returned] at left
    rcases left with none_ | ⟨acts, read⟩
    · rcases shows with rfl | ⟨list, hash, rfl, -⟩
      · cases none_
      · cases none_
    refine ⟨t.req.username, ?_, acts⟩
    rcases read with ⟨sent, rows, has, rfl⟩ | ⟨id, n, has, rfl⟩
    · rcases shows with same | ⟨list, hash, same, mem'⟩
      · cases same
      cases same
      obtain ⟨n, mem'', same⟩ := List.mem_map.mp mem'
      obtain rfl : n = m := congrArg MailJSON.row same
      obtain ⟨c', o, w, -, served⟩ := run.served t mem _ has
      rcases serve_db_cases served with ⟨answer, -⟩ | ⟨answer, -⟩
      · obtain rfl := Option.some.inj answer
        exact party_of_listMail mem''
      · cases answer
    · rcases shows with same | ⟨list, hash, same, -⟩
      · obtain rfl : n = m := congrArg MailJSON.row (Reply.mail.inj same)
        obtain ⟨c', o, w, -, served⟩ := run.served t mem _ has
        rcases serve_db_cases served with ⟨answer, -⟩ | ⟨answer, -⟩
        · exact party_of_getMail (Option.some.inj answer).symm
        · cases answer
      · cases same
  · intro c i o t q k a w run cond acts m here gone
    have here : m ∈ c.shared.db.mail := here
    have gone : m ∉ w.db.mail := gone
    have guard := run.guarded (handler_shows e) t acts.mem
    rw [acts.rest] at guard
    rcases serve_db acts.served with same | ⟨st, rfl, same⟩
    · exact absurd (same ▸ here) gone
    rcases removed_cases here (same ▸ gone) with ⟨username, rfl, party⟩ | rfl
    · obtain ⟨removes, route⟩ := guard.1
      exact ⟨removes, username, party, route⟩
    · obtain ⟨removes, route⟩ := guard.1
      exact ⟨removes, t.req.username, party_iff.mpr (cond t.req m.id acts.pending m here rfl), route⟩
  · intro w clock w' moved
    have moved : drift w clock = some w' := moved
    unfold drift at moved
    split at moved
    · cases moved
      rfl
    · cases moved

/-- A request acts as a user of this instance, never as a remote address. -/
theorem at_notMem_of_actsAs (run : Lib.Run ok (Lib.Config.init (S := service e) ⟨clock, db⟩) c)
    {t : Lib.Thread (service e)} (mem : t ∈ c.threads) {username : Bytes}
    (acts : (mailRegistry e).ActsAs t username) : (64 : UInt8) ∉ username := by
  obtain ⟨rfl, message, -, authenticated⟩ := acts
  obtain ⟨kem, sig, read, -⟩ := authenticated.signed
  exact notMem_of_valid (valid_of_keys run mem read) (by decide)

end

/-! ## A burn that comes late

The same burn of carol arrives twice. Both requests find her mail, the second one removes
it, and a mail of alice for bobby is stored under the same id. Then the first one goes on.
-/

section

variable {e : Env} {r : Request}

/-- What the checks of a signed request ask, when they pass. -/
def authLog (now : Nat) (username kem sig : Bytes) : Log :=
  [⟨.now, now⟩, ⟨.now, now⟩, ⟨.db (.keys username), some (some (kem, sig))⟩]

theorem headerAuth_resumes {message kem sig : Bytes} {destroyed : Option Bytes} {now : Nat}
    (present : r.username ≠ [] ∧ r.timestamp ≠ [] ∧ r.signature ≠ [] ∧ r.pow ≠ [])
    (work : verifyPoW r.pow r.username now = true) (within : inWindow r.timestamp now = true)
    (signed : checkSigned e r message destroyed sig = .ok ()) :
    (headerAuth e r message destroyed).Resumes (authLog now r.username kem sig)
      (.ret (.ok ())) := by
  have all : ¬ (r.username = [] ∨ r.timestamp = [] ∨ r.signature = [] ∨ r.pow = []) := by
    obtain ⟨h₁, h₂, h₃, h₄⟩ := present
    rintro (h | h | h | h)
    · exact h₁ h
    · exact h₂ h
    · exact h₃ h
    · exact h₄ h
  unfold headerAuth authLog
  rw [if_neg all]
  refine resumes_ask .now now ?_
  simp only [work, Bool.not_true, Bool.false_eq_true, if_false]
  refine resumes_ask .now now ?_
  simp only [within, Bool.not_true, Bool.false_eq_true, if_false]
  refine resumes_ask (.db (.keys _)) (some (some (kem, sig))) ?_
  simp only [signed]
  exact .start

/-- A burn that has found the mail goes on to remove it. -/
theorem burnMail_resumes {id : Bytes} {l : Log}
    (auth : (headerAuth e r (headerMessage r (utf8 "DELETE") (utf8 "/api/mail/" ++ id)) none).Resumes l
      (.ret (.ok ()))) :
    ∃ k : Option Unit → Handler Reply, (burnMail e r id).Resumes (I := Effects)
      (l ++ [⟨.db (.hasMail id r.username), some true⟩]) (.ask (.db (.burnMail id)) k) := by
  apply Exists.intro
  unfold burnMail
  refine auth.bind.trans ?_
  refine resumes_ask (.db (.hasMail _ _)) (some true) ?_
  exact .start

/-- A mail for this instance that nobody blocks is stored. -/
theorem storeMail_resumes {rawBody sender recipient : Bytes} {isReply : Bool} {ts : Nat}
    (here : addressDomain e.lowering recipient e.instanceDomain =
      e.lowering.toLowerCase e.instanceDomain) (indexes : List Nat) :
    (storeMail e rawBody isReply sender recipient ts).Resumes (I := Effects)
      (storeLog e sender recipient indexes ++ [⟨.db (.insertMail
        ⟨indexes.map fun i => charset.getD i 0, normalizeAddress e.lowering sender e.instanceDomain,
          normalizeAddress e.lowering recipient e.instanceDomain, rawBody, ts⟩), some ()⟩])
      (.ret (.message 201 (utf8 "Mail sent") (indexes.map fun i => charset.getD i 0))) := by
  unfold storeMail storeLog
  refine resumes_ask (.db (.blocked _ _ _)) (some false) (resumes_ask .random indexes ?_)
  unfold relay
  dsimp only
  rw [if_pos here]
  exact resumes_ask (.db (.insertMail _)) (some ()) .start

/-- A statement succeeds. -/
theorem serves_exec {P : World → Prop} {w : World} (before : P w) (st : Stmt) {a : Option st.Result}
    {db : Db} (done : w.db.exec st = (a, db)) :
    Lib.Serves (S := service e) P w [⟨.db st, a⟩] { w with db := db } := by
  refine Lib.Serves.start.event .ok before ?_
  show some ((w.db.exec st).1, (⟨w.clock, (w.db.exec st).2⟩ : World)) = _
  rw [done]
  rfl

end

namespace Sample

open Go.Sample (kemPubkey sigPubkey signature)

def carol : User := ⟨utf8 "carol", kemPubkey 67, sigPubkey 67, 0, by decide⟩

/-- The id that the random source makes twice. -/
def drawn : Bytes := utf8 "1111111111"

def burn : Request :=
  ⟨.burnMail drawn, utf8 "carol", utf8 "1749513600", signature 67,
    utf8 "1:20:250610:carol::one:8a3c2", []⟩

def burnText : Bytes := utf8 "DELETE:/api/mail/1111111111:carol:1749513600"

/-- The instance knows the signature of the burn too. -/
def burning (m : Go.MailBody) : Env :=
  { env m with
    verifySignature := fun key message sig =>
      if message = burnText then
        some (key == toBase64Url (sigPubkey 67) && sig == toBase64Url (signature 67))
      else (env m).verifySignature key message sig }

def letter : Go.MailBody :=
  mail (utf8 "alice") (utf8 "bobby") (utf8 "1:20:250610:alice::one:6e7368")

/-- The mail that carol burns. -/
def toCarol : Mail := ⟨drawn, utf8 "alice", utf8 "carol", [], 1749513000⟩

/-- The mail that takes its id. -/
def toBobby : Mail := ⟨drawn, utf8 "alice", utf8 "bobby", (submit letter).body, 1749513600⟩

def holding (mails : List Mail) : World := ⟨1749513600000, ⟨[alice, bobby, carol], mails, []⟩⟩

theorem burn_signed (m : Go.MailBody) :
    checkSigned (burning m) burn (headerMessage burn (utf8 "DELETE") (utf8 "/api/mail/" ++ drawn))
      none (sigPubkey 67) = .ok () := by
  have text : headerMessage burn (utf8 "DELETE") (utf8 "/api/mail/" ++ drawn) = burnText := by
    decide
  have verified : (burning m).verifySignature (toBase64Url (sigPubkey 67)) burnText
      (toBase64Url burn.signature) = some true := by
    simp only [burning, burn, if_true, beq_self_eq_true, Bool.and_self]
  unfold checkSigned
  rw [text]
  simp only [Option.isSome_none, Bool.false_eq_true, and_false, if_false, verified]

theorem burn_resumes (m : Go.MailBody) :
    (headerAuth (burning m) burn (headerMessage burn (utf8 "DELETE") (utf8 "/api/mail/" ++ drawn))
      none).Resumes (authLog 1749513600000 (utf8 "carol") (kemPubkey 67) (sigPubkey 67))
      (.ret (.ok ())) := by
  refine headerAuth_resumes ⟨?_, ?_, ?_, ?_⟩ ?_ ?_ (burn_signed m)
  · decide
  · decide
  · exact Go.Sample.signature_ne_nil 67
  · decide
  · decide +kernel
  · decide +kernel

/-- The checks of a request of carol. -/
theorem serves_carol (e : Env) : Lib.Serves (S := service e) (fun _ => True) (holding [toCarol])
    (authLog 1749513600000 (utf8 "carol") (kemPubkey 67) (sigPubkey 67)) (holding [toCarol]) := by
  have found : ((holding [toCarol]).db.users.find? fun u => u.username == utf8 "carol") =
      some carol := by
    have first : (alice.username == utf8 "carol") = false := by decide
    have second : (bobby.username == utf8 "carol") = false := by decide
    have third : (carol.username == utf8 "carol") = true := by decide
    simp only [holding, List.find?_cons, first, second, third]
  exact ((serves_now (e := e) (w := holding [toCarol]) (P := fun _ => True) trivial).trans
    (serves_now trivial)).trans (serves_here trivial found)

/-- Both burns find the mail. -/
theorem serves_burn (m : Go.MailBody) : Lib.Serves (S := service (burning m)) (fun _ => True)
    (holding [toCarol])
    (authLog 1749513600000 (utf8 "carol") (kemPubkey 67) (sigPubkey 67) ++
      [⟨.db (.hasMail drawn (utf8 "carol")), some true⟩]) (holding [toCarol]) := by
  have here : (holding [toCarol]).db.exec (.hasMail drawn (utf8 "carol")) =
      (some true, (holding [toCarol]).db) := by
    have own : Db.getMail drawn (utf8 "carol") (holding [toCarol]).db = some toCarol := by decide
    show (some (Db.getMail _ _ _).isSome, _) = _
    rw [own]
    rfl
  exact (serves_carol (burning m)).trans (serves_exec trivial _ here)

/-- The signature of alice is checked as before. -/
theorem burning_signed (m : Go.MailBody) : checkSignature (burning m) (submit m).body
    (.text (signature 65)) (.text (sigPubkey 65)) = .ok () := by
  have other : signedText m ≠ burnText := by
    intro same
    have head := Go.Protocol.mailMessage_head m.sender m.recipient m.fingerprint
      (m.encSubject.getD []) m.encBody [] m.timestamp 4
    rw [show Go.Protocol.mailMessage _ _ _ _ _ _ _ _ = burnText from same] at head
    exact absurd head (by decide)
  have message : (burning m).signedMail (submit m).body = signedText m := by
    simp only [burning, env, submit, if_true]
  have verified : (burning m).verifySignature (toBase64Url (sigPubkey 65)) (signedText m)
      (toBase64Url (signature 65)) = some true := by
    simp only [burning, if_neg other, env, beq_self_eq_true, Bool.and_self]
  unfold checkSignature
  simp only [message, verified]

theorem burning_parse (m : Go.MailBody) (rawBody : Bytes) :
    parseMail (burning m) rawBody = parseMail (env m) rawBody := rfl

/-- The key lookups of alice and bobby. -/
def letterKeys (u : User) : Log := [⟨.db (.keys u.username), some (some (u.kemPubkey, u.sigPubkey))⟩]

theorem letter_deliverable : Deliverable (burning letter) (submit letter).body (read letter)
    (utf8 "alice") (utf8 "bobby") 1749513600000 (letterKeys alice) (letterKeys bobby) := by
  have ne : utf8 "alice" ≠ [] ∧ utf8 "bobby" ≠ [] ∧
      utf8 "1:20:250610:alice::one:6e7368" ≠ [] := ⟨by decide, by decide, by decide⟩
  have from_ := lookup_here (e := burning letter) (utf8 "alice") rfl
    ⟨Go.Sample.kemPubkey_ne_nil 65, Go.Sample.sigPubkey_ne_nil 65⟩
  have to_ := lookup_here (e := burning letter) (utf8 "bobby") rfl
    ⟨Go.Sample.kemPubkey_ne_nil 66, Go.Sample.sigPubkey_ne_nil 66⟩
  have plain : Deliverable (env letter) (submit letter).body (read letter) (utf8 "alice")
      (utf8 "bobby") 1749513600000 (letterKeys alice) (letterKeys bobby) :=
    deliverable ne (by decide +kernel) from_ to_
  have hash : fingerprintOf (env letter) (kemPubkey 66) = some (Go.fingerprint (kemPubkey 66)) :=
    atob_kemPubkey
  have fp : Go.fingerprint (kemPubkey 66) ≠ [] := by decide +kernel
  exact
    { from_ := plain.from_,
      to_ := plain.to_,
      pow := plain.pow,
      within := plain.within,
      keys := ⟨_, _, from_, to_, by
          have text : (read letter).signature = .text (signature 65) :=
            if_neg (Go.Sample.signature_ne_nil 65)
          rw [text]
          exact burning_signed letter,
        _, _, rfl, hash, if_neg fp⟩ }

def letterLog : Log := checkLog 1749513600000 (letterKeys alice) (letterKeys bobby) ++
  (storeLog (burning letter) (utf8 "alice") (utf8 "bobby") (List.replicate 10 0) ++
    [⟨.db (.insertMail toBobby), some ()⟩])

theorem letter_resumes : (handler (burning letter) (submit letter)).Resumes (I := Effects) letterLog
    (.ret (.message 201 (utf8 "Mail sent") drawn)) := by
  have ne : utf8 "alice" ≠ [] ∧ utf8 "bobby" ≠ [] ∧
      utf8 "1:20:250610:alice::one:6e7368" ≠ [] := ⟨by decide, by decide, by decide⟩
  have parsed : parseMail (burning letter) (submit letter).body = .ok (read letter, false) :=
    (burning_parse letter _).trans (parseMail_submit ne)
  exact (sendMail_resumes parsed letter_deliverable).trans
    (storeMail_resumes (by rfl) (List.replicate 10 0))

theorem serves_letter : Lib.Serves (S := service (burning letter)) (fun _ => True) (holding [])
    letterLog (holding [toBobby]) := by
  have now := serves_now (e := burning letter) (P := fun _ => True) (w := holding []) trivial
  have from_ : ((holding []).db.users.find? fun u => u.username == utf8 "alice") = some alice := by
    have first : (alice.username == utf8 "alice") = true := by decide
    simp only [holding, List.find?_cons, first]
  have to_ : ((holding []).db.users.find? fun u => u.username == utf8 "bobby") = some bobby := by
    have first : (alice.username == utf8 "bobby") = false := by decide
    have second : (bobby.username == utf8 "bobby") = true := by decide
    simp only [holding, List.find?_cons, first, second]
  have checked := (now.trans now).trans
    ((serves_here trivial from_).trans (serves_here trivial to_))
  have stored := serves_store (e := burning letter) (P := fun _ => True) (w := holding []) trivial
    rfl (utf8 "alice") (utf8 "bobby") (List.replicate 10 0) ⟨rfl, by decide⟩
  exact checked.trans (stored.trans (serves_exec trivial _ rfl))

/-- What a burn of carol has asked before its last statement. -/
def burnLog : Log :=
  authLog 1749513600000 (utf8 "carol") (kemPubkey 67) (sigPubkey 67) ++
    [⟨.db (.hasMail drawn (utf8 "carol")), some true⟩]

/-- The first burn waits until another mail has taken the id. -/
theorem run_late (m : Go.MailBody) (row : Mail) {r : Request} {l : Log} {p : Handler Reply}
    (handled : (handler (burning m) r).Resumes (I := Effects) l p)
    (stored : Lib.Serves (S := service (burning m)) (fun _ => True) (holding []) l (holding [row])) :
    ∃ k t₁ t₂, Lib.Run (fun _ _ => True)
      (Lib.Config.init (S := service (burning m)) (holding [toCarol]))
      ⟨holding [row], [⟨burn, burnLog, .ask (.db (.burnMail drawn)) k⟩, t₁, t₂]⟩ := by
  obtain ⟨k, resumes⟩ : ∃ k : Option Unit → Handler Reply, (handler (burning m) burn).Resumes
      (I := Effects) burnLog (.ask (.db (.burnMail drawn)) k) := burnMail_resumes (burn_resumes m)
  have free : ∀ reqs, Lib.Allows (S := service (burning m)) (fun _ _ => True) reqs
      (fun _ => True) := fun _ _ _ _ _ _ => trivial
  have served : Lib.Serves (S := service (burning m)) (fun _ => True) (holding [toCarol]) burnLog
      (holding [toCarol]) := serves_burn m
  have gone : (holding [toCarol]).db.exec (.burnMail drawn) = (some (), (holding []).db) := by
    have none_ : [toCarol].filter (fun m => m.id != drawn) = [] := by decide
    show (some (), (⟨_, [toCarol].filter (fun m => m.id != drawn), _⟩ : Db)) = _
    rw [none_]
    rfl
  have removed : Lib.Serves (S := service (burning m)) (fun _ => True) (holding [toCarol])
      (burnLog ++ [⟨.db (.burnMail drawn), some ()⟩]) (holding []) :=
    served.trans (serves_exec trivial (.burnMail drawn) gone)
  have deleted : (handler (burning m) burn).Resumes (I := Effects)
      (burnLog ++ [⟨.db (.burnMail drawn), some ()⟩]) (k (some ())) :=
    Resumes.snoc (I := Effects) (q := .db (.burnMail drawn)) (k := k) resumes (some ())
  have first := run_first served resumes
  have second := first.request burn (free _) trivial removed deleted
  exact ⟨k, _, _, second.request r (free _) trivial stored handled⟩

/-- **A late burn removes the mail of others.** -/
theorem late_burn : ∃ c lab c', Lib.Run (fun _ _ => True)
      (Lib.Config.init (S := service (burning letter)) (holding [toCarol])) c ∧
    c.step lab = some c' ∧ toBobby ∈ c.shared.db.mail ∧ toBobby ∉ c'.shared.db.mail ∧
    ∀ i o t, lab = .act i o → c.threads[i]? = some t →
      ¬ (mailRegistry (burning letter)).ByParty t toBobby := by
  obtain ⟨k, t₁, t₂, run⟩ := run_late letter toBobby letter_resumes serves_letter
  refine ⟨_, .act 0 .ok, _, run, rfl, List.mem_singleton_self toBobby, ?_, ?_⟩
  · show toBobby ∉ [toBobby].filter fun n => n.id != drawn
    decide
  · rintro i o t same thread ⟨username, party, rfl, -⟩
    cases same
    cases thread
    have other : Db.names burn.username toBobby = false := by decide
    exact absurd (party_iff.mp party) (by rw [other]; exact Bool.false_ne_true)

end Sample

end Shyake.Worker
