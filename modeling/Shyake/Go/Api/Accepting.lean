import Shyake.Go.Api.Guard

/-!
# Requests that go through

`Guard` says what must have happened before a question is asked. Here is the other
direction, for the runs that show what the server does accept: a request that is
signed, fresh and in time passes `auth`, and a submission between two local users
is stored. Each lemma gives the log of the request, and what serving it leaves.
-/

namespace Shyake.Go

open Lib.Prog
open Protocol (Address verifyPoW)

/-- A question answered, then the rest. -/
theorem resumes_ask {α : Type} (q : Query) (a : Answer q) {f : Answer q → Handler α} {l : Log}
    {p : Handler α} (h : (f a).Resumes l p) : (ask q >>= f).Resumes (⟨q, a⟩ :: l) p :=
  Resumes.cons (I := Effects) a h

/-! ## auth -/

/-- What `auth` asks of a request at the time `now`. -/
structure Valid (s : Server) (r : Request) (path body : Bytes) (signsBody : Bool) (u : User)
    (now : Time) : Prop where
  username : r.username ≠ []
  headers : r.timestamp ≠ [] ∧ r.signature ≠ [] ∧ r.pow ≠ []
  pow : verifyPoW r.pow r.username now = true
  within : Within r.timestamp now
  key : u.sigPubkey ≠ []
  signed : s.verify u.sigPubkey (Server.signedMessage r path body signsBody) r.signature = true

/-- What `auth` asks and learns when it lets a request pass that is looked up for a while. -/
def slowAuthLog (r : Request) (u : User) (now later : Time) : Log :=
  [⟨.now, now⟩, ⟨.now, now⟩, ⟨.db (.getUser r.username), .ok u⟩, ⟨.now, later⟩,
    ⟨.seenAdd (Lib.sha256 r.signature) later, true⟩, ⟨.spentAdd (Lib.sha256 r.pow) later, true⟩]

/-- The same, while the clock stands still. -/
def authLog (r : Request) (u : User) (now : Time) : Log :=
  [⟨.now, now⟩, ⟨.now, now⟩, ⟨.db (.getUser r.username), .ok u⟩, ⟨.now, now⟩,
    ⟨.seenAdd (Lib.sha256 r.signature) now, true⟩, ⟨.spentAdd (Lib.sha256 r.pow) now, true⟩]

section

variable {s : Server} {r : Request} {path body : Bytes} {signsBody : Bool} {u : User} {now : Time}

/-- Within the window, no difference is large enough to wrap. -/
theorem int64_of_within {n : Int} (within : -window ≤ now.unix - n ∧ now.unix - n ≤ window) :
    int64 (now.unix - n) = now.unix - n := by
  unfold int64 window at *
  rw [Int.bmod_def]
  split <;> omega

theorem inWindow_resumes {ts : Bytes} (within : Within ts now) :
    (inWindow ts).Resumes [⟨.now, now⟩] (.ret true) := by
  obtain ⟨n, parsed, within⟩ := within
  have inside : (decide (int64 (now.unix - n) ≥ -window) &&
      decide (int64 (now.unix - n) ≤ window)) = true := by
    rw [int64_of_within within]
    simpa only [Bool.and_eq_true, decide_eq_true_eq] using within
  unfold inWindow
  rw [parsed]
  refine resumes_ask .now now ?_
  dsimp only
  rw [inside]
  exact .start

theorem fresh_resumes (signature pow : Bytes) : (fresh signature pow).Resumes
    [⟨.now, now⟩, ⟨.seenAdd (Lib.sha256 signature) now, true⟩,
      ⟨.spentAdd (Lib.sha256 pow) now, true⟩] (.ret true) := by
  unfold fresh
  refine resumes_ask .now now (resumes_ask (.seenAdd _ _) true ?_)
  exact Resumes.cons (I := Effects) (q := .spentAdd (Lib.sha256 pow) now) true .start

/-- **A valid request passes `auth`**, however long the lookup takes. -/
theorem slowAuth_resumes (valid : Valid s r path body signsBody u now) (later : Time) :
    (s.auth r path body signsBody).Resumes (slowAuthLog r u now later) (.ret (.ok u)) := by
  have headers : ¬(r.username = [] ∨ r.timestamp = [] ∨ r.signature = [] ∨ r.pow = []) := by
    simp [valid.username, valid.headers]
  unfold Server.auth
  rw [if_neg headers]
  refine resumes_ask .now now ?_
  simp only [valid.pow, Bool.not_true, Bool.false_eq_true, if_false]
  refine (inWindow_resumes valid.within).bind.trans (resumes_ask (.db (.getUser _)) (.ok u) ?_)
  simp only [valid.key, valid.signed, Bool.not_true, Bool.false_eq_true, if_false]
  exact (fresh_resumes r.signature r.pow).bind

theorem auth_resumes (valid : Valid s r path body signsBody u now) :
    (s.auth r path body signsBody).Resumes (authLog r u now) (.ret (.ok u)) :=
  slowAuth_resumes valid now

end

theorem verify_of {s : Server} {sigPub msg signature raw : Bytes} {pk : s.mldsa.PublicKey}
    (key : Protocol.parsePublicKey s.mldsa sigPub = some pk)
    (decoded : Protocol.decodeB64 signature = some raw)
    (size : raw.length = Protocol.signatureSize) (ok : s.mldsa.verify pk msg raw = true) :
    s.verify sigPub msg signature = true := by
  unfold Server.verify
  rw [key]
  unfold Protocol.verify
  dsimp only
  rw [decoded]
  dsimp only
  rw [if_neg (not_not.mpr size)]
  exact ok

section

variable {s : Server} {r : Request} {u : User} {now : Time}

theorem burnMail_resumes {id : Bytes} (valid : Valid s r (utf8 "/api/mail/" ++ id) [] false u now) :
    (s.burnMail r id).Resumes (authLog r u now ++ [⟨.db (.deleteMail id u.username), .ok ()⟩])
      (.ret (.message 200 (utf8 "Mail burned") [])) :=
  (auth_resumes valid).bind.trans (resumes_ask (.db (.deleteMail _ _)) (.ok ()) .start)

theorem destroy_resumes (valid : Valid s r (utf8 "/api/destroy") [] false u now) :
    (s.destroy r).Resumes (authLog r u now ++ [⟨.db (.destroyUser u.username), .ok ()⟩])
      (.ret (.message 200 (utf8 "Account destroyed") [])) :=
  (auth_resumes valid).bind.trans (resumes_ask (.db (.destroyUser _)) (.ok ()) .start)

theorem bodyAuth_resumes {path body : Bytes} (read : readBody r smallBody = .ok body)
    (valid : Valid s r path body true u now) :
    (s.bodyAuth r path).Resumes (authLog r u now) (.ret (.ok (u, body))) := by
  unfold Server.bodyAuth
  rw [read]
  exact (auth_resumes valid).bind

theorem block_resumes {body target : Bytes} {t : Address} (read : readBody r smallBody = .ok body)
    (valid : Valid s r (utf8 "/api/block") body true u now)
    (decoded : s.json.target body = some target) (nonempty : target ≠ [])
    (parsed : Protocol.parseBlockTarget target s.cfg.instanceDomain = .ok t) :
    (s.block r).Resumes (authLog r u now ++
        [⟨.now, now⟩, ⟨.db (.addBlock u.username t.stored now.unix), .ok ()⟩])
      (.ret (.message 201 (utf8 "Blocked") [])) := by
  unfold Server.block Server.blockTarget
  refine (bodyAuth_resumes read valid).bind.bind.trans ?_
  simp only [ret_bind, decoded, nonempty, if_false, parsed, pure_eq]
  exact resumes_ask .now now (resumes_ask (.db (.addBlock _ _ _)) (.ok ()) .start)

theorem rotate_resumes {body : Bytes} {b : RemoteKeys} (read : readBody r smallBody = .ok body)
    (valid : Valid s r (utf8 "/api/rotate") body true u now) (decoded : s.json.rotate body = some b)
    (nonempty : b.kem ≠ [] ∧ b.sig ≠ [])
    (keys : (Protocol.parsePublicKey s.mldsa b.sig).isSome = true ∧ validKEM b.kem = true) :
    (s.rotate r).Resumes
      (authLog r u now ++ [⟨.db (.rotateKeys u.username b.kem b.sig), .ok ()⟩])
      (.ret (.message 200 (utf8 "Keys rotated and old mails deleted") [])) := by
  have present : (Protocol.parsePublicKey s.mldsa b.sig).isNone = false := by
    rw [Option.isNone_eq_false_iff]
    exact keys.1
  unfold Server.rotate
  refine (bodyAuth_resumes read valid).bind.trans ?_
  simp only [ret_bind, decoded, nonempty, present, keys.2, or_self, if_false, Bool.false_eq_true,
    Bool.not_true]
  exact resumes_ask (.db (.rotateKeys _ _ _)) (.ok ()) .start

end

/-- The state after a signature and a token have been used. -/
def World.used (w : World) (signature pow : Bytes) : World :=
  { w with
    seen := (w.seen.add (Lib.sha256 signature) w.clock).2
    spent := (w.spent.add (Lib.sha256 pow) w.clock).2 }

theorem serve_db {w : World} {db' : Db} {st : Stmt} {a : Except StoreError st.Result}
    (h : w.db.exec st = (a, db')) : serve w (.db st) .ok = some (a, { w with db := db' }) := by
  show some ((w.db.exec st).1, { w with db := (w.db.exec st).2 }) = _
  rw [h]

/-- A statement that only reads. -/
theorem serve_read {w : World} {st : Stmt} {a : Except StoreError st.Result}
    (h : w.db.exec st = (a, w.db)) : serve w (.db st) .ok = some (a, w) :=
  serve_db h

/-- One statement is executed. -/
theorem serves_db {s : Server} {P : World → Prop} {w : World} {db' : Db} {st : Stmt}
    {a : Except StoreError st.Result} (h : w.db.exec st = (a, db')) (before : P w) :
    Lib.Serves (S := service s) P w [⟨.db st, a⟩] { w with db := db' } :=
  .cons .ok before (serve_db h) .start

/-- A state answers what `auth` asks. -/
theorem serves_auth {s : Server} {P : World → Prop} {w : World} {r : Request} {u : User}
    (user : w.db.getUser r.username = .ok u)
    (seen : (w.seen.add (Lib.sha256 r.signature) w.clock).1 = true)
    (spent : (w.spent.add (Lib.sha256 r.pow) w.clock).1 = true) (before : P w)
    (between : P { w with seen := (w.seen.add (Lib.sha256 r.signature) w.clock).2 }) :
    Lib.Serves (S := service s) P w (authLog r u w.clock) (w.used r.signature r.pow) := by
  refine .cons .ok before rfl (.cons .ok before rfl ?_)
  refine .cons .ok before (serve_read (Prod.ext user rfl)) (.cons .ok before rfl ?_)
  refine .cons .ok before (congrArg (fun x => some (x, _)) seen) ?_
  exact .cons .ok between (congrArg (fun x => some (x, _)) spent) .start

/-- The same, while the clock moves on during the lookup. -/
theorem serves_slowAuth {s : Server} {P : World → Prop} {w : World} {r : Request} {u : User}
    {later : Time} (le : w.clock ≤ later) (user : w.db.getUser r.username = .ok u)
    (seen : (w.seen.add (Lib.sha256 r.signature) later).1 = true)
    (spent : (w.spent.add (Lib.sha256 r.pow) later).1 = true) (before : P w)
    (after : P { w with clock := later })
    (between : P { w with
      clock := later
      seen := (w.seen.add (Lib.sha256 r.signature) later).2 }) :
    Lib.Serves (S := service s) P w (slowAuthLog r u w.clock later)
      (World.used { w with clock := later } r.signature r.pow) := by
  have read : Lib.Serves (S := service s) P w
      [⟨.now, w.clock⟩, ⟨.now, w.clock⟩, ⟨.db (.getUser r.username), .ok u⟩] w := by
    refine .cons .ok before rfl (.cons .ok before rfl ?_)
    exact .cons .ok before (serve_read (Prod.ext user rfl)) .start
  have moved := read.drift later before (if_pos le)
  refine moved.trans (.cons .ok after rfl ?_)
  refine .cons .ok after (congrArg (fun x => some (x, _)) seen) ?_
  exact .cons .ok between (congrArg (fun x => some (x, _)) spent) .start

/-! ## Mail between two local users -/

section

variable {s : Server} {r : Request} {b : Submission s r} {u v : User} {now : Time}

/-- What `sendMail` asks of a submission from a local `u` to a local `v`. -/
structure Deliverable (s : Server) {r : Request} (b : Submission s r) (u v : User) (now : Time) :
    Prop where
  sender : b.sender.isLocal = true
  recipient : b.recipient.isLocal = true
  pow : verifyPoW b.m.pow b.m.sender now = true
  within : Within b.m.timestamp now
  sigKey : u.sigPubkey ≠ []
  kemKey : v.kemPubkey ≠ []
  fingerprint : fingerprint v.kemPubkey = b.m.fingerprint
  signed : s.verify u.sigPubkey b.message b.m.signature = true

/-- A body with every field, between valid addresses that this instance may serve. -/
structure Filled (s : Server) (m : MailBody) (subject : Bytes) (size : Int)
    (sender recipient : Address) : Prop where
  strings : m.sender ≠ [] ∧ m.recipient ≠ [] ∧ m.fingerprint ≠ [] ∧ m.encKeySender ≠ [] ∧
    m.encKeyRecipient ≠ [] ∧ m.encBody ≠ [] ∧ m.timestamp ≠ [] ∧ m.signature ≠ [] ∧ m.pow ≠ []
  reply : m.encReplyTo ≠ some []
  subject : m.encSubject = some subject
  size : m.size.bind s.sizeOf = some size
  ours : sender.isLocal = true ∨ recipient.isLocal = true
  qualified : recipient.isLocal = true ∨ m.sender.contains 64 = true
  sender : Protocol.parseAddress m.sender s.cfg.instanceDomain = .ok sender
  recipient : Protocol.parseAddress m.recipient s.cfg.instanceDomain = .ok recipient

/-- A body with every field, between valid addresses of which the recipient is local. -/
structure Complete (s : Server) (m : MailBody) (subject : Bytes) (size : Int)
    (sender recipient : Address) : Prop where
  strings : m.sender ≠ [] ∧ m.recipient ≠ [] ∧ m.fingerprint ≠ [] ∧ m.encKeySender ≠ [] ∧
    m.encKeyRecipient ≠ [] ∧ m.encBody ≠ [] ∧ m.timestamp ≠ [] ∧ m.signature ≠ [] ∧ m.pow ≠ []
  reply : m.encReplyTo ≠ some []
  subject : m.encSubject = some subject
  size : m.size.bind s.sizeOf = some size
  here : recipient.isLocal = true
  sender : Protocol.parseAddress m.sender s.cfg.instanceDomain = .ok sender
  recipient : Protocol.parseAddress m.recipient s.cfg.instanceDomain = .ok recipient

theorem readBody_ok {limit : Nat} {raw : Bytes} (body : r.body = some raw)
    (small : raw.length ≤ limit) : readBody r limit = .ok raw := by
  unfold readBody
  rw [body]
  exact if_neg (Nat.not_lt.mpr small)

theorem Complete.filled {m : MailBody} {subject : Bytes} {size : Int} {sender recipient : Address}
    (ok : Complete s m subject size sender recipient) : Filled s m subject size sender recipient :=
  { strings := ok.strings,
    reply := ok.reply,
    subject := ok.subject,
    size := ok.size,
    ours := .inr ok.here,
    qualified := .inl ok.here,
    sender := ok.sender,
    recipient := ok.recipient }

theorem parseSubmission_filled {raw subject : Bytes} {m : MailBody} {size : Int}
    {sender recipient : Address} (read : readBody r s.cfg.maxMailSize = .ok raw)
    (decoded : s.json.mail raw = some m) (ok : Filled s m subject size sender recipient) :
    ∃ b, s.parseSubmission r = .ok b ∧ b.raw = raw ∧ b.m = m ∧ b.encSubject = subject ∧
      b.size = size ∧ b.sender = sender ∧ b.recipient = recipient := by
  have strings := ok.strings
  have present : m.size.isNone = false := by
    cases size_ : m.size with
    | some text => rfl
    | none =>
      have := ok.size
      rw [size_] at this
      cases this
  unfold Server.parseSubmission
  split
  · rename_i reply refused
    rw [read] at refused
    cases refused
  rename_i raw' read'
  obtain rfl : raw = raw' := by
    rw [read] at read'
    exact Except.ok.inj read'
  split
  · rename_i refused
    rw [decoded] at refused
    cases refused
  rename_i m' decoded'
  obtain rfl : m = m' := Option.some.inj (decoded.symm.trans decoded')
  rw [if_neg (by simp [strings, ok.subject, present]), if_neg ok.reply]
  split
  · rename_i refused
    rw [ok.subject] at refused
    cases refused
  · rename_i refused
    rw [ok.size] at refused
    cases refused
  rename_i subject' size' hsubject hsize
  obtain rfl : subject = subject' := Option.some.inj (ok.subject.symm.trans hsubject)
  obtain rfl : size = size' := Option.some.inj (ok.size.symm.trans hsize)
  split
  · rename_i refused
    rw [ok.sender] at refused
    cases refused
  rename_i sender' hsender
  obtain rfl : sender = sender' := by
    rw [ok.sender] at hsender
    exact Except.ok.inj hsender
  split
  · rename_i refused
    rw [ok.recipient] at refused
    cases refused
  rename_i recipient' hrecipient
  obtain rfl : recipient = recipient' := by
    rw [ok.recipient] at hrecipient
    exact Except.ok.inj hrecipient
  have served : ¬ (!recipient.isLocal && !m.sender.contains 64) = true := by
    rcases ok.qualified with here | named
    · simp [here]
    · rw [named, Bool.not_true, Bool.and_false]
      exact Bool.false_ne_true
  rw [dif_pos ok.ours, if_neg served]
  exact ⟨_, rfl, rfl, rfl, rfl, rfl, rfl, rfl⟩

theorem parseSubmission_ok {raw subject : Bytes} {m : MailBody} {size : Int}
    {sender recipient : Address} (read : readBody r s.cfg.maxMailSize = .ok raw)
    (decoded : s.json.mail raw = some m) (ok : Complete s m subject size sender recipient) :
    ∃ b, s.parseSubmission r = .ok b ∧ b.raw = raw ∧ b.m = m ∧ b.encSubject = subject ∧
      b.size = size ∧ b.sender = sender ∧ b.recipient = recipient :=
  parseSubmission_filled read decoded ok.filled

/-- The checks of a submission, all passed. -/
def checkLog (b : Submission s r) (u v : User) (now : Time) : Log :=
  [⟨.now, now⟩, ⟨.now, now⟩, ⟨.db (.getUser b.sender.localName), .ok u⟩,
    ⟨.db (.getUser b.recipient.localName), .ok v⟩]

/-- From the blocklist to the random bytes of the id. -/
def storeLog (b : Submission s r) (now : Time) (bytes : Bytes) : Log :=
  [⟨.db (.blocked b.recipient.stored [b.sender.stored, b.sender.domain]), .ok false⟩,
    ⟨.db (.mailIDBySignature b.m.signature), .error .notFound⟩, ⟨.now, now⟩,
    ⟨.spentAdd (Lib.sha256 b.m.pow) now, true⟩, ⟨.now, now⟩, ⟨.random, bytes⟩]

/-- The id made of ten random bytes. -/
def idOf (bytes : Bytes) : Bytes :=
  bytes.map fun c => mailIDAlphabet.getD (c.toNat % mailIDAlphabet.length) 0

theorem keysOf_resumes {a : Address} (here : a.isLocal = true) (u : User) (fresh : Bool) :
    (s.keysOf a fresh).Resumes [⟨.db (.getUser a.localName), .ok u⟩]
      (.ret (.ok ⟨u.kemPubkey, u.sigPubkey, false⟩)) := by
  unfold Server.keysOf
  rw [if_pos here]
  exact resumes_ask (.db (.getUser _)) (.ok u) .start

theorem checkSubmission_resumes (ok : Deliverable s b u v now) :
    (s.checkSubmission b).Resumes (checkLog b u v now) (.ret (.ok ())) := by
  have senderKey : (s.senderKey b).Resumes [⟨.db (.getUser b.sender.localName), .ok u⟩]
      (.ret (.ok ⟨u.kemPubkey, u.sigPubkey, false⟩)) := by
    unfold Server.senderKey
    refine (keysOf_resumes ok.sender u false).bind.trans ?_
    simp only [ret_bind, ok.sigKey, if_false, pure_eq]
    exact .start
  have recipientKey : (s.recipientKey b).Resumes [⟨.db (.getUser b.recipient.localName), .ok v⟩]
      (.ret (.ok ())) := by
    unfold Server.recipientKey
    refine (keysOf_resumes ok.recipient v false).bind.trans ?_
    simp only [ret_bind, ok.kemKey, ok.fingerprint, if_false, if_true, pure_eq]
    exact .start
  unfold Server.checkSubmission
  refine resumes_ask .now now ?_
  simp only [ok.pow, Bool.not_true, Bool.false_eq_true, if_false]
  refine (inWindow_resumes ok.within).bind.trans (senderKey.bind.trans (recipientKey.bind.trans ?_))
  simp only [Server.checkSignature, ok.signed, if_true, ret_bind]
  exact .start

/-- **A deliverable submission comes to its INSERT.** -/
theorem sendMail_resumes (parsed : s.parseSubmission r = .ok b) (ok : Deliverable s b u v now)
    (bytes : Bytes) : ∃ k : Except StoreError Unit → Handler Reply,
      (s.sendMail r).Resumes (checkLog b u v now ++ storeLog b now bytes)
        (.ask (.db (.insertMail { b.row now with id := idOf bytes })) k) := by
  apply Exists.intro
  unfold Server.sendMail
  rw [parsed]
  refine (checkSubmission_resumes ok).bind.trans ?_
  simp only [ret_bind, Server.storeSubmission, Server.checkBlocklist, ok.recipient, Bool.not_true,
    Bool.false_eq_true, if_false]
  refine resumes_ask (.db (.blocked _ _)) (.ok false) ?_
  refine resumes_ask (.db (.mailIDBySignature _)) (.error .notFound) ?_
  simp only [Server.remoteTakesReplies, ok.recipient, or_true, if_true, pure_eq, ret_bind]
  refine resumes_ask .now now (resumes_ask (.spentAdd _ _) true ?_)
  simp only [Server.relay, ok.recipient, Bool.not_true, Bool.false_eq_true, if_false, if_true,
    pure_eq, ret_bind]
  refine resumes_ask .now now (resumes_ask .random bytes ?_)
  exact .start

/-- A state answers what the checks ask. -/
theorem serves_checked {P : World → Prop} {w : World}
    (sender : w.db.getUser b.sender.localName = .ok u)
    (recipient : w.db.getUser b.recipient.localName = .ok v) (before : P w) :
    Lib.Serves (S := service s) P w (checkLog b u v w.clock) w := by
  refine .cons .ok before rfl (.cons .ok before rfl ?_)
  refine .cons .ok before (serve_read (Prod.ext sender rfl)) ?_
  exact .cons .ok before (serve_read (Prod.ext recipient rfl)) .start

/-- A state answers what `sendMail` asks up to the INSERT. -/
theorem serves_sendMail {P : World → Prop} {w : World}
    (sender : w.db.getUser b.sender.localName = .ok u)
    (recipient : w.db.getUser b.recipient.localName = .ok v)
    (open_ : w.db.blocked b.recipient.stored [b.sender.stored, b.sender.domain] = false)
    (new : w.db.mailIDBySignature b.m.signature = .error .notFound)
    (spent : (w.spent.add (Lib.sha256 b.m.pow) w.clock).1 = true) {bytes : Bytes}
    (ten : bytes.length = 10) (before : P w)
    (after : P { w with spent := (w.spent.add (Lib.sha256 b.m.pow) w.clock).2 }) :
    Lib.Serves (S := service s) P w (checkLog b u v w.clock ++ storeLog b w.clock bytes)
      { w with spent := (w.spent.add (Lib.sha256 b.m.pow) w.clock).2 } := by
  refine (serves_checked sender recipient before).trans ?_
  refine .cons .ok before (serve_read (Prod.ext (congrArg Except.ok open_) rfl)) ?_
  refine .cons .ok before (serve_read (Prod.ext new rfl)) (.cons .ok before rfl ?_)
  refine .cons .ok before (congrArg (fun x => some (x, _)) spent) (.cons .ok after rfl ?_)
  exact .cons (.random bytes) after (if_pos ten) .start

end

/-! ## Runs -/

/-- The requests that have arrived. -/
abbrev requests {s : Server} (c : Lib.Config (service s)) : List Request :=
  c.threads.map Lib.Thread.req

section

variable {s : Server} {ok : Lib.Config (service s) → Lib.Label (service s) → Prop}
  {c₀ c : Lib.Config (service s)} {P : World → Prop} {r : Request}

/-- A request arrives, passes `auth`, and goes on as served. -/
theorem run_request (run : Lib.Run ok c₀ c) (allows : Lib.Allows ok (requests c ++ [r]) P)
    (arrives : ok c (.arrive r)) {u : User} {l : Log} {p : Handler Reply}
    (resumes : (s.handler r).Resumes (authLog r u c.shared.clock ++ l) p)
    (user : c.shared.db.getUser r.username = .ok u)
    (seen : (c.shared.seen.add (Lib.sha256 r.signature) c.shared.clock).1 = true)
    (spent : (c.shared.spent.add (Lib.sha256 r.pow) c.shared.clock).1 = true)
    (before : P c.shared)
    (between : P { c.shared with
      seen := (c.shared.seen.add (Lib.sha256 r.signature) c.shared.clock).2 }) {w : World}
    (rest : Lib.Serves (S := service s) P (c.shared.used r.signature r.pow) l w) :
    ∃ c' : Lib.Config (service s), Lib.Run ok c₀ c' ∧ c'.shared = w ∧
      c'.threads = c.threads ++ [⟨r, authLog r u c.shared.clock ++ l, p⟩] :=
  ⟨_, run.request r allows arrives ((serves_auth user seen spent before between).trans rest)
    resumes, rfl, rfl⟩

/-- A request arrives, passes `auth`, and comes to its statement. -/
theorem run_statement (run : Lib.Run ok c₀ c) (allows : Lib.Allows ok (requests c ++ [r]) P)
    (arrives : ok c (.arrive r)) {u : User} {st : Stmt} {a : Except StoreError st.Result}
    {p : Handler Reply}
    (resumes : (s.handler r).Resumes (authLog r u c.shared.clock ++ [⟨.db st, a⟩]) p)
    (user : c.shared.db.getUser r.username = .ok u)
    (seen : (c.shared.seen.add (Lib.sha256 r.signature) c.shared.clock).1 = true)
    (spent : (c.shared.spent.add (Lib.sha256 r.pow) c.shared.clock).1 = true)
    (before : P c.shared)
    (between : P { c.shared with
      seen := (c.shared.seen.add (Lib.sha256 r.signature) c.shared.clock).2 }) :
    ∃ (k : Except StoreError st.Result → Handler Reply) (c' : Lib.Config (service s)),
      p = k a ∧ Lib.Run ok c₀ c' ∧ c'.shared = c.shared.used r.signature r.pow ∧
      c'.threads = c.threads ++ [⟨r, authLog r u c.shared.clock, .ask (.db st) k⟩] := by
  obtain ⟨k, until_, rfl⟩ := resumes.snoc_inv
  rw [← List.append_nil (authLog r u c.shared.clock)] at until_
  obtain ⟨c', run', shared, threads⟩ := run_request run allows arrives until_ user seen spent before
    between .start
  rw [List.append_nil] at threads
  exact ⟨k, c', rfl, run', shared, threads⟩

/-- The clock moves on. -/
theorem run_drift (run : Lib.Run ok c₀ c) {now : Time} (allowed : ok c (.drift now))
    (le : c.shared.clock ≤ now) : ∃ c' : Lib.Config (service s), Lib.Run ok c₀ c' ∧
      c'.shared = { c.shared with clock := now } ∧ c'.threads = c.threads := by
  have moved : drift c.shared now = some { c.shared with clock := now } := if_pos le
  exact ⟨_, run.next allowed (Lib.Config.step_drift moved), rfl, rfl⟩

/-- A deliverable submission arrives and comes to its INSERT. -/
theorem run_sendMail (run : Lib.Run ok c₀ c)
    (allows : Lib.Allows ok (requests c ++ [r]) P) (arrives : ok c (.arrive r))
    (route : r.route = .sendMail) {b : Submission s r} (parsed : s.parseSubmission r = .ok b)
    {u v : User} (deliverable : Deliverable s b u v c.shared.clock)
    (sender : c.shared.db.getUser b.sender.localName = .ok u)
    (recipient : c.shared.db.getUser b.recipient.localName = .ok v)
    (open_ : c.shared.db.blocked b.recipient.stored [b.sender.stored, b.sender.domain] = false)
    (new : c.shared.db.mailIDBySignature b.m.signature = .error .notFound)
    (spent : (c.shared.spent.add (Lib.sha256 b.m.pow) c.shared.clock).1 = true) {bytes : Bytes}
    (ten : bytes.length = 10) (before : P c.shared)
    (after : P { c.shared with
      spent := (c.shared.spent.add (Lib.sha256 b.m.pow) c.shared.clock).2 }) :
    ∃ k, Lib.Run ok c₀ ⟨{ c.shared with
        spent := (c.shared.spent.add (Lib.sha256 b.m.pow) c.shared.clock).2 },
      c.threads ++ [⟨r, checkLog b u v c.shared.clock ++ storeLog b c.shared.clock bytes,
        .ask (.db (.insertMail { b.row c.shared.clock with id := idOf bytes })) k⟩]⟩ := by
  obtain ⟨k, resumes⟩ := sendMail_resumes parsed deliverable bytes
  refine ⟨k, run.request r allows arrives
    (serves_sendMail sender recipient open_ new spent ten before after) ?_⟩
  show (s.handler r).Resumes _ _
  unfold Server.handler
  rw [route]
  exact resumes

/-- The thread `i` has its statement executed. -/
theorem step_db {i : Nat} {t : Lib.Thread (service s)} {st : Stmt}
    {k : Answer (.db st) → Handler Reply} {a : Except StoreError st.Result} {db' : Db}
    (thread : c.threads[i]? = some t) (rest : t.rest = .ask (.db st) k)
    (executed : c.shared.db.exec st = (a, db')) :
    c.step (.act i Oracle.ok) =
      some ⟨{ c.shared with db := db' }, c.threads.set i (t.answered (.db st) k a)⟩ :=
  Lib.Config.step_act thread rest (serve_db executed)

/-- The same, as a part of a run. -/
theorem run_db (run : Lib.Run ok c₀ c) (allows : Lib.Allows ok (requests c) P) {i : Nat}
    {t : Lib.Thread (service s)} (thread : c.threads[i]? = some t) {st : Stmt}
    {k : Answer (.db st) → Handler Reply} (rest : t.rest = .ask (.db st) k) (before : P c.shared)
    {a : Except StoreError st.Result} {db' : Db} (executed : c.shared.db.exec st = (a, db')) :
    ∃ c' : Lib.Config (service s), Lib.Run ok c₀ c' ∧ c'.shared = { c.shared with db := db' } ∧
      c'.threads = c.threads.set i ⟨t.req, t.log ++ [⟨.db st, a⟩], k a⟩ :=
  ⟨_, run.next (allows _ _ rfl (by simp) before) (step_db thread rest executed), rfl, rfl⟩

end

/-! ## A server to run

Instance `a.example` with two local users. The packages outside the repository are
given by what they do on the inputs of a run: a scheme by the signatures it accepts,
the decoders by the bodies they decode.
-/

namespace Sample

open Protocol (Mldsa65 JsonObj)

/-- Nanoseconds after 2025-06-10 00:00:00 UTC. -/
def clock (offset : Nat) : Time := ⟨1749513600000000000 + offset % 2 ^ 60, by omega⟩

/-- base64 of 1184 bytes. -/
@[irreducible] def kemPubkey (first : UInt8) : Bytes := first :: List.replicate 1578 65

/-- base64 of 1952 bytes. -/
@[irreducible] def sigPubkey (first : UInt8) : Bytes := first :: List.replicate 2602 65

/-- base64 of 3309 bytes, without padding. -/
@[irreducible] def signature (first : UInt8) : Bytes := first :: List.replicate 4411 65

theorem kemPubkey_ne_nil (first : UInt8) : kemPubkey first ≠ [] := by
  unfold kemPubkey
  exact List.cons_ne_nil _ _

theorem sigPubkey_ne_nil (first : UInt8) : sigPubkey first ≠ [] := by
  unfold sigPubkey
  exact List.cons_ne_nil _ _

theorem signature_ne_nil (first : UInt8) : signature first ≠ [] := by
  unfold signature
  exact List.cons_ne_nil _ _

def alice : User := ⟨utf8 "alice", kemPubkey 65, sigPubkey 65, 0⟩
def bobby : User := ⟨utf8 "bobby", kemPubkey 66, sigPubkey 66, 0⟩

def db : Db := ⟨[alice, bobby], [], [], by decide, Db.empty.mail_id, Db.empty.mail_sig_hash, Db.empty.blocks_key⟩

/-- A signature a scheme accepts: under a user's key, of a message. -/
structure Signed where
  user : User
  message : Bytes
  signature : Bytes

def scheme (accepted : List Signed) : Mldsa65 where
  PublicKey := Bytes
  unmarshalBinary := some
  verify pk msg sig := accepted.any fun a =>
    Protocol.decodeB64 a.user.sigPubkey == some pk && a.message == msg &&
      Protocol.decodeB64 a.signature == some sig

/-- The body the client sends. -/
def mailText (m : MailBody) : Bytes :=
  let b : JsonObj := ⟨[]⟩
  let b := b.str (utf8 "sender") m.sender
  let b := b.str (utf8 "recipient") m.recipient
  let b := b.str (utf8 "recipient_kem_fingerprint") m.fingerprint
  let b := b.str (utf8 "enc_key_sender") m.encKeySender
  let b := b.str (utf8 "enc_key_recipient") m.encKeyRecipient
  let b := b.str (utf8 "enc_subject") (m.encSubject.getD [])
  let b := b.str (utf8 "enc_body") m.encBody
  let b := b.num (utf8 "size") ((m.size.bind parseInt).getD 0)
  let b := b.str (utf8 "timestamp") m.timestamp
  let b := b.str (utf8 "signature") m.signature
  let b := b.str (utf8 "pow") m.pow
  b.done

/-- A bound on a body, by the lengths of its texts. -/
theorem length_mailText_le {m : MailBody} (size : m.size = some (utf8 "4")) :
    (mailText m).length ≤ 6 * (m.sender.length + m.recipient.length + m.fingerprint.length +
      m.encKeySender.length + m.encKeyRecipient.length + (m.encSubject.getD []).length +
      m.encBody.length + m.timestamp.length + m.signature.length + m.pow.length) + 1000 := by
  have four : (formatInt ((m.size.bind parseInt).getD 0)).length = 1 := by
    rw [size]
    decide
  have names : ["sender", "recipient", "recipient_kem_fingerprint", "enc_key_sender",
      "enc_key_recipient", "enc_subject", "enc_body", "size", "timestamp", "signature",
      "pow"].map (fun k => (utf8 k).length) = [6, 9, 25, 14, 17, 11, 8, 4, 9, 9, 3] := by decide
  simp only [List.map_cons, List.map_nil, List.cons.injEq, and_true] at names
  obtain ⟨n₁, n₂, n₃, n₄, n₅, n₆, n₇, n₈, n₉, n₁₀, n₁₁⟩ := names
  unfold mailText JsonObj.done
  rw [List.length_append, List.length_singleton]
  have start : (JsonObj.mk []).buf.length ≤ 0 := Nat.le_refl 0
  refine Nat.le_trans (Nat.add_le_add_right (JsonObj.length_str_le (JsonObj.length_str_le
    (JsonObj.length_str_le (JsonObj.length_num_le (JsonObj.length_str_le (JsonObj.length_str_le
    (JsonObj.length_str_le (JsonObj.length_str_le (JsonObj.length_str_le (JsonObj.length_str_le
    (JsonObj.length_str_le start _ _) _ _) _ _) _ _) _ _) _ _) _ _) _ _) _ _) _ _) _ _) 1) ?_
  omega

def targetText (target : Bytes) : Bytes := (JsonObj.str ⟨[]⟩ (utf8 "target") target).done

def rotateText (k : RemoteKeys) : Bytes :=
  ((JsonObj.str ⟨[]⟩ (utf8 "new_kem_pubkey") k.kem).str (utf8 "new_sig_pubkey") k.sig).done

def json (mails : List MailBody) (targets : List Bytes) (rotations : List RemoteKeys) : Json where
  mail raw := mails.find? fun m => mailText m == raw
  register _ := none
  target raw := targets.find? fun t => targetText t == raw
  rotate raw := rotations.find? fun k => rotateText k == raw
  keys _ := none
  error _ := []
  protocol _ := none
  float64 text := (parseInt text).map fun n => (n : Rat)

def server (accepted : List Signed) (mails : List MailBody) (targets : List Bytes)
    (rotations : List RemoteKeys) : Server where
  cfg := ⟨utf8 "a.example", true, [], true, 1048576⟩
  mldsa := scheme accepted
  json := json mails targets rotations
  scheme := utf8 "https"
  control _ := false

def mail (signature pow : Bytes) : MailBody where
  sender := utf8 "alice"
  recipient := utf8 "bobby"
  fingerprint := fingerprint bobby.kemPubkey
  encKeySender := utf8 "a2V5"
  encKeyRecipient := utf8 "a2V5"
  encSubject := some []
  encBody := utf8 "Ym9keQ"
  encReplyTo := none
  size := some (utf8 "4")
  timestamp := utf8 "1749513600"
  signature := signature
  pow := pow

def firstMail : MailBody := mail (signature 65) (utf8 "1:20:250610:alice::one:6e7368")

def mailMessage : Bytes :=
  Protocol.mailMessage (utf8 "alice") (utf8 "bobby") (fingerprint bobby.kemPubkey) []
    (utf8 "Ym9keQ") [] (utf8 "1749513600") 4

def aliceSignsMail : Signed := ⟨alice, mailMessage, signature 65⟩

/-- A header-authenticated request. -/
def request (route : Route) (u : User) (timestamp signature pow : Bytes) (body : Option Bytes) :
    Request where
  route := route
  head := false
  username := u.username
  timestamp := timestamp
  signature := signature
  pow := pow
  body := body

/-- A POST /api/mail carries everything in its body. -/
def submit (m : MailBody) : Request := ⟨.sendMail, false, [], [], [], [], some (mailText m)⟩

theorem decodeB64_sigPubkey (first : UInt8) (h : first ∈ ([65, 66] : List UInt8)) :
    ∃ raw, Protocol.decodeB64 (sigPubkey first) = some raw ∧
      raw.length = Protocol.publicKeySize := by
  have size : ∀ first ∈ ([65, 66] : List UInt8),
      (Protocol.decodeB64 (sigPubkey first)).map List.length = some Protocol.publicKeySize := by
    decide +kernel
  exact Option.map_eq_some_iff.mp (size first h)

theorem decodeB64_signature (first : UInt8) (h : first ∈ ([65, 66, 67, 68] : List UInt8)) :
    ∃ raw, Protocol.decodeB64 (signature first) = some raw ∧
      raw.length = Protocol.signatureSize := by
  have size : ∀ first ∈ ([65, 66, 67, 68] : List UInt8),
      (Protocol.decodeB64 (signature first)).map List.length = some Protocol.signatureSize := by
    decide +kernel
  exact Option.map_eq_some_iff.mp (size first h)

set_option maxRecDepth 1000000 in
/-- The first byte of the key of each spelling in these runs. -/
theorem sha256_spellings :
    [signature 65, signature 65 ++ [61], signature 66, signature 67].map
      (fun text => (Lib.sha256 text).head?) = [some 98, some 144, some 95, some 181] := by
  decide +kernel

/-- The two spellings are two keys of the set. -/
theorem sha256_padded : Lib.sha256 (signature 65 ++ [61]) ≠ Lib.sha256 (signature 65) := by
  intro same
  have heads := sha256_spellings
  simp only [List.map_cons, List.cons.injEq, same] at heads
  exact absurd (heads.1.symm.trans heads.2.1) (by decide)

/-- Three signatures are three keys. -/
theorem sha256_signatures : Lib.sha256 (signature 65) ≠ Lib.sha256 (signature 66) ∧
    Lib.sha256 (signature 67) ≠ Lib.sha256 (signature 65) ∧
    Lib.sha256 (signature 67) ≠ Lib.sha256 (signature 66) := by
  have heads := sha256_spellings
  simp only [List.map_cons, List.cons.injEq] at heads
  obtain ⟨h₁, -, h₂, h₃, -⟩ := heads
  refine ⟨?_, ?_, ?_⟩
  · intro same
    exact absurd (h₁.symm.trans (same ▸ h₂)) (by decide)
  · intro same
    exact absurd (h₃.symm.trans (same ▸ h₁)) (by decide)
  · intro same
    exact absurd (h₃.symm.trans (same ▸ h₂)) (by decide)

/-- The server of a run accepts the signatures of its scheme, in any spelling. -/
theorem verify_accepted {accepted : List Signed} {mails : List MailBody} {targets : List Bytes}
    {rotations : List RemoteKeys} {a : Signed} (mem : a ∈ accepted) {pk sig text : Bytes}
    (key : Protocol.decodeB64 a.user.sigPubkey = some pk ∧ pk.length = Protocol.publicKeySize)
    (sig_ : Protocol.decodeB64 a.signature = some sig ∧ sig.length = Protocol.signatureSize)
    (spelling : Protocol.decodeB64 text = Protocol.decodeB64 a.signature) :
    (server accepted mails targets rotations).verify a.user.sigPubkey a.message text = true := by
  obtain ⟨key, keySize⟩ := key
  have parsed : Protocol.parsePublicKey (scheme accepted) a.user.sigPubkey = some pk := by
    unfold Protocol.parsePublicKey
    rw [key]
    exact if_neg (not_not.mpr keySize)
  refine verify_of (s := server accepted mails targets rotations) parsed
    (spelling.trans sig_.1) sig_.2 ?_
  refine List.any_eq_true.mpr ⟨a, mem, ?_⟩
  simp [key, sig_.1]

/-- A request in the name of a user, signed with a signature that the scheme accepts. -/
theorem valid {accepted : List Signed} {mails : List MailBody} {targets : List Bytes}
    {rotations : List RemoteKeys} {a : Signed} (mem : a ∈ accepted) {route : Route}
    {ts text pow path bytes : Bytes} {body : Option Bytes} {signsBody : Bool} {now : Time}
    (message : a.message = Server.signedMessage (request route a.user ts text pow body) path bytes
      signsBody)
    (key : ∃ pk, Protocol.decodeB64 a.user.sigPubkey = some pk ∧
      pk.length = Protocol.publicKeySize)
    (sig : ∃ sig, Protocol.decodeB64 a.signature = some sig ∧
      sig.length = Protocol.signatureSize)
    (spelling : Protocol.decodeB64 text = Protocol.decodeB64 a.signature)
    (nonempty : a.user.username ≠ [] ∧ ts ≠ [] ∧ text ≠ [] ∧ pow ≠ [])
    (work : verifyPoW pow a.user.username now = true) (inTime : Within ts now) :
    Valid (server accepted mails targets rotations) (request route a.user ts text pow body) path
      bytes signsBody a.user now := by
  obtain ⟨pk, key⟩ := key
  obtain ⟨sig, decoded⟩ := sig
  have nonemptyKey : a.user.sigPubkey ≠ [] := by
    intro empty
    obtain ⟨decodedKey, size⟩ := key
    rw [empty] at decodedKey
    cases decodedKey
    cases size
  exact { username := nonempty.1,
          headers := nonempty.2,
          pow := work,
          within := inTime,
          key := nonemptyKey,
          signed := by
            rw [← message]
            exact verify_accepted mem key decoded spelling }

theorem length_fingerprint_le (kem : Bytes) : (fingerprint kem).length ≤ 64 := by
  unfold fingerprint
  split
  · exact Nat.zero_le _
  · rw [length_hexEncode, Lib.length_sha256]

theorem length_signature (first : UInt8) : (signature first).length = 4412 := by
  unfold signature
  rw [List.length_cons, List.length_replicate]

/-- The bodies of these runs are small. -/
theorem small_mail {pow : Bytes} (short : pow.length ≤ 10000) :
    (mailText (mail (signature 65) pow)).length ≤ 1048576 := by
  have bound := length_mailText_le (m := mail (signature 65) pow) rfl
  have signed := length_signature 65
  have hash := length_fingerprint_le bobby.kemPubkey
  have lengths : ["alice", "bobby", "a2V5", "Ym9keQ", "1749513600"].map
      (fun k => (utf8 k).length) = [5, 5, 4, 6, 10] := by decide
  simp only [List.map_cons, List.map_nil, List.cons.injEq, and_true] at lengths
  obtain ⟨n₁, n₂, n₃, n₄, n₅⟩ := lengths
  simp only [mail, Option.getD_some, List.length_nil, n₁, n₂, n₃, n₄, n₅] at bound ⊢
  omega

theorem fingerprint_bobby : fingerprint bobby.kemPubkey ≠ [] := by
  have decodes : (Protocol.decodeKEMKey bobby.kemPubkey).isSome = true := by decide +kernel
  obtain ⟨raw, decoded⟩ := Option.isSome_iff_exists.mp decodes
  unfold fingerprint
  rw [decoded]
  apply List.ne_nil_of_length_pos
  rw [length_hexEncode, Lib.length_sha256]
  decide

theorem sizeOf_four (accepted : List Signed) (mails : List MailBody) (targets : List Bytes)
    (rotations : List RemoteKeys) :
    (server accepted mails targets rotations).sizeOf (utf8 "4") = some 4 := by
  have text : parseInt (utf8 "4") = some 4 := by decide
  have value : (server accepted mails targets rotations).json.float64 (utf8 "4") = some 4 := by
    show (parseInt (utf8 "4")).map (fun n => (n : Rat)) = some 4
    rw [text]
    rfl
  unfold Server.sizeOf
  rw [value]
  decide

/-- A user of the instance, as an address. -/
def here (u : User) (user : Protocol.validUsername u.username = true) : Address :=
  ⟨u.username, utf8 "a.example", true, .inr user, fun h =>
    h.elim nofun fun empty => absurd (empty ▸ user) (by decide)⟩

theorem within {n : Nat} (soon : n < 300000000000) : Within (utf8 "1749513600") (clock n) := by
  have reading : (clock n).ns = 1749513600000000000 + n % 2 ^ 60 := rfl
  refine ⟨1749513600, by decide, ?_, ?_⟩
  all_goals
    unfold Time.unix window
    rw [reading]
    omega

section

variable {accepted : List Signed} {mails : List MailBody} {targets : List Bytes}
  {rotations : List RemoteKeys} {pow : Bytes}

/-- Only the bodies of the run are decoded. -/
theorem mem_of_decoded {r : Request} (b : Submission (server accepted mails targets rotations) r) :
    b.m ∈ mails :=
  List.mem_of_find?_eq_some (p := fun m => mailText m == b.raw) b.decoded

/-- What a submission of the sample mail is parsed to. -/
structure Parsed (b : Submission (server accepted mails targets rotations)
    (submit (mail (signature 65) pow))) : Prop where
  m : b.m = mail (signature 65) pow
  subject : b.encSubject = []
  size : b.size = 4
  sender : b.sender = here alice (by decide)
  recipient : b.recipient = here bobby (by decide)

theorem parsed (accepted : List Signed) (targets : List Bytes) (rotations : List RemoteKeys)
    (known : (mails.find? fun m => mailText m == mailText (mail (signature 65) pow)) =
      some (mail (signature 65) pow))
    (small : (mailText (mail (signature 65) pow)).length ≤ 1048576) (nonempty : pow ≠ []) :
    ∃ b, (server accepted mails targets rotations).parseSubmission
      (submit (mail (signature 65) pow)) = .ok b ∧ Parsed b := by
  have ne : ∀ text ∈ ["alice", "bobby", "a2V5", "Ym9keQ", "1749513600"], utf8 text ≠ [] := by decide
  have complete : Complete (server accepted mails targets rotations) (mail (signature 65) pow) [] 4
      (here alice (by decide)) (here bobby (by decide)) :=
    { strings := ⟨ne _ (by simp), ne _ (by simp), fingerprint_bobby, ne _ (by simp), ne _ (by simp),
        ne _ (by simp), ne _ (by simp), signature_ne_nil 65, nonempty⟩,
      reply := nofun,
      subject := rfl,
      size := sizeOf_four accepted mails targets rotations,
      here := rfl,
      sender := rfl,
      recipient := rfl }
  have read : readBody (submit (mail (signature 65) pow)) 1048576 =
      .ok (mailText (mail (signature 65) pow)) := readBody_ok rfl small
  obtain ⟨b, parsed, -, m, subject, size, sender, recipient⟩ :=
    parseSubmission_ok (s := server accepted mails targets rotations) read known complete
  exact ⟨b, parsed, m, subject, size, sender, recipient⟩

variable {b : Submission (server accepted mails targets rotations)
  (submit (mail (signature 65) pow))}

theorem Parsed.message (h : Parsed b) : b.message = mailMessage := by
  have reply : b.encReplyTo = [] := by rw [b.encReplyTo_eq, h.m]; rfl
  unfold Submission.message
  rw [h.m, h.subject, h.size, reply]
  rfl

theorem Parsed.deliverable (h : Parsed b) (signed : aliceSignsMail ∈ accepted) {now : Time}
    (work : verifyPoW pow (utf8 "alice") now = true) (inTime : Within (utf8 "1749513600") now) :
    Deliverable (server accepted mails targets rotations) b alice bobby now := by
  obtain ⟨pk, key⟩ := decodeB64_sigPubkey 65 (by simp)
  obtain ⟨sig, decoded⟩ := decodeB64_signature 65 (by simp)
  exact { sender := by rw [h.sender]; rfl,
          recipient := by rw [h.recipient]; rfl,
          pow := by rw [h.m]; exact work,
          within := by rw [h.m]; exact inTime,
          sigKey := sigPubkey_ne_nil 65,
          kemKey := kemPubkey_ne_nil 66,
          fingerprint := by rw [h.m]; rfl,
          signed := by
            rw [h.message, h.m]
            exact verify_accepted signed key decoded rfl }

/-- The row of the sample mail. -/
def row (pow : Bytes) (id : Bytes) (now : Time) : Mail :=
  { id := id
    sender := utf8 "alice"
    recipient := utf8 "bobby"
    encKeySender := (mail (signature 65) pow).encKeySender
    encKeyRecipient := (mail (signature 65) pow).encKeyRecipient
    encSubject := []
    encBody := (mail (signature 65) pow).encBody
    size := 4
    signature := signature 65
    timestamp := now.unix
    encReplyTo := []
    ref := [] }

theorem Parsed.row (h : Parsed b) (id : Bytes) (now : Time) :
    ({ b.row now with id := id } : Mail) = row pow id now := by
  have reply : b.encReplyTo = [] := by rw [b.encReplyTo_eq, h.m]; rfl
  unfold Submission.row Sample.row
  rw [h.m, h.subject, h.size, h.sender, h.recipient, reply]
  rfl

/-- Alice's mail arrives in a state that has both users and no blocks, and comes to its INSERT. -/
theorem run_mail
    {ok : Lib.Config (service (server accepted mails targets rotations)) →
      Lib.Label (service (server accepted mails targets rotations)) → Prop}
    {c₀ c : Lib.Config (service (server accepted mails targets rotations))} {P : World → Prop}
    (pow bytes : Bytes) (run : Lib.Run ok c₀ c)
    (allows : Lib.Allows ok (requests c ++ [submit (mail (signature 65) pow)]) P)
    (arrives : ok c (.arrive (submit (mail (signature 65) pow))))
    (signed : aliceSignsMail ∈ accepted)
    (known : (mails.find? fun m => mailText m == mailText (mail (signature 65) pow)) =
      some (mail (signature 65) pow))
    (small : (mailText (mail (signature 65) pow)).length ≤ 1048576) (nonempty : pow ≠ [])
    (work : verifyPoW pow (utf8 "alice") c.shared.clock = true)
    (inTime : Within (utf8 "1749513600") c.shared.clock)
    (users : c.shared.db.users = [alice, bobby]) (open_ : c.shared.db.blocks = [])
    (new : ∀ r ∈ c.shared.db.mail, r.sigHash ≠ sigHash (signature 65))
    (spent : (c.shared.spent.add (Lib.sha256 pow) c.shared.clock).1 = true)
    (ten : bytes.length = 10) (before : P c.shared)
    (after : P { c.shared with
      spent := (c.shared.spent.add (Lib.sha256 pow) c.shared.clock).2 }) :
    ∃ (b : Submission (server accepted mails targets rotations)
        (submit (mail (signature 65) pow))) (k : Except StoreError Unit → Handler Reply)
      (c' : Lib.Config (service (server accepted mails targets rotations))),
      Parsed b ∧ Lib.Run ok c₀ c' ∧
      c'.shared = { c.shared with
        spent := (c.shared.spent.add (Lib.sha256 pow) c.shared.clock).2 } ∧
      c'.threads = c.threads ++ [⟨submit (mail (signature 65) pow),
        checkLog b alice bobby c.shared.clock ++ storeLog b c.shared.clock bytes,
        .ask (.db (.insertMail (row pow (idOf bytes) c.shared.clock))) k⟩] := by
  obtain ⟨b, parsed, h⟩ := parsed accepted targets rotations known small nonempty
  have sender : c.shared.db.getUser b.sender.localName = .ok alice := by
    rw [h.sender, Db.getUser_ok, users]
    exact ⟨List.mem_cons_self, rfl⟩
  have recipient : c.shared.db.getUser b.recipient.localName = .ok bobby := by
    rw [h.recipient, Db.getUser_ok, users]
    exact ⟨List.mem_cons_of_mem _ List.mem_cons_self, rfl⟩
  have unblocked : c.shared.db.blocked b.recipient.stored [b.sender.stored, b.sender.domain]
      = false := by
    unfold Db.blocked
    rw [open_]
    rfl
  have unknown : c.shared.db.mailIDBySignature b.m.signature = .error .notFound := by
    rw [h.m]
    exact Db.mailIDBySignature_unknown new
  have token : b.m.pow = pow := by rw [h.m]; rfl
  rw [← token] at spent after
  obtain ⟨k, run⟩ := run_sendMail run allows arrives rfl parsed (h.deliverable signed work inTime)
    sender recipient unblocked unknown spent ten before after
  rw [h.row, token] at run
  exact ⟨b, k, _, h, run, rfl, rfl⟩

end

end Sample

end Shyake.Go
