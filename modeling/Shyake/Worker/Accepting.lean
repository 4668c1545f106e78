import Shyake.Go.Api.Accepting
import Shyake.Worker.Server

/-!
# Mail that the Worker accepts

How the handler of a mail runs when no check fails, and a small instance with its
users, keys and answers for the examples.
-/

namespace Shyake.Worker

open Lib.Prog

theorem resumes_ask {α : Type} (q : Query) (a : Answer q) {f : Answer q → Handler α} {l : Log}
    {p : Handler α} (h : (f a).Resumes l p) : (ask q >>= f).Resumes (⟨q, a⟩ :: l) p :=
  Resumes.cons (I := Effects) a h

section

variable {e : Env} (userString : Bytes)

/-- The key of a user of this instance. -/
theorem lookup_here (here : (keyOwner e userString).2 = e.instanceDomain) {kem sig : Bytes}
    (ne : kem ≠ [] ∧ sig ≠ []) : (getPubkeyForUser e userString).Resumes
      [⟨.db (.keys (keyOwner e userString).1), some (some (kem, sig))⟩]
      (.ret (some (some ⟨.text kem, .text sig⟩))) := by
  unfold getPubkeyForUser
  dsimp only
  rw [if_pos here]
  refine resumes_ask (.db (.keys _)) (some (some (kem, sig))) ?_
  simp only [ne.1, ne.2, if_false]
  exact .start

/-- The key of a user of another one. -/
theorem lookup_there (there : (keyOwner e userString).2 ≠ e.instanceDomain)
    (federated : e.federationEnabled = true) {body : Bytes} {keys : Keys}
    (decoded : e.keys body = some keys) : (getPubkeyForUser e userString).Resumes
      [⟨.get (pubkeyURL (keyOwner e userString).2 (keyOwner e userString).1), some (200, body)⟩]
      (.ret (some (some keys))) := by
  unfold getPubkeyForUser
  dsimp only
  rw [if_neg there, federated]
  refine resumes_ask (.get _) (some (200, body)) ?_
  have ok : ¬ ¬ (200 ≤ 200 ∧ 200 < 300) := by omega
  simp only [decoded, ok, if_false]
  exact .start

/-- A mail that passes every check at the time `now`; `ls` and `lr` are the two key lookups. -/
structure Deliverable (e : Env) (rawBody : Bytes) (m : MailBody) (sender recipient : Bytes)
    (now : Nat) (ls lr : Log) : Prop where
  from_ : m.sender = .text sender
  to_ : m.recipient = .text recipient
  pow : ∃ pow, m.pow = .text pow ∧ verifyPoW pow sender now = true
  within : inWindow m.timestampText now = true
  keys : ∃ senderUser recipientUser : Keys,
    (getPubkeyForUser e sender).Resumes ls (.ret (some (some senderUser))) ∧
    (getPubkeyForUser e recipient).Resumes lr (.ret (some (some recipientUser))) ∧
    checkSignature e rawBody m.signature senderUser.sig = .ok () ∧
    ∃ kem fp, recipientUser.kem = .text kem ∧ fingerprintOf e kem = some fp ∧ m.fingerprint = .text fp

def checkLog (now : Nat) (ls lr : Log) : Log := ⟨.now, now⟩ :: ⟨.now, now⟩ :: (ls ++ lr)

theorem checkMail_resumes {rawBody : Bytes} {m : MailBody} {sender recipient : Bytes} {now : Nat}
    {ls lr : Log} (ok : Deliverable e rawBody m sender recipient now ls lr) :
    (checkMail e rawBody m).Resumes (checkLog now ls lr)
      (.ret (.ok (sender, recipient, now / 1000))) := by
  obtain ⟨pow, hpow, verified⟩ := ok.pow
  obtain ⟨senderUser, recipientUser, senderKey, recipientKey, signed, kem, fp, hkem, hfp, known⟩ := ok.keys
  unfold checkMail checkLog
  refine resumes_ask .now now ?_
  rw [hpow, ok.from_]
  simp only [verified, Bool.not_true, Bool.false_eq_true, if_false]
  refine resumes_ask .now now ?_
  simp only [ok.within, Bool.not_true, Bool.false_eq_true, if_false]
  refine senderKey.bind.trans ?_
  simp only [ret_bind, ok.to_]
  refine List.append_nil lr ▸ recipientKey.bind.trans ?_
  simp only [ret_bind, hkem, hfp, known, signed, ne_eq, not_true_eq_false, if_false]
  exact .start

/-- A deliverable mail comes to the blocklist. -/
theorem sendMail_resumes {r : Request} {m : MailBody} {isReply : Bool} {sender recipient : Bytes}
    {now : Nat} {ls lr : Log} (parsed : parseMail e r.body = .ok (m, isReply))
    (ok : Deliverable e r.body m sender recipient now ls lr) :
    (sendMail e r).Resumes (checkLog now ls lr)
      (storeMail e r.body isReply sender recipient (now / 1000)) := by
  unfold sendMail
  rw [parsed]
  exact (checkMail_resumes ok).bind

/-- From the blocklist to the relay of a mail that is no reply. -/
def storeLog (e : Env) (sender recipient : Bytes) (indexes : List Nat) : Log :=
  [⟨.db (.blocked (normalizeAddress e.lowering recipient e.instanceDomain)
      (normalizeAddress e.lowering sender e.instanceDomain)
      (addressDomain e.lowering sender e.instanceDomain)), some false⟩, ⟨.random, indexes⟩]

/-- **A deliverable mail for another instance comes to its relay.** -/
theorem handler_relays {r : Request} (route : r.route = .sendMail) {m : MailBody}
    {sender recipient : Bytes} {now : Nat} {ls lr : Log}
    (parsed : parseMail e r.body = .ok (m, false))
    (ok : Deliverable e r.body m sender recipient now ls lr)
    (remote : addressDomain e.lowering recipient e.instanceDomain ≠
      e.lowering.toLowerCase e.instanceDomain) (indexes : List Nat) :
    ∃ k : Option (Nat × Bytes) → Handler Reply, (handler e r).Resumes (I := Effects)
      (checkLog now ls lr ++ storeLog e sender recipient indexes)
      (.ask (.post (mailURL (addressDomain e.lowering recipient e.instanceDomain)) r.body) k) := by
  apply Exists.intro
  unfold handler
  rw [route]
  refine (sendMail_resumes parsed ok).trans ?_
  unfold storeMail storeLog
  refine resumes_ask (.db (.blocked _ _ _)) (some false) (resumes_ask .random indexes ?_)
  unfold relay takesReplies
  dsimp only
  rw [if_neg remote]
  exact .start

/-- A time is read. -/
theorem serves_now {P : World → Prop} {w : World} (before : P w) :
    Lib.Serves (S := service e) P w [⟨.now, w.clock⟩] w :=
  Lib.Serves.start.event .ok before rfl

/-- A key of this instance is found. -/
theorem serves_here {P : World → Prop} {w : World} (before : P w) {username : Bytes} {u : User}
    (found : (w.db.users.find? fun u => u.username == username) = some u) :
    Lib.Serves (S := service e) P w
      [⟨.db (.keys username), some (some (u.kemPubkey, u.sigPubkey))⟩] w := by
  have answer : w.db.exec (.keys username) = (some (some (u.kemPubkey, u.sigPubkey)), w.db) := by
    show (some (w.db.keys username), w.db) = _
    unfold Db.keys
    rw [found]
    rfl
  refine Lib.Serves.start.event .ok before ?_
  show some ((w.db.exec _).1, (⟨w.clock, (w.db.exec _).2⟩ : World)) = _
  rw [answer]
  rfl

/-- Another instance answers. -/
theorem serves_get {P : World → Prop} {w : World} (before : P w) (url : Bytes)
    (answer : Option (Nat × Bytes)) : Lib.Serves (S := service e) P w [⟨.get url, answer⟩] w :=
  Lib.Serves.start.event (.http answer) before rfl

/-- Nobody is blocked, and ten indexes are drawn. -/
theorem serves_store {P : World → Prop} {w : World} (before : P w) (open_ : w.db.blocks = [])
    (sender recipient : Bytes) (indexes : List Nat)
    (ten : indexes.length = 10 ∧ ∀ i ∈ indexes, i < charset.length) :
    Lib.Serves (S := service e) P w (storeLog e sender recipient indexes) w := by
  have none_ (u a d : Bytes) : w.db.exec (.blocked u a d) = (some false, w.db) := by
    show (some (w.db.blocked u a d), w.db) = _
    unfold Db.blocked
    rw [open_]
    rfl
  have drawn : Lib.Serves (S := service e) P w [⟨.random, indexes⟩] w :=
    Lib.Serves.start.event (.random indexes) before (if_pos ten)
  have asked (u a d : Bytes) :
      Lib.Serves (S := service e) P w [⟨.db (.blocked u a d), some false⟩] w := by
    refine Lib.Serves.start.event .ok before ?_
    show some ((w.db.exec _).1, (⟨w.clock, (w.db.exec _).2⟩ : World)) = _
    rw [none_]
    rfl
  exact (asked _ _ _).trans drawn

/-- One request, served as far as its log says. -/
theorem run_first {w w' : World} {r : Request} {l : Log} {p : Handler Reply}
    (served : Lib.Serves (S := service e) (fun _ => True) w l w')
    (handled : (handler e r).Resumes (I := Effects) l p) :
    Lib.Run (fun _ _ => True) (Lib.Config.init (S := service e) w) ⟨w', [⟨r, l, p⟩]⟩ := by
  have fresh : Lib.Run (fun _ _ => True) (Lib.Config.init (S := service e) w)
    (Lib.Config.init (S := service e) w) := .start
  exact fresh.request (P := fun _ => True) r (fun _ _ _ _ _ => trivial) trivial served handled

/-- The same, for a second request. -/
theorem run_second {w w' : World} {r : Request} {l : Log} {p : Handler Reply}
    (t : Lib.Thread (service e)) (served : Lib.Serves (S := service e) (fun _ => True) w l w')
    (handled : (handler e r).Resumes (I := Effects) l p) :
    Lib.Run (fun _ _ => True) (⟨w, [t, Lib.Thread.start r]⟩ : Lib.Config (service e))
      ⟨w', [t, ⟨r, l, p⟩]⟩ := by
  have waits : Lib.Run (fun _ _ => True) (⟨w, [t, Lib.Thread.start r]⟩ : Lib.Config (service e))
    ⟨w, [t, Lib.Thread.start r]⟩ := .start
  exact waits.advance (P := fun _ => True) (fun _ _ _ _ _ => trivial) (i := 1)
    (t := Lib.Thread.start r) rfl served handled

end

/-! ## An instance to run

Instance `c.com`. Its users are those of the other server's runs, and so are the keys,
the signature and the body, which it reads in its own way.
-/

namespace Sample

open Go.Sample (kemPubkey sigPubkey signature mailText)
open Go.Protocol (JsonObj)

/-- What the Worker makes of a body. -/
def read (m : Go.MailBody) : MailBody :=
  let field (s : Bytes) : Field := if s = [] then .missing else .text s
  { sender := field m.sender,
    recipient := field m.recipient,
    fingerprint := field m.fingerprint,
    encKeySender := field m.encKeySender,
    encKeyRecipient := field m.encKeyRecipient,
    hasSubject := m.encSubject.isSome,
    encBody := field m.encBody,
    encReplyTo := m.encReplyTo.map .text,
    hasSize := m.size.isSome,
    timestamp := field m.timestamp,
    timestampText := m.timestamp,
    signature := field m.signature,
    pow := field m.pow }

def signedText (m : Go.MailBody) : Bytes :=
  Go.Protocol.mailMessage m.sender m.recipient m.fingerprint (m.encSubject.getD []) m.encBody []
    m.timestamp 4

/-- The answer to a key lookup. -/
def keysText (u : Go.User) : Bytes :=
  ((JsonObj.str ⟨[]⟩ (utf8 "kem_pubkey") u.kemPubkey).str (utf8 "sig_pubkey") u.sigPubkey).done

def keysOf (u : Go.User) : Keys := ⟨.text u.kemPubkey, .text u.sigPubkey⟩

/-- Lower case, for text in ASCII. -/
def lowering : Lowering where
  toLowerCase := nocase
  at_mem s := by
    have lower (c : UInt8) : (if isUpper c then c + 32 else c) = 64 ↔ c = 64 := by
      split
      · rename_i upper
        simp only [isUpper, Bool.and_eq_true, decide_eq_true_eq, UInt8.le_iff_toNat_le] at upper
        have shifted : (c + 32).toNat = c.toNat + 32 := by
          rw [UInt8.toNat_add]
          exact Nat.mod_eq_of_lt (by have := upper.2; simp at this ⊢; omega)
        have low : 65 ≤ c.toNat := upper.1
        refine iff_of_false (fun e => ?_) (fun e => ?_)
        · rw [e] at shifted
          simp at shifted
          omega
        · rw [e] at low
          exact absurd low (by decide)
      · rfl
    unfold nocase
    simp [lower]

/-- Instance `c.com`, which knows one mail, signed by alice. -/
def env (m : Go.MailBody) : Env where
  lowering := lowering
  mail raw := if raw = mailText m then some (read m) else none
  register _ := none
  target _ := none
  rotate _ := none
  signedMail raw := if raw = mailText m then signedText m else []
  signedRegister _ := []
  keys body := [Go.Sample.alice, Go.Sample.bobby].find? (fun u => keysText u == body) |>.map keysOf
  error _ := []
  protocol _ := none
  atob := Go.Protocol.decodeB64
  verifySignature key message sig := some (key == toBase64Url (sigPubkey 65) &&
    message == signedText m && sig == toBase64Url (signature 65))
  instanceDomain := utf8 "c.com"
  registrationEnabled := true
  reservedUsernames := []
  federationEnabled := true
  maxMailSize := none

def alice : User := ⟨utf8 "alice", kemPubkey 65, sigPubkey 65, 0, by decide⟩
def bobby : User := ⟨utf8 "bobby", kemPubkey 66, sigPubkey 66, 0, by decide⟩

def db : Db := ⟨[alice, bobby], [], []⟩

/-- A mail for bobby, sent at the start of 2025-06-10. -/
def mail (sender recipient pow : Bytes) : Go.MailBody :=
  { Go.Sample.mail (signature 65) pow with sender := sender, recipient := recipient }

def submit (m : Go.MailBody) : Request := ⟨.sendMail, [], [], [], [], mailText m⟩

section

variable {sender recipient pow : Bytes}

theorem env_mail (m : Go.MailBody) : (env m).mail (submit m).body = some (read m) := by
  simp only [env, submit, if_true]

theorem env_signed (m : Go.MailBody) :
    checkSignature (env m) (submit m).body (.text (signature 65)) (.text (sigPubkey 65)) =
      .ok () := by
  have message : (env m).signedMail (submit m).body = signedText m := by
    simp only [env, submit, if_true]
  have verified : (env m).verifySignature (toBase64Url (sigPubkey 65)) (signedText m)
      (toBase64Url (signature 65)) = some true := by
    simp only [env, beq_self_eq_true, Bool.and_self]
  unfold checkSignature
  simp only [message, verified]

theorem atob_kemPubkey : fingerprintOf (env (mail sender recipient pow)) (kemPubkey 66) =
    some (Go.fingerprint (kemPubkey 66)) := by
  have plain : (kemPubkey 66).map (fun c => if c == 45 then 43 else if c == 95 then 47 else c) =
      kemPubkey 66 := by
    unfold kemPubkey
    rw [List.map_cons, List.map_replicate]
    rfl
  have valid : (Go.Protocol.decodeB64 (kemPubkey 66)).isSome = true := by decide +kernel
  obtain ⟨raw, decoded⟩ := Option.isSome_iff_exists.mp valid
  unfold fingerprintOf Go.fingerprint Go.Protocol.decodeKEMKey
  rw [plain]
  show (Go.Protocol.decodeB64 (kemPubkey 66)).map _ = _
  rw [decoded]
  rfl

theorem parseMail_submit (ne : sender ≠ [] ∧ recipient ≠ [] ∧ pow ≠ []) :
    parseMail (env (mail sender recipient pow)) (submit (mail sender recipient pow)).body =
      .ok (read (mail sender recipient pow), false) := by
  have present : Go.fingerprint (kemPubkey 66) ≠ [] ∧ utf8 "a2V5" ≠ [] ∧ utf8 "Ym9keQ" ≠ [] ∧
      utf8 "1749513600" ≠ [] ∧ signature 65 ≠ [] :=
    ⟨by decide +kernel, by decide, by decide, by decide, Go.Sample.signature_ne_nil 65⟩
  have free : ((env (mail sender recipient pow)).maxMailSize.any fun max =>
      (length (submit (mail sender recipient pow)).body : Int) > max) = false := rfl
  unfold parseMail
  rw [free, env_mail]
  have fields : read (mail sender recipient pow) =
      ⟨.text sender, .text recipient, .text (Go.fingerprint (kemPubkey 66)), .text (utf8 "a2V5"),
        .text (utf8 "a2V5"), true, .text (utf8 "Ym9keQ"), none, true, .text (utf8 "1749513600"),
        utf8 "1749513600", .text (signature 65), .text pow⟩ := by
    obtain ⟨h₁, h₂, h₃, h₄, h₅⟩ := present
    simp only [read, mail, Go.Sample.mail, Go.Sample.bobby, ne.1, ne.2.1, ne.2.2, h₁, h₂, h₃, h₄,
      h₅, if_false]
    rfl
  rw [fields]
  rfl

/-- A mail whose keys have been looked up passes the checks. -/
theorem deliverable (ne : sender ≠ [] ∧ recipient ≠ [] ∧ pow ≠ [])
    (work : verifyPoW pow sender 1749513600000 = true) {ls lr : Log}
    (senderKey : (getPubkeyForUser (env (mail sender recipient pow)) sender).Resumes ls
      (.ret (some (some (keysOf Go.Sample.alice)))))
    (recipientKey : (getPubkeyForUser (env (mail sender recipient pow)) recipient).Resumes lr
      (.ret (some (some (keysOf Go.Sample.bobby))))) :
    Deliverable (env (mail sender recipient pow)) (submit (mail sender recipient pow)).body
      (read (mail sender recipient pow)) sender recipient 1749513600000 ls lr := by
  have fp : Go.fingerprint (kemPubkey 66) ≠ [] := by decide +kernel
  exact
    { from_ := if_neg ne.1,
      to_ := if_neg ne.2.1,
      pow := ⟨pow, if_neg ne.2.2, work⟩,
      within := (by decide +kernel : inWindow (utf8 "1749513600") 1749513600000 = true),
      keys := ⟨_, _, senderKey, recipientKey, by
          have text : (read (mail sender recipient pow)).signature = .text (signature 65) :=
            if_neg (Go.Sample.signature_ne_nil 65)
          rw [text]
          exact env_signed _,
        _, _, rfl, atob_kemPubkey, if_neg fp⟩ }

end

end Sample

end Shyake.Worker
