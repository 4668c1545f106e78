import Shyake.Go.Api.Accepting
import Shyake.Go.Api.Alone
import Shyake.Go.Protocol.Identity

/-!
# The blocklist as a set of identities

A user blocks and unblocks identities, and the last operation on an identity decides
whether it is in the list (`lastIn`). The table holds texts: `rows_iff` says that they
are the texts of what the list holds. A sender is looked up by two texts, its own and
its domain's, and the text of a domain without a dot is also that of a local user.
-/

namespace Shyake.Go

open Protocol (Address Identity parseBlockTarget parseAddress validDomain validUsername)

/-! ## Sets by their operations -/

section

variable {κ : Type} [DecidableEq κ]

/-- Whether the last operation on `k`, if there was one, put it in. -/
def lastIn (ops : List (Bool × κ)) (k : κ) : Bool :=
  ops.foldl (fun was op => if op.2 = k then op.1 else was) false

theorem lastIn_nil (k : κ) : lastIn ([] : List (Bool × κ)) k = false := rfl

theorem lastIn_snoc (ops : List (Bool × κ)) (into : Bool) (k k' : κ) :
    lastIn (ops ++ [(into, k)]) k' = if k = k' then into else lastIn ops k' := by
  simp [lastIn]

end

/-! ## Rows -/

namespace Db

/-- The texts in a user's blocklist. -/
def blocksOf (u : Bytes) (db : Db) : List Bytes :=
  (db.blocks.filter fun b => b.blocker == u).map BlockRow.blocked

variable {db : Db} {u v x c : Bytes}

theorem mem_blocksOf : c ∈ db.blocksOf u ↔ ∃ b ∈ db.blocks, b.blocker = u ∧ b.blocked = c := by
  simp [blocksOf, and_assoc]

theorem blocked_iff {candidates : List Bytes} :
    db.blocked u candidates = true ↔ ∃ c ∈ candidates, c ∈ db.blocksOf u := by
  simp only [blocked, List.any_eq_true, Bool.and_eq_true, beq_iff_eq, List.contains_iff_mem,
    mem_blocksOf]
  constructor
  · rintro ⟨b, mem, name, here⟩
    exact ⟨b.blocked, here, b, mem, name, rfl⟩
  · rintro ⟨_, here, b, mem, name, rfl⟩
    exact ⟨b, mem, name, here⟩

theorem mem_blocksOf_addBlock (at_ : Int) :
    c ∈ (db.addBlock u x at_).blocksOf u ↔ c = x ∨ c ∈ db.blocksOf u := by
  simp only [mem_blocksOf, addBlock, deleteBlocksWhere, List.mem_append, List.mem_filter,
    List.mem_singleton]
  constructor
  · rintro ⟨b, ⟨old, -⟩ | rfl, name, rfl⟩
    · exact .inr ⟨b, old, name, rfl⟩
    · exact .inl rfl
  · rintro (rfl | ⟨b, mem, name, rfl⟩)
    · exact ⟨⟨u, c, at_⟩, .inr rfl, rfl, rfl⟩
    · by_cases same : b.blocked = x
      · exact ⟨⟨u, x, at_⟩, .inr rfl, rfl, same.symm⟩
      · exact ⟨b, .inl ⟨mem, by simp [same]⟩, name, rfl⟩

theorem mem_blocksOf_removeBlock :
    c ∈ (db.removeBlock u x).blocksOf u ↔ c ≠ x ∧ c ∈ db.blocksOf u := by
  simp only [mem_blocksOf, removeBlock, deleteBlocksWhere, List.mem_filter]
  constructor
  · rintro ⟨b, ⟨mem, kept⟩, name, rfl⟩
    refine ⟨?_, b, mem, name, rfl⟩
    simpa [name] using kept
  · rintro ⟨ne, b, mem, name, rfl⟩
    exact ⟨b, ⟨mem, by simp [ne]⟩, name, rfl⟩

end Db

/-! ## Sessions -/

/-- The identity a block request names. -/
def Request.names (s : Server) (r : Request) (i : Identity) : Prop :=
  ∃ raw a, r.target s = some raw ∧ parseBlockTarget raw s.cfg.instanceDomain = .ok a ∧
    a.identity = i

/-- The operations of `u` on its blocklist, one request after the other, and what else happens
to the server without touching that list. -/
inductive Session (s : Server) (u : Bytes) (w₀ : World) : List (Bool × Identity) → World → Prop
  | start : Session s u w₀ [] w₀
  | block {ops : List (Bool × Identity)} {w w' : World} {r : Request} {l : Log} {i : Identity}
      (before : Session s u w₀ ops w) (route : r.route = .block) (own : r.username = u)
      (names : r.names s i) (handled : Handled s w r l (.message 201 (utf8 "Blocked") []) w') :
      Session s u w₀ (ops ++ [(true, i)]) w'
  | unblock {ops : List (Bool × Identity)} {w w' : World} {r : Request} {l : Log} {i : Identity}
      (before : Session s u w₀ ops w) (route : r.route = .unblock) (own : r.username = u)
      (names : r.names s i) (handled : Handled s w r l (.message 200 (utf8 "Unblocked") []) w') :
      Session s u w₀ (ops ++ [(false, i)]) w'
  | elsewhere {ops : List (Bool × Identity)} {w w' : World} (before : Session s u w₀ ops w)
      (same : w'.db.blocksOf u = w.db.blocksOf u) : Session s u w₀ ops w'

section

variable {s : Server} {u : Bytes} {w₀ w : World} {ops : List (Bool × Identity)}

/-- Only what a target names is ever in the list. -/
theorem target_of_lastIn (session : Session s u w₀ ops w) {i : Identity}
    (here : lastIn ops i = true) : i.Target s.cfg.instanceDomain := by
  have target : ∀ {r : Request} {j : Identity}, r.names s j → j.Target s.cfg.instanceDomain := by
    rintro r j ⟨raw, a, -, parsed, rfl⟩
    exact ⟨raw, a, parsed, rfl⟩
  induction session with
  | start => cases here
  | @block ops _ _ _ _ j _ _ _ names _ ih | @unblock ops _ _ _ _ j _ _ _ names _ ih =>
    rw [lastIn_snoc] at here
    split at here
    · rename_i same
      exact same ▸ target names
    · exact ih here
  | elsewhere _ _ ih => exact ih here

/-- **The table holds the texts of what the list holds.** -/
theorem rows_iff (session : Session s u w₀ ops w) (empty : w₀.db.blocksOf u = []) (c : Bytes) :
    c ∈ w.db.blocksOf u ↔
      ∃ i, lastIn ops i = true ∧ i.text s.cfg.instanceDomain = c := by
  induction session generalizing c with
  | start => simp [empty, lastIn_nil]
  | @block ops w w' r l i before route own names handled ih =>
    obtain ⟨raw, a, at_, decoded, parsed, added⟩ := handled_block route handled
    obtain ⟨raw', a', decoded', parsed', rfl⟩ := names
    obtain rfl : raw = raw' := Option.some.inj (decoded.symm.trans decoded')
    obtain rfl : a = a' := Except.ok.inj (parsed.symm.trans parsed')
    rw [added, own, Db.mem_blocksOf_addBlock, ih,
      a.stored_eq_text (Protocol.own_of_parseBlockTarget parsed)]
    constructor
    · rintro (rfl | ⟨i, here, text⟩)
      · exact ⟨a.identity, by simp [lastIn_snoc], rfl⟩
      · refine ⟨i, ?_, text⟩
        rw [lastIn_snoc]
        split
        · rfl
        · exact here
    · rintro ⟨i, here, text⟩
      rw [lastIn_snoc] at here
      split at here
      · rename_i same
        exact .inl (by rw [same, text])
      · exact .inr ⟨i, here, text⟩
  | @unblock ops w w' r l i before route own names handled ih =>
    obtain ⟨raw, a, decoded, parsed, removed⟩ := handled_unblock route handled
    obtain ⟨raw', a', decoded', parsed', rfl⟩ := names
    obtain rfl : raw = raw' := Option.some.inj (decoded.symm.trans decoded')
    obtain rfl : a = a' := Except.ok.inj (parsed.symm.trans parsed')
    rw [removed, own, Db.mem_blocksOf_removeBlock, Db.mem_blocksOf_removeBlock, ih,
      a.stored_eq_text (Protocol.own_of_parseBlockTarget parsed)]
    constructor
    · rintro ⟨-, ne, i, here, text⟩
      refine ⟨i, ?_, text⟩
      rw [lastIn_snoc, if_neg]
      · exact here
      · rintro rfl
        exact ne text.symm
    · rintro ⟨i, here, text⟩
      rw [lastIn_snoc] at here
      split at here
      · cases here
      rename_i ne
      have target := target_of_lastIn before here
      refine ⟨?_, ?_, i, here, text⟩
      · rintro rfl
        exact ne (Protocol.identity_of_raw parsed target text)
      · rintro rfl
        exact ne (Protocol.text_injective ⟨raw, a, parsed, rfl⟩ target text.symm)
  | elsewhere _ same ih => rw [same, ih]

/-! ## Senders -/

/-- What the list says of a sender: its user or its domain is in it. -/
def Refuses (ops : List (Bool × Identity)) (sender : Address) : Prop :=
  lastIn ops sender.identity = true ∨ lastIn ops (.domain sender.domain) = true

instance (ops : List (Bool × Identity)) (sender : Address) : Decidable (Refuses ops sender) :=
  inferInstanceAs (Decidable (_ ∨ _))

/-- The local user whose name is the text of the sender's domain. -/
def namesake (s : Server) (sender : Address) : Identity :=
  .user sender.domain (Go.toLower s.cfg.instanceDomain)

theorem validDomain_of_sender (configured : validDomain s.cfg.instanceDomain = true) {m : Bytes}
    {sender : Address} (parsed : parseAddress m s.cfg.instanceDomain = .ok sender) :
    validDomain sender.domain = true := by
  by_cases own : sender.own = true
  · obtain ⟨-, -, same, -⟩ := Protocol.parseAddress_ok parsed
    rw [own] at same
    rw [beq_iff_eq.mp same.symm, Protocol.toLower_of_validDomain configured]
    exact configured
  · exact sender.hosted (.inl (Bool.not_eq_true _ |>.mp own))

/-- The lookup of a sender. -/
theorem blocked_sender (configured : validDomain s.cfg.instanceDomain = true)
    (empty : w₀.db.blocksOf u = []) (session : Session s u w₀ ops w) {m : Bytes} {sender : Address}
    (parsed : parseAddress m s.cfg.instanceDomain = .ok sender) :
    w.db.blocked u [sender.stored, sender.domain] = true ↔
      Refuses ops sender ∨ lastIn ops (namesake s sender) = true := by
  have valid := validDomain_of_sender configured parsed
  have target := Protocol.parseBlockTarget_of_parseAddress parsed
  have own : sender.stored = sender.identity.text s.cfg.instanceDomain :=
    sender.stored_eq_text (Protocol.own_of_parseBlockTarget target)
  rw [Db.blocked_iff]
  simp only [List.mem_cons, List.not_mem_nil, or_false, exists_eq_or_imp, exists_eq_left,
    rows_iff session empty, own]
  constructor
  · rintro (⟨i, here, text⟩ | ⟨i, here, text⟩)
    · have same := Protocol.text_injective (target_of_lastIn session here) ⟨m, sender, target, rfl⟩
        text
      exact .inl (.inl (same ▸ here))
    · rcases Protocol.text_eq_domain valid text with rfl | rfl
      · exact .inl (.inr here)
      · exact .inr here
  · rintro ((here | here) | here)
    · exact .inl ⟨_, here, rfl⟩
    · exact .inr ⟨_, here, rfl⟩
    · exact .inr ⟨_, here, by simp [namesake, Identity.text]⟩

/-- A mail to a local user that comes to the blocklist: handled alone from the state `w`, it is
answered `reply`, and the lookup does not fail. -/
structure Weighed (s : Server) (w : World) {r : Request} (b : Submission s r) (reply : Reply) :
    Prop where
  route : r.route = .sendMail
  parsed : s.parseSubmission r = .ok b
  here : b.recipient.isLocal = true
  handled : ∃ l w' found, Handled s w r l reply w' ∧ Log.Has l (.db b.lookup) (.ok found)

theorem refused_iff (configured : validDomain s.cfg.instanceDomain = true)
    (empty : w₀.db.blocksOf u = []) (session : Session s u w₀ ops w) {r : Request}
    {b : Submission s r} {reply : Reply} (mail : Weighed s w b reply)
    (recipient : b.recipient.localName = u) :
    reply = refusal ↔ Refuses ops b.sender ∨ lastIn ops (namesake s b.sender) = true := by
  obtain ⟨l, w', found, handled, looked⟩ := mail.handled
  have stored := Protocol.stored_of_own b.recipient_parsed mail.here
  rw [handled_mail mail.route handled mail.parsed mail.here looked, stored, recipient]
  exact blocked_sender configured empty session b.sender_parsed

/-- **The blocklist is a set of identities**, as long as no local user in it has the sender's domain
for a name: then a mail is refused if and only if the last operation on its sender, or on its
sender's domain, was a block; and an operation on something else changes nothing for it. -/
theorem blocklist_of_identities (s : Server) (u : Bytes) (w₀ w : World)
    (ops : List (Bool × Identity)) (configured : validDomain s.cfg.instanceDomain = true)
    (empty : w₀.db.blocksOf u = []) (session : Session s u w₀ ops w) (r : Request)
    (b : Submission s r) (reply : Reply) (mail : Weighed s w b reply)
    (recipient : b.recipient.localName = u) :
    ((reply = refusal ↔ Refuses ops b.sender) ↔
      (lastIn ops (namesake s b.sender) = true → Refuses ops b.sender)) ∧
    ∀ (into : Bool) (i : Identity) (w₁ : World) (r₁ : Request) (b₁ : Submission s r₁)
      (reply₁ : Reply), Session s u w₀ (ops ++ [(into, i)]) w₁ → Weighed s w₁ b₁ reply₁ →
      b₁.recipient.localName = u → b₁.sender.identity = b.sender.identity →
      i ≠ b.sender.identity → i ≠ .domain b.sender.domain →
      ((reply₁ = refusal ↔ reply = refusal) ↔
        (i = namesake s b.sender → lastIn ops i = into ∨ Refuses ops b.sender)) := by
  have before := refused_iff configured empty session mail recipient
  constructor
  · rw [before]
    exact or_iff_left_iff_imp
  · intro into i w₁ r₁ b₁ reply₁ session₁ mail₁ recipient₁ sender other otherDomain
    have after := refused_iff configured empty session₁ mail₁ recipient₁
    have domain : b₁.sender.domain = b.sender.domain := by
      have user := Protocol.ne_nil_of_validUsername b.sender_user
      have user₁ := Protocol.ne_nil_of_validUsername b₁.sender_user
      unfold Address.identity at sender
      rw [if_neg user, if_neg user₁] at sender
      exact (Identity.user.inj sender).2
    have same : Refuses (ops ++ [(into, i)]) b₁.sender ↔ Refuses ops b.sender := by
      unfold Refuses
      rw [lastIn_snoc, lastIn_snoc, sender, domain, if_neg other, if_neg otherDomain]
    have named : namesake s b₁.sender = namesake s b.sender := by
      unfold namesake
      rw [domain]
    rw [after, before, same, named, lastIn_snoc]
    split
    · rename_i here
      subst here
      cases into <;> cases lastIn ops (namesake s b.sender) <;> simp
    · rename_i ne
      simp [ne]

end

/-! ## A name that is also a domain -/

/-- The blocklist refuses a deliverable submission. -/
theorem refused_resumes {s : Server} {r : Request} {b : Submission s r} {u v : User} {now : Time}
    (parsed : s.parseSubmission r = .ok b) (ok : Deliverable s b u v now) :
    (s.sendMail r).Resumes (I := Effects) (checkLog b u v now ++ [⟨.db b.lookup, .ok true⟩])
      (.ret refusal) := by
  unfold Server.sendMail
  rw [parsed]
  refine (checkSubmission_resumes ok).bind.trans ?_
  simp only [Lib.Prog.ret_bind, Server.storeSubmission, Server.checkBlocklist, ok.recipient,
    Bool.not_true, Bool.false_eq_true, if_false]
  exact resumes_ask (.db (.blocked _ _)) (.ok true) .start

namespace Sample

def bobbyBlocks : Request :=
  request .block bobby (utf8 "1749513600") (signature 66) (utf8 "1:20:250610:bobby::one:12c85d")
    (some (targetText (utf8 "localhost")))

def bobbySignsBlock : Signed :=
  ⟨bobby, Server.signedMessage bobbyBlocks (utf8 "/api/block") (targetText (utf8 "localhost")) true,
    signature 66⟩

/-- The same server as instance `localhost`. -/
def atLocalhost (s : Server) : Server :=
  { s with cfg := ⟨utf8 "localhost", true, [], true, 1048576⟩ }

abbrev localServer : Server :=
  atLocalhost (server [aliceSignsMail, bobbySignsBlock] [firstMail] [utf8 "localhost"] [])

theorem verify_atLocalhost (s : Server) : (atLocalhost s).verify = s.verify := by
  funext key msg signature
  unfold Server.verify atLocalhost
  dsimp only
  cases Protocol.parsePublicKey s.mldsa key <;> rfl

/-- A user of that instance. -/
def home (name : Bytes) (user : validUsername name = true) : Address :=
  ⟨name, utf8 "localhost", true, .inr user, fun h =>
    h.elim nofun fun empty => absurd (empty ▸ user) (by decide)⟩

theorem valid_bobbyBlocks : Valid localServer bobbyBlocks (utf8 "/api/block")
    (targetText (utf8 "localhost")) true bobby (clock 0) := by
  have ok : Valid (server [aliceSignsMail, bobbySignsBlock] [firstMail] [utf8 "localhost"] [])
      bobbyBlocks (utf8 "/api/block") (targetText (utf8 "localhost")) true bobby (clock 0) :=
    valid (a := bobbySignsBlock) (by simp) rfl (decodeB64_sigPubkey _ (by simp))
      (decodeB64_signature _ (by simp)) rfl ⟨by decide, by decide, signature_ne_nil 66, by decide⟩
      (by decide +kernel) (within (by decide))
  refine ⟨ok.username, ok.headers, ok.pow, ok.within, ok.key, ?_⟩
  rw [verify_atLocalhost]
  exact ok.signed

theorem names_localhost :
    bobbyBlocks.names localServer (.user (utf8 "localhost") (utf8 "localhost")) := by
  have body : readBody bobbyBlocks smallBody = .ok (targetText (utf8 "localhost")) :=
    readBody_ok rfl (by decide)
  have target : localServer.json.target (targetText (utf8 "localhost")) =
      some (utf8 "localhost") := by
    decide +kernel
  refine ⟨utf8 "localhost", home (utf8 "localhost") (by decide), ?_, rfl, rfl⟩
  unfold Request.target
  rw [body]
  exact target

/-- Bobby blocks the local user `localhost`. -/
theorem bobby_blocks : ∃ l w, Handled localServer (World.init (clock 0) db) bobbyBlocks l
      (.message 201 (utf8 "Blocked") []) w ∧
    w.clock = clock 0 ∧ w.db.users = [alice, bobby] ∧
    w.db.blocks = [⟨utf8 "bobby", utf8 "localhost", (clock 0).unix⟩] ∧ w.db.mail = [] := by
  have body : readBody bobbyBlocks smallBody = .ok (targetText (utf8 "localhost")) :=
    readBody_ok rfl (by decide)
  have target : localServer.json.target (targetText (utf8 "localhost")) =
      some (utf8 "localhost") := by
    decide +kernel
  have resumes := block_resumes (s := localServer) body valid_bobbyBlocks target (by decide)
    (t := home (utf8 "localhost") (by decide)) rfl
  have auth := serves_auth (s := localServer) (P := fun _ => True) (r := bobbyBlocks) (u := bobby)
    (w := World.init (clock 0) db) (Db.getUser_ok.mpr ⟨by simp [db, World.init], rfl⟩)
    (TtlSet.add_of_notMem List.not_mem_nil List.not_mem_nil)
    (TtlSet.add_of_notMem List.not_mem_nil List.not_mem_nil) trivial trivial
  refine ⟨_, _, ⟨auth.trans (.cons .ok trivial rfl (serves_db rfl trivial)), resumes⟩, rfl, rfl,
    rfl, rfl⟩

/-- What alice's mail is parsed to there. -/
theorem parsed_local (accepted : List Signed) {mails : List MailBody} (targets : List Bytes)
    (rotations : List RemoteKeys)
    (known : (mails.find? fun m => mailText m == mailText firstMail) = some firstMail) :
    ∃ b, (atLocalhost (server accepted mails targets rotations)).parseSubmission
        (submit firstMail) = .ok b ∧
      b.m = firstMail ∧ b.encSubject = [] ∧ b.size = 4 ∧
      b.sender = home (utf8 "alice") (by decide) ∧
      b.recipient = home (utf8 "bobby") (by decide) := by
  have ne : ∀ text ∈ ["alice", "bobby", "a2V5", "Ym9keQ", "1749513600",
    "1:20:250610:alice::one:6e7368"], utf8 text ≠ [] := by decide
  have complete : Complete (atLocalhost (server accepted mails targets rotations)) firstMail [] 4
      (home (utf8 "alice") (by decide)) (home (utf8 "bobby") (by decide)) :=
    { strings := ⟨ne _ (by simp), ne _ (by simp), fingerprint_bobby, ne _ (by simp), ne _ (by simp),
        ne _ (by simp), ne _ (by simp), signature_ne_nil 65, ne _ (by simp)⟩,
      reply := nofun,
      subject := rfl,
      size := sizeOf_four accepted mails targets rotations,
      here := rfl,
      sender := rfl,
      recipient := rfl }
  have read : readBody (submit firstMail) 1048576 = .ok (mailText firstMail) :=
    readBody_ok rfl (small_mail (by decide))
  obtain ⟨b, parsed, -, m, subject, size, sender, recipient⟩ := parseSubmission_ok
    (s := atLocalhost (server accepted mails targets rotations)) read known complete
  exact ⟨b, parsed, m, subject, size, sender, recipient⟩

/-- After bobby has blocked the user `localhost`, alice's mail is refused. -/
theorem alice_refused {w : World} (now : w.clock = clock 0) (users : w.db.users = [alice, bobby])
    (blocks : w.db.blocks = [⟨utf8 "bobby", utf8 "localhost", (clock 0).unix⟩]) :
    ∃ b : Submission localServer (submit firstMail), Weighed localServer w b refusal ∧
      b.sender = home (utf8 "alice") (by decide) ∧ b.recipient.localName = utf8 "bobby" := by
  have known : ([firstMail].find? fun m => mailText m == mailText firstMail) =
      some firstMail := by
    simp
  obtain ⟨b, parsed, m, subject, size, sender, recipient⟩ := parsed_local [aliceSignsMail, bobbySignsBlock] [utf8 "localhost"] [] known
  have reply : b.encReplyTo = [] := by rw [b.encReplyTo_eq, m]; rfl
  have message : b.message = mailMessage := by
    unfold Submission.message
    rw [m, subject, size, reply]
    rfl
  obtain ⟨pk, key⟩ := decodeB64_sigPubkey 65 (by simp)
  obtain ⟨sig, decoded⟩ := decodeB64_signature 65 (by simp)
  have ok : Deliverable localServer b alice bobby w.clock :=
    { sender := by rw [sender]; rfl,
      recipient := by rw [recipient]; rfl,
      pow := by rw [m, now]; decide +kernel,
      within := by rw [m, now]; exact within (by decide),
      sigKey := sigPubkey_ne_nil 65,
      kemKey := kemPubkey_ne_nil 66,
      fingerprint := by rw [m]; rfl,
      signed := by
        rw [message, m, verify_atLocalhost]
        exact verify_accepted (a := aliceSignsMail) (by simp) key decoded rfl }
  have listed : w.db.blocked b.recipient.stored [b.sender.stored, b.sender.domain] = true := by
    unfold Db.blocked
    rw [blocks, sender, recipient]
    decide
  have from_ : w.db.getUser b.sender.localName = .ok alice :=
    Db.getUser_ok.mpr ⟨by rw [users]; simp, by rw [sender]; rfl⟩
  have to_ : w.db.getUser b.recipient.localName = .ok bobby :=
    Db.getUser_ok.mpr ⟨by rw [users]; simp, by rw [recipient]; rfl⟩
  have checked := serves_checked (s := localServer) (P := fun _ => True) from_ to_ trivial
  have resumes := refused_resumes parsed ok
  have served : Lib.Serves (S := service localServer) (fun _ => True) w
      (checkLog b alice bobby w.clock ++ [⟨.db b.lookup, .ok true⟩]) { w with db := w.db } :=
    checked.trans (serves_db
      (Prod.ext (congrArg Except.ok listed) rfl : w.db.exec b.lookup = (.ok true, w.db)) trivial)
  refine ⟨b, ⟨rfl, parsed, by rw [recipient]; rfl, _, w, true, ⟨served, resumes⟩,
    Log.has_last _ _ _⟩, sender, by rw [recipient]; rfl⟩

/-- **On instance `localhost`** a block of the user `localhost` keeps out everybody. -/
theorem namesake_blocks_domain : ∃ (w : World) (b : Submission localServer (submit firstMail)),
    Session localServer (utf8 "bobby") (World.init (clock 0) db)
      [(true, .user (utf8 "localhost") (utf8 "localhost"))] w ∧
    Weighed localServer w b refusal ∧ b.recipient.localName = utf8 "bobby" ∧
    b.sender.identity = .user (utf8 "alice") (utf8 "localhost") ∧
    ¬ Refuses [(true, .user (utf8 "localhost") (utf8 "localhost"))] b.sender := by
  obtain ⟨l, w, handled, now, users, blocks, -⟩ := bobby_blocks
  obtain ⟨b, mail, sender, recipient⟩ := alice_refused now users blocks
  refine ⟨w, b, Session.start.block rfl rfl names_localhost handled, mail, recipient, ?_, ?_⟩
  · rw [sender]
    rfl
  · rw [sender]
    decide

/-- What the list holds of alice is not what the code says of her. -/
theorem blocklist_of_identities_localhost : ∃ (w : World)
    (b : Submission localServer (submit firstMail)), Weighed localServer w b refusal ∧
    ¬ (lastIn [(true, .user (utf8 "localhost") (utf8 "localhost"))] (namesake localServer b.sender)
        = true → Refuses [(true, .user (utf8 "localhost") (utf8 "localhost"))] b.sender) := by
  obtain ⟨l, w, handled, now, users, blocks, -⟩ := bobby_blocks
  obtain ⟨b, mail, sender, recipient⟩ := alice_refused now users blocks
  have verdict := blocklist_of_identities localServer (utf8 "bobby") (World.init (clock 0) db) w
    [(true, .user (utf8 "localhost") (utf8 "localhost"))] (by decide) rfl
    (Session.start.block rfl rfl names_localhost handled) (submit firstMail) b refusal mail recipient
  refine ⟨w, b, mail, fun condition => ?_⟩
  have open_ : ¬ Refuses [(true, .user (utf8 "localhost") (utf8 "localhost"))] b.sender := by
    rw [sender]
    decide
  exact open_ ((verdict.1.mpr condition).mp rfl)

end Sample

end Shyake.Go
