import Shyake.Worker.Accepting

/-!
# Who the sender is to the Worker

`Guard` says what a mail submission must have learned before it asks for the
blocklist's verdict, and before it is relayed. The key of a sender is looked up by the
parts that `split` makes of it, and its stored form and domain are made from what
stands before and after the first "@": they are about one user when there is no
second "@".
-/

namespace Shyake.Worker

open Lib.Prog

/-- A key lookup of a user string that has returned keys. -/
def LookedUp (e : Env) (l : Log) (userString : Bytes) : Prop :=
  ((keyOwner e userString).2 = e.instanceDomain ∧
    ∃ k, (⟨.db (.keys (keyOwner e userString).1), some (some k)⟩ : Lib.Event Effects) ∈ l) ∨
  ((keyOwner e userString).2 ≠ e.instanceDomain ∧ ∃ status body, 200 ≤ status ∧ status < 300 ∧
    (⟨.get (pubkeyURL (keyOwner e userString).2 (keyOwner e userString).1),
      some (status, body)⟩ : Lib.Event Effects) ∈ l)

theorem LookedUp.mono {e : Env} {l l' : Log} {x : Bytes} (h : LookedUp e l x) (pre : l <+: l') :
    LookedUp e l' x := by
  rcases h with ⟨here, k, mem⟩ | ⟨there, status, body, low, high, mem⟩
  · exact .inl ⟨here, k, pre.subset mem⟩
  · exact .inr ⟨there, status, body, low, high, pre.subset mem⟩

/-- A submission whose checks are passed, with its two addresses. -/
structure Checked (e : Env) (r : Request) (l : Log) (sender recipient : Bytes) : Prop where
  route : r.route = .sendMail
  decoded : ∃ m, e.mail r.body = some m ∧ m.sender = .text sender ∧ m.recipient = .text recipient
  senderKey : LookedUp e l sender
  recipientKey : LookedUp e l recipient

theorem Checked.mono {e : Env} {r : Request} {l l' : Log} {sender recipient : Bytes}
    (h : Checked e r l sender recipient) (pre : l <+: l') : Checked e r l' sender recipient :=
  ⟨h.route, h.decoded, h.senderKey.mono pre, h.recipientKey.mono pre⟩

/-- What must be in the log before a question is asked. -/
def Guard (e : Env) (r : Request) (l : Log) : Query → Prop
  | .db (.blocked blocker stored domain) => ∃ sender recipient, Checked e r l sender recipient ∧
      blocker = normalizeAddress e.lowering recipient e.instanceDomain ∧
      stored = normalizeAddress e.lowering sender e.instanceDomain ∧
      domain = addressDomain e.lowering sender e.instanceDomain
  | .post url body => ∃ sender recipient, Checked e r l sender recipient ∧
      addressDomain e.lowering recipient e.instanceDomain ≠
        e.lowering.toLowerCase e.instanceDomain ∧
      url = mailURL (addressDomain e.lowering recipient e.instanceDomain) ∧ body = r.body
  | _ => True

section

variable {e : Env} {r : Request} {l : Log}

theorem meets_ask_bind {α : Type} {G : Log → Query → Prop} {Q : Log → α → Prop} (q : Query)
    (f : Answer q → Handler α) :
    (ask q >>= f).Meets (I := Effects) G Q l ↔
      G l q ∧ ∀ a, (f a).Meets (I := Effects) G Q (l ++ [⟨q, a⟩]) := Iff.rfl

theorem meets_getPubkeyForUser (userString : Bytes) :
    (getPubkeyForUser e userString).Meets (I := Effects) (Guard e r)
      (fun l' res => ∀ keys, res = some (some keys) → LookedUp e l' userString) l := by
  unfold getPubkeyForUser
  dsimp only
  split
  · rename_i here
    refine (meets_ask_bind _ _).mpr ⟨trivial, fun answer => ?_⟩
    match answer with
    | none => exact nofun
    | some none => exact nofun
    | some (some k) =>
      intro keys _
      exact .inl ⟨here, k, List.mem_append_right _ List.mem_cons_self⟩
  rename_i there
  split
  · exact nofun
  refine (meets_ask_bind _ _).mpr ⟨trivial, fun answer => ?_⟩
  match answer with
  | none => exact nofun
  | some (status, body) =>
    dsimp only
    split
    · exact nofun
    rename_i ok
    simp only [not_not] at ok
    split
    · exact nofun
    · intro keys _
      exact .inr ⟨there, status, body, ok.1, ok.2, List.mem_append_right _ List.mem_cons_self⟩

theorem meets_checkMail (route : r.route = .sendMail) {m : MailBody}
    (decoded : e.mail r.body = some m) : (checkMail e r.body m).Meets (I := Effects) (Guard e r)
      (fun l' res => ∀ sender recipient ts, res = .ok (sender, recipient, ts) →
        Checked e r l' sender recipient) l := by
  unfold checkMail
  refine (meets_ask_bind _ _).mpr ⟨trivial, fun now => ?_⟩
  split
  · rename_i pow sender _ hsender
    split
    · exact nofun
    refine (meets_ask_bind _ _).mpr ⟨trivial, fun now => ?_⟩
    split
    · exact nofun
    refine (meets_getPubkeyForUser sender).bind fun l₁ res _ senderKey => ?_
    match res with
    | none => exact nofun
    | some none => exact nofun
    | some (some senderUser) =>
      dsimp only
      split
      · rename_i recipient hrecipient
        refine (meets_getPubkeyForUser recipient).bind fun l₂ res pre recipientKey => ?_
        match res with
        | none => exact nofun
        | some none => exact nofun
        | some (some recipientUser) =>
          dsimp only
          split
          · exact nofun
          · exact nofun
          split
          · exact nofun
          split
          · exact nofun
          split
          · exact nofun
          intro s t ts same
          obtain ⟨rfl, rest⟩ := Prod.mk.inj (Except.ok.inj same)
          obtain ⟨rfl, -⟩ := Prod.mk.inj rest
          exact ⟨route, ⟨m, decoded, hsender, hrecipient⟩, (senderKey _ rfl).mono pre,
            recipientKey _ rfl⟩
      · exact nofun
  · exact nofun

theorem meets_remoteLevel (domain : Bytes) :
    (remoteLevel e domain).Meets (I := Effects) (Guard e r) (fun _ _ => True) l := by
  unfold remoteLevel
  refine (meets_ask_bind _ _).mpr ⟨trivial, fun answer => ?_⟩
  split
  · trivial
  split
  · trivial
  split
  · trivial
  split <;> trivial

theorem meets_relay {sender recipient : Bytes} (isReply : Bool)
    (checked : Checked e r l sender recipient) :
    (relay e r.body recipient isReply).Meets (I := Effects) (Guard e r) (fun _ _ => True) l := by
  unfold relay
  dsimp only
  split
  · trivial
  rename_i remote
  refine Meets.bind (Q := fun _ _ => True) ?_ fun l₁ res pre _ => ?_
  · unfold takesReplies
    split
    · trivial
    refine (meets_remoteLevel _).bind fun l₁ level _ _ => ?_
    split
    · trivial
    split <;> trivial
  split
  · trivial
  unfold relayMail
  refine Meets.bind (Q := fun _ _ => True) ?_ fun l₂ res _ _ => ?_
  · refine (meets_ask_bind _ _).mpr
      ⟨⟨sender, recipient, checked.mono pre, remote, rfl, rfl⟩, fun answer => ?_⟩
    split
    · trivial
    dsimp only
    split
    · trivial
    split <;> trivial
  · split <;> trivial

theorem meets_storeMail {sender recipient : Bytes} (isReply : Bool) (ts : Nat)
    (checked : Checked e r l sender recipient) :
    (storeMail e r.body isReply sender recipient ts).Meets (I := Effects) (Guard e r)
      (fun _ _ => True) l := by
  unfold storeMail
  refine (meets_ask_bind _ _).mpr
    ⟨⟨sender, recipient, checked, rfl, rfl, rfl⟩, fun blocked => ?_⟩
  split
  · trivial
  · trivial
  refine (meets_ask_bind _ _).mpr ⟨trivial, fun indexes => ?_⟩
  refine (meets_relay isReply (checked.mono
    ((List.prefix_append _ _).trans (List.prefix_append _ _)))).bind fun l₁ relayed _ _ => ?_
  split
  · trivial
  refine (meets_ask_bind _ _).mpr ⟨trivial, fun done => ?_⟩
  split <;> trivial

theorem meets_sendMail (route : r.route = .sendMail) :
    (sendMail e r).Meets (I := Effects) (Guard e r) (fun _ _ => True) l := by
  unfold sendMail
  split
  · trivial
  rename_i m isReply parsed
  have decoded : e.mail r.body = some m := by
    unfold parseMail at parsed
    split at parsed
    · cases parsed
    split at parsed
    · cases parsed
    rename_i m' decoded
    split at parsed
    · cases parsed
    split at parsed
    · cases parsed
      exact decoded
    · cases parsed
      exact decoded
    · cases parsed
  refine (meets_checkMail route decoded).bind fun l₁ res _ checked => ?_
  match res with
  | .error _ => trivial
  | .ok (sender, recipient, ts) => exact meets_storeMail isReply ts (checked _ _ _ rfl)

theorem meets_headerAuth (message : Bytes) (destroyed : Option Bytes) :
    (headerAuth e r message destroyed).Meets (I := Effects) (Guard e r) (fun _ _ => True) l := by
  unfold headerAuth
  split
  · trivial
  refine (meets_ask_bind _ _).mpr ⟨trivial, fun now => ?_⟩
  split
  · trivial
  refine (meets_ask_bind _ _).mpr ⟨trivial, fun now => ?_⟩
  split
  · trivial
  refine (meets_ask_bind _ _).mpr ⟨trivial, fun user => ?_⟩
  split <;> trivial

theorem meets_auth (method path : Bytes) (destroyed : Option Bytes) :
    (auth e r method path destroyed).Meets (I := Effects) (Guard e r) (fun _ _ => True) l := by
  unfold auth
  split
  · trivial
  · exact meets_headerAuth _ _

theorem meets_handleBlock (unblock : Bool) :
    (handleBlock e r unblock).Meets (I := Effects) (Guard e r) (fun _ _ => True) l := by
  unfold handleBlock
  refine (meets_auth _ _ _).bind fun l₁ res _ _ => ?_
  split
  · trivial
  split
  · trivial
  · trivial
  · trivial
  dsimp only
  split
  · refine (meets_ask_bind _ _).mpr ⟨trivial, fun done => ?_⟩
    split <;> trivial
  · refine (meets_ask_bind _ _).mpr ⟨trivial, fun now => ?_⟩
    refine (meets_ask_bind _ _).mpr ⟨trivial, fun done => ?_⟩
    split <;> trivial

theorem meets_rotate : (rotate e r).Meets (I := Effects) (Guard e r) (fun _ _ => True) l := by
  unfold rotate
  refine (meets_auth _ _ _).bind fun l₁ res _ _ => ?_
  split
  · trivial
  split
  · trivial
  split
  · trivial
  split
  · refine (meets_ask_bind _ _).mpr ⟨trivial, fun done => ?_⟩
    split
    · trivial
    refine (meets_ask_bind _ _).mpr ⟨trivial, fun done => ?_⟩
    split <;> trivial
  · trivial

theorem meets_register : (register e r).Meets (I := Effects) (Guard e r) (fun _ _ => True) l := by
  unfold register
  split
  · trivial
  split
  · trivial
  split
  · trivial
  split
  · split
    · trivial
    refine (meets_ask_bind _ _).mpr ⟨trivial, fun now => ?_⟩
    split
    · trivial
    refine (meets_ask_bind _ _).mpr ⟨trivial, fun now => ?_⟩
    split
    · trivial
    split
    · trivial
    · trivial
    refine (meets_ask_bind _ _).mpr ⟨trivial, fun done => ?_⟩
    split <;> trivial
  · trivial

theorem meets_localPubkey (username : Bytes) :
    (localPubkey username).Meets (I := Effects) (Guard e r) (fun _ _ => True) l := by
  refine (meets_ask_bind _ _).mpr ⟨trivial, fun user => ?_⟩
  split <;> trivial

theorem meets_pubkey (username : Bytes) :
    (pubkey e username).Meets (I := Effects) (Guard e r) (fun _ _ => True) l := by
  unfold pubkey
  split
  · dsimp only
    split
    · exact meets_localPubkey _
    split
    · trivial
    refine (meets_ask_bind _ _).mpr ⟨trivial, fun answer => ?_⟩
    split
    · trivial
    split
    · trivial
    split <;> trivial
  · exact meets_localPubkey _

/-- A handler that authenticates first, then runs statements that need no guard. -/
theorem meets_signed {message : Bytes} {destroyed : Option Bytes}
    {f : Except Reply Unit → Handler Reply} (refuses : ∀ reply, f (.error reply) = .ret reply)
    (passed : ∀ l, (f (.ok ())).Meets (I := Effects) (Guard e r) (fun _ _ => True) l) :
    (headerAuth e r message destroyed >>= f).Meets (I := Effects) (Guard e r) (fun _ _ => True) l := by
  refine (meets_headerAuth _ _).bind fun l₁ res _ _ => ?_
  cases res with
  | error reply =>
    rw [refuses]
    trivial
  | ok _ => exact passed l₁

theorem meets_listMail (typ : Bytes) :
    (listMail e r typ).Meets (I := Effects) (Guard e r) (fun _ _ => True) l := by
  refine meets_signed (fun _ => rfl) fun l => (meets_ask_bind _ _).mpr ⟨trivial, fun rows => ?_⟩
  split <;> trivial

theorem meets_getMail (id : Bytes) :
    (getMail e r id).Meets (I := Effects) (Guard e r) (fun _ _ => True) l := by
  refine meets_signed (fun _ => rfl) fun l => (meets_ask_bind _ _).mpr ⟨trivial, fun m => ?_⟩
  split <;> trivial

theorem meets_burnMail (id : Bytes) :
    (burnMail e r id).Meets (I := Effects) (Guard e r) (fun _ _ => True) l := by
  refine meets_signed (fun _ => rfl) fun l => (meets_ask_bind _ _).mpr ⟨trivial, fun own => ?_⟩
  split
  · trivial
  · trivial
  refine (meets_ask_bind _ _).mpr ⟨trivial, fun done => ?_⟩
  split <;> trivial

theorem meets_listBlocks :
    (listBlocks e r).Meets (I := Effects) (Guard e r) (fun _ _ => True) l := by
  refine meets_signed (fun _ => rfl) fun l => (meets_ask_bind _ _).mpr ⟨trivial, fun rows => ?_⟩
  split <;> trivial

theorem meets_destroy :
    (destroy e r).Meets (I := Effects) (Guard e r) (fun _ _ => True) l := by
  refine meets_signed (fun _ => rfl) fun l => (meets_ask_bind _ _).mpr ⟨trivial, fun done => ?_⟩
  split
  · trivial
  refine (meets_ask_bind _ _).mpr ⟨trivial, fun done => ?_⟩
  split
  · trivial
  refine (meets_ask_bind _ _).mpr ⟨trivial, fun done => ?_⟩
  split <;> trivial

/-- **Every question of every request is guarded.** -/
theorem handler_guarded (e : Env) (r : Request) :
    (handler e r).Meets (I := Effects) (Guard e r) (fun _ _ => True) [] := by
  unfold handler
  split
  · exact meets_register
  · rename_i route
    exact meets_sendMail route
  · exact meets_handleBlock _
  · exact meets_handleBlock _
  · exact meets_rotate
  · exact meets_pubkey _
  · exact meets_listMail _
  · exact meets_getMail _
  · exact meets_burnMail _
  · exact meets_listBlocks
  · exact meets_destroy

end

/-! ## What is only looked up -/

/-- A question of the checks of a mail. -/
def Query.looksUp : Query → Prop
  | .now | .db (.keys _) | .get _ => True
  | _ => False

/-- A question to the blocklist. -/
def Query.toBlocklist : Query → Prop
  | .db (.blocked _ _ _) => True
  | _ => False

def Query.relays : Query → Prop
  | .post _ _ => True
  | _ => False

theorem not_toBlocklist {q : Query} (h : q.looksUp) : ¬ q.toBlocklist := by
  unfold Query.looksUp at h
  split at h
  · exact id
  · exact id
  · exact id
  · exact h.elim

theorem not_relays {q : Query} (h : q.looksUp) : ¬ q.relays := by
  unfold Query.looksUp at h
  split at h
  · exact id
  · exact id
  · exact id
  · exact h.elim

section

variable {e : Env} {r : Request}

theorem asks_ask {A : Query → Prop} {α : Type} (q : Query) (f : Answer q → Handler α) :
    (ask q >>= f).Asks (I := Effects) A ↔ A q ∧ ∀ a, (f a).Asks (I := Effects) A := Iff.rfl

theorem getPubkeyForUser_looksUp (userString : Bytes) :
    (getPubkeyForUser e userString).Asks (I := Effects) Query.looksUp := by
  unfold getPubkeyForUser
  dsimp only
  split
  · refine (asks_ask _ _).mpr ⟨trivial, fun answer => ?_⟩
    split <;> trivial
  split
  · trivial
  refine (asks_ask _ _).mpr ⟨trivial, fun answer => ?_⟩
  split
  · trivial
  split
  · trivial
  split <;> trivial

theorem checkMail_looksUp (rawBody : Bytes) (m : MailBody) :
    (checkMail e rawBody m).Asks (I := Effects) Query.looksUp := by
  unfold checkMail
  refine (asks_ask _ _).mpr ⟨trivial, fun now => ?_⟩
  split
  · split
    · trivial
    refine (asks_ask _ _).mpr ⟨trivial, fun now => ?_⟩
    split
    · trivial
    refine (getPubkeyForUser_looksUp _).bind fun res => ?_
    split
    · trivial
    · trivial
    split
    · refine (getPubkeyForUser_looksUp _).bind fun res => ?_
      split
      · trivial
      · trivial
      split
      · trivial
      · trivial
      split
      · trivial
      split
      · trivial
      split <;> trivial
    · trivial
  · trivial

theorem takesReplies_looksUp (domain : Bytes) (isReply : Bool) :
    (takesReplies e domain isReply).Asks (I := Effects) Query.looksUp := by
  unfold takesReplies
  split
  · trivial
  refine Asks.bind ?_ fun level => ?_
  · unfold remoteLevel
    refine (asks_ask _ _).mpr ⟨trivial, fun answer => ?_⟩
    split
    · trivial
    split
    · trivial
    split
    · trivial
    split <;> trivial
  · split
    · trivial
    split <;> trivial

theorem relay_asks (rawBody recipient : Bytes) (isReply : Bool) :
    (relay e rawBody recipient isReply).Asks (I := Effects) fun q => ¬ q.toBlocklist := by
  unfold relay
  dsimp only
  split
  · trivial
  refine ((takesReplies_looksUp _ _).mono fun _ => not_toBlocklist).bind fun res => ?_
  split
  · trivial
  refine Asks.bind ?_ fun res => ?_
  · unfold relayMail
    refine (asks_ask _ _).mpr ⟨id, fun answer => ?_⟩
    split
    · trivial
    dsimp only
    split
    · trivial
    split <;> trivial
  · split <;> trivial

/-- The blocklist is asked first, and once. -/
theorem storeMail_first (rawBody : Bytes) (isReply : Bool) (sender recipient : Bytes) (ts : Nat) :
    ∃ f : Option Bool → Handler Reply, storeMail e rawBody isReply sender recipient ts =
      (exec (.blocked (normalizeAddress e.lowering recipient e.instanceDomain)
        (normalizeAddress e.lowering sender e.instanceDomain)
        (addressDomain e.lowering sender e.instanceDomain)) >>= f) ∧
      f (some true) = .ret (fail 403 "Recipient has blocked this sender") ∧
      ∀ a, (f a).Asks (I := Effects) fun q => ¬ q.toBlocklist := by
  refine ⟨_, rfl, rfl, fun a => ?_⟩
  match a with
  | none => trivial
  | some true => trivial
  | some false =>
    refine (asks_ask _ _).mpr ⟨id, fun indexes => (relay_asks _ _ _).bind fun relayed => ?_⟩
    split
    · trivial
    refine (asks_ask _ _).mpr ⟨id, fun done => ?_⟩
    split <;> trivial

/-- **A mail that the blocklist has is refused.** -/
theorem refused_of_blocked (route : r.route = .sendMail) {l : Log} {blocker stored domain : Bytes}
    {k : Option Bool → Handler Reply} (comes : (handler e r).Resumes (I := Effects) l
      (.ask (.db (.blocked blocker stored domain)) k)) :
    k (some true) = .ret (fail 403 "Recipient has blocked this sender") := by
  unfold handler at comes
  rw [route] at comes
  dsimp only at comes
  unfold sendMail at comes
  split at comes
  · obtain ⟨-, e⟩ := comes.ret_inv
    cases e
  rename_i m isReply parsed
  have checks := (checkMail_looksUp (e := e) r.body m).mono fun _ => not_toBlocklist
  rcases comes.bind_cases with ⟨q, k', first, e⟩ | ⟨l₁, l₂, res, rfl, -, second⟩
  · cases e
    exact absurd trivial (checks.resumes first).2.1
  · match res with
    | .error reply =>
      obtain ⟨-, e⟩ := second.ret_inv
      cases e
    | .ok (sender, recipient, ts) =>
      have second : (storeMail e r.body isReply sender recipient ts).Resumes (I := Effects) l₂
        (.ask (.db (.blocked blocker stored domain)) k) := second
      obtain ⟨f, first, refuses, quiet⟩ := storeMail_first (e := e) r.body isReply sender recipient ts
      rw [first] at second
      have second : (Lib.Prog.ask (I := Effects) (.db (.blocked _ _ _)) f).Resumes l₂
        (.ask (.db (.blocked blocker stored domain)) k) := second
      rcases Resumes.ask_inv (I := Effects) second with ⟨-, e⟩ | ⟨answer, l', -, rest⟩
      · cases e
        exact refuses
      · exact absurd trivial ((quiet answer).resumes rest).2.1

end

/-! ## One sender -/

/-- A username has only letters, digits and underscores. -/
theorem notMem_of_valid {u : Bytes} (h : isValidUsername u = true) {c : UInt8}
    (other : ¬ (isLower c || isUpper c || isDigit c || c == 95) = true) : c ∉ u := by
  intro mem
  unfold isValidUsername at h
  simp only [Bool.and_eq_true, List.all_eq_true] at h
  exact other (h.1.2 c mem)

theorem dot_notMem_of_valid {u : Bytes} (h : isValidUsername u = true) : (46 : UInt8) ∉ u :=
  notMem_of_valid h (by decide)

/-- The form in which a user of an instance is stored. -/
def storedForm (e : Env) (owner : Bytes × Bytes) : Bytes :=
  if e.lowering.toLowerCase owner.2 = e.lowering.toLowerCase e.instanceDomain then owner.1
  else owner.1 ++ 64 :: e.lowering.toLowerCase owner.2

/-- The sender that is stored and looked up in the blocklist is the one whose key was used. -/
structure OneSender (e : Env) (sender : Bytes) : Prop where
  stored : normalizeAddress e.lowering sender e.instanceDomain = storedForm e (keyOwner e sender)
  domain : addressDomain e.lowering sender e.instanceDomain =
    e.lowering.toLowerCase (keyOwner e sender).2

/-- The parts that `split` makes of a text with an "@". -/
theorem split_at {u : Bytes} (rest : Bytes) (bare : (64 : UInt8) ∉ u) :
    (Bytes.split 64 (u ++ 64 :: rest)).getD 0 [] = u ∧
      (Bytes.split 64 (u ++ 64 :: rest)).getD 1 [] = (Bytes.cut 64 rest).1 := by
  have parts : Bytes.split 64 (u ++ 64 :: rest) = u :: Bytes.split 64 rest := by
    unfold Bytes.split
    exact List.splitOn_append_cons_self_of_not_mem bare rest
  rw [parts]
  refine ⟨rfl, ?_⟩
  obtain ⟨bare', made⟩ := Bytes.cut_spec 64 rest
  rcases made with ⟨-, made⟩ | ⟨t, -, made⟩
  · unfold Bytes.split
    rw [List.splitOn_eq_singleton (by rw [made]; exact bare')]
    exact made
  · have again : Bytes.split 64 rest = (Bytes.cut 64 rest).1 :: Bytes.split 64 t := by
      unfold Bytes.split
      conv_lhs => rw [made]
      exact List.splitOn_append_cons_self_of_not_mem bare' t
    rw [again]
    rfl

/-- **One sender**, exactly when it has at most one "@"; a bare name has no dot. -/
theorem oneSender_iff (e : Env) (sender : Bytes)
    (bare : (64 : UInt8) ∉ sender → (46 : UInt8) ∉ sender) :
    OneSender e sender ↔ sender.count 64 ≤ 1 := by
  obtain ⟨bareLocal, ⟨none, -⟩ | ⟨t, some, made⟩⟩ := Bytes.cut_spec 64 sender
  · have cut : Bytes.cut 64 sender = ((Bytes.cut 64 sender).1, Option.none) := Prod.ext rfl none
    have absent : (64 : UInt8) ∉ sender := by
      intro mem
      obtain ⟨a, b, rfl, ha⟩ := List.eq_append_cons_of_mem mem
      rw [Bytes.cut_append ha] at none
      cases none
    have owner : keyOwner e sender = (sender, e.instanceDomain) := by
      unfold keyOwner
      simp [absent]
    refine iff_of_true ⟨?_, ?_⟩ (by simp [List.count_eq_zero.mpr absent])
    · unfold normalizeAddress storedForm
      rw [cut, owner]
      simp [bare absent]
    · unfold addressDomain
      rw [cut, owner]
      simp [bare absent]
  · have cut : Bytes.cut 64 sender = ((Bytes.cut 64 sender).1, Option.some t) := Prod.ext rfl some
    have present : sender.contains 64 = true := by
      rw [made]
      simp
    have owner : keyOwner e sender = ((Bytes.cut 64 sender).1, (Bytes.cut 64 t).1) := by
      obtain ⟨first, second⟩ := split_at t bareLocal
      rw [← made] at first second
      unfold keyOwner
      rw [present, if_pos rfl, if_pos rfl, first, second]
    have count : sender.count 64 = t.count 64 + 1 := by
      rw [made, List.count_append, List.count_cons_self, List.count_eq_zero.mpr bareLocal]
      omega
    have domain : addressDomain e.lowering sender e.instanceDomain = e.lowering.toLowerCase t := by
      unfold addressDomain
      rw [cut]
    rw [count]
    by_cases again : (64 : UInt8) ∈ t
    · have more := List.count_pos_iff.mpr again
      refine iff_of_false (fun same => ?_) (by omega)
      have bareDomain := (Bytes.cut_spec 64 t).1
      have lowered := same.domain
      rw [domain, owner] at lowered
      refine bareDomain ((e.lowering.at_mem _).mp ?_)
      rw [← lowered]
      exact (e.lowering.at_mem _).mpr again
    · have whole : (Bytes.cut 64 t).1 = t := by rw [Bytes.cut_eq_none again]
      refine iff_of_true ⟨?_, ?_⟩ (by simp [List.count_eq_zero.mpr again])
      · unfold normalizeAddress storedForm
        rw [cut, owner, whole]
      · rw [domain, owner, whole]

/-! ## Over runs -/

section

variable {e : Env} {ok : Lib.Config (service e) → Lib.Label (service e) → Prop}
  {clock : Nat} {db : Db} {c : Lib.Config (service e)}

/-- A name that has been looked up with success is valid. -/
theorem valid_of_keys (run : Lib.Run ok (Lib.Config.init (S := service e) ⟨clock, db⟩) c)
    {t : Lib.Thread (service e)} (mem : t ∈ c.threads) {username : Bytes} {k : Bytes × Bytes}
    (read : (⟨.db (.keys username), some (some k)⟩ : Lib.Event Effects) ∈ t.log) :
    isValidUsername username = true := by
  obtain ⟨c', o, w, -, served⟩ := run.served t mem _ read
  rcases serve_db_cases served with ⟨answer, -⟩ | ⟨e, -⟩
  · have found : some k = c'.shared.db.keys username := Option.some.inj answer
    unfold Db.keys at found
    obtain ⟨u, here, -⟩ := Option.map_eq_some_iff.mp found.symm
    have name : u.username = username := by simpa using List.find?_some here
    exact name ▸ u.named
  · cases e

end

namespace Sample

/-- bobby has blocked alice of `b.com`, and all of `b.com`. -/
def blocks : List BlockRow :=
  [⟨utf8 "bobby", utf8 "alice@b.com", 0⟩, ⟨utf8 "bobby", utf8 "b.com", 0⟩]

/-- The run starts on 2025-06-10. -/
def start (m : Go.MailBody) : Lib.Config (service (env m)) :=
  Lib.Config.init (S := service (env m)) ⟨1749513600000, ⟨db.users, db.mail, blocks⟩⟩

/-- A mail to bobby that passes the checks comes to the blocklist. -/
theorem run_blocklist {m : Go.MailBody} {m' : MailBody} {sender : Bytes} {ls : Log}
    (parsed : parseMail (env m) (submit m).body = .ok (m', false))
    (ok : Deliverable (env m) (submit m).body m' sender (utf8 "bobby") 1749513600000 ls
      [⟨.db (.keys (utf8 "bobby")), some (some (bobby.kemPubkey, bobby.sigPubkey))⟩])
    (served : Lib.Serves (S := service (env m)) (fun _ => True)
      ⟨1749513600000, ⟨db.users, db.mail, blocks⟩⟩ ls
      ⟨1749513600000, ⟨db.users, db.mail, blocks⟩⟩) :
    ∃ (l : Log) (k : Option Bool → Handler Reply),
      Lib.Run (fun _ _ => True) (start m)
        ⟨⟨1749513600000, ⟨db.users, db.mail, blocks⟩⟩, [⟨submit m, l,
          .ask (.db (.blocked (utf8 "bobby") (normalizeAddress lowering sender (utf8 "c.com"))
            (addressDomain lowering sender (utf8 "c.com")))) k⟩]⟩ := by
  have resumes := sendMail_resumes (r := submit m) parsed ok
  obtain ⟨f, first, -⟩ := storeMail_first (e := env m) (submit m).body false sender (utf8 "bobby")
    (1749513600000 / 1000)
  have name : normalizeAddress (env m).lowering (utf8 "bobby") (env m).instanceDomain =
      utf8 "bobby" :=
    show normalizeAddress lowering (utf8 "bobby") (utf8 "c.com") = utf8 "bobby" by decide
  rw [first, name] at resumes
  have found : (db.users.find? fun u => u.username == utf8 "bobby") = some bobby := by
    have first : (alice.username == utf8 "bobby") = false := by decide
    have second : (bobby.username == utf8 "bobby") = true := by decide
    simp only [db, List.find?_cons, first, second]
  have served : Lib.Serves (S := service (env m)) (fun _ => True)
      ⟨1749513600000, ⟨db.users, db.mail, blocks⟩⟩
      (checkLog 1749513600000 ls
        [⟨.db (.keys (utf8 "bobby")), some (some (bobby.kemPubkey, bobby.sigPubkey))⟩])
      ⟨1749513600000, ⟨db.users, db.mail, blocks⟩⟩ :=
    ((serves_now trivial).trans (serves_now trivial)).trans
      (served.trans (serves_here trivial found))
  have handled : (handler (env m) (submit m)).Resumes (I := Effects) (checkLog 1749513600000 ls
      [⟨.db (.keys (utf8 "bobby")), some (some (bobby.kemPubkey, bobby.sigPubkey))⟩])
      (.ask (.db (.blocked (utf8 "bobby") (normalizeAddress lowering sender (utf8 "c.com"))
        (addressDomain lowering sender (utf8 "c.com")))) f) := by
    unfold handler
    exact resumes
  exact ⟨_, f, run_first served handled⟩

/-- The key of alice of `b.com`. -/
theorem lookup_alice {m : Go.MailBody} {sender : Bytes}
    (owner : keyOwner (env m) sender = (utf8 "alice", utf8 "b.com")) :
    (getPubkeyForUser (env m) sender).Resumes
      [⟨.get (pubkeyURL (utf8 "b.com") (utf8 "alice")), some (200, keysText Go.Sample.alice)⟩]
      (.ret (some (some (keysOf Go.Sample.alice)))) := by
  have other : (keyOwner (env m) sender).2 ≠ (env m).instanceDomain := by
    rw [owner]
    exact show utf8 "b.com" ≠ utf8 "c.com" by decide
  have decoded : (env m).keys (keysText Go.Sample.alice) = some (keysOf Go.Sample.alice) := by
    show ([Go.Sample.alice, Go.Sample.bobby].find? _).map keysOf = _
    rw [List.find?_cons_of_pos (by exact beq_self_eq_true _)]
    rfl
  have read := lookup_there sender other rfl decoded
  rwa [owner] at read

/-- A mail under that key comes to the blocklist. -/
theorem run_alice (sender pow : Bytes) (ne : sender ≠ [] ∧ pow ≠ [])
    (owner : keyOwner (env (mail sender (utf8 "bobby") pow)) sender =
      (utf8 "alice", utf8 "b.com")) (work : verifyPoW pow sender 1749513600000 = true) :
    ∃ (l : Log) (k : Option Bool → Handler Reply),
      Lib.Run (fun _ _ => True) (start (mail sender (utf8 "bobby") pow))
        ⟨⟨1749513600000, ⟨db.users, db.mail, blocks⟩⟩,
          [⟨submit (mail sender (utf8 "bobby") pow), l,
            .ask (.db (.blocked (utf8 "bobby") (normalizeAddress lowering sender (utf8 "c.com"))
              (addressDomain lowering sender (utf8 "c.com")))) k⟩]⟩ := by
  have named : utf8 "bobby" ≠ [] := by decide
  have to_ := lookup_here (e := env (mail sender (utf8 "bobby") pow)) (utf8 "bobby")
    rfl ⟨Go.Sample.kemPubkey_ne_nil 66, Go.Sample.sigPubkey_ne_nil 66⟩
  exact run_blocklist (parseMail_submit ⟨ne.1, named, ne.2⟩)
    (deliverable ⟨ne.1, named, ne.2⟩ work (lookup_alice owner) to_) (serves_get trivial _ _)

def doubled : Go.MailBody :=
  mail (utf8 "alice@b.com@c.com") (utf8 "bobby") (utf8 "1:20:250610:alice@b.com@c.com::one:1942a")

def single : Go.MailBody :=
  mail (utf8 "alice@b.com") (utf8 "bobby") (utf8 "1:20:250610:alice@b.com::one:3e8e0")

end Sample

end Shyake.Worker
