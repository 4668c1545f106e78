import Shyake.Go.Api.Alone
import Shyake.Go.Api.Accepting

/-!
# Copies of one submission (`sendMail`)

A client that gets no reply sends the same bytes again. Its copies meet in four places
that no lock holds together: the lookup by signature, the spent token, the relay and
the INSERT. `Told` is what a copy has learned once the mail is stored, and `Last` are
the events after which a copy is answered.
-/

namespace Shyake.Go

open Lib.Prog

/-! ## What a submission's log says -/

/-- The id under which the mail of this signature is stored. -/
def Told (signature : Bytes) (l : Log) (id : Bytes) : Prop :=
  l.Has (.db (.mailIDBySignature signature)) (.ok id) ∨
    ∃ m : Mail, m.signature = signature ∧ m.id = id ∧ l.Has (.db (.insertMail m)) (.ok ())

/-- The lookup by signature has been answered. -/
def Looked (signature : Bytes) (l : Log) : Prop :=
  ∃ answer, l.Has (.db (.mailIDBySignature signature)) answer

/-- The other instance has taken the relayed mail. -/
def Taken (answer : Option (Nat × Bytes)) : Prop :=
  ∃ status body, Server.bounded answer = some (status, body) ∧ 200 ≤ status ∧ status < 300

/-- An event with which a submission is decided. -/
inductive Last (signature : Bytes) : Lib.Event Effects → Prop where
  | found (id : Bytes) : Last signature ⟨.db (.mailIDBySignature signature), .ok id⟩
  | stored (m : Mail) (same : m.signature = signature) :
    Last signature ⟨.db (.insertMail m), .ok ()⟩
  | spent (k : Bytes) (now : Time) : Last signature ⟨.spentAdd k now, false⟩
  | refused (url body : Bytes) (answer : Option (Nat × Bytes)) (not_taken : ¬ Taken answer) :
    Last signature ⟨.post url body, answer⟩

/-- Nothing is decided yet. -/
def Undecided (signature : Bytes) (l : Log) : Prop := ∀ e ∈ l, ¬ Last signature e

/-- The questions that come after the lookup. -/
def Query.later : Query → Prop
  | .spentAdd _ _ | .post _ _ | .db (.insertMail _) => True
  | _ => False

/-- A submission asks on while nothing is decided, and past the lookup only after it. -/
def AsksOn (signature : Bytes) (l : Log) (q : Query) : Prop :=
  Undecided signature l ∧ (q.later → Looked signature l) ∧
    ∀ m, q = .db (.insertMail m) → m.signature = signature

/-- The reply 201 names the id, and is given only then. -/
def RepliesTold (signature : Bytes) (l : Log) (reply : Reply) : Prop :=
  (∃ id, Told signature l id ∧ reply = .message 201 (utf8 "Mail sent") id) ∨
    (∀ id, ¬ Told signature l id) ∧ ∀ id, reply ≠ .message 201 (utf8 "Mail sent") id

section

variable {σ : Bytes} {l l' : Log}

theorem Looked.mono (h : Looked σ l) (pre : l <+: l') : Looked σ l' := by
  obtain ⟨answer, has⟩ := h
  exact ⟨answer, has.mono pre⟩

theorem Told.mono {id : Bytes} (h : Told σ l id) (pre : l <+: l') : Told σ l' id := by
  rcases h with found | ⟨m, same, named, stored⟩
  · exact .inl (found.mono pre)
  · exact .inr ⟨m, same, named, stored.mono pre⟩

theorem Undecided.snoc {q : Query} {a : Answer q} (h : Undecided σ l) (other : ¬ Last σ ⟨q, a⟩) :
    Undecided σ (l ++ [⟨q, a⟩]) := by
  intro e mem
  rcases List.mem_append.mp mem with old | new
  · exact h e old
  · obtain rfl := List.mem_singleton.mp new
    exact other

/-- A refused INSERT decides nothing: the next question is why. -/
theorem Undecided.conflict {m : Mail} (h : Undecided σ l) :
    Undecided σ (l ++ [⟨.db (.insertMail m), .error .conflict⟩]) :=
  h.snoc fun last => by cases last

/-- Who has been told is decided. -/
theorem last_of_told {id : Bytes} (h : Told σ l id) : ∃ e ∈ l, Last σ e ∧
    (e = ⟨.db (.mailIDBySignature σ), .ok id⟩ ∨
      ∃ m : Mail, m.signature = σ ∧ m.id = id ∧ e = ⟨.db (.insertMail m), .ok ()⟩) := by
  rcases h with found | ⟨m, same, named, stored⟩
  · exact ⟨_, found, .found id, .inl rfl⟩
  · exact ⟨_, stored, .stored m same, .inr ⟨m, same, named, rfl⟩⟩

theorem told_of_stored {m : Mail} (same : m.signature = σ) :
    Told σ (l ++ [⟨.db (.insertMail m), .ok ()⟩]) m.id :=
  .inr ⟨m, same, rfl, Log.has_last _ _ _⟩

theorem not_told_of_undecided (h : Undecided σ l) (id : Bytes) : ¬ Told σ l id := by
  intro told
  obtain ⟨e, mem, last, -⟩ := last_of_told told
  exact h e mem last

/-- An event that tells nothing leaves it so. -/
theorem not_told_snoc {q : Query} {a : Answer q} (h : Undecided σ l)
    (found : ∀ id, (⟨q, a⟩ : Lib.Event Effects) ≠ ⟨.db (.mailIDBySignature σ), .ok id⟩)
    (stored : ∀ m : Mail, (⟨q, a⟩ : Lib.Event Effects) ≠ ⟨.db (.insertMail m), .ok ()⟩)
    (id : Bytes) : ¬ Told σ (l ++ [⟨q, a⟩]) id := by
  intro told
  obtain ⟨e, mem, last, what⟩ := last_of_told told
  rcases List.mem_append.mp mem with old | new
  · exact h e old last
  · obtain rfl := List.mem_singleton.mp new
    rcases what with same | ⟨m, -, -, same⟩
    · exact found id same
    · exact stored m same

/-- A question that is not about this mail. -/
def Query.aside (q : Query) : Prop := (∀ a : Answer q, ∀ σ, ¬ Last σ ⟨q, a⟩) ∧ ¬ q.later

theorem aside_of_looks (q : Query) (h : q.looks) : q.aside := by
  refine ⟨fun a σ last => ?_, fun later => ?_⟩
  · cases last <;> exact h
  · cases q with
    | db st =>
      cases st with
      | insertMail _ => exact h
      | _ => exact later
    | spentAdd => exact h
    | post => exact h
    | _ => exact later

/-- A part that asks no such question decides nothing. -/
theorem undecided_of_asks {α : Type} {p : Handler α} (asks : p.Asks (I := Effects) Query.aside)
    (h : Undecided σ l) : p.Meets (I := Effects) (AsksOn σ)
      (fun l' _ => Undecided σ l' ∧ l <+: l') l := by
  induction p generalizing l with
  | ret a => exact ⟨h, List.prefix_rfl⟩
  | ask q k ih =>
    refine ⟨⟨h, fun later => absurd later asks.1.2, ?_⟩, fun a => ?_⟩
    · rintro m rfl
      exact absurd trivial asks.1.2
    · refine (ih a (asks.2 a) (h.snoc (asks.1.1 a σ))).mono (fun _ _ _ guard => guard) ?_
      rintro l' - - ⟨open_, pre⟩
      exact ⟨open_, (List.prefix_append _ _).trans pre⟩

end

/-! ## What `sendMail` asks -/

/-- An error is a refusal. -/
def OnlyRefuses {α : Type} : Except Reply α → Prop
  | .error reply => reply.IsFail
  | .ok _ => True

section

variable {s : Server} {r : Request} {b : Submission s r} {σ : Bytes} {l : Log}

theorem checkSubmission_refuses : (s.checkSubmission b).Meets (I := Effects) (fun _ _ => True)
    (fun _ res => OnlyRefuses res) l := by
  have sender : ∀ {l}, (s.senderKey b).Meets (I := Effects) (fun _ _ => True)
      (fun _ res => OnlyRefuses res) l := by
    intro l
    unfold Server.senderKey
    refine Meets.after _ fun l' res _ => ?_
    split
    · exact isFail_fail _ _
    · exact isFail_fail _ _
    · exact isFail_fail _ _
    split
    · exact isFail_fail _ _
    · trivial
  have recipient : ∀ {l}, (s.recipientKey b).Meets (I := Effects) (fun _ _ => True)
      (fun _ res => OnlyRefuses res) l := by
    intro l
    unfold Server.recipientKey
    refine Meets.after _ fun l' res _ => ?_
    split
    · exact isFail_fail _ _
    · exact isFail_fail _ _
    · exact isFail_fail _ _
    split
    · exact isFail_fail _ _
    split
    · trivial
    split
    · exact isFail_fail _ _
    refine Meets.after _ fun l₂ again _ => ?_
    split
    all_goals
      dsimp only
      split
      · trivial
      · exact isFail_fail _ _
  have signature : ∀ {l} k, (s.checkSignature b k).Meets (I := Effects) (fun _ _ => True)
      (fun _ res => OnlyRefuses res) l := by
    intro l k
    unfold Server.checkSignature
    split
    · trivial
    split
    · exact isFail_fail _ _
    refine Meets.after _ fun l' ok _ => ?_
    split
    · trivial
    · exact isFail_fail _ _
  unfold Server.checkSubmission
  refine (meets_ask_bind _ _).mpr ⟨trivial, fun now => ?_⟩
  split
  · exact isFail_fail _ _
  refine Meets.after _ fun l' ok _ => ?_
  split
  · exact isFail_fail _ _
  refine sender.bind fun l' res _ refused => ?_
  split
  · exact refused
  refine recipient.bind fun l' res _ refused => ?_
  split
  · exact refused
  · exact signature _

/-- A part of the handler that does not decide the submission, unless it refuses it. -/
theorem undecided_or_refused {α : Type} {p : Handler (Except Reply α)}
    (asks : p.Asks (I := Effects) Query.aside)
    (refuses : p.Meets (I := Effects) (fun _ _ => True) (fun _ res => OnlyRefuses res) l)
    (h : Undecided σ l) : p.Meets (I := Effects) (AsksOn σ)
      (fun l' res => (Undecided σ l' ∧ l <+: l') ∧ OnlyRefuses res) l :=
  ((undecided_of_asks asks h).and refuses).mono (fun _ _ _ guard => guard.1) fun _ _ _ res => res

theorem checkBlocklist_onlyRefuses (l : Log) : (Server.checkBlocklist b).Meets (I := Effects)
    (fun _ _ => True) (fun _ res => OnlyRefuses res) l := by
  unfold Server.checkBlocklist
  split
  · trivial
  refine (meets_ask_bind _ _).mpr ⟨trivial, fun answer => ?_⟩
  split
  · exact isFail_fail _ _
  · exact isFail_fail _ _
  · trivial

theorem remoteTakesReplies_onlyRefuses (l : Log) : (s.remoteTakesReplies b).Meets (I := Effects)
    (fun _ _ => True) (fun _ res => OnlyRefuses res) l := by
  unfold Server.remoteTakesReplies
  split
  · trivial
  refine Meets.after _ fun l' level _ => ?_
  split
  · exact isFail_fail _ _
  split
  · exact isFail_fail _ _
  · trivial

theorem checkBlocklist_meets (h : Undecided σ l) : (Server.checkBlocklist b).Meets (I := Effects)
    (AsksOn σ) (fun l' res => (Undecided σ l' ∧ l <+: l') ∧ OnlyRefuses res) l := by
  apply undecided_or_refused _ (checkBlocklist_onlyRefuses l) h
  unfold Server.checkBlocklist
  split
  · trivial
  refine (asks_ask _ _).mpr ⟨⟨fun a σ last => (by cases last), id⟩, fun answer => ?_⟩
  split <;> trivial

theorem remoteTakesReplies_meets (h : Undecided σ l) :
    (s.remoteTakesReplies b).Meets (I := Effects) (AsksOn σ)
      (fun l' res => (Undecided σ l' ∧ l <+: l') ∧ OnlyRefuses res) l :=
  undecided_or_refused ((remoteTakesReplies_looks b).mono aside_of_looks)
    (remoteTakesReplies_onlyRefuses l) h

/-- A relay that the other instance has not taken decides the submission. -/
theorem relay_meets (h : Undecided σ l) (looked : Looked σ l) :
    (s.relay b).Meets (I := Effects) (AsksOn σ) (fun l' res => l <+: l' ∧ OnlyRefuses res ∧
      (∀ id, ¬ Told σ l' id) ∧ (res = .ok () → Undecided σ l')) l := by
  unfold Server.relay
  split
  · exact ⟨List.prefix_rfl, trivial, not_told_of_undecided h, fun _ => h⟩
  have posted : (s.relayTo b.recipient.domain b.raw).Meets (I := Effects) (AsksOn σ)
      (fun l' res => l <+: l' ∧ (∀ id, ¬ Told σ l' id) ∧ ∀ status text,
        res = some (status, text) → 200 ≤ status → status < 300 → Undecided σ l') l := by
    unfold Server.relayTo Server.postJSON
    refine (meets_ask_bind _ _).mpr ⟨⟨h, fun _ => looked, nofun⟩, fun answer => ?_⟩
    have untold := not_told_snoc (a := answer) h
      (q := .post (s.url b.recipient.domain (utf8 "/api/mail")) b.raw) (fun _ e => by cases e)
      (fun _ e => by cases e)
    simp only [pure_eq]
    cases kept : Server.bounded answer with
    | none => exact ⟨List.prefix_append _ _, untold, nofun⟩
    | some reply =>
      refine ⟨List.prefix_append _ _, untold, ?_⟩
      rintro status text same lower upper
      cases same
      refine h.snoc fun last => ?_
      cases last with
      | refused _ _ _ not_taken => exact not_taken ⟨_, _, kept, lower, upper⟩
  refine posted.bind fun l' res _ found => ?_
  obtain ⟨pre, untold, taken⟩ := found
  match res with
  | none => exact ⟨pre, isFail_fail _ _, untold, nofun⟩
  | some (status, text) =>
    dsimp only
    split
    · rename_i good
      exact ⟨pre, trivial, untold, fun _ => taken status text rfl good.1 good.2⟩
    split
    · exact ⟨pre, ⟨_, _, rfl⟩, untold, nofun⟩
    · exact ⟨pre, isFail_fail _ _, untold, nofun⟩

/-- An INSERT tells the id, or nothing. -/
theorem insertAttempts_meets (n : Nat) (m : Mail) {l : Log} (h : Undecided m.signature l)
    (looked : Looked m.signature l) : (insertAttempts n m).Meets (I := Effects)
      (AsksOn m.signature) (fun l' res => match res with
        | .ok (id, _) => Told m.signature l' id
        | .error _ => ∀ id, ¬ Told m.signature l' id) l := by
  induction n generalizing l with
  | zero => exact not_told_of_undecided h
  | succ n ih =>
    unfold insertAttempts newMailID
    refine ⟨⟨h, False.elim, fun _ e => by cases e⟩, fun bytes => ?_⟩
    have drawn : Undecided m.signature (l ++ [⟨.random, bytes⟩]) :=
      h.snoc fun last => by cases last
    refine (meets_ask_bind _ _).mpr
      ⟨⟨drawn, fun _ => looked.mono (List.prefix_append _ _), ?_⟩, fun done => ?_⟩
    · intro m' same
      cases same
      rfl
    cases done with
    | ok done => exact told_of_stored rfl
    | error e =>
      cases e with
      | notFound => exact not_told_snoc drawn (fun _ e => by cases e) (fun _ e => by cases e)
      | other => exact not_told_snoc drawn (fun _ e => by cases e) (fun _ e => by cases e)
      | conflict =>
        refine (meets_ask_bind _ _).mpr
          ⟨⟨drawn.conflict, False.elim, fun _ e => by cases e⟩, fun found => ?_⟩
        cases found with
        | ok id => exact .inl (Log.has_last _ _ _)
        | error e =>
          refine ih (drawn.conflict.snoc fun last => by cases last) (looked.mono ?_)
          exact (List.prefix_append _ _).trans ((List.prefix_append _ _).trans
            (List.prefix_append _ _))

theorem not_message_of_isFail {reply : Reply} (h : reply.IsFail) (id : Bytes) :
    reply ≠ .message 201 (utf8 "Mail sent") id := by
  rintro rfl
  exact not_isFail_message h

theorem storeSubmission_meets (same : b.m.signature = σ) (h : Undecided σ l) :
    (s.storeSubmission b).Meets (I := Effects) (AsksOn σ) (RepliesTold σ) l := by
  unfold Server.storeSubmission
  refine (checkBlocklist_meets h).bind fun l₁ res _ ⟨⟨h, _⟩, refused⟩ => ?_
  cases res with
  | error reply => exact .inr ⟨not_told_of_undecided h, not_message_of_isFail refused⟩
  | ok _ =>
    refine (meets_ask_bind _ _).mpr ⟨⟨h, False.elim, nofun⟩, fun found => ?_⟩
    rw [same]
    match found with
    | .ok id => exact .inl ⟨id, .inl (Log.has_last _ _ _), rfl⟩
    | .error e =>
      have looked : Looked σ (l₁ ++ [⟨.db (.mailIDBySignature σ), .error e⟩]) :=
        ⟨_, Log.has_last _ _ _⟩
      have h := h.snoc (q := .db (.mailIDBySignature σ)) (a := .error e) fun last => by cases last
      refine (remoteTakesReplies_meets h).bind fun l₂ res _ ⟨⟨h, pre₂⟩, refused⟩ => ?_
      cases res with
      | error reply => exact .inr ⟨not_told_of_undecided h, not_message_of_isFail refused⟩
      | ok _ =>
        refine (meets_ask_bind _ _).mpr ⟨⟨h, False.elim, nofun⟩, fun now => ?_⟩
        have h := h.snoc (q := .now) (a := now) fun last => by cases last
        have looked := (looked.mono pre₂).mono (List.prefix_append l₂ [⟨.now, now⟩])
        refine (meets_ask_bind _ _).mpr ⟨⟨h, fun _ => looked, nofun⟩, fun new => ?_⟩
        cases new with
        | false =>
          refine .inr ⟨not_told_snoc h (fun _ e => by cases e) (fun _ e => by cases e), ?_⟩
          exact not_message_of_isFail (isFail_fail _ _)
        | true =>
          have h := h.snoc (q := .spentAdd (Lib.sha256 b.m.pow) now) (a := true)
            fun last => by cases last
          have looked := looked.mono (List.prefix_append _
            [⟨.spentAdd (Lib.sha256 b.m.pow) now, true⟩])
          refine (relay_meets h looked).bind fun l₃ res _ ⟨pre₃, refused, untold, went⟩ => ?_
          cases res with
          | error reply => exact .inr ⟨untold, not_message_of_isFail refused⟩
          | ok _ =>
            have h := went rfl
            refine (meets_ask_bind _ _).mpr ⟨⟨h, False.elim, nofun⟩, fun later => ?_⟩
            have h := h.snoc (q := .now) (a := later) fun last => by cases last
            have looked := (looked.mono pre₃).mono (List.prefix_append l₃ [⟨.now, later⟩])
            have row : (b.row later).signature = σ := same
            rw [← row] at h looked ⊢
            refine (insertAttempts_meets 3 (b.row later) h looked).bind fun l₄ res _ told => ?_
            match res with
            | .ok (id, _) => exact .inl ⟨id, told, rfl⟩
            | .error _ => exact .inr ⟨told, not_message_of_isFail (isFail_fail _ _)⟩

theorem isFail_of_parseSubmission {reply : Reply} (h : s.parseSubmission r = .error reply) :
    reply.IsFail := by
  unfold Server.parseSubmission at h
  split at h
  · rename_i refused
    cases h
    exact isFail_of_readBody refused
  split at h
  · cases h
    exact isFail_fail _ _
  split at h
  · cases h
    exact isFail_fail _ _
  split at h
  · cases h
    exact isFail_fail _ _
  split at h
  · cases h
    exact isFail_fail _ _
  · cases h
    exact isFail_fail _ _
  split at h
  · cases h
    exact isFail_fail _ _
  split at h
  · cases h
    exact isFail_fail _ _
  split at h
  · split at h
    · cases h
      exact isFail_fail _ _
    · cases h
  · cases h
    exact isFail_fail _ _

/-- **What a submission of this signature asks and replies.** -/
theorem sendMail_meets (same : ∀ b : Submission s r, b.m.signature = σ) :
    (s.sendMail r).Meets (I := Effects) (AsksOn σ) (RepliesTold σ) [] := by
  unfold Server.sendMail
  cases parsed : s.parseSubmission r with
  | error reply =>
    exact .inr ⟨not_told_of_undecided (fun _ mem => by cases mem),
      not_message_of_isFail (isFail_of_parseSubmission parsed)⟩
  | ok b =>
    have start : Undecided σ ([] : Log) := by
      intro e mem
      cases mem
    refine (undecided_or_refused ((checkSubmission_looks b).mono aside_of_looks)
      checkSubmission_refuses start).bind fun l res _ ⟨⟨h, _⟩, refused⟩ => ?_
    cases res with
    | error reply => exact .inr ⟨not_told_of_undecided h, not_message_of_isFail refused⟩
    | ok _ => exact storeSubmission_meets (same b) h

end

/-! ## Copies in a run -/

/-- A copy of the submission with this body. -/
def IsCopy (raw : Bytes) (r : Request) : Prop := r.route = .sendMail ∧ r.body = some raw

/-- The signature in a body. -/
def Server.signatureOf (s : Server) (raw : Bytes) : Bytes :=
  ((s.json.mail raw).map MailBody.signature).getD []

/-- A copy's lookup is answered while no other copy is past its own, or once a copy has been told
the id; and no statement removes the row. -/
structure Spaced (s : Server) (raw : Bytes) (c : State s) (lab : Lib.Label (service s)) :
    Prop where
  lookup : ∀ (i : Nat) (o : Oracle) (r : Request), lab = .act i o → IsCopy raw r →
    c.pending lab = some (r, .db (.mailIDBySignature (s.signatureOf raw))) →
    (∀ j t, j ≠ i → c.threads[j]? = some t → IsCopy raw t.req →
      ¬ Looked (s.signatureOf raw) t.log) ∨
    o = .ok ∧ ∃ t ∈ c.threads, IsCopy raw t.req ∧ ∃ id, Told (s.signatureOf raw) t.log id
  kept : ∀ r st, c.pending lab = some (r, .db st) → ∀ row ∈ c.shared.db.mail,
    row.sigHash = sigHash (s.signatureOf raw) → row ∈ (c.shared.db.exec st).2.mail

/-- A relay that the other instance has not taken. -/
def RelayFailed (l : Log) : Prop := ∃ url body answer, l.Has (.post url body) answer ∧ ¬ Taken answer

/-- No copy is refused because of another one. -/
structure Unharmed (s : Server) (raw : Bytes) (c : State s) : Prop where
  /-- Its token is not taken for one that has been spent on something else. -/
  not_refused : ∀ (i j : Nat) (t t' : Lib.Thread (service s)), i ≠ j → c.threads[i]? = some t →
    c.threads[j]? = some t' → IsCopy raw t.req → IsCopy raw t'.req → ∀ k k' now now',
    Log.Has t.log (.spentAdd k now) true → ¬ Log.Has t'.log (.spentAdd k' now') false
  /-- All that pass the checks get one id. -/
  same_reply : ∀ (i j : Nat) (t t' : Lib.Thread (service s)), i ≠ j → c.threads[i]? = some t →
    c.threads[j]? = some t' → IsCopy raw t.req → IsCopy raw t'.req → ∀ id reply,
    t.rest = .ret (.message 201 (utf8 "Mail sent") id) → Looked (s.signatureOf raw) t'.log →
    t'.rest = .ret reply → reply = .message 201 (utf8 "Mail sent") id
  /-- After a relay that failed, the mail is relayed again. -/
  relayed_again : ∀ (i j : Nat) (t t' : Lib.Thread (service s)), i ≠ j → c.threads[i]? = some t →
    c.threads[j]? = some t' → IsCopy raw t.req → IsCopy raw t'.req → RelayFailed t.log →
    Looked (s.signatureOf raw) t'.log → ∀ reply, t'.rest = .ret reply →
    ∃ url body answer, Log.Has t'.log (.post url body) answer

section

variable {s : Server} {raw : Bytes} {c : State s} {clock : Time} {db : Db} {r : Request}
  {ok : State s → Lib.Label (service s) → Prop}

theorem signature_of_copy (copy : IsCopy raw r) (b : Submission s r) :
    b.m.signature = s.signatureOf raw := by
  have read := b.read
  unfold readBody at read
  rw [copy.2] at read
  dsimp only at read
  split at read
  · cases read
  · unfold Server.signatureOf
    rw [Except.ok.inj read, b.decoded]
    rfl

/-- What `sendMail_meets` says of the copies. -/
theorem handler_copies (s : Server) (raw : Bytes) (r : Request) :
    (s.handler r).Meets (I := Effects) (fun l q => IsCopy raw r → AsksOn (s.signatureOf raw) l q)
      (fun l reply => IsCopy raw r → RepliesTold (s.signatureOf raw) l reply) [] := by
  by_cases copy : IsCopy raw r
  · have sent : (s.sendMail r).Meets (I := Effects) (AsksOn (s.signatureOf raw))
        (RepliesTold (s.signatureOf raw)) [] := sendMail_meets (signature_of_copy copy)
    unfold Server.handler
    rw [copy.1]
    exact sent.mono (fun _ _ _ guard _ => guard) fun _ _ _ replies _ => replies
  · exact (Meets.always fun _ _ _ yes => absurd yes copy).mono (fun _ _ _ guard => guard)
      fun _ _ _ _ yes => absurd yes copy

/-- At most one event decides a submission. -/
theorem one_last {σ : Bytes} {l : Log} (asked : ∀ l₁ e, l₁ ++ [e] <+: l → Undecided σ l₁)
    {e e' : Lib.Event Effects} (mem : e ∈ l) (mem' : e' ∈ l) (last : Last σ e)
    (last' : Last σ e') : e = e' := by
  obtain ⟨l₁, l₂, rfl⟩ := List.append_of_mem mem
  rcases List.mem_append.mp mem' with before | here
  · exact absurd last' (asked l₁ e ⟨l₂, by simp⟩ e' before)
  rcases List.mem_cons.mp here with rfl | after
  · rfl
  · obtain ⟨l₃, l₄, rfl⟩ := List.append_of_mem after
    exact absurd last (asked (l₁ ++ e :: l₃) e' ⟨l₄, by simp⟩ e (by simp))

variable {t : Lib.Thread (service s)}

theorem asksOn (run : Lib.Run ok (State.start s clock db) c) (mem : t ∈ c.threads)
    (copy : IsCopy raw t.req) {l₁ : Log} {e : Lib.Event Effects} (pre : l₁ ++ [e] <+: t.log) :
    AsksOn (s.signatureOf raw) l₁ e.query :=
  run.logged (handler_copies s raw) t mem l₁ e pre copy

/-- A copy that is past its lookup has been through it. -/
theorem looked_of_later (run : Lib.Run ok (State.start s clock db) c) (mem : t ∈ c.threads)
    (copy : IsCopy raw t.req) {q : Query} {a : Answer q} (has : Log.Has t.log q a)
    (later : q.later) : Looked (s.signatureOf raw) t.log := by
  obtain ⟨l₁, pre⟩ := has.upTo
  exact ((asksOn run mem copy pre).2.1 later).mono ((List.prefix_append _ _).trans pre)

theorem looked_of_told (run : Lib.Run ok (State.start s clock db) c) (mem : t ∈ c.threads)
    (copy : IsCopy raw t.req) {id : Bytes} (told : Told (s.signatureOf raw) t.log id) :
    Looked (s.signatureOf raw) t.log := by
  rcases told with found | ⟨m, -, -, stored⟩
  · exact ⟨_, found⟩
  · exact looked_of_later run mem copy stored trivial

/-- Two different events do not both decide it. -/
theorem not_both (run : Lib.Run ok (State.start s clock db) c) (mem : t ∈ c.threads)
    (copy : IsCopy raw t.req) {id : Bytes} (told : Told (s.signatureOf raw) t.log id)
    {q : Query} {a : Answer q} (has : Log.Has t.log q a)
    (last : Last (s.signatureOf raw) ⟨q, a⟩) :
    q = .db (.mailIDBySignature (s.signatureOf raw)) ∨ ∃ m, q = .db (.insertMail m) := by
  obtain ⟨e, here, last', what⟩ := last_of_told told
  have same := one_last (fun l₁ e pre => (asksOn run mem copy pre).1) has here last last'
  rcases what with rfl | ⟨m, -, -, rfl⟩
  · exact .inl (congrArg Lib.Event.query same)
  · exact .inr ⟨m, congrArg Lib.Event.query same⟩

/-- The id that a copy has been told is that of the row, and all copies past the lookup have been
told it as soon as there are two of them. -/
structure Copies (s : Server) (raw : Bytes) (c : State s) : Prop where
  stored : ∀ t ∈ c.threads, IsCopy raw t.req → ∀ id, Told (s.signatureOf raw) t.log id →
    ∃ row ∈ c.shared.db.mail, row.mail.id = id ∧ row.sigHash = sigHash (s.signatureOf raw)
  met : ∀ (i j : Nat) (t t' : Lib.Thread (service s)), i ≠ j → c.threads[i]? = some t →
    c.threads[j]? = some t' → IsCopy raw t.req → IsCopy raw t'.req →
    Looked (s.signatureOf raw) t.log → Looked (s.signatureOf raw) t'.log →
    ∃ id, Told (s.signatureOf raw) t.log id

/-- A new id that a copy is told is that of a row. -/
theorem row_of_served {w w' : World} {q : Query} {a : Answer q} {σ id : Bytes}
    (served : Served w q a w') (told : Told σ [⟨q, a⟩] id) :
    ∃ row ∈ w'.db.mail, row.mail.id = id ∧ row.sigHash = sigHash σ := by
  rcases told with found | ⟨m, same, rfl, stored⟩
  · cases List.mem_singleton.mp found
    rcases served_db served with ⟨answer, after⟩ | ⟨fails, -⟩
    · rw [after]
      exact Db.mailIDBySignature_ok answer.symm
    · cases fails
  · cases List.mem_singleton.mp stored
    rcases served_db served with ⟨answer, after⟩ | ⟨fails, -⟩
    · rw [after]
      exact ⟨_, Db.mem_of_insertMail answer.symm, rfl, congrArg sigHash same⟩
    · cases fails

/-- What a longer log tells was told before, or by its last event. -/
theorem told_snoc {σ id : Bytes} {l : Log} {e : Lib.Event Effects} (h : Told σ (l ++ [e]) id) :
    Told σ l id ∨ Told σ [e] id := by
  rcases h with found | ⟨m, same, named, stored⟩
  · rcases List.mem_append.mp found with old | new
    · exact .inl (.inl old)
    · exact .inr (.inl new)
  · rcases List.mem_append.mp stored with old | new
    · exact .inl (.inr ⟨m, same, named, old⟩)
    · exact .inr (.inr ⟨m, same, named, new⟩)

theorem looked_snoc {σ : Bytes} {l : Log} {q : Query} {a : Answer q}
    (h : Looked σ (l ++ [⟨q, a⟩])) : Looked σ l ∨ q = .db (.mailIDBySignature σ) := by
  obtain ⟨answer, has⟩ := h
  rcases List.mem_append.mp has with old | new
  · exact .inl ⟨answer, old⟩
  · exact .inr (congrArg Lib.Event.query (List.mem_singleton.mp new)).symm

/-- Every undisturbed step keeps that. -/
theorem copies (run : Lib.Run (Spaced s raw) (State.start s clock db) c) :
    Copies s raw c := by
  refine run.invariant (Copies s raw) ?_ ?_ ?_ ?_
  · constructor
    · intro t mem
      cases mem
    · intro i j t t' _ here
      cases here
  · intro c r _ h _
    have old : ∀ {i : Nat} {t : Lib.Thread (service s)},
        (c.threads ++ [Lib.Thread.start r])[i]? = some t → Looked (s.signatureOf raw) t.log →
          c.threads[i]? = some t := by
      intro i t here looked
      rcases Nat.lt_or_ge i c.threads.length with lt | ge
      · rwa [List.getElem?_append_left lt] at here
      · rw [List.getElem?_append_right ge] at here
        obtain rfl := List.mem_singleton.mp (List.mem_of_getElem? here)
        obtain ⟨answer, has⟩ := looked
        cases has
    constructor
    · intro t mem copy id told
      rcases List.mem_append.mp mem with old | new
      · exact h.stored t old copy id told
      · obtain rfl := List.mem_singleton.mp new
        exact absurd told (not_told_of_undecided (fun _ mem => by cases mem) id)
    · intro i j t t' ne hi hj copy copy' looked looked'
      exact h.met i j t t' ne (old hi looked) (old hj looked') copy copy' looked looked'
  · intro c i o t q k a w before h cond acts
    have served : Served c.shared q a w := served_of_serve acts.served
    -- the row stays
    have stays : ∀ row ∈ c.shared.db.mail, row.sigHash = sigHash (s.signatureOf raw) →
        row ∈ w.db.mail := by
      intro row here hash
      rcases served_dbState served with same | ⟨st, rfl, same⟩
      · exact same ▸ here
      · rw [same]
        exact cond.kept _ st acts.pending row here hash
    constructor
    · intro t' mem copy id told
      have old : ∀ t₀ ∈ c.threads, IsCopy raw t₀.req → Told (s.signatureOf raw) t₀.log id →
          ∃ row ∈ w.db.mail, row.mail.id = id ∧ row.sigHash = sigHash (s.signatureOf raw) := by
        intro t₀ mem₀ copy₀ told₀
        obtain ⟨row, here, named, hash⟩ := h.stored t₀ mem₀ copy₀ id told₀
        exact ⟨row, stays row here hash, named, hash⟩
      rcases List.mem_or_eq_of_mem_set mem with before_ | rfl
      · exact old t' before_ copy told
      · rcases told_snoc told with told | new
        · exact old t acts.mem copy told
        · exact row_of_served served new
    · -- a copy whose lookup comes after another one finds the row
      have finds : IsCopy raw t.req → ¬ Looked (s.signatureOf raw) t.log →
          ∀ j t', j ≠ i → c.threads[j]? = some t' → IsCopy raw t'.req →
          Looked (s.signatureOf raw) t'.log → Looked (s.signatureOf raw) (t.log ++ [⟨q, a⟩]) →
          (∃ id, Told (s.signatureOf raw) (t.log ++ [⟨q, a⟩]) id) ∧
            ∃ id, Told (s.signatureOf raw) t'.log id := by
        intro copy unlooked j t' ne hj copy' looked' now_
        rcases looked_snoc now_ with before_ | rfl
        · exact absurd before_ unlooked
        rcases cond.lookup i o t.req rfl copy acts.pending with alone | ⟨rfl, t₁, mem₁, copy₁, id, told₁⟩
        · exact absurd looked' (alone j t' ne hj copy')
        obtain ⟨row, here, named, hash⟩ := h.stored t₁ mem₁ copy₁ id told₁
        obtain ⟨id', found⟩ := Db.mailIDBySignature_known here hash
        have answer : a = .ok id' := by
          have served := acts.served
          exact (Prod.mk.inj (Option.some.inj served)).1.symm.trans found
        refine ⟨⟨id', .inl ?_⟩, ?_⟩
        · rw [answer]
          exact Log.has_last _ _ _
        · obtain ⟨j₁, hj₁⟩ := List.mem_iff_getElem?.mp mem₁
          by_cases same : j = j₁
          · subst same
            obtain rfl := Option.some.inj (hj.symm.trans hj₁)
            exact ⟨id, told₁⟩
          · exact h.met j j₁ t' t₁ same hj hj₁ copy' copy₁ looked'
              (looked_of_told before mem₁ copy₁ told₁)
      have lt : i < c.threads.length := (List.getElem?_eq_some_iff.mp acts.thread).1
      intro i' j t₁ t₂ ne hi hj copy₁ copy₂ looked₁ looked₂
      by_cases same : i = i'
      · subst same
        rw [List.getElem?_set_self lt] at hi
        obtain rfl := Option.some.inj hi
        rw [List.getElem?_set_ne ne] at hj
        by_cases looked : Looked (s.signatureOf raw) t.log
        · obtain ⟨id, told⟩ := h.met i j t t₂ ne acts.thread hj copy₁ copy₂ looked looked₂
          exact ⟨id, told.mono (List.prefix_append _ _)⟩
        · exact (finds copy₁ looked j t₂ ne.symm hj copy₂ looked₂ looked₁).1
      · rw [List.getElem?_set_ne same] at hi
        by_cases same' : i = j
        · subst same'
          rw [List.getElem?_set_self lt] at hj
          obtain rfl := Option.some.inj hj
          by_cases looked : Looked (s.signatureOf raw) t.log
          · exact h.met i' i t₁ t ne hi acts.thread copy₁ copy₂ looked₁ looked
          · exact (finds copy₂ looked i' t₁ ne hi copy₁ looked₁ looked₂).2
        · rw [List.getElem?_set_ne same'] at hj
          exact h.met i' j t₁ t₂ ne hi hj copy₁ copy₂ looked₁ looked₂
  · intro c d w _ h _ moved
    obtain ⟨-, -, same⟩ := drift_clock moved
    exact ⟨fun t mem copy id told => same ▸ h.stored t mem copy id told, h.met⟩

end

/-! ## How a copy is refused -/

section

variable {s : Server} {r : Request} {b : Submission s r} {u v : User} {now : Time}

/-- From the blocklist to a token that has been spent. -/
def spentLog (b : Submission s r) (now : Time) : Log :=
  [⟨.db (.blocked b.recipient.stored [b.sender.stored, b.sender.domain]), .ok false⟩,
    ⟨.db (.mailIDBySignature b.m.signature), .error .notFound⟩, ⟨.now, now⟩,
    ⟨.spentAdd (Lib.sha256 b.m.pow) now, false⟩]

theorem spent_resumes (parsed : s.parseSubmission r = .ok b) (ok : Deliverable s b u v now) :
    (s.sendMail r).Resumes (I := Effects) (checkLog b u v now ++ spentLog b now)
      (.ret (fail 403 "Invalid Proof of Work")) := by
  unfold Server.sendMail
  rw [parsed]
  refine (checkSubmission_resumes ok).bind.trans ?_
  simp only [ret_bind, Server.storeSubmission, Server.checkBlocklist, ok.recipient, Bool.not_true,
    Bool.false_eq_true, if_false]
  refine resumes_ask (.db (.blocked _ _)) (.ok false) ?_
  refine resumes_ask (.db (.mailIDBySignature _)) (.error .notFound) ?_
  simp only [Server.remoteTakesReplies, ok.recipient, or_true, if_true, pure_eq, ret_bind]
  exact resumes_ask .now now (resumes_ask (.spentAdd _ _) false .start)

theorem serves_spent {P : World → Prop} {w : World}
    (sender : w.db.getUser b.sender.localName = .ok u)
    (recipient : w.db.getUser b.recipient.localName = .ok v)
    (open_ : w.db.blocked b.recipient.stored [b.sender.stored, b.sender.domain] = false)
    (new : w.db.mailIDBySignature b.m.signature = .error .notFound)
    (spent : (w.spent.add (Lib.sha256 b.m.pow) w.clock).1 = false) (before : P w) :
    Lib.Serves (S := service s) P w (checkLog b u v w.clock ++ spentLog b w.clock)
      { w with spent := (w.spent.add (Lib.sha256 b.m.pow) w.clock).2 } := by
  refine (serves_checked sender recipient before).trans ?_
  refine .cons .ok before (serve_read (Prod.ext (congrArg Except.ok open_) rfl)) ?_
  refine .cons .ok before (serve_read (Prod.ext new rfl)) (.cons .ok before rfl ?_)
  exact .cons .ok before (congrArg (fun x => some (x, _)) spent) .start

/-- A mail from here to here finds its token spent. -/
theorem run_spent {ok : State s → Lib.Label (service s) → Prop} {c₀ c : State s}
    {P : World → Prop} (run : Lib.Run ok c₀ c) (allows : Lib.Allows ok (requests c ++ [r]) P)
    (arrives : ok c (.arrive r)) (route : r.route = .sendMail)
    (parsed : s.parseSubmission r = .ok b) (deliverable : Deliverable s b u v c.shared.clock)
    (sender : c.shared.db.getUser b.sender.localName = .ok u)
    (recipient : c.shared.db.getUser b.recipient.localName = .ok v)
    (open_ : c.shared.db.blocked b.recipient.stored [b.sender.stored, b.sender.domain] = false)
    (new : c.shared.db.mailIDBySignature b.m.signature = .error .notFound)
    (spent : (c.shared.spent.add (Lib.sha256 b.m.pow) c.shared.clock).1 = false)
    (before : P c.shared) :
    Lib.Run ok c₀ ⟨{ c.shared with
        spent := (c.shared.spent.add (Lib.sha256 b.m.pow) c.shared.clock).2 },
      c.threads ++ [⟨r, checkLog b u v c.shared.clock ++ spentLog b c.shared.clock,
        .ret (fail 403 "Invalid Proof of Work")⟩]⟩ := by
  refine run.request r allows arrives
    (serves_spent sender recipient open_ new spent before) ?_
  show (s.handler r).Resumes _ _
  unfold Server.handler
  rw [route]
  exact spent_resumes parsed deliverable

end

/-- An INSERT that succeeds is the last question. -/
theorem reply_of_stored {s : Server} {ok : State s → Lib.Label (service s) → Prop} {clock : Time}
    {db : Db} {c : State s} (run : Lib.Run ok (State.start s clock db) c)
    {t : Lib.Thread (service s)} (mem : t ∈ c.threads) {raw : Bytes} (copy : IsCopy raw t.req)
    {l : Log} {m : Mail} (signed : m.signature = s.signatureOf raw)
    (stored : t.log = l ++ [⟨.db (.insertMail m), .ok ()⟩]) :
    ∃ id, t.rest = .ret (.message 201 (utf8 "Mail sent") id) := by
  have left := run.guarded (handler_copies s raw) t mem
  have told : Told (s.signatureOf raw) t.log m.id := by
    rw [stored]
    exact told_of_stored signed
  cases rest : t.rest with
  | ask q f =>
    rw [rest] at left
    exact absurd told (not_told_of_undecided (left.1 copy).1 m.id)
  | ret reply =>
    rw [rest] at left
    rcases left copy with ⟨id, -, rfl⟩ | ⟨none_, -⟩
    · exact ⟨id, rfl⟩
    · exact absurd told (none_ m.id)

/-- A key that has just been added is refused. -/
theorem TtlSet.add_twice {s : TtlSet} {k : Bytes} {now : Time} (pos : 0 < s.ttl)
    (room : s.cur.length + 1 < s.max) (new : (s.add k now).1 = true) :
    ((s.add k now).2.add k now).1 = false := by
  have length := TtlSet.length_cur_add s k now
  have kept : (s.add k now).2.Remembers k now now := TtlSet.remembers_add pos new
  refine Bool.eq_false_iff.mpr fun again => ?_
  have gone := kept.refused (by rw [TtlSet.add_max]; omega) (Time.le_refl now) again
  rw [TtlSet.add_ttl] at gone
  omega

namespace Sample

def firstToken : Bytes := utf8 "1:20:250610:alice::one:6e7368"

/-- The mail that is posted twice. -/
abbrev twice : MailBody := mail (signature 65) firstToken

abbrev copyServer : Server := server [aliceSignsMail] [twice] [] []

theorem knows_twice : ([twice].find? fun m => mailText m == mailText twice) = some twice :=
  List.find?_cons_of_pos (beq_self_eq_true _)

theorem small_twice : (mailText twice).length ≤ 1048576 :=
  small_mail (by decide)

theorem work_twice : Protocol.verifyPoW firstToken (utf8 "alice") (clock 0) = true := by
  decide +kernel

variable {ok : State copyServer → Lib.Label (service copyServer) → Prop}

variable (ok) in
/-- The first copy comes to its INSERT. -/
theorem first_copy (allows : ∀ reqs, Lib.Allows (S := service copyServer) ok reqs fun _ => True)
    (arrives : ok (State.start copyServer (clock 0) db) (.arrive (submit twice))) :
    ∃ (l : Log) (m : Mail) (k : Except StoreError Unit → Handler Reply) (c : State copyServer),
      Lib.Run ok (State.start copyServer (clock 0) db) c ∧
      c.shared = { World.init (clock 0) db with spent := ((TtlSet.new (seconds (72 * 3600))
        250000).add (Lib.sha256 firstToken) (clock 0)).2 } ∧
      c.threads = [⟨submit twice, l, .ask (.db (.insertMail m)) k⟩] ∧
      m.signature = signature 65 ∧
      ∃ token, l.Has (.spentAdd token (clock 0)) true := by
  obtain ⟨b, k, c, h, run, shared, threads⟩ := run_mail (P := fun _ => True) firstToken
    (List.replicate 10 0) (.start : Lib.Run ok (State.start copyServer (clock 0) db) _) (allows _)
    arrives (by simp) knows_twice small_twice (by decide) work_twice (within (by decide)) rfl rfl
    (fun _ mem => by cases mem) (TtlSet.add_of_notMem List.not_mem_nil List.not_mem_nil) rfl
    trivial trivial
  have paid : Log.Has (storeLog b (clock 0) (List.replicate 10 0))
      (.spentAdd (Lib.sha256 b.m.pow) (clock 0)) true :=
    List.mem_cons_of_mem _ (List.mem_cons_of_mem _ (List.mem_cons_of_mem _ List.mem_cons_self))
  exact ⟨_, _, k, c, run, shared, threads, rfl, _, List.mem_append_right _ paid⟩

section

variable {accepted : List Signed} {mails : List MailBody} {targets : List Bytes}
  {rotations : List RemoteKeys} {pow : Bytes}

theorem signatureOf_known {m : MailBody}
    (known : (mails.find? fun m' => mailText m' == mailText m) = some m) :
    (server accepted mails targets rotations).signatureOf (mailText m) = m.signature :=
  congrArg (fun found => (found.map MailBody.signature).getD []) known

/-- Alice's mail arrives in a state that has both users and no blocks, and finds its token spent. -/
theorem run_refused
    {ok : State (server accepted mails targets rotations) →
      Lib.Label (service (server accepted mails targets rotations)) → Prop}
    {c₀ c : State (server accepted mails targets rotations)} (run : Lib.Run ok c₀ c)
    (allows : Lib.Allows ok (requests c ++ [submit (mail (signature 65) pow)]) fun _ => True)
    (arrives : ok c (.arrive (submit (mail (signature 65) pow))))
    (signed : aliceSignsMail ∈ accepted)
    (known : (mails.find? fun m => mailText m == mailText (mail (signature 65) pow)) =
      some (mail (signature 65) pow))
    (small : (mailText (mail (signature 65) pow)).length ≤ 1048576) (nonempty : pow ≠ [])
    (work : Protocol.verifyPoW pow (utf8 "alice") c.shared.clock = true)
    (inTime : Within (utf8 "1749513600") c.shared.clock)
    (users : c.shared.db.users = [alice, bobby]) (open_ : c.shared.db.blocks = [])
    (new : ∀ r ∈ c.shared.db.mail, r.sigHash ≠ sigHash (signature 65))
    (spent : (c.shared.spent.add (Lib.sha256 pow) c.shared.clock).1 = false) :
    ∃ (l : Log) (c' : State (server accepted mails targets rotations)),
      Lib.Run ok c₀ c' ∧ c'.shared.db = c.shared.db ∧
      c'.threads = c.threads ++ [⟨submit (mail (signature 65) pow), l,
        .ret (fail 403 "Invalid Proof of Work")⟩] ∧
      l.Has (.spentAdd (Lib.sha256 pow) c.shared.clock) false := by
  obtain ⟨b, parsed, h⟩ := parsed accepted targets rotations known small nonempty
  have sender : c.shared.db.getUser b.sender.localName = .ok alice := by
    rw [h.sender, Db.getUser_ok, users]
    exact ⟨List.mem_cons_self, rfl⟩
  have recipient : c.shared.db.getUser b.recipient.localName = .ok bobby := by
    rw [h.recipient, Db.getUser_ok, users]
    exact ⟨List.mem_cons_of_mem _ List.mem_cons_self, rfl⟩
  have unblocked : c.shared.db.blocked b.recipient.stored [b.sender.stored, b.sender.domain]
      = false := by
    unfold Db.blocked
    rw [open_]
    rfl
  have unknown : c.shared.db.mailIDBySignature b.m.signature = .error .notFound := by
    rw [h.m]
    exact Db.mailIDBySignature_unknown new
  have token : b.m.pow = pow := by rw [h.m]; rfl
  rw [← token] at spent
  have run' := run_spent run allows arrives rfl parsed (h.deliverable signed work inTime) sender
    recipient unblocked unknown spent trivial
  have refused : Log.Has (checkLog b alice bobby c.shared.clock ++ spentLog b c.shared.clock)
      (.spentAdd (Lib.sha256 b.m.pow) c.shared.clock) false :=
    List.mem_append_right _ (List.mem_cons_of_mem _ (List.mem_cons_of_mem _
      (List.mem_cons_of_mem _ List.mem_cons_self)))
  generalize checkLog b alice bobby c.shared.clock ++ spentLog b c.shared.clock = l at run' refused
  rw [token] at refused
  exact ⟨l, _, run', rfl, rfl, refused⟩

end

/-! A single copy keeps the condition. -/

/-- One submission is all that arrives. -/
def Single (c : State copyServer) (lab : Lib.Label (service copyServer)) : Prop :=
  ∀ r : Request, lab = .arrive r → c.threads = [] ∧ r.route = .sendMail

theorem length_of_single {clock : Time} {db : Db} {c : State copyServer}
    (run : Lib.Run Single (State.start copyServer clock db) c) :
    c.threads.length ≤ 1 ∧ ∀ t ∈ c.threads, t.req.route = .sendMail := by
  refine run.invariant (fun c : State copyServer => c.threads.length ≤ 1 ∧
    ∀ t ∈ c.threads, t.req.route = .sendMail) ?_ ?_ ?_ (fun _ _ _ _ h _ _ => h)
  · simp [State.start, Lib.Config.init]
  · intro c r _ _ cond
    obtain ⟨none_, route⟩ := cond r rfl
    simp only [none_, List.nil_append]
    refine ⟨Nat.le_refl 1, fun t mem => ?_⟩
    obtain rfl := List.mem_singleton.mp mem
    exact route
  · intro c i o t q k a w _ h _ acts
    refine ⟨by simpa using h.1, fun t' mem => ?_⟩
    rcases List.mem_or_eq_of_mem_set mem with old | rfl
    · exact h.2 t' old
    · exact h.2 t acts.mem

theorem spaced_of_single {raw : Bytes} {clock : Time} {db : Db} {c : State copyServer}
    (run : Lib.Run Single (State.start copyServer clock db) c) :
    Lib.Run (Spaced copyServer raw) (State.start copyServer clock db) c := by
  refine run.strengthen fun c lab before _ => ⟨?_, ?_⟩
  · rintro i o r rfl - pending
    refine .inl fun j t ne thread => ?_
    have lt := (List.getElem?_eq_some_iff.mp thread).1
    have one := (length_of_single before).1
    have gone : c.threads[i]? = none := List.getElem?_eq_none (by omega)
    simp [Lib.Config.pending, gone] at pending
  · intro r st pending row here _
    obtain ⟨t, mem, rfl, guard⟩ := guard_of_pending before pending
    have route := (length_of_single before).2 t mem
    refine Db.mail_kept here ?_ ?_ ?_
    · rintro u k k' rfl
      cases route.symm.trans guard.1
    · rintro u rfl
      cases route.symm.trans guard.1
    · rintro id u rfl
      cases route.symm.trans guard.1

end Sample

end Shyake.Go
