import Shyake.Go.Api.Guard

/-!
# Every handler keeps the guard

One lemma for each part of a handler: what it asks is guarded, and what it returns
says what it has learned. The last theorem is about every request.
-/

namespace Shyake.Go

open Lib.Prog
open Protocol (Address validUsername verifyPoW parseAddress)

/-- The rule for one question. -/
theorem meets_ask_bind {α : Type} {G : Log → Query → Prop} {Q : Log → α → Prop} {l : Log}
    (q : Query) (f : Answer q → Handler α) :
    (ask q >>= f).Meets G Q l ↔ G l q ∧ ∀ a, (f a).Meets G Q (l ++ [⟨q, a⟩]) := Iff.rfl

theorem meets_ask_only {G : Log → Query → Prop} {l : Log} (q : Query) {Q : Log → Answer q → Prop} :
    (ask q).Meets G Q l ↔ G l q ∧ ∀ a, Q (l ++ [⟨q, a⟩]) a := Iff.rfl

/-- `int64` arithmetic cannot wrap into the window. -/
theorem within_of_int64 {now : Time} {n : Int} (bounds : -2 ^ 63 ≤ n ∧ n < 2 ^ 63)
    (h : -window ≤ int64 (now.unix - n) ∧ int64 (now.unix - n) ≤ window) :
    -window ≤ now.unix - n ∧ now.unix - n ≤ window := by
  have := now.inRange
  have unix : 0 ≤ now.unix ∧ now.unix < 2 ^ 34 := by
    unfold Time.unix
    omega
  unfold int64 window at *
  rw [Int.bmod_def] at h
  split at h <;> omega

section

variable {s : Server} {r : Request} {l : Log}

theorem meets_inWindow (ts : Bytes) : (inWindow ts).Meets (Guard s r)
    (fun l' ok => ok = true → InWindow l' ts) l := by
  unfold inWindow
  split
  · simp
  · rename_i n parsed
    refine ⟨trivial, fun now ok => ?_⟩
    simp only [Bool.and_eq_true, decide_eq_true_eq] at ok
    exact ⟨now, Log.has_last _ _ _, n, parsed,
      within_of_int64 (bounds_of_parseInt parsed) ok⟩

theorem meets_fresh (signature pow : Bytes) {user : Bytes} {reading : Time}
    (own : r.token s = some (pow, user)) (read : Log.Has l .now reading)
    (paid : verifyPoW pow user reading = true)
    (within : r.route ≠ .register → InWindow l r.timestamp) :
    (fresh signature pow).Meets (Guard s r) (fun (l' : Log) ok => ok = true →
      (∃ now, l'.Has (.seenAdd (Lib.sha256 signature) now) true) ∧
        ∃ now, l'.Has (.spentAdd (Lib.sha256 pow) now) true) l := by
  unfold fresh
  refine (meets_ask_bind _ _).mpr ⟨trivial, fun now => ?_⟩
  refine (meets_ask_bind _ _).mpr ⟨⟨l, rfl, within⟩, fun new => ?_⟩
  cases new with
  | false => simp
  | true =>
    have spends : Spends s r (l ++ [⟨.now, now⟩] ++ [⟨.seenAdd (Lib.sha256 signature) now, true⟩])
        (Lib.sha256 pow) now :=
      ⟨pow, user, l, _, reading, own, rfl, List.append_assoc _ _ _, read, paid⟩
    refine meets_ask_only _ |>.mpr ⟨spends, fun spent ok => ?_⟩
    subst ok
    exact ⟨⟨now, (Log.has_last _ _ _).mono (List.prefix_append _ _)⟩, now, Log.has_last _ _ _⟩

theorem meets_auth (own : r.token s = some (r.pow, r.username)) (path body : Bytes)
    (signsBody : Bool) :
    (s.auth r path body signsBody).Meets (Guard s r)
      (fun l' res => ∀ u, res = .ok u → Authenticated s r path body signsBody u l') l := by
  unfold Server.auth
  split
  · simp
  refine (meets_ask_bind _ _).mpr ⟨trivial, fun t => ?_⟩
  split
  · simp
  rename_i pow
  simp only [Bool.not_eq_true', Bool.not_eq_false] at pow
  refine (meets_inWindow r.timestamp).bind fun l₁ ok pre₁ within => ?_
  cases ok with
  | false => simp
  | true =>
    have within := within rfl
    refine (meets_ask_bind _ _).mpr ⟨trivial, fun user => ?_⟩
    match user with
    | .error .notFound => simp
    | .error .conflict => simp
    | .error .other => simp
    | .ok u =>
      dsimp only
      split
      · simp
      rename_i key
      split
      · simp
      rename_i signed
      simp only [Bool.not_eq_true', Bool.not_eq_false] at signed
      have reading := (Log.has_last _ _ _).mono (pre₁.trans (List.prefix_append l₁
        [(⟨.db (.getUser r.username), .ok u⟩ : Lib.Event Effects)]))
      refine (meets_fresh r.signature r.pow own reading pow
        fun _ => within.mono (List.prefix_append _ _)).bind fun l₂ ok pre₂ new => ?_
      cases ok with
      | false => simp
      | true =>
        simp only [Bool.not_true, Bool.false_eq_true, if_false, meets_pure, Except.ok.injEq,
          forall_eq']
        obtain ⟨seen, spent⟩ := new rfl
        have pre := (List.prefix_append l₁ _).trans pre₂
        exact { pow := ⟨t, (Log.has_last _ _ _).mono (pre₁.trans pre), pow⟩,
                inWindow := within.mono pre, user := (Log.has_last _ _ _).mono pre₂,
                key, signed, seen, spent }

theorem meets_headerAuth (own : r.token s = some (r.pow, r.username)) (path : Bytes) :
    (s.headerAuth r path).Meets (Guard s r)
    (fun l' res => ∀ u, res = .ok u → Authenticated s r path [] false u l') l :=
  meets_auth own path [] false

theorem meets_bodyAuth (own : r.token s = some (r.pow, r.username)) (path : Bytes) :
    (s.bodyAuth r path).Meets (Guard s r)
    (fun l' res => ∀ u body, res = .ok (u, body) → Authenticated s r path body true u l') l := by
  unfold Server.bodyAuth
  split
  · simp
  · rename_i body read
    refine (meets_auth own path body true).bind fun l₁ res pre ok => ?_
    cases res with
    | error reply => simp
    | ok u =>
      simp only [meets_pure, Except.ok.injEq, Prod.mk.injEq, and_imp]
      rintro u' body' rfl rfl
      exact ok u rfl

/-! ## Other instances -/

theorem meets_get (url : Bytes) : (Server.get url).Meets (Guard s r)
    (fun l' res => ∀ status body, res = some (status, body) →
      Log.Has l' (.get url) (some (status, body))) l := by
  refine (meets_ask_bind _ _).mpr ⟨trivial, fun answer => ?_⟩
  simp only [meets_pure]
  intro status body ok
  unfold Server.bounded at ok
  split at ok
  · cases ok
  · rename_i status' body'
    split at ok
    · cases ok
    · obtain ⟨rfl, rfl⟩ := Prod.mk.inj (Option.some.inj ok)
      exact Log.has_last _ _ _

theorem meets_fetch (a : Address) : (s.fetch a).Meets (Guard s r)
    (fun l' res => ∀ keys, res = .ok keys → Answered s l' a keys) l := by
  unfold Server.fetch
  refine (meets_get _).bind fun l₁ res pre got => ?_
  match res with
  | none => simp
  | some (status, body) =>
    dsimp only
    split
    · simp
    rename_i status_ok
    simp only [ne_eq, not_not] at status_ok
    subst status_ok
    cases decoded : s.json.keys body with
    | none => simp
    | some keys =>
      simp only [meets_pure, Except.ok.injEq, forall_eq']
      exact ⟨body, got 200 body rfl, decoded⟩

theorem meets_flight {a : Address} (remote : a.isLocal = false)
    (user : validUsername a.localName = true) : (s.flight a).Meets (Guard s r)
    (fun l' res => ∀ keys, res = .ok keys → LookedUp s l' a keys) l := by
  unfold Server.flight
  refine (meets_ask_bind _ _).mpr ⟨trivial, fun joined => ?_⟩
  obtain ⟨leads, n⟩ := joined
  cases leads with
  | true =>
    refine (meets_fetch a).bind fun l₁ res pre answered => ?_
    have joined : Log.Has l₁ (.join a.stored) (true, n) := (Log.has_last _ _ _).mono pre
    cases res with
    | error e =>
      refine (meets_ask_bind _ _).mpr ⟨trivial, fun _ => ?_⟩
      simp
    | ok keys =>
      have answered := answered keys rfl
      have fetched : Fetched s l₁ a.stored keys := ⟨a, remote, user, rfl, answered⟩
      refine (meets_ask_bind _ _).mpr ⟨fetched, fun _ => ?_⟩
      have pre₂ := List.prefix_append l₁ [(⟨.cachePut a.stored keys, ()⟩ : Lib.Event Effects)]
      refine (meets_ask_bind _ _).mpr ⟨⟨a.stored, joined.mono pre₂, a, remote, user, rfl,
        answered.mono pre₂⟩, fun _ => ?_⟩
      simp only [meets_pure, Except.ok.injEq, forall_eq']
      exact .inr (.inr (answered.mono (pre₂.trans (List.prefix_append _ _))))
  | false =>
    refine (meets_ask_only _).mpr ⟨trivial, fun res keys ok => ?_⟩
    subst ok
    exact .inr (.inl ⟨n, (Log.has_last _ _ _).mono (List.prefix_append _ _), Log.has_last _ _ _⟩)

theorem meets_lookup {a : Address} (remote : a.isLocal = false)
    (user : validUsername a.localName = true) (fresh : Bool) :
    (s.lookup a fresh).Meets (Guard s r)
      (fun l' res => ∀ keys, res = .ok keys → LookedUp s l' a keys) l := by
  unfold Server.lookup
  cases fresh with
  | true => exact meets_flight remote user
  | false =>
    refine (meets_ask_bind _ _).mpr ⟨trivial, fun hit => ?_⟩
    match hit with
    | none => exact meets_flight remote user
    | some (keys, at_) =>
      refine (meets_ask_bind _ _).mpr ⟨trivial, fun now => ?_⟩
      split
      · simp only [meets_pure, Except.ok.injEq, forall_eq']
        exact .inl ⟨at_, (Log.has_last _ _ _).mono (List.prefix_append _ _)⟩
      · exact meets_flight remote user

theorem meets_keysOf {a : Address} (user : validUsername a.localName = true) (fresh : Bool) :
    (s.keysOf a fresh).Meets (Guard s r) (fun l' res => ∀ k, res = .ok k →
      Returned s l' a ⟨k.kem, k.sig⟩ ∧ (k.cached = true → a.isLocal = false)) l := by
  unfold Server.keysOf
  cases here : a.isLocal with
  | true =>
    refine (meets_ask_bind _ _).mpr ⟨trivial, fun answer => ?_⟩
    cases answer with
    | ok u =>
      simp only [meets_pure, Except.ok.injEq, forall_eq', Bool.false_eq_true, false_imp_iff,
        and_true]
      exact .inl ⟨here, u, Log.has_last _ _ _, rfl⟩
    | error e => cases e <;> simp
  | false =>
    simp only [Bool.false_eq_true, if_false]
    split
    · simp
    · refine (meets_lookup here user fresh).bind fun l₁ res pre looked => ?_
      cases res with
      | ok k =>
        simp only [meets_pure, Except.ok.injEq, forall_eq', implies_true, and_true]
        exact .inr ⟨here, looked k rfl⟩
      | error e => cases e <;> simp

end

/-! ## Mail -/

/-- What verification has decoded. -/
theorem verified_inv {s : Server} {pub msg signature : Bytes} (h : s.verify pub msg signature = true) :
    ∃ pk sig, Protocol.parsePublicKey s.mldsa pub = some pk ∧ Protocol.decodeB64 signature = some sig ∧
      sig.length = Protocol.signatureSize ∧ s.mldsa.verify pk msg sig = true := by
  unfold Server.verify at h
  split at h
  · cases h
  rename_i pk parsed
  unfold Protocol.verify at h
  split at h
  · cases h
  rename_i sig decoded
  split at h
  · cases h
  rename_i size
  exact ⟨pk, sig, parsed, decoded, not_not.mp size, h⟩

/-- No signature verifies under an empty key. -/
theorem verify_nil (s : Server) (msg signature : Bytes) : s.verify [] msg signature = false := rfl

section

variable {s : Server} {r : Request} {l : Log} (b : Submission s r)

theorem Submission.sender_user : validUsername b.sender.localName = true :=
  (Protocol.parseAddress_ok b.sender_parsed).1

theorem Submission.recipient_user : validUsername b.recipient.localName = true :=
  (Protocol.parseAddress_ok b.recipient_parsed).1

theorem meets_senderKey : (s.senderKey b).Meets (Guard s r) (fun l' res => ∀ k, res = .ok k →
    Returned s l' b.sender ⟨k.kem, k.sig⟩ ∧ k.sig ≠ [] ∧
      (k.cached = true → b.sender.isLocal = false)) l := by
  unfold Server.senderKey
  refine (meets_keysOf b.sender_user false).bind fun l₁ res pre got => ?_
  match res with
  | .error .unreachable => simp
  | .error .notFound => simp
  | .error .other => simp
  | .ok k =>
    obtain ⟨returned, cached⟩ := got k rfl
    dsimp only
    split
    · simp
    · rename_i key
      simp only [meets_pure, Except.ok.injEq, forall_eq']
      exact ⟨returned, key, cached⟩

theorem meets_recipientKey : (s.recipientKey b).Meets (Guard s r) (fun l' res => res = .ok () →
    b.recipient.isLocal = true → ∃ u, Log.Has l' (.db (.getUser b.recipient.localName)) (.ok u) ∧
      u.kemPubkey ≠ [] ∧ fingerprint u.kemPubkey = b.m.fingerprint) l := by
  unfold Server.recipientKey
  refine (meets_keysOf b.recipient_user false).bind fun l₁ res pre got => ?_
  match res with
  | .error .unreachable => simp
  | .error .notFound => simp
  | .error .other => simp
  | .ok k =>
    obtain ⟨returned, cached⟩ := got k rfl
    dsimp only
    split
    · simp
    rename_i nonempty
    split
    · rename_i same
      intro _ here
      obtain ⟨-, u, read, e⟩ | ⟨there, -⟩ := returned
      · obtain ⟨kem, -⟩ := RemoteKeys.mk.inj e
        exact ⟨u, read, kem ▸ nonempty, kem ▸ same⟩
      · rw [there] at here
        cases here
    · split
      · simp
      · -- a second lookup is for a remote recipient only
        rename_i again
        simp only [Bool.not_eq_true', Bool.not_eq_false] at again
        have there := cached again
        refine (meets_keysOf b.recipient_user true).bind fun l₂ res pre₂ _ => ?_
        split
        all_goals
          split
          all_goals exact fun _ here => absurd (there.symm.trans here) Bool.false_ne_true

theorem meets_verifyFresh : (s.verifyFresh b).Meets (Guard s r) (fun l' ok => ok = true →
    ∃ keys, Returned s l' b.sender keys ∧
      s.verify keys.sig b.message b.m.signature = true) l := by
  unfold Server.verifyFresh
  refine (meets_keysOf b.sender_user true).bind fun l₁ res pre got => ?_
  cases res with
  | error e => simp
  | ok k =>
    intro ok
    exact ⟨⟨k.kem, k.sig⟩, (got k rfl).1, ok⟩

theorem meets_checkSignature {k : KeysAnswer} (returned : Returned s l b.sender ⟨k.kem, k.sig⟩) :
    (s.checkSignature b k).Meets (Guard s r) (fun l' res => res = .ok () →
      ∃ keys, Returned s l' b.sender keys ∧ keys.sig ≠ [] ∧
        s.verify keys.sig b.message b.m.signature = true) l := by
  have nonempty : ∀ {sig : Bytes}, s.verify sig b.message b.m.signature = true → sig ≠ [] := by
    rintro sig ok rfl
    rw [verify_nil] at ok
    cases ok
  unfold Server.checkSignature
  split
  · rename_i ok
    exact fun _ => ⟨_, returned, nonempty ok, ok⟩
  · split
    · simp
    · refine (meets_verifyFresh b).bind fun l₁ ok pre found => ?_
      cases ok with
      | false => simp
      | true =>
        intro _
        obtain ⟨keys, returned, ok⟩ := found rfl
        exact ⟨keys, returned, nonempty ok, ok⟩

/-- What the checks establish. -/
structure Checked (b : Submission s r) (l : Log) : Prop where
  pow : ∃ now, l.Has .now now ∧ verifyPoW b.m.pow b.m.sender now = true
  inWindow : InWindow l b.m.timestamp
  signed : ∃ keys, Returned s l b.sender keys ∧ keys.sig ≠ [] ∧
    s.verify keys.sig b.message b.m.signature = true
  fingerprint : b.recipient.isLocal = true → ∃ u,
    l.Has (.db (.getUser b.recipient.localName)) (.ok u) ∧ u.kemPubkey ≠ [] ∧
      fingerprint u.kemPubkey = b.m.fingerprint

theorem meets_checkSubmission :
    (s.checkSubmission b).Meets (Guard s r) (fun l' res => res = .ok () → Checked b l') l := by
  unfold Server.checkSubmission
  refine (meets_ask_bind _ _).mpr ⟨trivial, fun t => ?_⟩
  split
  · simp
  rename_i pow
  simp only [Bool.not_eq_true', Bool.not_eq_false] at pow
  refine (meets_inWindow b.m.timestamp).bind fun l₁ ok pre₁ within => ?_
  cases ok with
  | false => simp
  | true =>
    refine (meets_senderKey b).bind fun l₂ res pre₂ sender => ?_
    cases res with
    | error reply => simp
    | ok k =>
      obtain ⟨returned, -, -⟩ := sender k rfl
      refine (meets_recipientKey b).bind fun l₃ res pre₃ recipient => ?_
      cases res with
      | error reply => simp
      | ok _ =>
        refine (meets_checkSignature b (returned.mono pre₃)).mono (fun _ _ _ guard => guard) ?_
        intro l₄ res pre₄ signature ok
        have pre := pre₂.trans (pre₃.trans pre₄)
        exact { pow := ⟨t, (Log.has_last _ _ _).mono (pre₁.trans pre), pow⟩,
                inWindow := (within rfl).mono pre,
                signed := signature ok,
                fingerprint := fun here =>
                  (recipient rfl here).imp fun _ found => ⟨found.1.mono pre₄, found.2⟩ }

theorem meets_checkBlocklist : (Server.checkBlocklist b).Meets (Guard s r)
    (fun l' res => res = .ok () → b.recipient.isLocal = true →
      Log.Has l' (.db (.blocked b.recipient.stored [b.sender.stored, b.sender.domain]))
        (.ok false)) l := by
  unfold Server.checkBlocklist
  split
  · rename_i there
    simp only [Bool.not_eq_true'] at there
    simp [there]
  · refine (meets_ask_bind _ _).mpr ⟨trivial, fun answer => ?_⟩
    match answer with
    | .error e => simp
    | .ok true => simp
    | .ok false => exact fun _ _ => Log.has_last _ _ _

theorem meets_remoteTakesReplies :
    (s.remoteTakesReplies b).Meets (Guard s r) (fun _ _ => True) l := by
  unfold Server.remoteTakesReplies
  split
  · trivial
  · have level : (s.levelOf b.recipient.domain).Meets (Guard s r) (fun _ _ => True) l := by
      unfold Server.levelOf
      refine (meets_get _).bind fun l₁ res pre _ => ?_
      match res with
      | none => trivial
      | some (status, body) =>
        dsimp only
        split
        · trivial
        split
        · trivial
        split <;> trivial
    refine level.bind fun l₁ res pre _ => ?_
    cases res with
    | none => trivial
    | some level =>
      dsimp only
      split <;> trivial

theorem meets_relay (route : r.route = .sendMail) (spent : Spent s r l) : (s.relay b).Meets (Guard s r) (fun l' res => res = .ok () →
    b.recipient.isLocal = false → ∃ status body,
      Log.Has l' (.post (s.url b.recipient.domain (utf8 "/api/mail")) b.raw) (some (status, body)) ∧
        200 ≤ status ∧ status < 300) l := by
  unfold Server.relay
  split
  · rename_i here
    simp [here]
  · rename_i there
    have there : b.recipient.isLocal = false := Bool.eq_false_iff.mpr there
    have relayed : (s.relayTo b.recipient.domain b.raw).Meets (Guard s r) (fun l' res =>
        ∀ status text, res = some (status, text) → ∃ body,
          Log.Has l' (.post (s.url b.recipient.domain (utf8 "/api/mail")) b.raw)
            (some (status, body))) l := by
      unfold Server.relayTo Server.postJSON
      refine (meets_ask_bind _ _).mpr
        ⟨⟨spent, route, b, there, rfl, rfl⟩, fun answer => ?_⟩
      match answer with
      | none => simp [Server.bounded]
      | some (status, body) =>
        by_cases long : body.length > Server.responseLimit
        · simp [Server.bounded, long]
        · simp only [Server.bounded, long, if_false]
          intro status' text e
          obtain ⟨rfl, -⟩ := Prod.mk.inj (Option.some.inj e)
          exact ⟨body, Log.has_last _ _ _⟩
    refine relayed.bind fun l₁ res pre posted => ?_
    match res with
    | none => simp
    | some (status, text) =>
      dsimp only
      split
      · rename_i accepted
        intro _ _
        obtain ⟨body, posted⟩ := posted status text rfl
        exact ⟨status, body, posted, accepted⟩
      · split <;> simp

theorem Passed.mono {b : Submission s r} {l l' : Log} (h : Passed s r b l) (pre : l <+: l') :
    Passed s r b l' where
  pow := h.pow.imp fun _ found => ⟨found.1.mono pre, found.2⟩
  inWindow := h.inWindow.mono pre
  signed := h.signed.imp fun _ found => ⟨found.1.mono pre, found.2⟩
  fingerprint here := (h.fingerprint here).imp fun _ found => ⟨found.1.mono pre, found.2⟩
  blocklist here := (h.blocklist here).mono pre
  spent := h.spent.imp fun _ new => new.mono pre
  relayed there := by
    obtain ⟨status, body, posted, accepted⟩ := h.relayed there
    exact ⟨status, body, posted.mono pre, accepted⟩

theorem meets_insertAttempts (route : r.route = .sendMail) (now : Time) (attempts : Nat)
    {l : Log} (passed : Passed s r b l) :
    (insertAttempts attempts (b.row now)).Meets (Guard s r) (fun _ _ => True) l := by
  induction attempts generalizing l with
  | zero => trivial
  | succ attempts ih =>
    unfold insertAttempts newMailID
    refine (meets_ask_bind _ _).mpr ⟨trivial, fun bytes => ?_⟩
    have passed := passed.mono (List.prefix_append l [(⟨.random, bytes⟩ : Lib.Event Effects)])
    refine (meets_ask_bind _ _).mpr ⟨⟨route, b, _, now, passed, rfl⟩, fun inserted => ?_⟩
    match inserted with
    | .ok _ => trivial
    | .error .notFound => trivial
    | .error .other => trivial
    | .error .conflict =>
      refine (meets_ask_bind _ _).mpr ⟨trivial, fun id => ?_⟩
      cases id with
      | ok id => trivial
      | error e =>
        exact ih ((passed.mono (List.prefix_append _ _)).mono (List.prefix_append _ _))

theorem meets_storeSubmission (route : r.route = .sendMail) {l : Log} (checked : Checked b l) :
    (s.storeSubmission b).Meets (Guard s r) (fun _ _ => True) l := by
  unfold Server.storeSubmission
  refine (meets_checkBlocklist b).bind fun l₁ res pre₁ blocklist => ?_
  cases res with
  | error reply => trivial
  | ok _ =>
    have blocklist := blocklist rfl
    refine (meets_ask_bind _ _).mpr ⟨trivial, fun id => ?_⟩
    cases id with
    | ok id => trivial
    | error e =>
      refine (meets_remoteTakesReplies b).bind fun l₂ res pre₂ _ => ?_
      cases res with
      | error reply => trivial
      | ok _ =>
        refine (meets_ask_bind _ _).mpr ⟨trivial, fun now => ?_⟩
        obtain ⟨reading, read, paid⟩ := checked.pow
        have upTo := pre₁.trans ((List.prefix_append l₁ _).trans pre₂)
        have spends : Spends s r (l₂ ++ [⟨.now, now⟩]) (Lib.sha256 b.m.pow) now :=
          ⟨_, _, l₂, [], reading, b.token route, rfl, rfl, read.mono upTo, paid⟩
        refine (meets_ask_bind _ _).mpr ⟨spends, fun new => ?_⟩
        cases new with
        | false => trivial
        | true =>
          have spent : Spent s r (l₂ ++ [⟨.now, now⟩] ++
              [⟨.spentAdd (Lib.sha256 b.m.pow) now, true⟩]) :=
            ⟨_, _, now, b.token route, Log.has_last _ _ _⟩
          refine (meets_relay b route spent).bind fun l₃ res pre₃ relayed => ?_
          cases res with
          | error reply => trivial
          | ok _ =>
            refine (meets_ask_bind _ _).mpr ⟨trivial, fun now' => ?_⟩
            have pre₄ := List.prefix_append l₃ [(⟨.now, now'⟩ : Lib.Event Effects)]
            have fromSpent := pre₃.trans pre₄
            have fromBlocklist := (List.prefix_append l₁ _).trans (pre₂.trans
              ((List.prefix_append _ _).trans ((List.prefix_append _ _).trans fromSpent)))
            have fromStart := pre₁.trans fromBlocklist
            have passed : Passed s r b (l₃ ++ [⟨.now, now'⟩]) :=
              { pow := checked.pow.imp fun _ found => ⟨found.1.mono fromStart, found.2⟩,
                inWindow := checked.inWindow.mono fromStart,
                signed := checked.signed.imp fun _ found => ⟨found.1.mono fromStart, found.2⟩,
                fingerprint := fun here => (checked.fingerprint here).imp
                  fun _ found => ⟨found.1.mono fromStart, found.2⟩,
                blocklist := fun here => (blocklist here).mono fromBlocklist,
                spent := ⟨now, (Log.has_last _ _ _).mono fromSpent⟩,
                relayed := fun there => by
                  obtain ⟨status, body, posted, accepted⟩ := relayed rfl there
                  exact ⟨status, body, posted.mono pre₄, accepted⟩ }
            refine (meets_insertAttempts b route now' 3 passed).bind fun l₅ res _ _ => ?_
            cases res with
            | error e => trivial
            | ok stored => trivial

end

theorem meets_sendMail (s : Server) (r : Request) (route : r.route = .sendMail) :
    (s.sendMail r).Meets (Guard s r) (fun _ _ => True) [] := by
  unfold Server.sendMail
  split
  · trivial
  · rename_i b parsed
    refine (meets_checkSubmission b).bind fun l₁ res pre checked => ?_
    cases res with
    | error reply => trivial
    | ok _ => exact meets_storeSubmission b route (checked rfl)

/-! ## The other handlers -/

section

variable {s : Server} {r : Request} {l : Log}

theorem meets_register (route : r.route = .register) :
    (s.register r).Meets (Guard s r) (fun _ _ => True) l := by
  unfold Server.register
  split
  · trivial
  split
  · trivial
  rename_i body read
  split
  · trivial
  rename_i b decoded
  have own := token_of_register route read decoded
  split
  · trivial
  split
  · trivial
  rename_i user
  simp only [Bool.not_eq_true', Bool.not_eq_false] at user
  split
  · trivial
  refine (meets_ask_bind _ _).mpr ⟨trivial, fun t => ?_⟩
  split
  · trivial
  rename_i paid
  simp only [Bool.not_eq_true', Bool.not_eq_false] at paid
  refine (meets_inWindow b.timestamp).bind fun l₁ ok pre₁ _ => ?_
  cases ok with
  | false => trivial
  | true =>
    cases key : Protocol.parsePublicKey s.mldsa b.sigPubkey with
    | none => trivial
    | some pk =>
      dsimp only [Bool.not_true]
      rw [if_neg (by decide)]
      split
      · trivial
      split
      · trivial
      refine (meets_fresh b.signature b.pow own ((Log.has_last _ _ _).mono pre₁) paid
        fun other => absurd route other).bind fun l₂ ok pre₂ new => ?_
      cases ok with
      | false => trivial
      | true =>
        refine (meets_ask_bind _ _).mpr ⟨trivial, fun now => ?_⟩
        obtain ⟨-, at_, added⟩ := new rfl
        have spent : Spent s r (l₂ ++ [⟨.now, now⟩]) :=
          ⟨_, _, at_, own, added.mono (List.prefix_append _ _)⟩
        refine (meets_ask_bind _ _).mpr ⟨⟨user, route, spent⟩, fun created => ?_⟩
        match created with
        | .ok _ => trivial
        | .error .conflict => trivial
        | .error .notFound => trivial
        | .error .other => trivial

theorem meets_localPubkey (name : Bytes) :
    (Server.localPubkey name).Meets (Guard s r) (fun _ _ => True) l := by
  refine (meets_ask_bind _ _).mpr ⟨trivial, fun answer => ?_⟩
  match answer with
  | .ok u => trivial
  | .error .notFound => trivial
  | .error .conflict => trivial
  | .error .other => trivial

theorem meets_pubkey (name : Bytes) :
    (s.pubkey name).Meets (Guard s r) (fun _ _ => True) l := by
  unfold Server.pubkey
  split
  · exact meets_localPubkey name
  split
  · trivial
  rename_i addr parsed
  split
  · exact meets_localPubkey addr.localName
  rename_i there
  split
  · trivial
  refine (meets_lookup (by simpa using there) (Protocol.parseAddress_ok parsed).1 false).bind
    fun l₁ res pre _ => ?_
  match res with
  | .ok k => trivial
  | .error .remoteNotFound => trivial
  | .error .unreachable => trivial

/-- A handler that authenticates first, then runs one statement as that user. -/
theorem meets_authenticated (own : r.token s = some (r.pow, r.username)) {path : Bytes} {f : Except Reply User → Handler Reply}
    (refused : ∀ reply, f (.error reply) = pure reply)
    (passed : ∀ u l', Authenticated s r path [] false u l' →
      (f (.ok u)).Meets (Guard s r) (fun _ _ => True) l') :
    (s.headerAuth r path >>= f).Meets (Guard s r) (fun _ _ => True) l := by
  refine (meets_headerAuth own path).bind fun l₁ res pre ok => ?_
  cases res with
  | error reply =>
    rw [refused]
    trivial
  | ok u => exact passed u l₁ (ok u rfl)

theorem meets_listMail (own : r.token s = some (r.pow, r.username)) (typ : Bytes) :
    (s.listMail r typ).Meets (Guard s r) (fun _ _ => True) l := by
  refine meets_authenticated own (fun _ => rfl) fun u l₁ auth => ?_
  refine (meets_ask_bind _ _).mpr ⟨trivial, fun list => ?_⟩
  cases list with
  | ok _ => trivial
  | error e => trivial

theorem meets_getMail (own : r.token s = some (r.pow, r.username)) (id : Bytes) :
    (s.getMail r id).Meets (Guard s r) (fun _ _ => True) l := by
  refine meets_authenticated own (fun _ => rfl) fun u l₁ auth => ?_
  refine (meets_ask_bind _ _).mpr ⟨trivial, fun m => ?_⟩
  match m with
  | .ok _ => trivial
  | .error .notFound => trivial
  | .error .conflict => trivial
  | .error .other => trivial

theorem meets_burnMail {id : Bytes} (route : r.route = .burnMail id) :
    (s.burnMail r id).Meets (Guard s r) (fun _ _ => True) l := by
  have own := token_of_header (s := s) (r := r) (by simp [route]) (by simp [route])
  refine meets_authenticated own (fun _ => rfl) fun u l₁ auth => ?_
  refine (meets_ask_bind _ _).mpr ⟨⟨route, _, _, _, u, auth, rfl⟩, fun done => ?_⟩
  match done with
  | .ok _ => trivial
  | .error .notFound => trivial
  | .error .conflict => trivial
  | .error .other => trivial

theorem meets_listBlocks (own : r.token s = some (r.pow, r.username)) :
    (s.listBlocks r).Meets (Guard s r) (fun _ _ => True) l := by
  refine meets_authenticated own (fun _ => rfl) fun u l₁ auth => ?_
  refine (meets_ask_bind _ _).mpr ⟨trivial, fun list => ?_⟩
  cases list with
  | ok _ => trivial
  | error e => trivial

theorem meets_destroy (route : r.route = .destroy) :
    (s.destroy r).Meets (Guard s r) (fun _ _ => True) l := by
  have own := token_of_header (s := s) (r := r) (by simp [route]) (by simp [route])
  refine meets_authenticated own (fun _ => rfl) fun u l₁ auth => ?_
  refine (meets_ask_bind _ _).mpr ⟨⟨route, _, _, _, u, auth, rfl⟩, fun done => ?_⟩
  cases done with
  | ok _ => trivial
  | error e => trivial

theorem meets_blockTarget (own : r.token s = some (r.pow, r.username)) : (s.blockTarget r).Meets (Guard s r)
    (fun l' res => ∀ u t raw, res = .ok (u, t, raw) → ActsAs s r l' u.username) l := by
  unfold Server.blockTarget
  refine (meets_bodyAuth own _).bind fun l₁ res pre ok => ?_
  match res with
  | .error reply => simp
  | .ok (u, body) =>
    have auth := ok u body rfl
    dsimp only
    split
    · simp
    split
    · simp
    split
    · simp
    · simp only [meets_pure, Except.ok.injEq, Prod.mk.injEq, and_imp]
      rintro u' t raw rfl rfl rfl
      exact ⟨_, _, _, u, auth, rfl⟩

theorem ActsAs.mono {l' : Log} {username : Bytes} (h : ActsAs s r l username) (pre : l <+: l') :
    ActsAs s r l' username := by
  obtain ⟨path, body, signsBody, u, auth, name⟩ := h
  exact ⟨path, body, signsBody, u, auth.mono pre, name⟩

theorem meets_block (route : r.route = .block) :
    (s.block r).Meets (Guard s r) (fun _ _ => True) l := by
  have own := token_of_header (s := s) (r := r) (by simp [route]) (by simp [route])
  unfold Server.block
  refine (meets_blockTarget own).bind fun l₁ res pre ok => ?_
  match res with
  | .error reply => trivial
  | .ok (u, t, raw) =>
    have acts := ok u t raw rfl
    refine (meets_ask_bind _ _).mpr ⟨trivial, fun now => ?_⟩
    refine (meets_ask_bind _ _).mpr ⟨⟨route, acts.mono (List.prefix_append _ _)⟩, fun done => ?_⟩
    cases done with
    | ok _ => trivial
    | error e => trivial

theorem meets_removeBlock {blocker : Bytes} (targets : List Bytes) {l : Log}
    (acts : ActsAs s r l blocker) :
    (Server.removeBlock blocker targets).Meets (Guard s r) (fun _ _ => True) l := by
  induction targets generalizing l with
  | nil => trivial
  | cons b rest ih =>
    refine (meets_ask_bind _ _).mpr ⟨acts, fun done => ?_⟩
    cases done with
    | error e => trivial
    | ok _ => exact ih (acts.mono (List.prefix_append _ _))

theorem meets_unblock (own : r.token s = some (r.pow, r.username)) :
    (s.unblock r).Meets (Guard s r) (fun _ _ => True) l := by
  unfold Server.unblock
  refine (meets_blockTarget own).bind fun l₁ res pre ok => ?_
  match res with
  | .error reply => trivial
  | .ok (u, t, raw) =>
    refine (meets_removeBlock [t.stored, raw] (ok u t raw rfl)).bind fun l₂ res _ _ => ?_
    cases res with
    | error e => trivial
    | ok _ => trivial

theorem meets_rotate (route : r.route = .rotate) :
    (s.rotate r).Meets (Guard s r) (fun _ _ => True) l := by
  have own := token_of_header (s := s) (r := r) (by simp [route]) (by simp [route])
  unfold Server.rotate
  refine (meets_bodyAuth own _).bind fun l₁ res pre ok => ?_
  match res with
  | .error reply => trivial
  | .ok (u, body) =>
    have auth := ok u body rfl
    dsimp only
    split
    · trivial
    split
    · trivial
    split
    · trivial
    refine (meets_ask_bind _ _).mpr ⟨⟨route, _, _, _, u, auth, rfl⟩, fun done => ?_⟩
    cases done with
    | ok _ => trivial
    | error e => trivial

end

/-- **Every question of every request is guarded.** -/
theorem handler_guarded (s : Server) (r : Request) :
    (s.handler r).Meets (Guard s r) (fun _ _ => True) [] := by
  have own := token_of_header (s := s) (r := r)
  unfold Server.handler
  split
  · rename_i route; exact meets_register route
  · exact meets_pubkey _
  · rename_i route; exact meets_sendMail s r route
  · rename_i route; exact meets_listMail (own (by simp [route]) (by simp [route])) _
  · rename_i route; exact meets_getMail (own (by simp [route]) (by simp [route])) _
  · rename_i route; exact meets_burnMail route
  · rename_i route; exact meets_block route
  · rename_i route; exact meets_unblock (own (by simp [route]) (by simp [route]))
  · rename_i route; exact meets_listBlocks (own (by simp [route]) (by simp [route]))
  · rename_i route; exact meets_rotate route
  · rename_i route; exact meets_destroy route

end Shyake.Go
