import Shyake.Go.Api.Runs
import Shyake.Go.Api.Accepting

/-!
# A submission is stored once (`sendMail`, `InsertMail`)

What keeps a submission from being stored twice is the row of the first time, by its
`sig_hash`. While that row is there and the signature comes in one spelling, no
second row is made. A row that has been burned no longer stops anything.
-/

namespace Shyake.Go

open Protocol (decodeB64 StdSpelling)

section

variable {s : Server} {c : State s} {ok : State s → Lib.Label (service s) → Prop} {clock : Time}
  {db : Db}

/-- Two rows are made for one signature. -/
def Resent (_ : Request) (e : Lib.Event Effects) (_ : Request) (e' : Lib.Event Effects) : Prop :=
  ∃ m m', e = ⟨.db (.insertMail m), .ok ()⟩ ∧ e' = ⟨.db (.insertMail m'), .ok ()⟩ ∧
    decodeB64 m.signature = decodeB64 m'.signature

/-- At most one row has been made for each signature. -/
def StoredOnce (c : State s) : Prop := Lib.Run.Apart Resent c

/-- A mail about to be inserted: a row made before for its signature has the same spelling and
is still there. -/
def StillStored (c : State s) (lab : Lib.Label (service s)) : Prop :=
  ∀ (r : Request) (m : Mail), c.pending lab = some (r, .db (.insertMail m)) →
    ∀ t ∈ c.threads, ∀ m', Log.Has t.log (.db (.insertMail m')) (.ok ()) →
      decodeB64 m'.signature = decodeB64 m.signature →
      m'.signature = m.signature ∧ ∃ row ∈ c.shared.db.mail, row.sigHash = sigHash m'.signature

/-- What an INSERT that succeeded has found. -/
theorem served_insertMail {w w' : World} {m : Mail}
    (h : Served w (.db (.insertMail m)) (.ok ()) w') :
    ∀ r ∈ w.db.mail, r.sigHash ≠ sigHash m.signature := by
  generalize ha : (.ok () : Except StoreError Unit) = a at h
  cases h with
  | db => exact Db.insertMail_ok ha.symm
  | dbError => cases ha

/-- No request that removes mail arrives, and signatures are written as the client writes them. -/
def Quiet (_ : State s) (lab : Lib.Label (service s)) : Prop :=
  ∀ r : Request, lab = .arrive r → r.route ≠ .rotate ∧ r.route ≠ .destroy ∧
    (∀ id, r.route ≠ .burnMail id) ∧ ∀ b : Submission s r, StdSpelling b.m.signature

/-- Every row ever made is still there, with its signature in the one spelling. -/
structure Kept (c : State s) : Prop where
  quiet : ∀ t ∈ c.threads, t.req.route ≠ .rotate ∧ t.req.route ≠ .destroy ∧
    (∀ id, t.req.route ≠ .burnMail id) ∧ ∀ b : Submission s t.req, StdSpelling b.m.signature
  rows : ∀ t ∈ c.threads, ∀ m, Log.Has t.log (.db (.insertMail m)) (.ok ()) →
    (∃ row ∈ c.shared.db.mail, row.sigHash = sigHash m.signature) ∧ StdSpelling m.signature

theorem kept (run : Lib.Run Quiet (State.start s clock db) c) : Kept c := by
  refine run.invariant Kept ?_ ?_ ?_ ?_
  · constructor <;> simp [State.start, Lib.Config.init]
  · intro c r _ h cond
    constructor
    · intro t mem
      rcases List.mem_append.mp mem with old | new
      · exact h.quiet t old
      · obtain rfl := List.mem_singleton.mp new
        exact cond r rfl
    · intro t mem m has
      rcases List.mem_append.mp mem with old | new
      · exact h.rows t old m has
      · obtain rfl := List.mem_singleton.mp new
        cases has
  · intro c i o t q k a w before h _ acts
    have guard := before.guarded (handler_guarded s) t acts.mem
    rw [acts.rest] at guard
    have served : Served c.shared q a w := served_of_serve acts.served
    obtain ⟨rotate, destroy, burn, std⟩ := h.quiet t acts.mem
    -- a statement that removes mail comes from a request that did not arrive
    have stays : ∀ row ∈ c.shared.db.mail, row ∈ w.db.mail := by
      intro row here
      rcases served_dbState served with same | ⟨st, rfl, same⟩
      · exact same ▸ here
      · rw [same]
        refine Db.mail_kept here ?_ ?_ ?_
        · rintro u k k' rfl
          exact rotate guard.1.1
        · rintro u rfl
          exact destroy guard.1.1
        · rintro id u rfl
          exact burn id guard.1.1
    constructor
    · intro t' mem
      rcases List.mem_or_eq_of_mem_set mem with old | rfl
      · exact h.quiet t' old
      · exact h.quiet t acts.mem
    · intro t' mem m has
      rcases acts.mem_log mem has with ⟨t₀, mem₀, -, old⟩ | ⟨-, new⟩
      · obtain ⟨⟨row, here, hash⟩, spelling⟩ := h.rows t₀ mem₀ m old
        exact ⟨⟨row, stays row here, hash⟩, spelling⟩
      · cases new
        obtain ⟨-, b, id, now, -, rfl⟩ := guard.1
        refine ⟨?_, std b⟩
        generalize ha : (.ok () : Except StoreError Unit) = answer at served
        cases served with
        | db => exact ⟨_, Db.mem_of_insertMail ha.symm, rfl⟩
        | dbError => cases ha
  · intro c d w _ h _ moved
    obtain ⟨-, -, same⟩ := drift_clock moved
    exact ⟨h.quiet, fun t mem m has => same ▸ h.rows t mem m has⟩

/-- What is about to be inserted carries a signature of the right size. -/
theorem signature_of_guard {r : Request} {l : Log} {m : Mail}
    (guard : Guard s r l (.db (.insertMail m))) :
    ∃ sig, decodeB64 m.signature = some sig ∧ sig.length = Protocol.signatureSize := by
  obtain ⟨-, b, id, now, passed, rfl⟩ := guard
  obtain ⟨keys, -, -, verified⟩ := passed.signed
  obtain ⟨pk, sig, -, decoded, size, -⟩ := verified_inv verified
  exact ⟨sig, decoded, size⟩

/-- While nothing is removed, the condition is met. -/
theorem stillStored_of_quiet (run : Lib.Run Quiet (State.start s clock db) c) :
    Lib.Run StillStored (State.start s clock db) c := by
  refine run.strengthen fun c lab before _ r m pending t' mem' m' has same => ?_
  have kept := kept before
  obtain ⟨row, spelling'⟩ := kept.rows t' mem' m' has
  refine ⟨?_, row⟩
  obtain ⟨t, mem, rfl, guard⟩ := guard_of_pending before pending
  obtain ⟨sig, decoded, size⟩ := signature_of_guard guard
  obtain ⟨-, b, id, now, -, rfl⟩ := guard
  exact Protocol.decodeB64_injective_of_stdSpelling spelling' ((kept.quiet t mem).2.2.2 b)
    (same.trans decoded) decoded size

end

/-! ## How a submission is stored twice -/

/-- The requests of a mailbox: sending, listing and burning mail, and blocking. -/
def Route.mailbox : Route → Bool
  | .sendMail | .listMail _ | .burnMail _ | .block => true
  | _ => false

namespace Sample

def secondMail : MailBody := mail (signature 65) (utf8 "1:20:250610:alice::two:37b8a9")

def bobbySignsBurn : Signed :=
  ⟨bobby, utf8 "DELETE:/api/mail/1111111111:bobby:1749513600", signature 66⟩

def burn : Request :=
  request (.burnMail (utf8 "1111111111")) bobby (utf8 "1749513600") (signature 66)
    (utf8 "1:20:250610:bobby::one:12c85d") none

/-- Runs of mailbox requests only. -/
def onlyMailbox {s : Server} (_ : State s) (lab : Lib.Label (service s)) : Prop :=
  ∀ r : Request, lab = .arrive r → r.route.mailbox = true

abbrev resendServer : Server := server [aliceSignsMail, bobbySignsBurn] [firstMail, secondMail] [] []

open Protocol (JsonObj) in
/-- Texts of mails that differ in their tokens only. -/
theorem token_of_mailText {sig p q : Bytes} (same : mailText (mail sig p) = mailText (mail sig q)) :
    Protocol.quote p = Protocol.quote q := by
  have last (o : JsonObj) (begun : o.buf ≠ []) (k : Bytes)
      (texts : (o.str k p).done = (o.str k q).done) : Protocol.quote p = Protocol.quote q := by
    have bufs := List.append_cancel_right texts
    rw [JsonObj.str_buf begun, JsonObj.str_buf begun] at bufs
    exact List.append_cancel_left (List.append_cancel_left bufs)
  exact last _ (JsonObj.str_ne_nil _ _ _) _ same

theorem mailTexts : mailText secondMail ≠ mailText firstMail :=
  fun same => absurd (token_of_mailText same) (by decide +kernel)

theorem tokens : ([utf8 "1:20:250610:alice::one:6e7368", burn.pow,
    utf8 "1:20:250610:alice::two:37b8a9"].map Lib.sha256).Nodup := by
  decide +kernel

/-- Where a run stands: the rows of the mail table and the tokens spent. -/
structure Stage (c : State resendServer) (rows : List MailRow) (tokens : List Bytes) : Prop where
  now : c.shared.clock = clock 0
  users : c.shared.db.users = [alice, bobby]
  blocks : c.shared.db.blocks = []
  mail : c.shared.db.mail = rows
  spent : c.shared.spent = (TtlSet.new (seconds (72 * 3600)) 250000).addAll
    (tokens.map fun token => (Lib.sha256 token, clock 0))

variable {ok : State resendServer → Lib.Label (service resendServer) → Prop}
  {c₀ c : State resendServer} {tokens : List Bytes} {pow : Bytes}

/-- Alice's mail is stored. -/
theorem store_mail (tokens : List Bytes) (pow : Bytes)
    (allows : ∀ reqs, Lib.Allows (S := service resendServer) ok reqs fun _ => True)
    (run : Lib.Run ok c₀ c) (arrives : ok c (.arrive (submit (mail (signature 65) pow))))
    (stage : Stage c [] tokens)
    (known : ([firstMail, secondMail].find? fun m =>
      mailText m == mailText (mail (signature 65) pow)) = some (mail (signature 65) pow))
    (small : (mailText (mail (signature 65) pow)).length ≤ 1048576) (nonempty : pow ≠ [])
    (work : Protocol.verifyPoW pow (utf8 "alice") (clock 0) = true)
    (new : Lib.sha256 pow ∉ tokens.map Lib.sha256) :
    ∃ (c' : State resendServer) (t : Lib.Thread (service resendServer)),
      Lib.Run ok c₀ c' ∧ c'.threads = c.threads ++ [t] ∧
      t.req = submit (mail (signature 65) pow) ∧
      Log.Has t.log (.db (.insertMail (row pow (utf8 "1111111111") (clock 0)))) (.ok ()) ∧
      Stage c' [⟨row pow (utf8 "1111111111") (clock 0), sigHash (signature 65)⟩] (tokens ++ [pow]) ∧
      c'.shared.seen = c.shared.seen := by
  obtain ⟨b, k, c₁, -, run₁, shared₁, threads₁⟩ := run_mail (P := fun _ => True)
    pow (List.replicate 10 0) run (allows _) arrives
    (by simp) known small nonempty (by rw [stage.now]; exact work)
    (by rw [stage.now]; exact within (by decide)) stage.users stage.blocks
    (fun _ mem => by rw [stage.mail] at mem; cases mem)
    (by
      rw [stage.spent]
      exact TtlSet.addAll_add (by simpa [Function.comp_def] using new)) rfl trivial trivial
  have mail₁ : c₁.shared.db.mail = [] := by
    rw [shared₁]
    exact stage.mail
  obtain ⟨db₂, inserted, users₂, mail₂, blocks₂⟩ := Db.exec_insertMail c₁.shared.db
    (m := row pow (utf8 "1111111111") (clock 0)) (fun r mem => by rw [mail₁] at mem; cases mem)
  have last : c₁.threads[c.threads.length]? = some ⟨submit (mail (signature 65) pow),
      checkLog b alice bobby c.shared.clock ++ storeLog b c.shared.clock (List.replicate 10 0),
      .ask (.db (.insertMail (row pow (idOf (List.replicate 10 0)) c.shared.clock))) k⟩ := by
    rw [threads₁]
    simp
  rw [stage.now] at last
  obtain ⟨c₂, run₂, shared₂, threads₂⟩ := run_db (P := fun _ => True) run₁ (allows _) last
    rfl trivial inserted
  refine ⟨c₂, ⟨submit (mail (signature 65) pow),
    (checkLog b alice bobby (clock 0) ++ storeLog b (clock 0) (List.replicate 10 0)) ++
      [⟨.db (.insertMail (row pow (utf8 "1111111111") (clock 0))), .ok ()⟩], k (.ok ())⟩,
    run₂, ?_, ?_, ?_, ?_, ?_⟩
  · rw [threads₂, threads₁]
    exact List.set_append_right _ _ (Nat.le_refl _) |>.trans (by rw [Nat.sub_self]; rfl)
  · rfl
  · exact Log.has_last _ _ _
  · exact { now := by rw [shared₂, shared₁]; exact stage.now,
            users := by rw [shared₂]; exact users₂.trans (by rw [shared₁]; exact stage.users),
            blocks := by rw [shared₂]; exact blocks₂.trans (by rw [shared₁]; exact stage.blocks),
            mail := by rw [shared₂]; exact mail₂.trans (by rw [mail₁]; rfl),
            spent := by
              rw [shared₂, shared₁]
              simp only [stage.spent, stage.now, List.map_append, List.map_cons, List.map_nil,
                TtlSet.addAll, List.foldl_append, List.foldl_cons, List.foldl_nil] }
  · rw [shared₂, shared₁]

/-- Bobby burns it. -/
theorem burn_mail {pow : Bytes}
    (allows : ∀ reqs, Lib.Allows (S := service resendServer) ok reqs fun _ => True)
    (run : Lib.Run ok c₀ c) (arrives : ok c (.arrive burn))
    (stage : Stage c [⟨row pow (utf8 "1111111111") (clock 0), sigHash (signature 65)⟩] tokens)
    (seen : c.shared.seen = TtlSet.new (seconds 600) 250000)
    (new : Lib.sha256 burn.pow ∉ tokens.map Lib.sha256) :
    ∃ (c' : State resendServer) (t : Lib.Thread (service resendServer)),
      Lib.Run ok c₀ c' ∧ c'.threads = c.threads ++ [t] ∧ t.req = burn ∧
      Stage c' [] (tokens ++ [burn.pow]) := by
  have valid : Valid resendServer burn (utf8 "/api/mail/1111111111") [] false bobby (clock 0) :=
    valid (a := bobbySignsBurn) (by simp) (by decide) (decodeB64_sigPubkey _ (by simp))
      (decodeB64_signature _ (by simp)) rfl ⟨by decide, by decide, signature_ne_nil 66, by decide⟩
      (by decide +kernel) (within (by decide))
  obtain ⟨db', deleted, users', mail', blocks'⟩ := Db.exec_deleteMail c.shared.db
    (utf8 "1111111111") (utf8 "bobby")
    ⟨_, by rw [stage.mail]; exact List.mem_cons_self, rfl, rfl⟩
  obtain ⟨c', run', shared, threads⟩ := run_request (P := fun _ => True) (r := burn) run
    (allows _) arrives (u := bobby)
    (by rw [stage.now]; exact burnMail_resumes valid)
    (Db.getUser_ok.mpr (by rw [stage.users]; exact ⟨by simp, rfl⟩))
    (by rw [seen]; exact TtlSet.add_of_notMem List.not_mem_nil List.not_mem_nil)
    (by rw [stage.spent]; exact TtlSet.addAll_add (by simpa [Function.comp_def] using new))
    trivial trivial (serves_db (w := c.shared.used burn.signature burn.pow) deleted trivial)
  refine ⟨c', _, run', threads, rfl, ?_⟩
  exact { now := by rw [shared]; exact stage.now,
          users := by rw [shared]; exact users'.trans stage.users,
          blocks := by rw [shared]; exact blocks'.trans stage.blocks,
          mail := by
            rw [shared]
            refine mail'.trans ?_
            rw [stage.mail]
            rfl,
          spent := by
            rw [shared]
            simp only [World.used, stage.spent, stage.now, List.map_append, List.map_cons,
              List.map_nil, TtlSet.addAll, List.foldl_append, List.foldl_cons, List.foldl_nil] }

end Sample

end Shyake.Go
