import Shyake.Go.Api.Replay

/-!
# A token pays once (`VerifyPoW`, the set of spent tokens)

A token is verified at one reading of the clock and spent at a later one. The set
remembers it for 72 hours from then, and its date is fresh for three days; while no
token is spent after its last day has ended, it is not new a second time.
-/

namespace Shyake.Go

open Protocol (verifyPoW)

section

variable {s : Server} {c : State s} {ok : State s → Lib.Label (service s) → Prop} {clock : Time}
  {db : Db}

/-- The thread has come to a question. -/
def Reaches (t : Lib.Thread (service s)) (q : Query) : Prop :=
  (∃ a, Log.Has t.log q a) ∨ ∃ k, t.rest = .ask q k

/-- The request has been accepted on its token: `auth` let it pass, or it has come to the INSERT
of a registration, to the relay or to the INSERT of a mail. -/
def PaidWith (s : Server) (t : Lib.Thread (service s)) (token : Bytes) : Prop :=
  (∃ user, t.req.token s = some (token, user)) ∧
  ((∃ u msg, Accepted s t u msg) ∨ (∃ u, Reaches t (.db (.createUser u))) ∨
    (∃ url body, Reaches t (.post url body)) ∨ ∃ m, Reaches t (.db (.insertMail m)))

/-- No token is accepted for two requests. -/
def PaysOnce (s : Server) (c : State s) : Prop :=
  ∀ (i j : Nat) (t t' : Lib.Thread (service s)) (token : Bytes), i ≠ j → c.threads[i]? = some t →
    c.threads[j]? = some t' → PaidWith s t token → ¬ PaidWith s t' token

/-- The current generation of tokens has room. -/
def FewTokens (c : State s) : Prop := c.shared.spent.cur.length < 250000

/-- A token about to be spent would still be accepted by `VerifyPoW`. -/
def StillFresh (c : State s) (lab : Lib.Label (service s)) : Prop :=
  ∀ (r : Request) (k : Bytes) (now : Time), c.pending lab = some (r, .spentAdd k now) →
    ∀ token user, r.token s = some (token, user) → verifyPoW token user c.shared.clock = true

/-! ## Accepted requests have spent their token -/

/-- What a thread has come to is guarded by what it learned before. -/
theorem guard_of_reaches (run : Lib.Run ok (State.start s clock db) c)
    {t : Lib.Thread (service s)} (mem : t ∈ c.threads) {q : Query} (reaches : Reaches t q) :
    ∃ l, l <+: t.log ∧ Guard s t.req l q := by
  obtain ⟨a, has⟩ | ⟨k, rest⟩ := reaches
  · obtain ⟨l, pre⟩ := Log.Has.upTo has
    exact ⟨l, (List.prefix_append _ _).trans pre, run.logged (handler_guarded s) t mem l _ pre⟩
  · have guard := run.guarded (handler_guarded s) t mem
    rw [rest] at guard
    exact ⟨t.log, List.prefix_rfl, guard.1⟩

theorem spent_of_paid (run : Lib.Run ok (State.start s clock db) c) {t : Lib.Thread (service s)}
    (mem : t ∈ c.threads) {token : Bytes} (paid : PaidWith s t token) :
    ∃ now, Log.Has t.log (.spentAdd (Lib.sha256 token) now) true := by
  obtain ⟨⟨user, own⟩, how⟩ := paid
  have of_spent : ∀ {l : Log}, l <+: t.log → Spent s t.req l →
      ∃ now, Log.Has t.log (.spentAdd (Lib.sha256 token) now) true := by
    rintro l pre ⟨token', user', now, own', new⟩
    obtain ⟨rfl, rfl⟩ := Prod.mk.inj (Option.some.inj (own.symm.trans own'))
    exact ⟨now, new.mono pre⟩
  obtain ⟨u, msg, accepted⟩ | ⟨u, reaches⟩ | ⟨url, body, reaches⟩ | ⟨m, reaches⟩ := how
  · obtain ⟨register, sendMail, path, body, signsBody, authenticated, -⟩ := accepted.authenticated
    obtain ⟨now, new⟩ := authenticated.spent
    exact of_spent List.prefix_rfl ⟨_, _, now, token_of_header register sendMail, new⟩
  · obtain ⟨l, pre, -, -, spent⟩ := guard_of_reaches run mem reaches
    exact of_spent pre spent
  · obtain ⟨l, pre, spent, -⟩ := guard_of_reaches run mem reaches
    exact of_spent pre spent
  · obtain ⟨l, pre, route, b, id, now, passed, -⟩ := guard_of_reaches run mem reaches
    obtain ⟨at_, new⟩ := passed.spent
    exact of_spent pre ⟨_, _, at_, b.token route, new⟩

/-! ## A token is spent once -/

/-- Two requests spend one token. -/
def Respent (s : Server) (r : Request) (e : Lib.Event Effects) (r' : Request)
    (e' : Lib.Event Effects) : Prop :=
  ∃ token user user' a b, r.token s = some (token, user) ∧ r'.token s = some (token, user') ∧
    e = ⟨.spentAdd (Lib.sha256 token) a, true⟩ ∧ e' = ⟨.spentAdd (Lib.sha256 token) b, true⟩

/-- A token that has been spent was verified before. -/
theorem verified_of_spent (run : Lib.Run ok (State.start s clock db) c)
    {t : Lib.Thread (service s)} (mem : t ∈ c.threads) {k : Bytes} {at_ : Time} {new : Bool}
    (has : Log.Has t.log (.spentAdd k at_) new) {token user : Bytes}
    (own : t.req.token s = some (token, user)) :
    ∃ reading, reading ≤ at_ ∧ verifyPoW token user reading = true := by
  obtain ⟨l, pre⟩ := Log.Has.upTo has
  obtain ⟨token', user', l₀, l₁, reading, own', -, rfl, read, verified⟩ :=
    run.logged (handler_guarded s) t mem l _ pre
  obtain ⟨rfl, rfl⟩ := Prod.mk.inj (Option.some.inj (own.symm.trans own'))
  refine ⟨reading, ?_, verified⟩
  refine (ordered run).order t mem l₀ at_ ?_ reading read
  exact (List.prefix_append_right_inj l₀ |>.mpr (by simp)).trans
    ((List.prefix_append _ _).trans pre)

theorem not_respent (run : Lib.Run ok (State.start s clock db) c)
    (few : ∀ c lab, ok c lab → FewTokens c) (fresh : ∀ c lab, ok c lab → StillFresh c lab) :
    Lib.Run.Apart (Respent s) c := by
  refine run.apart ?_ ?_
  · rintro r e r' e' ⟨token, user, user', a, b, own, own', he, he'⟩
    exact ⟨token, user', user, b, a, own', own, he', he⟩
  · rintro c i o t q k a w before cond acts t' mem e' he'
      ⟨token, user, user', at_, b, own, own', new, rfl⟩
    have spent : Remembered spentSet (seconds (72 * 3600)) 250000 c :=
      remembered before rfl (by decide) few
    have late := forgotten_of_added before spent (few c _ cond) acts new t' mem b he'
    cases new
    -- the token was verified before it was first spent, and is still fresh now
    obtain ⟨reading, le, verified⟩ := verified_of_spent before mem he' own'
    have now := fresh c _ cond t.req _ at_ acts.pending token user own
    have span := Protocol.freshDate_span (Protocol.freshDate_of_verifyPoW verified)
      (Protocol.freshDate_of_verifyPoW now)
    have le : reading.ns ≤ b.ns := le
    omega

end

namespace Sample

/-- Three days in nanoseconds. -/
def threeDays : Nat := seconds (72 * 3600)

/-- A request starts the set's clock; the token is spent three days later, just before the set
rotates; it is verified again in the last nanosecond of its third day. -/
def starts : Request :=
  list bobby (utf8 "1749513600") (signature 66) (utf8 "1:20:250610:bobby::one:12c85d")

def paysFirst : Request :=
  list alice (utf8 "1749772800") (signature 65) (utf8 "1:20:250614:alice::one:14fdb5")

def rotates : Request :=
  list bobby (utf8 "1749772800") (signature 67) (utf8 "1:20:250613:bobby::two:9d152")

def paysAgain : Request :=
  list alice (utf8 "1750032000") (signature 68) (utf8 "1:20:250614:alice::one:14fdb5")

def signsStarts : Signed :=
  ⟨bobby, utf8 "GET:/api/mail?type=inbox:bobby:1749513600", signature 66⟩

def signsFirst : Signed :=
  ⟨alice, utf8 "GET:/api/mail?type=inbox:alice:1749772800", signature 65⟩

def signsRotates : Signed :=
  ⟨bobby, utf8 "GET:/api/mail?type=inbox:bobby:1749772800", signature 67⟩

def signsAgain : Signed :=
  ⟨alice, utf8 "GET:/api/mail?type=inbox:alice:1750032000", signature 68⟩

abbrev tokenServer : Server := server [signsStarts, signsFirst, signsRotates, signsAgain] [] [] []

theorem sha256_payingTokens :
    ([starts.pow, paysFirst.pow, rotates.pow].map Lib.sha256).Nodup := by
  decide +kernel

end Sample

end Shyake.Go
