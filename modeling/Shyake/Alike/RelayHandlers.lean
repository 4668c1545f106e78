import Shyake.Go.Api.Mail
import Shyake.Worker.Index
import Shyake.Alike.RelayText

/-!
# The handlers' relays

The handlers of both servers ask another instance once and report what `Relayed` says of the
answer, when their readers of an error text are the ones of `Relayed`.
-/

namespace Shyake.Alike.Relayed

open Lib.JsonText (Text Doc Points MemberPoints)
open Go.Server (encodeRune)

/-! ## The runes of an error text -/

theorem runesFrom_points (n : Nat) (s : Bytes) : Points (Go.runesFrom n s) := by
  induction s generalizing n with
  | nil => cases n <;> simp [Go.runesFrom, Points]
  | cons c s ih =>
    cases n with
    | zero => exact (ih _).cons (Go.decodeRune_lt (c :: s))
    | succ n => exact ih n

theorem scalar_unquote {s : Text} (h : Points s) : ∀ c ∈ GoServer.unquote s, Scalar c := by
  intro c mem
  obtain ⟨d, hd, rfl⟩ := List.mem_map.mp mem
  have point := h d hd
  split
  · exact .inr ⟨by omega, by omega⟩
  · rename_i whole
    simp only [Lib.JsonText.surrogate, Lib.JsonText.highSurrogate, Lib.JsonText.lowSurrogate,
      Bool.or_eq_true, Bool.and_eq_true, decide_eq_true_eq] at whole
    unfold Scalar
    omega

theorem scalar_foldl {members : List (Text × Doc)} (h : MemberPoints members) {error : Text}
    (scalars : ∀ c ∈ error, Scalar c) : ∀ c ∈ members.foldl GoServer.setError error, Scalar c := by
  induction members generalizing error with
  | nil => exact scalars
  | cons m members ih =>
    obtain ⟨first, rest⟩ := List.forall_mem_cons.mp h
    refine ih rest ?_
    unfold GoServer.setError
    split
    · split
      · rename_i s value
        exact scalar_unquote (first s value)
      · exact scalars
    · exact scalars

theorem scalar_replyError (body : Bytes) : ∀ c ∈ GoServer.replyError body, Scalar c := by
  unfold GoServer.replyError
  split
  · rename_i members found
    exact scalar_foldl (Lib.JsonText.read_points (runesFrom_points 0 body) found) (by simp)
  · simp

/-! ## The Go server -/

/-- The reply of an outcome that ends the request. -/
def goReply : Outcome → Except Go.Reply Unit
  | .stored => .ok ()
  | .failed status error => .error (.fail status (error.flatMap encodeRune))

/-- The server's readers of an error text. -/
structure GoReads (u : Categories) (s : Go.Server) : Prop where
  error : ∀ body, s.json.error body = (GoServer.replyError body).flatMap encodeRune
  control : s.control = u.unicodeC

theorem cleanRemoteText_eq {u : Categories} {s : Go.Server} (reads : GoReads u s) (body : Bytes) :
    s.cleanRemoteText (s.json.error body) =
      (GoServer.cleanRemoteText u (GoServer.replyError body)).flatMap encodeRune := by
  rw [Go.Server.cleanRemoteText, reads.error, reads.control,
    runesFrom_encode (scalar_replyError body)]
  rfl

theorem encode_eq_nil {text : Text} : text.flatMap encodeRune = [] ↔ text = [] := by
  cases text with
  | nil => simp
  | cons r text =>
    have size := encodeRune_length r
    simp [List.length_pos_iff.mp size]

theorem encode_orRefused (text : Text) : (orRefused text).flatMap encodeRune =
    if text.flatMap encodeRune = [] then utf8 "Relay refused" else text.flatMap encodeRune := by
  by_cases empty : text = []
  · subst empty
    rfl
  · rw [orRefused_eq empty, if_neg (encode_eq_nil.not.mpr empty)]

/-- The handler posts the submission and reports the outcome of the answer. -/
theorem relay_handler {u : Categories} {s : Go.Server} (reads : GoReads u s) {r : Go.Request}
    (b : Go.Submission s r) (remote : b.recipient.isLocal = false) :
    Go.Server.relay s b = do
      let answer ← Go.ask (.post (s.url b.recipient.domain (utf8 "/api/mail")) b.raw)
      return goReply (match Go.Server.bounded answer with
        | none => unreachable
        | some (status, body) =>
          outcome status (GoServer.cleanRemoteText u (GoServer.replyError body))) := by
  unfold Go.Server.relay Go.Server.relayTo Go.Server.postJSON
  rw [remote]
  refine congrArg (Lib.Prog.ask _) (funext fun answer => ?_)
  simp only [Lib.Prog.bind]
  cases bounded : Go.Server.bounded answer with
  | none => rfl
  | some p =>
    obtain ⟨status, body⟩ := p
    simp only [Lib.Prog.pure_eq, Lib.Prog.bind]
    rw [cleanRemoteText_eq reads, ← encode_orRefused]
    change (if Accepted status then _ else if Refused status then _ else _) = _
    unfold outcome
    split_ifs <;> rfl

/-! ## The Worker -/

def workerReply : Outcome → Option Worker.Reply
  | .stored => none
  | .failed status error => some (.fail status (error.flatMap encodeRune))

theorem relayMail_handler {u : Categories} {e : Worker.Env}
    (reads : ∀ body, e.error body = (CfWorker.text u body).flatMap encodeRune)
    (domain rawBody : Bytes) :
    Worker.relayMail e domain rawBody = do
      let answer ← Worker.ask (.post (Worker.mailURL domain) rawBody)
      return workerReply (match answer with
        | none => unreachable
        | some (status, body) => outcome status (CfWorker.text u body)) := by
  unfold Worker.relayMail
  refine congrArg (Lib.Prog.ask _) (funext fun answer => ?_)
  cases answer with
  | none => rfl
  | some p =>
    obtain ⟨status, body⟩ := p
    simp only [Lib.Prog.pure_eq, Lib.Prog.bind]
    rw [reads, ← encode_orRefused]
    refine (worker_cases status _ _ _).trans ?_
    unfold outcome
    split_ifs <;> rfl

end Shyake.Alike.Relayed
