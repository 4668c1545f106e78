import Shyake.Go.Api.Accepting

/-!
# The fingerprint check

`recipientKey` looks the recipient's keys up once, and once more if the key it got may
be an old one. What it decides is a function of what the two lookups return, and the
check is good if it lets a request pass only for the fingerprint of a key that one of
them returned. It is not good where the second lookup leaves it with an empty key.
-/

namespace Shyake.Go

open Lib.Prog
open Protocol (decodeKEMKey)

/-! ## What the lookups return -/

/-- What the first lookup returned, and the second one where it was made. -/
structure Lookups where
  first : Except KeysError KeysAnswer
  second : Option (Except KeysError KeysAnswer)

namespace Lookups

/-- The KEM keys that were returned. -/
def keys (x : Lookups) : List Bytes :=
  let returned : Except KeysError KeysAnswer → List Bytes
    | .ok k => [k.kem]
    | .error _ => []
  returned x.first ++ (x.second.map returned).getD []

/-- The key the second lookup leaves. -/
def left : Except KeysError KeysAnswer → Bytes
  | .ok k => k.kem
  | .error _ => []

/-- The fingerprint is that of a key a lookup returned. -/
def Vouches (x : Lookups) (fingerprint : Bytes) : Prop :=
  ∃ kem ∈ x.keys, kem ≠ [] ∧ ∃ raw, decodeKEMKey kem = some raw ∧
    fingerprint = hexEncode (Lib.sha256 raw)

/-- The second lookup failed, or returned no key, and the fingerprint is that of no bytes. -/
def Emptied (x : Lookups) (fingerprint : Bytes) : Prop :=
  fingerprint = hexEncode (Lib.sha256 []) ∧ ∃ again, x.second = some again ∧ left again = []

end Lookups

namespace Server

variable {r : Request}

/-- The lookups of `recipientKey`. -/
def recipientLookups (s : Server) (b : Submission s r) : Handler Lookups := do
  match ← s.keysOf b.recipient false with
  | .error e => return ⟨.error e, none⟩
  | .ok k =>
    if k.kem ≠ [] ∧ fingerprint k.kem ≠ b.m.fingerprint ∧ k.cached = true then
      let again ← s.keysOf b.recipient true
      return ⟨.ok k, some again⟩
    else return ⟨.ok k, none⟩

/-- The decision of `recipientKey`. -/
def judge (wanted : Bytes) (x : Lookups) : Except Reply Unit :=
  match x.first with
  | .error .notFound => .error (fail 404 "Recipient not found")
  | .error .unreachable => .error (fail 502 "Recipient instance unreachable")
  | .error .other => .error internal
  | .ok k =>
    if k.kem = [] then .error (fail 410 "USER_DESTROYED")
    else if fingerprint k.kem = wanted then .ok ()
    else
      match x.second with
      | none => .error (fail 409 "KEY_MISMATCH")
      | some again =>
        if fingerprint (Lookups.left again) = wanted then .ok ()
        else .error (fail 409 "KEY_MISMATCH")

theorem recipientKey_eq (s : Server) (b : Submission s r) :
    s.recipientKey b = s.recipientLookups b >>= fun x => pure (judge b.m.fingerprint x) := by
  unfold recipientKey recipientLookups
  rw [bind_assoc]
  congr 1
  funext answer
  cases answer with
  | error e => cases e <;> rfl
  | ok k =>
    by_cases empty : k.kem = []
    · simp [judge, empty]
    by_cases same : fingerprint k.kem = b.m.fingerprint
    · simp [judge, empty, same]
    cases cached : k.cached with
    | false => simp [judge, empty, same, cached]
    | true =>
      simp only [empty, same, cached, if_false, if_true, Bool.not_true, ne_eq, not_false_eq_true,
        and_self, bind_assoc]
      show (s.keysOf b.recipient true >>= _) = (s.keysOf b.recipient true >>= _)
      congr 1
      funext again
      by_cases new : fingerprint (Lookups.left again) = b.m.fingerprint
      · cases again <;> simp_all [judge, Lookups.left]
      · cases again <;> simp_all [judge, Lookups.left]

/-- A second lookup is made only of a cached key that is not the wanted one. -/
theorem meets_recipientLookups (s : Server) (b : Submission s r) (l : Log) :
    (s.recipientLookups b).Meets (fun _ _ => True)
      (fun _ x => ∀ again, x.second = some again → ∃ k, x.first = .ok k ∧ k.kem ≠ [] ∧
        fingerprint k.kem ≠ b.m.fingerprint) l := by
  unfold recipientLookups
  apply Meets.after
  intro l' first _
  cases first with
  | error e =>
    intro again made
    cases made
  | ok k =>
    show Meets _ _ (ite _ _ _) _
    split
    · rename_i stale
      apply Meets.after
      intro l'' again _ _ _
      exact ⟨k, rfl, stale.1, stale.2.1⟩
    · intro again made
      cases made

/-- A parsed mail names a fingerprint. -/
theorem fingerprint_of_parsed {s : Server} {b : Submission s r} (parsed : s.parseSubmission r = .ok b) :
    b.m.fingerprint ≠ [] := by
  unfold parseSubmission at parsed
  split at parsed
  · cases parsed
  split at parsed
  · cases parsed
  split at parsed
  · cases parsed
  rename_i m _ present
  split at parsed
  · cases parsed
  split at parsed
  · cases parsed
  · cases parsed
  split at parsed
  · cases parsed
  split at parsed
  · cases parsed
  split at parsed
  · split at parsed
    · cases parsed
    · cases parsed
      show m.fingerprint ≠ []
      exact fun empty => present (by simp [empty])
  · cases parsed

end Server

/-! ## What is let through -/

theorem hexEncode_sha256_ne_nil (raw : Bytes) : hexEncode (Lib.sha256 raw) ≠ [] := by
  apply List.ne_nil_of_length_pos
  rw [length_hexEncode, Lib.length_sha256]
  decide

/-- A fingerprint that names something is that of a key that decodes. -/
theorem fingerprint_eq_iff {kem wanted : Bytes} (named : wanted ≠ []) :
    fingerprint kem = wanted ↔
      ∃ raw, decodeKEMKey kem = some raw ∧ wanted = hexEncode (Lib.sha256 raw) := by
  unfold fingerprint
  cases decodeKEMKey kem with
  | none =>
    constructor
    · exact fun same => absurd same.symm named
    · rintro ⟨raw, decoded, -⟩
      cases decoded
  | some raw =>
    constructor
    · exact fun same => ⟨raw, rfl, same.symm⟩
    · rintro ⟨raw', decoded, same⟩
      cases decoded
      exact same.symm

namespace Lookups

variable {x : Lookups} {wanted : Bytes}

theorem vouches_of_first {k : KeysAnswer} (named : wanted ≠ []) (first : x.first = .ok k)
    (key : k.kem ≠ []) (same : Shyake.Go.fingerprint k.kem = wanted) : x.Vouches wanted := by
  refine ⟨k.kem, ?_, key, (fingerprint_eq_iff named).mp same⟩
  unfold keys
  rw [first]
  exact List.mem_cons_self

theorem vouches_of_second {again : Except KeysError KeysAnswer} (named : wanted ≠ [])
    (second : x.second = some again) (key : left again ≠ [])
    (same : Shyake.Go.fingerprint (left again) = wanted) : x.Vouches wanted := by
  refine ⟨left again, ?_, key, (fingerprint_eq_iff named).mp same⟩
  unfold keys
  rw [second]
  cases again with
  | error e => exact absurd rfl key
  | ok k => exact List.mem_append_right _ List.mem_cons_self

/-- A key that vouches is the first one, or what the second lookup left. -/
theorem Vouches.cases (h : x.Vouches wanted) (named : wanted ≠ []) :
    (∃ k, x.first = .ok k ∧ k.kem ≠ [] ∧ Shyake.Go.fingerprint k.kem = wanted) ∨
      ∃ again, x.second = some again ∧ left again ≠ [] := by
  obtain ⟨kem, mem, key, decoded⟩ := h
  rcases List.mem_append.mp mem with first | second
  · cases answer : x.first with
    | error e =>
      rw [answer] at first
      cases first
    | ok k =>
      rw [answer] at first
      obtain rfl := List.mem_singleton.mp first
      exact .inl ⟨k, rfl, key, (fingerprint_eq_iff named).mpr decoded⟩
  · cases answer : x.second with
    | none =>
      rw [answer] at second
      cases second
    | some again =>
      rw [answer] at second
      cases again with
      | error e => cases second
      | ok k =>
        obtain rfl := List.mem_singleton.mp second
        exact .inr ⟨_, rfl, key⟩

/-- A second lookup was made only of a key that is not the wanted one. -/
def Asked (x : Lookups) (wanted : Bytes) : Prop :=
  ∀ again, x.second = some again → ∃ k, x.first = .ok k ∧ k.kem ≠ [] ∧
    Shyake.Go.fingerprint k.kem ≠ wanted

/-- An empty key has the fingerprint of no bytes, and the request passes. -/
theorem judge_of_emptied (asked : x.Asked wanted) (h : x.Emptied wanted) :
    Server.judge wanted x = .ok () := by
  obtain ⟨empty, again, made, gone⟩ := h
  obtain ⟨k, first, key, other⟩ := asked again made
  have same : Shyake.Go.fingerprint (left again) = wanted := by
    rw [gone, empty]
    rfl
  simp only [Server.judge, first, made, key, other, same, if_false, if_true]

theorem not_vouches_of_emptied (named : wanted ≠ []) (asked : x.Asked wanted)
    (h : x.Emptied wanted) : ¬ x.Vouches wanted := by
  obtain ⟨-, again, made, gone⟩ := h
  obtain ⟨k, first, -, other⟩ := asked again made
  intro vouches
  rcases vouches.cases named with ⟨k', first', -, same⟩ | ⟨again', made', key'⟩
  · obtain rfl : k' = k := Except.ok.inj (first'.symm.trans first)
    exact other same
  · obtain rfl : again' = again := Option.some.inj (made'.symm.trans made)
    exact key' gone

/-- A request passes for a key that vouches, or for an empty one. -/
theorem vouches_of_judge (named : wanted ≠ []) (notEmptied : ¬ x.Emptied wanted)
    (passes : Server.judge wanted x = .ok ()) : x.Vouches wanted := by
  unfold Server.judge at passes
  split at passes
  · cases passes
  · cases passes
  · cases passes
  rename_i k first
  split at passes
  · cases passes
  rename_i key
  split at passes
  · exact vouches_of_first named first key ‹_›
  split at passes
  · cases passes
  rename_i again made
  split at passes
  · rename_i same
    refine vouches_of_second named made (fun gone => notEmptied ?_) same
    refine ⟨?_, again, made, gone⟩
    rw [← same, gone]
    rfl
  · cases passes

end Lookups

theorem recipientKey_resumes {s : Server} {r : Request} {b : Submission s r} {l : Log} {x : Lookups}
    (looked : (s.recipientLookups b).Resumes l (.ret x)) :
    (s.recipientKey b).Resumes l (.ret (Server.judge b.m.fingerprint x)) := by
  rw [Server.recipientKey_eq]
  exact looked.bind

theorem asked_of_looked {s : Server} {r : Request} {b : Submission s r} {l : Log} {x : Lookups}
    (looked : (s.recipientLookups b).Resumes l (.ret x)) : x.Asked b.m.fingerprint :=
  (s.meets_recipientLookups b []).resumes looked

/-- **Fingerprint gate.** Of every body and every pair of answers the two lookups give, a request is
let through only for the fingerprint of a key one of them returned, if and only if the second
lookup did not leave an empty key where the fingerprint is that of no bytes. -/
theorem fingerprint_gate (s : Server) (r : Request) (b : Submission s r)
    (parsed : s.parseSubmission r = .ok b) (l : Log) (x : Lookups)
    (looked : (s.recipientLookups b).Resumes l (.ret x)) :
    ((s.recipientKey b).Resumes l (.ret (.ok ())) → x.Vouches b.m.fingerprint) ↔
      ¬ x.Emptied b.m.fingerprint := by
  have named := Server.fingerprint_of_parsed parsed
  have asked := asked_of_looked looked
  have decided := recipientKey_resumes looked
  constructor
  · intro sound emptied
    rw [Lookups.judge_of_emptied asked emptied] at decided
    exact Lookups.not_vouches_of_emptied named asked emptied (sound decided)
  · intro notEmptied passed
    exact Lookups.vouches_of_judge named notEmptied (Lib.Prog.ret.inj (decided.unique passed))

namespace Sample

open Protocol (Address)

/-- The fingerprint of no bytes. -/
def emptyFingerprint : Bytes := hexEncode (Lib.sha256 [])

theorem emptyFingerprint_text : emptyFingerprint =
    utf8 "e3b0c44298fc1c149afbf4c8996fb92427ae41e4649b934ca495991b7852b855" := by
  decide +kernel

/-- A mail to a remote user. -/
def mailOut (fingerprint : Bytes) : MailBody :=
  { mail (signature 65) (utf8 "1:20:250610:alice@a.example::x:0") with
    sender := utf8 "alice@a.example", recipient := utf8 "carol@c.example",
    fingerprint := fingerprint }

def carol : Address :=
  ⟨utf8 "carol", utf8 "c.example", false, .inr (by decide), by decide⟩

/-- Carol's keys as they were when they were cached. -/
def oldKeys : RemoteKeys := ⟨utf8 "AAAA", utf8 "AAAA"⟩

theorem oldFingerprint_text : fingerprint oldKeys.kem =
    utf8 "709e80c88487a2411e1ee4dfb9f22a861492d20c4765150c0c794abd70f8147c" := by
  decide +kernel

theorem decoded_only (m : MailBody) : (json [m] [] []).mail (mailText m) = some m := by
  unfold json
  simp only [List.find?_cons, beq_self_eq_true]

theorem parsed_mailOut {wanted : Bytes} (named : wanted ≠ []) (short : wanted.length ≤ 64) :
    ∃ b, (server [] [mailOut wanted] [] []).parseSubmission (submit (mailOut wanted)) = .ok b ∧
      b.m = mailOut wanted ∧ b.recipient = carol := by
  have ne : ∀ text ∈ ["alice@a.example", "carol@c.example", "a2V5", "Ym9keQ", "1749513600",
      "1:20:250610:alice@a.example::x:0"], utf8 text ≠ [] := by decide
  have filled : Filled (server [] [mailOut wanted] [] []) (mailOut wanted) [] 4
      (here alice (by decide)) carol :=
    { strings := ⟨ne _ (by simp), ne _ (by simp), named, ne _ (by simp), ne _ (by simp),
        ne _ (by simp), ne _ (by simp), signature_ne_nil 65, ne _ (by simp)⟩,
      reply := nofun,
      subject := rfl,
      size := sizeOf_four [] [mailOut wanted] [] [],
      ours := .inl rfl,
      qualified := .inr (show (utf8 "alice@a.example").contains 64 = true by decide),
      sender := rfl,
      recipient := rfl }
  have small : (mailText (mailOut wanted)).length ≤ 1048576 := by
    have bound := length_mailText_le (m := mailOut wanted) rfl
    have signed := length_signature 65
    have lengths : ["alice@a.example", "carol@c.example", "a2V5", "Ym9keQ", "1749513600",
        "1:20:250610:alice@a.example::x:0"].map (fun k => (utf8 k).length) =
        [15, 15, 4, 6, 10, 32] := by decide
    simp only [List.map_cons, List.map_nil, List.cons.injEq, and_true] at lengths
    obtain ⟨n₁, n₂, n₃, n₄, n₅, n₆⟩ := lengths
    simp only [mailOut, mail, Option.getD_some, List.length_nil, n₁, n₂, n₃, n₄, n₅, n₆] at bound ⊢
    omega
  have read : readBody (submit (mailOut wanted)) 1048576 = .ok (mailText (mailOut wanted)) :=
    readBody_ok rfl small
  obtain ⟨b, parsed, -, m, -, -, -, recipient⟩ :=
    parseSubmission_filled (s := server [] [mailOut wanted] [] []) read
      (decoded_only (mailOut wanted)) filled
  exact ⟨b, parsed, m, recipient⟩

/-- The keys of Carol are in the cache. -/
def cachedLog : Log := [⟨.cacheGet carol.stored, some (oldKeys, clock 0)⟩, ⟨.now, clock 0⟩]

/-- Joining the flight under way ends in a failure. -/
def failedLog (e : LookupError) : Log := [⟨.join carol.stored, (false, 0)⟩, ⟨.wait 0, .error e⟩]

section

variable {s : Server} {r : Request} {b : Submission s r}

theorem keysOf_cached (federated : s.cfg.federationEnabled = true) :
    (s.keysOf carol false).Resumes cachedLog (.ret (.ok ⟨oldKeys.kem, oldKeys.sig, true⟩)) := by
  have young : (clock 0).sub (clock 0) < Server.keyCacheTTL := by decide
  have hit : (s.lookup carol false).Resumes cachedLog (.ret (.ok oldKeys)) := by
    refine resumes_ask (.cacheGet carol.stored) (some (oldKeys, clock 0)) ?_
    refine resumes_ask .now (clock 0) ?_
    rw [if_pos young]
    exact .start
  unfold Server.keysOf
  rw [if_neg (by decide), if_neg (by simp [federated])]
  exact hit.bind

theorem keysOf_failed (federated : s.cfg.federationEnabled = true) (e : LookupError) :
    ∃ again, Lookups.left again = [] ∧ (s.keysOf carol true).Resumes (failedLog e) (.ret again) := by
  have joined : (s.lookup carol true).Resumes (failedLog e) (.ret (.error e)) :=
    resumes_ask (.join carol.stored) (false, 0) (resumes_ask (.wait 0) (.error e) .start)
  unfold Server.keysOf
  rw [if_neg (by decide), if_neg (by simp [federated])]
  cases e with
  | remoteNotFound => exact ⟨.error .notFound, rfl, joined.bind⟩
  | unreachable => exact ⟨.error .unreachable, rfl, joined.bind⟩

/-- The cached key is the wanted one. -/
theorem looked_cached (federated : s.cfg.federationEnabled = true) (recipient : b.recipient = carol)
    (same : fingerprint oldKeys.kem = b.m.fingerprint) :
    (s.recipientLookups b).Resumes cachedLog
      (.ret ⟨.ok ⟨oldKeys.kem, oldKeys.sig, true⟩, none⟩) := by
  unfold Server.recipientLookups
  rw [recipient]
  refine (keysOf_cached federated).bind.trans ?_
  simp only [ret_bind]
  rw [if_neg fun stale => stale.2.1 same]
  exact .start

/-- The cached key is another one, and the second lookup fails. -/
theorem looked_failed (federated : s.cfg.federationEnabled = true) (recipient : b.recipient = carol)
    (other : fingerprint oldKeys.kem ≠ b.m.fingerprint) (e : LookupError) :
    ∃ again, Lookups.left again = [] ∧
      (s.recipientLookups b).Resumes (cachedLog ++ failedLog e)
        (.ret ⟨.ok ⟨oldKeys.kem, oldKeys.sig, true⟩, some again⟩) := by
  obtain ⟨again, gone, failed⟩ := keysOf_failed federated e
  refine ⟨again, gone, ?_⟩
  unfold Server.recipientLookups
  rw [recipient]
  refine (keysOf_cached federated).bind.trans ?_
  simp only [ret_bind]
  rw [if_pos ⟨by decide, other, trivial⟩]
  exact failed.bind

end

/-- **A failed lookup lets a mail through**: the recipient's cached key does not match, its instance
is unreachable, and a mail with the fingerprint of no bytes passes the check. -/
theorem failed_lookup_passes : ∃ (s : Server) (r : Request) (b : Submission s r) (l : Log)
    (x : Lookups), s.parseSubmission r = .ok b ∧ (s.recipientLookups b).Resumes l (.ret x) ∧
      (∃ again, x.second = some again ∧ Lookups.left again = []) ∧
      (s.recipientKey b).Resumes l (.ret (.ok ())) ∧ ¬ x.Vouches b.m.fingerprint := by
  have named : emptyFingerprint ≠ [] := hexEncode_sha256_ne_nil []
  obtain ⟨b, parsed, m, recipient⟩ := parsed_mailOut named (by
    rw [emptyFingerprint_text]
    decide)
  have wanted : b.m.fingerprint = emptyFingerprint := by rw [m]; rfl
  have other : fingerprint oldKeys.kem ≠ b.m.fingerprint := by
    rw [wanted, emptyFingerprint_text, oldFingerprint_text]
    decide
  obtain ⟨again, gone, looked⟩ := looked_failed (s := server [] [mailOut emptyFingerprint] [] [])
    rfl recipient other .unreachable
  have emptied : Lookups.Emptied ⟨.ok ⟨oldKeys.kem, oldKeys.sig, true⟩, some again⟩
      b.m.fingerprint := ⟨wanted, again, rfl, gone⟩
  have asked := asked_of_looked looked
  have passes := recipientKey_resumes looked
  rw [Lookups.judge_of_emptied asked emptied] at passes
  rw [← wanted] at named
  exact ⟨_, _, b, _, _, parsed, looked, ⟨again, rfl, gone⟩, passes,
    Lookups.not_vouches_of_emptied named asked emptied⟩

/-- A mail for the cached key passes, and that key vouches for it. -/
theorem fingerprint_gate_cached : ∃ (s : Server) (r : Request) (b : Submission s r) (l : Log)
    (x : Lookups), s.parseSubmission r = .ok b ∧ (s.recipientLookups b).Resumes l (.ret x) ∧
      ((s.recipientKey b).Resumes l (.ret (.ok ())) → x.Vouches b.m.fingerprint) := by
  have named : fingerprint oldKeys.kem ≠ [] := by
    rw [oldFingerprint_text]
    decide
  obtain ⟨b, parsed, m, recipient⟩ := parsed_mailOut named
    (length_fingerprint_le oldKeys.kem)
  have same : fingerprint oldKeys.kem = b.m.fingerprint := by rw [m]; rfl
  have looked := looked_cached (s := server [] [mailOut (fingerprint oldKeys.kem)] [] [])
    rfl recipient same
  refine ⟨_, _, b, _, _, parsed, looked, (fingerprint_gate _ _ b parsed _ _ looked).mpr ?_⟩
  rintro ⟨-, again, made, -⟩
  cases made

end Sample

end Shyake.Go
