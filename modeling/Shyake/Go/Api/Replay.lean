import Mathlib.Data.List.Nodup
import Shyake.Go.Api.Runs
import Shyake.Go.Api.Accepting
import Shyake.Go.Protocol.Unambiguous

/-!
# Replays (`auth.go`, `ttlset`)

A signature that `auth` has accepted is remembered by its spelling, until the set
forgets it. Two things let a request through again: another spelling of the same
signature, and the last fraction of a second of the window, which is counted in
whole seconds while the set goes by the exact time.
-/

namespace Shyake.Go

open Lib.Prog
open Protocol (Mldsa65 validUsername parsePublicKey decodeB64 headerMessage headerBodyMessage)

/-! ## Accepted requests -/

/-- The path and the body with which a handler calls `auth`, and whether the body is signed. -/
def Request.authCall (r : Request) : Option (Bytes × Bytes × Bool) :=
  match r.route with
  | .register | .pubkey _ | .sendMail => none
  | .listMail typ =>
    some (utf8 "/api/mail?type=" ++ (if typ = [] then utf8 "inbox" else typ), [], false)
  | .getMail id | .burnMail id => some (utf8 "/api/mail/" ++ id, [], false)
  | .listBlocks => some (utf8 "/api/block", [], false)
  | .destroy => some (utf8 "/api/destroy", [], false)
  | .block | .unblock =>
    match readBody r smallBody with
    | .ok body => some (utf8 "/api/block", body, true)
    | .error _ => none
  | .rotate =>
    match readBody r smallBody with
    | .ok body => some (utf8 "/api/rotate", body, true)
    | .error _ => none

/-- `bodyAuth` of a body that can be read is `auth`. -/
theorem bodyAuth_eq {s : Server} {r : Request} (path : Bytes) {body : Bytes}
    (read : readBody r smallBody = .ok body) :
    ∃ f, s.bodyAuth r path = s.auth r path body true >>= f ∧
      ∀ reply, f (.error reply) = .ret (.error reply) := by
  unfold Server.bodyAuth
  rw [read]
  exact ⟨_, rfl, fun _ => rfl⟩

/-- The handler does call `auth` so, and returns what it refuses with. -/
theorem handler_authCall {s : Server} {r : Request} {path body : Bytes} {signsBody : Bool}
    (call : r.authCall = some (path, body, signsBody)) :
    ∃ f, s.handler r = s.auth r path body signsBody >>= f ∧
      ∀ reply, f (.error reply) = .ret reply := by
  unfold Request.authCall at call
  unfold Server.handler
  cases route : r.route with
  | register => simp [route] at call
  | pubkey => simp [route] at call
  | sendMail => simp [route] at call
  | listMail | getMail | burnMail | listBlocks | destroy =>
    simp only [route, Option.some.injEq, Prod.mk.injEq] at call
    obtain ⟨rfl, rfl, rfl⟩ := call
    exact ⟨_, rfl, fun _ => rfl⟩
  | block | unblock =>
    simp only [route] at call
    split at call
    · rename_i body' read
      cases call
      obtain ⟨f, eq, refuses⟩ := bodyAuth_eq (s := s) (utf8 "/api/block") read
      simp only [Server.block, Server.unblock, Server.blockTarget, eq, bind_assoc]
      refine ⟨_, rfl, fun reply => ?_⟩
      rw [refuses]
      rfl
    · cases call
  | rotate =>
    simp only [route] at call
    split at call
    · rename_i body' read
      cases call
      obtain ⟨f, eq, refuses⟩ := bodyAuth_eq (s := s) (utf8 "/api/rotate") read
      simp only [Server.rotate, eq, bind_assoc]
      refine ⟨_, rfl, fun reply => ?_⟩
      rw [refuses]
      rfl
    · cases call

theorem route_of_authCall {r : Request} {call : Bytes × Bytes × Bool}
    (h : r.authCall = some call) : r.route ≠ .register ∧ r.route ≠ .sendMail := by
  unfold Request.authCall at h
  constructor
  · intro route
    rw [route] at h
    cases h
  · intro route
    rw [route] at h
    cases h

/-- `auth` let this thread's request pass: it was signed by `u`, over `msg`. -/
def Accepted (s : Server) (t : Lib.Thread (service s)) (u : User) (msg : Bytes) : Prop :=
  ∃ path body signsBody l, t.req.authCall = some (path, body, signsBody) ∧ l <+: t.log ∧
    (s.auth t.req path body signsBody).Resumes l (.ret (.ok u)) ∧
    msg = Server.signedMessage t.req path body signsBody

section

variable {s : Server} {c : State s} {ok : State s → Lib.Label (service s) → Prop} {clock : Time}
  {db : Db}

/-- What an accepted request is known to be. -/
structure AcceptedFacts (s : Server) (t : Lib.Thread (service s)) (u : User) (msg : Bytes) :
    Prop where
  route : t.req.route ≠ .register
  message : ∃ path body signsBody, msg = Server.signedMessage t.req path body signsBody
  username : validUsername t.req.username = true
  timestamp : (parseInt t.req.timestamp).isSome = true
  verified : ∃ pk sig, parsePublicKey s.mldsa u.sigPubkey = some pk ∧
    decodeB64 t.req.signature = some sig ∧ sig.length = Protocol.signatureSize ∧
    s.mldsa.verify pk msg sig = true
  seen : ∃ now, Log.Has t.log (.seenAdd (Lib.sha256 t.req.signature) now) true

/-- An accepted request has been authenticated, by its headers. -/
theorem Accepted.authenticated {t : Lib.Thread (service s)} {u : User} {msg : Bytes}
    (h : Accepted s t u msg) : t.req.route ≠ .register ∧ t.req.route ≠ .sendMail ∧
      ∃ path body signsBody, Authenticated s t.req path body signsBody u t.log ∧
        msg = Server.signedMessage t.req path body signsBody := by
  obtain ⟨path, body, signsBody, l, call, pre, resumes, rfl⟩ := h
  obtain ⟨register, sendMail⟩ := route_of_authCall call
  have authenticated := (meets_auth (token_of_header (s := s) register sendMail) path body signsBody
    (l := [])).resumes resumes u rfl
  exact ⟨register, sendMail, path, body, signsBody, authenticated.mono pre, rfl⟩

theorem Accepted.facts {t : Lib.Thread (service s)} {u : User} {msg : Bytes}
    (h : Accepted s t u msg) (names : Named db) (run : Lib.Run ok (State.start s clock db) c)
    (mem : t ∈ c.threads) : AcceptedFacts s t u msg := by
  obtain ⟨register, -, path, body, signsBody, authenticated, rfl⟩ := h.authenticated
  obtain ⟨-, valid⟩ := read_user names run mem authenticated.user
  obtain ⟨reading, -, n, parsed, -⟩ := authenticated.inWindow
  exact { route := register,
          message := ⟨path, body, signsBody, rfl⟩,
          username := valid,
          timestamp := by rw [parsed]; rfl,
          verified := verified_inv authenticated.signed,
          seen := authenticated.seen }

/-- The timestamp can be read back from a signed message. -/
theorem timestamp_of_signedMessage {r r' : Request} {path path' body body' : Bytes}
    {signsBody signsBody' : Bool} (user : validUsername r.username = true)
    (user' : validUsername r'.username = true) (ts : (parseInt r.timestamp).isSome = true)
    (ts' : (parseInt r'.timestamp).isSome = true)
    (same : Server.signedMessage r path body signsBody =
      Server.signedMessage r' path' body' signsBody') : r.timestamp = r'.timestamp := by
  have last {m m' : Bytes} (e : m ++ 58 :: r.timestamp = m' ++ 58 :: r'.timestamp) :
      r.timestamp = r'.timestamp :=
    (Lib.append_sep_inj (Protocol.colon_notMem_of_parseInt ts)
      (Protocol.colon_notMem_of_parseInt ts') e).2
  cases signsBody with
  | false =>
    cases signsBody' with
    | false => exact last same
    | true => exact absurd same (Protocol.header_ne_headerBody user ts ts')
  | true =>
    cases signsBody' with
    | false => exact absurd same.symm (Protocol.header_ne_headerBody user' ts' ts)
    | true =>
      simp only [Server.signedMessage, if_true, headerBodyMessage, List.append_assoc,
        List.singleton_append] at same
      obtain ⟨same, -⟩ := Lib.append_sep_inj (Protocol.colon_notMem_hexEncode _)
        (Protocol.colon_notMem_hexEncode _) same
      exact last same

/-! ## What the set remembers -/

/-- Both sets have room in their current generation. -/
def FewKeys (c : State s) : Prop :=
  c.shared.seen.cur.length < 250000 ∧ c.shared.spent.cur.length < 250000

/-! ## No signature is added twice -/

/-- A signature is added before its window has ended by the exact clock. -/
def Timely (c : State s) (lab : Lib.Label (service s)) : Prop :=
  ∀ (r : Request) (k : Bytes) (now : Time), c.pending lab = some (r, .seenAdd k now) →
    r.route ≠ .register → ∀ n, parseInt r.timestamp = some n →
      (c.shared.clock.ns : Int) ≤ (n + window) * 1000000000

/-- A signature that is about to be added is not another spelling of one already added. -/
def OneSpelling (c : State s) (lab : Lib.Label (service s)) : Prop :=
  ∀ (r : Request) (k : Bytes) (now : Time), c.pending lab = some (r, .seenAdd k now) →
    ∀ t ∈ c.threads, (∃ at_, Log.Has t.log (.seenAdd (Lib.sha256 t.req.signature) at_) true) →
      decodeB64 t.req.signature = decodeB64 r.signature → t.req.signature = r.signature

/-- One key, added for two requests of one timestamp. -/
def Readded (r : Request) (e : Lib.Event Effects) (r' : Request) (e' : Lib.Event Effects) : Prop :=
  ∃ k a b n, e = ⟨.seenAdd k a, true⟩ ∧ e' = ⟨.seenAdd k b, true⟩ ∧ r.route ≠ .register ∧
    r'.route ≠ .register ∧ parseInt r.timestamp = some n ∧ parseInt r'.timestamp = some n

/-- One signature, added in two spellings. -/
def Respelled (r : Request) (e : Lib.Event Effects) (r' : Request) (e' : Lib.Event Effects) : Prop :=
  (∃ a b, e = ⟨.seenAdd (Lib.sha256 r.signature) a, true⟩ ∧
    e' = ⟨.seenAdd (Lib.sha256 r'.signature) b, true⟩) ∧
  decodeB64 r.signature = decodeB64 r'.signature ∧ r.signature ≠ r'.signature

theorem not_readded (run : Lib.Run ok (State.start s clock db) c)
    (few : ∀ c lab, ok c lab → FewKeys c) (timely : ∀ c lab, ok c lab → Timely c lab) :
    Lib.Run.Apart Readded c := by
  refine run.apart ?_ ?_
  · rintro r e r' e' ⟨k, a, b, n, he, he', route, route', ts, ts'⟩
    exact ⟨k, b, a, n, he', he, route', route, ts', ts⟩
  · rintro c i o t q k a w before cond acts t' mem e' he' ⟨key, a, b, n, new, rfl, route, route', ts, ts'⟩
    have seen : Remembered seenSet (seconds 600) 250000 c :=
      remembered before rfl (by decide) fun c lab cond => (few c lab cond).1
    -- the earlier `Add` is forgotten only after 600 seconds, and it was in the window
    have late := forgotten_of_added before seen (few c _ cond).1 acts new t' mem b he'
    cases new
    obtain ⟨l, pre⟩ := Log.Has.upTo he'
    have early := (time_of_seenAdd before mem key b true pre).2 route' n ts'
    have end_ := timely c _ cond t.req key a acts.pending route n ts
    unfold window seconds at *
    omega

theorem not_respelled (run : Lib.Run ok (State.start s clock db) c)
    (one : ∀ c lab, ok c lab → OneSpelling c lab) : Lib.Run.Apart Respelled c := by
  refine run.apart ?_ ?_
  · rintro r e r' e' ⟨⟨a, b, he, he'⟩, same, ne⟩
    exact ⟨⟨b, a, he', he⟩, same.symm, ne.symm⟩
  · rintro c i o t q k a w before cond acts t' mem e' he' ⟨⟨a, b, new, rfl⟩, same, ne⟩
    cases new
    exact ne (one c _ cond t.req _ a acts.pending t' mem ⟨b, he'⟩ same.symm).symm

/-- Two accepted requests with one signature string have different timestamps. -/
theorem not_accepted_again (names : Named db) (run : Lib.Run ok (State.start s clock db) c)
    (few : ∀ c lab, ok c lab → FewKeys c) (timely : ∀ c lab, ok c lab → Timely c lab)
    {i j : Nat} {t t' : Lib.Thread (service s)} {u v : User} {msg msg' : Bytes} (ne : i ≠ j)
    (hi : c.threads[i]? = some t) (hj : c.threads[j]? = some t') (accepted : Accepted s t u msg)
    (accepted' : Accepted s t' v msg') (same : t.req.signature = t'.req.signature) :
    msg ≠ msg' := by
  intro message
  have facts := accepted.facts names run (List.mem_of_getElem? hi)
  have facts' := accepted'.facts names run (List.mem_of_getElem? hj)
  obtain ⟨path, body, signsBody, rfl⟩ := facts.message
  obtain ⟨path', body', signsBody', rfl⟩ := facts'.message
  have ts := timestamp_of_signedMessage facts.username facts'.username facts.timestamp
    facts'.timestamp message
  obtain ⟨n, parsed⟩ := Option.isSome_iff_exists.mp facts.timestamp
  obtain ⟨a, seen⟩ := facts.seen
  obtain ⟨b, seen'⟩ := facts'.seen
  obtain ⟨p, hp⟩ := List.mem_iff_getElem?.mp seen
  obtain ⟨p', hp'⟩ := List.mem_iff_getElem?.mp seen'
  refine not_readded run few timely i j p p' t t' (by simp [ne]) hi hj _ _ hp hp' ?_
  exact ⟨Lib.sha256 t.req.signature, a, b, n, rfl, by rw [same], facts.route, facts'.route, parsed,
    ts ▸ parsed⟩

/-- Distinct accepted requests of one user, over one message and under one key, carry distinct
signatures. -/
def NeverTwice (s : Server) (c : State s) : Prop :=
  ∀ (i j : Nat) (t t' : Lib.Thread (service s)) (u v : User) (msg : Bytes), i ≠ j →
    c.threads[i]? = some t → c.threads[j]? = some t' → Accepted s t u msg → Accepted s t' v msg →
    t.req.username = t'.req.username →
    parsePublicKey s.mldsa u.sigPubkey = parsePublicKey s.mldsa v.sigPubkey →
    decodeB64 t.req.signature ≠ decodeB64 t'.req.signature

/-- Distinct accepted requests carry distinct signature strings. -/
def NeverReused (s : Server) (c : State s) : Prop :=
  ∀ (i j : Nat) (t t' : Lib.Thread (service s)) (u v : User) (msg msg' : Bytes), i ≠ j →
    c.threads[i]? = some t → c.threads[j]? = some t' → Accepted s t u msg → Accepted s t' v msg' →
    t.req.signature ≠ t'.req.signature

/-- A signature verifies no more than one message, under whatever key. -/
def MessageBound (M : Mldsa65) : Prop :=
  ∀ pk pk' msg msg' sig, M.verify pk msg sig = true → M.verify pk' msg' sig = true → msg = msg'

end

/-- A valid request passes the `auth` of its handler. -/
theorem slowHandler_resumes {s : Server} {r : Request} {path body : Bytes} {signsBody : Bool}
    {u : User} {now : Time} (call : r.authCall = some (path, body, signsBody))
    (valid : Valid s r path body signsBody u now) (later : Time) :
    ∃ rest, (s.handler r).Resumes (slowAuthLog r u now later) rest := by
  obtain ⟨f, eq, -⟩ := handler_authCall (s := s) call
  rw [eq]
  exact ⟨_, (slowAuth_resumes valid later).bind⟩

theorem handler_resumes {s : Server} {r : Request} {path body : Bytes} {signsBody : Bool} {u : User}
    {now : Time} (call : r.authCall = some (path, body, signsBody))
    (valid : Valid s r path body signsBody u now) :
    ∃ rest, (s.handler r).Resumes (authLog r u now ++ []) rest :=
  slowHandler_resumes call valid now

/-- A thread that has just passed `auth` is accepted. -/
theorem slowAccepted_of_valid {s : Server} {r : Request} {path body : Bytes} {signsBody : Bool}
    {u : User} {now : Time} {rest : Handler Reply}
    (call : r.authCall = some (path, body, signsBody))
    (valid : Valid s r path body signsBody u now) (later : Time) :
    Accepted s ⟨r, slowAuthLog r u now later, rest⟩ u
      (Server.signedMessage r path body signsBody) :=
  ⟨path, body, signsBody, _, call, List.prefix_rfl, slowAuth_resumes valid later, rfl⟩

theorem accepted_of_valid {s : Server} {r : Request} {path body : Bytes} {signsBody : Bool}
    {u : User} {now : Time} {rest : Handler Reply}
    (call : r.authCall = some (path, body, signsBody))
    (valid : Valid s r path body signsBody u now) :
    Accepted s ⟨r, authLog r u now, rest⟩ u (Server.signedMessage r path body signsBody) :=
  slowAccepted_of_valid call valid now

/-! ## How a signed request gets through twice -/

namespace Sample

/-- Both sets hold at most `n` keys in their current generation. -/
def Small (n : Nat) (w : World) : Prop := w.seen.cur.length ≤ n ∧ w.spent.cur.length ≤ n

theorem Small.used {n : Nat} {w : World} (h : Small n w) (signature pow : Bytes) :
    Small (n + 1) (w.used signature pow) :=
  ⟨(TtlSet.length_cur_add _ _ _).trans (Nat.succ_le_succ h.1),
    (TtlSet.length_cur_add _ _ _).trans (Nat.succ_le_succ h.2)⟩

/-- A request arrives, is accepted, and leaves both of its keys in the sets. -/
theorem run_accepted {s : Server} {c₀ c : State s} {r : Request} {path body : Bytes}
    {signsBody : Bool} {u : User} {n : Nat}
    (run : Lib.Run (fun c _ => FewKeys c) c₀ c) (small : Small n c.shared) (few : n < 9)
    (call : r.authCall = some (path, body, signsBody))
    (valid : Valid s r path body signsBody u c.shared.clock)
    (user : c.shared.db.getUser r.username = .ok u)
    (seen : (c.shared.seen.add (Lib.sha256 r.signature) c.shared.clock).1 = true)
    (spent : (c.shared.spent.add (Lib.sha256 r.pow) c.shared.clock).1 = true) :
    ∃ (c' : State s) (rest : Handler Reply), Lib.Run (fun c _ => FewKeys c) c₀ c' ∧
      Small (n + 1) c'.shared ∧ c'.shared = c.shared.used r.signature r.pow ∧
      c'.threads = c.threads ++ [⟨r, authLog r u c.shared.clock, rest⟩] := by
  have enough {c : State s} (h : Small 9 c.shared) : FewKeys c :=
    ⟨Nat.lt_of_le_of_lt h.1 (by decide), Nat.lt_of_le_of_lt h.2 (by decide)⟩
  have now : Small 9 c.shared := ⟨small.1.trans few.le, small.2.trans few.le⟩
  obtain ⟨f, resumes⟩ := handler_resumes call valid
  obtain ⟨c', run', shared, threads⟩ := run_request (P := Small 9) run
    (fun _ _ _ _ h => enough h) (enough now) (l := []) resumes user seen spent now
    ⟨((TtlSet.length_cur_add _ _ _).trans (Nat.succ_le_succ small.1)).trans few, now.2⟩ .start
  exact ⟨c', _, run', shared ▸ small.used _ _, shared, threads⟩

def list (u : User) (timestamp signature pow : Bytes) : Request :=
  request (.listMail (utf8 "inbox")) u timestamp signature pow none

def aliceSignsList : Signed :=
  ⟨alice, utf8 "GET:/api/mail?type=inbox:alice:1749513600", signature 65⟩

/-- A request and the same request with its signature padded and another token. -/
def captured : Request :=
  list alice (utf8 "1749513600") (signature 65) (utf8 "1:20:250610:alice::one:6e7368")

def padded : Request :=
  list alice (utf8 "1749513600") (signature 65 ++ [61]) (utf8 "1:20:250610:alice::two:37b8a9")

theorem valid_list {accepted : List Signed} {a : Signed} (mem : a ∈ accepted) {ts text pow : Bytes}
    {now : Time} (user : a.user = alice ∨ a.user = bobby)
    (message : a.message = headerMessage (utf8 "GET") (utf8 "/api/mail?type=inbox") a.user.username ts)
    (sig : ∃ first ∈ ([65, 66, 67, 68] : List UInt8), a.signature = signature first)
    (spelling : decodeB64 text = decodeB64 a.signature) (nonempty : ts ≠ [] ∧ text ≠ [] ∧ pow ≠ [])
    (work : Protocol.verifyPoW pow a.user.username now = true) (inTime : Within ts now) :
    Valid (server accepted [] [] []) (list a.user ts text pow) (utf8 "/api/mail?type=inbox") []
      false a.user now := by
  obtain ⟨first, known, same⟩ := sig
  have key : ∃ pk, decodeB64 a.user.sigPubkey = some pk ∧ pk.length = Protocol.publicKeySize := by
    rcases user with user | user
    · rw [user]
      exact decodeB64_sigPubkey _ (by simp)
    · rw [user]
      exact decodeB64_sigPubkey _ (by simp)
  have name : a.user.username ≠ [] := by
    rcases user with user | user <;> rw [user] <;> decide
  exact valid mem message key (same ▸ decodeB64_signature _ known) spelling ⟨name, nonempty⟩ work
    inTime

/-- Alone, the captured request meets every condition on the steps. -/
theorem run_captured : ∃ c : State (server [aliceSignsList] [] [] []),
    Lib.Run (fun c lab => FewKeys c ∧ OneSpelling c lab ∧ Timely c lab)
      (State.start _ (clock 0) db) c ∧ requests c = [captured] := by
  have allows : Lib.Allows (S := service (server [aliceSignsList] [] [] []))
      (fun c lab => FewKeys c ∧ OneSpelling c lab ∧ Timely c lab) [captured]
      (fun w => Small 9 w ∧ w.clock = clock 0) := by
    intro c lab reqs _ small
    have only {r : Request} {q : Query} (pending : c.pending lab = some (r, q)) : r = captured := by
      obtain ⟨t, mem, rfl, -⟩ := Lib.Config.thread_of_pending pending
      have here : t.req ∈ requests c := List.mem_map_of_mem mem
      rw [show requests c = [captured] from reqs] at here
      exact List.mem_singleton.mp here
    refine ⟨⟨Nat.lt_of_le_of_lt small.1.1 (by decide), Nat.lt_of_le_of_lt small.1.2 (by decide)⟩,
      fun r k now pending t mem _ _ => ?_, fun r k now pending _ n parsed => ?_⟩
    · have here : t.req ∈ requests c := List.mem_map_of_mem mem
      rw [show requests c = [captured] from reqs] at here
      rw [only pending, List.mem_singleton.mp here]
    · rw [only pending] at parsed
      obtain rfl : 1749513600 = n := by
        rw [← Option.some.injEq, ← parsed]
        decide
      rw [small.2]
      decide
  have fresh : Lib.Run (fun c lab => FewKeys c ∧ OneSpelling c lab ∧ Timely c lab)
    (State.start (server [aliceSignsList] [] [] []) (clock 0) db) (State.start _ (clock 0) db) := .start
  have valid : Valid (server [aliceSignsList] [] [] []) captured (utf8 "/api/mail?type=inbox") []
      false alice (clock 0) :=
    valid_list List.mem_cons_self (.inl rfl) (by decide) ⟨65, by simp, rfl⟩ rfl
      ⟨by decide, signature_ne_nil 65, by decide⟩ (by decide +kernel) (within (by decide))
  obtain ⟨rest, resumes⟩ := handler_resumes rfl valid
  obtain ⟨c, run, -, threads⟩ := run_request fresh allows
    ⟨⟨by decide, by decide⟩, fun _ _ _ pending => (nomatch pending), fun _ _ _ pending => (nomatch pending)⟩
    (l := []) resumes rfl
    (TtlSet.add_of_notMem List.not_mem_nil List.not_mem_nil)
    (TtlSet.add_of_notMem List.not_mem_nil List.not_mem_nil)
    ⟨⟨Nat.zero_le _, Nat.zero_le _⟩, rfl⟩
    ⟨⟨(TtlSet.length_cur_add _ _ _).trans (by decide), Nat.zero_le _⟩, rfl⟩ .start
  exact ⟨c, run, by rw [requests, threads]; rfl⟩

theorem named_db : Named db := by decide

/-- Captured and replayed: an earlier request starts the set's clock, the second one is the one
replayed, the third one makes the set rotate. -/
def earlier : Request :=
  list bobby (utf8 "1749513600") (signature 66) (utf8 "1:20:250610:bobby::one:12c85d")

def onTime : Request :=
  list alice (utf8 "1749514500") (signature 65) (utf8 "1:20:250610:alice::one:6e7368")

def between : Request :=
  list bobby (utf8 "1749514500") (signature 67) (utf8 "1:20:250610:bobby::two:10d0e")

def replayed : Request :=
  list alice (utf8 "1749514500") (signature 65) (utf8 "1:20:250610:alice::two:37b8a9")

def signsEarlier : Signed :=
  ⟨bobby, utf8 "GET:/api/mail?type=inbox:bobby:1749513600", signature 66⟩

def signsOnTime : Signed :=
  ⟨alice, utf8 "GET:/api/mail?type=inbox:alice:1749514500", signature 65⟩

def signsBetween : Signed :=
  ⟨bobby, utf8 "GET:/api/mail?type=inbox:bobby:1749514500", signature 67⟩

def replaySignatures : List Signed := [signsEarlier, signsOnTime, signsBetween]

/-- The signatures of a run belong to one message each. -/
theorem messageBound_replay : MessageBound (scheme replaySignatures) := by
  have apart : (replaySignatures.map fun a => decodeB64 a.signature).Nodup := by decide +kernel
  intro pk pk' msg msg' sig h h'
  obtain ⟨a, mem, ha⟩ := List.any_eq_true.mp h
  obtain ⟨a', mem', ha'⟩ := List.any_eq_true.mp h'
  simp only [Bool.and_eq_true, beq_iff_eq] at ha ha'
  have same : a = a' := List.inj_on_of_nodup_map apart mem mem' (ha.2.trans ha'.2.symm)
  rw [← ha.1.2, ← ha'.1.2, same]

/-- The time passes, and then a request is accepted. -/
theorem run_accepted_at {s : Server} {c₀ c : State s} (r : Request) {path body : Bytes}
    {signsBody : Bool} {u : User} {n : Nat} (now : Time) (seen spent : List (Bytes × Time))
    (run : Lib.Run (fun c _ => FewKeys c) c₀ c) (small : Small n c.shared) (few : n < 9)
    (later : c.shared.clock ≤ now) (users : c.shared.db = db)
    (seen_eq : c.shared.seen = (TtlSet.new (seconds 600) 250000).addAll seen)
    (spent_eq : c.shared.spent = (TtlSet.new (seconds (72 * 3600)) 250000).addAll spent)
    (call : r.authCall = some (path, body, signsBody)) (valid : Valid s r path body signsBody u now)
    (user : db.getUser r.username = .ok u)
    (new : (((TtlSet.new (seconds 600) 250000).addAll seen).add (Lib.sha256 r.signature) now).1 = true)
    (fresh : Lib.sha256 r.pow ∉ spent.map Prod.fst) :
    ∃ (c' : State s) (rest : Handler Reply), Lib.Run (fun c _ => FewKeys c) c₀ c' ∧
      Small (n + 1) c'.shared ∧ c'.shared.clock = now ∧ c'.shared.db = db ∧
      c'.shared.seen = (TtlSet.new (seconds 600) 250000).addAll
        (seen ++ [(Lib.sha256 r.signature, now)]) ∧
      c'.shared.spent = (TtlSet.new (seconds (72 * 3600)) 250000).addAll
        (spent ++ [(Lib.sha256 r.pow, now)]) ∧
      c'.threads = c.threads ++ [⟨r, authLog r u now, rest⟩] := by
  have enough : FewKeys c := ⟨Nat.lt_of_le_of_lt small.1 (by omega),
    Nat.lt_of_le_of_lt small.2 (by omega)⟩
  obtain ⟨c₁, run₁, shared₁, threads₁⟩ := run_drift (s := s) run enough later
  have clock₁ : c₁.shared.clock = now := by rw [shared₁]
  have db₁ : c₁.shared.db = db := by rw [shared₁, ← users]
  have seen₁ : c₁.shared.seen = (TtlSet.new (seconds 600) 250000).addAll seen := by
    rw [shared₁, ← seen_eq]
  have spent₁ : c₁.shared.spent = (TtlSet.new (seconds (72 * 3600)) 250000).addAll spent := by
    rw [shared₁, ← spent_eq]
  obtain ⟨c₂, rest, run₂, small₂, shared₂, threads₂⟩ := run_accepted run₁ (shared₁ ▸ small) few call
    (clock₁ ▸ valid) (db₁ ▸ user) (by rw [seen₁, clock₁]; exact new)
    (by rw [spent₁]; exact TtlSet.addAll_add fresh)
  refine ⟨c₂, rest, run₂, small₂, ?_, ?_, ?_, ?_, ?_⟩
  · rw [shared₂]
    exact clock₁
  · rw [shared₂]
    exact db₁
  · rw [shared₂]
    simp only [World.used, seen₁, clock₁, TtlSet.addAll, List.foldl_append, List.foldl_cons,
      List.foldl_nil]
  · rw [shared₂]
    simp only [World.used, spent₁, clock₁, TtlSet.addAll, List.foldl_append, List.foldl_cons,
      List.foldl_nil]
  · rw [threads₂, threads₁, clock₁]

theorem sha256_tokens :
    ([earlier.pow, onTime.pow, between.pow, replayed.pow].map Lib.sha256).Nodup := by
  decide +kernel

end Sample

end Shyake.Go
