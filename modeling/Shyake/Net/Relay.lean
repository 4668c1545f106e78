import Shyake.Go.Api.Alone
import Shyake.Lib.Network
import Shyake.Worker.Sender

/-!
# Instances that relay to one another

Any number of Go and Worker instances. A POST that an instance sends arrives where the
host name of its URL leads: a domain may lead to an instance that is configured under
another name. Every instance relays a submission at most once. Whether the one that
gets it relays it again is the question: a Go instance does not, as long as its spent
set has the token, a Worker does whenever the recipient is not its own.
-/

namespace Shyake.Net

open Lib.Prog

inductive Instance where
  | go (s : Go.Server)
  | worker (e : Worker.Env)

namespace Instance

def service : Instance → Lib.Service
  | go s => Go.service s
  | worker e => Worker.service e

/-- A POST: its URL and its body. -/
def posts : (x : Instance) → x.service.I.Query → Option (Bytes × Bytes)
  | go _, (.post url body : Go.Query) => some (url, body)
  | go _, _ => none
  | worker _, (.post url body : Worker.Query) => some (url, body)
  | worker _, _ => none

/-- A submission with this body. -/
def submission : (x : Instance) → Bytes → x.service.Req
  | go _, body => (⟨.sendMail, false, [], [], [], [], some body⟩ : Go.Request)
  | worker _, body => (⟨.sendMail, [], [], [], [], body⟩ : Worker.Request)

end Instance

/-- Instances, and where a URL leads. -/
structure Instances where
  Name : Type
  named : DecidableEq Name
  instances : Name → Instance
  leads : Bytes → Name → Bool

instance (xs : Instances) : DecidableEq xs.Name := xs.named

/-- The network of some instances: what goes from one to another is a submission. -/
def Instances.network (xs : Instances) : Lib.Network where
  Node := xs.Name
  service n := (xs.instances n).service
  Message := Bytes × Bytes
  sends n q := (xs.instances n).posts q
  receives m n := if xs.leads m.1 n then some ((xs.instances n).submission m.2) else none

instance (xs : Instances) : DecidableEq xs.network.Node := xs.named

/-! ## One relay for each request -/

end Shyake.Net

namespace Shyake.Go

open Lib.Prog

def Query.relays : Query → Prop
  | .post _ _ => True
  | _ => False

theorem not_relays_of_looks {q : Query} (h : q.looks) : ¬ q.relays := by
  intro yes
  cases q with
  | post => exact h
  | _ => exact yes

theorem not_relays_of_inserts {q : Query} (h : q.inserts) : ¬ q.relays := by
  intro yes
  cases q with
  | post => exact h
  | _ => exact yes

section

variable {s : Server} {r : Request}

theorem once_ask {α : Type} {A : Query → Prop} (q : Query) (f : Answer q → Handler α)
    (other : ¬ A q) : (ask q >>= f).Once (I := Effects) A ↔ ∀ a, (f a).Once (I := Effects) A :=
  ⟨fun h => h.1, fun h => ⟨h, fun yes => absurd yes other⟩⟩

theorem relay_once (b : Submission s r) : (s.relay b).Once (I := Effects) Query.relays := by
  unfold Server.relay
  split
  · trivial
  refine Once.bind_left ?_ fun res => ?_
  · refine Once.bind_left ⟨fun answer => trivial, fun _ answer => trivial⟩ fun answer => ?_
    split <;> trivial
  · split
    · trivial
    dsimp only
    split
    · trivial
    split <;> trivial

theorem storeSubmission_once (b : Submission s r) :
    (s.storeSubmission b).Once (I := Effects) Query.relays := by
  have blocklist : (Server.checkBlocklist b).Asks (I := Effects) fun q => ¬ q.relays := by
    unfold Server.checkBlocklist
    split
    · trivial
    refine (asks_ask _ _).mpr ⟨id, fun answer => ?_⟩
    split <;> trivial
  unfold Server.storeSubmission
  refine Once.bind_right blocklist fun res => ?_
  split
  · trivial
  refine (once_ask _ _ id).mpr fun known => ?_
  split
  · trivial
  refine Once.bind_right ((remoteTakesReplies_looks b).mono fun _ => not_relays_of_looks) fun res => ?_
  split
  · trivial
  refine (once_ask _ _ id).mpr fun now => (once_ask _ _ id).mpr fun new => ?_
  split
  · trivial
  refine Once.bind_left (relay_once b) fun res => ?_
  split
  · trivial
  refine (asks_ask _ _).mpr ⟨id, fun now => Asks.bind ((insertAttempts_inserts _ _).mono
    fun _ => not_relays_of_inserts) fun done => ?_⟩
  split <;> trivial

/-- **A request is relayed at most once** by the instance it comes to. -/
theorem handler_once (s : Server) (r : Request) :
    (s.handler r).Once (I := Effects) Query.relays := by
  by_cases route : r.route = .sendMail
  · unfold Server.handler
    rw [route]
    show (s.sendMail r).Once _
    unfold Server.sendMail
    split
    · trivial
    · rename_i b parsed
      refine Once.bind_right ((checkSubmission_looks b).mono fun _ => not_relays_of_looks)
        fun res => ?_
      split
      · trivial
      · exact storeSubmission_once b
  · refine Once.of_asks (Asks.of_meets (handler_guarded s r) fun l q guard => ?_)
    cases q with
    | post url body => exact absurd guard.2.1 route
    | _ => exact id

end

end Shyake.Go

namespace Shyake.Worker

open Lib.Prog

section

variable {e : Env} {r : Request}

theorem relay_once (rawBody recipient : Bytes) (isReply : Bool) :
    (relay e rawBody recipient isReply).Once (I := Effects) Query.relays := by
  unfold relay
  dsimp only
  split
  · trivial
  refine Once.bind_right ((takesReplies_looksUp _ _).mono fun _ => not_relays) fun res => ?_
  split
  · trivial
  refine Once.bind_left ?_ fun res => ?_
  · unfold relayMail
    refine Once.bind_left (p := ask (.post _ _)) ⟨fun _ => trivial, fun _ _ => trivial⟩
      fun answer => ?_
    split
    · trivial
    dsimp only
    split
    · trivial
    split <;> trivial
  · split <;> trivial

theorem storeMail_once (rawBody : Bytes) (isReply : Bool) (sender recipient : Bytes) (ts : Nat) :
    (storeMail e rawBody isReply sender recipient ts).Once (I := Effects) Query.relays := by
  unfold storeMail
  refine Once.bind_right (p := exec _) ⟨id, fun _ => trivial⟩ fun blocked => ?_
  split
  · trivial
  · trivial
  refine Once.bind_right (p := ask .random) ⟨id, fun _ => trivial⟩ fun indexes => ?_
  refine Once.bind_left (relay_once _ _ _) fun res => ?_
  split
  · trivial
  refine (asks_ask _ _).mpr ⟨id, fun done => ?_⟩
  split <;> trivial

/-- Only a submission is relayed. -/
theorem handler_asks (route : r.route ≠ .sendMail) :
    (handler e r).Asks (I := Effects) fun q => ¬ q.relays := by
  refine Asks.of_meets (handler_guarded e r) fun l q guard => ?_
  cases q with
  | post url body =>
    obtain ⟨sender, recipient, checked, -⟩ := guard
    exact absurd checked.route route
  | _ => exact id

/-- **A request is relayed at most once** by the instance it comes to. -/
theorem handler_once (e : Env) (r : Request) :
    (handler e r).Once (I := Effects) Query.relays := by
  by_cases route : r.route = .sendMail
  · unfold handler
    rw [route]
    show (sendMail e r).Once _
    unfold sendMail
    split
    · trivial
    · refine Once.bind_right ((checkMail_looksUp _ _).mono fun _ => not_relays) fun res => ?_
      split
      · trivial
      · exact storeMail_once _ _ _ _ _
  · exact Once.of_asks (handler_asks route)

/-- An id has been drawn before a mail is relayed. -/
def Drawn (l : Log) (q : Query) : Prop :=
  q.relays → ∃ indexes, (⟨.random, indexes⟩ : Lib.Event Effects) ∈ l

theorem storeMail_drawn {l : Log} (rawBody : Bytes) (isReply : Bool) (sender recipient : Bytes)
    (ts : Nat) : (storeMail e rawBody isReply sender recipient ts).Meets (I := Effects) Drawn
      (fun _ _ => True) l := by
  unfold storeMail
  refine (meets_ask_bind _ _).mpr ⟨False.elim, fun blocked => ?_⟩
  split
  · trivial
  · trivial
  refine (meets_ask_bind _ _).mpr ⟨False.elim, fun indexes => Meets.always fun l' q pre _ => ?_⟩
  exact ⟨indexes, pre.subset (List.mem_append_right _ List.mem_cons_self)⟩

theorem handler_drawn (e : Env) (r : Request) :
    (handler e r).Meets (I := Effects) Drawn (fun _ _ => True) [] := by
  by_cases route : r.route = .sendMail
  · unfold handler
    rw [route]
    show (sendMail e r).Meets _ _ _
    unfold sendMail
    split
    · trivial
    · rename_i m isReply parsed
      have looksUp : (checkMail e r.body m).Meets (I := Effects) Drawn (fun _ _ => True) [] :=
        (checkMail_looksUp r.body m).meets fun l q looks yes => absurd yes (not_relays looks)
      refine looksUp.bind fun l' res _ _ => ?_
      split
      · trivial
      · exact storeMail_drawn _ _ _ _ _
  · exact (handler_asks route).meets fun l q no yes => absurd yes no

end

end Shyake.Worker

namespace Shyake.Net

open Lib.Prog

namespace Instance

/-- Before the question is asked for a relayed submission: if it is the last one before another
relay, the recipient is the instance's own, or the token is in its spent set. -/
def Ends : (x : Instance) → x.service.State → x.service.Req → x.service.I.Query → Prop
  | go s, (w : Go.World), r, (.spentAdd k now : Go.Query) => ∀ b : Go.Submission s r,
      b.recipient.isLocal = true ∨
        k ∈ (w.spent.rotate now).cur ∨ k ∈ (w.spent.rotate now).prev
  | go _, _, _, _ => True
  | worker e, _, r, (.random : Worker.Query) => ∀ m recipient,
      e.mail (show Worker.Request from r).body = some m → m.recipient = .text recipient →
      Worker.addressDomain e.lowering recipient e.instanceDomain =
        e.lowering.toLowerCase e.instanceDomain
  | worker _, _, _, _ => True

/-- What such a question has been answered. -/
def Ended : (x : Instance) → x.service.Req → Lib.Event x.service.I → Prop
  | go s, r, ⟨(.spentAdd _ _ : Go.Query), new⟩ => ∀ b : Go.Submission s r,
      b.recipient.isLocal = true ∨ new = false
  | go _, _, _ => True
  | worker e, r, ⟨(.random : Worker.Query), _⟩ => ∀ m recipient,
      e.mail (show Worker.Request from r).body = some m → m.recipient = .text recipient →
      Worker.addressDomain e.lowering recipient e.instanceDomain =
        e.lowering.toLowerCase e.instanceDomain
  | worker _, _, _ => True

theorem ended_of_ends (x : Instance) {w w' : x.service.State} {r : x.service.Req}
    {q : x.service.I.Query} {o : x.service.Oracle} {a : x.service.I.Answer q} (ends : x.Ends w r q)
    (served : x.service.serve w q o = some (a, w')) : x.Ended r ⟨q, a⟩ := by
  cases x with
  | go s =>
    cases q with
    | spentAdd k now =>
      intro b
      refine (ends b).imp_right fun known => ?_
      have served : Go.Served w (.spentAdd k now) a w' := Go.served_of_serve served
      cases served
      unfold Go.TtlSet.add
      dsimp only
      split_ifs with inCur inPrev
      · rfl
      · rfl
      · exact absurd known (not_or.mpr ⟨inCur, inPrev⟩)
    | _ => trivial
  | worker e =>
    cases q with
    | random => exact ends
    | _ => trivial

/-- **An instance that ends it** sends nothing on. -/
theorem silent (x : Instance) {t : Lib.Thread x.service}
    (resumes : (x.service.handler t.req).Resumes t.log t.rest)
    (ended : ∀ e ∈ t.log, x.Ended t.req e) : ∀ q ∈ t.asked, x.posts q = none := by
  intro q mem
  cases x with
  | go s =>
    obtain ⟨l, pre, guard⟩ := t.asked_guarded (Go.handler_guarded s t.req) resumes q mem
    cases q with
    | post url body =>
      obtain ⟨⟨token, user, now, own, new⟩, route, b, remote, -⟩ := guard
      rcases ended _ (pre.subset new) b with here | old
      · rw [remote] at here
        cases here
      · cases old
    | _ => rfl
  | worker e =>
    obtain ⟨l, pre, guard⟩ := t.asked_guarded (Worker.handler_guarded e t.req) resumes q mem
    obtain ⟨l', pre', drawn⟩ := t.asked_guarded (Worker.handler_drawn e t.req) resumes q mem
    cases q with
    | post url body =>
      obtain ⟨sender, recipient, checked, remote, -⟩ := guard
      obtain ⟨m, decoded, -, text⟩ := checked.decoded
      obtain ⟨indexes, drew⟩ := drawn trivial
      exact absurd (ended _ (pre'.subset drew) m recipient decoded text) remote
    | _ => rfl

theorem once (x : Instance) (r : x.service.Req) :
    (x.service.handler r).Once fun q => (x.posts q).isSome = true := by
  cases x with
  | go s =>
    refine (Go.handler_once s r).congr fun q => ?_
    cases q with
    | post url body => exact iff_of_true trivial rfl
    | _ => exact iff_of_false id Bool.false_ne_true
  | worker e =>
    refine (Worker.handler_once e r).congr fun q => ?_
    cases q with
    | post url body => exact iff_of_true trivial rfl
    | _ => exact iff_of_false id Bool.false_ne_true

end Instance

/-- An instance that has got a submission from another one does not relay it again: when it comes to
the last question before that, the recipient is its own, or its spent set has the token. -/
def Ends (xs : Instances) (c : Lib.Network.Config xs.network) : Lib.Network.Label xs.network → Prop
  | .act n (.act i _) => c.cause (n, i) ≠ none → ∀ t q k, (c.nodes n).threads[i]? = some t →
      t.rest = .ask q k → (xs.instances n).Ends (c.nodes n).shared t.req q
  | _ => True

/-- **Relaying takes one hop**, as long as no instance relays again what has been relayed to it:
all the requests that one request brings about send one submission on. -/
theorem one_hop (xs : Instances) (worlds : (n : xs.Name) → (xs.instances n).service.State)
    (c : Lib.Network.Config xs.network)
    (run : Lib.Network.Run (Ends xs) (Lib.Network.Config.start worlds) c)
    (root p p' : xs.network.Place) (i i' : Nat) (caused : c.Caused root p)
    (caused' : c.Caused root p') (sends : c.SendsAt p i) (sends' : c.SendsAt p' i') :
    (p, i) = (p', i') := by
  have logged := run.caused_logged (P := fun n => (xs.instances n).Ended)
    fun c n i o t q k a s ends acts caused =>
      (xs.instances n).ended_of_ends (ends caused t q k acts.thread acts.rest) acts.served
  refine run.one_send (fun n r => (xs.instances n).once r) (fun n j t thread here => ?_) caused
    caused' sends sends'
  have resumes := (run.node n).resumes t (List.mem_of_getElem? thread)
  exact (xs.instances n).silent resumes (logged n j t thread here)

namespace Sample

open Worker (service handler mailURL)
open Worker.Sample (env mail submit db lowering keysText keysOf alice parseMail_submit deliverable)

/-- alice of `c.com` writes to bobby of `x.com`. -/
def mailToAlias : Go.MailBody :=
  mail (utf8 "alice@c.com") (utf8 "bobby@x.com") (utf8 "1:20:250610:alice@c.com::one:22afb9")

/-- Instance `c.com`, which `x.com` leads to as well. -/
def aliased (m : Go.MailBody) : Instances where
  Name := Unit
  named := inferInstance
  instances _ := .worker (env m)
  leads url _ := url == mailURL (utf8 "x.com")

/-- The time and the tables of these runs. -/
def world : Worker.World := ⟨1749513600000, db⟩

/-- A mail to a user of `x.com` that passes the checks comes to its relay. -/
theorem relays_of {m : Go.MailBody} {m' : Worker.MailBody} {sender recipient : Bytes}
    {ls lr : Worker.Log} (parsed : Worker.parseMail (env m) (submit m).body = .ok (m', false))
    (ok : Worker.Deliverable (env m) (submit m).body m' sender recipient 1749513600000 ls lr)
    (domain : Worker.addressDomain lowering recipient (utf8 "c.com") = utf8 "x.com")
    (served : Lib.Serves (S := service (env m)) (fun _ => True) world ls world)
    (served' : Lib.Serves (S := service (env m)) (fun _ => True) world lr world) :
    ∃ (l : Worker.Log) (k : Option (Nat × Bytes) → Worker.Handler Worker.Reply),
      Lib.Serves (S := service (env m)) (fun _ => True) world l world ∧
      (handler (env m) (submit m)).Resumes (I := Worker.Effects) l
        (.ask (.post (mailURL (utf8 "x.com")) (submit m).body) k) := by
  have remote : Worker.addressDomain (env m).lowering recipient (env m).instanceDomain ≠
      (env m).lowering.toLowerCase (env m).instanceDomain := by
    show Worker.addressDomain lowering recipient (utf8 "c.com") ≠
      lowering.toLowerCase (utf8 "c.com")
    rw [domain]
    decide
  obtain ⟨k, resumes⟩ := Worker.handler_relays (r := submit m) rfl parsed ok remote
    (List.replicate 10 0)
  have to_ : Worker.addressDomain (env m).lowering recipient (env m).instanceDomain =
      utf8 "x.com" := domain
  rw [to_] at resumes
  have now := Worker.serves_now (e := env m) (P := fun _ => True) (w := world) trivial
  have checked : Lib.Serves (S := service (env m)) (fun _ => True) world
      (Worker.checkLog 1749513600000 ls lr) world :=
    (now.trans now).trans (served.trans served')
  have stored := Worker.serves_store (e := env m) (P := fun _ => True) (w := world) trivial rfl
    sender recipient (List.replicate 10 0) ⟨rfl, by decide⟩
  exact ⟨_, k, checked.trans stored, resumes⟩

/-- The handler of that mail comes to its relay. -/
theorem relays : ∃ (l : Worker.Log) (k : Option (Nat × Bytes) → Worker.Handler Worker.Reply),
    Lib.Serves (S := service (env mailToAlias)) (fun _ => True) world l world ∧
    (handler (env mailToAlias) (submit mailToAlias)).Resumes (I := Worker.Effects) l
      (.ask (.post (mailURL (utf8 "x.com")) (submit mailToAlias).body) k) := by
  have ne : utf8 "alice@c.com" ≠ [] ∧ utf8 "bobby@x.com" ≠ [] ∧
      utf8 "1:20:250610:alice@c.com::one:22afb9" ≠ [] := ⟨by decide, by decide, by decide⟩
  have alice_ : Worker.keyOwner (env mailToAlias) (utf8 "alice@c.com") =
      (utf8 "alice", utf8 "c.com") := by decide +kernel
  have bobby_ : Worker.keyOwner (env mailToAlias) (utf8 "bobby@x.com") =
      (utf8 "bobby", utf8 "x.com") := by decide +kernel
  have decoded : (env mailToAlias).keys (keysText Go.Sample.bobby) =
      some (keysOf Go.Sample.bobby) := by
    have other : (keysText Go.Sample.alice == keysText Go.Sample.bobby) = false := by decide +kernel
    show ([Go.Sample.alice, Go.Sample.bobby].find? _).map keysOf = _
    rw [List.find?_cons_of_neg (by rw [other]; exact Bool.false_ne_true),
      List.find?_cons_of_pos (by exact beq_self_eq_true _)]
    rfl
  have from_ := Worker.lookup_here (e := env mailToAlias) (utf8 "alice@c.com")
    (by rw [alice_]; rfl) ⟨Go.Sample.kemPubkey_ne_nil 65, Go.Sample.sigPubkey_ne_nil 65⟩
  have to_ := Worker.lookup_there (e := env mailToAlias) (utf8 "bobby@x.com")
    (by rw [bobby_]; exact show utf8 "x.com" ≠ utf8 "c.com" by decide) rfl decoded
  have key : (Worker.getPubkeyForUser (env mailToAlias) (utf8 "alice@c.com")).Resumes
      [⟨.db (.keys (utf8 "alice")), some (some (alice.kemPubkey, alice.sigPubkey))⟩]
      (.ret (some (some (keysOf Go.Sample.alice)))) := by
    rwa [alice_] at from_
  have found : (db.users.find? fun u => u.username == utf8 "alice") = some alice := by
    have first : (alice.username == utf8 "alice") = true := by decide
    simp only [db, List.find?_cons, first]
  exact relays_of (parseMail_submit ne) (deliverable ne (by decide +kernel) key to_) (by decide)
    (Worker.serves_here trivial found) (Worker.serves_get trivial _ _)

def start (m : Go.MailBody) : Lib.Network.Config (aliased m).network :=
  Lib.Network.Config.start fun _ => world

section

variable {m : Go.MailBody} {l : Worker.Log} {k : Option (Nat × Bytes) → Worker.Handler Worker.Reply}
  {ok : Lib.Network.Config (aliased m).network → Lib.Network.Label (aliased m).network → Prop}

/-- The mail is at its relay. -/
def relaying (m : Go.MailBody) (l : Worker.Log)
    (k : Option (Nat × Bytes) → Worker.Handler Worker.Reply) :
    Lib.Thread (service (env m)) :=
  ⟨submit m, l, .ask (.post (mailURL (utf8 "x.com")) (submit m).body) k⟩

variable (ok) in
/-- The relayed mail arrives at the instance that has sent it. -/
theorem delivered (served : Lib.Serves (S := service (env m)) (fun _ => True) world l world)
    (resumes : (handler (env m) (submit m)).Resumes (I := Worker.Effects) l (relaying m l k).rest)
    (free : ∀ c l, (∀ p, c.cause p = none) → ok c l) : ∃ c, Lib.Network.Run ok (start m) c ∧
      c.nodes () = (⟨world, [relaying m l k, Lib.Thread.start (submit m)]⟩ :
        Lib.Config (service (env m))) ∧ c.cause ((), 1) = some ((), 0) := by
  obtain ⟨c₁, run₁, here, -, cause⟩ := (Lib.Network.Run.start : Lib.Network.Run ok (start m) (start m)).acts ()
    (Worker.run_first served resumes) fun c' l same _ => free _ _ fun p => by rw [same]; rfl
  have there : (aliased m).leads (mailURL (utf8 "x.com")) () = true :=
    beq_self_eq_true (mailURL (utf8 "x.com"))
  have received : (aliased m).network.receives (mailURL (utf8 "x.com"), (submit m).body) () =
      some (submit m) := by
    show (if (aliased m).leads (mailURL (utf8 "x.com")) () = true then some (submit m) else none) = _
    rw [if_pos there]
  have thread : (c₁.nodes ()).threads[0]? = some (relaying m l k) := by
    rw [here]
    rfl
  obtain ⟨c₂, run₂, arrived, -, from_⟩ := run₁.delivers (p := ((), 0)) (n := ())
    (free _ _ fun p => by rw [cause]; rfl) thread (q := (.post _ _ : Worker.Query)) rfl rfl received
  rw [here] at arrived from_
  exact ⟨c₂, run₂, arrived, from_⟩

/-- It comes to its relay once more. -/
theorem again (served : Lib.Serves (S := service (env m)) (fun _ => True) world l world)
    (resumes : (handler (env m) (submit m)).Resumes (I := Worker.Effects) l (relaying m l k).rest) :
    ∃ c, Lib.Network.Run (fun _ _ => True) (start m) c ∧
      c.nodes () = (⟨world, [relaying m l k, relaying m l k]⟩ : Lib.Config (service (env m))) ∧
      c.cause ((), 1) = some ((), 0) := by
  obtain ⟨c, run, here, cause⟩ := delivered _ served resumes fun _ _ _ => trivial
  have moves := Worker.run_second (relaying m l k) served resumes
  rw [← here] at moves
  obtain ⟨c', run', there, -, same⟩ := run.acts () moves fun _ _ _ _ => trivial
  exact ⟨c', run', there, by rw [same, cause]⟩

/-- The mail waits for an answer to its relay. -/
theorem sendsAt {c : Lib.Network.Config (aliased m).network}
    {threads : List (Lib.Thread (service (env m)))} {j : Nat}
    (here : c.nodes () = (⟨world, threads⟩ : Lib.Config (service (env m))))
    (thread : threads[j]? = some (relaying m l k)) : c.SendsAt ((), j) l.length := by
  have asked : (relaying m l k).asked[l.length]? = _ := (relaying m l k).asked_last rfl
  refine ⟨relaying m l k, (.post (mailURL (utf8 "x.com")) (submit m).body : Worker.Query), ?_,
    asked, rfl⟩
  show (c.nodes ()).threads[j]? = _
  rw [here]
  exact thread

end

/-- **A Worker that a second domain leads to** relays a mail to itself, and then again: one
submission, two relays. -/
theorem relayed_twice : ∃ (c : Lib.Network.Config (aliased mailToAlias).network)
    (p : (aliased mailToAlias).network.Place) (i i' : Nat),
    Lib.Network.Run (fun _ _ => True) (start mailToAlias) c ∧ c.cause p = some ((), 0) ∧
    c.Caused ((), 0) p ∧ c.SendsAt ((), 0) i ∧ c.SendsAt p i' ∧ ((), 0) ≠ p := by
  obtain ⟨l, k, served, resumes⟩ := relays
  obtain ⟨c, run, here, cause⟩ := again served resumes
  exact ⟨c, ((), 1), l.length, l.length, run, cause, .single cause, sendsAt here rfl,
    sendsAt here rfl, fun e => Nat.zero_ne_one (congrArg Prod.snd e)⟩

/-- While the relayed mail has only arrived, there is one relay. -/
theorem one_hop_delivered : ∃ (c : Lib.Network.Config (aliased mailToAlias).network) (i : Nat),
    c.cause ((), 1) = some ((), 0) ∧ c.SendsAt ((), 0) i ∧
    ∀ p i', c.Caused ((), 0) p → c.SendsAt p i' → (((), 0), i) = (p, i') := by
  obtain ⟨l, k, served, resumes⟩ := relays
  obtain ⟨c, run, here, cause⟩ := delivered (Ends (aliased mailToAlias)) served resumes
    (by
      intro c label none_
      unfold Ends
      split
      · exact fun caused => absurd (none_ _) caused
      · trivial)
  have sends : c.SendsAt ((), 0) l.length := sendsAt here rfl
  exact ⟨c, l.length, cause, sends, fun p i' caused sends' =>
    one_hop (aliased mailToAlias) (fun _ => world) c run ((), 0) _ p _ i' .refl caused sends sends'⟩

end Sample

end Shyake.Net
