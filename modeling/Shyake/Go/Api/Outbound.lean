import Shyake.Go.Api.Origin
import Shyake.Lib.Uri

/-!
# Where requests to other instances go

`ValidDomain` guards the URLs that are put together from an address: what it lets pass is a
host with an optional port, which is the whole authority of the URL.
-/

namespace Shyake.Go

open Lib (Uri)
open Lib.Prog
open Protocol (Address parseAddress parseBlockTarget validDomain validLabel validUsername)

/-! ## Domains -/

/-- A label of a host name. -/
structure IsLabel (label : Bytes) : Prop where
  nonempty : 1 ≤ label.length
  short : label.length ≤ 63
  chars : ∀ c ∈ label, isLower c = true ∨ isDigit c = true ∨ c = 45
  starts : label.head? ≠ some 45
  ends : label.getLast? ≠ some 45

/-- Labels with dots between them. -/
def IsHost (host : Bytes) : Prop :=
  host.length ≤ 253 ∧ ∃ labels : List Bytes, labels ≠ [] ∧ (∀ l ∈ labels, IsLabel l) ∧
    host = Bytes.join 46 labels

def IsPort (port : Bytes) : Prop :=
  1 ≤ port.length ∧ port.length ≤ 5 ∧ ∀ c ∈ port, isDigit c = true

/-- `host[:port]`. -/
def IsDomain (d : Bytes) : Prop :=
  ∃ host, IsHost host ∧ (d = host ∨ ∃ port, IsPort port ∧ d = host ++ 58 :: port)

theorem validLabel_iff {label : Bytes} : validLabel label = true ↔ IsLabel label := by
  unfold validLabel
  constructor
  · intro h
    split at h
    · cases h
    · rename_i fine
      simp only [Bool.or_eq_true, beq_iff_eq, decide_eq_true_eq, not_or] at fine
      obtain ⟨⟨⟨nonempty, short⟩, starts⟩, ends⟩ := fine
      refine ⟨by omega, by omega, fun c mem => ?_, starts, ends⟩
      simpa [or_assoc] using List.all_eq_true.mp h c mem
  · intro h
    have nonempty := h.nonempty
    have short := h.short
    rw [if_neg]
    · refine List.all_eq_true.mpr fun c mem => ?_
      simpa [or_assoc] using h.chars c mem
    · simp only [Bool.or_eq_true, beq_iff_eq, decide_eq_true_eq, not_or]
      exact ⟨⟨⟨by omega, by omega⟩, h.starts⟩, h.ends⟩

theorem dot_notMem {label : Bytes} (h : IsLabel label) : (46 : UInt8) ∉ label := by
  intro mem
  rcases h.chars 46 mem with no | no | no
  all_goals exact absurd no (by decide)

theorem split_join {labels : List Bytes} (some_ : labels ≠ []) (fine : ∀ l ∈ labels, IsLabel l) :
    Bytes.split 46 (Bytes.join 46 labels) = labels :=
  List.splitOn_intercalate 46 (fun l mem => dot_notMem (fine l mem)) some_

theorem colon_notMem {host : Bytes} (h : IsHost host) : (58 : UInt8) ∉ host := by
  obtain ⟨-, labels, some_, fine, rfl⟩ := h
  intro mem
  rcases Protocol.mem_split 46 mem with no | ⟨label, part, here⟩
  · cases no
  · rw [split_join some_ fine] at part
    rcases (fine label part).chars 58 here with no | no | no
    all_goals exact absurd no (by decide)

theorem isHost_iff {host : Bytes} :
    (¬ (host.length = 0 ∨ 253 < host.length) ∧ (Bytes.split 46 host).all validLabel = true) ↔
      IsHost host := by
  constructor
  · rintro ⟨bounds, labels⟩
    refine ⟨by omega, Bytes.split 46 host, List.splitOn_ne_nil 46 host, fun l mem => ?_,
      (List.intercalate_splitOn 46).symm⟩
    exact validLabel_iff.mp (List.all_eq_true.mp labels l mem)
  · intro h
    have short := h.1
    obtain ⟨-, labels, some_, fine, rfl⟩ := h
    refine ⟨?_, ?_⟩
    · rintro (empty | long)
      · -- the first label is not empty
        obtain ⟨first, others, rfl⟩ := List.exists_cons_of_ne_nil some_
        have same := split_join some_ fine
        rw [List.length_eq_zero_iff.mp empty] at same
        obtain ⟨rfl, -⟩ := List.cons.inj same
        exact absurd (fine [] List.mem_cons_self).nonempty (by decide)
      · omega
    · rw [split_join some_ fine]
      exact List.all_eq_true.mpr fun l mem => validLabel_iff.mpr (fine l mem)

/-- What `ValidDomain` asks of the two sides of the first colon. -/
theorem validDomain_cut {d : Bytes} : validDomain d = true ↔
    (∀ port ∈ (Bytes.cut 58 d).2, IsPort port) ∧ IsHost (Bytes.cut 58 d).1 := by
  unfold validDomain
  obtain ⟨host, port⟩ := Bytes.cut 58 d
  dsimp only
  rw [← isHost_iff]
  cases port with
  | none => simp
  | some port =>
    have port_iff : (!(port.length == 0 || port.length > 5) && port.all isDigit) = true ↔
        IsPort port := by
      unfold IsPort
      simp only [Bool.and_eq_true, Bool.not_eq_true', Bool.or_eq_false_iff, beq_eq_false_iff_ne,
        decide_eq_false_iff_not, List.all_eq_true]
      constructor
      · rintro ⟨⟨nonempty, short⟩, digits⟩
        exact ⟨by omega, by omega, digits⟩
      · rintro ⟨nonempty, short, digits⟩
        exact ⟨⟨by omega, by omega⟩, digits⟩
    simp only [Option.mem_def, Option.some.injEq, forall_eq', ← port_iff]
    simp

/-- What `ValidDomain` accepts. -/
theorem validDomain_iff {d : Bytes} : validDomain d = true ↔ IsDomain d := by
  rw [validDomain_cut]
  constructor
  · rintro ⟨port, host⟩
    refine ⟨_, host, ?_⟩
    rcases (Bytes.cut_spec 58 d).2 with ⟨-, made⟩ | ⟨p, here, made⟩
    · exact .inl made
    · exact .inr ⟨p, port p here, made⟩
  · rintro ⟨host, fine, rfl | ⟨port, digits, rfl⟩⟩
    · rw [Bytes.cut_eq_none (colon_notMem fine)]
      exact ⟨nofun, fine⟩
    · rw [Bytes.cut_append (colon_notMem fine)]
      refine ⟨?_, fine⟩
      rintro p ⟨⟩
      exact digits

/-! ## URLs -/

/-- The text is a URI of just these parts: a domain as its whole authority, without user
information, and a path. -/
def GoesTo (url domain path : Bytes) : Prop :=
  ∃ u a, Uri.parse url = some u ∧ u.authority = some a ∧ a.text = domain ∧ a.userinfo = none ∧
    u.path = path ∧ u.query = none ∧ u.fragment = none

theorem unreserved_of_domainByte {c : UInt8} (h : Protocol.domainByte c = true) (noColon : c ≠ 58) :
    c ≠ 37 ∧ (Uri.unreserved c || Uri.subDelim c || [].contains c) = true := by
  simp only [Protocol.domainByte, Bool.or_eq_true, beq_iff_eq] at h
  have class_ : Uri.unreserved c = true := by
    unfold Uri.unreserved
    rcases h with (((lower | digit) | rfl) | rfl) | colon
    · simp [lower]
    · simp [digit]
    · decide
    · decide
    · exact absurd colon noColon
  refine ⟨?_, by simp [class_]⟩
  rintro rfl
  exact absurd class_ (by decide)

theorem authority_of_validDomain {d : Bytes} (h : validDomain d = true) :
    ∃ a, Uri.Authority.parse d = some a ∧ a.userinfo = none := by
  obtain ⟨port, host⟩ := validDomain_cut.mp h
  have inHost : Uri.encoded [] (Bytes.cut 58 d).1 = true := by
    refine Uri.encoded_of_chars fun c mem => ?_
    have inDomain : c ∈ d := by
      rcases (Bytes.cut_spec 58 d).2 with ⟨-, made⟩ | ⟨p, -, made⟩
      · rwa [made]
      · rw [made]
        exact List.mem_append_left _ mem
    have noColon : c ≠ 58 := fun e => colon_notMem host (e ▸ mem)
    exact unreserved_of_domainByte (Protocol.chars_of_validDomain h c inDomain) noColon
  have digits : (Bytes.cut 58 d).2.all (·.all isDigit) = true := by
    cases here : (Bytes.cut 58 d).2 with
    | none => rfl
    | some p => exact List.all_eq_true.mpr (port p here).2.2
  refine ⟨⟨none, (Bytes.cut 58 d).1, (Bytes.cut 58 d).2⟩, ?_, rfl⟩
  unfold Uri.Authority.parse Uri.Authority.parseHost
  rw [Bytes.cut_eq_none (Protocol.at_notMem_of_validDomain h)]
  dsimp only
  rw [inHost, digits]
  rfl

section

variable {s : Server}

/-- The scheme that `federation.NewClient` sets. -/
def Server.Federates (s : Server) : Prop := s.scheme = utf8 "https" ∨ s.scheme = utf8 "http"

theorem goesTo_url (scheme : s.Federates) {domain path : Bytes}
    (host : validDomain domain = true) (chars : Uri.encoded (utf8 ":@/") (47 :: path) = true) :
    GoesTo (s.url domain (47 :: path)) domain (47 :: path) := by
  obtain ⟨a, parsed, user⟩ := authority_of_validDomain host
  have named : Uri.isScheme s.scheme = true := by
    rcases scheme with e | e <;> rw [e] <;> decide
  exact ⟨_, a, Uri.parse_absolute named parsed chars, rfl, (Uri.Authority.parse_spec parsed).1, user,
    rfl, rfl, rfl⟩

/-- The three requests that are made of an address. -/
structure UrlsGoTo (s : Server) (a : Address) : Prop where
  pubkey : GoesTo (s.pubkeyURL a) a.domain (utf8 "/api/pubkey/" ++ a.localName)
  mail : GoesTo (s.url a.domain (utf8 "/api/mail")) a.domain (utf8 "/api/mail")
  version : GoesTo (s.url a.domain (utf8 "/api/version")) a.domain (utf8 "/api/version")

theorem pathEscape_localName (a : Address) : Server.pathEscape a.localName = a.localName := by
  rcases a.named with empty | user
  · rw [empty]
    rfl
  · exact pathEscape_username user

theorem unreserved_of_localName (a : Address) : ∀ c ∈ a.localName,
    c ≠ 37 ∧ (Uri.unreserved c || Uri.subDelim c || (utf8 ":@/").contains c) = true := by
  intro c mem
  have class_ : Uri.unreserved c = true := by
    unfold Uri.unreserved
    rcases a.named with empty | user
    · rw [empty] at mem
      cases mem
    · rcases Protocol.chars_of_validUsername user c mem with lower | upper | digit | rfl
      · simp [lower]
      · simp [upper]
      · simp [digit]
      · decide
  refine ⟨?_, by simp [class_]⟩
  rintro rfl
  exact absurd class_ (by decide)

theorem urlsGoTo (scheme : s.Federates) {a : Address} (host : validDomain a.domain = true) :
    UrlsGoTo s a where
  pubkey := by
    unfold Server.pubkeyURL
    rw [pathEscape_localName]
    have literal : ∀ c ∈ utf8 "/api/pubkey/",
        c ≠ 37 ∧ (Uri.unreserved c || Uri.subDelim c || (utf8 ":@/").contains c) = true :=
      Uri.forall_of_all (by decide)
    refine goesTo_url scheme host (Uri.encoded_of_chars fun c mem => ?_)
    rcases List.mem_append.mp (show c ∈ utf8 "/api/pubkey/" ++ a.localName from mem) with fixed | name
    · exact literal c fixed
    · exact unreserved_of_localName a c name
  mail := goesTo_url scheme host (by decide)
  version := goesTo_url scheme host (by decide)

/-- One of the two parse functions accepts the text, as this address. -/
def AcceptedAs (s : Server) (text : Bytes) (a : Address) : Prop :=
  parseAddress text s.cfg.instanceDomain = .ok a ∨ parseBlockTarget text s.cfg.instanceDomain = .ok a

/-- Only a bare username has a domain that is not checked: the one of the configuration. -/
theorem validDomain_of_accepted {text : Bytes} {a : Address} (accepted : AcceptedAs s text a) :
    validDomain a.domain = true ∨
      (a.isLocal = true ∧ a.localName = text ∧ a.domain = Go.toLower s.cfg.instanceDomain) := by
  have address (parsed : parseAddress text s.cfg.instanceDomain = .ok a) :
      validDomain a.domain = true ∨
        (a.isLocal = true ∧ a.localName = text ∧ a.domain = Go.toLower s.cfg.instanceDomain) := by
    unfold parseAddress at parsed
    split at parsed
    · split at parsed
      · rename_i bare
        cases parsed
        refine .inr ⟨rfl, ?_, rfl⟩
        rcases (Bytes.cut_spec 64 text).2 with ⟨-, whole⟩ | ⟨q, some, -⟩
        · exact whole.symm
        · rw [bare] at some
          cases some
      · split at parsed
        · rename_i host
          cases parsed
          exact .inl host
        · cases parsed
    · cases parsed
  rcases accepted with parsed | parsed
  · exact address parsed
  · rcases Protocol.parseBlockTarget_ok parsed with ⟨-, -, -, domain, valid, -⟩ | parsed
    · rw [← domain] at valid
      exact .inl valid
    · exact address parsed

/-! ## Requests -/

/-- A request to another instance goes to the domain of a remote address that was accepted. -/
def Outbound (s : Server) : Query → Prop
  | .get url => ∃ text a, AcceptedAs s text a ∧ a.isLocal = false ∧
      (GoesTo url a.domain (utf8 "/api/pubkey/" ++ a.localName) ∨
        GoesTo url a.domain (utf8 "/api/version"))
  | .post url _ => ∃ text a, AcceptedAs s text a ∧ a.isLocal = false ∧
      GoesTo url a.domain (utf8 "/api/mail")
  | _ => True

variable {r : Request}

theorem allowsAuth_outbound : AllowsAuth (Outbound s) where
  now := trivial
  user _ := trivial
  seen _ _ := trivial
  spent _ _ := trivial

theorem register_outbound : (s.register r).Asks (I := Effects) (Outbound s) := by
  unfold Server.register
  split
  · trivial
  split
  · trivial
  split
  · trivial
  split
  · trivial
  split
  · trivial
  split
  · trivial
  refine (asks_ask _ _).mpr ⟨trivial, fun now => ?_⟩
  split
  · trivial
  refine (inWindow_asks allowsAuth_outbound.now _).bind fun ok => ?_
  split
  · trivial
  split
  · trivial
  split
  · trivial
  dsimp only
  split
  · trivial
  refine (fresh_asks allowsAuth_outbound _ _).bind fun ok => ?_
  split
  · trivial
  refine (asks_ask _ _).mpr ⟨trivial, fun now => (asks_ask _ _).mpr ⟨trivial, fun res => ?_⟩⟩
  split <;> trivial

/-- What follows the authentication of a request without a body. -/
theorem headerAuth_outbound {path : Bytes} {next : User → Handler Reply}
    (rest : ∀ user, (next user).Asks (I := Effects) (Outbound s)) :
    (s.headerAuth r path >>= fun res =>
      match res with
      | .error reply => return reply
      | .ok user => next user).Asks (I := Effects) (Outbound s) := by
  refine (auth_asks allowsAuth_outbound _ _ _).bind fun res => ?_
  split
  · trivial
  · exact rest _

theorem listMail_outbound (typ : Bytes) :
    (s.listMail r typ).Asks (I := Effects) (Outbound s) := by
  unfold Server.listMail
  refine headerAuth_outbound fun user => (asks_ask _ _).mpr ⟨trivial, fun list => ?_⟩
  split <;> trivial

theorem getMail_outbound (id : Bytes) : (s.getMail r id).Asks (I := Effects) (Outbound s) := by
  unfold Server.getMail
  refine headerAuth_outbound fun user => (asks_ask _ _).mpr ⟨trivial, fun list => ?_⟩
  split <;> trivial

theorem burnMail_outbound (id : Bytes) : (s.burnMail r id).Asks (I := Effects) (Outbound s) := by
  unfold Server.burnMail
  refine headerAuth_outbound fun user => (asks_ask _ _).mpr ⟨trivial, fun list => ?_⟩
  split <;> trivial

theorem listBlocks_outbound : (s.listBlocks r).Asks (I := Effects) (Outbound s) := by
  unfold Server.listBlocks
  refine headerAuth_outbound fun user => (asks_ask _ _).mpr ⟨trivial, fun list => ?_⟩
  split <;> trivial

theorem destroy_outbound : (s.destroy r).Asks (I := Effects) (Outbound s) := by
  unfold Server.destroy
  refine headerAuth_outbound fun user => (asks_ask _ _).mpr ⟨trivial, fun list => ?_⟩
  split <;> trivial

theorem block_outbound : (s.block r).Asks (I := Effects) (Outbound s) := by
  unfold Server.block
  refine (blockTarget_asks allowsAuth_outbound).bind fun res => ?_
  split
  · trivial
  refine (asks_ask _ _).mpr ⟨trivial, fun now => (asks_ask _ _).mpr ⟨trivial, fun res => ?_⟩⟩
  split <;> trivial

theorem removeBlock_outbound (blocker : Bytes) (texts : List Bytes) :
    (Server.removeBlock blocker texts).Asks (I := Effects) (Outbound s) := by
  induction texts with
  | nil => trivial
  | cons text texts ih =>
    unfold Server.removeBlock
    refine (asks_ask _ _).mpr ⟨trivial, fun res => ?_⟩
    split
    · trivial
    · exact ih

theorem unblock_outbound : (s.unblock r).Asks (I := Effects) (Outbound s) := by
  unfold Server.unblock
  refine (blockTarget_asks allowsAuth_outbound).bind fun res => ?_
  split
  · trivial
  refine (removeBlock_outbound _ _).bind fun res => ?_
  split <;> trivial

theorem rotate_outbound : (s.rotate r).Asks (I := Effects) (Outbound s) := by
  unfold Server.rotate
  refine (bodyAuth_asks allowsAuth_outbound _).bind fun res => ?_
  split
  · trivial
  split
  · trivial
  split
  · trivial
  split
  · trivial
  refine (asks_ask _ _).mpr ⟨trivial, fun res => ?_⟩
  split <;> trivial

/-! ## Requests that ask other instances -/

/-- An address that requests are made of: it was accepted, and is not of this instance. -/
structure RemoteAddress (s : Server) (a : Address) : Prop where
  accepted : ∃ text, AcceptedAs s text a
  remote : a.isLocal = false

theorem get_outbound {url : Bytes} (goes : Outbound s (.get url)) :
    (Server.get url).Asks (I := Effects) (Outbound s) :=
  (asks_ask _ _).mpr ⟨goes, fun _ => trivial⟩

variable (scheme : s.Federates) {a : Address}
include scheme

theorem RemoteAddress.urls (h : RemoteAddress s a) : UrlsGoTo s a :=
  urlsGoTo scheme (a.hosted (.inl h.remote))

theorem fetch_outbound (h : RemoteAddress s a) : (s.fetch a).Asks (I := Effects) (Outbound s) := by
  obtain ⟨text, accepted⟩ := h.accepted
  unfold Server.fetch
  refine (get_outbound ⟨text, a, accepted, h.remote, .inl (h.urls scheme).pubkey⟩).bind fun res => ?_
  split
  · trivial
  split
  · trivial
  split <;> trivial

theorem flight_outbound (h : RemoteAddress s a) : (s.flight a).Asks (I := Effects) (Outbound s) := by
  unfold Server.flight
  refine (asks_ask _ _).mpr ⟨trivial, fun joined => ?_⟩
  obtain ⟨leads, n⟩ := joined
  cases leads with
  | false => exact (asks_only _).mpr trivial
  | true =>
    refine (fetch_outbound scheme h).bind fun res => ?_
    cases res with
    | ok keys => exact ⟨trivial, fun _ => ⟨trivial, fun _ => trivial⟩⟩
    | error e => exact ⟨trivial, fun _ => trivial⟩

theorem lookup_outbound (h : RemoteAddress s a) (fresh : Bool) :
    (s.lookup a fresh).Asks (I := Effects) (Outbound s) := by
  unfold Server.lookup
  split
  · exact flight_outbound scheme h
  refine (asks_ask _ _).mpr ⟨trivial, fun hit => ?_⟩
  split
  · exact flight_outbound scheme h
  refine (asks_ask _ _).mpr ⟨trivial, fun now => ?_⟩
  split
  · trivial
  · exact flight_outbound scheme h

/-- The keys of a local user are in the database. -/
theorem keysOf_outbound (accepted : ∃ text, AcceptedAs s text a) (fresh : Bool) :
    (s.keysOf a fresh).Asks (I := Effects) (Outbound s) := by
  unfold Server.keysOf
  split
  · refine (asks_ask _ _).mpr ⟨trivial, fun answer => ?_⟩
    split <;> trivial
  rename_i remote
  split
  · trivial
  refine (lookup_outbound scheme ⟨accepted, by simpa using remote⟩ fresh).bind fun res => ?_
  split <;> trivial

omit scheme in
theorem localPubkey_outbound (name : Bytes) :
    (Server.localPubkey name).Asks (I := Effects) (Outbound s) := by
  unfold Server.localPubkey
  refine (asks_ask _ _).mpr ⟨trivial, fun answer => ?_⟩
  split <;> trivial

theorem pubkey_outbound (name : Bytes) : (s.pubkey name).Asks (I := Effects) (Outbound s) := by
  unfold Server.pubkey
  split
  · exact localPubkey_outbound name
  split
  · trivial
  rename_i addr parsed
  split
  · exact localPubkey_outbound _
  rename_i remote
  split
  · trivial
  have remote : RemoteAddress s addr := ⟨⟨name, .inl parsed⟩, by simpa using remote⟩
  refine (lookup_outbound scheme remote false).bind fun res => ?_
  split <;> trivial

section

variable (b : Submission s r)

omit scheme in
theorem accepted_sender : ∃ text, AcceptedAs s text b.sender := ⟨_, .inl b.sender_parsed⟩

omit scheme in
theorem accepted_recipient : ∃ text, AcceptedAs s text b.recipient := ⟨_, .inl b.recipient_parsed⟩

theorem checkSubmission_outbound : (s.checkSubmission b).Asks (I := Effects) (Outbound s) := by
  have sender (fresh : Bool) := keysOf_outbound scheme (accepted_sender b) fresh
  have recipient (fresh : Bool) := keysOf_outbound scheme (accepted_recipient b) fresh
  have senderKey : (s.senderKey b).Asks (I := Effects) (Outbound s) := by
    unfold Server.senderKey
    refine (sender false).bind fun res => ?_
    split
    any_goals trivial
    split <;> trivial
  have recipientKey : (s.recipientKey b).Asks (I := Effects) (Outbound s) := by
    unfold Server.recipientKey
    refine (recipient false).bind fun res => ?_
    split
    any_goals trivial
    split
    · trivial
    split
    · trivial
    split
    · trivial
    refine (recipient true).bind fun res => ?_
    split
    all_goals
      dsimp only
      split <;> trivial
  have checkSignature (k : KeysAnswer) :
      (s.checkSignature b k).Asks (I := Effects) (Outbound s) := by
    unfold Server.checkSignature
    split
    · trivial
    split
    · trivial
    refine Asks.bind (Asks.bind (sender true) fun res => ?_) fun ok => ?_
    · split <;> trivial
    · split <;> trivial
  unfold Server.checkSubmission
  refine (asks_ask _ _).mpr ⟨trivial, fun now => ?_⟩
  split
  · trivial
  refine (inWindow_asks allowsAuth_outbound.now _).bind fun ok => ?_
  split
  · trivial
  refine senderKey.bind fun res => ?_
  split
  · trivial
  refine recipientKey.bind fun res => ?_
  split
  · trivial
  · exact checkSignature _

theorem remoteTakesReplies_outbound :
    (s.remoteTakesReplies b).Asks (I := Effects) (Outbound s) := by
  unfold Server.remoteTakesReplies
  split
  · trivial
  rename_i remote
  have remote : RemoteAddress s b.recipient := by
    rw [not_or] at remote
    exact ⟨accepted_recipient b, by simpa using remote.2⟩
  obtain ⟨text, accepted⟩ := remote.accepted
  refine Asks.bind ?_ fun level => ?_
  · unfold Server.levelOf
    refine (get_outbound ⟨text, _, accepted, remote.remote,
      .inr (remote.urls scheme).version⟩).bind fun answer => ?_
    split
    · trivial
    split
    · trivial
    split
    · trivial
    split <;> trivial
  · split
    · trivial
    split <;> trivial

theorem relay_outbound : (s.relay b).Asks (I := Effects) (Outbound s) := by
  unfold Server.relay
  split
  · trivial
  rename_i remote
  have remote : RemoteAddress s b.recipient := ⟨accepted_recipient b, by simpa using remote⟩
  obtain ⟨text, accepted⟩ := remote.accepted
  refine Asks.bind ?_ fun res => ?_
  · unfold Server.relayTo Server.postJSON
    refine (asks_ask _ _).mpr ⟨⟨text, _, accepted, remote.remote, (remote.urls scheme).mail⟩,
      fun answer => ?_⟩
    dsimp only
    split <;> trivial
  · split
    · trivial
    split
    · trivial
    split <;> trivial

omit scheme in
theorem insertAttempts_outbound (attempts : Nat) (m : Mail) :
    (insertAttempts attempts m).Asks (I := Effects) (Outbound s) := by
  induction attempts with
  | zero => trivial
  | succ attempts ih =>
    unfold insertAttempts newMailID
    refine (asks_ask _ _).mpr ⟨trivial, fun bytes => (asks_ask _ _).mpr ⟨trivial, fun res => ?_⟩⟩
    split
    · trivial
    · refine (asks_ask _ _).mpr ⟨trivial, fun id => ?_⟩
      split
      · trivial
      · exact ih
    · trivial

theorem storeSubmission_outbound : (s.storeSubmission b).Asks (I := Effects) (Outbound s) := by
  have checkBlocklist : (Server.checkBlocklist b).Asks (I := Effects) (Outbound s) := by
    unfold Server.checkBlocklist
    split
    · trivial
    refine (asks_ask _ _).mpr ⟨trivial, fun res => ?_⟩
    split <;> trivial
  unfold Server.storeSubmission
  refine checkBlocklist.bind fun res => ?_
  split
  · trivial
  refine (asks_ask _ _).mpr ⟨trivial, fun id => ?_⟩
  split
  · trivial
  refine (remoteTakesReplies_outbound scheme b).bind fun res => ?_
  split
  · trivial
  refine (asks_ask _ _).mpr ⟨trivial, fun now => (asks_ask _ _).mpr ⟨trivial, fun new => ?_⟩⟩
  split
  · trivial
  refine (relay_outbound scheme b).bind fun res => ?_
  split
  · trivial
  refine (asks_ask _ _).mpr ⟨trivial, fun now => ?_⟩
  refine (insertAttempts_outbound 3 _).bind fun res => ?_
  split <;> trivial

end

theorem sendMail_outbound : (s.sendMail r).Asks (I := Effects) (Outbound s) := by
  unfold Server.sendMail
  split
  · trivial
  refine (checkSubmission_outbound scheme _).bind fun res => ?_
  split
  · trivial
  · exact storeSubmission_outbound scheme _

theorem handler_outbound (r : Request) : (s.handler r).Asks (I := Effects) (Outbound s) := by
  unfold Server.handler
  split
  · exact register_outbound
  · exact pubkey_outbound scheme _
  · exact sendMail_outbound scheme
  · exact listMail_outbound _
  · exact getMail_outbound _
  · exact burnMail_outbound _
  · exact block_outbound
  · exact unblock_outbound
  · exact listBlocks_outbound
  · exact rotate_outbound
  · exact destroy_outbound

end

/-- **Federation URLs go where the address says.** `ValidDomain` accepts `host[:port]` and nothing
else. An address that is accepted makes URLs of its domain and its name, unless it is a bare
username, whose domain is that of the configuration; and no handler asks another URL than that of
an accepted address of another instance. -/
theorem federation_urls (s : Server) (scheme : s.Federates) :
    (∀ d, validDomain d = true ↔ IsDomain d) ∧
    (∀ text a, AcceptedAs s text a →
      UrlsGoTo s a ∨
        (a.isLocal = true ∧ a.localName = text ∧ a.domain = toLower s.cfg.instanceDomain)) ∧
    ∀ r, (s.handler r).Asks (I := Effects) (Outbound s) := by
  refine ⟨fun d => validDomain_iff, fun text a accepted => ?_, handler_outbound scheme⟩
  rcases validDomain_of_accepted accepted with host | bare
  · exact .inl (urlsGoTo scheme host)
  · exact .inr bare

namespace Sample

/-- A remote user on another port. -/
theorem federation_urls_port :
    ∃ a, parseAddress (utf8 "mallory@B.Example:8443") (utf8 "a.example") = .ok a ∧
      GoesTo ((server [] [] [] []).url a.domain (utf8 "/api/mail")) (utf8 "b.example:8443")
        (utf8 "/api/mail") := by
  refine ⟨_, rfl, ?_⟩
  rcases (federation_urls (server [] [] [] []) (.inl rfl)).2.1 (utf8 "mallory@B.Example:8443") _
    (.inl rfl) with urls | ⟨-, bare, -⟩
  · exact urls.mail
  · exact absurd bare (by decide)

end Sample

end Shyake.Go
