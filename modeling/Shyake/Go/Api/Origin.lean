import Shyake.Go.Api.Blocklist

/-!
# Where a remote user's keys come from

Domains are compared as texts, and keys are fetched from URLs. A `URL` is what the
HTTP client makes of a text: the origin it connects to and the path it asks for. Two
addresses with one URL have one stored form when their domains write the port alike,
and only then.
-/

namespace Shyake.Go

open Protocol (Address Identity parseAddress validDomain validUsername)

/-! ## URLs -/

/-- The host and the port a client connects to. -/
structure URLOrigin where
  host : Bytes
  port : Nat
  deriving DecidableEq

structure URL where
  origin : URLOrigin
  path : Bytes
  deriving DecidableEq

/-- The port as it is written after the host. -/
def writtenPort (authority : Bytes) : Option Bytes := (Bytes.cut 58 authority).2

/-- The origin of an authority without user information; https has port 443 by default. -/
def URLOrigin.ofAuthority (authority : Bytes) : URLOrigin where
  host := (Bytes.cut 58 authority).1
  port :=
    match writtenPort authority with
    | none => 443
    | some text => (parseUint text).getD 0

/-- `url.Parse` of an https URL. -/
def URL.parse (text : Bytes) : Option URL :=
  if (utf8 "https://").isPrefixOf text then
    let (authority, path) := Bytes.cut 47 (text.drop (utf8 "https://").length)
    some ⟨.ofAuthority authority, path.getD []⟩
  else none

/-! ## What is fetched -/

theorem slash_notMem_of_validDomain {d : Bytes} (h : validDomain d = true) : (47 : UInt8) ∉ d :=
  fun mem => absurd (Protocol.chars_of_validDomain h 47 mem) (by decide)

theorem pathEscape_username {n : Bytes} (h : validUsername n = true) : Server.pathEscape n = n := by
  have chars := Protocol.chars_of_validUsername h
  unfold Server.pathEscape
  clear h
  induction n with
  | nil => rfl
  | cons c cs ih =>
    have here : (isLower c || isUpper c || isDigit c || (utf8 "-_.~$&+=:@").contains c) = true := by
      rcases chars c List.mem_cons_self with lower | upper | digit | rfl
      · simp [lower]
      · simp [upper]
      · simp [digit]
      · decide
    rw [List.flatMap_cons, if_pos here, ih fun x mem => chars x (List.mem_cons_of_mem _ mem)]
    rfl

/-- The keys of an address come from its domain, at the path of its name. -/
theorem parse_pubkeyURL {s : Server} (https : s.scheme = utf8 "https") {a : Address}
    (user : validUsername a.localName = true) (host : validDomain a.domain = true) :
    URL.parse (s.pubkeyURL a) =
      some ⟨.ofAuthority a.domain, utf8 "api/pubkey/" ++ a.localName⟩ := by
  have text : s.pubkeyURL a =
      utf8 "https://" ++ (a.domain ++ 47 :: (utf8 "api/pubkey/" ++ a.localName)) := by
    unfold Server.pubkeyURL Server.url
    have scheme : utf8 "https" ++ utf8 "://" = utf8 "https://" := by decide
    have path : utf8 "/api/pubkey/" = 47 :: utf8 "api/pubkey/" := by decide
    rw [https, scheme, pathEscape_username user, path]
    simp
  unfold URL.parse
  rw [text, if_pos (List.isPrefixOf_iff_prefix.mpr (List.prefix_append _ _)), List.drop_left]
  rw [Bytes.cut_append (slash_notMem_of_validDomain host)]
  rfl

/-! ## One URL, one address -/

/-- A domain is its host and the port as written. -/
theorem domain_ext {d e : Bytes} (origin : URLOrigin.ofAuthority d = URLOrigin.ofAuthority e)
    (port : writtenPort d = writtenPort e) : d = e := by
  have host : (Bytes.cut 58 d).1 = (Bytes.cut 58 e).1 := congrArg URLOrigin.host origin
  unfold writtenPort at port
  rcases (Bytes.cut_spec 58 d).2 with ⟨none, made⟩ | ⟨p, some, made⟩ <;>
    rcases (Bytes.cut_spec 58 e).2 with ⟨none', made'⟩ | ⟨p', some', made'⟩
  · rw [made, made', host]
  · rw [none, some'] at port
    cases port
  · rw [some, none'] at port
    cases port
  · rw [some, some'] at port
    rw [made, made', host, Option.some.inj port]

/-- A block row of `u`, alone in its table. -/
def Db.blocking (u text : Bytes) : Db := Db.empty.addBlock u text 0

theorem blocked_blocking {u text : Bytes} {candidates : List Bytes} :
    (Db.blocking u text).blocked u candidates = true ↔ text ∈ candidates := by
  unfold Db.blocking
  rw [Db.blocked_iff]
  simp only [Db.mem_blocksOf_addBlock]
  constructor
  · rintro ⟨c, mem, rfl | old⟩
    · exact mem
    · cases old
  · exact fun mem => ⟨text, mem, .inl rfl⟩

section

variable {s : Server} {t t' : Bytes} {a a' : Address}

/-- The text of a domain with a port is no stored form of a user. -/
theorem stored_ne_of_port (parsed : parseAddress t s.cfg.instanceDomain = .ok a) {d : Bytes}
    (valid : validDomain d = true) (port : (58 : UInt8) ∈ d) : a.stored ≠ d := by
  have user := (Protocol.parseAddress_ok parsed).1
  rintro rfl
  cases own : a.own with
  | true =>
    rw [Protocol.stored_of_own parsed own] at port
    exact Protocol.notMem_of_validUsername user (by decide) port
  | false =>
    exact Protocol.at_notMem_of_validDomain valid (Protocol.at_mem_stored_of_remote parsed own)

/-- Two addresses of one origin that write the port differently are told apart by a block. -/
theorem blocked_differs (parsed : parseAddress t s.cfg.instanceDomain = .ok a)
    (valid' : validDomain a'.domain = true) (ne : a.domain ≠ a'.domain)
    (port : (58 : UInt8) ∈ a'.domain) (u : Bytes) :
    (Db.blocking u a'.domain).blocked u [a.stored, a.domain] ≠
      (Db.blocking u a'.domain).blocked u [a'.stored, a'.domain] := by
  have there : (Db.blocking u a'.domain).blocked u [a'.stored, a'.domain] = true :=
    blocked_blocking.mpr (by simp)
  have notHere : ¬ (Db.blocking u a'.domain).blocked u [a.stored, a.domain] = true := by
    rw [blocked_blocking]
    simp only [List.mem_cons, List.not_mem_nil, or_false, not_or]
    exact ⟨(stored_ne_of_port parsed valid' port).symm, Ne.symm ne⟩
  rw [there]
  exact notHere

end

/-- **One remote user has one stored address**, as long as its domain is written with the same port
text: of two senders whose keys come from one URL, the stored forms and the domains are equal, both
are local or both are remote, and every blocklist says the same of both, if and only if the ports
are written alike. -/
theorem one_stored_address (s : Server) (https : s.scheme = utf8 "https")
    (configured : validDomain s.cfg.instanceDomain = true) (t t' : Bytes) (a a' : Address)
    (parsed : parseAddress t s.cfg.instanceDomain = .ok a)
    (parsed' : parseAddress t' s.cfg.instanceDomain = .ok a')
    (same : URL.parse (s.pubkeyURL a) = URL.parse (s.pubkeyURL a')) :
    ((a.stored = a'.stored ∧ a.domain = a'.domain ∧ a.isLocal = a'.isLocal) ↔
      writtenPort a.domain = writtenPort a'.domain) ∧
    ((∀ (db : Db) (u : Bytes),
      db.blocked u [a.stored, a.domain] = db.blocked u [a'.stored, a'.domain]) ↔
      writtenPort a.domain = writtenPort a'.domain) := by
  have valid := validDomain_of_sender configured parsed
  have valid' := validDomain_of_sender configured parsed'
  obtain ⟨user, -, own, -⟩ := Protocol.parseAddress_ok parsed
  obtain ⟨user', -, own', -⟩ := Protocol.parseAddress_ok parsed'
  rw [parse_pubkeyURL https user valid, parse_pubkeyURL https user' valid'] at same
  obtain ⟨origin, path⟩ := URL.mk.inj (Option.some.inj same)
  have name : a.localName = a'.localName := List.append_cancel_left path
  have alike : writtenPort a.domain = writtenPort a'.domain →
      a.stored = a'.stored ∧ a.domain = a'.domain ∧ a.isLocal = a'.isLocal := by
    intro port
    have domain := domain_ext origin port
    have here : a.own = a'.own := by rw [own, own', domain]
    refine ⟨?_, domain, here⟩
    unfold Address.stored
    rw [name, domain, here]
  refine ⟨⟨fun h => congrArg writtenPort h.2.1, alike⟩, ⟨fun verdicts => ?_, fun port db u => ?_⟩⟩
  · by_contra port
    have ne : a.domain ≠ a'.domain := fun e => port (congrArg writtenPort e)
    have written : (58 : UInt8) ∈ a.domain ∨ (58 : UInt8) ∈ a'.domain := by
      by_contra neither
      push Not at neither
      unfold writtenPort at port
      rw [Bytes.cut_eq_none neither.1, Bytes.cut_eq_none neither.2] at port
      exact port rfl
    rcases written with here | there
    · exact blocked_differs parsed' valid ne.symm here [] (verdicts _ _).symm
    · exact blocked_differs parsed valid' ne there [] (verdicts _ _)
  · obtain ⟨stored, domain, -⟩ := alike port
    rw [stored, domain]

namespace Sample

/-- **The default port, written out,** makes another stored address of a remote user, which a block
of its instance does not stop, and a remote address of a local user. -/
theorem default_port_written : ∃ s : Server, s.scheme = utf8 "https" ∧
    s.cfg.instanceDomain = utf8 "a.example" ∧
    (∃ a a' : Address, parseAddress (utf8 "mallory@b.example") s.cfg.instanceDomain = .ok a ∧
      parseAddress (utf8 "mallory@b.example:443") s.cfg.instanceDomain = .ok a' ∧
      URL.parse (s.pubkeyURL a) = URL.parse (s.pubkeyURL a') ∧ a.stored ≠ a'.stored ∧
      (Db.blocking (utf8 "bobby") a.domain).blocked (utf8 "bobby") [a.stored, a.domain] = true ∧
      (Db.blocking (utf8 "bobby") a.domain).blocked (utf8 "bobby") [a'.stored, a'.domain]
        = false) ∧
    ∃ a a' : Address, parseAddress (utf8 "alice") s.cfg.instanceDomain = .ok a ∧
      parseAddress (utf8 "alice@a.example:443") s.cfg.instanceDomain = .ok a' ∧
      URL.parse (s.pubkeyURL a) = URL.parse (s.pubkeyURL a') ∧
      a.isLocal = true ∧ a'.isLocal = false := by
  refine ⟨server [] [] [] [], rfl, rfl, ?_, ?_⟩
  · exact ⟨_, _, rfl, rfl, by decide, by decide, by decide, by decide⟩
  · exact ⟨_, _, rfl, rfl, by decide, rfl, rfl⟩

/-- Letter case is no other way to write a domain. -/
theorem one_stored_address_case : ∃ a a' : Address,
    parseAddress (utf8 "mallory@b.example") (utf8 "a.example") = .ok a ∧
    parseAddress (utf8 "mallory@B.Example") (utf8 "a.example") = .ok a' ∧
    a.stored = a'.stored ∧
    ∀ (db : Db) (u : Bytes),
      db.blocked u [a.stored, a.domain] = db.blocked u [a'.stored, a'.domain] := by
  obtain ⟨stored, verdicts⟩ := one_stored_address (server [] [] [] []) rfl (by decide)
    (utf8 "mallory@b.example") (utf8 "mallory@B.Example") _ _ rfl rfl (by decide)
  exact ⟨_, _, rfl, rfl, (stored.mpr (by decide)).1, verdicts.mpr (by decide)⟩

end Sample

end Shyake.Go
