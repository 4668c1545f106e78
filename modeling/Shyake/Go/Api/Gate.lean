import Shyake.Go.Api.Runs
import Shyake.Go.Api.Accepting

/-!
# What a mail row rests on

Keys in the cache and keys of a landed flight were fetched by some request from the
instance they are filed under (`Sourced`, an invariant of every run). With the guard
of `sendMail` it follows that every inserted row has passed the whole gate.
-/

namespace Shyake.Go

open Protocol (Address validUsername verifyPoW parseAddress mailMessage)

/-! ## What an answer does to the cache and the flights -/

section

variable {w w' : World} {q : Query} {a : Answer q}

/-- A cache entry is an old one or the one just put. -/
theorem served_cache (h : Served w q a w') :
    ∀ e ∈ w'.cache, e ∈ w.cache ∨ q = .cachePut e.id e.keys := by
  intro e mem
  cases h with
  | cachePut id keys =>
    rcases List.mem_cons.mp mem with rfl | kept
    · exact .inr rfl
    · have kept := List.mem_of_mem_filter kept
      unfold World.sweep at kept
      split at kept
      · exact .inl kept
      · exact .inl (List.mem_of_mem_filter kept)
  | _ => exact .inl mem

/-- A flight keeps its id. -/
theorem served_flight_id (h : Served w q a w') {n : Nat} {id : Bytes}
    (flight : ∃ res, w.flights[n]? = some (id, res)) : ∃ res, w'.flights[n]? = some (id, res) := by
  obtain ⟨res, flight⟩ := flight
  cases h with
  | land n' result =>
    by_cases same : n' = n
    · exact ⟨some result, by simp [same, flight]⟩
    · exact ⟨res, by simp [same, flight]⟩
  | started id' none_ =>
    obtain ⟨lt, -⟩ := List.getElem?_eq_some_iff.mp flight
    exact ⟨res, by rw [List.getElem?_append_left lt, flight]⟩
  | _ => exact ⟨res, flight⟩

/-- A flight lands with the result of a `land`. -/
theorem served_landed (h : Served w q a w') {n : Nat} {id : Bytes} {keys : RemoteKeys}
    (landed : w'.flights[n]? = some (id, some (.ok keys))) :
    w.flights[n]? = some (id, some (.ok keys)) ∨
      q = .land n (.ok keys) ∧ ∃ res, w.flights[n]? = some (id, res) := by
  cases h with
  | land n' result =>
    by_cases same : n' = n
    · subst same
      simp only [List.getElem?_modify, if_true, Option.map_eq_map, Option.map_eq_some_iff,
        Prod.mk.injEq, Option.some.injEq] at landed
      obtain ⟨f, flight, rfl, rfl⟩ := landed
      exact .inr ⟨rfl, f.2, flight⟩
    · simp only [List.getElem?_modify, same, if_false, Option.map_eq_map,
        Option.map_id'] at landed
      exact .inl landed
  | started id' none_ =>
    rcases Nat.lt_or_ge n w.flights.length with lt | ge
    · rw [List.getElem?_append_left lt] at landed
      exact .inl landed
    · rw [List.getElem?_append_right ge] at landed
      cases List.mem_singleton.mp (List.mem_of_getElem? landed)
  | _ => exact .inl landed

end

/-! ## Where keys come from -/

/-- Some request fetched these keys from the instance they are filed under. -/
def Origin (s : Server) (c : State s) (id : Bytes) (keys : RemoteKeys) : Prop :=
  ∃ t ∈ c.threads, Fetched s t.log id keys

/-- Keys that no request has fetched are nowhere. -/
structure Sourced (s : Server) (c : State s) : Prop where
  cache : ∀ e ∈ c.shared.cache, Origin s c e.id e.keys
  landed : ∀ (n : Nat) (id : Bytes) (keys : RemoteKeys),
    c.shared.flights[n]? = some (id, some (.ok keys)) → Origin s c id keys
  joined : ∀ t ∈ c.threads, ∀ (id : Bytes) (leads : Bool) (n : Nat),
    Log.Has t.log (.join id) (leads, n) → ∃ res, c.shared.flights[n]? = some (id, res)
  hits : ∀ t ∈ c.threads, ∀ (id : Bytes) (keys : RemoteKeys) (at_ : Time),
    Log.Has t.log (.cacheGet id) (some (keys, at_)) → Origin s c id keys
  waits : ∀ t ∈ c.threads, ∀ (n : Nat) (keys : RemoteKeys), Log.Has t.log (.wait n) (.ok keys) →
    ∃ id res, c.shared.flights[n]? = some (id, res) ∧ Origin s c id keys

theorem Fetched.mono {s : Server} {l l' : Log} {id : Bytes} {keys : RemoteKeys}
    (h : Fetched s l id keys) (pre : l <+: l') : Fetched s l' id keys := by
  obtain ⟨a, remote, user, stored, answered⟩ := h
  exact ⟨a, remote, user, stored, answered.mono pre⟩

section

variable {s : Server} {c : State s} {ok : State s → Lib.Label (service s) → Prop}

/-- One answer keeps keys sourced. -/
theorem Sourced.act {i : Nat} {o : Oracle} {t : Lib.Thread (service s)} {q : Query}
    {k : Answer q → Handler Reply} {a : Answer q} {w : World} (h : Sourced s c)
    (guarded : Guard s t.req t.log q) (acts : Lib.Config.Acts c i o t q k a w) :
    Sourced s ⟨w, c.threads.set i (t.answered q k a)⟩ := by
  have served : Served c.shared q a w := served_of_serve acts.served
  have origin : ∀ {id keys}, Origin s c id keys →
      Origin s ⟨w, c.threads.set i (t.answered q k a)⟩ id keys := by
    rintro id keys ⟨t₀, mem, fetched⟩
    obtain ⟨t₁, mem₁, -, pre⟩ := acts.extends_log t₀ mem
    exact ⟨t₁, mem₁, fetched.mono pre⟩
  have here : ∀ {id keys}, Fetched s t.log id keys → Origin s c id keys :=
    fun fetched => ⟨t, acts.mem, fetched⟩
  refine ⟨?_, ?_, ?_, ?_, ?_⟩
  · intro e mem
    rcases served_cache served e mem with old | rfl
    · exact origin (h.cache e old)
    · exact origin (here guarded)
  · intro n id keys landed
    rcases served_landed served landed with old | ⟨rfl, res, flight⟩
    · exact origin (h.landed n id keys old)
    · -- the flight was started by this request, under the id it fetched
      obtain ⟨id', joined, fetched⟩ := guarded
      obtain ⟨res', flight'⟩ := h.joined t acts.mem id' true n joined
      rw [flight] at flight'
      obtain ⟨rfl, -⟩ := Prod.mk.inj (Option.some.inj flight')
      exact origin (here fetched)
  · intro t' mem id leads n joined
    rcases acts.mem_log mem joined with ⟨t₀, mem₀, -, old⟩ | ⟨-, new⟩
    · exact served_flight_id served (h.joined t₀ mem₀ id leads n old)
    · cases new
      cases served with
      | joined _ _ flying =>
        obtain ⟨lt, found, -⟩ := List.findIdx?_eq_some_iff_getElem.mp flying
        simp only [Bool.and_eq_true, beq_iff_eq] at found
        exact ⟨c.shared.flights[n].2, by rw [List.getElem?_eq_getElem lt, ← found.1]⟩
      | started => exact ⟨none, by simp⟩
  · intro t' mem id keys at_ hit
    rcases acts.mem_log mem hit with ⟨t₀, mem₀, -, old⟩ | ⟨-, new⟩
    · exact origin (h.hits t₀ mem₀ id keys at_ old)
    · obtain ⟨rfl, new⟩ := Lib.Event.mk.inj new
      obtain rfl := eq_of_heq new
      have source : Origin s c id keys := by
        generalize ha : some (keys, at_) = answer at served
        cases served with
        | cacheGet =>
          obtain ⟨e, found, same⟩ := Option.map_eq_some_iff.mp ha.symm
          obtain ⟨rfl, -⟩ := Prod.mk.inj same
          have name : e.id = id := by simpa using List.find?_some found
          exact name ▸ h.cache e (List.mem_of_find?_eq_some found)
      exact origin source
  · intro t' mem n keys waited
    rcases acts.mem_log mem waited with ⟨t₀, mem₀, -, old⟩ | ⟨-, new⟩
    · obtain ⟨id, res, flight, source⟩ := h.waits t₀ mem₀ n keys old
      obtain ⟨res', flight'⟩ := served_flight_id served ⟨res, flight⟩
      exact ⟨id, res', flight', origin source⟩
    · obtain ⟨rfl, new⟩ := Lib.Event.mk.inj new
      obtain rfl := eq_of_heq new
      obtain ⟨id, res, landed⟩ : ∃ id res, w.flights[n]? = some (id, res) ∧ Origin s c id keys := by
        generalize ha : Except.ok keys = answer at served
        cases served with
        | waited _ id _ landed =>
          subst ha
          exact ⟨id, _, landed, h.landed n id keys landed⟩
      exact ⟨id, res, landed.1, origin landed.2⟩

/-- Keys are sourced in every run of a fresh server. -/
theorem sourced {clock : Time} {db : Db} (run : Lib.Run ok (State.start s clock db) c) :
    Sourced s c := by
  have guarded := handler_guarded s
  refine run.invariant (Sourced s) ?_ ?_ ?_ ?_
  · refine ⟨?_, ?_, ?_, ?_, ?_⟩ <;> simp [State.start, Lib.Config.init, World.init]
  · intro c r _ h _
    have origin : ∀ {id keys}, Origin s c id keys →
        Origin s { c with threads := c.threads ++ [Lib.Thread.start r] } id keys := by
      rintro id keys ⟨t, mem, fetched⟩
      exact ⟨t, List.mem_append_left _ mem, fetched⟩
    have old : ∀ {t : Lib.Thread (service s)} {q : Query} {a : Answer q},
        t ∈ c.threads ++ [Lib.Thread.start r] → Log.Has t.log q a → t ∈ c.threads := by
      intro t q a mem has
      rcases List.mem_append.mp mem with old | new
      · exact old
      · obtain rfl := List.mem_singleton.mp new
        cases has
    exact { cache := fun e mem => origin (h.cache e mem),
            landed := fun n id keys landed => origin (h.landed n id keys landed),
            joined := fun t mem id leads n has => h.joined t (old mem has) id leads n has,
            hits := fun t mem id keys at_ has => origin (h.hits t (old mem has) id keys at_ has),
            waits := fun t mem n keys has => by
              obtain ⟨id, res, flight, source⟩ := h.waits t (old mem has) n keys has
              exact ⟨id, res, flight, origin source⟩ }
  · intro c i o t q k a w before h _ acts
    have guard := before.guarded guarded t acts.mem
    rw [acts.rest] at guard
    exact h.act guard.1 acts
  · intro c clock w _ h _ moved
    have same : w.cache = c.shared.cache ∧ w.flights = c.shared.flights := by
      change drift c.shared clock = some w at moved
      unfold drift at moved
      split at moved
      · cases moved
        exact ⟨rfl, rfl⟩
      · cases moved
    exact { cache := fun e mem => h.cache e (same.1 ▸ mem),
            landed := fun n id keys landed => h.landed n id keys (same.2 ▸ landed),
            joined := fun t mem id leads n has => same.2 ▸ h.joined t mem id leads n has,
            hits := h.hits,
            waits := fun t mem n keys has => same.2 ▸ h.waits t mem n keys has }

/-- Keys filed under a remote address were answered by that address's instance. -/
theorem answered_of_origin {a : Address} {keys : RemoteKeys} (remote : a.isLocal = false)
    (user : validUsername a.localName = true) (h : Origin s c a.stored keys) :
    ∃ t ∈ c.threads, Answered s t.log a keys := by
  obtain ⟨t, mem, a', remote', user', stored, body, got, decoded⟩ := h
  have form : ∀ {b : Address}, b.isLocal = false → validUsername b.localName = true →
      b.stored = b.localName ++ 64 :: b.domain := by
    intro b remote user
    have ne : b.localName ≠ [] := fun e => absurd (e ▸ user) (by decide)
    have own : b.own = false := remote
    simp [Address.stored, ne, own]
  rw [form remote user, form remote' user'] at stored
  obtain ⟨name, domain⟩ := Lib.sep_append_inj (Protocol.at_notMem_of_validUsername user')
    (Protocol.at_notMem_of_validUsername user) stored
  have url : s.pubkeyURL a' = s.pubkeyURL a := by
    unfold Server.pubkeyURL
    rw [name, domain]
  exact ⟨t, mem, body, url ▸ got, decoded⟩

/-- A signing key: the store's for a local sender, the instance's for a remote one. -/
def SigningKey (s : Server) (c : State s) (l : Log) (a : Address) (key : Bytes) : Prop :=
  (a.isLocal = true ∧ ∃ u, l.Has (.db (.getUser a.localName)) (.ok u) ∧ u.sigPubkey = key) ∨
  (a.isLocal = false ∧ ∃ t ∈ c.threads, ∃ keys, Answered s t.log a keys ∧ keys.sig = key)

theorem signingKey_of_returned {a : Address} {keys : RemoteKeys} {t : Lib.Thread (service s)}
    {l : Log} (h : Sourced s c) (mem : t ∈ c.threads) (pre : l <+: t.log)
    (user : validUsername a.localName = true) (returned : Returned s l a keys) :
    SigningKey s c l a keys.sig := by
  obtain ⟨here, u, read, rfl⟩ | ⟨there, looked⟩ := returned
  · exact .inl ⟨here, u, read, rfl⟩
  · refine .inr ⟨there, ?_⟩
    have answered : ∃ t ∈ c.threads, Answered s t.log a keys := by
      obtain ⟨at_, hit⟩ | ⟨n, joined, waited⟩ | answered := looked
      · exact answered_of_origin there user (h.hits t mem _ _ _ (hit.mono pre))
      · -- the flight this request waited for is the one it joined
        obtain ⟨id, res, flight, origin⟩ := h.waits t mem n keys (waited.mono pre)
        obtain ⟨res', flight'⟩ := h.joined t mem _ _ n (joined.mono pre)
        rw [flight] at flight'
        obtain ⟨rfl, -⟩ := Prod.mk.inj (Option.some.inj flight')
        exact answered_of_origin there user origin
      · exact ⟨t, mem, answered.mono pre⟩
    obtain ⟨t', mem', answered⟩ := answered
    exact ⟨t', mem', keys, answered, rfl⟩

/-! ## The gate -/

/-- A row `m` about to be inserted by the request `r`, after the log `l`. -/
structure Admitted (s : Server) (c : State s) (r : Request) (l : Log) (m : Mail)
    (b : Submission s r) : Prop where
  raw : r.body = some b.raw
  sender : m.sender = b.sender.stored
  recipient : m.recipient = b.recipient.stored
  pow : ∃ now, l.Has .now now ∧ verifyPoW b.m.pow b.m.sender now = true
  spent : ∃ now, l.Has (.spentAdd (Lib.sha256 b.m.pow) now) true
  inWindow : InWindow l b.m.timestamp
  signed : ∃ key, key ≠ [] ∧ SigningKey s c l b.sender key ∧
    s.verify key (mailMessage b.m.sender b.m.recipient b.m.fingerprint m.encSubject m.encBody
      m.encReplyTo b.m.timestamp m.size) m.signature = true
  ours : b.sender.isLocal = true ∨ b.recipient.isLocal = true
  blocklist : b.recipient.isLocal = true →
    l.Has (.db (.blocked m.recipient [m.sender, b.sender.domain])) (.ok false)
  relayed : b.recipient.isLocal = false → ∃ status body,
    l.Has (.post (s.url b.recipient.domain (utf8 "/api/mail")) b.raw) (some (status, body)) ∧
      200 ≤ status ∧ status < 300

theorem body_of_readBody {r : Request} {limit : Nat} {raw : Bytes}
    (h : readBody r limit = .ok raw) : r.body = some raw := by
  unfold readBody at h
  split at h
  · cases h
  · split at h
    · cases h
    · cases h
      assumption

/-- A row that was not there before the step was inserted by it. -/
theorem inserted_of_new_row {c' : State s} {lab : Lib.Label (service s)} {row : MailRow}
    (step : c.step lab = some c') (here : row ∈ c'.shared.db.mail)
    (new : row ∉ c.shared.db.mail) : ∃ i o t k a w, lab = .act i o ∧
      Lib.Config.Acts c i o t (.db (.insertMail row.mail)) k a w := by
  obtain ⟨r, rfl, rfl⟩ | ⟨i, o, t, q, k, a, w, rfl, acts, rfl⟩ | ⟨d, w, rfl, moved, rfl⟩ :=
    Lib.Config.step_cases step
  · exact absurd here new
  · have served : Served c.shared q a w := served_of_serve acts.served
    cases served with
    | db st =>
      rcases Db.mem_mail_exec here with old | ⟨rfl, -⟩
      · exact absurd old new
      · exact ⟨i, o, t, k, _, _, rfl, acts⟩
    | _ => exact absurd here new
  · change drift c.shared d = some w at moved
    unfold drift at moved
    split at moved
    · cases moved
      exact absurd here new
    · cases moved

/-- **A mail row is inserted only by a POST /api/mail that has passed the whole gate.** -/
theorem mail_acceptance_gate (s : Server) (clock : Time) (db : Db) (c c' : State s)
    (run : Lib.Run (anyStep s) (State.start s clock db) c) (lab : Lib.Label (service s))
    (step : c.step lab = some c') (row : MailRow) (here : row ∈ c'.shared.db.mail)
    (new : row ∉ c.shared.db.mail) :
    ∃ i o t, lab = .act i o ∧ c.threads[i]? = some t ∧ t.req.route = .sendMail ∧
      ∃ b : Submission s t.req, Admitted s c t.req t.log row.mail b := by
  obtain ⟨i, o, t, k, a, w, rfl, acts⟩ := inserted_of_new_row step here new
  have guard := run.guarded (handler_guarded s) t acts.mem
  rw [acts.rest] at guard
  obtain ⟨route, b, id, now, passed, same⟩ := guard.1
  refine ⟨i, o, t, rfl, acts.thread, route, b, ?_⟩
  rw [same]
  obtain ⟨keys, returned, nonempty, verified⟩ := passed.signed
  have key := signingKey_of_returned (sourced run) acts.mem List.prefix_rfl b.sender_user returned
  exact { raw := body_of_readBody b.read,
          sender := rfl,
          recipient := rfl,
          pow := passed.pow,
          spent := passed.spent,
          inWindow := passed.inWindow,
          signed := ⟨keys.sig, nonempty, key, verified⟩,
          ours := b.ours,
          blocklist := passed.blocklist,
          relayed := passed.relayed }

end

namespace Sample

/-- Alice's mail to Bobby passes the gate. -/
theorem mail_acceptance_gate_firstMail :
    ∃ (c c' : State (server [aliceSignsMail] [firstMail] [] []))
      (lab : Lib.Label (service (server [aliceSignsMail] [firstMail] [] []))) (row : MailRow),
      c.step lab = some c' ∧ row ∈ c'.shared.db.mail ∧ row.mail.recipient = utf8 "bobby" ∧
      ∃ i o t, lab = .act i o ∧ c.threads[i]? = some t ∧ t.req.route = .sendMail ∧
        ∃ b : Submission _ t.req, Admitted _ c t.req t.log row.mail b := by
  have fresh : Lib.Run (anyStep (server [aliceSignsMail] [firstMail] [] []))
    (State.start _ (clock 0) db) (State.start _ (clock 0) db) := .start
  obtain ⟨b, k, c, -, run, shared, threads⟩ := run_mail (P := fun _ => True)
    (utf8 "1:20:250610:alice::one:6e7368") (List.replicate 10 0) fresh
    (fun _ _ _ _ _ => trivial) trivial List.mem_cons_self (by simp [firstMail])
    (small_mail (by decide))
    (by decide) (by decide +kernel) (within (by decide)) rfl rfl (fun _ mem => by cases mem)
    (TtlSet.add_of_notMem List.not_mem_nil List.not_mem_nil) rfl trivial trivial
  have empty : c.shared.db.mail = [] := by rw [shared]; rfl
  obtain ⟨db', inserted, -, rows, -⟩ := Db.exec_insertMail c.shared.db
    (m := row (utf8 "1:20:250610:alice::one:6e7368") (idOf (List.replicate 10 0)) (clock 0))
    (fun r mem => by rw [empty] at mem; cases mem)
  have new := List.mem_append_right c.shared.db.mail
    (List.mem_singleton_self (⟨row (utf8 "1:20:250610:alice::one:6e7368")
      (idOf (List.replicate 10 0)) (clock 0), sigHash (signature 65)⟩ : MailRow))
  have step := step_db (i := 0) (by rw [threads]; rfl) rfl inserted
  refine ⟨c, _, _, _, step, rows ▸ new, rfl,
    mail_acceptance_gate _ _ _ _ _ run _ step _ (rows ▸ new) ?_⟩
  rw [empty]
  exact List.not_mem_nil

end Sample

end Shyake.Go
