import Shyake.Go.Api.Gate

/-!
# A fresh lookup (`federation.Keys`)

Calls of `Lookup` for one remote user, beside the instance that has the user's keys. A
call that suspects a stale key passes over the cache. It still joins a flight that is
under way, and that flight may have come back before the call began.
-/

namespace Shyake.Go

open Lib.Prog
open Protocol (Address)

/-! ## Calls beside the other instance -/

/-- The keys in a response (`fetch`). -/
def Server.keysIn (s : Server) (answer : Option (Nat × Bytes)) : Option RemoteKeys :=
  match Server.bounded answer with
  | none => none
  | some (status, body) => if status ≠ 200 then none else s.json.keys body

/-- The server that asks, and the user's keys at their instance, the newest first. -/
structure Remote where
  here : World
  current : RemoteKeys
  replaced : List RemoteKeys

/-- How time passes. -/
inductive Change where
  | clock (time : Time)
  | keys (new : RemoteKeys)

namespace Remote

def init (clock : Time) (db : Db) (keys : RemoteKeys) : Remote := ⟨World.init clock db, keys, []⟩

/-- A response has the current keys, or it has none. -/
def serve (s : Server) (r : Remote) : (q : Query) → Oracle → Option (Answer q × Remote)
  | .get _, .http answer =>
    if s.keysIn answer = none ∨ s.keysIn answer = some r.current then some (answer, r) else none
  | q, o => (Go.serve r.here q o).map fun (a, w) => (a, { r with here := w })

def change (r : Remote) : Change → Option Remote
  | .clock time => (drift r.here time).map fun w => { r with here := w }
  | .keys new => some { r with current := new, replaced := r.current :: r.replaced }

/-- The keys have been current since only `older` ones were replaced. -/
def CurrentSince (older : List RemoteKeys) (r : Remote) (keys : RemoteKeys) : Prop :=
  ∃ new, r.current :: r.replaced = new ++ older ∧ keys ∈ new

end Remote

/-- Calls of `Lookup` for one user: a call is its `fresh`. -/
def lookups (s : Server) (addr : Address) : Lib.Service where
  I := Effects
  State := Remote
  Req := Bool
  Resp := Except LookupError RemoteKeys
  Oracle := Oracle
  Drift := Change
  handler := s.lookup addr
  serve := Remote.serve s
  drift := Remote.change

abbrev Calls (s : Server) (addr : Address) := Lib.Config (lookups s addr)

abbrev Calls.start (s : Server) (addr : Address) (clock : Time) (db : Db) (keys : RemoteKeys) :
    Calls s addr :=
  Lib.Config.init (Remote.init clock db keys)

/-- The flight's leader has been answered with these keys. -/
def Back (s : Server) (addr : Address) (l : Log) (n : Nat) (keys : RemoteKeys) : Prop :=
  l.Has (.join addr.stored) (true, n) ∧ ∃ url answer, l.Has (.get url) answer ∧
    s.keysIn answer = some keys

/-- The call that begins in `c₁` joins no flight that is back with keys replaced before it began. -/
def JoinsCurrent (s : Server) (addr : Address) (c₁ c : Calls s addr)
    (lab : Lib.Label (lookups s addr)) : Prop :=
  ∀ o n, lab = .act c₁.threads.length o → c.pending lab = some (true, .join addr.stored) →
    World.underWay addr.stored c.shared.here.flights = some n →
    ∀ t ∈ c.threads, ∀ keys, Back s addr t.log n keys →
      c.shared.CurrentSince c₁.shared.replaced keys

/-! ## What a call's log says -/

section

variable {s : Server} {addr : Address} {l : Log} {n : Nat} {keys : RemoteKeys}

theorem Back.mono {l' : Log} (h : Back s addr l n keys) (pre : l <+: l') :
    Back s addr l' n keys := by
  obtain ⟨joined, url, answer, got, brought⟩ := h
  exact ⟨joined.mono pre, url, answer, got.mono pre, brought⟩

/-- A question of a lookup, after what has been asked before. -/
def Asking (s : Server) (addr : Address) (l : Log) : Query → Prop
  | .join _ => ∀ url answer, ¬ l.Has (.get url) answer
  | .wait n => l.Has (.join addr.stored) (false, n)
  | .land n (.ok keys) => Back s addr l n keys
  | _ => True

/-- Where the keys of a fresh call come from. -/
def Brought (s : Server) (addr : Address) (l : Log) (keys : RemoteKeys) : Prop :=
  (∃ n, Back s addr l n keys) ∨ ∃ n, l.Has (.wait n) (.ok keys)

theorem fetch_meets (l : Log) : (s.fetch addr).Meets (I := Effects) (Asking s addr)
    (fun (l' : Log) res => l <+: l' ∧ ∀ keys, res = .ok keys → ∃ url answer, l'.Has (.get url) answer ∧
      s.keysIn answer = some keys) l := by
  unfold Server.fetch Server.get
  refine (meets_ask_bind _ _).mpr ⟨trivial, fun answer => ?_⟩
  have pre := List.prefix_append l [(⟨.get (s.pubkeyURL addr), answer⟩ : Lib.Event Effects)]
  have got := Log.has_last l (.get (s.pubkeyURL addr)) answer
  simp only [pure_eq]
  cases bounded : Server.bounded answer with
  | none => exact ⟨pre, nofun⟩
  | some response =>
    obtain ⟨status, body⟩ := response
    dsimp only
    split
    · exact ⟨pre, nofun⟩
    · rename_i found
      cases decoded : s.json.keys body with
      | none => exact ⟨pre, nofun⟩
      | some keys =>
        refine ⟨pre, fun keys' same => ⟨_, answer, got, ?_⟩⟩
        cases same
        unfold Server.keysIn
        rw [bounded]
        dsimp only
        rw [if_neg found, decoded]

theorem flight_meets (none_ : ∀ url answer, ¬ l.Has (.get url) answer) :
    (s.flight addr).Meets (I := Effects) (Asking s addr)
      (fun l' res => ∀ keys, res = .ok keys → Brought s addr l' keys) l := by
  unfold Server.flight
  refine (meets_ask_bind _ _).mpr ⟨none_, fun joined => ?_⟩
  obtain ⟨leads, n⟩ := joined
  cases leads with
  | true =>
    refine (fetch_meets _).bind fun l₁ res _ fetched => ?_
    obtain ⟨pre, brings⟩ := fetched
    have joined : Log.Has l₁ (.join addr.stored) (true, n) := (Log.has_last _ _ _).mono pre
    cases res with
    | error e =>
      refine (meets_ask_bind _ _).mpr ⟨trivial, fun _ => ?_⟩
      exact nofun
    | ok keys =>
      have back : Back s addr l₁ n keys := ⟨joined, brings keys rfl⟩
      refine (meets_ask_bind _ _).mpr ⟨trivial, fun _ => ?_⟩
      have pre₂ := List.prefix_append l₁ [(⟨.cachePut addr.stored keys, ()⟩ : Lib.Event Effects)]
      refine (meets_ask_bind _ _).mpr ⟨back.mono pre₂, fun _ => ?_⟩
      intro keys' same
      cases same
      exact .inl ⟨n, back.mono (pre₂.trans (List.prefix_append _ _))⟩
  | false =>
    refine (meets_ask_only _).mpr ⟨Log.has_last _ _ _, fun res keys same => ?_⟩
    subst same
    exact .inr ⟨n, Log.has_last _ _ _⟩

theorem lookup_meets (s : Server) (addr : Address) (fresh : Bool) :
    (s.lookup addr fresh).Meets (I := Effects) (Asking s addr)
      (fun l res => ∀ keys, res = .ok keys → fresh = true → Brought s addr l keys) [] := by
  unfold Server.lookup
  cases fresh with
  | true =>
    refine (flight_meets fun _ _ has => by cases has).mono (fun _ _ _ guard => guard) ?_
    intro l res _ brought keys same _
    exact brought keys same
  | false =>
    have weaken : ∀ l : Log, (∀ url answer, ¬ l.Has (.get url) answer) →
        (s.flight addr).Meets (I := Effects) (Asking s addr)
          (fun l res => ∀ keys, res = .ok keys → false = true → Brought s addr l keys) l :=
      fun l none_ => (flight_meets none_).mono (fun _ _ _ guard => guard) fun _ _ _ _ _ _ => nofun
    refine (meets_ask_bind _ _).mpr ⟨trivial, fun hit => ?_⟩
    match hit with
    | none => exact weaken _ fun url answer has => by simp [Log.Has] at has
    | some (keys, at_) =>
      refine (meets_ask_bind _ _).mpr ⟨trivial, fun now => ?_⟩
      split
      · exact fun _ _ => nofun
      · exact weaken _ fun url answer has => by simp [Log.Has] at has

end

/-! ## What a step does to the keys -/

section

variable {s : Server} {addr : Address} {r r' : Remote} {q : Query} {a : Answer q} {o : Oracle}
  {older : List RemoteKeys} {keys : RemoteKeys}

/-- A question changes no keys. -/
theorem served_here (h : Remote.serve s r q o = some (a, r')) :
    r'.current = r.current ∧ r'.replaced = r.replaced ∧ Served r.here q a r'.here := by
  unfold Remote.serve at h
  split at h
  · split at h
    · cases h
      exact ⟨rfl, rfl, .get _ _⟩
    · cases h
  · obtain ⟨⟨a', w⟩, served, same⟩ := Option.map_eq_some_iff.mp h
    cases same
    exact ⟨rfl, rfl, served_of_serve served⟩

/-- A response brings the current ones. -/
theorem current_of_get {url : Bytes} {answer : Option (Nat × Bytes)}
    (h : Remote.serve s r (.get url) o = some (answer, r')) (brought : s.keysIn answer = some keys) :
    keys = r.current := by
  cases o with
  | http answer' =>
    unfold Remote.serve at h
    dsimp only at h
    split at h
    · rename_i brings
      cases h
      rw [brought] at brings
      rcases brings with none_ | current
      · cases none_
      · exact Option.some.inj current
    · cases h
  | ok => cases h
  | dbError => cases h
  | random bytes => cases h

theorem Remote.currentSince_current {new : List RemoteKeys} (kept : r.replaced = new ++ older) :
    r.CurrentSince older r.current :=
  ⟨r.current :: new, congrArg (r.current :: ·) kept, List.mem_cons_self⟩

theorem Remote.CurrentSince.served (h : r.CurrentSince older keys)
    (served : Remote.serve s r q o = some (a, r')) : r'.CurrentSince older keys := by
  obtain ⟨current, replaced, -⟩ := served_here served
  unfold Remote.CurrentSince
  rw [current, replaced]
  exact h

theorem Remote.CurrentSince.changed {d : Change} (h : r.CurrentSince older keys)
    (moved : r.change d = some r') : r'.CurrentSince older keys := by
  cases d with
  | clock time =>
    obtain ⟨w, -, rfl⟩ := Option.map_eq_some_iff.mp moved
    exact h
  | keys fresh =>
    cases moved
    obtain ⟨new, split, mem⟩ := h
    exact ⟨fresh :: new, congrArg (fresh :: ·) split, List.mem_cons_of_mem _ mem⟩

/-- Only the keys after the first ones are replaced. -/
theorem kept_of_change {d : Change} (kept : older <:+ r.replaced) (moved : r.change d = some r') :
    older <:+ r'.replaced := by
  cases d with
  | clock time =>
    obtain ⟨w, -, rfl⟩ := Option.map_eq_some_iff.mp moved
    exact kept
  | keys fresh =>
    cases moved
    exact kept.trans (List.suffix_cons _ _)

end

/-! ## Runs -/

section

variable {s : Server} {addr : Address} {clock : Time} {db : Db} {keys₀ : RemoteKeys}
  {ok : Calls s addr → Lib.Label (lookups s addr) → Prop} {c c₁ c₂ : Calls s addr}

theorem asking (run : Lib.Run ok (Calls.start s addr clock db keys₀) c)
    {t : Lib.Thread (lookups s addr)} (mem : t ∈ c.threads) {q : Query}
    {k : Answer q → Handler (Except LookupError RemoteKeys)} (rest : t.rest = .ask q k) :
    Asking s addr t.log q := by
  have guarded := run.guarded (lookup_meets s addr) t mem
  rw [rest] at guarded
  exact guarded.1

/-- What a flight has landed with came back to its leader. -/
theorem landed_back (run : Lib.Run ok (Calls.start s addr clock db keys₀) c) :
    ∀ (n : Nat) (id : Bytes) (keys : RemoteKeys),
      c.shared.here.flights[n]? = some (id, some (.ok keys)) →
        ∃ t ∈ c.threads, Back s addr t.log n keys := by
  refine run.invariant (fun c : Calls s addr => ∀ (n : Nat) (id : Bytes) (keys : RemoteKeys),
    c.shared.here.flights[n]? = some (id, some (.ok keys)) →
      ∃ t ∈ c.threads, Back s addr t.log n keys) ?_ ?_ ?_ ?_
  · intro n id keys landed
    cases landed
  · intro c r _ h _ n id keys landed
    obtain ⟨t, mem, back⟩ := h n id keys landed
    exact ⟨t, List.mem_append_left _ mem, back⟩
  · intro c i o t q k a w before h _ acts n id keys landed
    obtain ⟨-, -, served⟩ := served_here acts.served
    rcases served_landed served landed with old | ⟨rfl, -⟩
    · obtain ⟨t₀, mem, back⟩ := h n id keys old
      obtain ⟨t₁, mem₁, -, pre⟩ := acts.extends_log t₀ mem
      exact ⟨t₁, mem₁, back.mono pre⟩
    · have back : Back s addr t.log n keys := asking before acts.mem acts.rest
      obtain ⟨t₁, mem₁, -, pre⟩ := acts.extends_log t acts.mem
      exact ⟨t₁, mem₁, back.mono pre⟩
  · intro c d w _ h _ moved n id keys landed
    refine h n id keys ?_
    cases d with
    | clock time =>
      obtain ⟨w', moved', rfl⟩ := Option.map_eq_some_iff.mp moved
      unfold drift at moved'
      split at moved'
      · cases moved'
        exact landed
      · cases moved'
    | keys fresh =>
      cases moved
      exact landed

/-- What holds of the call that began in `c₁`, whatever happens since. -/
structure Since (c₁ c : Calls s addr) : Prop where
  kept : c₁.shared.replaced <:+ c.shared.replaced
  here : ∃ t, c.threads[c₁.threads.length]? = some t ∧ t.req = true
  asked : ∀ t, c.threads[c₁.threads.length]? = some t → ∀ url answer keys,
    Log.Has t.log (.get url) answer → s.keysIn answer = some keys →
      c.shared.CurrentSince c₁.shared.replaced keys
  joined : ∀ t, c.threads[c₁.threads.length]? = some t → ∀ n,
    Log.Has t.log (.join addr.stored) (false, n) → ∀ t' ∈ c.threads, ∀ keys,
      Back s addr t'.log n keys → c.shared.CurrentSince c₁.shared.replaced keys
  waited : ∀ t, c.threads[c₁.threads.length]? = some t → ∀ n keys,
    Log.Has t.log (.wait n) (.ok keys) → c.shared.CurrentSince c₁.shared.replaced keys

/-- An event of thread `i` after a step is an old one, or the one just added. -/
theorem has_after {i j : Nat} {o : Oracle} {t t' : Lib.Thread (lookups s addr)} {q : Query}
    {k : Answer q → Handler (Except LookupError RemoteKeys)} {a : Answer q} {w : Remote}
    (acts : Lib.Config.Acts c i o t q k a w)
    (thread : (c.threads.set i (t.answered q k a))[j]? = some t') {q' : Query} {a' : Answer q'}
    (has : Log.Has t'.log q' a') :
    (∃ t₀, c.threads[j]? = some t₀ ∧ Log.Has t₀.log q' a') ∨
      (j = i ∧ t' = t.answered q k a) ∧
        (⟨q', a'⟩ : Lib.Event Effects) = ⟨q, a⟩ := by
  by_cases same : i = j
  · subst same
    rw [List.getElem?_set_self (List.getElem?_eq_some_iff.mp acts.thread).1] at thread
    obtain rfl := Option.some.inj thread
    rcases List.mem_append.mp has with old | new
    · exact .inl ⟨t, acts.thread, old⟩
    · exact .inr ⟨⟨rfl, rfl⟩, List.mem_singleton.mp new⟩
  · rw [List.getElem?_set_ne same] at thread
    exact .inl ⟨t', thread, has⟩

/-- The flight of a step's thread is back in an old log, or this step has brought its keys. -/
theorem back_after {i : Nat} {o : Oracle} {t t' : Lib.Thread (lookups s addr)} {q : Query}
    {k : Answer q → Handler (Except LookupError RemoteKeys)} {a : Answer q} {w : Remote}
    (acts : Lib.Config.Acts c i o t q k a w) (asks : Asking s addr t.log q)
    (mem : t' ∈ c.threads.set i (t.answered q k a)) {n : Nat} {keys : RemoteKeys}
    (back : Back s addr t'.log n keys) :
    (∃ t₀ ∈ c.threads, Back s addr t₀.log n keys) ∨ keys = c.shared.current := by
  rcases List.mem_or_eq_of_mem_set mem with old | rfl
  · exact .inl ⟨t', old, back⟩
  obtain ⟨joined, url, answer, got, brought⟩ := back
  rcases List.mem_append.mp got with old | new
  · rcases List.mem_append.mp joined with old' | new'
    · exact .inl ⟨t, acts.mem, old', url, answer, old, brought⟩
    · -- the leader joins before it asks
      cases List.mem_singleton.mp new'
      exact absurd old (asks url answer)
  · cases List.mem_singleton.mp new
    exact .inr (current_of_get acts.served brought)

/-- One answer keeps what holds of the call. -/
theorem Since.act {i : Nat} {o : Oracle} {t : Lib.Thread (lookups s addr)} {q : Query}
    {k : Answer q → Handler (Except LookupError RemoteKeys)} {a : Answer q} {w : Remote}
    (h : Since c₁ c) (run : Lib.Run ok (Calls.start s addr clock db keys₀) c)
    (cond : JoinsCurrent s addr c₁ c (.act i o)) (acts : Lib.Config.Acts c i o t q k a w) :
    Since c₁ ⟨w, c.threads.set i (t.answered q k a)⟩ := by
  obtain ⟨-, replaced, served⟩ := served_here acts.served
  obtain ⟨new, split⟩ := h.kept
  have asks := asking run acts.mem acts.rest
  have since : ∀ {keys}, c.shared.CurrentSince c₁.shared.replaced keys →
      w.CurrentSince c₁.shared.replaced keys := fun before => before.served acts.served
  have now : w.CurrentSince c₁.shared.replaced c.shared.current :=
    since (Remote.currentSince_current split.symm)
  refine ⟨replaced ▸ h.kept, ?_, ?_, ?_, ?_⟩
  · obtain ⟨t₀, thread, fresh⟩ := h.here
    by_cases same : i = c₁.threads.length
    · subst same
      obtain rfl : t = t₀ := Option.some.inj (acts.thread.symm.trans thread)
      exact ⟨t.answered q k a, List.getElem?_set_self (List.getElem?_eq_some_iff.mp thread).1, fresh⟩
    · exact ⟨t₀, by rw [List.getElem?_set_ne same, thread], fresh⟩
  · intro t' thread url answer keys got brought
    rcases has_after acts thread got with ⟨t₀, thread₀, old⟩ | ⟨-, new⟩
    · exact since (h.asked t₀ thread₀ url answer keys old brought)
    · cases new
      obtain rfl := current_of_get acts.served brought
      exact now
  · intro t' thread n joined t'' mem keys back
    rcases back_after acts asks mem back with ⟨t₃, mem₃, old⟩ | rfl
    · rcases has_after acts thread joined with ⟨t₀, thread₀, before⟩ | ⟨⟨rfl, -⟩, new⟩
      · exact since (h.joined t₀ thread₀ n before t₃ mem₃ keys old)
      · cases new
        obtain ⟨t₀, thread₀, fresh⟩ := h.here
        obtain rfl : t = t₀ := Option.some.inj (acts.thread.symm.trans thread₀)
        have pending := acts.pending
        rw [fresh] at pending
        have flying : World.underWay addr.stored c.shared.here.flights = some n := by
          generalize answer : (false, n) = a', w.here = after at served
          cases served with
          | joined _ n' flying =>
            cases answer
            exact flying
          | started => cases answer
        exact since (cond o n rfl pending flying t₃ mem₃ keys old)
    · exact now
  · intro t' thread n keys waited
    rcases has_after acts thread waited with ⟨t₀, thread₀, before⟩ | ⟨⟨rfl, -⟩, new⟩
    · exact since (h.waited t₀ thread₀ n keys before)
    · cases new
      obtain ⟨id, landed⟩ : ∃ id, c.shared.here.flights[n]? = some (id, some (.ok keys)) := by
        generalize answer : Except.ok keys = a', w.here = after at served
        cases served with
        | waited _ id _ landed => exact ⟨id, answer ▸ landed⟩
      obtain ⟨t₃, mem₃, back⟩ := landed_back run n id keys landed
      exact since (h.joined t acts.thread n asks t₃ mem₃ keys back)

theorem Since.of_call (arrived : c₁.step (.arrive true) = some c₂) : Since c₁ c₂ := by
  cases arrived
  have mine : (c₁.threads ++ [Lib.Thread.start true])[c₁.threads.length]? =
      some (Lib.Thread.start (S := lookups s addr) true) := by simp
  refine ⟨List.suffix_rfl, ⟨_, mine, rfl⟩, ?_, ?_, ?_⟩
  · intro t thread url answer keys got
    cases mine.symm.trans thread
    cases got
  · intro t thread n joined
    cases mine.symm.trans thread
    cases joined
  · intro t thread n keys waited
    cases mine.symm.trans thread
    cases waited

theorem since (before : Lib.Run ok (Calls.start s addr clock db keys₀) c₁)
    (arrived : c₁.step (.arrive true) = some c₂) (run : Lib.Run (JoinsCurrent s addr c₁) c₂ c) :
    Since c₁ c := by
  have whole : ∀ c : Calls s addr, Lib.Run (JoinsCurrent s addr c₁) c₂ c →
      Lib.Run (fun _ _ => True) (Calls.start s addr clock db keys₀) c := fun c later =>
    ((before.weaken fun _ _ _ => trivial).next trivial arrived).trans
      (later.weaken fun _ _ _ => trivial)
  refine run.invariant (Since c₁) (Since.of_call arrived) ?_ ?_ ?_
  · intro c r _ h _
    obtain ⟨t, thread, fresh⟩ := h.here
    have lt := (List.getElem?_eq_some_iff.mp thread).1
    have same : (c.threads ++ [Lib.Thread.start r])[c₁.threads.length]? =
        c.threads[c₁.threads.length]? := List.getElem?_append_left lt
    refine ⟨h.kept, ⟨t, same.trans thread, fresh⟩, ?_, ?_, ?_⟩
    · exact fun t' thread' => h.asked t' (same.symm.trans thread')
    · intro t' thread' n joined t'' mem keys back
      rcases List.mem_append.mp mem with old | new
      · exact h.joined t' (same.symm.trans thread') n joined t'' old keys back
      · obtain rfl := List.mem_singleton.mp new
        cases back.1
    · exact fun t' thread' => h.waited t' (same.symm.trans thread')
  · intro c i o t q k a w later h cond acts
    exact h.act (whole c later) cond acts
  · intro c d w _ h _ moved
    refine ⟨kept_of_change h.kept moved, h.here, ?_, ?_, ?_⟩
    · exact fun t thread url answer keys got brought =>
        (h.asked t thread url answer keys got brought).changed moved
    · exact fun t thread n joined t' mem keys back =>
        (h.joined t thread n joined t' mem keys back).changed moved
    · exact fun t thread n keys waited => (h.waited t thread n keys waited).changed moved

end

/-- **A fresh lookup is fresh** when it joins no flight that is back with replaced keys: in every
run in which it begins in `c₁`, the keys it returns have been current at the other instance
since. -/
theorem fresh_lookup_is_fresh (s : Server) (addr : Address) (clock : Time) (db : Db)
    (keys₀ : RemoteKeys) (c₁ c₂ c : Calls s addr)
    (before : Lib.Run (fun _ _ => True) (Calls.start s addr clock db keys₀) c₁)
    (arrived : c₁.step (.arrive true) = some c₂)
    (run : Lib.Run (JoinsCurrent s addr c₁) c₂ c) (t : Lib.Thread (lookups s addr))
    (thread : c.threads[c₁.threads.length]? = some t) (keys : RemoteKeys)
    (returned : t.rest = .ret (.ok keys)) :
    c.shared.CurrentSince c₁.shared.replaced keys := by
  have h := since before arrived run
  have whole := ((before.next trivial arrived).trans (run.weaken fun _ _ _ => trivial))
  have meets := whole.guarded (lookup_meets s addr) t (List.mem_of_getElem? thread)
  rw [returned] at meets
  obtain ⟨t₀, thread₀, fresh⟩ := h.here
  obtain rfl : t = t₀ := Option.some.inj (thread.symm.trans thread₀)
  rcases meets keys rfl fresh with ⟨n, -, url, answer, got, brought⟩ | ⟨n, waited⟩
  · exact h.asked t thread url answer keys got brought
  · exact h.waited t thread n keys waited

/-! ## A flight that came back too early -/

section

variable {s : Server} {addr : Address} {n : Nat} {keys : RemoteKeys}
  {answer : Option (Nat × Bytes)}

theorem fetch_resumes (brings : s.keysIn answer = some keys) :
    (s.fetch addr).Resumes (I := Effects) [⟨.get (s.pubkeyURL addr), answer⟩]
      (.ret (.ok keys)) := by
  unfold Server.keysIn at brings
  unfold Server.fetch Server.get
  refine resumes_ask (.get _) answer ?_
  simp only [pure_eq]
  cases bounded : Server.bounded answer with
  | none =>
    rw [bounded] at brings
    cases brings
  | some response =>
    obtain ⟨status, body⟩ := response
    rw [bounded] at brings
    dsimp only [ret_bind] at brings ⊢
    split at brings
    · cases brings
    · rename_i found
      rw [if_neg found, brings]
      exact .start

/-- The leader of a flight, back with the keys. -/
theorem leader_resumes (n : Nat) (brings : s.keysIn answer = some keys) :
    (s.lookup addr true).Resumes (I := Effects)
      [⟨.join addr.stored, (true, n)⟩, ⟨.get (s.pubkeyURL addr), answer⟩]
      (.ask (.cachePut addr.stored keys) fun _ => .ask (.land n (.ok keys)) fun _ =>
        .ret (.ok keys)) :=
  resumes_ask (.join _) (true, n) (fetch_resumes brings).bind

/-- A call that joins a flight waits for it. -/
theorem waiter_resumes (n : Nat) :
    (s.lookup addr true).Resumes (I := Effects) [⟨.join addr.stored, (false, n)⟩]
      (.ask (.wait n) .ret) :=
  resumes_ask (.join _) (false, n) .start

/-- The first flight, under way. -/
def World.flying (clock : Time) (db : Db) (id : Bytes) : World :=
  { World.init clock db with flights := [(id, none)] }

/-- The first flight, landed. -/
def World.landed (clock : Time) (db : Db) (id : Bytes) (keys : RemoteKeys) : World :=
  { World.init clock db with
    flights := [(id, some (.ok keys))], cache := [⟨id, keys, clock⟩] }

theorem leader_serves (addr : Address) (clock : Time) (db : Db) (brings : s.keysIn answer = some keys) :
    Lib.Serves (S := lookups s addr) (fun _ => True) (Remote.init clock db keys)
      [⟨.join addr.stored, (true, 0)⟩, ⟨.get (s.pubkeyURL addr), answer⟩]
      ⟨.flying clock db addr.stored, keys, []⟩ := by
  refine .cons Oracle.ok trivial rfl (.cons (Oracle.http answer) trivial ?_ .start)
  exact if_pos (.inr brings)

theorem leader_lands (clock : Time) (db : Db) (keys current : RemoteKeys)
    (replaced : List RemoteKeys) :
    Lib.Serves (S := lookups s addr) (fun _ => True) ⟨.flying clock db addr.stored, current, replaced⟩
      [⟨.cachePut addr.stored keys, ()⟩, ⟨.land 0 (.ok keys), ()⟩]
      ⟨.landed clock db addr.stored keys, current, replaced⟩ :=
  .cons Oracle.ok trivial rfl (.cons Oracle.ok trivial rfl .start)

/-- A call joins a flight that came back before the keys were replaced. -/
theorem joined_late (addr : Address) (clock : Time) (db : Db)
    (brings : s.keysIn answer = some keys) (new : RemoteKeys) : ∃ (c₁ c₂ c : Calls s addr) (t : Lib.Thread (lookups s addr)),
    Lib.Run (fun _ _ => True) (Calls.start s addr clock db keys) c₁ ∧
    c₁.step (.arrive true) = some c₂ ∧ Lib.Run (fun _ _ => True) c₂ c ∧
    c.threads[c₁.threads.length]? = some t ∧ t.rest = .ret (.ok keys) ∧
    c₁.shared.current = new ∧ c₁.shared.replaced = [keys] ∧
    c.shared.current = new ∧ c.shared.replaced = [keys] := by
  have allows (reqs : List Bool) : Lib.Allows (S := lookups s addr) (fun _ _ => True) reqs
      fun _ => True :=
    fun _ _ _ _ _ => trivial
  have fresh : Lib.Run (fun _ _ => True) (Calls.start s addr clock db keys)
    (Calls.start s addr clock db keys) := .start
  have ran := fresh.request true (allows _) trivial
      (leader_serves addr clock db brings) (leader_resumes 0 brings)
  -- the keys are replaced, and the call begins
  let leader : Lib.Thread (lookups s addr) := ⟨true,
    [⟨.join addr.stored, (true, 0)⟩, ⟨.get (s.pubkeyURL addr), answer⟩],
    .ask (.cachePut addr.stored keys) fun _ => .ask (.land 0 (.ok keys)) fun _ => .ret (.ok keys)⟩
  let c₁ : Calls s addr := ⟨⟨.flying clock db addr.stored, new, [keys]⟩, [leader]⟩
  let c₂ : Calls s addr := ⟨c₁.shared, [leader, Lib.Thread.start true]⟩
  have run₁ : Lib.Run (fun _ _ => True) (Calls.start s addr clock db keys) c₁ :=
    ran.next (l := .drift (Change.keys new)) trivial rfl
  have joins : Lib.Serves (S := lookups s addr) (fun _ => True) c₁.shared
      [⟨.join addr.stored, (false, 0)⟩] c₁.shared := by
    refine .cons Oracle.ok trivial ?_ .start
    simp [lookups, Remote.serve, serve, World.underWay, World.flying, c₁]
  have waits : Lib.Serves (S := lookups s addr) (fun _ => True)
      ⟨.landed clock db addr.stored keys, new, [keys]⟩ [⟨.wait 0, .ok keys⟩]
      ⟨.landed clock db addr.stored keys, new, [keys]⟩ :=
    .cons Oracle.ok trivial rfl .start
  have begun : Lib.Run (fun _ _ => True) c₂ c₂ := .start
  have joined := begun.advance (i := 1) (allows _) rfl
    joins (waiter_resumes 0)
  have landed := joined.advance (i := 0) (allows _) rfl
    (leader_lands clock db keys new [keys])
    (resumes_ask (.cachePut addr.stored keys) () (resumes_ask (.land 0 (.ok keys)) () .start))
  have run := landed.advance (i := 1) (allows _) rfl waits (resumes_ask (.wait 0) (.ok keys) .start)
  exact ⟨c₁, c₂, _, _, run₁, rfl, run, rfl, rfl, rfl, rfl, rfl, rfl⟩

/-- Nothing but the call's own steps and changes. -/
def NoOther (_ : Calls s addr) (lab : Lib.Label (lookups s addr)) : Prop := ∀ r, lab ≠ .arrive r

/-- A call that is alone joins no flight of another one. -/
theorem joinsCurrent_of_alone {clock : Time} {db : Db} {keys₀ : RemoteKeys} {c₂ c : Calls s addr}
    (arrived : (Calls.start s addr clock db keys₀).step (.arrive true) = some c₂)
    (run : Lib.Run NoOther c₂ c) :
    Lib.Run (JoinsCurrent s addr (Calls.start s addr clock db keys₀)) c₂ c := by
  have one : ∀ c : Calls s addr, Lib.Run NoOther c₂ c → c.threads.length = 1 := by
    intro c run
    refine run.invariant (fun c : Calls s addr => c.threads.length = 1) ?_ ?_ ?_
      (fun _ _ _ _ h _ _ => h)
    · cases arrived
      rfl
    · exact fun c r _ _ others => absurd rfl (others r)
    · intro c i o t q k a w _ h _ acts
      exact List.length_set.trans h
  refine run.strengthen fun c lab later _ o n mine pending _ t mem keys back => ?_
  have whole : Lib.Run (fun _ _ => True) (Calls.start s addr clock db keys₀) c :=
    (Lib.Run.start.next trivial arrived).trans (later.weaken fun _ _ _ => trivial)
  obtain ⟨t₀, mem₀, -, k, rest⟩ := Lib.Config.thread_of_pending pending
  obtain ⟨t₁, threads⟩ := List.length_eq_one_iff.mp (one c later)
  rw [threads] at mem mem₀
  obtain rfl := List.mem_singleton.mp mem
  obtain rfl := List.mem_singleton.mp mem₀
  obtain ⟨-, url, answer, got, -⟩ := back
  have none_ : Asking s addr t₀.log (.join addr.stored) :=
    asking whole (threads ▸ List.mem_cons_self) rest
  exact absurd got (none_ url answer)

end

namespace Sample

/-- Carol's keys at her instance, before and after she rotates. -/
def firstKeys : RemoteKeys := ⟨utf8 "b2xkLWtlbQ", utf8 "b2xkLXNpZw"⟩
def secondKeys : RemoteKeys := ⟨utf8 "bmV3LWtlbQ", utf8 "bmV3LXNpZw"⟩

def keysText (k : RemoteKeys) : Bytes :=
  ((Protocol.JsonObj.str ⟨[]⟩ (utf8 "kem_pubkey") k.kem).str (utf8 "sig_pubkey") k.sig).done

def keysServer : Server :=
  { server [] [] [] [] with
    json := { json [] [] [] with keys := fun raw => [firstKeys, secondKeys].find? fun k => keysText k == raw } }

theorem carol_named : utf8 "carol" = [] ∨ Protocol.validUsername (utf8 "carol") = true :=
  .inr (by decide)

theorem carol_hosted : false = false ∨ utf8 "carol" = [] →
    Protocol.validDomain (utf8 "c.example") = true := fun _ => by decide

def carolThere : Address := ⟨utf8 "carol", utf8 "c.example", false, carol_named, carol_hosted⟩

theorem keysIn_first : keysServer.keysIn (some (200, keysText firstKeys)) = some firstKeys := by
  decide +kernel

/-- The call finds no flight, asks by itself, and returns what it gets. -/
theorem fresh_lookup_is_fresh_alone : ∃ (c₂ c : Calls keysServer carolThere)
    (t : Lib.Thread (lookups keysServer carolThere)),
    (Calls.start keysServer carolThere (clock 0) db firstKeys).step (.arrive true) = some c₂ ∧
    c.threads = [t] ∧ t.rest = .ret (.ok firstKeys) ∧ c.shared.CurrentSince [] firstKeys := by
  have allows : Lib.Allows (S := lookups keysServer carolThere) NoOther [true] fun _ => True :=
    fun _ _ _ others _ => others
  let start : Calls keysServer carolThere := Calls.start keysServer carolThere (clock 0) db firstKeys
  let c₂ : Calls keysServer carolThere := ⟨start.shared, [Lib.Thread.start true]⟩
  have served := (leader_serves carolThere (clock 0) db keysIn_first).trans
    (leader_lands (clock 0) db firstKeys firstKeys [])
  have resumes := (leader_resumes 0 keysIn_first).trans
    (resumes_ask (.cachePut carolThere.stored firstKeys) ()
      (resumes_ask (.land 0 (.ok firstKeys)) () .start))
  have begun : Lib.Run NoOther c₂ c₂ := .start
  have run := begun.advance (i := 0) allows rfl served resumes
  exact ⟨c₂, _, _, rfl, rfl, rfl, fresh_lookup_is_fresh _ _ _ _ _ start c₂ _ .start rfl
    (joinsCurrent_of_alone rfl run) _ rfl _ rfl⟩

/-- **Carol's old keys are returned** to a fresh call that began after she rotated. -/
theorem stale_keys_returned : ∃ (c₁ c₂ c : Calls keysServer carolThere)
    (t : Lib.Thread (lookups keysServer carolThere)),
    Lib.Run (fun _ _ => True) (Calls.start keysServer carolThere (clock 0) db firstKeys) c₁ ∧
    c₁.step (.arrive true) = some c₂ ∧ Lib.Run (fun _ _ => True) c₂ c ∧
    c.threads[c₁.threads.length]? = some t ∧ t.rest = .ret (.ok firstKeys) ∧
    ¬ c.shared.CurrentSince c₁.shared.replaced firstKeys := by
  obtain ⟨c₁, c₂, c, t, run₁, arrived, run₂, thread, returned, -, replaced₁, current, replaced⟩ :=
    joined_late carolThere (clock 0) db keysIn_first secondKeys
  refine ⟨c₁, c₂, c, t, run₁, arrived, run₂, thread, returned, ?_⟩
  rintro ⟨new, split, mem⟩
  rw [current, replaced, replaced₁] at split
  obtain rfl : [secondKeys] = new := List.append_cancel_right split
  exact absurd (List.mem_singleton.mp mem) (by decide)

end Sample

end Shyake.Go
