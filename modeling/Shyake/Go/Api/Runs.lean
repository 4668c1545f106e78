import Shyake.Go.Api.Specs

/-!
# What holds in every run

The facts about names and about the clock that the results on runs share: every
username is valid, what a thread read of a user is of that name, and the readings of
a thread are in order.
-/

namespace Shyake.Go

open Protocol (validUsername)

abbrev State (s : Server) := Lib.Config (service s)

/-- The server of a fresh process, over a database. -/
abbrev State.start (s : Server) (clock : Time) (db : Db) : State s :=
  Lib.Config.init (World.init clock db)

/-- Runs with no condition on their steps. -/
def anyStep (s : Server) (_ : State s) (_ : Lib.Label (service s)) : Prop := True

/-! ## Names -/

/-- Every user has a valid name; only `register` makes users, and it checks. -/
def Named (db : Db) : Prop := ∀ u ∈ db.users, validUsername u.username = true

instance (db : Db) : Decidable (Named db) := inferInstanceAs (Decidable (∀ u ∈ db.users, _))

theorem Named.exec {db : Db} {st : Stmt} (h : Named db)
    (created : ∀ u, st = .createUser u → validUsername u.username = true) :
    Named (db.exec st).2 := by
  intro v mem
  rcases Db.mem_users_exec mem with old | ⟨rfl, -⟩ | ⟨u, old, name, -⟩
  · exact h v old
  · exact created v rfl
  · exact name ▸ h u old

/-- What a row read by name is. -/
theorem served_getUser {w w' : World} {username : Bytes} {u : User}
    (h : Served w (.db (.getUser username)) (.ok u) w') : u ∈ w.db.users ∧ u.username = username := by
  generalize ha : (.ok u : Except StoreError User) = a at h
  cases h with
  | db => exact Db.getUser_ok.mp ha.symm
  | dbError => cases ha

section

variable {s : Server} {c : State s} {ok : State s → Lib.Label (service s) → Prop} {clock : Time}
  {db : Db}

/-- What the question a step answers rests on. -/
theorem guard_of_pending (run : Lib.Run ok (State.start s clock db) c) {lab : Lib.Label (service s)}
    {r : Request} {q : Query} (pending : c.pending lab = some (r, q)) :
    ∃ t ∈ c.threads, t.req = r ∧ Guard s r t.log q := by
  obtain ⟨t, mem, rfl, k, rest⟩ := Lib.Config.thread_of_pending pending
  have guard := run.guarded (handler_guarded s) t mem
  rw [rest] at guard
  exact ⟨t, mem, rfl, guard.1⟩

theorem named (names : Named db) (run : Lib.Run ok (State.start s clock db) c) :
    Named c.shared.db := by
  refine run.invariant (fun c : State s => Named c.shared.db) names (fun _ _ _ h _ => h) ?_ ?_
  · intro c i o t q k a w before h _ acts
    have guard := before.guarded (handler_guarded s) t acts.mem
    rw [acts.rest] at guard
    have served : Served c.shared q a w := served_of_serve acts.served
    cases served with
    | db st =>
      refine h.exec fun u e => ?_
      subst e
      exact guard.1.1
    | _ => exact h
  · intro c d w _ h _ moved
    change drift c.shared d = some w at moved
    unfold drift at moved
    split at moved
    · cases moved
      exact h
    · cases moved

theorem read_user (names : Named db) (run : Lib.Run ok (State.start s clock db) c)
    {t : Lib.Thread (service s)} (mem : t ∈ c.threads) {username : Bytes} {u : User}
    (read : Log.Has t.log (.db (.getUser username)) (.ok u)) :
    u.username = username ∧ validUsername username = true := by
  obtain ⟨c', o, w, before, served⟩ := run.served t mem _ read
  obtain ⟨here, name⟩ := served_getUser (served_of_serve served)
  exact ⟨name, name ▸ named names before u here⟩

/-- Nothing but a statement touches the database. -/
theorem served_dbState {w w' : World} {q : Query} {a : Answer q} (h : Served w q a w') :
    w'.db = w.db ∨ ∃ st, q = .db st ∧ w'.db = (w.db.exec st).2 := by
  cases h with
  | db st => exact .inr ⟨st, rfl, rfl⟩
  | _ => exact .inl rfl

/-- A statement is executed, or it fails and has no effect. -/
theorem served_db {w w' : World} {st : Stmt} {a : Except StoreError st.Result}
    (h : Served w (.db st) a w') :
    a = (w.db.exec st).1 ∧ w'.db = (w.db.exec st).2 ∨ a = .error .other ∧ w'.db = w.db := by
  cases h with
  | db => exact .inl ⟨rfl, rfl⟩
  | dbError => exact .inr ⟨rfl, rfl⟩

/-! ## The clock -/

/-- Readings are in order, and none is ahead of the clock. -/
structure Ordered (c : State s) : Prop where
  readings : ∀ t ∈ c.threads, ∀ now, Log.Has t.log .now now → now ≤ c.shared.clock
  order : ∀ t ∈ c.threads, ∀ l now, l ++ [⟨.now, now⟩] <+: t.log →
    ∀ earlier, Log.Has l .now earlier → earlier ≤ now

/-- The clock stays behind only when it drifts. -/
theorem served_clock {w w' : World} {q : Query} {a : Answer q} (h : Served w q a w') :
    w'.clock = w.clock := by
  cases h <;> rfl

theorem drift_clock {w w' : World} {d : Time} (h : drift w d = some w') :
    w.clock ≤ w'.clock ∧ w'.seen = w.seen ∧ w'.db = w.db := by
  unfold drift at h
  split at h
  · rename_i le
    cases h
    exact ⟨le, rfl, rfl⟩
  · cases h

theorem ordered (run : Lib.Run ok (State.start s clock db) c) : Ordered c := by
  refine run.invariant Ordered ?_ ?_ ?_ ?_
  · constructor <;> simp [State.start, Lib.Config.init]
  · intro c r _ h _
    constructor
    · intro t mem now has
      rcases List.mem_append.mp mem with old | new
      · exact h.readings t old now has
      · obtain rfl := List.mem_singleton.mp new
        cases has
    · intro t mem l now pre earlier has
      rcases List.mem_append.mp mem with old | new
      · exact h.order t old l now pre earlier has
      · obtain rfl := List.mem_singleton.mp new
        exact absurd (List.prefix_nil.mp pre) (List.append_ne_nil_of_right_ne_nil _ (by simp))
  · intro c i o t q k a w _ h _ acts
    have served : Served c.shared q a w := served_of_serve acts.served
    constructor
    · intro t' mem now has
      show now ≤ w.clock
      rw [served_clock served]
      rcases acts.mem_log mem has with ⟨t₀, mem₀, -, old⟩ | ⟨-, new⟩
      · exact h.readings t₀ mem₀ now old
      · obtain ⟨rfl, new⟩ := Lib.Event.mk.inj new
        obtain rfl := eq_of_heq new
        cases served
        exact Time.le_refl _
    · intro t' mem l now pre earlier has
      rcases List.mem_or_eq_of_mem_set mem with old | rfl
      · exact h.order t' old l now pre earlier has
      · rcases List.prefix_concat_iff.mp pre with same | short
        · obtain ⟨rfl, new⟩ := List.append_inj' same rfl
          obtain ⟨rfl, new⟩ := Lib.Event.mk.inj (List.cons.inj new).1
          obtain rfl := eq_of_heq new
          cases served
          exact h.readings t acts.mem earlier has
        · exact h.order t acts.mem l now short earlier has
  · intro c d w _ h _ moved
    obtain ⟨le, -⟩ := drift_clock moved
    exact ⟨fun t mem now has => Time.le_trans (h.readings t mem now has) le, h.order⟩

/-- A signature is added to the set at a time between the start of its window and now. -/
theorem time_of_seenAdd (run : Lib.Run ok (State.start s clock db) c)
    {t : Lib.Thread (service s)} (mem : t ∈ c.threads) {l : Log} (k : Bytes) (at_ : Time)
    (new : Bool) (pre : l ++ [⟨.seenAdd k at_, new⟩] <+: t.log) :
    at_ ≤ c.shared.clock ∧ (t.req.route ≠ .register →
      ∀ n, parseInt t.req.timestamp = some n → (n - window) * 1000000000 ≤ at_.ns) := by
  obtain ⟨l₀, rfl, within⟩ := run.logged (handler_guarded s) t mem l _ pre
  have pre₀ : l₀ ++ [⟨.now, at_⟩] <+: t.log := (List.prefix_append _ _).trans pre
  have order := ordered run
  refine ⟨order.readings t mem at_ ((Log.has_last l₀ _ _).mono pre₀), fun route n parsed => ?_⟩
  obtain ⟨reading, read, n', parsed', inside, -⟩ := within route
  obtain rfl : n = n' := Option.some.inj (parsed.symm.trans parsed')
  have le : reading.ns ≤ at_.ns := order.order t mem l₀ at_ pre₀ reading read
  unfold Time.unix window at *
  omega

/-! ## What has been used -/

/-- A set of what requests have used: where it is, and the event of adding a key to it. -/
structure UsedSet where
  get : World → TtlSet
  added : Bytes → Time → Bool → Lib.Event Effects
  added_inj : ∀ {k k' : Bytes} {at_ at_' : Time} {new new' : Bool},
    added k at_ new = added k' at_' new' → k = k' ∧ at_ = at_' ∧ new = new'
  served : ∀ {w w' : World} {q : Query} {a : Answer q}, Served w q a w' →
    get w' = get w ∧ (∀ k at_ new, (⟨q, a⟩ : Lib.Event Effects) ≠ added k at_ new) ∨
    ∃ k at_, (⟨q, a⟩ : Lib.Event Effects) = added k at_ ((get w).add k at_).1 ∧
      get w' = ((get w).add k at_).2
  drift : ∀ {w w' : World} {d : Time}, Shyake.Go.drift w d = some w' → get w' = get w
  reading : ∀ {s : Server} {r : Request} {l : Log} {q : Query} {a : Answer q} {k : Bytes}
    {at_ : Time} {new : Bool}, Guard s r l q → (⟨q, a⟩ : Lib.Event Effects) = added k at_ new →
    l.Has .now at_

/-- The signatures. -/
def seenSet : UsedSet where
  get w := w.seen
  added k at_ new := ⟨.seenAdd k at_, new⟩
  added_inj same := by
    cases same
    exact ⟨rfl, rfl, rfl⟩
  served h := by
    cases h with
    | seenAdd k now => exact .inr ⟨k, now, rfl, rfl⟩
    | _ => exact .inl ⟨rfl, fun _ _ _ same => by cases same⟩
  drift h := (drift_clock h).2.1
  reading guard same := by
    cases same
    obtain ⟨l₀, rfl, -⟩ := guard
    exact Log.has_last _ _ _

/-- The proof-of-work tokens. -/
def spentSet : UsedSet where
  get w := w.spent
  added k at_ new := ⟨.spentAdd k at_, new⟩
  added_inj same := by
    cases same
    exact ⟨rfl, rfl, rfl⟩
  served h := by
    cases h with
    | spentAdd k now => exact .inr ⟨k, now, rfl, rfl⟩
    | _ => exact .inl ⟨rfl, fun _ _ _ same => by cases same⟩
  drift h := by
    unfold Shyake.Go.drift at h
    split at h
    · cases h
      rfl
    · cases h
  reading guard same := by
    cases same
    obtain ⟨token, user, l₀, l₁, reading, -, -, rfl, -⟩ := guard
    exact List.mem_append_right _ List.mem_cons_self

variable {U : UsedSet} {ttl max : Nat}

/-- Every key added so far is remembered. -/
structure Remembered (U : UsedSet) (ttl max : Nat) (c : State s) : Prop where
  ttl : (U.get c.shared).ttl = ttl
  max : (U.get c.shared).max = max
  remembers : ∀ t ∈ c.threads, ∀ k at_, U.added k at_ true ∈ t.log →
    (U.get c.shared).Remembers k at_ c.shared.clock

theorem remembered (run : Lib.Run ok (State.start s clock db) c)
    (start : U.get (World.init clock db) = TtlSet.new ttl max) (pos : 0 < ttl)
    (few : ∀ c lab, ok c lab → (U.get c.shared).cur.length < max) : Remembered U ttl max c := by
  refine run.invariant (Remembered U ttl max) ?_ ?_ ?_ ?_
  · exact ⟨congrArg TtlSet.ttl start, congrArg TtlSet.max start,
      by simp [State.start, Lib.Config.init]⟩
  · intro c r _ h _
    refine ⟨h.ttl, h.max, fun t mem k at_ has => ?_⟩
    rcases List.mem_append.mp mem with old | new
    · exact h.remembers t old k at_ has
    · obtain rfl := List.mem_singleton.mp new
      cases has
  · intro c i o t q k a w before h cond acts
    have served : Served c.shared q a w := served_of_serve acts.served
    have guard := before.guarded (handler_guarded s) t acts.mem
    rw [acts.rest] at guard
    rcases U.served served with ⟨same, other⟩ | ⟨key, now, event, added⟩
    · refine ⟨same ▸ h.ttl, same ▸ h.max, fun t' mem key at_ has => ?_⟩
      show (U.get w).Remembers key at_ w.clock
      rw [same, served_clock served]
      rcases acts.mem_log mem has with ⟨t₀, mem₀, -, old⟩ | ⟨-, new⟩
      · exact h.remembers t₀ mem₀ key at_ old
      · exact absurd new.symm (other key at_ true)
    · have room : (U.get c.shared).cur.length < (U.get c.shared).max := by
        rw [h.max]
        exact few c _ cond
      have le : now ≤ c.shared.clock :=
        (ordered before).readings t acts.mem now (U.reading guard.1 event)
      refine ⟨?_, ?_, fun t' mem key' at_ has => ?_⟩
      · show (U.get w).ttl = _
        rw [added, TtlSet.add_ttl, h.ttl]
      · show (U.get w).max = _
        rw [added, TtlSet.add_max, h.max]
      show (U.get w).Remembers key' at_ w.clock
      rw [added, served_clock served]
      rcases acts.mem_log mem has with ⟨t₀, mem₀, -, old⟩ | ⟨-, new⟩
      · exact (h.remembers t₀ mem₀ key' at_ old).add room le
      · obtain ⟨rfl, rfl, accepted⟩ := U.added_inj (new.trans event)
        exact TtlSet.remembers_add (by rw [h.ttl]; exact pos) accepted.symm
  · intro c d w _ h _ moved
    obtain ⟨le, -⟩ := drift_clock moved
    have same := U.drift moved
    exact ⟨same ▸ h.ttl, same ▸ h.max,
      fun t mem k at_ has => same ▸ (h.remembers t mem k at_ has).later le⟩

/-- A key is added again only after it has been forgotten. -/
theorem forgotten_of_added (run : Lib.Run ok (State.start s clock db) c)
    (mem : Remembered U ttl max c) (few : (U.get c.shared).cur.length < max) {i : Nat} {o : Oracle}
    {t : Lib.Thread (service s)} {q : Query} {k : Answer q → Handler Reply} {a : Answer q}
    {w : World} (acts : Lib.Config.Acts c i o t q k a w) {key : Bytes} {now : Time}
    (new : (⟨q, a⟩ : Lib.Event Effects) = U.added key now true) :
    ∀ t' ∈ c.threads, ∀ at_, U.added key at_ true ∈ t'.log → at_.ns + ttl < c.shared.clock.ns := by
  intro t' mem' at_ has
  have served : Served c.shared q a w := served_of_serve acts.served
  have guard := run.guarded (handler_guarded s) t acts.mem
  rw [acts.rest] at guard
  have le : now ≤ c.shared.clock :=
    (ordered run).readings t acts.mem now (U.reading guard.1 new)
  rcases U.served served with ⟨-, other⟩ | ⟨key', now', event, -⟩
  · exact absurd new (other key now true)
  · obtain ⟨rfl, rfl, accepted⟩ := U.added_inj (new.symm.trans event)
    have late := (mem.remembers t' mem' key at_ has).refused (by rw [mem.max]; exact few) le
      accepted.symm
    rwa [mem.ttl] at late

end

end Shyake.Go
