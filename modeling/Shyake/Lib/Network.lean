import Mathlib.Logic.Function.Basic
import Mathlib.Logic.Relation
import Shyake.Lib.Interleave

/-!
# Services that call one another

A `Network` has a service at every node. Some questions of its programs are messages:
while such a question waits for its answer, the message may arrive at another node,
or at the same one, as a request. `cause` remembers for every thread that came about
so which thread sent the message; it decides nothing.

`Run.node` makes a run of the network one of each of its nodes, so that what is known
of a service alone holds of it here.
-/

namespace Shyake.Lib

structure Network where
  Node : Type
  service : Node → Service
  Message : Type
  /-- The message a question sends. -/
  sends : (n : Node) → (service n).I.Query → Option Message
  /-- The request that a message is at a node it reaches. -/
  receives : Message → (n : Node) → Option (service n).Req

namespace Thread

variable {S : Service}

/-- The questions a thread has asked, with the one that is open. -/
def asked (t : Thread S) : List S.I.Query :=
  t.log.map Event.query ++ match t.rest with
    | .ask q _ => [q]
    | .ret _ => []

theorem mem_asked {t : Thread S} {q : S.I.Query} (h : q ∈ t.asked) :
    (∃ e ∈ t.log, e.query = q) ∨ ∃ k, t.rest = .ask q k := by
  rcases List.mem_append.mp h with old | new
  · exact .inl (List.mem_map.mp old)
  · refine .inr ?_
    split at new
    · rename_i k rest
      obtain rfl := List.mem_singleton.mp new
      exact ⟨k, rest⟩
    · cases new

theorem asked_last {t : Thread S} {q : S.I.Query} {k : S.I.Answer q → Prog S.I S.Resp}
    (rest : t.rest = .ask q k) : t.asked[t.log.length]? = some q := by
  unfold asked
  rw [List.getElem?_append_right (by simp), rest]
  simp

/-- What a guard says of every question, at some log up to now. -/
theorem asked_guarded {t : Thread S} {p : Prog S.I S.Resp}
    {G : List (Event S.I) → S.I.Query → Prop} {Q : List (Event S.I) → S.Resp → Prop}
    (h : p.Meets G Q []) (resumes : p.Resumes t.log t.rest) :
    ∀ q ∈ t.asked, ∃ l, l <+: t.log ∧ G l q := by
  intro q mem
  rcases mem_asked mem with ⟨e, he, rfl⟩ | ⟨k, rest⟩
  · obtain ⟨l₀, l₁, same⟩ := List.append_of_mem he
    have pre : l₀ ++ [e] <+: t.log := ⟨l₁, by rw [same, List.append_assoc]; rfl⟩
    exact ⟨l₀, (List.prefix_append _ _).trans pre, h.logged resumes l₀ e pre⟩
  · have left := h.resumes resumes
    rw [rest] at left
    exact ⟨t.log, List.prefix_rfl, left.1⟩

/-- A question that is asked at most once stands at one place. -/
theorem asked_unique {t : Thread S} {p : Prog S.I S.Resp} {A : S.I.Query → Prop} (once : p.Once A)
    (resumes : p.Resumes t.log t.rest) : ∀ (i j : Nat) (q q' : S.I.Query),
    t.asked[i]? = some q → t.asked[j]? = some q' → A q → A q' → i = j := by
  -- the open question is not one that has been answered
  have last : ∀ {i j : Nat} {q q' : S.I.Query}, i < t.log.length → ¬ j < t.log.length →
      t.asked[i]? = some q → t.asked[j]? = some q' → A q → ¬ A q' := by
    intro i j q q' lt ge hi hj yes
    unfold asked at hi hj
    rw [List.getElem?_append_left (by simpa using lt), List.getElem?_map] at hi
    rw [List.getElem?_append_right (by simpa using Nat.not_lt.mp ge)] at hj
    obtain ⟨e, he, rfl⟩ := Option.map_eq_some_iff.mp hi
    have asks := (once.resumes resumes).2 ⟨e, List.mem_of_getElem? he, yes⟩
    split at hj
    · rename_i rest
      obtain rfl := List.mem_singleton.mp (List.mem_of_getElem? hj)
      rw [rest] at asks
      exact asks.1
    · simp at hj
  intro i j q q' hi hj yes yes'
  by_cases lt : i < t.log.length <;> by_cases lt' : j < t.log.length
  · unfold asked at hi hj
    rw [List.getElem?_append_left (by simpa using lt), List.getElem?_map] at hi
    rw [List.getElem?_append_left (by simpa using lt'), List.getElem?_map] at hj
    obtain ⟨e, he, rfl⟩ := Option.map_eq_some_iff.mp hi
    obtain ⟨e', he', rfl⟩ := Option.map_eq_some_iff.mp hj
    exact once.unique resumes i j e e' he he' yes yes'
  · exact absurd yes' (last lt lt' hi hj yes)
  · exact absurd yes (last lt' lt hj hi yes')
  · have bound : t.asked.length ≤ t.log.length + 1 := by
      unfold asked
      rw [List.length_append, List.length_map]
      split <;> simp
    have hi := (List.getElem?_eq_some_iff.mp hi).1
    have hj := (List.getElem?_eq_some_iff.mp hj).1
    omega

end Thread

namespace Network

/-- A node and the number of one of its threads. -/
abbrev Place (N : Network) := N.Node × Nat

structure Config (N : Network) where
  nodes : (n : N.Node) → Lib.Config (N.service n)
  cause : N.Place → Option N.Place

inductive Label (N : Network) where
  /-- A step of one node by itself, or a request to it from outside. -/
  | act (n : N.Node) (l : Lib.Label (N.service n))
  /-- The message a thread is sending arrives at a node. -/
  | deliver (p : N.Place) (n : N.Node)

variable {N : Network} [DecidableEq N.Node]

def Config.start (s : (n : N.Node) → (N.service n).State) : Config N :=
  ⟨fun n => Lib.Config.init (s n), fun _ => none⟩

inductive Step (c : Config N) : Label N → Config N → Prop where
  | act {n : N.Node} {l : Lib.Label (N.service n)} {d : Lib.Config (N.service n)}
      (step : (c.nodes n).step l = some d) :
      Step c (.act n l) { c with nodes := Function.update c.nodes n d }
  | deliver {p : N.Place} {t : Thread (N.service p.1)} {q : (N.service p.1).I.Query}
      {k : (N.service p.1).I.Answer q → Prog (N.service p.1).I (N.service p.1).Resp}
      {m : N.Message} {n : N.Node} {r : (N.service n).Req} {d : Lib.Config (N.service n)}
      (thread : (c.nodes p.1).threads[p.2]? = some t) (rest : t.rest = .ask q k)
      (sent : N.sends p.1 q = some m) (received : N.receives m n = some r)
      (step : (c.nodes n).step (.arrive r) = some d) :
      Step c (.deliver p n) ⟨Function.update c.nodes n d,
        Function.update c.cause (n, (c.nodes n).threads.length) (some p)⟩

namespace Step

variable {c c' : Config N} {l : Label N}

/-- What a step is at one node. -/
theorem node (h : Step c l c') (n : N.Node) : c'.nodes n = c.nodes n ∨
    ∃ l', (c.nodes n).step l' = some (c'.nodes n) ∧ ((∃ r, l' = .arrive r) ∨ l = .act n l') := by
  cases h with
  | @act n' l d step =>
    show Function.update c.nodes n' d n = _ ∨ _
    by_cases same : n' = n
    · subst same
      refine .inr ⟨l, ?_, .inr rfl⟩
      show _ = some (Function.update c.nodes n' d n')
      rw [Function.update_self, step]
    · exact .inl (Function.update_of_ne (Ne.symm same) _ _)
  | @deliver p t q k m n' r d thread rest sent received step =>
    show Function.update c.nodes n' d n = _ ∨ _
    by_cases same : n' = n
    · subst same
      refine .inr ⟨.arrive r, ?_, .inl ⟨r, rfl⟩⟩
      show _ = some (Function.update c.nodes n' d n')
      rw [Function.update_self, step]
    · exact .inl (Function.update_of_ne (Ne.symm same) _ _)

/-- Threads are only added. -/
theorem length_le (h : Step c l c') (n : N.Node) :
    (c.nodes n).threads.length ≤ (c'.nodes n).threads.length := by
  rcases h.node n with same | ⟨l', moved, -⟩
  · exact Nat.le_of_eq (congrArg (fun d => d.threads.length) same.symm)
  · rcases Lib.Config.step_cases moved with ⟨r, -, made⟩ | ⟨i, o, t, q, k, a, s, -, -, made⟩ |
      ⟨_, s, -, -, made⟩
    · simp [made]
    · simp [made]
    · simp [made]

/-- A cause is an old one, or that of a thread that has just come. -/
theorem cause (h : Step c l c') (p : N.Place) : c'.cause p = c.cause p ∨
    (c.nodes p.1).threads.length ≤ p.2 ∧ p.2 < (c'.nodes p.1).threads.length := by
  cases h with
  | act => exact .inl rfl
  | @deliver p' t q k m n r d thread rest sent received step =>
    by_cases new : p = (n, (c.nodes n).threads.length)
    · subst new
      refine .inr ⟨Nat.le_refl _, ?_⟩
      show _ < (Function.update c.nodes n d n).threads.length
      have arrived : d = { c.nodes n with threads := (c.nodes n).threads ++ [Thread.start r] } :=
        (Option.some.inj step).symm
      rw [Function.update_self, arrived, List.length_append]
      exact Nat.lt_succ_self _
    · exact .inl (Function.update_of_ne new _ _)

end Step

inductive Run (ok : Config N → Label N → Prop) (c₀ : Config N) : Config N → Prop where
  | start : Run ok c₀ c₀
  | next {c c' : Config N} {l : Label N} (before : Run ok c₀ c) (cond : ok c l)
      (step : Step c l c') : Run ok c₀ c'

/-- The threads that a thread has brought about, itself among them. -/
def Config.Caused (c : Config N) : N.Place → N.Place → Prop :=
  Relation.ReflTransGen fun p p' => c.cause p' = some p

/-- The thread at a place sends a message with its question number `i`. -/
def Config.SendsAt (c : Config N) (p : N.Place) (i : Nat) : Prop :=
  ∃ t q, (c.nodes p.1).threads[p.2]? = some t ∧ t.asked[i]? = some q ∧ (N.sends p.1 q).isSome

namespace Run

variable {ok : Config N → Label N → Prop} {c₀ c : Config N}

/-- A run of the network is one of each node. -/
theorem node (run : Run ok c₀ c) (n : N.Node) :
    Lib.Run (fun _ _ => True) (c₀.nodes n) (c.nodes n) := by
  induction run with
  | start => exact .start
  | next before cond step ih =>
    rcases step.node n with same | ⟨l, moved, -⟩
    · rw [same]
      exact ih
    · exact ih.next trivial moved

/-- One node moves on by itself. -/
theorem acts (run : Run ok c₀ c) (n : N.Node)
    {ok' : Lib.Config (N.service n) → Lib.Label (N.service n) → Prop} {d : Lib.Config (N.service n)}
    (alone : Lib.Run ok' (c.nodes n) d)
    (allowed : ∀ c' l, c'.cause = c.cause → ok' (c'.nodes n) l → ok c' (.act n l)) :
    ∃ c', Run ok c₀ c' ∧ c'.nodes n = d ∧ (∀ n', n' ≠ n → c'.nodes n' = c.nodes n') ∧
      c'.cause = c.cause := by
  induction alone with
  | start => exact ⟨c, run, rfl, fun _ _ => rfl, rfl⟩
  | @next d d' l before cond step ih =>
    obtain ⟨c', run', here, others, cause⟩ := ih
    subst here
    refine ⟨_, run'.next (allowed c' l cause cond) (.act step), Function.update_self _ _ _,
      fun n' ne => ?_, cause⟩
    exact (Function.update_of_ne ne _ _).trans (others n' ne)

/-- The message of a thread arrives. -/
theorem delivers (run : Run ok c₀ c) {p : N.Place} {n : N.Node} (allowed : ok c (.deliver p n))
    {t : Thread (N.service p.1)} (thread : (c.nodes p.1).threads[p.2]? = some t)
    {q : (N.service p.1).I.Query}
    {k : (N.service p.1).I.Answer q → Prog (N.service p.1).I (N.service p.1).Resp}
    (rest : t.rest = .ask q k) {m : N.Message} (sent : N.sends p.1 q = some m)
    {r : (N.service n).Req} (received : N.receives m n = some r) :
    ∃ c', Run ok c₀ c' ∧
      c'.nodes n = { c.nodes n with threads := (c.nodes n).threads ++ [Thread.start r] } ∧
      (∀ n', n' ≠ n → c'.nodes n' = c.nodes n') ∧
      c'.cause (n, (c.nodes n).threads.length) = some p :=
  ⟨_, run.next allowed (.deliver thread rest sent received rfl), Function.update_self _ _ _,
    fun _ ne => Function.update_of_ne ne _ _, Function.update_self _ _ _⟩

/-- **What a thread that was brought about has learned**: every answer to it has met the side
condition of its step. -/
theorem caused_logged {P : (n : N.Node) → (N.service n).Req → Event (N.service n).I → Prop}
    {s : (n : N.Node) → (N.service n).State} (run : Run ok (Config.start s) c)
    (answer : ∀ (c : Config N) (n : N.Node) i o t q k a s, ok c (.act n (.act i o)) →
      Lib.Config.Acts (c.nodes n) i o t q k a s → c.cause (n, i) ≠ none → P n t.req ⟨q, a⟩) :
    ∀ n j t, (c.nodes n).threads[j]? = some t → c.cause (n, j) ≠ none → ∀ e ∈ t.log,
      P n t.req e := by
  induction run with
  | start =>
    intro n j t here
    simp [Config.start, Lib.Config.init] at here
  | @next c c' l before cond step ih =>
    intro n j t here caused e mem
    -- a thread that has just come has learned nothing
    have old : c.cause (n, j) ≠ none ∨ (c.nodes n).threads[j]? = none := by
      rcases step.cause (n, j) with same | ⟨new, -⟩
      · exact .inl (same ▸ caused)
      · exact .inr (List.getElem?_eq_none new)
    rcases step.node n with same | ⟨l', moved, which⟩
    · rw [same] at here
      rcases old with old | absent
      · exact ih n j t here old e mem
      · rw [absent] at here
        cases here
    · rcases Lib.Config.step_cases moved with ⟨r, rfl, made⟩ | ⟨i, o, t', q, k, a, s', rfl, acts, made⟩ |
        ⟨d, s', rfl, -, made⟩
      · rw [made] at here
        rcases Nat.lt_or_ge j (c.nodes n).threads.length with lt | ge
        · rw [List.getElem?_append_left lt] at here
          rcases old with old | absent
          · exact ih n j t here old e mem
          · rw [absent] at here
            cases here
        · rw [List.getElem?_append_right ge] at here
          obtain rfl := List.mem_singleton.mp (List.mem_of_getElem? here)
          cases mem
      · rw [made] at here
        obtain ⟨p, he⟩ := List.mem_iff_getElem?.mp mem
        rcases acts.log_at here he with ⟨t₀, before, req, he⟩ | ⟨⟨rfl, -⟩, req, rfl⟩
        · rw [← req]
          rcases old with old | absent
          · exact ih n j t₀ before old e (List.mem_of_getElem? he)
          · rw [absent] at before
            cases before
        · rw [req]
          rcases old with old | absent
          · rcases which with ⟨r, e⟩ | rfl
            · cases e
            · exact answer c n j o t' q k a s' cond acts old
          · rw [acts.thread] at absent
            cases absent
      · rw [made] at here
        rcases old with old | absent
        · exact ih n j t here old e mem
        · rw [absent] at here
          cases here

/-- **One message for each request from outside**, where every program sends at most one and a
thread that was brought about sends none. -/
theorem one_send {s : (n : N.Node) → (N.service n).State} (run : Run ok (Config.start s) c)
    (once : ∀ n r, ((N.service n).handler r).Once fun q => (N.sends n q).isSome = true)
    (quiet : ∀ n j t, (c.nodes n).threads[j]? = some t → c.cause (n, j) ≠ none → ∀ q ∈ t.asked,
      N.sends n q = none) {root p p' : N.Place} {i i' : Nat} (caused : c.Caused root p)
    (caused' : c.Caused root p') (sends : c.SendsAt p i) (sends' : c.SendsAt p' i') :
    (p, i) = (p', i') := by
  have isRoot : ∀ {p : N.Place} {i : Nat}, c.Caused root p → c.SendsAt p i → p = root := by
    intro p i caused ⟨t, q, thread, asked, sent⟩
    rcases Relation.ReflTransGen.cases_tail caused with same | ⟨p₀, -, from_⟩
    · exact same
    · have none := quiet p.1 p.2 t thread (by rw [from_]; exact Option.some_ne_none p₀) q
        (List.mem_of_getElem? asked)
      rw [none] at sent
      cases sent
  obtain rfl := isRoot caused sends
  obtain rfl := isRoot caused' sends'
  obtain ⟨t, q, thread, asked, sent⟩ := sends
  obtain ⟨t', q', thread', asked', sent'⟩ := sends'
  obtain rfl := Option.some.inj (thread.symm.trans thread')
  have resumes := (run.node p'.1).resumes t (List.mem_of_getElem? thread)
  rw [t.asked_unique (once p'.1 t.req) resumes i i' q q' asked asked' sent sent']

end Run

end Network

end Shyake.Lib
