import Shyake.Lib.Program

/-!
# Programs running side by side

A `Service` starts a program for every request that arrives and serves the
questions of all running programs from one shared state. A step is: a request
arrives, one program gets one answer, or the state drifts by itself (the clock).
Which program moves, and what an answer depends on besides the state, is part of
the step's label, so a run is any interleaving under any such choices.

`Run ok c₀ c` is a run from `c₀` to `c` whose steps all meet the side condition
`ok` of the configuration before them; `fun _ _ => True` is no condition.
`Run.invariant` is the one induction on runs, with a premise for each kind of
step. `Run.guarded` carries a fact about the programs (`Prog.Meets`) to every
thread of every run.
-/

namespace Shyake.Lib

structure Service where
  I : Interface
  State : Type
  Req : Type
  Resp : Type
  /-- What an answer depends on besides the state. -/
  Oracle : Type
  /-- How the state can move with no program moving. -/
  Drift : Type
  handler : Req → Prog I Resp
  /-- Answer a question; `none` when it has no answer in this state yet. -/
  serve : State → (q : I.Query) → Oracle → Option (I.Answer q × State)
  drift : State → Drift → Option State

variable {S : Service}

/-- A running program: its request, what it asked and learned, and what is left of it. -/
structure Thread (S : Service) where
  req : S.Req
  log : List (Event S.I)
  rest : Prog S.I S.Resp

structure Config (S : Service) where
  shared : S.State
  threads : List (Thread S)

inductive Label (S : Service) where
  | arrive (r : S.Req)
  | act (i : Nat) (o : S.Oracle)
  | drift (d : S.Drift)

namespace Thread

def start (r : S.Req) : Thread S := ⟨r, [], S.handler r⟩

def answered (t : Thread S) (q : S.I.Query) (k : S.I.Answer q → Prog S.I S.Resp)
    (a : S.I.Answer q) : Thread S :=
  ⟨t.req, t.log ++ [⟨q, a⟩], k a⟩

end Thread

namespace Config

def init (s : S.State) : Config S := ⟨s, []⟩

def step (c : Config S) : Label S → Option (Config S)
  | .arrive r => some { c with threads := c.threads ++ [Thread.start r] }
  | .act i o =>
    match c.threads[i]? with
    | none => none
    | some t =>
      match t.rest with
      | .ret _ => none
      | .ask q k =>
        match S.serve c.shared q o with
        | none => none
        | some (a, s) => some ⟨s, c.threads.set i (t.answered q k a)⟩
  | .drift d =>
    match S.drift c.shared d with
    | none => none
    | some s => some { c with shared := s }

/-- One answer given to thread `i`: everything such a step consists of. -/
structure Acts (c : Config S) (i : Nat) (o : S.Oracle) (t : Thread S) (q : S.I.Query)
    (k : S.I.Answer q → Prog S.I S.Resp) (a : S.I.Answer q) (s : S.State) : Prop where
  thread : c.threads[i]? = some t
  rest : t.rest = .ask q k
  served : S.serve c.shared q o = some (a, s)

/-- The request whose thread a step moves, and the question it is waiting for. -/
def pending (c : Config S) : Label S → Option (S.Req × S.I.Query)
  | .act i _ =>
    match c.threads[i]? with
    | some ⟨r, _, .ask q _⟩ => some (r, q)
    | _ => none
  | _ => none

theorem thread_of_pending {c : Config S} {l : Label S} {r : S.Req} {q : S.I.Query}
    (h : c.pending l = some (r, q)) : ∃ t ∈ c.threads, t.req = r ∧ ∃ k, t.rest = .ask q k := by
  unfold pending at h
  split at h
  · split at h
    · rename_i thread
      cases h
      exact ⟨_, List.mem_of_getElem? thread, rfl, _, rfl⟩
    · cases h
  · cases h

/-- What a step can be. -/
theorem step_cases {c c' : Config S} {l : Label S} (h : c.step l = some c') :
    (∃ r, l = .arrive r ∧ c' = { c with threads := c.threads ++ [Thread.start r] }) ∨
    (∃ i o t q k a s, l = .act i o ∧ Acts c i o t q k a s ∧
      c' = ⟨s, c.threads.set i (t.answered q k a)⟩) ∨
    (∃ d s, l = .drift d ∧ S.drift c.shared d = some s ∧ c' = { c with shared := s }) := by
  cases l with
  | arrive r => exact .inl ⟨r, rfl, by simpa [step] using h.symm⟩
  | act i o =>
    simp only [step] at h
    split at h
    · cases h
    · rename_i t ht
      split at h
      · cases h
      · rename_i q k hr
        split at h
        · cases h
        · rename_i a s hs
          exact .inr (.inl ⟨i, o, t, q, k, a, s, rfl, ⟨ht, hr, hs⟩, by simpa using h.symm⟩)
  | drift d =>
    simp only [step] at h
    split at h
    · cases h
    · rename_i s hs
      exact .inr (.inr ⟨d, s, rfl, hs, by simpa using h.symm⟩)

variable {c : Config S} {i : Nat} {o : S.Oracle} {t : Thread S} {q : S.I.Query}
  {k : S.I.Answer q → Prog S.I S.Resp} {a : S.I.Answer q} {s : S.State}

theorem step_drift {d : S.Drift} (moved : S.drift c.shared d = some s) :
    c.step (.drift d) = some { c with shared := s } := by
  simp only [step, moved]

theorem step_act (thread : c.threads[i]? = some t) (rest : t.rest = .ask q k)
    (served : S.serve c.shared q o = some (a, s)) :
    c.step (.act i o) = some ⟨s, c.threads.set i (t.answered q k a)⟩ := by
  simp only [step, thread, rest, served]

namespace Acts

theorem mem (acts : Acts c i o t q k a s) : t ∈ c.threads := List.mem_of_getElem? acts.thread

theorem pending (acts : Acts c i o t q k a s) : c.pending (.act i o) = some (t.req, q) := by
  obtain ⟨r, l, rest⟩ := t
  have rest := acts.rest
  dsimp only at rest
  subst rest
  simp only [Config.pending, acts.thread]

/-- Every thread is still there, with at least its log. -/
theorem extends_log (acts : Acts c i o t q k a s) : ∀ t₀ ∈ c.threads,
    ∃ t₁ ∈ c.threads.set i (t.answered q k a), t₁.req = t₀.req ∧ t₀.log <+: t₁.log := by
  intro t₀ mem
  obtain ⟨j, hj⟩ := List.mem_iff_getElem?.mp mem
  by_cases same : i = j
  · subst same
    obtain rfl : t = t₀ := Option.some.inj (acts.thread.symm.trans hj)
    refine ⟨_, List.mem_set ?_ _, rfl, List.prefix_append _ _⟩
    exact (List.getElem?_eq_some_iff.mp acts.thread).1
  · refine ⟨t₀, List.mem_iff_getElem?.mpr ⟨j, ?_⟩, rfl, List.prefix_rfl⟩
    rw [List.getElem?_set_ne same, hj]

/-- What stands at a place of thread `j`'s log stood there before or was just added. -/
theorem log_at (acts : Acts c i o t q k a s) {j p : Nat} {t' : Thread S} {e : Event S.I}
    (here : (c.threads.set i (t.answered q k a))[j]? = some t') (he : t'.log[p]? = some e) :
    (∃ t₀, c.threads[j]? = some t₀ ∧ t₀.req = t'.req ∧ t₀.log[p]? = some e) ∨
      (j = i ∧ p = t.log.length) ∧ t'.req = t.req ∧ e = ⟨q, a⟩ := by
  by_cases same : i = j
  · subst same
    rw [List.getElem?_set_self (List.getElem?_eq_some_iff.mp acts.thread).1] at here
    obtain rfl := Option.some.inj here
    change (t.log ++ [⟨q, a⟩])[p]? = some e at he
    rcases Nat.lt_or_ge p t.log.length with lt | ge
    · rw [List.getElem?_append_left lt] at he
      exact .inl ⟨t, acts.thread, rfl, he⟩
    · rw [List.getElem?_append_right ge] at he
      obtain ⟨lt, rfl⟩ := List.getElem?_eq_some_iff.mp he
      rw [List.length_singleton] at lt
      exact .inr ⟨⟨rfl, by omega⟩, rfl, List.mem_singleton.mp (List.getElem_mem _)⟩
  · rw [List.getElem?_set_ne same] at here
    exact .inl ⟨t', here, rfl, he⟩

/-- An event in some log is an old one or the one just added. -/
theorem mem_log (acts : Acts c i o t q k a s) {t' : Thread S} {e : Event S.I}
    (mem : t' ∈ c.threads.set i (t.answered q k a)) (he : e ∈ t'.log) :
    (∃ t₀ ∈ c.threads, t₀.req = t'.req ∧ e ∈ t₀.log) ∨ t' = t.answered q k a ∧ e = ⟨q, a⟩ := by
  rcases List.mem_or_eq_of_mem_set mem with old | rfl
  · exact .inl ⟨t', old, rfl, he⟩
  · rcases List.mem_append.mp he with old | new
    · exact .inl ⟨t, acts.mem, rfl, old⟩
    · exact .inr ⟨rfl, List.mem_singleton.mp new⟩

end Acts

end Config

/-- A run from `c₀` whose steps meet `ok`. -/
inductive Run (ok : Config S → Label S → Prop) (c₀ : Config S) : Config S → Prop where
  | start : Run ok c₀ c₀
  | next {c c' : Config S} {l : Label S} (before : Run ok c₀ c) (cond : ok c l)
      (step : c.step l = some c') : Run ok c₀ c'

namespace Run

variable {ok ok' : Config S → Label S → Prop} {c₀ c : Config S}

/-- **The invariant rule**: one premise for each kind of step. -/
theorem invariant (Inv : Config S → Prop) (run : Run ok c₀ c) (init : Inv c₀)
    (arrive : ∀ c r, Run ok c₀ c → Inv c → ok c (.arrive r) →
      Inv { c with threads := c.threads ++ [Thread.start r] })
    (act : ∀ c i o t q k a s, Run ok c₀ c → Inv c → ok c (.act i o) →
      Config.Acts c i o t q k a s → Inv ⟨s, c.threads.set i (t.answered q k a)⟩)
    (drift : ∀ c d s, Run ok c₀ c → Inv c → ok c (.drift d) →
      S.drift c.shared d = some s → Inv { c with shared := s }) : Inv c := by
  induction run with
  | start => exact init
  | @next c c' l before cond step ih =>
    obtain ⟨r, rfl, rfl⟩ | ⟨i, o, t, q, k, a, s, rfl, acts, rfl⟩ | ⟨d, s, rfl, moved, rfl⟩ :=
      Config.step_cases step
    · exact arrive c r before ih cond
    · exact act c i o t q k a s before ih cond acts
    · exact drift c d s before ih cond moved

/-- The steps of a run also meet what follows from the run before them. -/
theorem strengthen (run : Run ok c₀ c) (h : ∀ c l, Run ok c₀ c → ok c l → ok' c l) :
    Run ok' c₀ c := by
  induction run with
  | start => exact .start
  | next before cond step ih => exact .next ih (h _ _ before cond) step

theorem weaken (run : Run ok c₀ c) (h : ∀ c l, ok c l → ok' c l) : Run ok' c₀ c :=
  run.strengthen fun c l _ => h c l

/-- A run goes on. -/
theorem trans {c₁ : Config S} (run : Run ok c₀ c₁) (later : Run ok c₁ c) : Run ok c₀ c := by
  induction later with
  | start => exact run
  | next _ cond step ih => exact ih.next cond step

/-- Every thread keeps its place and its log. -/
theorem grows (run : Run ok c₀ c) : ∀ (i : Nat) (t₀ : Thread S), c₀.threads[i]? = some t₀ →
    ∃ t, c.threads[i]? = some t ∧ t.req = t₀.req ∧ t₀.log <+: t.log := by
  refine run.invariant (fun c => ∀ (i : Nat) (t₀ : Thread S), c₀.threads[i]? = some t₀ →
    ∃ t, c.threads[i]? = some t ∧ t.req = t₀.req ∧ t₀.log <+: t.log) ?_ ?_ ?_
    (fun _ _ _ _ h _ _ => h)
  · intro i t₀ here
    exact ⟨t₀, here, rfl, List.prefix_rfl⟩
  · intro c r _ h _ i t₀ here
    obtain ⟨t, thread, req, pre⟩ := h i t₀ here
    have lt : i < c.threads.length := (List.getElem?_eq_some_iff.mp thread).1
    exact ⟨t, by rw [List.getElem?_append_left lt, thread], req, pre⟩
  · intro c j o t q k a s _ h _ acts i t₀ here
    obtain ⟨t', thread, req, pre⟩ := h i t₀ here
    by_cases same : j = i
    · subst same
      obtain rfl : t = t' := Option.some.inj (acts.thread.symm.trans thread)
      have lt : j < c.threads.length := (List.getElem?_eq_some_iff.mp thread).1
      exact ⟨t.answered q k a, List.getElem?_set_self lt, req,
        pre.trans (List.prefix_append _ _)⟩
    · exact ⟨t', by rw [List.getElem?_set_ne same, thread], req, pre⟩

/-- A thread that has returned stays as it is. -/
theorem settled (run : Run ok c₀ c) {i : Nat} {t : Thread S} {r : S.Resp}
    (thread : c₀.threads[i]? = some t) (done : t.rest = .ret r) : c.threads[i]? = some t := by
  refine run.invariant (fun c => c.threads[i]? = some t) thread ?_ ?_ (fun _ _ _ _ h _ _ => h)
  · intro c r _ h _
    rw [List.getElem?_append_left (List.getElem?_eq_some_iff.mp h).1, h]
  · intro c j o t' q k a s _ h _ acts
    have ne : j ≠ i := by
      rintro rfl
      obtain rfl : t = t' := Option.some.inj (h.symm.trans acts.thread)
      cases done.symm.trans acts.rest
    rw [List.getElem?_set_ne ne, h]

/-- Every thread is its handler, resumed after its log. -/
theorem resumes (run : Run ok (.init s₀) c) :
    ∀ t ∈ c.threads, (S.handler t.req).Resumes t.log t.rest := by
  refine run.invariant (fun c => ∀ t ∈ c.threads, (S.handler t.req).Resumes t.log t.rest)
    (by simp [Config.init]) ?_ ?_ (fun _ _ _ _ h _ _ => h)
  · intro c r _ h _ t mem
    rcases List.mem_append.mp mem with old | new
    · exact h t old
    · obtain rfl := List.mem_singleton.mp new
      exact .start
  · intro c i o t q k a s _ h _ acts t' mem
    rcases List.mem_or_eq_of_mem_set mem with old | rfl
    · exact h t' old
    · have before := h t (List.mem_of_getElem? acts.thread)
      rw [acts.rest] at before
      exact before.snoc a

/-- Every answer in a log was given by the state of an earlier point of the run. -/
theorem served (run : Run ok (.init s₀) c) : ∀ t ∈ c.threads, ∀ e ∈ t.log,
    ∃ c' o s', Run ok (.init s₀) c' ∧ S.serve c'.shared e.query o = some (e.answer, s') := by
  refine run.invariant (fun c => ∀ t ∈ c.threads, ∀ e ∈ t.log,
    ∃ c' o s', Run ok (.init s₀) c' ∧ S.serve c'.shared e.query o = some (e.answer, s'))
    (by simp [Config.init]) ?_ ?_ (fun _ _ _ _ h _ _ => h)
  · intro c r _ h _ t mem e he
    rcases List.mem_append.mp mem with old | new
    · exact h t old e he
    · obtain rfl := List.mem_singleton.mp new
      cases he
  · intro c i o t q k a s before h _ acts t' mem e he
    rcases List.mem_or_eq_of_mem_set mem with old | rfl
    · exact h t' old e he
    · rcases List.mem_append.mp he with old | new
      · exact h t (List.mem_of_getElem? acts.thread) e old
      · obtain rfl := List.mem_singleton.mp new
        exact ⟨c, o, s, before, acts.served⟩

variable {G : S.Req → List (Event S.I) → S.I.Query → Prop}
  {Q : S.Req → List (Event S.I) → S.Resp → Prop}

/-- A fact about every handler holds of every thread of every run. -/
theorem guarded (run : Run ok (.init s₀) c) (h : ∀ r, (S.handler r).Meets (G r) (Q r) []) :
    ∀ t ∈ c.threads, t.rest.Meets (G t.req) (Q t.req) t.log :=
  fun t mem => (h t.req).resumes (run.resumes t mem)

/-- The same, for the questions already in the log. -/
theorem logged (run : Run ok (.init s₀) c) (h : ∀ r, (S.handler r).Meets (G r) (Q r) []) :
    ∀ t ∈ c.threads, ∀ l e, l ++ [e] <+: t.log → G t.req l e.query :=
  fun t mem => (h t.req).logged (run.resumes t mem)

/-- No two events of the logs clash. -/
def Apart (Clash : S.Req → Event S.I → S.Req → Event S.I → Prop) (c : Config S) : Prop :=
  ∀ (i j p p' : Nat) (t t' : Thread S), (i, p) ≠ (j, p') → c.threads[i]? = some t →
    c.threads[j]? = some t' → ∀ e e', t.log[p]? = some e → t'.log[p']? = some e' →
      ¬ Clash t.req e t'.req e'

/-- **The rule for pairs**: no events clash if no new event clashes with one already there. -/
theorem apart {Clash : S.Req → Event S.I → S.Req → Event S.I → Prop}
    (symm : ∀ r e r' e', Clash r e r' e' → Clash r' e' r e) (run : Run ok (.init s₀) c)
    (act : ∀ c i o t q k a s, Run ok (.init s₀) c → ok c (.act i o) →
      Config.Acts c i o t q k a s → ∀ t' ∈ c.threads, ∀ e' ∈ t'.log, ¬ Clash t.req ⟨q, a⟩ t'.req e') :
    Apart Clash c := by
  refine run.invariant (Apart Clash) ?_ ?_ ?_ (fun _ _ _ _ h _ _ => h)
  · intro i j p p' t t' _ hi
    cases hi
  · intro c r _ h _ i j p p' t t' ne hi hj e e' he he'
    have old : ∀ {i p : Nat} {t : Thread S} {e : Event S.I},
        (c.threads ++ [Thread.start r])[i]? = some t → t.log[p]? = some e →
          c.threads[i]? = some t := by
      intro i p t e here he
      rcases Nat.lt_or_ge i c.threads.length with lt | ge
      · rwa [List.getElem?_append_left lt] at here
      · rw [List.getElem?_append_right ge] at here
        obtain rfl := List.mem_singleton.mp (List.mem_of_getElem? here)
        cases he
    exact h i j p p' t t' ne (old hi he) (old hj he') e e' he he'
  · intro c n o t₀ q k a s before h cond acts i j p p' t t' ne hi hj e e' he he'
    rcases acts.log_at hi he with ⟨t₁, h₁, req, he₁⟩ | ⟨⟨rfl, rfl⟩, req, rfl⟩
    · rcases acts.log_at hj he' with ⟨t₂, h₂, req', he₂⟩ | ⟨⟨rfl, rfl⟩, req', rfl⟩
      · rw [← req, ← req']
        exact h i j p p' t₁ t₂ ne h₁ h₂ e e' he₁ he₂
      · rw [← req, req']
        exact fun clash => act c j o t₀ q k a s before cond acts t₁ (List.mem_of_getElem? h₁) e
          (List.mem_of_getElem? he₁) (symm _ _ _ _ clash)
    · rcases acts.log_at hj he' with ⟨t₂, h₂, req', he₂⟩ | ⟨⟨rfl, rfl⟩, -⟩
      · rw [req, ← req']
        exact act c i o t₀ q k a s before cond acts t₂ (List.mem_of_getElem? h₂) e'
          (List.mem_of_getElem? he₂)
      · exact absurd rfl ne

end Run

/-! ## Making runs -/

/-- Events served one after another from `s`, with drifts in between, in states that meet `P`. -/
inductive Serves (P : S.State → Prop) (s : S.State) : List (Event S.I) → S.State → Prop where
  | start : Serves P s [] s
  | event {l : List (Event S.I)} {s₁ s₂ : S.State} {q : S.I.Query} {a : S.I.Answer q}
      (before : Serves P s l s₁) (o : S.Oracle) (cond : P s₁)
      (served : S.serve s₁ q o = some (a, s₂)) : Serves P s (l ++ [⟨q, a⟩]) s₂
  | drift {l : List (Event S.I)} {s₁ s₂ : S.State} (before : Serves P s l s₁) (d : S.Drift)
      (cond : P s₁) (moved : S.drift s₁ d = some s₂) : Serves P s l s₂

namespace Serves

variable {P : S.State → Prop} {s s₁ s₂ : S.State} {l l' : List (Event S.I)}

theorem trans (h : Serves P s l s₁) (h' : Serves P s₁ l' s₂) : Serves P s (l ++ l') s₂ := by
  induction h' with
  | start => rwa [List.append_nil]
  | event _ o cond served ih =>
    rw [← List.append_assoc]
    exact ih.event o cond served
  | drift _ d cond moved ih => exact ih.drift d cond moved

/-- One event, then the rest. -/
theorem cons {q : S.I.Query} {a : S.I.Answer q} (o : S.Oracle) (cond : P s)
    (served : S.serve s q o = some (a, s₁)) (rest : Serves P s₁ l s₂) :
    Serves P s (⟨q, a⟩ :: l) s₂ :=
  (Serves.start.event o cond served).trans rest

/-- The state between two parts of a log. -/
theorem append_inv (h : Serves P s (l ++ l') s₂) :
    ∃ s₁, Serves P s l s₁ ∧ Serves P s₁ l' s₂ := by
  generalize hl : l ++ l' = m at h
  induction h generalizing l' with
  | start =>
    obtain ⟨rfl, rfl⟩ := List.append_eq_nil_iff.mp hl
    exact ⟨s, .start, .start⟩
  | @event m s₁ s₂ q a before o cond served ih =>
    rcases List.eq_nil_or_concat l' with rfl | ⟨l₀, e, rfl⟩
    · rw [List.append_nil] at hl
      subst hl
      exact ⟨s₂, before.event o cond served, .start⟩
    · rw [List.concat_eq_append, ← List.append_assoc] at hl
      obtain ⟨rfl, last⟩ := List.append_inj' hl rfl
      cases last
      obtain ⟨s', first, second⟩ := ih rfl
      rw [List.concat_eq_append]
      exact ⟨s', first, second.event o cond served⟩
  | drift _ d cond moved ih =>
    obtain ⟨s', first, second⟩ := ih hl
    exact ⟨s', first, second.drift d cond moved⟩

/-- An invariant that the questions of the log and the drifts keep. -/
theorem invariant (Inv : S.State → Prop) (h : Serves P s l s₂) (init : Inv s)
    (serve : ∀ s₀ o s₁, ∀ e ∈ l, Inv s₀ → S.serve s₀ e.query o = some (e.answer, s₁) → Inv s₁)
    (drift : ∀ s₀ d s₁, Inv s₀ → S.drift s₀ d = some s₁ → Inv s₁) : Inv s₂ := by
  induction h with
  | start => exact init
  | event before o cond served ih =>
    have first := ih fun s₀ o s₁ e mem => serve s₀ o s₁ e (List.mem_append_left _ mem)
    exact serve _ o _ _ (List.mem_append_right _ List.mem_cons_self) first served
  | drift _ d cond moved ih => exact drift _ d _ (ih serve) moved

/-- The states around one event; the rest is drifts. -/
theorem single_inv {e : Event S.I} (h : Serves P s [e] s₂) : ∃ s₀ o s₁, Serves P s [] s₀ ∧
    S.serve s₀ e.query o = some (e.answer, s₁) ∧ Serves P s₁ [] s₂ := by
  generalize hl : [e] = m at h
  induction h with
  | start => cases hl
  | @event m s₁ s₂ q a before o cond served ih =>
    obtain ⟨rfl, last⟩ := List.append_inj' (show [] ++ [e] = m ++ [⟨q, a⟩] from hl) rfl
    cases last
    exact ⟨s₁, o, s₂, before, served, .start⟩
  | drift before d cond moved ih =>
    obtain ⟨s₀, o, s₁, first, served, later⟩ := ih hl
    exact ⟨s₀, o, s₁, first, served, later.drift d cond moved⟩

/-- Every event of the log was served in a state that meets the invariant. -/
theorem served_of_mem (Inv : S.State → Prop) (h : Serves P s l s₂) (init : Inv s)
    (serve : ∀ s₀ o s₁, ∀ e ∈ l, Inv s₀ → S.serve s₀ e.query o = some (e.answer, s₁) → Inv s₁)
    (drift : ∀ s₀ d s₁, Inv s₀ → S.drift s₀ d = some s₁ → Inv s₁) {e : Event S.I} (mem : e ∈ l) :
    ∃ s₀ o s₁, Inv s₀ ∧ S.serve s₀ e.query o = some (e.answer, s₁) := by
  obtain ⟨l₀, l₁, rfl⟩ := List.append_of_mem mem
  obtain ⟨s', first, later⟩ := h.append_inv
  obtain ⟨s₂', here, -⟩ := Serves.append_inv (l := [e]) later
  obtain ⟨s₀, o, s₁, before, served, -⟩ := here.single_inv
  have inv : Inv s' := first.invariant Inv init
    (fun s₀ o s₁ e mem => serve s₀ o s₁ e (List.mem_append_left _ mem)) drift
  exact ⟨s₀, o, s₁, before.invariant Inv inv (by simp) drift, served⟩

end Serves

/-- While the requests are `reqs` and the state meets `P`, every step but an arrival is allowed. -/
def Allows (ok : Config S → Label S → Prop) (reqs : List S.Req) (P : S.State → Prop) : Prop :=
  ∀ c l, c.threads.map Thread.req = reqs → (∀ r, l ≠ .arrive r) → P c.shared → ok c l

namespace Run

variable {ok : Config S → Label S → Prop} {c₀ c : Config S} {P : S.State → Prop}

/-- A thread keeps its request. -/
theorem map_req_set {i : Nat} {t t' : Thread S} (thread : c.threads[i]? = some t)
    (req : t'.req = t.req) : (c.threads.set i t').map Thread.req = c.threads.map Thread.req := by
  obtain ⟨lt, rfl⟩ := List.getElem?_eq_some_iff.mp thread
  rw [List.map_set, req]
  exact (congrArg _ (List.getElem_map Thread.req).symm).trans (List.set_getElem_self (by simpa))

/-- One thread runs alone for a while. -/
theorem advance (run : Run ok c₀ c) (allows : Allows ok (c.threads.map Thread.req) P) {i : Nat}
    {t : Thread S} (thread : c.threads[i]? = some t) {l : List (Event S.I)} {s : S.State}
    {r : Prog S.I S.Resp} (served : Serves P c.shared l s) (resumes : t.rest.Resumes l r) :
    Run ok c₀ ⟨s, c.threads.set i ⟨t.req, t.log ++ l, r⟩⟩ := by
  induction served generalizing r with
  | start =>
    obtain rfl := resumes.nil_inv
    have same : c.threads.set i ⟨t.req, t.log ++ [], t.rest⟩ = c.threads := by
      obtain ⟨lt, rfl⟩ := List.getElem?_eq_some_iff.mp thread
      rw [List.append_nil]
      exact List.set_getElem_self lt
    rwa [same]
  | @event l s₁ s₂ q a before o cond served ih =>
    obtain ⟨k, until_, rfl⟩ := resumes.snoc_inv
    refine (ih until_).next (l := .act i o)
      (allows _ _ (map_req_set thread rfl) (by simp) cond) ?_
    have lt : i < c.threads.length := (List.getElem?_eq_some_iff.mp thread).1
    simp only [Config.step, List.getElem?_set_self lt, served, Thread.answered, List.set_set,
      List.append_assoc]
  | @drift l s₁ s₂ before d cond moved ih =>
    refine (ih resumes).next (l := .drift d)
      (allows _ _ (map_req_set thread rfl) (by simp) cond) ?_
    simp only [Config.step, moved]

/-- A request arrives and its thread runs alone for a while. -/
theorem request (run : Run ok c₀ c) (req : S.Req)
    (allows : Allows ok (c.threads.map Thread.req ++ [req]) P) (cond : ok c (.arrive req))
    {l : List (Event S.I)} {s : S.State} {r : Prog S.I S.Resp}
    (served : Serves P c.shared l s) (resumes : (S.handler req).Resumes l r) :
    Run ok c₀ ⟨s, c.threads ++ [⟨req, l, r⟩]⟩ := by
  have arrived := run.next (l := .arrive req) cond rfl
  have ran := arrived.advance (P := P) (i := c.threads.length) (t := Thread.start req)
    (by simpa [Thread.start] using allows) (by simp) served resumes
  simpa [Thread.start] using ran

end Run

end Shyake.Lib
