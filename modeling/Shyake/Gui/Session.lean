import Mathlib.Logic.Function.Basic
import Shyake.Client.Rotate

/-!
# Sessions of the GUI (`Session` of `webui/src/ffi.ts`, the handlers of `webui/src/server.ts`)

A handler runs up to its next `await`, and what it awaits is a library call that its session puts
on a chain. Passphrases are set, contexts freed and sessions replaced beside the chain. An event
is one handler up to its `await`, one call of one chain, or one handler after its `await`, in any
order. `bun:ffi` hands a string to the library as its bytes before the first NUL.
-/

namespace Shyake.Gui

open Client

/-! ## Calls of the library -/

inductive MailFn where
  | send
  | check
  | fetch
  | burn
  | saveMail
  | readSaved
  | listSaved
  | block
  | listBlocks
  | fingerprint

/-- What a session puts on its chain. A rotation carries the `newPassphrase` of its request. -/
inductive Task where
  | generateKeys
  | register
  | verifyKey
  | mail (fn : MailFn)
  | rotate (newPassphrase : Bytes)
  | destroy

/-- The functions of the library that get a context. -/
inductive Fn where
  | freeCtx
  | lastError
  | setPassphrase
  | setNewPassphrase
  | task (t : Task)

/-- A call of the library, with what is in memory at its context when it is made. -/
structure Call where
  fn : Fn
  ctx : Nat
  found : Option Ctx

structure Session where
  /-- 0 once it is closed. -/
  ctx : Nat
  queue : List Task

/-- What is left of a handler behind its `await`. -/
inductive Continuation where
  /-- `/api/setup` has its keys. -/
  | generated (s : Nat)
  | registered (s : Nat)
  | unlocked (s : Nat)
  /-- The `catch` of `/api/setup` and `/api/unlock`. -/
  | failed (s : Nat)
  | destroyed

structure State where
  /-- The contexts that have not been freed. -/
  memory : Nat → Option Ctx
  sessions : Nat → Session
  /-- How many `Session`s there have been. -/
  count : Nat
  /-- The variable `session` of the server. -/
  session : Option Nat
  ready : List Continuation
  calls : List Call

def initial : State := ⟨fun _ => none, fun _ => ⟨0, []⟩, 0, none, [], []⟩

/-! ## `Session` -/

namespace State

variable (st : State)

def call (fn : Fn) (ctx : Nat) : State :=
  { st with calls := st.calls ++ [⟨fn, ctx, st.memory ctx⟩] }

/-- The constructor. `malloc` gives an address that is not in use, or the library returns NULL. -/
def newSession (address : Nat) (ctx : Ctx) : Option (Nat × State) :=
  if address = 0 ∨ (st.memory address).isSome then none
  else some (st.count, { st with
    memory := Function.update st.memory address (some ctx)
    sessions := Function.update st.sessions st.count ⟨address, []⟩
    count := st.count + 1 })

def close (s : Nat) : State :=
  let ctx := (st.sessions s).ctx
  if ctx ≠ 0 then
    let st := st.call .freeCtx ctx
    { st with
      memory := Function.update st.memory ctx none
      sessions := Function.update st.sessions s { st.sessions s with ctx := 0 } }
  else st

/-- `run`. -/
def run (s : Nat) (t : Task) : State :=
  { st with
    sessions := Function.update st.sessions s
      { st.sessions s with queue := (st.sessions s).queue ++ [t] } }

/-- A function that writes to the context, and returns at once when it is NULL. -/
def write (fn : Fn) (s : Nat) (change : Ctx → Ctx) : State :=
  let ctx := (st.sessions s).ctx
  let st := st.call fn ctx
  if ctx = 0 then st
  else { st with memory := Function.update st.memory ctx ((st.memory ctx).map change) }

/-- The C string of what is null or a string. -/
def cstring (passphrase : Option Bytes) : Bytes := (passphrase.getD []).takeWhile (· != 0)

def setPassphrase (s : Nat) (passphrase : Option Bytes) : State :=
  st.write .setPassphrase s (·.setPassphrase (cstring passphrase))

def setNewPassphrase (s : Nat) (passphrase : Option Bytes) : State :=
  st.write .setNewPassphrase s (·.setNewPassphrase (cstring passphrase))

/-- The first call of the chain. What fails goes on to read the error text. -/
def runNext (s : Nat) (t : Task) (queue : List Task) (ok : Bool) : State :=
  let ctx := (st.sessions s).ctx
  let st := { st with sessions := Function.update st.sessions s ⟨ctx, queue⟩ }
  let st := st.call (.task t) ctx
  if ok then st else st.call .lastError ctx

/-- `session?.close()`. -/
def closeCurrent : State :=
  match st.session with
  | none => st
  | some s => st.close s

end State

/-! ## The handlers -/

inductive Event where
  | setup (address : Nat) (username : Bytes) (passphrase : Option Bytes) (keysExist : Bool)
  | unlock (address : Nat) (username : Bytes) (passphrase : Option Bytes)
  | lock
  | mail (fn : MailFn)
  | rotate (newPassphrase : Option Bytes)
  | destroy
  /-- The next call on the chain of session `s`, and whether it succeeds. -/
  | next (s : Nat) (ok : Bool)
  /-- The `n`th handler that waits goes on. `written` is whether the configuration can be
  written. -/
  | resume (n : Nat) (written : Bool)

/-- What waits for the call. -/
def Task.continuation (s : Nat) : Task → (ok : Bool) → Option Continuation
  | .generateKeys, true => some (.generated s)
  | .register, true => some (.registered s)
  | .verifyKey, true => some (.unlocked s)
  | .generateKeys, false => some (.failed s)
  | .register, false => some (.failed s)
  | .verifyKey, false => some (.failed s)
  | .destroy, true => some .destroyed
  | .destroy, false => none
  | .mail _, _ => none
  | .rotate _, _ => none

def goOn (st : State) (written : Bool) : Continuation → State
  | .generated s => st.run s .register
  | .registered s => if written then { st.closeCurrent with session := some s } else st
  | .unlocked s => { st.closeCurrent with session := some s }
  | .failed s => st.close s
  | .destroyed => { st.closeCurrent with session := none }

def step (configDir : Bytes) (st : State) : Event → State
  | .setup address username passphrase keysExist =>
    match st.newSession address ⟨configDir, username, [], []⟩ with
    | none => st
    | some (s, st) =>
      (st.setPassphrase s passphrase).run s (if keysExist then .register else .generateKeys)
  | .unlock address username passphrase =>
    match st.newSession address ⟨configDir, username, [], []⟩ with
    | none => st
    | some (s, st) => (st.setPassphrase s passphrase).run s .verifyKey
  | .lock => { st.closeCurrent with session := none }
  | .mail fn =>
    match st.session with
    | none => st
    | some s => st.run s (.mail fn)
  | .rotate newPassphrase =>
    match st.session with
    | none => st
    | some s => (st.setNewPassphrase s newPassphrase).run s (.rotate (newPassphrase.getD []))
  | .destroy =>
    match st.session with
    | none => st
    | some s => st.run s .destroy
  | .next s ok =>
    match (st.sessions s).queue with
    | [] => st
    | t :: queue =>
      let st := st.runNext s t queue ok
      { st with ready := st.ready ++ (t.continuation s ok).toList }
  | .resume n written =>
    match st.ready[n]? with
    | none => st
    | some k => goOn { st with ready := st.ready.eraseIdx n } written k

def runs (configDir : Bytes) (st : State) (events : List Event) : State :=
  events.foldl (step configDir) st

/-! ## Contexts and their sessions -/

/-- The call ran on a context that had not been freed, or on NULL. -/
def Call.Live (c : Call) : Prop := c.ctx = 0 ∨ c.found.isSome

/-- A rotation saves the new keys under the `newPassphrase` of its own request. -/
def Call.SavesOwn (c : Call) : Prop :=
  ∀ own ctx, c.fn = .task (.rotate own) → c.found = some ctx → ctx.newPassphrase = own

/-- Every open session has a context of its own that has not been freed. -/
structure Owned (st : State) : Prop where
  null : st.memory 0 = none
  live : ∀ s, (st.sessions s).ctx ≠ 0 → (st.memory (st.sessions s).ctx).isSome
  once : ∀ s t, (st.sessions s).ctx ≠ 0 → (st.sessions s).ctx = (st.sessions t).ctx → s = t
  calls : ∀ c ∈ st.calls, c.Live

/-- The context of a session that has rotations on its chain holds the passphrase they are for. -/
structure Own (st : State) : Prop where
  waiting : ∀ s own ctx, .rotate own ∈ (st.sessions s).queue →
    st.memory (st.sessions s).ctx = some ctx → ctx.newPassphrase = own
  calls : ∀ c ∈ st.calls, c.SavesOwn

section

variable {st : State}

theorem Owned.live_or_null (h : Owned st) (s : Nat) :
    (st.sessions s).ctx = 0 ∨ (st.memory (st.sessions s).ctx).isSome := by
  by_cases closed : (st.sessions s).ctx = 0
  · exact .inl closed
  · exact .inr (h.live s closed)

/-- Another address than that of an open session. -/
theorem Owned.ctx_ne (h : Owned st) {s t : Nat} (ne : t ≠ s) (opened : (st.sessions t).ctx ≠ 0) :
    (st.sessions t).ctx ≠ (st.sessions s).ctx :=
  fun same => ne (h.once t s opened same)

theorem Owned.call (h : Owned st) (fn : Fn) {ctx : Nat}
    (live : ctx = 0 ∨ (st.memory ctx).isSome) : Owned (st.call fn ctx) where
  null := h.null
  live := h.live
  once := h.once
  calls c mem := by
    rcases List.mem_append.mp mem with before | now
    · exact h.calls c before
    · rw [List.mem_singleton.mp now]
      exact live

theorem Owned.newSession (h : Owned st) {address s : Nat} {ctx : Ctx} {st' : State}
    (made : st.newSession address ctx = some (s, st')) : Owned st' := by
  unfold State.newSession at made
  by_cases taken : address = 0 ∨ (st.memory address).isSome
  · rw [if_pos taken] at made
    cases made
  rw [if_neg taken] at made
  obtain ⟨rfl, rfl⟩ := Prod.mk.inj (Option.some.inj made)
  obtain ⟨nonzero, free⟩ := not_or.mp taken
  have fresh : ∀ t, (st.sessions t).ctx ≠ 0 → (st.sessions t).ctx ≠ address :=
    fun t opened same => free (same ▸ h.live t opened)
  refine ⟨?_, fun t opened => ?_, fun t u opened same => ?_, h.calls⟩
  · dsimp only
    rw [Function.update_of_ne (Ne.symm nonzero)]
    exact h.null
  · dsimp only at opened ⊢
    by_cases new : t = st.count
    · subst new
      rw [Function.update_self, Function.update_self]
      rfl
    · rw [Function.update_of_ne new] at opened ⊢
      rw [Function.update_of_ne (fresh t opened)]
      exact h.live t opened
  · dsimp only at opened same
    by_cases newT : t = st.count
    · by_cases newU : u = st.count
      · exact newT.trans newU.symm
      · rw [newT, Function.update_self, Function.update_of_ne newU] at same
        exact absurd same.symm (fresh u (same ▸ nonzero))
    · rw [Function.update_of_ne newT] at opened same
      by_cases newU : u = st.count
      · rw [newU, Function.update_self] at same
        exact absurd same (fresh t opened)
      · rw [Function.update_of_ne newU] at same
        exact h.once t u opened same

theorem Owned.close (h : Owned st) (s : Nat) : Owned (st.close s) := by
  unfold State.close
  dsimp only
  by_cases opened : (st.sessions s).ctx = 0
  · rw [if_neg (not_not_intro opened)]
    exact h
  rw [if_pos opened]
  have called := h.call .freeCtx (h.live_or_null s)
  refine ⟨?_, fun t openedT => ?_, fun t u openedT same => ?_, called.calls⟩
  · dsimp only
    rw [Function.update_of_ne (Ne.symm opened)]
    exact h.null
  · dsimp only at openedT ⊢
    by_cases own : t = s
    · subst own
      rw [Function.update_self] at openedT
      exact absurd rfl openedT
    · rw [Function.update_of_ne own] at openedT ⊢
      change (Function.update st.memory _ none (st.sessions t).ctx).isSome
      rw [Function.update_of_ne (h.ctx_ne own openedT)]
      exact h.live t openedT
  · dsimp only at openedT same
    by_cases ownT : t = s
    · subst ownT
      rw [Function.update_self] at openedT
      exact absurd rfl openedT
    · rw [Function.update_of_ne ownT] at openedT same
      by_cases ownU : u = s
      · subst ownU
        rw [Function.update_self] at same
        exact absurd same openedT
      · rw [Function.update_of_ne ownU] at same
        exact h.once t u openedT same

/-- What an open session puts on or takes off its chain leaves the contexts alone. -/
theorem Owned.withQueue (h : Owned st) (s : Nat) (queue : List Task) :
    Owned { st with
      sessions := Function.update st.sessions s ⟨(st.sessions s).ctx, queue⟩ } := by
  have ctx : ∀ t, (Function.update st.sessions s ⟨(st.sessions s).ctx, queue⟩ t).ctx =
      (st.sessions t).ctx := by
    intro t
    by_cases own : t = s
    · rw [own, Function.update_self]
    · rw [Function.update_of_ne own]
  refine ⟨h.null, fun t opened => ?_, fun t u opened same => ?_, h.calls⟩
  · dsimp only at opened ⊢
    rw [ctx] at opened ⊢
    exact h.live t opened
  · dsimp only at opened same
    rw [ctx] at opened
    rw [ctx, ctx] at same
    exact h.once t u opened same

theorem Owned.write (h : Owned st) (fn : Fn) (s : Nat) (change : Ctx → Ctx) :
    Owned (st.write fn s change) := by
  have called := h.call fn (h.live_or_null s)
  unfold State.write
  dsimp only
  by_cases closed : (st.sessions s).ctx = 0
  · rw [if_pos closed]
    exact called
  rw [if_neg closed]
  refine ⟨?_, fun t opened => ?_, h.once, called.calls⟩
  · dsimp only
    rw [Function.update_of_ne (Ne.symm closed)]
    exact h.null
  · dsimp only at opened ⊢
    by_cases same : (st.sessions t).ctx = (st.sessions s).ctx
    · have live := h.live s closed
      change (Function.update st.memory _ ((st.memory _).map change) (st.sessions t).ctx).isSome
      rw [same, Function.update_self, Option.isSome_map]
      exact live
    · change (Function.update st.memory _ _ (st.sessions t).ctx).isSome
      rw [Function.update_of_ne same]
      exact h.live t opened

/-- A context that was written to holds what was written. -/
theorem Owned.of_written (h : Owned st) {fn : Fn} {s : Nat} {change : Ctx → Ctx} {c : Ctx}
    (found : (st.write fn s change).memory ((st.write fn s change).sessions s).ctx = some c) :
    ∃ before, change before = c := by
  unfold State.write at found
  dsimp only at found
  by_cases closed : (st.sessions s).ctx = 0
  · rw [if_pos closed] at found
    change st.memory (st.sessions s).ctx = some c at found
    rw [closed, h.null] at found
    cases found
  · rw [if_neg closed] at found
    change Function.update st.memory _ ((st.memory _).map change) (st.sessions s).ctx = some c
      at found
    rw [Function.update_self] at found
    obtain ⟨before, -, written⟩ := Option.map_eq_some_iff.mp found
    exact ⟨before, written⟩

/-- The variable `session` and the handlers that wait say nothing about contexts. -/
theorem Owned.frame (h : Owned st) (session : Option Nat) (ready : List Continuation) :
    Owned { st with session := session, ready := ready } :=
  ⟨h.null, h.live, h.once, h.calls⟩

theorem Owned.closeCurrent (h : Owned st) : Owned st.closeCurrent := by
  unfold State.closeCurrent
  cases st.session with
  | none => exact h
  | some s => exact h.close s

theorem Owned.runNext (h : Owned st) (s : Nat) (t : Task) (queue : List Task) (ok : Bool) :
    Owned (st.runNext s t queue ok) := by
  have queued := h.withQueue s queue
  have called := queued.call (.task t) (h.live_or_null s)
  unfold State.runNext
  cases ok with
  | true => exact called
  | false => exact called.call .lastError (h.live_or_null s)

theorem Owned.goOn (h : Owned st) (written : Bool) (k : Continuation) :
    Owned (goOn st written k) := by
  cases k with
  | generated s => exact h.withQueue s _
  | registered s =>
    cases written with
    | true => exact h.closeCurrent.frame _ _
    | false => exact h
  | unlocked s => exact h.closeCurrent.frame _ _
  | failed s => exact h.close s
  | destroyed => exact h.closeCurrent.frame _ _

/-- No step of any handler frees a context that a session still points to. -/
theorem Owned.step (h : Owned st) (configDir : Bytes) (e : Event) :
    Owned (step configDir st e) := by
  cases e with
  | setup address username passphrase keysExist =>
    cases made : st.newSession address ⟨configDir, username, [], []⟩ with
    | none => simpa only [Gui.step, made] using h
    | some new =>
      simp only [Gui.step, made]
      exact ((h.newSession made).write _ _ _).withQueue _ _
  | unlock address username passphrase =>
    cases made : st.newSession address ⟨configDir, username, [], []⟩ with
    | none => simpa only [Gui.step, made] using h
    | some new =>
      simp only [Gui.step, made]
      exact ((h.newSession made).write _ _ _).withQueue _ _
  | lock => exact h.closeCurrent.frame _ _
  | mail fn =>
    simp only [Gui.step]
    split
    · exact h
    · exact h.withQueue _ _
  | rotate newPassphrase =>
    simp only [Gui.step]
    split
    · exact h
    · exact (h.write _ _ _).withQueue _ _
  | destroy =>
    simp only [Gui.step]
    split
    · exact h
    · exact h.withQueue _ _
  | next s ok =>
    simp only [Gui.step]
    split
    · exact h
    · exact (h.runNext s _ _ ok).frame _ _
  | resume n written =>
    simp only [Gui.step]
    split
    · exact h
    · exact (h.frame _ _).goOn written _

/-! ## Rotations and their passphrases -/

theorem Own.call (h : Own st) (fn : Fn) (ctx : Nat)
    (own : ∀ p c, fn = .task (.rotate p) → st.memory ctx = some c → c.newPassphrase = p) :
    Own (st.call fn ctx) where
  waiting := h.waiting
  calls c mem := by
    rcases List.mem_append.mp mem with before | now
    · exact h.calls c before
    · rw [List.mem_singleton.mp now]
      exact own

theorem Own.newSession (h : Own st) (owned : Owned st) {address s : Nat} {ctx : Ctx}
    {st' : State} (made : st.newSession address ctx = some (s, st')) : Own st' := by
  unfold State.newSession at made
  by_cases taken : address = 0 ∨ (st.memory address).isSome
  · rw [if_pos taken] at made
    cases made
  rw [if_neg taken] at made
  obtain ⟨rfl, rfl⟩ := Prod.mk.inj (Option.some.inj made)
  obtain ⟨nonzero, free⟩ := not_or.mp taken
  refine ⟨fun t own c queued found => ?_, h.calls⟩
  dsimp only at queued found
  by_cases new : t = st.count
  · rw [new, Function.update_self] at queued
    cases queued
  rw [Function.update_of_ne new] at queued found
  have other : (st.sessions t).ctx ≠ address := fun same =>
    free (same ▸ owned.live t (same ▸ nonzero))
  rw [Function.update_of_ne other] at found
  exact h.waiting t own c queued found

theorem Own.close (h : Own st) (owned : Owned st) (s : Nat) : Own (st.close s) := by
  unfold State.close
  dsimp only
  by_cases opened : (st.sessions s).ctx = 0
  · rw [if_neg (not_not_intro opened)]
    exact h
  rw [if_pos opened]
  refine ⟨fun t own c queued found => ?_, (h.call .freeCtx _ nofun).calls⟩
  change .rotate own ∈ (Function.update st.sessions s _ t).queue at queued
  change Function.update st.memory _ none (Function.update st.sessions s _ t).ctx = some c at found
  by_cases same : t = s
  · subst same
    rw [Function.update_self, Function.update_of_ne (Ne.symm opened)] at found
    exact absurd (owned.null.symm.trans found) nofun
  rw [Function.update_of_ne same] at queued found
  by_cases freed : (st.sessions t).ctx = (st.sessions s).ctx
  · rw [freed, Function.update_self] at found
    cases found
  · rw [Function.update_of_ne freed] at found
    exact h.waiting t own c queued found

theorem Own.withQueue (h : Own st) (s : Nat) (queue : List Task)
    (all : ∀ own c, .rotate own ∈ queue → st.memory (st.sessions s).ctx = some c →
      c.newPassphrase = own) :
    Own { st with
      sessions := Function.update st.sessions s ⟨(st.sessions s).ctx, queue⟩ } := by
  refine ⟨fun t own c queued found => ?_, h.calls⟩
  dsimp only at queued found
  by_cases same : t = s
  · subst same
    rw [Function.update_self] at queued found
    exact all own c queued found
  · rw [Function.update_of_ne same] at queued found
    exact h.waiting t own c queued found

/-- A rotation may come to the chain when the context holds its passphrase. -/
theorem Own.run (h : Own st) (s : Nat) (t : Task)
    (new : ∀ own c, t = .rotate own → st.memory (st.sessions s).ctx = some c →
      c.newPassphrase = own) : Own (st.run s t) := by
  refine h.withQueue s _ fun own c queued found => ?_
  rcases List.mem_append.mp queued with before | now
  · exact h.waiting s own c before found
  · exact new own c (List.mem_singleton.mp now).symm found

theorem Own.write (h : Own st) (owned : Owned st) {fn : Fn} {s : Nat} {change : Ctx → Ctx}
    (other : ∀ p, fn ≠ .task (.rotate p))
    (kept : ∀ own c, .rotate own ∈ (st.sessions s).queue →
      st.memory (st.sessions s).ctx = some c → (change c).newPassphrase = own) :
    Own (st.write fn s change) := by
  have called := h.call fn (st.sessions s).ctx fun p c rotates => absurd rotates (other p)
  unfold State.write
  dsimp only
  by_cases closed : (st.sessions s).ctx = 0
  · rw [if_pos closed]
    exact called
  rw [if_neg closed]
  refine ⟨fun t own c queued found => ?_, called.calls⟩
  change .rotate own ∈ (st.sessions t).queue at queued
  change Function.update st.memory _ ((st.memory _).map change) (st.sessions t).ctx = some c
    at found
  by_cases same : (st.sessions t).ctx = (st.sessions s).ctx
  · obtain rfl := owned.once s t closed same.symm
    rw [Function.update_self] at found
    obtain ⟨before, held, rfl⟩ := Option.map_eq_some_iff.mp found
    exact kept own before queued held
  · rw [Function.update_of_ne same] at found
    exact h.waiting t own c queued found

theorem Own.setPassphrase (h : Own st) (owned : Owned st) (s : Nat) (passphrase : Option Bytes) :
    Own (st.setPassphrase s passphrase) :=
  h.write owned nofun fun own c queued found => h.waiting s own c queued found

theorem Own.frame (h : Own st) (session : Option Nat) (ready : List Continuation) :
    Own { st with session := session, ready := ready } :=
  ⟨h.waiting, h.calls⟩

theorem Own.closeCurrent (h : Own st) (owned : Owned st) : Own st.closeCurrent := by
  unfold State.closeCurrent
  cases st.session with
  | none => exact h
  | some s => exact h.close owned s

theorem Own.runNext (h : Own st) {s : Nat} {t : Task} {queue : List Task} (ok : Bool)
    (chain : (st.sessions s).queue = t :: queue) : Own (st.runNext s t queue ok) := by
  have queued := h.withQueue s queue fun own c later found =>
    h.waiting s own c (chain ▸ List.mem_cons_of_mem t later) found
  have called := queued.call (.task t) (st.sessions s).ctx (by
    rintro own c ⟨⟩ found
    exact h.waiting s own c (chain ▸ List.mem_cons_self) found)
  unfold State.runNext
  cases ok with
  | true => exact called
  | false => exact called.call .lastError _ nofun

theorem Own.goOn (h : Own st) (owned : Owned st) (written : Bool) (k : Continuation) :
    Own (goOn st written k) := by
  cases k with
  | generated s => exact h.run s .register nofun
  | registered s =>
    cases written with
    | true => exact (h.closeCurrent owned).frame _ _
    | false => exact h
  | unlocked s => exact (h.closeCurrent owned).frame _ _
  | failed s => exact h.close owned s
  | destroyed => exact (h.closeCurrent owned).frame _ _

/-- A rotation that comes when every one before it on the chain has run or is for the same
passphrase, and whose passphrase fits the buffer of the context. -/
def Event.Alone (st : State) : Event → Prop
  | .rotate newPassphrase => ∀ s ∈ st.session,
    (∀ own, .rotate own ∈ (st.sessions s).queue → own = newPassphrase.getD []) ∧
      (newPassphrase.getD []).length ≤ 511 ∧ (newPassphrase.getD []).all (· != 0) = true
  | _ => True

theorem setNewPassphrase_of_fits {passphrase : Option Bytes} (c : Ctx)
    (short : (passphrase.getD []).length ≤ 511)
    (noNul : (passphrase.getD []).all (· != 0) = true) :
    (c.setNewPassphrase (State.cstring passphrase)).newPassphrase = passphrase.getD [] := by
  have whole : State.cstring passphrase = passphrase.getD [] :=
    List.takeWhile_eq_self_iff.mpr (List.all_eq_true.mp noNul)
  change snprintf 512 (State.cstring passphrase) = _
  rw [whole]
  exact List.take_of_length_le short

theorem Own.step (h : Own st) (owned : Owned st) (configDir : Bytes) {e : Event}
    (alone : e.Alone st) : Own (step configDir st e) := by
  cases e with
  | setup address username passphrase keysExist =>
    cases made : st.newSession address ⟨configDir, username, [], []⟩ with
    | none => simpa only [Gui.step, made] using h
    | some new =>
      simp only [Gui.step, made]
      have own := h.newSession owned made
      refine (own.setPassphrase (owned.newSession made) new.1 passphrase).run _ _ ?_
      cases keysExist <;> exact nofun
  | unlock address username passphrase =>
    cases made : st.newSession address ⟨configDir, username, [], []⟩ with
    | none => simpa only [Gui.step, made] using h
    | some new =>
      simp only [Gui.step, made]
      have own := h.newSession owned made
      exact (own.setPassphrase (owned.newSession made) new.1 passphrase).run _ _ nofun
  | lock => exact (h.closeCurrent owned).frame _ _
  | mail fn =>
    simp only [Gui.step]
    split
    · exact h
    · exact h.run _ _ nofun
  | rotate newPassphrase =>
    simp only [Gui.step]
    split
    · exact h
    rename_i s current
    obtain ⟨same, short, noNul⟩ := alone s current
    have set : Own (st.setNewPassphrase s newPassphrase) := h.write owned nofun
      fun own c queued _ => (setNewPassphrase_of_fits c short noNul).trans (same own queued).symm
    refine set.run s _ ?_
    rintro own c ⟨⟩ found
    obtain ⟨before, rfl⟩ := owned.of_written found
    exact setNewPassphrase_of_fits before short noNul
  | destroy =>
    simp only [Gui.step]
    split
    · exact h
    · exact h.run _ _ nofun
  | next s ok =>
    simp only [Gui.step]
    split
    · exact h
    · rename_i chain
      exact (h.runNext ok chain).frame _ _
  | resume n written =>
    simp only [Gui.step]
    split
    · exact h
    · exact (h.frame _ _).goOn (owned.frame _ _) written _

theorem owned_initial : Owned initial :=
  ⟨rfl, fun _ opened => absurd rfl opened, fun _ _ opened => absurd rfl opened, nofun⟩

theorem own_initial : Own initial := ⟨nofun, nofun⟩

end

/-! ## Runs -/

/-- Every rotation of the run comes alone. -/
def AloneRun (configDir : Bytes) (st : State) : List Event → Prop
  | [] => True
  | e :: events => e.Alone st ∧ AloneRun configDir (step configDir st e) events

theorem Owned.runs {st : State} (h : Owned st) (configDir : Bytes) (events : List Event) :
    Owned (runs configDir st events) := by
  induction events generalizing st with
  | nil => exact h
  | cons e events ih => exact ih (h.step configDir e)

theorem Own.runs {st : State} (h : Own st) (owned : Owned st) {configDir : Bytes}
    {events : List Event} (alone : AloneRun configDir st events) :
    Own (runs configDir st events) := by
  induction events generalizing st with
  | nil => exact h
  | cons e events ih =>
    exact ih (h.step owned configDir alone.1) (owned.step configDir e) alone.2

/-- `shyake_rotate` on the context writes the files that it writes for the passphrase. -/
def SavesUnder (c : Ctx) (passphrase : Bytes) : Prop :=
  ∀ kdf aead kem sig printG (calls : RotateCalls kem sig) files k s files',
    calls.pairs = some (k, s) →
      shyakeRotate kdf aead kem sig printG c calls files = (.OK, files') →
        files' = saveKeys kdf aead { c with newPassphrase := passphrase } calls k s files

theorem Call.SavesOwn.savesUnder {c : Call} (h : c.SavesOwn) {own : Bytes} {ctx : Ctx}
    (rotates : c.fn = .task (.rotate own)) (found : c.found = some ctx) : SavesUnder ctx own := by
  intro kdf aead kem sig printG calls files k s files' pairs returned
  obtain rfl := h own ctx rotates found
  exact ((shyakeRotate_ok kdf aead printG pairs).mp returned).2

/-- In every order of the requests a call gets a context that has not been freed, or NULL. Where
no rotation comes while another is waiting on the chain, each saves the new keys under the
passphrase of its own request. -/
theorem requests_do_not_mix (configDir : Bytes) (events : List Event) :
    (∀ c ∈ (runs configDir initial events).calls, c.Live) ∧
      (AloneRun configDir initial events →
        ∀ c ∈ (runs configDir initial events).calls, c.SavesOwn ∧
          ∀ own ctx, c.fn = .task (.rotate own) → c.found = some ctx → SavesUnder ctx own) := by
  refine ⟨(owned_initial.runs configDir events).calls, fun alone c mem => ?_⟩
  have own := (own_initial.runs owned_initial alone).calls c mem
  exact ⟨own, fun p ctx rotates found => own.savesUnder rotates found⟩

namespace Sample

/-- Two rotations of an unlocked account, the second before the first has run. -/
def twoRotations : List Event :=
  [.unlock 64 (utf8 "bobby") none, .next 0 true, .resume 0 true,
    .rotate (some (utf8 "first")), .rotate (some (utf8 "second")), .next 0 true, .next 0 true]

def oneRotation : List Event :=
  [.unlock 64 (utf8 "bobby") none, .next 0 true, .resume 0 true,
    .rotate (some (utf8 "first")), .next 0 true]

/-- The first rotation saves its keys under the passphrase of the second. -/
theorem rotations_mix : ¬ ∀ (configDir : Bytes) (events : List Event),
    ∀ c ∈ (runs configDir initial events).calls, c.Live ∧ c.SavesOwn := by
  intro all
  have first : (⟨.task (.rotate (utf8 "first")), 64,
      some ⟨utf8 "/c", utf8 "bobby", [], utf8 "second"⟩⟩ : Call) ∈
      (runs (utf8 "/c") initial twoRotations).calls :=
    List.mem_of_getElem? (show _[4]? = _ from rfl)
  have same := (all (utf8 "/c") twoRotations _ first).2 _ _ rfl rfl
  exact absurd same (by decide)

theorem requests_do_not_mix_one :
    ∀ c ∈ (runs (utf8 "/c") initial oneRotation).calls, c.SavesOwn ∧
      ∀ own ctx, c.fn = .task (.rotate own) → c.found = some ctx → SavesUnder ctx own := by
  have alone : AloneRun (utf8 "/c") initial oneRotation := by
    refine ⟨trivial, trivial, trivial, ?_, trivial, trivial⟩
    rintro s ⟨⟩
    exact ⟨nofun, by decide, by decide⟩
  exact (requests_do_not_mix (utf8 "/c") oneRotation).2 alone

end Sample

end Shyake.Gui
