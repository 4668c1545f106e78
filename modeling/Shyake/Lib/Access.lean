import Mathlib.Logic.Function.Basic

/-!
# Code that reads and writes memory

A piece of C ends with a value, or it refuses what it is given, or it leaves the memory that is
its own. `Ends` says that it does not do the last, and what it returns if it returns: its rules
are those of a program logic, with one for loops, where an invariant keeps every turn within
bounds and a rank bounds the number of turns.
-/

namespace Shyake.Lib

inductive Access (α : Type) where
  | ok (a : α)
  | refused
  /-- An index is out of bounds, or a loop does not end. -/
  | fault

namespace Access

variable {α β γ σ : Type}

protected def bind : Access α → (α → Access β) → Access β
  | ok a, f => f a
  | refused, _ => refused
  | fault, _ => fault

instance : Monad Access where
  pure := ok
  bind := Access.bind

/-- `memory[i]`. -/
def read (memory : List γ) (i : Nat) : Access γ :=
  match memory[i]? with
  | some c => ok c
  | none => fault

/-- Write `text` at the end of what a block of `size` holds so far. -/
def write (size : Nat) (out text : List γ) : Access (List γ) :=
  if out.length + text.length ≤ size then ok (out ++ text) else fault

/-- A loop: a turn goes on to the next one, or is the last. -/
def loop (turn : σ → Access (σ ⊕ α)) : (turns : Nat) → σ → Access α
  | 0, _ => fault
  | turns + 1, s =>
    match turn s with
    | ok (.inl s') => loop turn turns s'
    | ok (.inr a) => ok a
    | refused => refused
    | fault => fault

/-- Where turn after turn leads. -/
inductive Run (turn : σ → Access (σ ⊕ α)) : σ → Access α → Prop where
  | next {s s' : σ} {r : Access α} (turned : turn s = ok (.inl s')) (on : Run turn s' r) :
    Run turn s r
  | last {s : σ} {a : α} (turned : turn s = ok (.inr a)) : Run turn s (ok a)
  | stop {s : σ} (turned : turn s = refused) : Run turn s refused

/-! ## What is returned -/

@[simp] theorem pure_eq (a : α) : (pure a : Access α) = ok a := rfl
@[simp] theorem ok_bind (a : α) (f : α → Access β) : (ok a >>= f) = f a := rfl
@[simp] theorem refused_bind (f : α → Access β) : (refused >>= f) = refused := rfl
@[simp] theorem fault_bind (f : α → Access β) : (fault >>= f) = fault := rfl

theorem bind_eq_ok {x : Access α} {f : α → Access β} {b : β} (h : (x >>= f) = ok b) :
    ∃ a, x = ok a ∧ f a = ok b := by
  cases x with
  | ok a => exact ⟨a, rfl, h⟩
  | refused => cases h
  | fault => cases h

theorem loop_next {turn : σ → Access (σ ⊕ α)} {s s' : σ} (turns : Nat)
    (next : turn s = ok (.inl s')) : loop turn (turns + 1) s = loop turn turns s' := by
  rw [loop, next]

theorem loop_last {turn : σ → Access (σ ⊕ α)} {s : σ} {a : α} (turns : Nat)
    (last : turn s = ok (.inr a)) : loop turn (turns + 1) s = ok a := by
  rw [loop, last]

theorem loop_refused {turn : σ → Access (σ ⊕ α)} {s : σ} (turns : Nat)
    (stop : turn s = refused) : loop turn (turns + 1) s = refused := by
  rw [loop, stop]

/-- A loop that has turns enough goes where its turns lead. -/
theorem Run.loop_eq {turn : σ → Access (σ ⊕ α)} {s : σ} {r : Access α} (run : Run turn s r)
    (turns : Nat) (ends : loop turn turns s ≠ fault) : loop turn turns s = r := by
  induction run generalizing turns with
  | next turned _ ih =>
    cases turns with
    | zero => exact absurd rfl ends
    | succ turns =>
      rw [loop_next turns turned] at ends ⊢
      exact ih turns ends
  | last turned =>
    cases turns with
    | zero => exact absurd rfl ends
    | succ turns => exact loop_last turns turned
  | stop turned =>
    cases turns with
    | zero => exact absurd rfl ends
    | succ turns => exact loop_refused turns turned

/-! ## Staying within bounds -/

/-- The piece stays within its memory, and what it returns satisfies `Q`. -/
def Ends (x : Access α) (Q : α → Prop) : Prop :=
  match x with
  | ok a => Q a
  | refused => True
  | fault => False

variable {x : Access α} {Q R : α → Prop}

theorem ends_ok {a : α} (h : Q a) : (ok a).Ends Q := h

theorem ends_refused : (refused : Access α).Ends Q := trivial

theorem Ends.mono (h : x.Ends Q) (weaker : ∀ a, Q a → R a) : x.Ends R := by
  cases x with
  | ok a => exact weaker a h
  | refused => trivial
  | fault => exact h

theorem Ends.bind {f : α → Access β} {S : β → Prop} (h : x.Ends Q)
    (rest : ∀ a, Q a → (f a).Ends S) : (x >>= f).Ends S := by
  cases x with
  | ok a => exact rest a h
  | refused => trivial
  | fault => exact h.elim

theorem Ends.not_fault (h : x.Ends Q) : x ≠ fault := by
  rintro rfl
  exact h

theorem Ends.of_ok {a : α} (h : x.Ends Q) (returned : x = ok a) : Q a := by
  subst returned
  exact h

theorem ends_read {memory : List γ} {i : Nat} (inside : i < memory.length) :
    (read memory i).Ends fun c => memory[i]? = some c := by
  unfold read
  rw [List.getElem?_eq_getElem inside]
  rfl

theorem ends_write {size : Nat} {out text : List γ} (room : out.length + text.length ≤ size) :
    (write size out text).Ends fun r => r = out ++ text := by
  unfold write
  rw [if_pos room]
  rfl

/-- **The loop rule.** An invariant that every turn keeps, and a rank that every turn lowers and
that starts below the number of turns. -/
theorem ends_loop {turn : σ → Access (σ ⊕ α)} (inv : σ → Prop) (rank : σ → Nat)
    (step : ∀ s, inv s → (turn s).Ends (Sum.elim (fun s' => inv s' ∧ rank s' < rank s) Q))
    {turns : Nat} {s : σ} (start : inv s) (enough : rank s < turns) :
    (loop turn turns s).Ends Q := by
  induction turns generalizing s with
  | zero => exact absurd enough (Nat.not_lt_zero _)
  | succ turns ih =>
    have turned := step s start
    cases h : turn s with
    | ok r =>
      rw [h] at turned
      cases r with
      | inl s' =>
        obtain ⟨kept, lower⟩ : inv s' ∧ rank s' < rank s := turned
        rw [loop_next turns h]
        exact ih kept (by omega)
      | inr a =>
        rw [loop_last turns h]
        exact turned
    | refused =>
      rw [loop_refused turns h]
      trivial
    | fault =>
      rw [h] at turned
      exact turned.elim

/-! ## What is returned, if anything is -/

/-- If the piece ends, what it returns satisfies `Q`. -/
def Returns (x : Access α) (Q : α → Prop) : Prop := ∀ a, x = ok a → Q a

theorem returns_ok {a : α} (h : Q a) : (ok a).Returns Q := by
  rintro _ ⟨⟩
  exact h

theorem returns_refused : (refused : Access α).Returns Q := by
  rintro _ ⟨⟩

theorem Ends.returns (h : x.Ends Q) : x.Returns Q := fun _ returned => h.of_ok returned

theorem Returns.mono (h : x.Returns Q) (weaker : ∀ a, Q a → R a) : x.Returns R :=
  fun a returned => weaker a (h a returned)

theorem Returns.bind {f : α → Access β} {S : β → Prop} (h : x.Returns Q)
    (rest : ∀ a, Q a → (f a).Returns S) : (x >>= f).Returns S := by
  intro b returned
  obtain ⟨a, first, second⟩ := bind_eq_ok returned
  exact rest a (h a first) b second

theorem returns_read (memory : List γ) (i : Nat) :
    (read memory i).Returns fun c => memory[i]? = some c := by
  intro c returned
  unfold read at returned
  cases h : memory[i]? with
  | none =>
    rw [h] at returned
    cases returned
  | some d =>
    rw [h] at returned
    cases returned
    rfl

theorem returns_write (size : Nat) (out text : List γ) :
    (write size out text).Returns fun r => r = out ++ text := by
  intro r returned
  unfold write at returned
  split at returned
  · cases returned
    rfl
  · cases returned

/-- An invariant of the turns. -/
theorem returns_loop {turn : σ → Access (σ ⊕ α)} (inv : σ → Prop)
    (step : ∀ s, inv s → (turn s).Returns (Sum.elim inv Q)) {turns : Nat} {s : σ} (start : inv s) :
    (loop turn turns s).Returns Q := by
  induction turns generalizing s with
  | zero =>
    rintro _ ⟨⟩
  | succ turns ih =>
    intro a returned
    have turned := step s start
    cases h : turn s with
    | ok r =>
      cases r with
      | inl s' =>
        rw [loop_next turns h] at returned
        exact ih (turned _ h) a returned
      | inr b =>
        rw [loop_last turns h] at returned
        cases returned
        exact turned _ h
    | refused =>
      rw [loop_refused turns h] at returned
      cases returned
    | fault =>
      rw [loop, h] at returned
      cases returned

end Access

end Shyake.Lib
