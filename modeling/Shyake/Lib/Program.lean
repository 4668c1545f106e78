import Mathlib.Data.List.Basic

/-!
# Programs that ask their surroundings

A `Prog` is a program cut at every point where it depends on something outside
itself: the clock, a database statement, a network answer. It asks a question,
gets an answer, and goes on as a function of that answer. Nothing is said here
about how answers come about, so a fact about a program is a fact about it under
every behaviour of its surroundings.

`Meets G Q p l` is the rule for such facts: after the log `l` of earlier
questions and answers, every question `p` asks satisfies `G` (of the log so far)
and every result satisfies `Q`. The lemmas below push it through the monad
operations, so that a handler is verified by the lemmas of its parts.
-/

namespace Shyake.Lib

/-- The questions a program may ask, each with the type of its answer. -/
structure Interface where
  Query : Type
  Answer : Query → Type

/-- A question with the answer it got. -/
structure Event (I : Interface) where
  query : I.Query
  answer : I.Answer query

inductive Prog (I : Interface) (α : Type) : Type where
  | ret (a : α)
  | ask (q : I.Query) (k : I.Answer q → Prog I α)

namespace Prog

variable {I : Interface} {α β : Type}

def bind : Prog I α → (α → Prog I β) → Prog I β
  | ret a, f => f a
  | ask q k, f => ask q fun a => (k a).bind f

instance : Monad (Prog I) where
  pure := ret
  bind := bind

/-- Ask one question and return its answer. -/
def query (q : I.Query) : Prog I (I.Answer q) := ask q ret

@[simp] theorem ret_bind (a : α) (f : α → Prog I β) : (ret a >>= f) = f a := rfl
@[simp] theorem pure_eq (a : α) : (pure a : Prog I α) = ret a := rfl
@[simp] theorem query_bind (q : I.Query) (f : I.Answer q → Prog I β) :
    (query q >>= f) = ask q f := rfl

theorem bind_assoc {γ : Type} (p : Prog I α) (f : α → Prog I β) (g : β → Prog I γ) :
    ((p >>= f) >>= g) = p >>= fun a => f a >>= g := by
  induction p with
  | ret a => rfl
  | ask q k ih => exact congrArg (ask q) (funext ih)

/-- Every question meets `G` and every result meets `Q`, from the log `l` on. -/
def Meets (G : List (Event I) → I.Query → Prop) (Q : List (Event I) → α → Prop) :
    Prog I α → List (Event I) → Prop
  | ret a, l => Q l a
  | ask q k, l => G l q ∧ ∀ a, (k a).Meets G Q (l ++ [⟨q, a⟩])

variable {G G' : List (Event I) → I.Query → Prop} {l : List (Event I)}

@[simp] theorem meets_ret {Q : List (Event I) → α → Prop} (a : α) :
    (ret a).Meets G Q l ↔ Q l a := Iff.rfl

@[simp] theorem meets_ask {Q : List (Event I) → α → Prop} (q : I.Query)
    (k : I.Answer q → Prog I α) :
    (ask q k).Meets G Q l ↔ G l q ∧ ∀ a, (k a).Meets G Q (l ++ [⟨q, a⟩]) := Iff.rfl

@[simp] theorem meets_pure {Q : List (Event I) → α → Prop} (a : α) :
    (pure a : Prog I α).Meets G Q l ↔ Q l a := Iff.rfl

/-- The sequencing rule. -/
theorem meets_bind {Q : List (Event I) → β → Prop} (p : Prog I α) (f : α → Prog I β) :
    (p >>= f).Meets G Q l ↔ p.Meets G (fun l' a => (f a).Meets G Q l') l := by
  induction p generalizing l with
  | ret a => exact Iff.rfl
  | ask q k ih =>
    change (G l q ∧ ∀ a, ((k a) >>= f).Meets G Q (l ++ [⟨q, a⟩])) ↔ _
    simp only [meets_ask, ih]

@[simp] theorem meets_query {Q : List (Event I) → β → Prop} (q : I.Query)
    (f : I.Answer q → Prog I β) :
    (query q >>= f).Meets G Q l ↔ G l q ∧ ∀ a, (f a).Meets G Q (l ++ [⟨q, a⟩]) := Iff.rfl

/-- The consequence rule. A result only ever extends the log. -/
theorem Meets.mono {Q Q' : List (Event I) → α → Prop} {p : Prog I α} (h : p.Meets G Q l)
    (hG : ∀ l' q, l <+: l' → G l' q → G' l' q) (hQ : ∀ l' a, l <+: l' → Q l' a → Q' l' a) :
    p.Meets G' Q' l := by
  induction p generalizing l with
  | ret a => exact hQ l a List.prefix_rfl h
  | ask q k ih =>
    refine ⟨hG l q List.prefix_rfl h.1, fun a => ih a (h.2 a) ?_ ?_⟩
    · exact fun l' q' hl => hG l' q' ((List.prefix_append _ _).trans hl)
    · exact fun l' a' hl => hQ l' a' ((List.prefix_append _ _).trans hl)

/-- The sequencing rule with the consequence rule in it. -/
theorem Meets.bind {Q : List (Event I) → α → Prop} {R : List (Event I) → β → Prop}
    {p : Prog I α} {f : α → Prog I β} (h : p.Meets G Q l)
    (next : ∀ l' a, l <+: l' → Q l' a → (f a).Meets G R l') : (p >>= f).Meets G R l :=
  (meets_bind p f).mpr (h.mono (fun _ _ _ guard => guard) next)

/-- The sequencing rule when nothing is known of the first part. -/
theorem Meets.after {R : List (Event I) → β → Prop} (p : Prog I α) {f : α → Prog I β}
    (next : ∀ l' a, l <+: l' → (f a).Meets (fun _ _ => True) R l') :
    (p >>= f).Meets (fun _ _ => True) R l := by
  induction p generalizing l with
  | ret a => exact next l a List.prefix_rfl
  | ask q k ih =>
    exact ⟨trivial, fun a => ih a fun l' a' pre => next l' a' ((List.prefix_append _ _).trans pre)⟩

/-- Two facts about one program. -/
theorem Meets.and {Q Q' : List (Event I) → α → Prop} {p : Prog I α} (h : p.Meets G Q l)
    (h' : p.Meets G' Q' l) :
    p.Meets (fun l q => G l q ∧ G' l q) (fun l a => Q l a ∧ Q' l a) l := by
  induction p generalizing l with
  | ret a => exact ⟨h, h'⟩
  | ask q k ih => exact ⟨⟨h.1, h'.1⟩, fun a => ih a (h.2 a) (h'.2 a)⟩

/-- What is left of the program `p` after the answers in a log of just its questions. -/
inductive Resumes (p : Prog I α) : List (Event I) → Prog I α → Prop where
  | start : Resumes p [] p
  | snoc {l : List (Event I)} {q : I.Query} {k : I.Answer q → Prog I α}
      (before : Resumes p l (ask q k)) (a : I.Answer q) : Resumes p (l ++ [⟨q, a⟩]) (k a)

namespace Resumes

variable {p r : Prog I α} {l l' : List (Event I)}

theorem trans (h : Resumes p l r) {r' : Prog I α} (h' : Resumes r l' r') :
    Resumes p (l ++ l') r' := by
  induction h' with
  | start => rwa [List.append_nil]
  | snoc _ a ih =>
    rw [← List.append_assoc]
    exact ih.snoc a

theorem cons {q : I.Query} {k : I.Answer q → Prog I α} (a : I.Answer q)
    (h : Resumes (k a) l r) : Resumes (ask q k) (⟨q, a⟩ :: l) r :=
  (Resumes.start.snoc a).trans h

theorem nil_inv (h : Resumes p [] r) : r = p := by
  generalize hl : ([] : List (Event I)) = l at h
  cases h with
  | start => rfl
  | snoc _ a => simp at hl

theorem snoc_inv {q : I.Query} {a : I.Answer q} (h : Resumes p (l ++ [⟨q, a⟩]) r) :
    ∃ k, Resumes p l (ask q k) ∧ r = k a := by
  generalize hl : l ++ [⟨q, a⟩] = l' at h
  cases h with
  | start => simp at hl
  | snoc before b =>
    obtain ⟨rfl, e⟩ := List.append_inj' hl rfl
    cases e
    exact ⟨_, before, rfl⟩

/-- The answers decide what is left. -/
theorem unique {r' : Prog I α} (h : Resumes p l r) (h' : Resumes p l r') : r = r' := by
  induction h generalizing r' with
  | start => exact h'.nil_inv.symm
  | snoc _ a ih =>
    obtain ⟨k, before, rfl⟩ := h'.snoc_inv
    cases ih before
    rfl

/-- A program that has come to the end of its first part goes on with the second. -/
theorem bind {f : α → Prog I β} (h : Resumes p l r) : Resumes (p >>= f) l (r >>= f) := by
  induction h with
  | start => exact .start
  | snoc _ a ih => exact ih.snoc a

/-- A finished program asks nothing more. -/
theorem ret_inv {a : α} (h : Resumes (ret a) l r) : l = [] ∧ r = ret a := by
  induction h with
  | start => exact ⟨rfl, rfl⟩
  | snoc _ _ ih => cases ih.2

/-- What a program that has asked nothing, or at least one question, has come to. -/
theorem ask_inv {q : I.Query} {k : I.Answer q → Prog I α} (h : Resumes (ask q k) l r) :
    l = [] ∧ r = ask q k ∨ ∃ a l', l = ⟨q, a⟩ :: l' ∧ Resumes (k a) l' r := by
  generalize hp : ask q k = p at h
  induction h with
  | start => exact .inl ⟨rfl, rfl⟩
  | @snoc l q' k' before b ih =>
    rcases ih with ⟨rfl, same⟩ | ⟨a, l', rfl, rest⟩
    · cases hp.trans same.symm
      exact .inr ⟨b, [], rfl, .start⟩
    · exact .inr ⟨a, l' ++ [⟨q', b⟩], rfl, rest.snoc b⟩

/-- A program that has returned did so in its first part and then in its second. -/
theorem bind_inv {f : α → Prog I β} {b : β} (h : Resumes (p >>= f) l (ret b)) :
    ∃ l₁ l₂ a, l = l₁ ++ l₂ ∧ Resumes p l₁ (ret a) ∧ Resumes (f a) l₂ (ret b) := by
  induction p generalizing l with
  | ret a => exact ⟨[], l, a, rfl, .start, h⟩
  | ask q k ih =>
    rcases ask_inv (k := fun a => k a >>= f) h with ⟨-, same⟩ | ⟨a, l', rfl, rest⟩
    · cases same
    · obtain ⟨l₁, l₂, a', rfl, first, second⟩ := ih a rest
      exact ⟨_, l₂, a', rfl, first.cons a, second⟩

end Resumes

/-- A fact about a program is one about all that is left of it later. -/
theorem Meets.resumes {Q : List (Event I) → α → Prop} {p r : Prog I α} {l : List (Event I)}
    (h : p.Meets G Q []) (run : Resumes p l r) : r.Meets G Q l := by
  induction run with
  | start => exact h
  | snoc _ a ih => exact ih.2 a

/-- Every question in the log was asked when `G` held of the log before it. -/
theorem Meets.logged {Q : List (Event I) → α → Prop} {p r : Prog I α} {l : List (Event I)}
    (h : p.Meets G Q []) (run : Resumes p l r) :
    ∀ l₁ e, l₁ ++ [e] <+: l → G l₁ e.query := by
  induction run with
  | start =>
    intro l₁ e pre
    exact absurd (List.prefix_nil.mp pre) (by simp)
  | snoc before a ih =>
    intro l₁ e pre
    rcases List.prefix_concat_iff.mp pre with same | short
    · obtain ⟨rfl, same⟩ := List.append_inj' same rfl
      obtain rfl : e = _ := by simpa using same
      exact (h.resumes before).1
    · exact ih l₁ e short

/-- A program is still in its first part, or has come to the second. -/
theorem Resumes.bind_cases {p : Prog I α} {f : α → Prog I β} {l : List (Event I)} {r : Prog I β}
    (h : Resumes (p >>= f) l r) : (∃ q k, Resumes p l (ask q k) ∧ r = (ask q k >>= f)) ∨
      ∃ l₁ l₂ a, l = l₁ ++ l₂ ∧ Resumes p l₁ (ret a) ∧ Resumes (f a) l₂ r := by
  induction p generalizing l with
  | ret a => exact .inr ⟨[], l, a, rfl, .start, h⟩
  | ask q k ih =>
    rcases ask_inv (k := fun a => k a >>= f) h with ⟨rfl, rfl⟩ | ⟨a, l', rfl, rest⟩
    · exact .inl ⟨q, k, .start, rfl⟩
    · rcases ih a rest with ⟨q', k', first, rfl⟩ | ⟨l₁, l₂, a', rfl, first, second⟩
      · exact .inl ⟨q', k', first.cons a, rfl⟩
      · exact .inr ⟨_, l₂, a', rfl, first.cons a, second⟩

/-- The program asks only questions that meet `A`. -/
def Asks (A : I.Query → Prop) : Prog I α → Prop
  | ret _ => True
  | ask q k => A q ∧ ∀ a, (k a).Asks A

namespace Asks

variable {A : I.Query → Prop} {p r : Prog I α} {l : List (Event I)}

theorem bind {f : α → Prog I β} (h : p.Asks A) (next : ∀ a, (f a).Asks A) :
    (p >>= f).Asks A := by
  induction p with
  | ret a => exact next a
  | ask q k ih => exact ⟨h.1, fun a => ih a (h.2 a)⟩

theorem mono {B : I.Query → Prop} (h : p.Asks A) (weaker : ∀ q, A q → B q) : p.Asks B := by
  induction p with
  | ret a => trivial
  | ask q k ih => exact ⟨weaker q h.1, fun a => ih a (h.2 a)⟩

/-- The questions of the first part. -/
theorem left {f : α → Prog I β} (h : (p >>= f).Asks A) : p.Asks A := by
  induction p with
  | ret a => trivial
  | ask q k ih => exact ⟨h.1, fun a => ih a (h.2 a)⟩

/-- Every question in the log meets `A`, and so does all that is left. -/
theorem resumes (h : p.Asks A) (run : Resumes p l r) : (∀ e ∈ l, A e.query) ∧ r.Asks A := by
  induction run with
  | start => exact ⟨by simp, h⟩
  | snoc before a ih =>
    refine ⟨fun e mem => ?_, ih.2.2 a⟩
    rcases List.mem_append.mp mem with old | new
    · exact ih.1 e old
    · obtain rfl := List.mem_singleton.mp new
      exact ih.2.1

/-- What every question's guard says of it. -/
theorem of_meets {Q : List (Event I) → α → Prop} (h : p.Meets G Q l)
    (guard : ∀ l q, G l q → A q) : p.Asks A := by
  induction p generalizing l with
  | ret a => trivial
  | ask q k ih => exact ⟨guard l q h.1, fun a => ih a (h.2 a)⟩

/-- A guard that the questions meet whatever the log. -/
theorem meets (h : p.Asks A) (guard : ∀ l q, A q → G l q) :
    p.Meets G (fun _ _ => True) l := by
  induction p generalizing l with
  | ret a => trivial
  | ask q k ih => exact ⟨guard l q h.1, fun a => ih a (h.2 a)⟩

end Asks

/-- Whatever the answers, the result is one of `Q`. -/
def Returns (Q : α → Prop) : Prog I α → Prop
  | ret a => Q a
  | ask _ k => ∀ a, (k a).Returns Q

namespace Returns

theorem bind {Q : α → Prop} {R : β → Prop} {p : Prog I α} {f : α → Prog I β} (h : p.Returns Q)
    (next : ∀ a, Q a → (f a).Returns R) : (p >>= f).Returns R := by
  induction p with
  | ret a => exact next a h
  | ask q k ih => exact fun a => ih a (h a)

/-- Where nothing is known of the first part. -/
theorem after {R : β → Prop} (p : Prog I α) {f : α → Prog I β} (next : ∀ a, (f a).Returns R) :
    (p >>= f).Returns R := by
  induction p with
  | ret a => exact next a
  | ask q k ih => exact fun a => ih a

end Returns

/-- A guard that holds from the log on. -/
theorem Meets.always {p : Prog I α} (guard : ∀ l' q, l <+: l' → G l' q) :
    p.Meets G (fun _ _ => True) l := by
  induction p generalizing l with
  | ret a => trivial
  | ask q k ih =>
    exact ⟨guard l q List.prefix_rfl, fun a => ih a fun l' q' pre =>
      guard l' q' ((List.prefix_append _ _).trans pre)⟩

/-- The program asks at most one question that meets `A`. -/
def Once (A : I.Query → Prop) : Prog I α → Prop
  | ret _ => True
  | ask q k => (∀ a, (k a).Once A) ∧ (A q → ∀ a, (k a).Asks fun q => ¬ A q)

namespace Once

variable {A : I.Query → Prop} {p r : Prog I α} {l : List (Event I)}

theorem of_asks (h : p.Asks fun q => ¬ A q) : p.Once A := by
  induction p with
  | ret a => trivial
  | ask q k ih => exact ⟨fun a => ih a (h.2 a), fun yes => absurd yes h.1⟩

theorem congr {B : I.Query → Prop} (h : p.Once A) (same : ∀ q, A q ↔ B q) : p.Once B := by
  rwa [← funext fun q => propext (same q)]

/-- The question is in the second part. -/
theorem bind_right {f : α → Prog I β} (h : p.Asks fun q => ¬ A q) (next : ∀ a, (f a).Once A) :
    (p >>= f).Once A := by
  induction p with
  | ret a => exact next a
  | ask q k ih => exact ⟨fun a => ih a (h.2 a), fun yes => absurd yes h.1⟩

/-- The question is in the first part. -/
theorem bind_left {f : α → Prog I β} (h : p.Once A) (next : ∀ a, (f a).Asks fun q => ¬ A q) :
    (p >>= f).Once A := by
  induction p with
  | ret a => exact of_asks (next a)
  | ask q k ih => exact ⟨fun a => ih a (h.1 a), fun yes a => (h.2 yes a).bind next⟩

theorem resumes (h : p.Once A) (run : Resumes p l r) :
    r.Once A ∧ ((∃ e ∈ l, A e.query) → r.Asks fun q => ¬ A q) := by
  induction run with
  | start => exact ⟨h, by simp⟩
  | snoc before a ih =>
    refine ⟨ih.1.1 a, ?_⟩
    rintro ⟨e, mem, yes⟩
    rcases List.mem_append.mp mem with old | new
    · exact (ih.2 ⟨e, old, yes⟩).2 a
    · obtain rfl := List.mem_singleton.mp new
      exact ih.1.2 yes a

/-- Such a question stands at one place of the log. -/
theorem unique (h : p.Once A) (run : Resumes p l r) : ∀ (i j : Nat) (e e' : Event I),
    l[i]? = some e → l[j]? = some e' → A e.query → A e'.query → i = j := by
  induction run with
  | start =>
    intro i j e e' hi
    simp at hi
  | @snoc l q k before a ih =>
    -- a question just answered is the first of its kind
    have last : ∀ {i j : Nat} {e e' : Event I}, i < l.length → ¬ j < l.length →
        (l ++ [⟨q, a⟩])[i]? = some e → (l ++ [⟨q, a⟩])[j]? = some e' → A e.query →
        ¬ A e'.query := by
      intro i j e e' lt ge hi hj yes
      rw [List.getElem?_append_left lt] at hi
      rw [List.getElem?_append_right (Nat.not_lt.mp ge)] at hj
      obtain rfl := List.mem_singleton.mp (List.mem_of_getElem? hj)
      exact ((h.resumes before).2 ⟨e, List.mem_of_getElem? hi, yes⟩).1
    intro i j e e' hi hj yes yes'
    by_cases lt : i < l.length <;> by_cases lt' : j < l.length
    · rw [List.getElem?_append_left lt] at hi
      rw [List.getElem?_append_left lt'] at hj
      exact ih i j e e' hi hj yes yes'
    · exact absurd yes' (last lt lt' hi hj yes)
    · exact absurd yes (last lt' lt hj hi yes')
    · have hi := (List.getElem?_eq_some_iff.mp hi).1
      have hj := (List.getElem?_eq_some_iff.mp hj).1
      rw [List.length_append, List.length_singleton] at hi hj
      omega

end Once

/-! ## Answers that are a function of the question -/

@[simp] theorem asks_ret {A : I.Query → Prop} (a : α) : (ret a : Prog I α).Asks A := trivial

@[simp] theorem asks_ask {A : I.Query → Prop} (q : I.Query) (k : I.Answer q → Prog I α) :
    (ask q k).Asks A ↔ A q ∧ ∀ a, (k a).Asks A := Iff.rfl

/-- A first part that ends without a forbidden question, before a second one whose questions do not
depend on it. -/
theorem asks_bind_iff {A : I.Query → Prop} {P : Prop} {p : Prog I α} {f : α → Prog I β}
    (quiet : p.Asks A) (answered : ∀ q, A q → Nonempty (I.Answer q))
    (same : ∀ a, (f a).Asks A ↔ P) : (p >>= f).Asks A ↔ P := by
  induction p with
  | ret a => exact same a
  | ask q k ih =>
    obtain ⟨a⟩ := answered q quiet.1
    constructor
    · exact fun h => (ih a (quiet.2 a)).mp (h.2 a)
    · exact fun h => ⟨quiet.1, fun a => (ih a (quiet.2 a)).mpr h⟩

/-- The result under such answers. A question without an answer ends the program. -/
def result (answer : (q : I.Query) → Option (I.Answer q)) : Prog I α → Option α
  | ret a => some a
  | ask q k => (answer q).bind fun a => (k a).result answer

section

variable {answer : (q : I.Query) → Option (I.Answer q)}

@[simp] theorem result_ret (a : α) : (ret a : Prog I α).result answer = some a := rfl

@[simp] theorem result_ask (q : I.Query) (k : I.Answer q → Prog I α) :
    (ask q k).result answer = (answer q).bind fun a => (k a).result answer := rfl

theorem result_bind (p : Prog I α) (f : α → Prog I β) :
    (p >>= f).result answer = (p.result answer).bind fun a => (f a).result answer := by
  induction p with
  | ret a => rfl
  | ask q k ih =>
    change ((answer q).bind fun a => (k a >>= f).result answer) = _
    simp only [ih, result_ask, Option.bind_assoc]

/-- A program that asks only what is answered has a result. -/
theorem Asks.isSome_result {p : Prog I α} (h : p.Asks fun q => (answer q).isSome) :
    (p.result answer).isSome := by
  induction p with
  | ret a => rfl
  | ask q k ih =>
    obtain ⟨a, answered⟩ := Option.isSome_iff_exists.mp h.1
    rw [result_ask, answered, Option.bind_some]
    exact ih a (h.2 a)

/-- The result is one of those that the program may have. -/
theorem Returns.of_result {Q : α → Prop} {p : Prog I α} {a : α} (h : p.Returns Q)
    (ends : p.result answer = some a) : Q a := by
  induction p with
  | ret b =>
    cases ends
    exact h
  | ask q k ih =>
    obtain ⟨b, -, ends⟩ := Option.bind_eq_some_iff.mp ends
    exact ih b (h b) ends

end

end Prog

end Shyake.Lib
