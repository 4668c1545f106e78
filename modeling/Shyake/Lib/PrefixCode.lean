import Mathlib.Data.List.Basic

/-!
# Self-delimiting codes

A code is *self-delimiting* when an encoded value can be split off any text that
starts with it, in one way only. Self-delimiting codes compose: a constant
before the value, two values one after the other, and a sequence of symbols
closed by a terminator that starts no symbol. A format that is not
self-delimiting from the left (fields joined by a separator that the first field
may contain) can still be cut from the right: `append_sep_inj`.
-/

namespace Shyake.Lib

variable {α β : Type*} {σ : Type*}

/-- A text that starts with an encoded value starts with no other. -/
def SelfDelimiting (enc : α → List σ) : Prop :=
  ∀ ⦃a b : α⦄ ⦃r s : List σ⦄, enc a ++ r = enc b ++ s → a = b ∧ r = s

namespace SelfDelimiting

theorem injective {enc : α → List σ} (h : SelfDelimiting enc) : Function.Injective enc := by
  intro a b e
  exact (h (r := []) (s := []) (by rw [e])).1

/-- A decoder that returns the rest of the text. -/
theorem of_decoder {enc : α → List σ} (dec : List σ → Option (α × List σ))
    (h : ∀ a r, dec (enc a ++ r) = some (a, r)) : SelfDelimiting enc := by
  intro a b r s e
  have same : some (a, r) = some (b, s) := by rw [← h a r, e, h b s]
  exact Prod.mk.inj (Option.some.inj same)

theorem const_append {enc : α → List σ} (h : SelfDelimiting enc) (l : List σ) :
    SelfDelimiting fun a => l ++ enc a := by
  intro a b r s e
  simp only [List.append_assoc, List.append_cancel_left_eq] at e
  exact h e

theorem seq {f : α → List σ} {g : β → List σ} (hf : SelfDelimiting f) (hg : SelfDelimiting g) :
    SelfDelimiting fun p : α × β => f p.1 ++ g p.2 := by
  rintro ⟨a, b⟩ ⟨a', b'⟩ r s e
  simp only [List.append_assoc] at e
  obtain ⟨first, tail⟩ := hf e
  obtain ⟨second, rest⟩ := hg tail
  exact ⟨Prod.ext first second, rest⟩

/-- Symbols, each with a nonempty code that does not start with the terminator `t`, then `t`. -/
theorem terminated {code : α → List σ} {t : σ} (h : SelfDelimiting code)
    (start : ∀ a, ∃ c l, code a = c :: l ∧ c ≠ t) :
    SelfDelimiting fun xs : List α => xs.flatMap code ++ [t] := by
  have head : ∀ a (u v : List σ), code a ++ u ≠ t :: v := by
    intro a u v e
    obtain ⟨c, l, hc, ne⟩ := start a
    rw [hc, List.cons_append, List.cons.injEq] at e
    exact ne e.1
  intro xs
  induction xs with
  | nil =>
    intro ys r s e
    cases ys with
    | nil => exact ⟨rfl, by simpa using e⟩
    | cons y ys =>
      simp only [List.flatMap_nil, List.nil_append, List.flatMap_cons, List.append_assoc,
        List.singleton_append] at e
      exact absurd e.symm (head _ _ _)
  | cons x xs ih =>
    intro ys r s e
    cases ys with
    | nil =>
      simp only [List.flatMap_nil, List.nil_append, List.flatMap_cons, List.append_assoc,
        List.singleton_append] at e
      exact absurd e (head _ _ _)
    | cons y ys =>
      simp only [List.flatMap_cons, List.append_assoc] at e
      obtain ⟨first, tail⟩ := h e
      obtain ⟨more, rest⟩ := ih (by simpa only [List.append_assoc] using tail)
      exact ⟨by rw [first, more], rest⟩

end SelfDelimiting

/-- Cutting at the last separator: the field after it does not contain one. -/
theorem append_sep_inj {t : σ} {a a' b b' : List σ} (hb : t ∉ b) (hb' : t ∉ b')
    (e : a ++ t :: b = a' ++ t :: b') : a = a' ∧ b = b' := by
  rcases List.append_eq_append_iff.mp e with ⟨m, ha, hm⟩ | ⟨m, ha, hm⟩
  · cases m with
    | nil => simp_all
    | cons x m =>
      simp only [List.cons_append, List.cons.injEq] at hm
      exact absurd (hm.2 ▸ List.mem_append_right m List.mem_cons_self) hb
  · cases m with
    | nil => simp_all
    | cons x m =>
      simp only [List.cons_append, List.cons.injEq] at hm
      exact absurd (hm.2 ▸ List.mem_append_right m List.mem_cons_self) hb'

/-- Cutting at the first separator: the field before it does not contain one. -/
theorem sep_append_inj {t : σ} {a a' b b' : List σ} (ha : t ∉ a) (ha' : t ∉ a')
    (e : a ++ t :: b = a' ++ t :: b') : a = a' ∧ b = b' := by
  have r := congrArg List.reverse e
  simp only [List.reverse_append, List.reverse_cons, List.append_assoc,
    List.singleton_append] at r
  obtain ⟨hb, ha⟩ := append_sep_inj (by simpa using ha) (by simpa using ha') r
  exact ⟨List.reverse_injective ha, List.reverse_injective hb⟩

end Shyake.Lib
