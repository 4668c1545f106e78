import Mathlib.Data.List.Nodup
import Mathlib.Data.List.Perm.Basic

/-!
# Rows under a unique key

Rows inserted one after the other into a table with a unique key. Of the rows with one key the first
stays; the others are refused.
-/

namespace Shyake.Lib

variable {α κ : Type*} [DecidableEq κ] (key : α → κ)

/-- What a table with the rows `stored` holds in the end, and the rows it refused. -/
def keepFirst : List α → List α → List α × List α
  | stored, [] => (stored, [])
  | stored, x :: rows =>
    if ∀ y ∈ stored, key y ≠ key x then keepFirst (stored ++ [x]) rows
    else
      let (kept, left) := keepFirst stored rows
      (kept, x :: left)

variable {key} {stored rows : List α}

theorem keepFirst_fresh {x : α} (h : ∀ y ∈ stored, key y ≠ key x) :
    keepFirst key stored (x :: rows) = keepFirst key (stored ++ [x]) rows := by
  rw [keepFirst, if_pos h]

theorem keepFirst_refused {x : α} (h : ¬∀ y ∈ stored, key y ≠ key x) :
    keepFirst key stored (x :: rows) =
      ((keepFirst key stored rows).1, x :: (keepFirst key stored rows).2) := by
  rw [keepFirst, if_neg h]

/-- Every row is either stored or refused. -/
theorem keepFirst_perm (key : α → κ) (stored rows : List α) :
    ((keepFirst key stored rows).1 ++ (keepFirst key stored rows).2).Perm (stored ++ rows) := by
  induction rows generalizing stored with
  | nil => exact .refl _
  | cons x rows ih =>
    by_cases h : ∀ y ∈ stored, key y ≠ key x
    · rw [keepFirst_fresh h, List.append_cons stored x rows]
      exact ih _
    · rw [keepFirst_refused h]
      exact List.perm_middle.trans ((List.Perm.cons x (ih _)).trans List.perm_middle.symm)

/-- What is in the table stays there. -/
theorem mem_keepFirst_of_mem {x : α} (h : x ∈ stored) (rows : List α) :
    x ∈ (keepFirst key stored rows).1 := by
  induction rows generalizing stored with
  | nil => exact h
  | cons y rows ih =>
    by_cases fresh : ∀ z ∈ stored, key z ≠ key y
    · rw [keepFirst_fresh fresh]
      exact ih (List.mem_append_left _ h)
    · rw [keepFirst_refused fresh]
      exact ih h

/-- Each row finds the first with its key stored. -/
theorem exists_keepFirst {R : α → α → Prop} (sorted : (stored ++ rows).Pairwise R) :
    ∀ x ∈ stored ++ rows, ∃ y ∈ (keepFirst key stored rows).1, key y = key x ∧ (y = x ∨ R y x) := by
  induction rows generalizing stored with
  | nil =>
    intro x mem
    rw [List.append_nil] at mem
    exact ⟨x, mem, rfl, .inl rfl⟩
  | cons x rows ih =>
    by_cases fresh : ∀ y ∈ stored, key y ≠ key x
    · rw [keepFirst_fresh fresh]
      rw [List.append_cons] at sorted ⊢
      exact ih sorted
    · rw [keepFirst_refused fresh]
      have rest : (stored ++ rows).Pairwise R :=
        sorted.sublist (List.Sublist.append_left (List.sublist_cons_self x rows) stored)
      intro z mem
      rcases List.mem_append.mp mem with old | new
      · exact ih rest z (List.mem_append_left _ old)
      rcases List.mem_cons.mp new with rfl | later
      · push Not at fresh
        obtain ⟨y, here, same⟩ := fresh
        refine ⟨y, mem_keepFirst_of_mem here rows, same, .inr ?_⟩
        exact (List.pairwise_append.mp sorted).2.2 y here z List.mem_cons_self
      · exact ih rest z (List.mem_append_right _ later)

/-- A test that tells the refused rows from the stored ones finds them among all. -/
theorem refused_perm {kept left all : List α} {p : α → Bool} (h : (kept ++ left).Perm all)
    (stored : ∀ x ∈ kept, p x = false) (refused : ∀ x ∈ left, p x = true) :
    left.Perm (all.filter p) := by
  refine .trans ?_ (h.filter p)
  rw [List.filter_append, List.filter_eq_nil_iff.mpr fun x mem => by simp [stored x mem],
    List.nil_append, List.filter_eq_self.mpr refused]

end Shyake.Lib
