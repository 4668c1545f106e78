import Mathlib.Algebra.Ring.Int.Defs
import Mathlib.Algebra.Ring.Nat
import Mathlib.Data.List.DropRight
import Shyake.Lib.Lines

/-!
# Blanks

What the commands of the client take for white space, and `trim_whitespace`.
-/

namespace Shyake.Client

/-- `isspace` in the C locale. -/
def isspace (c : UInt8) : Bool := (9 ≤ c && c ≤ 13) || c == 32

/-- What `trim_whitespace` trims. -/
def blank (c : UInt8) : Bool := c == 32 || c == 9 || c == 13 || c == 10

def trimWhitespace (str : Bytes) : Bytes := (str.dropWhile blank).rdropWhile blank

/-- `strtol` in base 10, which stops at the ends of a `long`. -/
def strtol (s : Bytes) : Int :=
  let digits (s : Bytes) : Nat := (s.takeWhile isDigit).foldl (fun n c => 10 * n + (c.toNat - 48)) 0
  match s.dropWhile isspace with
  | 45 :: s => max (-(digits s : Int)) (-2 ^ 63)
  | 43 :: s => min (digits s) (2 ^ 63 - 1)
  | s => min (digits s) (2 ^ 63 - 1)

/-- `atoi`: the value as an `int`. -/
def atoi (s : Bytes) : Int := Int.bmod (strtol s) (2 ^ 32)

/-- Nothing to trim at its ends. -/
def Trimmed (s : Bytes) : Prop :=
  (∀ c, s.head? = some c → blank c = false) ∧ ∀ c, s.getLast? = some c → blank c = false

instance (s : Bytes) : Decidable (Trimmed s) :=
  have (o : Option UInt8) : Decidable (∀ c, o = some c → blank c = false) :=
    match o with
    | none => .isTrue nofun
    | some c => decidable_of_iff (blank c = false) ⟨fun h _ e => Option.some.inj e ▸ h, fun h => h c rfl⟩
  inferInstanceAs (Decidable (_ ∧ _))

theorem trim_of_trimmed {s : Bytes} (h : Trimmed s) : trimWhitespace s = s := by
  cases s with
  | nil => rfl
  | cons c s =>
    have first : blank c = false := h.1 c rfl
    unfold trimWhitespace
    rw [List.dropWhile_cons_of_neg (by simp [first]), List.rdropWhile_eq_self_iff]
    intro filled
    rw [h.2 _ (List.getLast?_eq_some_getLast filled)]
    exact Bool.false_ne_true

theorem trimmed_trim (s : Bytes) : Trimmed (trimWhitespace s) := by
  unfold trimWhitespace
  constructor
  · intro c hc
    have stop := List.head?_dropWhile_not blank s
    obtain ⟨u, hu⟩ := List.rdropWhile_prefix blank (s.dropWhile blank)
    have first : (s.dropWhile blank).head? = some c := by
      rw [← hu, List.head?_append, hc]
      rfl
    rw [first] at stop
    exact stop
  · intro c hc
    have filled : (s.dropWhile blank).rdropWhile blank ≠ [] := by
      intro empty
      rw [empty] at hc
      cases hc
    have stop := List.rdropWhile_last_not blank _ filled
    rw [List.getLast?_eq_some_getLast filled, Option.some.injEq] at hc
    rw [← hc]
    exact Bool.eq_false_iff.mpr stop

theorem trim_subset (s : Bytes) : trimWhitespace s ⊆ s := fun _ h =>
  (List.dropWhile_suffix _).subset ((List.rdropWhile_prefix _ _).subset h)

/-- Blanks in front go. -/
theorem trim_front {b : Bytes} (h : ∀ c ∈ b, blank c = true) (s : Bytes) :
    trimWhitespace (b ++ s) = trimWhitespace s := by
  unfold trimWhitespace
  rw [List.dropWhile_append_of_pos h]

/-- Blanks at the end go. -/
theorem trim_end {s b : Bytes} (h : ∀ c ∈ b, blank c = true) :
    trimWhitespace (s ++ b) = trimWhitespace s := by
  unfold trimWhitespace
  induction b using List.reverseRecOn with
  | nil => rw [List.append_nil]
  | append_singleton b c ih =>
    have last : blank c = true := h c (by simp)
    have rest := ih fun c hc => h c (List.mem_append_left _ hc)
    rw [← List.append_assoc]
    by_cases all : ∀ x ∈ s ++ b, blank x = true
    · have more : ∀ x ∈ s ++ b ++ [c], blank x = true := by
        intro x hx
        rcases List.mem_append.mp hx with hx | hx
        · exact all x hx
        · rw [List.mem_singleton.mp hx]
          exact last
      rw [List.dropWhile_eq_nil_iff.mpr more, ← rest, List.dropWhile_eq_nil_iff.mpr all]
    · rw [List.dropWhile_append, if_neg, List.rdropWhile_concat_pos _ _ _ last, rest]
      intro empty
      exact all (List.dropWhile_eq_nil_iff.mp (List.isEmpty_iff.mp empty))

/-- The blanks at the end may go first. -/
theorem trim_rdropWhile (s : Bytes) : trimWhitespace (s.rdropWhile blank) = trimWhitespace s := by
  have blanks : ∀ c ∈ s.rtakeWhile blank, blank c = true := fun _ h => List.mem_rtakeWhile_imp h
  have parts := List.rdropWhile_append_rtakeWhile (p := blank) (l := s)
  calc trimWhitespace (s.rdropWhile blank)
      = trimWhitespace (s.rdropWhile blank ++ s.rtakeWhile blank) := (trim_end blanks).symm
    _ = trimWhitespace s := by rw [parts]

/-- In front of what is trimmed there may be a trimmed text. -/
theorem trim_append {a : Bytes} (filled : a ≠ []) (h : Trimmed a) (b : Bytes) :
    trimWhitespace (a ++ b) = a ++ b.rdropWhile blank := by
  have front : (a ++ b).dropWhile blank = a ++ b := by
    cases a with
    | nil => exact absurd rfl filled
    | cons c a => exact List.dropWhile_cons_of_neg (by simp [h.1 c rfl])
  unfold trimWhitespace
  rw [front]
  induction b using List.reverseRecOn with
  | nil =>
    rw [List.append_nil, List.rdropWhile_nil, List.append_nil, List.rdropWhile_eq_self_iff]
    intro _
    rw [h.2 _ (List.getLast?_eq_some_getLast filled)]
    exact Bool.false_ne_true
  | append_singleton b c ih =>
    rw [← List.append_assoc, List.rdropWhile_concat, List.rdropWhile_concat]
    split
    · apply ih
      cases a with
      | nil => exact absurd rfl filled
      | cons c a => exact List.dropWhile_cons_of_neg (by simp [h.1 c rfl])
    · rw [List.append_assoc]

/-- A name, a blank and a trimmed text: after trimming the name is still in front, and what is behind
it trims to the text. -/
theorem trim_header {name s : Bytes} (first : name ≠ []) (solid : Trimmed name) (h : Trimmed s) :
    ∃ rest, trimWhitespace (name ++ 32 :: s) = name ++ rest ∧ trimWhitespace rest = s := by
  have space : ∀ c ∈ ([32] : Bytes), blank c = true := by simp [blank]
  cases s with
  | nil => exact ⟨[], by rw [trim_end space, trim_of_trimmed solid, List.append_nil], rfl⟩
  | cons c s =>
    refine ⟨32 :: c :: s, trim_of_trimmed ⟨?_, ?_⟩, ?_⟩
    · intro x hx
      rw [List.head?_append_of_ne_nil _ first] at hx
      exact solid.1 x hx
    · intro x hx
      apply h.2 x
      rw [← hx, List.getLast?_append_cons]
      rfl
    · exact (trim_front space (c :: s)).trans (trim_of_trimmed h)

end Shyake.Client
