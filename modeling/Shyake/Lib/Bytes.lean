import Mathlib.Data.List.DropRight
import Mathlib.Data.List.Basic

/-!
# Byte strings

Go and C strings are byte strings. `Bytes` is the common carrier; the functions
here are the ones of Go's `strings` package that the server uses with a one-byte
separator, under their names.
-/

namespace Shyake

abbrev Bytes := List UInt8

-- by name, so that a decision about membership is the same term in every module
instance lawfulBEqBytes : LawfulBEq Bytes := inferInstance

/-- The bytes of a string literal. -/
def utf8 (s : String) : Bytes := s.toUTF8.data.toList

namespace Bytes

/-- `strings.Cut`: the text before the first `sep`, and the text after it if there is one. -/
def cut (sep : UInt8) : Bytes → Bytes × Option Bytes
  | [] => ([], none)
  | c :: cs =>
    if c = sep then ([], some cs)
    else let (before, after) := cut sep cs; (c :: before, after)

/-- `strings.Split`. -/
def split (sep : UInt8) (s : Bytes) : List Bytes := List.splitOn sep s

/-- `strings.Join`. -/
def join (sep : UInt8) (parts : List Bytes) : Bytes := List.intercalate [sep] parts

/-- `strings.TrimRight` with a one-byte cutset. -/
def trimRight (c : UInt8) (s : Bytes) : Bytes := s.rdropWhile (· == c)

theorem cut_eq_none {sep : UInt8} {s : Bytes} (h : sep ∉ s) : cut sep s = (s, none) := by
  induction s with
  | nil => rfl
  | cons c cs ih =>
    simp only [List.mem_cons, not_or] at h
    simp [cut, Ne.symm h.1, ih h.2]

theorem cut_append {sep : UInt8} {s : Bytes} (h : sep ∉ s) (t : Bytes) :
    cut sep (s ++ sep :: t) = (s, some t) := by
  induction s with
  | nil => simp [cut]
  | cons c cs ih =>
    simp only [List.mem_cons, not_or] at h
    simp [cut, Ne.symm h.1, ih h.2]

/-- What `cut` returns says how the input was made up. -/
theorem cut_spec (sep : UInt8) (s : Bytes) :
    sep ∉ (cut sep s).1 ∧
      ((cut sep s).2 = none ∧ s = (cut sep s).1 ∨
        ∃ t, (cut sep s).2 = some t ∧ s = (cut sep s).1 ++ sep :: t) := by
  by_cases h : sep ∈ s
  · obtain ⟨a, b, rfl, ha⟩ := List.eq_append_cons_of_mem h
    rw [cut_append ha]
    exact ⟨ha, .inr ⟨b, rfl, rfl⟩⟩
  · rw [cut_eq_none h]
    exact ⟨h, .inl ⟨rfl, rfl⟩⟩

end Bytes

/-- ASCII letters and digits, as the byte comparisons of both sources have them. -/
def isLower (c : UInt8) : Bool := 97 ≤ c && c ≤ 122
def isUpper (c : UInt8) : Bool := 65 ≤ c && c ≤ 90
def isDigit (c : UInt8) : Bool := 48 ≤ c && c ≤ 57

end Shyake
