import Mathlib.Data.List.Basic
import Shyake.Lib.Bytes

/-!
# Comma-separated values (RFC 4180)

A reader of the format: records on lines, fields between commas, and quoted fields in which a
quote is written twice. The line break is that of a text stream, which is one byte.

A `Cell` is a field as a program prints it. `read_lines` says when the lines of such cells are
read as what was meant by them.
-/

namespace Shyake.Lib.Csv

/-! ## Reading -/

/-- A byte of a field without quotes. -/
def plain (c : UInt8) : Bool := c != 34 && c != 44 && c != 10 && c != 13

/-- The text of a quoted field behind its first quote, and what follows its last one. -/
def quoted : Bytes → Option (Bytes × Bytes)
  | [] => none
  | c :: s =>
    if c = 34 then
      match s with
      | [] => some ([], [])
      | d :: s =>
        if d = 34 then (quoted s).map fun r => (34 :: r.1, r.2)
        else some ([], d :: s)
    else (quoted s).map fun r => (c :: r.1, r.2)

def field (s : Bytes) : Option (Bytes × Bytes) :=
  if s.head? = some 34 then quoted s.tail else some (s.takeWhile plain, s.dropWhile plain)

/-- The fields of a line. The number bounds how many. -/
def record : Nat → Bytes → Option (List Bytes × Bytes)
  | 0, _ => none
  | n + 1, s =>
    (field s).bind fun (text, s) =>
      if s.head? = some 44 then (record n s.tail).map fun r => (text :: r.1, r.2)
      else some ([text], s)

/-- The lines. The last one may have no line break. -/
def records : Nat → Bytes → Option (List (List Bytes))
  | 0, _ => none
  | n + 1, s =>
    if s = [] then some []
    else
      (record (s.length + 1) s).bind fun (r, s) =>
        if s = [] then some [r]
        else if s.head? = some 10 then (records n s.tail).map (r :: ·)
        else none

/-- Neither fields nor lines are more than there are bytes. -/
def read (s : Bytes) : Option (List (List Bytes)) := records (s.length + 1) s

/-! ## Printing -/

/-- Every quote twice. -/
def escape (s : Bytes) : Bytes := s.flatMap fun c => if c = 34 then [34, 34] else [c]

inductive Cell where
  /-- Printed as it is. -/
  | bare (text : Bytes)
  /-- Of the text that is meant, this much is printed, between quotes. -/
  | quoted (printed meant : Bytes)

namespace Cell

def text : Cell → Bytes
  | bare text => text
  | quoted printed _ => 34 :: (escape printed ++ [34])

def meant : Cell → Bytes
  | bare text => text
  | quoted _ meant => meant

/-- A cell is printed in a way that is read as what is meant. -/
def Good : Cell → Prop
  | bare text => ∀ c ∈ text, plain c = true
  | quoted printed meant => printed = meant

end Cell

/-- The cells of a line with commas between them, and a line break. -/
def line : List Cell → Bytes
  | [] => [10]
  | [cell] => cell.text ++ [10]
  | cell :: cells => cell.text ++ 44 :: line cells

/-! ## Quoted fields -/

theorem escape_cons_quote (s : Bytes) : escape (34 :: s) = 34 :: 34 :: escape s := rfl

theorem escape_cons {c : UInt8} (other : c ≠ 34) (s : Bytes) : escape (c :: s) = c :: escape s := by
  unfold escape
  rw [List.flatMap_cons, if_neg other]
  rfl

/-- What is escaped is read back, up to the quote behind it. -/
theorem quoted_escape (s : Bytes) {rest : Bytes} (ends : rest.head? ≠ some 34) :
    quoted (escape s ++ 34 :: rest) = some (s, rest) := by
  induction s with
  | nil =>
    change quoted (34 :: rest) = _
    unfold quoted
    rw [if_pos rfl]
    cases rest with
    | nil => rfl
    | cons d rest =>
      dsimp only
      rw [if_neg fun e => ends (congrArg some e)]
  | cons c s ih =>
    by_cases quote : c = 34
    · subst quote
      rw [escape_cons_quote]
      change quoted (34 :: 34 :: (escape s ++ 34 :: rest)) = _
      unfold quoted
      rw [if_pos rfl]
      dsimp only
      rw [if_pos rfl, ih]
      rfl
    · rw [escape_cons quote]
      change quoted (c :: (escape s ++ 34 :: rest)) = _
      unfold quoted
      rw [if_neg quote, ih]
      rfl

/-- What is read of a quoted field was escaped. -/
theorem escape_of_quoted {s t rest : Bytes} (h : quoted s = some (t, rest)) :
    s = escape t ++ 34 :: rest := by
  fun_induction quoted s generalizing t rest with
  | case1 => cases h
  | case2 =>
    cases h
    rfl
  | case3 s ih =>
    obtain ⟨r, here, same⟩ := Option.map_eq_some_iff.mp h
    cases same
    rw [ih here]
    rfl
  | case4 d s other =>
    cases h
    rfl
  | case5 c s other ih =>
    obtain ⟨r, here, same⟩ := Option.map_eq_some_iff.mp h
    cases same
    rw [ih here, escape_cons other]
    rfl

/-- A text that starts with its own quoted form is not there. -/
theorem quoted_ne (n : Nat) {t u rest : Bytes} {d : UInt8} (other : d ≠ 34) :
    List.replicate (n + 1) 34 ++ escape t ++ 34 :: u ≠ t ++ d :: rest := by
  induction t generalizing n with
  | nil =>
    intro same
    exact other (List.cons.inj same).1.symm
  | cons c t ih =>
    intro same
    obtain ⟨rfl, tails⟩ := List.cons.inj same
    refine ih (n + 1) (Eq.trans ?_ tails)
    rw [escape_cons_quote]
    change List.replicate (n + 2) 34 ++ escape t ++ 34 :: u =
      List.replicate n 34 ++ (34 :: 34 :: escape t) ++ 34 :: u
    rw [List.replicate_add]
    simp

/-! ## Fields -/

section

variable {rest u : Bytes} {d : UInt8}

theorem field_bare {t : Bytes} (fine : ∀ c ∈ t, plain c = true) (ends : d = 44 ∨ d = 10) :
    field (t ++ d :: rest) = some (t, d :: rest) := by
  have stop : ¬ plain d = true := by
    rcases ends with rfl | rfl <;> decide
  have first : (t ++ d :: rest).head? ≠ some 34 := by
    cases t with
    | nil =>
      rintro ⟨⟩
      rcases ends with no | no <;> cases no
    | cons c t =>
      rintro ⟨⟩
      exact absurd (fine 34 List.mem_cons_self) (by decide)
  unfold field
  rw [if_neg first, List.takeWhile_append_of_pos fine, List.dropWhile_append_of_pos fine,
    List.takeWhile_cons_of_neg stop, List.dropWhile_cons_of_neg stop, List.append_nil]

/-- A text that is read as itself holds nothing that ends a field, and nothing of it is left. -/
theorem bare_of_field {t : Bytes} (ends : d = 44 ∨ d = 10)
    (h : field (t ++ d :: rest) = some (t, u)) :
    (∀ c ∈ t, plain c = true) ∧ u = d :: rest := by
  unfold field at h
  split at h
  · rename_i first
    obtain ⟨s, same⟩ := List.head?_eq_some_iff.mp first
    rw [same] at h
    have text := escape_of_quoted h
    rw [List.tail_cons] at text
    have other : d ≠ 34 := by
      rcases ends with rfl | rfl <;> decide
    have never : List.replicate 1 34 ++ escape t ++ 34 :: u ≠ t ++ d :: rest := quoted_ne 0 other
    refine absurd ?_ never
    rw [same, text]
    rfl
  · obtain ⟨taken, left⟩ := Prod.mk.inj (Option.some.inj h)
    have whole := List.takeWhile_append_dropWhile (p := plain) (l := t ++ d :: rest)
    rw [taken, left] at whole
    refine ⟨fun c mem => ?_, List.append_cancel_left whole⟩
    rw [← taken] at mem
    exact List.mem_takeWhile_imp mem

theorem field_cell (cell : Cell) (ends : d = 44 ∨ d = 10) :
    field (cell.text ++ d :: rest) = some (cell.meant, u) ↔ cell.Good ∧ u = d :: rest := by
  cases cell with
  | bare t =>
    constructor
    · exact bare_of_field ends
    · rintro ⟨fine, rfl⟩
      exact field_bare fine ends
  | quoted printed meant =>
    have text : field (Cell.text (.quoted printed meant) ++ d :: rest) =
        some (printed, d :: rest) := by
      have other : (d :: rest).head? ≠ some 34 := by
        rintro ⟨⟩
        rcases ends with no | no <;> cases no
      change (if some (34 : UInt8) = some 34 then quoted ((escape printed ++ [34]) ++ d :: rest)
        else _) = _
      rw [if_pos rfl, List.append_assoc]
      exact quoted_escape printed other
    rw [text, Option.some_inj, Prod.mk.injEq]
    exact and_congr_right fun _ => eq_comm

end

/-! ## Lines -/

/-- **A line is read as what is meant** if and only if every cell is. -/
theorem record_line {cells : List Cell} (some_ : cells ≠ []) {n : Nat} (many : cells.length ≤ n)
    {rest u : Bytes} : record n (line cells ++ rest) = some (cells.map Cell.meant, u) ↔
      (∀ cell ∈ cells, cell.Good) ∧ u = 10 :: rest := by
  induction cells generalizing n with
  | nil => exact absurd rfl some_
  | cons cell cells ih =>
    obtain ⟨n, rfl⟩ : ∃ m, n = m + 1 := ⟨n - 1, by simp only [List.length_cons] at many; omega⟩
    cases cells with
    | nil =>
      have text : line [cell] ++ rest = cell.text ++ 10 :: rest := by
        unfold line
        simp
      rw [text, List.forall_mem_singleton]
      unfold record
      constructor
      · intro h
        obtain ⟨⟨t, s⟩, here, h⟩ := Option.bind_eq_some_iff.mp h
        dsimp only at h
        split at h
        · rename_i comma
          obtain ⟨r, -, same⟩ := Option.map_eq_some_iff.mp h
          obtain ⟨rfl, -⟩ := List.cons.inj (Prod.mk.inj same).1
          obtain ⟨-, rfl⟩ := (field_cell cell (.inr rfl)).mp here
          cases comma
        · cases h
          exact (field_cell cell (.inr rfl)).mp here
      · rintro ⟨good, rfl⟩
        rw [(field_cell cell (.inr rfl)).mpr ⟨good, rfl⟩]
        rfl
    | cons next cells =>
      have text : line (cell :: next :: cells) ++ rest =
          cell.text ++ 44 :: (line (next :: cells) ++ rest) := by
        rw [line]
        · simp
        · exact nofun
      have ih := ih (List.cons_ne_nil next cells) (Nat.le_of_succ_le_succ many)
      rw [text, List.forall_mem_cons]
      unfold record
      constructor
      · intro h
        obtain ⟨⟨t, s⟩, here, h⟩ := Option.bind_eq_some_iff.mp h
        dsimp only at h
        split at h
        · obtain ⟨r, others, same⟩ := Option.map_eq_some_iff.mp h
          obtain ⟨all, rfl⟩ := Prod.mk.inj same
          obtain ⟨rfl, texts⟩ := List.cons.inj all
          obtain ⟨good, rfl⟩ := (field_cell cell (.inl rfl)).mp here
          rw [List.tail_cons] at others
          obtain ⟨goods, left⟩ := ih.mp (others.trans (congrArg some (Prod.ext texts rfl)))
          exact ⟨⟨good, goods⟩, left⟩
        · cases h
      · rintro ⟨⟨good, goods⟩, left⟩
        rw [(field_cell cell (.inl rfl)).mpr ⟨good, rfl⟩, Option.bind_some]
        dsimp only
        rw [List.head?_cons, if_pos rfl, List.tail_cons, ih.mpr ⟨goods, left⟩]
        rfl

theorem length_le_line (cells : List Cell) : cells.length ≤ (line cells).length := by
  induction cells with
  | nil => exact Nat.zero_le _
  | cons cell cells ih =>
    cases cells with
    | nil =>
      unfold line
      simp
    | cons next cells =>
      rw [line]
      · simp only [List.length_cons, List.length_append] at ih ⊢
        omega
      · exact nofun

theorem line_ne_nil (cells : List Cell) : line cells ≠ [] := by
  intro none
  have empty := length_le_line cells
  rw [none, List.length_nil, Nat.le_zero, List.length_eq_zero_iff] at empty
  subst empty
  cases none

theorem records_lines {lines : List (List Cell)} (some_ : ∀ cells ∈ lines, cells ≠ []) {n : Nat}
    (many : lines.length < n) :
    records n (lines.flatMap line) = some (lines.map (·.map Cell.meant)) ↔
      ∀ cells ∈ lines, ∀ cell ∈ cells, cell.Good := by
  induction lines generalizing n with
  | nil =>
    obtain ⟨n, rfl⟩ : ∃ m, n = m + 1 := ⟨n - 1, by simp only [List.length_nil] at many; omega⟩
    exact iff_of_true rfl nofun
  | cons cells lines ih =>
    obtain ⟨n, rfl⟩ : ∃ m, n = m + 1 := ⟨n - 1, by simp only [List.length_cons] at many; omega⟩
    rw [List.forall_mem_cons] at some_
    have ih := ih some_.2 (Nat.lt_of_succ_lt_succ many)
    have here : line cells ++ lines.flatMap line ≠ [] :=
      fun none => line_ne_nil cells (List.append_eq_nil_iff.mp none).1
    have room : cells.length ≤ (line cells ++ lines.flatMap line).length + 1 := by
      have := length_le_line cells
      rw [List.length_append]
      omega
    rw [List.flatMap_cons, List.map_cons, List.forall_mem_cons]
    unfold records
    rw [if_neg here]
    constructor
    · intro h
      obtain ⟨⟨r, s⟩, first, h⟩ := Option.bind_eq_some_iff.mp h
      dsimp only at h
      split at h
      · rename_i ended
        obtain ⟨rfl, -⟩ := List.cons.inj (Option.some.inj h)
        obtain ⟨-, rfl⟩ := (record_line some_.1 room).mp first
        cases ended
      split at h
      · obtain ⟨others, rest, same⟩ := Option.map_eq_some_iff.mp h
        obtain ⟨rfl, rfl⟩ := List.cons.inj same
        obtain ⟨good, rfl⟩ := (record_line some_.1 room).mp first
        exact ⟨good, ih.mp rest⟩
      · cases h
    · rintro ⟨good, goods⟩
      rw [(record_line some_.1 room).mpr ⟨good, rfl⟩, Option.bind_some]
      dsimp only
      rw [if_neg (List.cons_ne_nil _ _), List.head?_cons, if_pos rfl, List.tail_cons, ih.mpr goods]
      rfl

/-- **Printed lines are read as what is meant** if and only if every cell of them is. -/
theorem read_lines {lines : List (List Cell)} (some_ : ∀ cells ∈ lines, cells ≠ []) :
    read (lines.flatMap line) = some (lines.map (·.map Cell.meant)) ↔
      ∀ cells ∈ lines, ∀ cell ∈ cells, cell.Good := by
  refine records_lines some_ (Nat.lt_succ_of_le ?_)
  clear some_
  induction lines with
  | nil => exact Nat.zero_le _
  | cons cells lines ih =>
    have here := List.length_pos_of_ne_nil (line_ne_nil cells)
    rw [List.flatMap_cons, List.length_append, List.length_cons]
    omega

end Shyake.Lib.Csv
