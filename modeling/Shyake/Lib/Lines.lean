import Shyake.Lib.Bytes

/-!
# Texts as lines

A text is cut after each newline, so that its lines put together are the text; only the last may
have no newline. `fgets` with a buffer that holds every line reads the same.
-/

namespace Shyake.Lines

/-- The lines of a text, each with its newline. -/
def lines : Bytes → List Bytes
  | [] => []
  | c :: cs =>
    if c = 10 then [10] :: lines cs
    else match lines cs with
      | [] => [[c]]
      | l :: ls => (c :: l) :: ls

/-- A line without its newline. -/
def chomp (line : Bytes) : Bytes := line.takeWhile (· != 10)

/-- A newline at its end and nowhere else. -/
def Line (l : Bytes) : Prop := ∃ t, 10 ∉ t ∧ l = t ++ [10]

/-- Nothing, or a text that ends with a newline. -/
def Whole (s : Bytes) : Prop := s = [] ∨ ∃ t, s = t ++ [10]

@[simp] theorem lines_nil : lines [] = [] := rfl

@[simp] theorem chomp_line {t : Bytes} (h : 10 ∉ t) (s : Bytes) : chomp (t ++ 10 :: s) = t := by
  unfold chomp
  rw [List.takeWhile_append_of_pos]
  · simp
  · intro c hc
    rw [bne_iff_ne]
    exact fun eq => h (eq ▸ hc)

@[simp] theorem chomp_last {t : Bytes} (h : 10 ∉ t) : chomp t = t := by
  unfold chomp
  rw [List.takeWhile_eq_self_iff]
  intro c hc
  rw [bne_iff_ne]
  exact fun eq => h (eq ▸ hc)

theorem newline_notMem_chomp (l : Bytes) : 10 ∉ chomp l := by
  intro h
  have := List.mem_takeWhile_imp h
  simp at this

theorem lines_line {t : Bytes} (h : 10 ∉ t) (s : Bytes) :
    lines (t ++ 10 :: s) = (t ++ [10]) :: lines s := by
  induction t with
  | nil => simp [lines]
  | cons c t ih =>
    rw [List.mem_cons, not_or] at h
    simp [lines, Ne.symm h.1, ih h.2]

theorem lines_last {t : Bytes} (h : 10 ∉ t) (filled : t ≠ []) : lines t = [t] := by
  induction t with
  | nil => exact absurd rfl filled
  | cons c t ih =>
    rw [List.mem_cons, not_or] at h
    cases t with
    | nil => simp [lines, Ne.symm h.1]
    | cons d t =>
      rw [lines, if_neg (Ne.symm h.1), ih h.2 (by simp)]

/-- A text is nothing, a line without newline, or a line and a text. -/
theorem induction_lines {p : Bytes → Prop} (nil : p []) (last : ∀ t, 10 ∉ t → t ≠ [] → p t)
    (line : ∀ t s, 10 ∉ t → p s → p (t ++ 10 :: s)) (s : Bytes) : p s := by
  induction h : s.length using Nat.strongRecOn generalizing s with
  | _ n ih =>
    obtain ⟨free, ⟨-, eq⟩ | ⟨t, -, eq⟩⟩ := Bytes.cut_spec 10 s
    · by_cases empty : s = []
      · exact empty ▸ nil
      · rw [eq]
        exact last _ free (eq ▸ empty)
    · rw [eq]
      apply line _ _ free
      apply ih t.length _ t rfl
      rw [← h, eq, List.length_append, List.length_cons]
      omega

theorem flatten_lines (s : Bytes) : (lines s).flatten = s := by
  induction s using induction_lines with
  | nil => rfl
  | last t free filled => simp [lines_last free filled]
  | line t s free ih => simp [lines_line free, ih]

theorem lines_flatten {ls : List Bytes} (h : ∀ l ∈ ls, Line l) (s : Bytes) :
    lines (ls.flatten ++ s) = ls ++ lines s := by
  induction ls with
  | nil => rfl
  | cons l ls ih =>
    obtain ⟨t, free, rfl⟩ := h l List.mem_cons_self
    have rest := ih fun l hl => h l (List.mem_cons_of_mem _ hl)
    rw [List.flatten_cons, List.append_assoc, List.append_assoc, List.singleton_append,
      lines_line free, rest, List.cons_append]

/-- Every line but the last has a newline. -/
theorem mem_lines {s l : Bytes} (h : l ∈ lines s) :
    Line l ∨ (10 ∉ l ∧ l ≠ [] ∧ (lines s).getLast? = some l) := by
  induction s using induction_lines with
  | nil => cases h
  | last t free filled =>
    rw [lines_last free filled, List.mem_singleton] at h
    subst h
    exact .inr ⟨free, filled, by simp [lines_last free filled]⟩
  | line t s free ih =>
    rw [lines_line free, List.mem_cons] at h
    rcases h with rfl | h
    · exact .inl ⟨t, free, rfl⟩
    · rcases ih h with whole | ⟨free', filled, last⟩
      · exact .inl whole
      · right
        refine ⟨free', filled, ?_⟩
        rw [lines_line free, List.getLast?_cons, last]
        rfl

theorem Whole.append {s t : Bytes} (hs : Whole s) (ht : Whole t) : Whole (s ++ t) := by
  rcases ht with rfl | ⟨u, rfl⟩
  · rwa [List.append_nil]
  · exact .inr ⟨s ++ u, (List.append_assoc _ _ _).symm⟩

theorem Line.whole {l : Bytes} (h : Line l) : Whole l := by
  obtain ⟨t, -, rfl⟩ := h
  exact .inr ⟨t, rfl⟩

theorem line_of_whole {s : Bytes} (h : Whole s) : ∀ l ∈ lines s, Line l := by
  intro l hl
  rcases mem_lines hl with line | ⟨free, filled, last⟩
  · exact line
  · -- the last line would be the end of a text that ends with a newline
    rcases h with rfl | ⟨t, rfl⟩
    · cases hl
    · obtain ⟨ls, eq⟩ := List.getLast?_eq_some_iff.mp last
      have text := flatten_lines (t ++ [10])
      rw [eq, List.flatten_append, List.flatten_singleton] at text
      have ends := congrArg List.getLast? text
      rw [List.getLast?_append, List.getLast?_concat] at ends
      cases he : l.getLast? with
      | none => exact absurd (List.getLast?_eq_none_iff.mp he) filled
      | some c =>
        rw [he] at ends
        have : c = 10 := by simpa using ends
        exact absurd (this ▸ List.mem_of_getLast? he) free

theorem lines_append {s : Bytes} (h : Whole s) (t : Bytes) :
    lines (s ++ t) = lines s ++ lines t := by
  have := lines_flatten (line_of_whole h) t
  rwa [flatten_lines] at this

/-! ## `fgets` -/

/-- What is read with `room` bytes for a line, of which `left` are left for the present one. -/
def fgetsFrom (room : Nat) : Nat → Bytes → List Bytes
  | _, [] => []
  | left, c :: cs =>
    if c = 10 ∨ left ≤ 1 then [c] :: fgetsFrom room room cs
    else match fgetsFrom room (left - 1) cs with
      | [] => [[c]]
      | l :: ls => (c :: l) :: ls

/-- What the calls of `fgets(buf, size, f)` read one after the other. -/
def fgets (size : Nat) (s : Bytes) : List Bytes := fgetsFrom (size - 1) (size - 1) s

theorem fgetsFrom_line {room left : Nat} {t : Bytes} (h : 10 ∉ t) (fits : t.length < left)
    (s : Bytes) : fgetsFrom room left (t ++ 10 :: s) = (t ++ [10]) :: fgetsFrom room room s := by
  induction t generalizing left with
  | nil => simp [fgetsFrom]
  | cons c t ih =>
    rw [List.mem_cons, not_or] at h
    rw [List.length_cons] at fits
    have more : ¬(c = 10 ∨ left ≤ 1) := by
      rintro (eq | small)
      · exact h.1 eq.symm
      · omega
    rw [List.cons_append, fgetsFrom, if_neg more, ih h.2 (by omega)]
    rfl

theorem fgetsFrom_last {room left : Nat} {t : Bytes} (h : 10 ∉ t) (filled : t ≠ [])
    (fits : t.length ≤ left) : fgetsFrom room left t = [t] := by
  induction t generalizing left with
  | nil => exact absurd rfl filled
  | cons c t ih =>
    rw [List.mem_cons, not_or] at h
    rw [List.length_cons] at fits
    cases t with
    | nil =>
      unfold fgetsFrom
      split <;> rfl
    | cons d t =>
      have more : ¬(c = 10 ∨ left ≤ 1) := by
        rintro (eq | small)
        · exact h.1 eq.symm
        · rw [List.length_cons] at fits
          omega
      rw [fgetsFrom, if_neg more, ih h.2 (by simp) (by omega)]

/-- A buffer that holds every line reads the lines. -/
theorem fgets_eq_lines {size : Nat} {s : Bytes} (fits : ∀ l ∈ lines s, l.length < size) :
    fgets size s = lines s := by
  unfold fgets
  induction s using induction_lines with
  | nil => rfl
  | last t free filled =>
    rw [lines_last free filled] at fits ⊢
    have := fits t List.mem_cons_self
    exact fgetsFrom_last free filled (by omega)
  | line t s free ih =>
    rw [lines_line free] at fits ⊢
    have first := fits _ List.mem_cons_self
    rw [List.length_append, List.length_singleton] at first
    rw [fgetsFrom_line free (by omega), ih fun l hl => fits l (List.mem_cons_of_mem _ hl)]

/-- A line that does not fit is read in parts. -/
theorem fgetsFrom_full {room : Nat} {t : Bytes} (h : 10 ∉ t) (filled : t ≠ []) (s : Bytes) :
    fgetsFrom room t.length (t ++ s) = t :: fgetsFrom room room s := by
  induction t with
  | nil => exact absurd rfl filled
  | cons c t ih =>
    rw [List.mem_cons, not_or] at h
    cases t with
    | nil => simp [fgetsFrom]
    | cons d t =>
      have more : ¬(c = 10 ∨ (c :: d :: t).length ≤ 1) := by
        rintro (eq | small)
        · exact h.1 eq.symm
        · simp at small
      have rest : (c :: d :: t).length - 1 = (d :: t).length := by simp
      rw [List.cons_append, fgetsFrom, if_neg more, rest, ih h.2 (by simp)]

theorem flatten_fgetsFrom (room left : Nat) (s : Bytes) :
    (fgetsFrom room left s).flatten = s := by
  induction s generalizing left with
  | nil => rfl
  | cons c s ih =>
    unfold fgetsFrom
    split
    · rw [List.flatten_cons, ih]
      rfl
    · have rest := ih (left - 1)
      cases read : fgetsFrom room (left - 1) s with
      | nil =>
        rw [read] at rest
        rw [← rest]
        rfl
      | cons l ls =>
        rw [read] at rest
        rw [← rest]
        rfl

/-- The first piece, and what is read behind it. -/
theorem fgetsFrom_cons (room left : Nat) {s : Bytes} (filled : s ≠ []) :
    ∃ s₁ s₂, s = s₁ ++ s₂ ∧ fgetsFrom room left s = s₁ :: fgetsFrom room room s₂ := by
  induction s generalizing left with
  | nil => exact absurd rfl filled
  | cons c s ih =>
    by_cases last : c = 10 ∨ left ≤ 1
    · exact ⟨[c], s, rfl, by rw [fgetsFrom, if_pos last]⟩
    · cases s with
      | nil => exact ⟨[c], [], rfl, by simp [fgetsFrom]⟩
      | cons d s =>
        obtain ⟨s₁, s₂, parts, read⟩ := ih (left - 1) (List.cons_ne_nil d s)
        exact ⟨c :: s₁, s₂, congrArg (c :: ·) parts, by rw [fgetsFrom, if_neg last, read]⟩

/-- What has no line end and fits the buffer is read in one piece, with something behind it. -/
theorem fgetsFrom_piece (room : Nat) {left : Nat} {t : Bytes} (h : 10 ∉ t) (filled : t ≠ [])
    (fits : t.length ≤ left) (s : Bytes) :
    ∃ s₁ s₂, s = s₁ ++ s₂ ∧ fgetsFrom room left (t ++ s) = (t ++ s₁) :: fgetsFrom room room s₂ := by
  induction t generalizing left with
  | nil => exact absurd rfl filled
  | cons c t ih =>
    rw [List.mem_cons, not_or] at h
    rw [List.length_cons] at fits
    by_cases last : left ≤ 1
    · obtain rfl := List.length_eq_zero_iff.mp (show t.length = 0 by omega)
      exact ⟨[], s, rfl, by rw [List.cons_append, fgetsFrom, if_pos (.inr last)]; rfl⟩
    have more : ¬(c = 10 ∨ left ≤ 1) := by
      rintro (eq | small)
      · exact h.1 eq.symm
      · exact last small
    rw [List.cons_append, fgetsFrom, if_neg more]
    cases t with
    | nil =>
      cases s with
      | nil => exact ⟨[], [], rfl, rfl⟩
      | cons d s =>
        obtain ⟨s₁, s₂, parts, read⟩ := fgetsFrom_cons room (left - 1) (List.cons_ne_nil d s)
        exact ⟨s₁, s₂, parts, by rw [List.nil_append, read]; rfl⟩
    | cons d t =>
      obtain ⟨s₁, s₂, parts, read⟩ := ih h.2 (by simp) (show _ ≤ left - 1 by omega)
      exact ⟨s₁, s₂, parts, by rw [read]; rfl⟩

/-- After a newline the buffer is empty again. -/
theorem fgetsFrom_append {room left : Nat} (t s : Bytes) :
    fgetsFrom room left (t ++ 10 :: s) = fgetsFrom room left (t ++ [10]) ++ fgetsFrom room room s := by
  induction t generalizing left with
  | nil => simp [fgetsFrom]
  | cons c t ih =>
    rw [List.cons_append, List.cons_append, fgetsFrom, fgetsFrom]
    by_cases last : c = 10 ∨ left ≤ 1
    · rw [if_pos last, if_pos last, ih, List.cons_append]
    · rw [if_neg last, if_neg last, ih]
      cases read : fgetsFrom room (left - 1) (t ++ [10]) with
      | nil =>
        obtain ⟨_, _, -, some⟩ := fgetsFrom_cons room (left - 1) (List.concat_ne_nil 10 t)
        rw [read] at some
        cases some
      | cons l ls => rfl

theorem fgets_append {size : Nat} {s : Bytes} (h : Whole s) (t : Bytes) :
    fgets size (s ++ t) = fgets size s ++ fgets size t := by
  rcases h with rfl | ⟨u, rfl⟩
  · rfl
  · unfold fgets
    rw [List.append_assoc, List.singleton_append, fgetsFrom_append]

end Shyake.Lines
