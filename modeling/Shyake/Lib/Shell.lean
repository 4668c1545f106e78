import Mathlib.Data.List.Infix
import Shyake.Lib.Bytes

/-!
# Simple commands of the POSIX shell

The words of a command that has no quotes, operators or expansions other than a last component
`*`, and what `rm` does with them. Whatever else the shell may be given is left to a parameter
`beyond`, so that a fact about a command is a fact under every reading of the rest.
-/

namespace Shyake.Lib.Shell

/-! ## Path names -/

/-- A name that a directory can hold. -/
def IsName (n : Bytes) : Prop := 47 ∉ n ∧ n ≠ [] ∧ n ≠ [46] ∧ n ≠ [46, 46]

instance (n : Bytes) : Decidable (IsName n) := inferInstanceAs (Decidable (_ ∧ _))

/-- What path names lead to. `entries d` are the names in the directory `d ++ "/"`. -/
structure Fs where
  there : Bytes → Bool
  entries : Bytes → List Bytes
  isName : ∀ d, ∀ n ∈ entries d, IsName n
  there_iff : ∀ d n, IsName n → (there (d ++ 47 :: n) = true ↔ n ∈ entries d)

/-- What comes behind the last slash. -/
def basename (w : Bytes) : Bytes := (w.reverse.takeWhile (· != 47)).reverse

theorem basename_append {d n : Bytes} (slashless : 47 ∉ n) : basename (d ++ 47 :: n) = n := by
  have stays : ∀ c ∈ n.reverse, (c != 47) = true := by
    intro c mem
    refine bne_iff_ne.mpr ?_
    rintro rfl
    exact slashless (List.mem_reverse.mp mem)
  have turned : (d ++ 47 :: n).reverse = n.reverse ++ 47 :: d.reverse := by simp
  unfold basename
  rw [turned, List.takeWhile_append_of_pos stays, List.takeWhile_cons_of_neg (by decide),
    List.append_nil, List.reverse_reverse]

/-- The last slash is the same one. -/
theorem append_slash_inj {d e m n : Bytes} (slashlessM : 47 ∉ m) (slashlessN : 47 ∉ n)
    (same : d ++ 47 :: m = e ++ 47 :: n) : d = e ∧ m = n := by
  have names : m = n := by
    rw [← basename_append slashlessM, same, basename_append slashlessN]
  subst names
  exact ⟨List.append_cancel_right same, rfl⟩

/-- A file system in which a path name leads nowhere, unless it is `w`. -/
def Fs.only (w : Bytes) : Fs where
  there p := p == w
  entries d := if IsName (basename w) ∧ d ++ 47 :: basename w = w then [basename w] else []
  isName d n mem := by
    split at mem
    · rename_i good
      rw [List.mem_singleton.mp mem]
      exact good.1
    · cases mem
  there_iff d n name := by
    rw [beq_iff_eq]
    constructor
    · rintro rfl
      rw [basename_append name.1, if_pos ⟨name, rfl⟩]
      exact List.mem_singleton_self n
    · intro mem
      split at mem
      · rename_i good
        rw [List.mem_singleton.mp mem]
        exact good.2
      · cases mem

/-! ## Words -/

def isBlank (c : UInt8) : Bool := c == 32 || c == 9

/-- What the shell gives a meaning to anywhere in a word, except for `*`. -/
def isSpecial (c : UInt8) : Bool :=
  [10, 34, 36, 38, 39, 40, 41, 59, 60, 62, 63, 91, 92, 96, 123, 124, 125].contains c

/-- A comment, or a tilde prefix. -/
def Marked (w : Bytes) : Prop := w.head? = some 35 ∨ w.head? = some 126

instance (w : Bytes) : Decidable (Marked w) := inferInstanceAs (Decidable (_ ∨ _))

/-- Token recognition. -/
def words (cmd : Bytes) : Option (List Bytes) :=
  let ws := (cmd.splitOnP isBlank).filter (· ≠ [])
  if cmd.any isSpecial = true ∨ ∃ w ∈ ws, Marked w then none else some ws

/-- Pathname expansion. A pattern that matches nothing is left as it is. -/
def expand (fs : Fs) (w : Bytes) : Option (List Bytes) :=
  let d := w.take (w.length - 2)
  if 42 ∉ w then some [w]
  else if w = d ++ [47, 42] ∧ 42 ∉ d then
    let names := (fs.entries d).filter (·.head? ≠ some 46)
    some (if names = [] then [w] else names.map (d ++ 47 :: ·))
  else none

theorem expand_of_plain (fs : Fs) {w : Bytes} (plain : 42 ∉ w) : expand fs w = some [w] :=
  if_pos plain

theorem expand_star (fs : Fs) {d : Bytes} (plain : 42 ∉ d) :
    expand fs (d ++ [47, 42]) =
      some (if (fs.entries d).filter (·.head? ≠ some 46) = [] then [d ++ [47, 42]]
        else ((fs.entries d).filter (·.head? ≠ some 46)).map (d ++ 47 :: ·)) := by
  have star : ¬ 42 ∉ d ++ [47, 42] := by simp
  have front : (d ++ [47, 42]).take ((d ++ [47, 42]).length - 2) = d := by
    rw [List.length_append]
    exact List.take_left' rfl
  unfold expand
  dsimp only
  rw [if_neg star, front, if_pos ⟨rfl, plain⟩]

/-- What is there of the words of `d/*` are entries of `d`. -/
theorem entry_of_expand_star {fs : Fs} {d o : Bytes} {ws : List Bytes} (plain : 42 ∉ d)
    (expanded : expand fs (d ++ [47, 42]) = some ws) (mem : o ∈ ws) (there : fs.there o = true) :
    ∃ n ∈ fs.entries d, o = d ++ 47 :: n := by
  rw [expand_star fs plain] at expanded
  rw [← Option.some.inj expanded] at mem
  split at mem
  · rename_i nothing
    rw [List.mem_singleton.mp mem] at there
    have listed : [42] ∈ fs.entries d := (fs.there_iff d [42] (by decide)).mp there
    have matched : [42] ∈ (fs.entries d).filter (·.head? ≠ some 46) :=
      List.mem_filter.mpr ⟨listed, by decide⟩
    rw [nothing] at matched
    cases matched
  · obtain ⟨n, kept, rfl⟩ := List.mem_map.mp mem
    exact ⟨n, (List.mem_filter.mp kept).1, rfl⟩

/-! ## rm -/

/-- The options of `rm` in front of and between its operands. Prompts are agreed to. -/
def operands : List Bytes → Option (List Bytes)
  | [] => some []
  | w :: ws =>
    if w = [45, 45] then some ws
    else if w.head? = some 45 ∧ w ≠ [45] then
      if w.tail.all (utf8 "dfiIrRv").contains then operands ws else none
    else (operands ws).map (w :: ·)

theorem mem_of_operands {ws ops : List Bytes} (parsed : operands ws = some ops) {o : Bytes}
    (mem : o ∈ ops) : o ∈ ws := by
  induction ws generalizing ops with
  | nil =>
    obtain rfl := Option.some.inj parsed
    exact mem
  | cons w ws ih =>
    unfold operands at parsed
    split at parsed
    · obtain rfl := Option.some.inj parsed
      exact List.mem_cons_of_mem w mem
    split at parsed
    · split at parsed
      · exact List.mem_cons_of_mem w (ih parsed mem)
      · cases parsed
    · obtain ⟨rest, read, rfl⟩ := Option.map_eq_some_iff.mp parsed
      rcases List.mem_cons.mp mem with rfl | later
      · exact List.mem_cons_self
      · exact List.mem_cons_of_mem w (ih read later)

theorem operands_of_plain {ws : List Bytes} (plain : ∀ w ∈ ws, w.head? ≠ some 45) :
    operands ws = some ws := by
  induction ws with
  | nil => rfl
  | cons w ws ih =>
    have head := plain w List.mem_cons_self
    have dashes : w ≠ [45, 45] := by
      rintro rfl
      exact head rfl
    unfold operands
    rw [if_neg dashes, if_neg fun option => head option.1,
      ih fun v mem => plain v (List.mem_cons_of_mem w mem)]
    rfl

/-- The root, and names that end in `.` or `..`. -/
def refused (o : Bytes) : Bool :=
  let name := basename (o.reverse.dropWhile (· == 47)).reverse
  name == [] || name == [46] || name == [46, 46]

theorem refused_entry {d n : Bytes} (name : IsName n) : refused (d ++ 47 :: n) = false := by
  obtain ⟨slashless, nonempty, dot, dots⟩ := name
  have turned : (d ++ 47 :: n).reverse = n.reverse ++ 47 :: d.reverse := by simp
  have ends : (d ++ 47 :: n).reverse.dropWhile (· == 47) = (d ++ 47 :: n).reverse := by
    rw [turned]
    cases last : n.reverse with
    | nil => exact absurd (List.reverse_eq_nil_iff.mp last) nonempty
    | cons c s =>
      have other : ¬ (c == 47) = true := by
        intro slash
        refine slashless (List.mem_reverse.mp ?_)
        rw [last, ← beq_iff_eq.mp slash]
        exact List.mem_cons_self
      rw [List.cons_append, List.dropWhile_cons, if_neg other]
  unfold refused
  dsimp only
  rw [ends, List.reverse_reverse, basename_append slashless]
  simp only [Bool.or_eq_false_iff, beq_eq_false_iff_ne]
  exact ⟨⟨nonempty, dot⟩, dots⟩

/-- What `rm -r` with these arguments removes, each with what is below it. -/
def rm (fs : Fs) (args : List Bytes) : List Bytes :=
  match operands args with
  | none => []
  | some ops => ops.filter fun o => fs.there o && !refused o

theorem mem_rm {fs : Fs} {args : List Bytes} {o : Bytes} (removed : o ∈ rm fs args) :
    o ∈ args ∧ fs.there o = true := by
  unfold rm at removed
  split at removed
  · cases removed
  · rename_i ops parsed
    obtain ⟨mem, there⟩ := List.mem_filter.mp removed
    exact ⟨mem_of_operands parsed mem, (Bool.and_eq_true_iff.mp there).1⟩

/-- Arguments without options are removed when they are there. -/
theorem mem_rm_of_plain {fs : Fs} {args : List Bytes} {o : Bytes}
    (plain : ∀ w ∈ args, w.head? ≠ some 45) (mem : o ∈ args) (there : fs.there o = true)
    (allowed : refused o = false) : o ∈ rm fs args := by
  unfold rm
  rw [operands_of_plain plain]
  exact List.mem_filter.mpr ⟨mem, by rw [there, allowed]; rfl⟩

/-! ## sh -c -/

/-- What the command removes. -/
def system (beyond : Fs → Bytes → List Bytes) (fs : Fs) (cmd : Bytes) : List Bytes :=
  match words cmd with
  | none => beyond fs cmd
  | some ws =>
    match ws.mapM (expand fs) with
    | none => beyond fs cmd
    | some groups =>
      match groups.flatten with
      | [] => []
      | name :: args => if name = utf8 "rm" then rm fs args else beyond fs cmd

end Shyake.Lib.Shell
