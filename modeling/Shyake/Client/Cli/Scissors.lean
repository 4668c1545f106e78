import Shyake.Client.Cli.Subject
import Shyake.Lib.Lines

/-!
# The scissors line (`with_scissors`, `after_scissors`, `edit_draft`)

Outside vim the editor shows the mail that is answered above a scissors line. Whoever wrote the mail
may have put such a line in it. A write outside the buffer is `none`.
-/

namespace Shyake.Client

open Lines (lines chomp Line Whole)

def SCISSORS : Bytes := utf8 "# ------------------------ >8 ------------------------"

def SCISSORS_NOTE : Bytes := utf8 "# Do not modify or remove the scissors line.\n" ++
  utf8 "# Everything above it will be ignored.\n"

/-- What `format_original` takes of a mail. -/
structure MailShown where
  sender : Bytes
  recipient : Bytes
  subject : Option Bytes
  body : Option Bytes

/-- `format_original`; `date` is the time that is shown. -/
def formatOriginal (d : MailShown) (date : Bytes) : Bytes :=
  let sub := d.subject.getD (utf8 "(decryption failed)")
  let body := d.body.getD (utf8 "(decryption failed)")
  let n := d.sender.length + d.recipient.length + date.length + sub.length + body.length + 64
  snprintf n (utf8 "FROM:  " ++ d.sender ++ utf8 "\nTO:    " ++ d.recipient ++ utf8 "\nDATE:  " ++
    date ++ utf8 "\nSUBJ:  " ++ sub ++ utf8 "\n\n" ++ body)

/-- Bytes written after `out` in a buffer of `n` bytes. -/
def write (n : Nat) (out text : Bytes) : Option Bytes :=
  if out.length + text.length ≤ n then some (out ++ text) else none

/-- What `with_scissors` writes for a line. -/
def quoteLine (n : Nat) (out line : Bytes) : Option Bytes := do
  -- a scissors line inside the mail must not cut there
  let out ← if SCISSORS.isPrefixOf line then write n out [32] else some out
  let out ← write n out (chomp line)
  write n out [10]

/-- The size of the buffer of `with_scissors`. -/
def scissorsSize (initial orig : Bytes) : Nat :=
  orig.length + SCISSORS_NOTE.length + SCISSORS.length + initial.length + 8 + orig.count 10

/-- What follows the mail. -/
def scissorsTail (initial : Bytes) : Bytes :=
  utf8 "\n" ++ SCISSORS_NOTE ++ SCISSORS ++ utf8 "\n" ++ initial

def withScissors (initial orig : Bytes) : Option Bytes :=
  let n := scissorsSize initial orig
  ((lines orig).foldlM (quoteLine n) []).map fun w =>
    w ++ snprintf (n - w.length) (scissorsTail initial)

/-- The loop of `after_scissors`. -/
def afterLines : List Bytes → Option Bytes
  | [] => none
  | line :: rest => if SCISSORS.isPrefixOf line then some rest.flatten else afterLines rest

def afterScissors (buf : Bytes) : Option Bytes := afterLines (lines buf)

/-- What the editor leaves: its exit status, and the text of the file if that can be read. -/
structure Edited where
  status : Int
  text : Option Bytes

/-- What `edit_draft` returns, and prints. -/
structure EditedDraft where
  text : Option Bytes
  stderr : Bytes

def isVim (editor : Bytes) : Bool :=
  let base := (Bytes.split 47 editor).getLastD []
  base == utf8 "vim" || base == utf8 "nvim"

/-- `edit_draft`. `temp` says whether a temporary file of that name can be made, and `launch` what the
editor does with the two files. -/
def editDraft (editor : Bytes) (temp : Bytes → Bool) (launch : Bytes → Option Bytes → Edited)
    (initial : Bytes) (orig : Option Bytes) : Option EditedDraft := do
  let split := orig.isSome && isVim editor
  let full ← match orig with
    | some orig => if split then some initial else withScissors initial orig
    | none => some initial
  if temp (utf8 "compose") = false then
    some ⟨none, utf8 "Edit failed. Cannot create a temporary file.\n"⟩
  else
    let split := split && temp (utf8 "original")
    let edited := launch full (if split then orig else none)
    -- `read_text` makes a C string of the file
    let buf := edited.text.map cstr
    let aborted := utf8 "Draft aborted.\n"
    if edited.status ≠ 0 then
      some ⟨none, utf8 "Editor '" ++ editor ++ utf8 "' exited with status " ++
        Go.formatInt edited.status ++ utf8 ". Draft aborted.\n"⟩
    else
      match buf.filter (· ≠ full) with
      | none => some ⟨none, aborted⟩
      | some buf =>
        let (buf, warning) :=
          if orig.isSome ∧ split = false then
            match afterScissors buf with
            | some rest => (rest, [])
            | none => (buf, utf8 "WARNING: The scissors line is gone. The quoted mail stays in the " ++
                utf8 "draft; fix it with 'shyake compose <id>'.\n")
          else (buf, [])
        if buf = [] then some ⟨none, warning ++ aborted⟩ else some ⟨some buf, warning⟩

/-! ## The buffer -/

/-- The original is not cut when it is shown. -/
theorem formatOriginal_whole (d : MailShown) (date : Bytes) :
    d.body.getD (utf8 "(decryption failed)") <:+ formatOriginal d date := by
  unfold formatOriginal snprintf
  extract_lets sub body n
  have from_ : (utf8 "FROM:  ").length = 7 := by decide
  have to_ : (utf8 "\nTO:    ").length = 8 := by decide
  have date_ : (utf8 "\nDATE:  ").length = 8 := by decide
  have subj : (utf8 "\nSUBJ:  ").length = 8 := by decide
  have gap : (utf8 "\n\n").length = 2 := by decide
  rw [List.take_of_length_le]
  · exact List.suffix_append _ _
  · simp only [List.length_append, from_, to_, date_, subj, gap]
    omega

/-- A line of the mail as it is written. -/
def quotedLine (line : Bytes) : Bytes :=
  (if SCISSORS.isPrefixOf line then [32] else []) ++ chomp line ++ [10]

def quoted (ls : List Bytes) : Bytes := ls.flatMap quotedLine

theorem quoteLine_eq {n : Nat} {out line : Bytes}
    (fits : out.length + (quoted [line]).length ≤ n) :
    quoteLine n out line = some (out ++ quoted [line]) := by
  unfold quoteLine quoted quotedLine write at *
  simp only [List.flatMap_cons, List.flatMap_nil, List.append_nil] at fits ⊢
  split at fits
  · rename_i forged
    simp only [List.length_append, List.length_singleton] at fits
    simp only [forged, if_true, List.length_singleton, Option.bind_eq_bind]
    rw [if_pos (by omega), Option.bind_some, if_pos (by simp; omega), Option.bind_some,
      if_pos (by simp; omega)]
    simp
  · rename_i plain
    simp only [List.length_append, List.length_singleton, List.length_nil] at fits
    simp only [plain, if_false, Option.bind_eq_bind, Option.bind_some, Bool.false_eq_true]
    rw [if_pos (by omega), Option.bind_some, if_pos (by simp; omega)]
    simp

theorem foldlM_quoteLine {n : Nat} {ls : List Bytes} {out : Bytes}
    (fits : out.length + (quoted ls).length ≤ n) :
    ls.foldlM (quoteLine n) out = some (out ++ quoted ls) := by
  induction ls generalizing out with
  | nil => simp [quoted]
  | cons l ls ih =>
    have parts : quoted (l :: ls) = quoted [l] ++ quoted ls := by simp [quoted]
    rw [parts, List.length_append] at fits
    rw [List.foldlM_cons, quoteLine_eq (by omega), Option.bind_eq_bind, Option.bind_some,
      ih (by rw [List.length_append]; omega), parts, List.append_assoc]

/-- A line takes up to two bytes more than it has in the mail, and one more when it ends with a
newline. -/
theorem length_quoted_le (s : Bytes) : (quoted (lines s)).length ≤ s.length + s.count 10 + 2 := by
  have one : ∀ l : Bytes, (quoted [l]).length ≤ (chomp l).length + 2 := by
    intro l
    simp only [quoted, quotedLine, List.flatMap_cons, List.flatMap_nil, List.append_nil,
      List.length_append]
    split
    · simp
      omega
    · simp
  induction s using Lines.induction_lines with
  | nil => simp [quoted]
  | last t free filled =>
    have := one t
    rw [Lines.lines_last free filled]
    rw [Lines.chomp_last free] at this
    omega
  | line t s free ih =>
    have parts : quoted ((t ++ [10]) :: lines s) = quoted [t ++ [10]] ++ quoted (lines s) := by
      simp [quoted]
    have := one (t ++ [10])
    rw [Lines.chomp_line free] at this
    rw [Lines.lines_line free, parts]
    simp only [List.length_append, List.length_cons, List.count_append, List.count_cons_self]
    omega

theorem length_scissorsTail (initial : Bytes) : (scissorsTail initial).length =
    SCISSORS_NOTE.length + SCISSORS.length + initial.length + 2 := by
  have newline : (utf8 "\n").length = 1 := by decide
  simp only [scissorsTail, List.length_append, newline]
  omega

/-- Nothing is written outside the buffer, and nothing is cut. -/
theorem withScissors_eq (initial orig : Bytes) :
    withScissors initial orig = some (quoted (lines orig) ++ scissorsTail initial) ∧
      (quoted (lines orig) ++ scissorsTail initial).length < scissorsSize initial orig := by
  have bound := length_quoted_le orig
  have tail := length_scissorsTail initial
  have size : (quoted (lines orig) ++ scissorsTail initial).length < scissorsSize initial orig := by
    rw [List.length_append, tail]
    unfold scissorsSize
    omega
  refine ⟨?_, size⟩
  rw [List.length_append] at size
  unfold withScissors
  extract_lets n
  rw [foldlM_quoteLine (by simp; omega), List.nil_append, Option.map_some]
  unfold snprintf
  rw [List.take_of_length_le (by omega)]

/-! ## The cut -/

theorem afterLines_append {ls : List Bytes} (h : ∀ l ∈ ls, SCISSORS.isPrefixOf l = false)
    (rest : List Bytes) : afterLines (ls ++ rest) = afterLines rest := by
  induction ls with
  | nil => rfl
  | cons l ls ih =>
    rw [List.cons_append, afterLines, h l List.mem_cons_self]
    exact ih fun l hl => h l (List.mem_cons_of_mem _ hl)

/-- What is below the first line that starts with the scissors is kept. -/
theorem afterScissors_append {above line : Bytes} (whole : Whole above)
    (plain : ∀ l ∈ lines above, SCISSORS.isPrefixOf l = false)
    (scissors : SCISSORS <+: line) (free : 10 ∉ line) (below : Bytes) :
    afterScissors (above ++ line ++ 10 :: below) = some below ∧
      afterScissors (above ++ line) = some [] := by
  have filled : line ≠ [] := by
    rintro rfl
    exact absurd scissors (by decide)
  have here : SCISSORS.isPrefixOf line = true := List.isPrefixOf_iff_prefix.mpr scissors
  have here' : SCISSORS.isPrefixOf (line ++ [10]) = true :=
    List.isPrefixOf_iff_prefix.mpr (scissors.trans (List.prefix_append _ _))
  unfold afterScissors
  constructor
  · rw [List.append_assoc, Lines.lines_append whole, afterLines_append plain,
      Lines.lines_line free, afterLines, if_pos here', Lines.flatten_lines]
  · rw [Lines.lines_append whole, afterLines_append plain, Lines.lines_last free filled, afterLines,
      if_pos here]
    rfl

theorem quotedLine_plain (line : Bytes) : SCISSORS.isPrefixOf (quotedLine line) = false := by
  unfold quotedLine
  split
  · rfl
  · rename_i plain
    rw [List.nil_append]
    by_contra starts
    have starts := List.isPrefixOf_iff_prefix.mp (Bool.eq_true_of_not_eq_false starts)
    -- the scissors hold no newline, so they would be in front of the line as well
    rcases List.prefix_concat_iff.mp starts with whole | inside
    · have : (10 : UInt8) ∈ SCISSORS := by simp [whole]
      exact absurd this (by decide)
    · apply plain
      exact List.isPrefixOf_iff_prefix.mpr (inside.trans (List.takeWhile_prefix _))

theorem line_quotedLine (line : Bytes) : Line (quotedLine line) := by
  refine ⟨_, ?_, rfl⟩
  rw [List.mem_append, not_or]
  refine ⟨?_, Lines.newline_notMem_chomp line⟩
  split <;> decide

/-- What stands above the scissors: the mail, and what is said about the line. -/
def scissorsAbove (orig : Bytes) : Bytes := quoted (lines orig) ++ (utf8 "\n" ++ SCISSORS_NOTE)

theorem whole_above (orig : Bytes) : Whole (scissorsAbove orig) := by
  right
  refine ⟨quoted (lines orig) ++ (utf8 "\n" ++ SCISSORS_NOTE).dropLast, ?_⟩
  unfold scissorsAbove
  rw [List.append_assoc]
  congr 1

theorem plain_above (orig : Bytes) :
    ∀ l ∈ lines (scissorsAbove orig), SCISSORS.isPrefixOf l = false := by
  have note : ∀ l ∈ lines (utf8 "\n" ++ SCISSORS_NOTE), SCISSORS.isPrefixOf l = false := by decide
  have mail : quoted (lines orig) = ((lines orig).map quotedLine).flatten := rfl
  have whole : ∀ l ∈ (lines orig).map quotedLine, Line l := by
    intro l hl
    obtain ⟨line, -, rfl⟩ := List.mem_map.mp hl
    exact line_quotedLine line
  intro l hl
  unfold scissorsAbove at hl
  rw [mail, Lines.lines_flatten whole, List.mem_append] at hl
  rcases hl with hl | hl
  · obtain ⟨line, -, rfl⟩ := List.mem_map.mp hl
    exact quotedLine_plain line
  · exact note l hl

/-- The template comes back from below the mail. -/
theorem afterScissors_withScissors (initial orig : Bytes) :
    ∃ t, withScissors initial orig = some t ∧ t.length < scissorsSize initial orig ∧
      afterScissors t = some initial := by
  obtain ⟨eq, size⟩ := withScissors_eq initial orig
  refine ⟨_, eq, size, ?_⟩
  have cut := (afterScissors_append (whole_above orig) (plain_above orig) (List.prefix_refl _)
    (by decide) initial).1
  rw [← cut]
  congr 1
  simp only [scissorsAbove, scissorsTail, List.append_assoc]
  rfl

/-- For every mail and every template nothing is written outside the buffer and the template is what
stands below the scissors; and whatever the user makes of the text, as long as the line is there and
no line above it starts like it, exactly what is below it is the draft. -/
theorem scissors_cut (initial orig : Bytes) :
    ∃ full, withScissors initial orig = some full ∧ full.length < scissorsSize initial orig ∧
      afterScissors full = some initial ∧
      ∀ editor temp launch raw above line below, isVim editor = false →
        temp (utf8 "compose") = true → launch full none = ⟨0, some raw⟩ →
        (cstr raw = above ++ line ++ 10 :: below ∨ cstr raw = above ++ line ∧ below = []) →
        Whole above → (∀ l ∈ lines above, SCISSORS.isPrefixOf l = false) →
        SCISSORS <+: line → 10 ∉ line →
        (editDraft editor temp launch initial (some orig)).map EditedDraft.text =
          some (if cstr raw = full ∨ below = [] then none else some below) := by
  obtain ⟨full, eq, size, cut⟩ := afterScissors_withScissors initial orig
  refine ⟨full, eq, size, cut, ?_⟩
  intro editor temp launch raw above line below novim file launched text whole plain scissors free
  have kept := afterScissors_append whole plain scissors free
  have rest : afterScissors (cstr raw) = some below := by
    rcases text with text | ⟨text, rfl⟩
    · rw [text]
      exact (kept below).1
    · rw [text]
      exact (kept []).2
  unfold editDraft
  simp only [Option.isSome_some, novim, Bool.true_and, Bool.false_and, Bool.false_eq_true, if_false,
    eq, Option.bind_eq_bind, Option.bind_some, file, launched, Option.map_some, Bool.true_eq_false,
    ne_eq, not_true_eq_false]
  by_cases same : cstr raw = full
  · simp [Option.filter_some, same]
  · simp only [same, not_false_eq_true, decide_true, Option.filter_some, if_true, rest, and_self,
      false_or]
    by_cases empty : below = []
    · simp [empty]
    · simp [empty]

namespace Sample

/-- An answer to a mail that is a scissors line itself, with the mail left out. -/
theorem answered_scissors : ∃ full, withScissors (utf8 "Subject: Re: cut\n---\n") SCISSORS = some full ∧
    (editDraft (utf8 "ed") (fun _ => true) (fun _ _ => ⟨0, some (SCISSORS ++ utf8 "\nNo.")⟩)
      (utf8 "Subject: Re: cut\n---\n") (some SCISSORS)).map EditedDraft.text =
        some (if SCISSORS ++ utf8 "\nNo." = full ∨ utf8 "No." = [] then none
          else some (utf8 "No.")) := by
  obtain ⟨full, eq, -, -, kept⟩ := scissors_cut (utf8 "Subject: Re: cut\n---\n") SCISSORS
  refine ⟨full, eq, ?_⟩
  exact kept (utf8 "ed") (fun _ => true) (fun _ _ => ⟨0, some (SCISSORS ++ utf8 "\nNo.")⟩)
    (SCISSORS ++ utf8 "\nNo.") [] SCISSORS (utf8 "No.") (by decide) rfl rfl (.inl (by decide))
    (.inl rfl) (by decide) (List.prefix_refl _) (by decide)

end Sample

end Shyake.Client
