import Shyake.Lib.Csv
import Shyake.Client.DraftStore

/-!
# Mail lists as CSV (`cli/display.c`)

Of the five fields of a row only the subject is quoted. Its quotes are doubled into a buffer,
and the loop ends where the buffer might.
-/

namespace Shyake.Client

open Lib.Csv (Cell escape plain)

/-! ## What is displayed -/

/-- `shyake_mail_entry`, as a row shows it; a subject that was not decrypted may be NULL. -/
structure ListedMail where
  mailId : Bytes
  party : Bytes
  subject : Option Bytes
  size : Int
  timestamp : Int

/-- `%.*s`: a negative precision is none. -/
def precision (n : Int) (s : Bytes) : Bytes := if n < 0 then s else s.take n.toNat

/-- `cli_format_party`, into its 256 bytes. -/
def cliFormatParty (party : Bytes) : Bytes :=
  match Bytes.cut 64 party with
  | (name, some _) => snprintf 256 (precision (toInt name.length) party ++ [64])
  | (_, none) => snprintf 256 party

/-- `cli_format_size`, into its 16 bytes. -/
def cliFormatSize (size : Int) : Bytes :=
  if size ≥ 1024 then snprintf 16 (Go.formatInt (size.tdiv 1024) ++ utf8 "K")
  else snprintf 16 (Go.formatInt size)

/-- The C library's calendar, with the time zone of the environment. `strftime` is what it leaves in
a buffer of 64 bytes. -/
structure Calendar where
  Tm : Type
  localtime : Int → Option Tm
  gmtime : Int → Option Tm
  strftime : Bytes → Tm → Bytes

/-- `cli_render_opts`, as far as a row depends on it. No offset stands for `TZ_AUTO`. -/
structure RenderOpts where
  tzHours : Option Int
  timeFmt : Option Bytes
  timeFmtRecent : Option Bytes

/-- `cli_format_timestamp`. -/
def cliFormatTimestamp (cal : Calendar) (now : Int) (opts : RenderOpts) (ts : Int) : Bytes :=
  let f := opts.timeFmt.getD (utf8 "%Y-%m-%d %H:%M")
  let tm :=
    match opts.tzHours with
    | none => cal.localtime ts
    | some hours => cal.gmtime (ts + hours * 3600)
  match tm with
  | none => utf8 "?"
  | some tm =>
    let f :=
      match opts.timeFmtRecent with
      | some recent => if now - ts < 180 * 24 * 3600 then recent else f
      | none => f
    cal.strftime f tm

/-! ## A row -/

/-- The loop that fills `escaped`, from the position `p`. -/
def escapedFrom : (p : Nat) → Bytes → Bytes
  | _, [] => []
  | p, c :: s =>
    if p < 2040 then
      if c = 34 then 34 :: c :: escapedFrom (p + 2) s else c :: escapedFrom (p + 1) s
    else []

/-- `d_subject`. -/
def displayedSubject (m : ListedMail) : Bytes := m.subject.getD (utf8 "<decryption failed>")

section

variable (cal : Calendar) (now : Int) (opts : RenderOpts)

def csvRow (m : ListedMail) : Bytes :=
  m.mailId ++ utf8 "," ++ cliFormatParty m.party ++ utf8 ",\"" ++
    escapedFrom 0 (displayedSubject m) ++ utf8 "\"," ++ cliFormatSize m.size ++ utf8 "," ++
    cliFormatTimestamp cal now opts m.timestamp ++ utf8 "\n"

/-- The rows that `cli_render_mail_list` prints. -/
def csvRows (list : List ListedMail) : Bytes := list.flatMap (csvRow cal now opts)

/-- The five fields of a mail. -/
def displayed (m : ListedMail) : List Bytes :=
  [m.mailId, cliFormatParty m.party, displayedSubject m, cliFormatSize m.size,
    cliFormatTimestamp cal now opts m.timestamp]

/-! ## When a row is read back -/

/-- A text without commas, quotes and line breaks. -/
def Unseparated (s : Bytes) : Prop := ∀ c ∈ s, plain c = true

instance (s : Bytes) : Decidable (Unseparated s) := decidable_of_iff (s.all plain = true) List.all_eq_true

/-- The last byte of a subject is still written. -/
def Escapes (subject : Bytes) : Prop := (escape subject.dropLast).length < 2040

instance (subject : Bytes) : Decidable (Escapes subject) :=
  inferInstanceAs (Decidable ((escape subject.dropLast).length < 2040))

structure RowReads (m : ListedMail) : Prop where
  mailId : Unseparated m.mailId
  party : Unseparated (cliFormatParty m.party)
  subject : Escapes (displayedSubject m)
  date : Unseparated (cliFormatTimestamp cal now opts m.timestamp)

end

/-- How many bytes of the subject the loop gets to, from the position `p`. -/
def reached : (p : Nat) → Bytes → Nat
  | _, [] => 0
  | p, c :: s => if p < 2040 then reached (p + if c = 34 then 2 else 1) s + 1 else 0

theorem escapedFrom_eq (p : Nat) (s : Bytes) : escapedFrom p s = escape (s.take (reached p s)) := by
  induction s generalizing p with
  | nil => rfl
  | cons c s ih =>
    unfold escapedFrom reached
    by_cases room : p < 2040
    · rw [if_pos room, if_pos room, List.take_succ_cons]
      by_cases quote : c = 34
      · subst quote
        rw [if_pos rfl, if_pos rfl, ih, Lib.Csv.escape_cons_quote]
      · rw [if_neg quote, if_neg quote, ih, Lib.Csv.escape_cons quote]
    · rw [if_neg room, if_neg room]
      rfl

theorem length_escape_cons (c : UInt8) (s : Bytes) :
    (escape (c :: s)).length = (if c = 34 then 2 else 1) + (escape s).length := by
  by_cases quote : c = 34
  · subst quote
    rw [Lib.Csv.escape_cons_quote, if_pos rfl, List.length_cons, List.length_cons]
    omega
  · rw [Lib.Csv.escape_cons quote, if_neg quote, List.length_cons]
    omega

theorem take_reached (p : Nat) (s : Bytes) :
    s.take (reached p s) = s ↔ s = [] ∨ p + (escape s.dropLast).length < 2040 := by
  induction s generalizing p with
  | nil => exact iff_of_true rfl (.inl rfl)
  | cons c s ih =>
    rw [or_iff_right (List.cons_ne_nil c s)]
    unfold reached
    by_cases room : p < 2040
    · rw [if_pos room, List.take_succ_cons, List.cons_inj_right, ih]
      cases s with
      | nil =>
        refine iff_of_true (.inl rfl) ?_
        rw [List.dropLast_singleton]
        exact room
      | cons d s =>
        rw [or_iff_right (List.cons_ne_nil d s), List.dropLast_cons_of_ne_nil (List.cons_ne_nil d s),
          length_escape_cons, Nat.add_assoc]
    · rw [if_neg room]
      exact iff_of_false nofun (by omega)

/-- The whole subject is escaped if its last byte is. -/
theorem escapes_iff {s : Bytes} : s.take (reached 0 s) = s ↔ Escapes s := by
  rw [take_reached, Nat.zero_add]
  refine or_iff_right_of_imp ?_
  rintro rfl
  decide

theorem plain_of_digit {c : UInt8} (h : isDigit c = true) : plain c = true := by
  have other : ∀ d : UInt8, isDigit d = false → c ≠ d := by
    rintro d no rfl
    rw [no] at h
    cases h
  unfold plain
  simp only [Bool.and_eq_true, bne_iff_ne]
  exact ⟨⟨⟨other 34 (by decide), other 44 (by decide)⟩, other 10 (by decide)⟩, other 13 (by decide)⟩

theorem unseparated_formatInt (n : Int) : Unseparated (Go.formatInt n) := by
  cases n with
  | ofNat n => exact fun c mem => plain_of_digit (isDigit_formatInt n c mem)
  | negSucc n =>
    intro c mem
    rcases List.mem_cons.mp mem with rfl | mem
    · decide
    · exact plain_of_digit (isDigit_formatInt (n + 1) c mem)

theorem unseparated_cliFormatSize (size : Int) : Unseparated (cliFormatSize size) := by
  unfold cliFormatSize
  split
  · intro c mem
    rcases List.mem_append.mp (List.mem_of_mem_take mem) with number | unit
    · exact unseparated_formatInt _ c number
    · obtain rfl : c = 75 := List.mem_singleton.mp unit
      decide
  · exact fun c mem => unseparated_formatInt _ c (List.mem_of_mem_take mem)

section

variable (cal : Calendar) (now : Int) (opts : RenderOpts)

/-- The cells of a row. -/
def cells (m : ListedMail) : List Cell :=
  let subject := displayedSubject m
  [.bare m.mailId, .bare (cliFormatParty m.party), .quoted (subject.take (reached 0 subject)) subject,
    .bare (cliFormatSize m.size), .bare (cliFormatTimestamp cal now opts m.timestamp)]

theorem csvRow_eq (m : ListedMail) :
    csvRow cal now opts m = Lib.Csv.line (cells cal now opts m) := by
  have opening : utf8 ",\"" = [44, 34] := by decide
  have closing : utf8 "\"," = [34, 44] := by decide
  have comma : utf8 "," = [44] := by decide
  have newline : utf8 "\n" = [10] := by decide
  unfold csvRow cells
  rw [escapedFrom_eq, opening, closing, comma, newline]
  simp [Lib.Csv.line, Cell.text]

theorem cells_good {m : ListedMail} :
    (∀ cell ∈ cells cal now opts m, cell.Good) ↔ RowReads cal now opts m := by
  unfold cells
  simp only [List.forall_mem_cons, List.not_mem_nil, false_imp_iff, implies_true, and_true,
    Cell.Good, escapes_iff]
  constructor
  · rintro ⟨mailId, party, subject, -, date⟩
    exact ⟨mailId, party, subject, date⟩
  · rintro ⟨mailId, party, subject, date⟩
    exact ⟨mailId, party, subject, unseparated_cliFormatSize m.size, date⟩

/-- **The rows are read back as the displayed fields** if and only if no bare field holds a comma, a
quote or a line break, and the last byte of each subject comes before the end of the buffer. -/
theorem csv_read_back (list : List ListedMail) :
    Lib.Csv.read (csvRows cal now opts list) = some (list.map (displayed cal now opts)) ↔
      ∀ m ∈ list, RowReads cal now opts m := by
  have rows : csvRows cal now opts list =
      (list.map (cells cal now opts)).flatMap Lib.Csv.line := by
    unfold csvRows
    rw [List.flatMap_map]
    exact List.flatMap_congr fun m _ => csvRow_eq cal now opts m
  have meant : list.map (displayed cal now opts) =
      (list.map (cells cal now opts)).map (·.map Cell.meant) := by
    rw [List.map_map]
    rfl
  rw [rows, meant, Lib.Csv.read_lines (by
    intro cs mem
    obtain ⟨m, -, rfl⟩ := List.mem_map.mp mem
    exact List.cons_ne_nil _ _)]
  simp only [List.forall_mem_map, cells_good]

end

namespace Sample

/-- A calendar that always prints the same day. -/
def oneDay (text : String) : Calendar where
  Tm := Unit
  localtime _ := some ()
  gmtime _ := some ()
  strftime _ _ := utf8 text

def utc : RenderOpts where
  tzHours := some 0
  timeFmt := some (utf8 "%d,%m")
  timeFmtRecent := none

def listed : ListedMail where
  mailId := utf8 "abc"
  party := utf8 "bobby@b.example"
  subject := some (utf8 "a \"b\", c")
  size := 5
  timestamp := 1749513600

/-- **A time format with a comma makes six fields.** -/
theorem comma_in_date : Lib.Csv.read (csvRows (oneDay "10,06") 0 utc [listed]) ≠
    some ([listed].map (displayed (oneDay "10,06") 0 utc)) := by
  decide

/-- The same mail with another format. -/
theorem csv_read_back_dashes : Lib.Csv.read (csvRows (oneDay "10-06") 0 utc [listed]) =
    some ([listed].map (displayed (oneDay "10-06") 0 utc)) := by
  refine (csv_read_back (oneDay "10-06") 0 utc [listed]).mpr fun m mem => ?_
  obtain rfl := List.mem_singleton.mp mem
  exact ⟨by decide, by decide, by decide, by decide⟩

end Sample

end Shyake.Client
