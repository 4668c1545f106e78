import Shyake.Client.Cli.Scissors

/-!
# The configuration file (`read_config`, `update_config_user_and_instance`)

A registration writes the user and the instance into the file: every `INSTANCE` line becomes a line
of both, and every `USERNAME` line goes. Without an `INSTANCE` line there is nothing that could
become the user's.
-/

namespace Shyake.Client

open Lines (lines chomp Line Whole fgets)

def TZ_AUTO : Int := 0x7FFFFFFF

/-- `app_config`. -/
structure AppConfig where
  instanceUrl : Option Bytes
  username : Option Bytes
  timeFormat : Option Bytes
  timeFormatRecent : Option Bytes
  checkColumns : Option Bytes
  editor : Option Bytes
  noColor : Int
  tzHours : Int
  defaultAction : Int

/-- The configuration without a file. -/
def AppConfig.initial : AppConfig := ⟨none, none, none, none, none, none, 0, TZ_AUTO, 0⟩

/-- A key and the text after its `=`; `none` for a comment and for a line without `=`. The reader and
the writer have this in the same words. -/
def configEntry (line : Bytes) : Option (Bytes × Bytes) :=
  let trimmed := trimWhitespace line
  if trimmed.head? = some 35 ∨ trimmed = [] then none
  else match Bytes.cut 61 trimmed with
    | (_, none) => none
    | (key, some val) => some (trimWhitespace key, val)

/-- A value without its quotes. -/
def unquote (val : Bytes) : Bytes :=
  match val with
  | [] => []
  | c :: rest =>
    if (c = 34 ∨ c = 39) ∧ val.getLast? = some c ∧ val.length ≥ 2 then rest.dropLast else val

/-- What `read_config` does with a key and its value. -/
def AppConfig.set (cfg : AppConfig) (key val : Bytes) : AppConfig :=
  if key = utf8 "INSTANCE" then { cfg with instanceUrl := some val }
  else if key = utf8 "USERNAME" then { cfg with username := some val }
  else if key = utf8 "TIME_FORMAT" then { cfg with timeFormat := some val }
  else if key = utf8 "TIME_FORMAT_RECENT" then { cfg with timeFormatRecent := some val }
  else if key = utf8 "CHECK_COLUMNS" then { cfg with checkColumns := some val }
  else if key = utf8 "NO_COLOR" then { cfg with noColor := atoi val }
  else if key = utf8 "TIME_ZONE" then
    { cfg with tzHours := if val = utf8 "auto" ∨ val = [] then TZ_AUTO else atoi val }
  else if key = utf8 "DEFAULT_ACTION" then { cfg with defaultAction := atoi val }
  else if key = utf8 "EDITOR" then { cfg with editor := some val }
  else cfg

/-- The loop of `read_config`; a line is the C string that `fgets` leaves. -/
def readLine (cfg : AppConfig) (line : Bytes) : AppConfig :=
  match configEntry (cstr line) with
  | none => cfg
  | some (key, val) => cfg.set key (unquote (trimWhitespace val))

def readConfig (file : Option Bytes) : AppConfig :=
  match file with
  | none => .initial
  | some content => (fgets 1024 content).foldl readLine .initial

/-- What becomes of a line. -/
def rewriteLine (username instanceUrl line : Bytes) : Bytes :=
  match configEntry (snprintf 1024 line) with
  | none => line
  | some (key, _) =>
    if key = utf8 "INSTANCE" then
      snprintf 1024 (utf8 "INSTANCE=" ++ instanceUrl ++ utf8 "\nUSERNAME=" ++ username ++ utf8 "\n")
    else if key = utf8 "USERNAME" then []
    else line

/-- `has_instance`. -/
def hasInstance (ls : List Bytes) : Bool :=
  ls.any fun line => (configEntry (snprintf 1024 line)).any fun entry => entry.1 = utf8 "INSTANCE"

/-- `update_config_user_and_instance`: what it returns, and the file. `opens` says whether the file can
be opened for writing. -/
def updateConfigUserAndInstance (opens : Bool) (username instanceUrl : Bytes) (file : Option Bytes) :
    Int × Option Bytes :=
  let ls := (fgets 1024 (file.getD [])).map cstr
  if opens = false then (-1, file)
  else (0, some ((ls.map (rewriteLine username instanceUrl)).flatten ++
    if hasInstance ls then [] else utf8 "INSTANCE=" ++ instanceUrl ++ utf8 "\n"))

/-! ## Entries -/

/-- The settings that are not the user's and the instance's. -/
def AppConfig.others (cfg : AppConfig) : AppConfig :=
  { cfg with instanceUrl := none, username := none }

theorem others_set (cfg : AppConfig) (key val : Bytes) :
    (cfg.set key val).others = (cfg.others.set key val).others := by
  unfold AppConfig.set
  simp only [apply_ite AppConfig.others]
  rfl

theorem set_instance (cfg : AppConfig) (val : Bytes) :
    cfg.set (utf8 "INSTANCE") val = { cfg with instanceUrl := some val } := by
  unfold AppConfig.set
  rw [if_pos rfl]

theorem set_username (cfg : AppConfig) (val : Bytes) :
    cfg.set (utf8 "USERNAME") val = { cfg with username := some val } := by
  unfold AppConfig.set
  rw [if_neg (by decide), if_pos rfl]

/-- Another key leaves both. -/
theorem set_other {cfg : AppConfig} {key val : Bytes} (i : key ≠ utf8 "INSTANCE")
    (u : key ≠ utf8 "USERNAME") : (cfg.set key val).instanceUrl = cfg.instanceUrl ∧
      (cfg.set key val).username = cfg.username := by
  unfold AppConfig.set
  rw [if_neg i, if_neg u]
  constructor
  · simp only [apply_ite AppConfig.instanceUrl, ite_self]
  · simp only [apply_ite AppConfig.username, ite_self]

/-- What stands before the first `=`, and after it. -/
theorem configEntry_split {a : Bytes}
    (first : ∀ c, (a ++ [61]).head? = some c → blank c = false ∧ c ≠ 35) (noEq : 61 ∉ a)
    (val : Bytes) :
    configEntry (a ++ 61 :: val) = some (trimWhitespace a, val.rdropWhile blank) := by
  have key : Trimmed (a ++ [61]) := by
    refine ⟨fun c hc => (first c hc).1, fun c hc => ?_⟩
    rw [List.getLast?_concat, Option.some.injEq] at hc
    exact hc ▸ rfl
  have front : trimWhitespace (a ++ 61 :: val) = a ++ 61 :: val.rdropWhile blank := by
    have := trim_append (by simp) key val
    simpa using this
  unfold configEntry
  rw [front]
  dsimp only
  rw [if_neg, Bytes.cut_append noEq]
  rintro (hash | empty)
  · have : (a ++ [61]).head? = some 35 := by
      cases a with
      | nil => cases hash
      | cons c a => exact hash
    exact (first 35 this).2 rfl
  · simp at empty

/-- A name without blanks at its ends, an `=` and a text. -/
theorem configEntry_eq {name : Bytes} (filled : name ≠ []) (solid : Trimmed name)
    (noHash : name.head? ≠ some 35) (noEq : 61 ∉ name) (val : Bytes) :
    configEntry (name ++ 61 :: val) = some (name, val.rdropWhile blank) := by
  rw [configEntry_split (fun c hc => ?_) noEq, trim_of_trimmed solid]
  rw [List.head?_append_of_ne_nil _ filled] at hc
  exact ⟨solid.1 c hc, fun eq => noHash (eq ▸ hc)⟩

theorem configEntry_of_noEq {l : Bytes} (h : 61 ∉ l) : configEntry l = none := by
  unfold configEntry
  dsimp only
  split
  · rfl
  · rw [Bytes.cut_eq_none fun mem => h (trim_subset _ mem)]

/-! ## What is written -/

/-- A user or an instance: no white space, no quotes, and it is a C string. -/
def Plain (s : Bytes) : Prop := ∀ c ∈ s, isspace c = false ∧ c ≠ 34 ∧ c ≠ 39 ∧ c ≠ 0

instance (s : Bytes) : Decidable (Plain s) := inferInstanceAs (Decidable (∀ c ∈ s, _))

theorem solid_of_plain {s : Bytes} (h : Plain s) : ∀ c ∈ s, blank c = false := by
  intro c mem
  by_contra b
  have space : isspace c = true := by
    unfold blank at b
    simp only [Bool.not_eq_false, Bool.or_eq_true, beq_iff_eq] at b
    rcases b with ((rfl | rfl) | rfl) | rfl <;> rfl
  rw [(h c mem).1] at space
  cases space

theorem trimmed_of_plain {s : Bytes} (h : Plain s) : Trimmed s :=
  ⟨fun c hc => solid_of_plain h c (List.mem_of_head? hc),
    fun c hc => solid_of_plain h c (List.mem_of_getLast? hc)⟩

theorem newline_notMem_of_plain {s : Bytes} (h : Plain s) : 10 ∉ s := by
  intro mem
  have := (h 10 mem).1
  revert this
  decide

theorem unquote_of_plain {s : Bytes} (h : Plain s) : unquote s = s := by
  cases s with
  | nil => rfl
  | cons c s =>
    have := h c List.mem_cons_self
    unfold unquote
    simp [this.2.1, this.2.2.1]

/-- A line of a plain value sets it. -/
theorem readLine_plain {name val : Bytes} (filled : name ≠ []) (solid : Trimmed name)
    (noHash : name.head? ≠ some 35) (noEq : 61 ∉ name) (free : NulFree name) (h : Plain val)
    (cfg : AppConfig) : readLine cfg (name ++ 61 :: val ++ [10]) = cfg.set name val := by
  have newline : ∀ c ∈ ([10] : Bytes), blank c = true := by simp [blank]
  have cstring : cstr (name ++ 61 :: val ++ [10]) = name ++ 61 :: val ++ [10] := by
    apply cstr_of_nulFree
    intro zero
    simp only [List.mem_append, List.mem_cons, List.not_mem_nil, or_false] at zero
    rcases zero with (zero | zero | zero) | zero
    · exact free zero
    · cases zero
    · exact (h 0 zero).2.2.2 rfl
    · cases zero
  unfold readLine
  rw [cstring, List.append_assoc, List.cons_append, configEntry_eq filled solid noHash noEq]
  dsimp only
  rw [trim_rdropWhile, trim_end newline, trim_of_trimmed (trimmed_of_plain h), unquote_of_plain h]

theorem readLine_instance {i : Bytes} (h : Plain i) (cfg : AppConfig) :
    readLine cfg (utf8 "INSTANCE" ++ 61 :: i ++ [10]) = { cfg with instanceUrl := some i } := by
  rw [readLine_plain (by decide) (by decide) (by decide) (by decide) (by decide) h, set_instance]

theorem readLine_username {u : Bytes} (h : Plain u) (cfg : AppConfig) :
    readLine cfg (utf8 "USERNAME" ++ 61 :: u ++ [10]) = { cfg with username := some u } := by
  rw [readLine_plain (by decide) (by decide) (by decide) (by decide) (by decide) h, set_username]

/-- What replaces an `INSTANCE` line. -/
def block (u i : Bytes) : Bytes :=
  (utf8 "INSTANCE" ++ 61 :: i ++ [10]) ++ (utf8 "USERNAME" ++ 61 :: u ++ [10])

theorem lines_setting {name val : Bytes} (free : 10 ∉ name) (h : Plain val) (s : Bytes) :
    lines (name ++ 61 :: val ++ [10] ++ s) = (name ++ 61 :: val ++ [10]) :: lines s := by
  have no : 10 ∉ name ++ 61 :: val := by
    simp only [List.mem_append, List.mem_cons, not_or]
    exact ⟨free, by decide, newline_notMem_of_plain h⟩
  rw [List.append_assoc _ [10] s, List.singleton_append, Lines.lines_line no]

theorem lines_block {u i : Bytes} (hu : Plain u) (hi : Plain i) : lines (block u i) =
    [utf8 "INSTANCE" ++ 61 :: i ++ [10], utf8 "USERNAME" ++ 61 :: u ++ [10]] := by
  unfold block
  rw [lines_setting (by decide) hi]
  have last := lines_setting (by decide : 10 ∉ utf8 "USERNAME") hu []
  rw [List.append_nil] at last
  rw [last]
  rfl

theorem block_eq {u i : Bytes} (hu : u.length ≤ 450) (hi : i.length ≤ 450) :
    snprintf 1024 (utf8 "INSTANCE=" ++ i ++ utf8 "\nUSERNAME=" ++ u ++ utf8 "\n") = block u i := by
  have instance_ : utf8 "INSTANCE=" = utf8 "INSTANCE" ++ [61] := by decide
  have username : utf8 "\nUSERNAME=" = 10 :: utf8 "USERNAME" ++ [61] := by decide
  have newline : utf8 "\n" = [10] := by decide
  have len : (utf8 "INSTANCE").length = 8 ∧ (utf8 "USERNAME").length = 8 := by decide
  unfold snprintf block
  rw [instance_, username, newline, List.take_of_length_le]
  · simp
  · simp only [List.length_append, List.length_cons, List.length_nil, len.1, len.2]
    omega

/-! ## Reading what is written -/

/-- The key of a line is `name`. -/
def HasKey (name line : Bytes) : Prop := ∃ val, configEntry (cstr line) = some (name, val)

/-- A line of a file. -/
def OfFile (l : Bytes) : Prop := (Line l ∨ 10 ∉ l) ∧ l.length < 1024

theorem cstr_idem (s : Bytes) : cstr (cstr s) = cstr s := by
  apply cstr_of_nulFree
  intro zero
  simpa using List.mem_takeWhile_imp zero

theorem cstr_length_le (s : Bytes) : (cstr s).length ≤ s.length :=
  (List.takeWhile_prefix _).length_le

/-- A line becomes the block, nothing, or the C string that it is. -/
theorem rewriteLine_cases {u i l : Bytes} (hu : u.length ≤ 450) (hi : i.length ≤ 450)
    (short : l.length < 1024) :
    (HasKey (utf8 "INSTANCE") l ∧ rewriteLine u i (cstr l) = block u i) ∨
      (HasKey (utf8 "USERNAME") l ∧ ¬HasKey (utf8 "INSTANCE") l ∧ rewriteLine u i (cstr l) = []) ∨
      (¬HasKey (utf8 "INSTANCE") l ∧ ¬HasKey (utf8 "USERNAME") l ∧ rewriteLine u i (cstr l) = cstr l) := by
  have whole : snprintf 1024 (cstr l) = cstr l := by
    have := cstr_length_le l
    exact List.take_of_length_le (by omega)
  unfold rewriteLine HasKey
  rw [whole, block_eq hu hi]
  cases entry : configEntry (cstr l) with
  | none => simp
  | some e =>
    obtain ⟨key, val⟩ := e
    by_cases isInstance : key = utf8 "INSTANCE"
    · subst isInstance
      exact .inl ⟨⟨val, rfl⟩, if_pos rfl⟩
    · by_cases isUsername : key = utf8 "USERNAME"
      · subst isUsername
        right; left
        exact ⟨⟨val, rfl⟩, by simp [isInstance], by dsimp only; rw [if_neg isInstance, if_pos rfl]⟩
      · right; right
        refine ⟨by simp [isInstance], by simp [isUsername], ?_⟩
        dsimp only
        rw [if_neg isInstance, if_neg isUsername]

/-- The C string of a line is one line, or nothing. -/
theorem lines_cstr {l : Bytes} (h : Line l ∨ 10 ∉ l) :
    cstr l = [] ∨ lines (cstr l) = [cstr l] := by
  have one : ∀ s : Bytes, 10 ∉ s → s = [] ∨ lines s = [s] := by
    intro s free
    by_cases empty : s = []
    · exact .inl empty
    · exact .inr (Lines.lines_last free empty)
  rcases h with ⟨t, free, rfl⟩ | free
  · by_cases nul : NulFree t
    · right
      have whole : cstr (t ++ [10]) = t ++ [10] := by
        apply cstr_of_nulFree
        rw [NulFree, List.mem_append, not_or]
        exact ⟨nul, by decide⟩
      rw [whole, Lines.lines_line free]
      rfl
    · apply one
      have front : cstr (t ++ [10]) = cstr t := by
        unfold cstr
        rw [List.takeWhile_append, if_neg]
        intro all
        rw [List.takeWhile_prefix _ |>.eq_of_length all |>.symm] at nul
        exact nul fun zero => by simpa using List.mem_takeWhile_imp zero
      rw [front]
      exact fun mem => free ((List.takeWhile_prefix _).subset mem)
  · exact one _ fun mem => free ((List.takeWhile_prefix _).subset mem)

/-- What has been read of the old file, and of the new one: the user and the instance are those given
once an `INSTANCE` line was met, and before that there are none. -/
structure ReadAlike (u i : Bytes) (met : Prop) (old new : AppConfig) : Prop where
  others : new.others = old.others
  given : met → new.username = some u ∧ new.instanceUrl = some i
  absent : ¬met → new.username = none ∧ new.instanceUrl = none

theorem readLine_others {old new : AppConfig} (h : new.others = old.others) (l : Bytes) :
    (readLine new l).others = (readLine old l).others := by
  unfold readLine
  cases configEntry (cstr l) with
  | none => exact h
  | some e =>
    dsimp only
    rw [others_set, h, ← others_set]

/-- A line of another key leaves the user and the instance. -/
theorem readLine_other {l : Bytes} (i : ¬HasKey (utf8 "INSTANCE") l)
    (u : ¬HasKey (utf8 "USERNAME") l) (cfg : AppConfig) :
    (readLine cfg l).instanceUrl = cfg.instanceUrl ∧ (readLine cfg l).username = cfg.username := by
  unfold readLine HasKey at *
  cases entry : configEntry (cstr l) with
  | none => exact ⟨rfl, rfl⟩
  | some e =>
    rw [entry] at i u
    exact set_other (fun eq => i ⟨e.2, by rw [← eq]⟩) fun eq => u ⟨e.2, by rw [← eq]⟩

theorem others_of_key {name : Bytes} (h : name = utf8 "INSTANCE" ∨ name = utf8 "USERNAME") {l : Bytes}
    (key : HasKey name l) (cfg : AppConfig) : (readLine cfg l).others = cfg.others := by
  obtain ⟨val, entry⟩ := key
  unfold readLine
  rw [entry]
  dsimp only
  rcases h with rfl | rfl
  · rw [set_instance]
    rfl
  · rw [set_username]
    rfl

variable {u i : Bytes}

/-- A line read from the old file, and what became of it from the new one. -/
theorem ReadAlike.line {met : Prop} {old new : AppConfig} (h : ReadAlike u i met old new)
    (hu : Plain u) (hi : Plain i) (lu : u.length ≤ 450) (li : i.length ≤ 450) {l : Bytes}
    (file : OfFile l) : ReadAlike u i (met ∨ HasKey (utf8 "INSTANCE") l) (readLine old l)
      ((lines (rewriteLine u i (cstr l))).foldl readLine new) := by
  rcases rewriteLine_cases lu li file.2 with ⟨key, eq⟩ | ⟨key, noInstance, eq⟩ | ⟨noInstance, noUser, eq⟩
  · have others := others_of_key (.inl rfl) key old
    rw [eq, lines_block hu hi, List.foldl_cons, List.foldl_cons, List.foldl_nil,
      readLine_instance hi, readLine_username hu]
    exact ⟨h.others.trans others.symm, fun _ => ⟨rfl, rfl⟩, fun no => absurd (.inr key) no⟩
  · have others := others_of_key (.inr rfl) key old
    rw [eq, Lines.lines_nil, List.foldl_nil]
    refine ⟨h.others.trans others.symm, fun m => h.given ?_, fun no => h.absent fun m => no (.inl m)⟩
    exact m.resolve_right noInstance
  · have same : ∀ cfg, (lines (cstr l)).foldl readLine cfg = readLine cfg l := by
      intro cfg
      rcases lines_cstr file.1 with empty | one
      · have nothing : readLine cfg l = cfg := by
          unfold readLine
          rw [empty]
          rfl
        rw [empty, nothing]
        rfl
      · rw [one, List.foldl_cons, List.foldl_nil]
        unfold readLine
        rw [cstr_idem]
    have kept := readLine_other noInstance noUser new
    rw [eq, same]
    refine ⟨readLine_others h.others l, fun m => ?_, fun no => ?_⟩
    · rw [kept.1, kept.2]
      exact h.given (m.resolve_right noInstance)
    · rw [kept.1, kept.2]
      exact h.absent fun m => no (.inl m)

/-- A line that is written with a newline at its end, or not at all. -/
def Closed (l : Bytes) : Prop :=
  Line l ∧ (NulFree l ∨ HasKey (utf8 "INSTANCE") l ∨ HasKey (utf8 "USERNAME") l)

theorem whole_rewriteLine (lu : u.length ≤ 450) (li : i.length ≤ 450) {l : Bytes}
    (short : l.length < 1024) (h : Closed l) : Whole (rewriteLine u i (cstr l)) := by
  rcases rewriteLine_cases lu li short with ⟨-, eq⟩ | ⟨-, -, eq⟩ | ⟨noInstance, noUser, eq⟩
  · rw [eq]
    exact .inr ⟨utf8 "INSTANCE" ++ 61 :: i ++ [10] ++ (utf8 "USERNAME" ++ 61 :: u),
      (List.append_assoc _ _ _).symm⟩
  · rw [eq]
    exact .inl rfl
  · obtain ⟨⟨t, -, rfl⟩, nul⟩ := h
    rw [eq, cstr_of_nulFree (nul.resolve_right fun key => key.elim noInstance noUser)]
    exact .inr ⟨t, rfl⟩

/-- What the lines become. -/
def rewritten (u i : Bytes) (ls : List Bytes) : Bytes := ls.flatMap fun l => rewriteLine u i (cstr l)

/-- `fgets` reads what a line became in its lines. -/
theorem fgets_rewriteLine (hu : Plain u) (hi : Plain i) (lu : u.length ≤ 450) (li : i.length ≤ 450)
    {l : Bytes} (file : OfFile l) :
    fgets 1024 (rewriteLine u i (cstr l)) = Lines.lines (rewriteLine u i (cstr l)) := by
  have len : (utf8 "INSTANCE").length = 8 ∧ (utf8 "USERNAME").length = 8 := by decide
  apply Lines.fgets_eq_lines
  rcases rewriteLine_cases lu li file.2 with ⟨-, eq⟩ | ⟨-, -, eq⟩ | ⟨-, -, eq⟩
  · rw [eq, lines_block hu hi]
    simp only [List.mem_cons, List.not_mem_nil, or_false, forall_eq_or_imp, forall_eq,
      List.length_append, List.length_cons, List.length_nil, len.1, len.2]
    omega
  · rw [eq]
    nofun
  · rw [eq]
    have short := lt_of_le_of_lt (cstr_length_le l) file.2
    rcases lines_cstr file.1 with empty | one
    · rw [empty]
      nofun
    · rw [one]
      simpa using short

/-- All lines of the old file, and all of the new one. -/
theorem ReadAlike.lines (hu : Plain u) (hi : Plain i) (lu : u.length ≤ 450) (li : i.length ≤ 450)
    {ls : List Bytes} (file : ∀ l ∈ ls, OfFile l) (closed : ∀ l ∈ ls.dropLast, Closed l)
    {met : Prop} {old new : AppConfig} (h : ReadAlike u i met old new) :
    ReadAlike u i (met ∨ ∃ l ∈ ls, HasKey (utf8 "INSTANCE") l) (ls.foldl readLine old)
      ((fgets 1024 (rewritten u i ls)).foldl readLine new) := by
  induction ls generalizing met old new with
  | nil =>
    have nothing : fgets 1024 (rewritten u i []) = [] := rfl
    simpa [nothing] using h
  | cons l ls ih =>
    have one := h.line hu hi lu li (file l List.mem_cons_self)
    rw [← fgets_rewriteLine hu hi lu li (file l List.mem_cons_self)] at one
    have met_iff : (met ∨ HasKey (utf8 "INSTANCE") l) ∨ (∃ x ∈ ls, HasKey (utf8 "INSTANCE") x) ↔
        met ∨ ∃ x ∈ l :: ls, HasKey (utf8 "INSTANCE") x := by
      simp [or_assoc]
    cases ls with
    | nil => simpa [rewritten] using one
    | cons k ls =>
      have whole := whole_rewriteLine lu li (file l List.mem_cons_self).2 (closed l (by simp))
      have rest := ih (fun x hx => file x (List.mem_cons_of_mem _ hx))
        (fun x hx => closed x (by rw [List.dropLast_cons_cons]; exact List.mem_cons_of_mem _ hx)) one
      have parts : rewritten u i (l :: k :: ls) =
        rewriteLine u i (cstr l) ++ rewritten u i (k :: ls) := rfl
      rw [parts, Lines.fgets_append whole, List.foldl_append, List.foldl_cons]
      rwa [propext met_iff] at rest

/-! ## Without an `INSTANCE` line -/

/-- What is appended when there is no `INSTANCE` line. -/
def appended (i : Bytes) : Bytes := utf8 "INSTANCE" ++ 61 :: (i ++ [10])

theorem configEntry_front {b : Bytes} (h : ∀ c ∈ b, blank c = true) (s : Bytes) :
    configEntry (b ++ s) = configEntry s := by
  unfold configEntry
  rw [trim_front h]

theorem configEntry_comment (s : Bytes) : configEntry (35 :: s) = none := by
  have front : trimWhitespace ([35] ++ s) = [35] ++ s.rdropWhile blank :=
    trim_append (by simp) (by decide) s
  rw [List.singleton_append] at front
  unfold configEntry
  rw [front]
  rfl

/-- A front of what is appended holds its `=`, or not. -/
theorem front_of_appended {t : Bytes} (h : t <+: appended i) :
    61 ∉ t ∨ ∃ w, t = utf8 "INSTANCE" ++ 61 :: w := by
  obtain ⟨r, hr⟩ := h
  rcases List.append_eq_append_iff.mp hr with ⟨a, name, -⟩ | ⟨c, eq, rest⟩
  · left
    intro mem
    have : (61 : UInt8) ∈ utf8 "INSTANCE" := name ▸ List.mem_append_left _ mem
    exact absurd this (by decide)
  · cases c with
    | nil =>
      left
      rw [eq, List.append_nil]
      decide
    | cons x w =>
      rw [List.cons_append, List.cons.injEq] at rest
      rw [← rest.1] at eq
      exact .inr ⟨w, eq⟩

/-- The entry of a line that a front of what is appended is glued to: that of the line, none, or the
instance as far as it is in the front. -/
theorem configEntry_glued {p t : Bytes} (front : t <+: appended i) :
    configEntry (p ++ t) = none ∨
      (∃ key v v', configEntry p = some (key, v) ∧ configEntry (p ++ t) = some (key, v')) ∨
      (∃ key v, configEntry (p ++ t) = some (key, v) ∧ key.length > 8) ∨
      ∃ w, t = utf8 "INSTANCE" ++ 61 :: w ∧
        configEntry (p ++ t) = some (utf8 "INSTANCE", w.rdropWhile blank) := by
  have parts := List.takeWhile_append_dropWhile (p := blank) (l := p)
  have blanks : ∀ c ∈ p.takeWhile blank, blank c = true := fun _ h => List.mem_takeWhile_imp h
  have stop := List.head?_dropWhile_not blank p
  generalize p.takeWhile blank = b at parts blanks
  generalize p.dropWhile blank = d at parts stop
  subst parts
  rw [List.append_assoc, configEntry_front blanks, configEntry_front blanks]
  cases d with
  | nil =>
    rcases front_of_appended front with noEq | ⟨w, rfl⟩
    · exact .inl (configEntry_of_noEq noEq)
    · exact .inr (.inr (.inr ⟨w, rfl, configEntry_eq (by decide) (by decide) (by decide) (by decide) w⟩))
  | cons c d =>
    have solid : blank c = false := stop
    by_cases hash : c = 35
    · subst hash
      exact .inl (configEntry_comment _)
    · by_cases eq : 61 ∈ c :: d
      · obtain ⟨a, x, here, noEq⟩ := List.eq_append_cons_of_mem eq
        have first : ∀ y, (a ++ [61]).head? = some y → blank y = false ∧ y ≠ 35 := by
          intro y hy
          have : (c :: d).head? = some y := by
            rw [here]
            cases a with
            | nil => exact hy
            | cons z a => exact hy
          cases this
          exact ⟨solid, hash⟩
        right; left
        rw [here, List.append_assoc, List.cons_append, configEntry_split first noEq,
          configEntry_split first noEq]
        exact ⟨_, _, _, rfl, rfl⟩
      · rcases front_of_appended front with noEq | ⟨w, rfl⟩
        · left
          apply configEntry_of_noEq
          rw [List.mem_append, not_or]
          exact ⟨eq, noEq⟩
        · right; right; left
          have name : Trimmed (c :: d ++ utf8 "INSTANCE") := by
            refine ⟨fun y hy => ?_, fun y hy => ?_⟩
            · cases hy
              exact solid
            · rw [List.getLast?_append_of_ne_nil _ (by decide)] at hy
              have last : (utf8 "INSTANCE").getLast? = some 69 := by decide
              rw [last] at hy
              cases hy
              rfl
          have noEq : 61 ∉ c :: d ++ utf8 "INSTANCE" := by
            rw [List.mem_append, not_or]
            exact ⟨eq, by decide⟩
          rw [← List.append_assoc]
          refine ⟨_, _, configEntry_eq (by simp) name (by simpa using hash) noEq w, ?_⟩
          have : (utf8 "INSTANCE").length = 8 := by decide
          simp only [List.length_append, List.length_cons, this]
          omega

/-- Behind a last line that has neither key, a front of what is appended sets at most the instance,
and only to what is in that front. -/
theorem readLine_glued {p t : Bytes} (nul : NulFree (p ++ t))
    (noInstance : ¬HasKey (utf8 "INSTANCE") p) (noUser : ¬HasKey (utf8 "USERNAME") p)
    (front : t <+: appended i) (cfg : AppConfig) :
    (readLine cfg (p ++ t)).username = cfg.username ∧
      ((readLine cfg (p ++ t)).instanceUrl = cfg.instanceUrl ∨
        ∃ w, t = utf8 "INSTANCE" ++ 61 :: w ∧
          (readLine cfg (p ++ t)).instanceUrl = some (unquote (trimWhitespace w))) := by
  have nulp : NulFree p := fun zero => nul (List.mem_append_left _ zero)
  have len : (utf8 "INSTANCE").length = 8 ∧ (utf8 "USERNAME").length = 8 := by decide
  unfold HasKey at noInstance noUser
  rw [cstr_of_nulFree nulp] at noInstance noUser
  have keep : ∀ key v, key ≠ utf8 "INSTANCE" → key ≠ utf8 "USERNAME" →
      configEntry (p ++ t) = some (key, v) →
      (readLine cfg (p ++ t)).username = cfg.username ∧
        (readLine cfg (p ++ t)).instanceUrl = cfg.instanceUrl := by
    intro key v hi hu entry
    unfold readLine
    rw [cstr_of_nulFree nul, entry]
    exact (set_other hi hu).symm
  rcases configEntry_glued front with none | ⟨key, v, v', old, entry⟩ | ⟨key, v, entry, long⟩ | ⟨w, eq, entry⟩
  · unfold readLine
    rw [cstr_of_nulFree nul, none]
    exact ⟨rfl, .inl rfl⟩
  · have kept := keep key v' (fun eq => noInstance ⟨v, eq ▸ old⟩) (fun eq => noUser ⟨v, eq ▸ old⟩) entry
    exact ⟨kept.1, .inl kept.2⟩
  · have kept := keep key v (fun eq => by rw [eq] at long; omega) (fun eq => by rw [eq] at long; omega)
      entry
    exact ⟨kept.1, .inl kept.2⟩
  · unfold readLine
    rw [cstr_of_nulFree nul, entry]
    dsimp only
    rw [set_instance, trim_rdropWhile]
    exact ⟨rfl, .inr ⟨w, eq, rfl⟩⟩

/-- Another key leaves the user. -/
theorem readLine_username_of_noKey {l : Bytes} (h : ¬HasKey (utf8 "USERNAME") l) (cfg : AppConfig) :
    (readLine cfg l).username = cfg.username := by
  by_cases i : HasKey (utf8 "INSTANCE") l
  · obtain ⟨v, entry⟩ := i
    unfold readLine
    rw [entry]
    dsimp only
    rw [set_instance]
  · exact (readLine_other i h cfg).2

/-- The user's key leaves the instance. -/
theorem readLine_instance_of_key {l : Bytes} (h : HasKey (utf8 "USERNAME") l) (cfg : AppConfig) :
    (readLine cfg l).instanceUrl = cfg.instanceUrl := by
  obtain ⟨v, entry⟩ := h
  unfold readLine
  rw [entry]
  dsimp only
  rw [set_username]

/-- Both keys are never set behind a last line that has neither. -/
theorem not_both_glued {p : Bytes} (hi : Plain i) (li : i.length ≤ 450) (nul : NulFree p) (line : 10 ∉ p)
    (short : p.length ≤ 1023) (noInstance : ¬HasKey (utf8 "INSTANCE") p)
    (noUser : ¬HasKey (utf8 "USERNAME") p) {new : AppConfig} (username : new.username = none)
    (instanceUrl : new.instanceUrl = none) (u : Bytes) :
    ¬(((fgets 1024 (p ++ appended i)).foldl readLine new).username = some u ∧
      ((fgets 1024 (p ++ appended i)).foldl readLine new).instanceUrl = some i) := by
  rintro ⟨user, inst⟩
  have text : appended i = (utf8 "INSTANCE" ++ 61 :: i) ++ [10] := by simp [appended]
  have noNewline : 10 ∉ utf8 "INSTANCE" ++ 61 :: i := by
    simp only [List.mem_append, List.mem_cons, not_or]
    exact ⟨by decide, by decide, newline_notMem_of_plain hi⟩
  have nulAll : NulFree (p ++ appended i) := by
    unfold NulFree appended
    simp only [List.mem_append, List.mem_cons, not_or]
    exact ⟨nul, by decide, by decide, fun mem => (hi 0 mem).2.2.2 rfl, by decide⟩
  have len : (utf8 "INSTANCE").length = 8 := by decide
  have size : (appended i).length = 10 + i.length := by
    simp only [appended, List.length_append, List.length_cons, List.length_nil, len]
    omega
  by_cases fits : p.length + (appended i).length ≤ 1023
  · -- one line, which does not set the user
    have one : fgets 1024 (p ++ appended i) = [p ++ appended i] := by
      unfold fgets
      rw [text, ← List.append_assoc]
      rw [text, List.length_append, List.length_singleton] at fits
      rw [Lines.fgetsFrom_line (by rw [List.mem_append, not_or]; exact ⟨line, noNewline⟩)
        (by rw [List.length_append]; omega)]
      rfl
    rw [one, List.foldl_cons, List.foldl_nil] at user
    rw [(readLine_glued nulAll noInstance noUser (List.prefix_refl _) new).1, username] at user
    cases user
  · -- two parts, of which only the second can set the user, and the first the instance
    obtain ⟨t, s, cut, room⟩ : ∃ t s, utf8 "INSTANCE" ++ 61 :: i = t ++ s ∧ (p ++ t).length = 1023 := by
      refine ⟨(utf8 "INSTANCE" ++ 61 :: i).take (1023 - p.length), _,
        (List.take_append_drop (1023 - p.length) _).symm, ?_⟩
      rw [text, List.length_append, List.length_singleton] at size fits
      rw [List.length_append, List.length_take]
      omega
    have front : t <+: appended i := by
      rw [text, cut, List.append_assoc]
      exact List.prefix_append _ _
    have noNewline_t : 10 ∉ p ++ t := by
      rw [List.mem_append, not_or]
      exact ⟨line, fun mem => noNewline (cut ▸ List.mem_append_left _ mem)⟩
    have noNewline_s : 10 ∉ s := fun mem => noNewline (cut ▸ List.mem_append_right _ mem)
    have two : fgets 1024 (p ++ appended i) = [p ++ t, s ++ [10]] := by
      have lengths := congrArg List.length cut
      rw [text, List.length_append, List.length_singleton] at size
      rw [@List.length_append _ t s] at lengths
      have first : Lines.fgetsFrom 1023 (p ++ t).length (p ++ t ++ (s ++ [10])) =
          (p ++ t) :: Lines.fgetsFrom 1023 1023 (s ++ [10]) :=
        Lines.fgetsFrom_full noNewline_t (by rw [← List.length_pos_iff]; omega) _
      rw [room] at first
      unfold fgets
      rw [text, cut, List.append_assoc t, ← List.append_assoc p, first,
        Lines.fgetsFrom_line noNewline_s (by omega)]
      rfl
    have nul_t : NulFree (p ++ t) := by
      intro zero
      apply nulAll
      obtain ⟨r, hr⟩ := front
      rw [← hr, ← List.append_assoc]
      exact List.mem_append_left _ zero
    have glued := readLine_glued nul_t noInstance noUser front new
    rw [two, List.foldl_cons, List.foldl_cons, List.foldl_nil] at user inst
    by_cases key : HasKey (utf8 "USERNAME") (s ++ [10])
    · rw [readLine_instance_of_key key] at inst
      rcases glued.2 with none | ⟨w, eq, some⟩
      · rw [none, instanceUrl] at inst
        cases inst
      · rw [eq, List.append_assoc, List.cons_append] at cut
        have whole := (List.cons.inj (List.append_cancel_left cut)).2
        have plain : Plain w := fun c mem => hi c (whole ▸ List.mem_append_left _ mem)
        rw [some, trim_of_trimmed (trimmed_of_plain plain), unquote_of_plain plain,
          Option.some.injEq] at inst
        rw [inst] at whole
        have nothing : s = [] := List.self_eq_append_right.mp whole
        have none : configEntry (cstr [10]) = none := by decide
        obtain ⟨v, entry⟩ := key
        rw [nothing, List.nil_append, none] at entry
        cases entry
    · rw [readLine_username_of_noKey key, glued.1, username] at user
      cases user

/-! ## The configuration after an update -/

/-- The file reads as this user and this instance, and otherwise as before. -/
structure Updated (u i : Bytes) (old new : AppConfig) : Prop where
  username : new.username = some u
  instanceUrl : new.instanceUrl = some i
  others : new.others = old.others

/-- Lines shorter than 1023 bytes; one with a NUL byte is the last, or has one of the two keys. -/
structure ConfigText (content : Bytes) : Prop where
  short : ∀ l ∈ lines content, (chomp l).length < 1023
  closed : ∀ l ∈ (lines content).dropLast,
    NulFree l ∨ HasKey (utf8 "INSTANCE") l ∨ HasKey (utf8 "USERNAME") l

theorem ConfigText.ofFile {content : Bytes} (h : ConfigText content) :
    ∀ l ∈ lines content, OfFile l := by
  intro l mem
  have short := h.short l mem
  rcases Lines.mem_lines mem with ⟨t, free, rfl⟩ | ⟨free, -, -⟩
  · rw [Lines.chomp_line free] at short
    refine ⟨.inl ⟨t, free, rfl⟩, ?_⟩
    rw [List.length_append, List.length_singleton]
    omega
  · rw [Lines.chomp_last free] at short
    exact ⟨.inr free, by omega⟩

/-- Every line but the last ends with its newline. -/
theorem line_of_dropLast (content : Bytes) : ∀ l ∈ (lines content).dropLast, Line l := by
  induction content using Lines.induction_lines with
  | nil => nofun
  | last t free filled =>
    rw [Lines.lines_last free filled]
    nofun
  | line t s free ih =>
    intro l mem
    rw [Lines.lines_line free] at mem
    cases rest : Lines.lines s with
    | nil =>
      rw [rest] at mem
      cases mem
    | cons k ls =>
      rw [rest, List.dropLast_cons_cons, List.mem_cons] at mem
      rcases mem with rfl | mem
      · exact ⟨t, free, rfl⟩
      · exact ih l (rest ▸ mem)

theorem ConfigText.closed_lines {content : Bytes} (h : ConfigText content) :
    ∀ l ∈ (lines content).dropLast, Closed l :=
  fun l mem => ⟨line_of_dropLast content l mem, h.closed l mem⟩

theorem ConfigText.fgets {content : Bytes} (h : ConfigText content) :
    Lines.fgets 1024 content = lines content :=
  Lines.fgets_eq_lines fun l mem => (h.ofFile l mem).2

/-- Whether a line of a file has the key `INSTANCE`. -/
def HasInstance (content : Bytes) : Prop := ∃ l ∈ lines content, HasKey (utf8 "INSTANCE") l

theorem hasInstance_iff {content : Bytes} (h : ConfigText content) :
    hasInstance ((lines content).map cstr) = true ↔ HasInstance content := by
  have whole : ∀ l ∈ lines content, snprintf 1024 (cstr l) = cstr l := by
    intro l mem
    have := cstr_length_le l
    have := (h.ofFile l mem).2
    exact List.take_of_length_le (by omega)
  unfold hasInstance HasInstance HasKey
  rw [List.any_map, List.any_eq_true]
  constructor
  · rintro ⟨l, mem, key⟩
    rw [Function.comp_apply, whole l mem, Option.any_eq_true] at key
    obtain ⟨⟨key, v⟩, entry, eq⟩ := key
    have eq : key = utf8 "INSTANCE" := of_decide_eq_true eq
    exact ⟨l, mem, v, by rw [entry, eq]⟩
  · rintro ⟨l, mem, v, entry⟩
    refine ⟨l, mem, ?_⟩
    rw [Function.comp_apply, whole l mem, entry]
    simp

/-- Nothing has been read. -/
theorem readAlike_initial (u i : Bytes) : ReadAlike u i False .initial .initial :=
  ⟨rfl, False.elim, fun _ => ⟨rfl, rfl⟩⟩

/-- Lines that are closed become a text that is. -/
theorem whole_rewritten (lu : u.length ≤ 450) (li : i.length ≤ 450) {ls : List Bytes}
    (file : ∀ l ∈ ls, OfFile l) (closed : ∀ l ∈ ls, Closed l) : Whole (rewritten u i ls) := by
  induction ls with
  | nil => exact .inl rfl
  | cons l ls ih =>
    have parts : rewritten u i (l :: ls) = rewriteLine u i (cstr l) ++ rewritten u i ls := rfl
    rw [parts]
    exact (whole_rewriteLine lu li (file l List.mem_cons_self).2 (closed l List.mem_cons_self)).append
      (ih (fun x hx => file x (List.mem_cons_of_mem _ hx))
        fun x hx => closed x (List.mem_cons_of_mem _ hx))

/-- Without an `INSTANCE` line, what is behind the last newline has neither key, and before it neither
is set. -/
theorem rewritten_split (hu : Plain u) (hi : Plain i) (lu : u.length ≤ 450) (li : i.length ≤ 450)
    {ls : List Bytes} (file : ∀ l ∈ ls, OfFile l) (closed : ∀ l ∈ ls.dropLast, Closed l)
    (none : ¬∃ l ∈ ls, HasKey (utf8 "INSTANCE") l) :
    ∃ ws p, rewritten u i ls = ws ++ p ∧ Whole ws ∧ 10 ∉ p ∧ NulFree p ∧ p.length ≤ 1023 ∧
      ¬HasKey (utf8 "INSTANCE") p ∧ ¬HasKey (utf8 "USERNAME") p ∧
      ((fgets 1024 ws).foldl readLine .initial).username = Option.none ∧
      ((fgets 1024 ws).foldl readLine .initial).instanceUrl = Option.none := by
  have noKey : ∀ name, ¬HasKey name [] := by
    rintro name ⟨v, entry⟩
    cases entry
  rcases List.eq_nil_or_concat' ls with rfl | ⟨init, last, rfl⟩
  · exact ⟨[], [], rfl, .inl rfl, nofun, nofun, by simp, noKey _, noKey _, rfl, rfl⟩
  · rw [List.dropLast_concat] at closed
    have lastFile := file last (by simp)
    have initFile : ∀ l ∈ init, OfFile l := fun l mem => file l (List.mem_append_left _ mem)
    have initWhole := whole_rewritten (u := u) lu li initFile closed
    have parts : rewritten u i (init ++ [last]) =
        rewritten u i init ++ rewriteLine u i (cstr last) := by
      simp [rewritten]
    by_cases whole : Whole (rewriteLine u i (cstr last))
    · have read := (readAlike_initial u i).lines hu hi lu li file
        (by rw [List.dropLast_concat]; exact closed)
      have absent := read.absent (by rintro (no | some); exacts [no, none some])
      exact ⟨_, [], (List.append_nil _).symm, parts ▸ initWhole.append whole, nofun, nofun, by simp,
        noKey _, noKey _, absent.1, absent.2⟩
    · rcases rewriteLine_cases lu li lastFile.2 with ⟨key, -⟩ | ⟨-, -, eq⟩ | ⟨noInstance, noUser, eq⟩
      · exact absurd ⟨last, by simp, key⟩ none
      · exact absurd (.inl eq) whole
      · rw [eq] at whole
        have free : 10 ∉ cstr last := by
          intro mem
          rcases lines_cstr lastFile.1 with empty | one
          · rw [empty] at mem
            cases mem
          · rcases Lines.mem_lines (one ▸ List.mem_singleton_self _ : cstr last ∈ lines (cstr last))
              with line | ⟨free, -⟩
            · exact whole line.whole
            · exact free mem
        have read := (readAlike_initial u i).lines hu hi lu li initFile
          fun l mem => closed l (List.dropLast_subset _ mem)
        have absent := read.absent (by
          rintro (no | ⟨l, mem, key⟩)
          · exact no
          · exact none ⟨l, List.mem_append_left _ mem, key⟩)
        have short := cstr_length_le last
        have := lastFile.2
        refine ⟨_, _, parts.trans (by rw [eq]), initWhole, free, ?_, by omega, ?_, ?_, absent.1, absent.2⟩
        · intro zero
          simpa using List.mem_takeWhile_imp zero
        · unfold HasKey at noInstance ⊢
          rwa [cstr_idem]
        · unfold HasKey at noUser ⊢
          rwa [cstr_idem]

/-- A configuration file is set to a user and an instance, and otherwise reads as before, exactly when
it has an `INSTANCE` line. -/
theorem config_update (file : Option Bytes) (h : ConfigText (file.getD [])) (hu : Plain u)
    (hi : Plain i) (lu : u.length ≤ 450) (li : i.length ≤ 450) {opens : Bool}
    (ok : (updateConfigUserAndInstance opens u i file).1 = 0) :
    Updated u i (readConfig file) (readConfig (updateConfigUserAndInstance opens u i file).2) ↔
      HasInstance (file.getD []) := by
  have opened : opens = true := by
    unfold updateConfigUserAndInstance at ok
    cases opens with
    | true => rfl
    | false => cases ok
  have old : readConfig file = (lines (file.getD [])).foldl readLine .initial := by
    cases file with
    | none => rfl
    | some content => exact congrArg (List.foldl readLine .initial) h.fgets
  have written : (updateConfigUserAndInstance opens u i file).2 =
      some (rewritten u i (lines (file.getD [])) ++
        if hasInstance ((lines (file.getD [])).map cstr) then [] else appended i) := by
    have text : utf8 "INSTANCE=" ++ i ++ utf8 "\n" = appended i := by
      have name : utf8 "INSTANCE=" = utf8 "INSTANCE" ++ [61] := by decide
      have newline : utf8 "\n" = [10] := by decide
      simp [appended, name, newline]
    unfold updateConfigUserAndInstance
    dsimp only
    rw [opened, if_neg (by simp), h.fgets, List.map_map, text]
    rfl
  rw [written, old]
  by_cases has : HasInstance (file.getD [])
  · rw [if_pos ((hasInstance_iff h).mpr has), List.append_nil]
    have read := (readAlike_initial u i).lines hu hi lu li h.ofFile h.closed_lines
    have given := read.given (.inr has)
    exact ⟨fun _ => has, fun _ => ⟨given.1, given.2, read.others⟩⟩
  · rw [if_neg fun yes => has ((hasInstance_iff h).mp yes)]
    refine ⟨fun updated => ?_, fun yes => absurd yes has⟩
    obtain ⟨ws, p, eq, whole, free, nul, short, noInstance, noUser, username, instanceUrl⟩ :=
      rewritten_split hu hi lu li h.ofFile h.closed_lines has
    have read : readConfig (some (rewritten u i (lines (file.getD [])) ++ appended i)) =
        (fgets 1024 (p ++ appended i)).foldl readLine ((fgets 1024 ws).foldl readLine .initial) := by
      unfold readConfig
      dsimp only
      rw [eq, List.append_assoc, Lines.fgets_append whole, List.foldl_append]
    rw [read] at updated
    exact absurd ⟨updated.username, updated.instanceUrl⟩
      (not_both_glued hi li nul free short noInstance noUser username instanceUrl u)

namespace Sample

/-- A file that had another instance and user. -/
def oldConfig : Bytes := utf8 "USERNAME=\"alice\"\nINSTANCE = https://old.example\nEDITOR=vi"

theorem moved_config : Updated (utf8 "bobby") (utf8 "https://new.example") (readConfig (some oldConfig))
    (readConfig (updateConfigUserAndInstance true (utf8 "bobby") (utf8 "https://new.example")
      (some oldConfig)).2) := by
  have text : ConfigText ((some oldConfig).getD []) := by
    have nul : ∀ l ∈ (lines oldConfig).dropLast, NulFree l := by decide +kernel
    exact ⟨by decide +kernel, fun l mem => .inl (nul l mem)⟩
  have key : HasInstance ((some oldConfig).getD []) :=
    ⟨utf8 "INSTANCE = https://old.example\n", by decide +kernel,
      utf8 " https://old.example", by decide +kernel⟩
  exact (config_update (some oldConfig) text (by decide +kernel) (by decide +kernel) (by decide)
    (by decide) (by rfl)).mpr key

/-- Without an `INSTANCE` line the user is not written, and the instance ends up in the editor. -/
theorem no_instance_line :
    (updateConfigUserAndInstance true (utf8 "bobby") (utf8 "https://new.example")
      (some (utf8 "EDITOR=vi"))).1 = 0 ∧
    (readConfig (updateConfigUserAndInstance true (utf8 "bobby") (utf8 "https://new.example")
      (some (utf8 "EDITOR=vi"))).2).username = none ∧
    (readConfig (updateConfigUserAndInstance true (utf8 "bobby") (utf8 "https://new.example")
      (some (utf8 "EDITOR=vi"))).2).editor = some (utf8 "viINSTANCE=https://new.example") := by
  decide +kernel

end Sample

end Shyake.Client
