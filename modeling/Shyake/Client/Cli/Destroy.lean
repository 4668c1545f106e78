import Shyake.Client.Rotate
import Shyake.Lib.Shell

/-!
# Deleting the profile (`shyake destroy` of `main.c`)

Once the server has deleted the account, the configuration directory is put into the text of a
command, without quotes and into a buffer of 512 bytes, and the shell empties it.
-/

namespace Shyake.Client

open Lib.Shell

/-- `cmd_buf`. -/
def cmdBuf (configDir : Bytes) : Bytes :=
  snprintf 512 (utf8 "rm -rf " ++ configDir ++ utf8 "/*")

variable (beyond : Fs → Bytes → List Bytes)

/-- What the command removes behind `shyake_destroy`. -/
def destroyFiles (ret : ShyakeErr) (fs : Fs) (configDir : Bytes) : List Bytes :=
  if ret = .OK then system beyond fs (cmdBuf configDir) else []

/-- Whatever there is, only entries of the directory are removed. -/
def OnlyEntries (configDir : Bytes) : Prop :=
  ∀ ret fs, ∀ o ∈ destroyFiles beyond ret fs configDir,
    ∃ n ∈ fs.entries configDir, o = configDir ++ 47 :: n

/-- The shell takes the path as one word, as it is. -/
structure Literal (configDir : Bytes) : Prop where
  blank : configDir.any isBlank = false
  special : configDir.any isSpecial = false
  star : 42 ∉ configDir
  start : ¬ Marked configDir

instance (configDir : Bytes) : Decidable (Literal configDir) :=
  decidable_of_iff (configDir.any isBlank = false ∧ configDir.any isSpecial = false ∧
      42 ∉ configDir ∧ ¬ Marked configDir)
    ⟨fun ⟨a, b, c, d⟩ => ⟨a, b, c, d⟩, fun ⟨a, b, c, d⟩ => ⟨a, b, c, d⟩⟩

/-! ## The words of the command -/

section

variable {beyond} {configDir : Bytes}

theorem splitOnP_command (rest : Bytes) :
    (utf8 "rm -rf " ++ rest).splitOnP isBlank =
      utf8 "rm" :: utf8 "-rf" :: rest.splitOnP isBlank := by
  have text : utf8 "rm -rf " ++ rest = utf8 "rm" ++ 32 :: (utf8 "-rf" ++ 32 :: rest) := rfl
  rw [text, List.splitOnP_append_cons _ _ (by decide), List.splitOnP_append_cons _ _ (by decide)]
  rfl

/-- The words of the command are `rm`, `-rf` and those of the rest. -/
theorem words_command {rest : Bytes} {ws : List Bytes} (read : words rest = some ws) :
    words (utf8 "rm -rf " ++ rest) = some (utf8 "rm" :: utf8 "-rf" :: ws) := by
  have text : (utf8 "rm -rf ").any isSpecial = false := by decide
  unfold words at read ⊢
  dsimp only at read ⊢
  rw [splitOnP_command]
  split at read
  · cases read
  rename_i fine
  obtain rfl := Option.some.inj read
  obtain ⟨plain, starts⟩ := not_or.mp fine
  have kept : (utf8 "rm" :: utf8 "-rf" :: rest.splitOnP isBlank).filter (· ≠ []) =
      utf8 "rm" :: utf8 "-rf" :: (rest.splitOnP isBlank).filter (· ≠ []) := rfl
  rw [kept, if_neg]
  rintro (found | ⟨w, mem, starts'⟩)
  · rw [List.any_append, text, Bool.false_or] at found
    exact plain found
  · rcases List.mem_cons.mp mem with rfl | mem
    · revert starts'
      decide
    rcases List.mem_cons.mp mem with rfl | mem
    · revert starts'
      decide
    · exact starts ⟨w, mem, starts'⟩

theorem splitOnP_of_none {t : Bytes} (none : t.any isBlank = false) : t.splitOnP isBlank = [t] :=
  List.splitOnP_eq_singleton fun c mem => Bool.eq_false_iff.mpr (List.any_eq_false.mp none c mem)

theorem words_of_one {w : Bytes} (blanks : w.any isBlank = false)
    (specials : w.any isSpecial = false) (nonempty : w ≠ []) (starts : ¬ Marked w) :
    words w = some [w] := by
  unfold words
  dsimp only
  have kept : [w].filter (· ≠ []) = [w] := List.filter_cons_of_pos (decide_eq_true nonempty)
  rw [splitOnP_of_none blanks, kept, if_neg]
  rintro (found | ⟨v, mem, starts'⟩)
  · rw [specials] at found
    cases found
  · rw [List.mem_singleton.mp mem] at starts'
    exact starts starts'

theorem any_append_false {p : UInt8 → Bool} {s t : Bytes} :
    (s ++ t).any p = false ↔ s.any p = false ∧ t.any p = false := by
  rw [List.any_append, Bool.or_eq_false_iff]

/-! ## A path that the shell takes as it is -/

theorem cmdBuf_of_short (short : configDir.length ≤ 502) :
    cmdBuf configDir = utf8 "rm -rf " ++ (configDir ++ [47, 42]) := by
  have length : (utf8 "rm -rf " ++ configDir ++ utf8 "/*").length = 7 + configDir.length + 2 := by
    rw [List.length_append, List.length_append]
    rfl
  unfold cmdBuf snprintf
  rw [List.take_of_length_le (by omega), List.append_assoc]
  rfl

theorem marked_append_slash {w : Bytes} (rest : Bytes) (starts : ¬ Marked w) :
    ¬ Marked (w ++ 47 :: rest) := by
  cases w with
  | nil => rintro (head | head) <;> cases head
  | cons c w => exact starts

theorem Literal.words (h : Literal configDir) :
    words (configDir ++ [47, 42]) = some [configDir ++ [47, 42]] :=
  words_of_one (any_append_false.mpr ⟨h.blank, by decide⟩)
    (any_append_false.mpr ⟨h.special, by decide⟩) (by simp) (marked_append_slash _ h.start)

/-- Behind `rm -rf`, words without patterns stay, and the last one is expanded. -/
theorem mapM_expand {fs : Fs} {ws : List Bytes} {last : Bytes} {names : List Bytes}
    (plain : ∀ w ∈ ws, 42 ∉ w) (expanded : expand fs last = some names) :
    ((ws ++ [last]).mapM (expand fs)).map List.flatten = some (ws ++ names) := by
  induction ws with
  | nil => simp [expanded]
  | cons w ws ih =>
    have one := expand_of_plain fs (plain w List.mem_cons_self)
    obtain ⟨groups, read, flat⟩ := Option.map_eq_some_iff.mp
      (ih fun v mem => plain v (List.mem_cons_of_mem w mem))
    simp [one, read, flat]

/-- The shell runs `rm -rf` on these words. -/
theorem system_rm {fs : Fs} {rest last : Bytes} {ws names : List Bytes}
    (read : words rest = some (ws ++ [last])) (plain : ∀ w ∈ ws, 42 ∉ w)
    (expanded : expand fs last = some names) :
    system beyond fs (utf8 "rm -rf " ++ rest) = rm fs (ws ++ names) := by
  have all : ∀ w ∈ utf8 "rm" :: utf8 "-rf" :: ws, 42 ∉ w := by
    intro w mem
    rcases List.mem_cons.mp mem with rfl | mem
    · decide
    rcases List.mem_cons.mp mem with rfl | mem
    · decide
    · exact plain w mem
  obtain ⟨groups, mapped, flat⟩ := Option.map_eq_some_iff.mp (mapM_expand all expanded)
  have command : words (utf8 "rm -rf " ++ rest) =
      some ((utf8 "rm" :: utf8 "-rf" :: ws) ++ [last]) := words_command read
  unfold system
  simp only [command, mapped, flat]
  rfl

theorem onlyEntries_of_literal (h : Literal configDir) (short : configDir.length ≤ 502) :
    OnlyEntries beyond configDir := by
  intro ret fs o removed
  unfold destroyFiles at removed
  split at removed
  · have expanded := expand_star fs h.star
    have command : words (configDir ++ [47, 42]) = some ([] ++ [configDir ++ [47, 42]]) := h.words
    rw [cmdBuf_of_short short, system_rm command nofun expanded] at removed
    obtain ⟨mem, there⟩ := mem_rm removed
    exact entry_of_expand_star h.star expanded mem there
  · cases removed

/-! ## A path of several words -/

theorem exists_last {p : UInt8 → Bool} {s : Bytes} (found : s.any p = true) :
    ∃ before c last, s = before ++ c :: last ∧ p c = true ∧ last.any p = false := by
  induction s with
  | nil => cases found
  | cons c s ih =>
    by_cases later : s.any p = true
    · obtain ⟨before, d, last, rfl, here, rest⟩ := ih later
      exact ⟨c :: before, d, last, rfl, here, rest⟩
    · rw [Bool.not_eq_true] at later
      rw [List.any_cons, later, Bool.or_false] at found
      exact ⟨[], c, s, rfl, found, later⟩

/-- The words in front of a blank, and the word that is expanded behind the last one. -/
theorem words_of_blank {before last : Bytes} {b : UInt8} {ws : List Bytes}
    (sep : isBlank b = true) (rest : last.any isBlank = false)
    (read : words (before ++ b :: last) = some ws) :
    (∃ front, words (before ++ b :: (last ++ [47, 42])) = some (front ++ [last ++ [47, 42]]) ∧
      ∀ w ∈ front, w ∈ ws) ∧ (last = [] ∨ last ∈ ws) := by
  have star : (last ++ [47, 42]).any isBlank = false := any_append_false.mpr ⟨rest, by decide⟩
  have nonempty : last ++ [47, 42] ≠ [] := by simp
  unfold words at read ⊢
  dsimp only at read ⊢
  rw [List.splitOnP_append_cons _ _ sep, splitOnP_of_none rest] at read
  rw [List.splitOnP_append_cons _ _ sep, splitOnP_of_none star]
  split at read
  · cases read
  rename_i fine
  obtain rfl := Option.some.inj read
  obtain ⟨plain, starts⟩ := not_or.mp fine
  rw [Bool.not_eq_true] at plain
  have final : last ≠ [] → last ∈ (before.splitOnP isBlank ++ [last]).filter (· ≠ []) := fun word =>
    List.mem_filter.mpr
      ⟨List.mem_append_right _ (List.mem_singleton_self last), decide_eq_true word⟩
  refine ⟨⟨(before.splitOnP isBlank).filter (· ≠ []), ?_, fun w mem => ?_⟩, ?_⟩
  · have kept : [last ++ [47, 42]].filter (· ≠ []) = [last ++ [47, 42]] :=
      List.filter_cons_of_pos (decide_eq_true nonempty)
    rw [List.filter_append, kept, if_neg]
    rintro (found | ⟨w, mem, marked⟩)
    · obtain ⟨front, behind⟩ := any_append_false.mp plain
      rw [List.any_cons, Bool.or_eq_false_iff] at behind
      rw [List.any_append, List.any_cons, List.any_append, front, behind.1, behind.2] at found
      revert found
      decide
    · rcases List.mem_append.mp mem with early | expanded
      · refine starts ⟨w, ?_, marked⟩
        rw [List.filter_append]
        exact List.mem_append_left _ early
      · rw [List.mem_singleton.mp expanded] at marked
        refine marked_append_slash [42] (fun marked => ?_) marked
        have word : last ≠ [] := by
          rintro rfl
          rcases marked with head | head <;> cases head
        exact starts ⟨last, final word, marked⟩
  · rw [List.filter_append]
    exact List.mem_append_left _ mem
  · by_cases word : last = []
    · exact .inl word
    · exact .inr (final word)

/-- The words in front of the last blank are paths of their own, and so is the one behind it. -/
theorem not_onlyEntries_of_blank {ws : List Bytes} (read : words configDir = some ws)
    (plain : ∀ w ∈ ws, 42 ∉ w ∧ w.head? ≠ some 45) (short : configDir.length ≤ 502)
    (blanks : configDir.any isBlank = true) : ¬ OnlyEntries beyond configDir := by
  intro only
  obtain ⟨before, b, last, rfl, sep, rest⟩ := exists_last blanks
  obtain ⟨⟨front, command, early⟩, final⟩ := words_of_blank sep rest read
  have star : 42 ∉ last := by
    rcases final with rfl | mem
    · exact List.not_mem_nil
    · exact (plain last mem).1
  have name : IsName [102] := by decide
  let fs := Fs.only (last ++ 47 :: [102])
  have there : fs.there (last ++ 47 :: [102]) = true := beq_self_eq_true (last ++ 47 :: [102])
  have listed : [102] ∈ (fs.entries last).filter (·.head? ≠ some 46) :=
    List.mem_filter.mpr ⟨(fs.there_iff last [102] name).mp there, by decide⟩
  have expanded := expand_star fs star
  rw [if_neg (List.ne_nil_of_mem listed)] at expanded
  have dash : ∀ w ∈ front ++ ((fs.entries last).filter (·.head? ≠ some 46)).map (last ++ 47 :: ·),
      w.head? ≠ some 45 := by
    intro w mem
    rcases List.mem_append.mp mem with mem | mem
    · exact (plain w (early w mem)).2
    · obtain ⟨n, -, rfl⟩ := List.mem_map.mp mem
      cases last with
      | nil => nofun
      | cons c last =>
        rcases final with none | mem
        · cases none
        · exact (plain (c :: last) mem).2
  have removed : last ++ 47 :: [102] ∈ destroyFiles beyond .OK fs (before ++ b :: last) := by
    have runs : system beyond fs _ = rm fs _ :=
      system_rm command (fun w mem => (plain w (early w mem)).1) expanded
    unfold destroyFiles
    rw [if_pos rfl, cmdBuf_of_short short]
    rw [List.append_assoc, List.cons_append, runs]
    exact mem_rm_of_plain dash (List.mem_append_right _ (List.mem_map_of_mem listed)) there
      (refused_entry name)
  obtain ⟨n, entry, same⟩ := only .OK fs _ removed
  have whole := (append_slash_inj name.1 (fs.isName _ n entry).1 same).1
  have length := congrArg List.length whole
  rw [List.length_append, List.length_cons] at length
  omega

theorem literal_of_words {ws : List Bytes} (read : words configDir = some ws)
    (plain : ∀ w ∈ ws, 42 ∉ w ∧ w.head? ≠ some 45) (one : configDir.any isBlank = false) :
    Literal configDir := by
  by_cases empty : configDir = []
  · subst empty
    decide
  unfold words at read
  dsimp only at read
  have kept : [configDir].filter (· ≠ []) = [configDir] :=
    List.filter_cons_of_pos (decide_eq_true empty)
  rw [splitOnP_of_none one, kept] at read
  split at read
  · cases read
  rename_i fine
  obtain rfl := Option.some.inj read
  obtain ⟨specials, starts⟩ := not_or.mp fine
  have mem := List.mem_singleton_self configDir
  exact ⟨one, Bool.eq_false_iff.mpr specials, (plain configDir mem).1,
    fun marked => starts ⟨configDir, mem, marked⟩⟩

/-! ## A path that is cut -/

/-- The cut path is removed as a whole. -/
theorem not_onlyEntries_of_long (h : Literal configDir) (long : 503 ≤ configDir.length)
    (option : configDir.head? ≠ some 45)
    (removable : refused ((configDir ++ [47]).take 504) = false) :
    ¬ OnlyEntries beyond configDir := by
  intro only
  let w := (configDir ++ [47]).take 504
  have length : w.length ≤ 504 := List.length_take_le _ _
  have whole : (configDir ++ [47, 42]).take 504 = w := by
    have text : configDir ++ [47, 42] = configDir ++ [47] ++ [42] := by simp
    rw [text, List.take_append_of_le_length (by simp; omega)]
  have command : cmdBuf configDir = utf8 "rm -rf " ++ w := by
    have cut : ∀ t : Bytes, (utf8 "rm -rf " ++ t).take 511 = utf8 "rm -rf " ++ t.take 504 :=
      fun _ => rfl
    unfold cmdBuf snprintf
    rw [List.append_assoc, ← whole]
    exact cut _
  have within : ∀ c ∈ w, c ∈ configDir ∨ c = 47 := by
    intro c mem
    rcases List.mem_append.mp (List.mem_of_mem_take mem) with mem | mem
    · exact .inl mem
    · exact .inr (List.mem_singleton.mp mem)
  have clean : ∀ p : UInt8 → Bool, configDir.any p = false → p 47 = false → w.any p = false := by
    intro p none slash
    refine List.any_eq_false.mpr fun c mem => ?_
    rcases within c mem with mem | rfl
    · exact List.any_eq_false.mp none c mem
    · rw [slash]
      decide
  have star : 42 ∉ w := by
    intro mem
    rcases within 42 mem with mem | no
    · exact h.star mem
    · cases no
  have head : w.head? = configDir.head? ∧ w ≠ [] := by
    cases configDir with
    | nil => cases long
    | cons c s => exact ⟨rfl, List.cons_ne_nil _ _⟩
  have start : ¬ Marked w := by
    unfold Marked
    rw [head.1]
    exact h.start
  have read : words w = some ([] ++ [w]) :=
    words_of_one (clean isBlank h.blank (by decide)) (clean isSpecial h.special (by decide))
      head.2 start
  have removed : w ∈ destroyFiles beyond .OK (Fs.only w) configDir := by
    have runs : system beyond (Fs.only w) _ = rm (Fs.only w) _ :=
      system_rm read nofun (expand_of_plain (Fs.only w) star)
    unfold destroyFiles
    rw [if_pos rfl, command, runs]
    refine mem_rm_of_plain (fun v mem => ?_) (List.mem_singleton_self w) (beq_self_eq_true w)
      removable
    rw [List.mem_singleton.mp mem, head.1]
    exact option
  obtain ⟨n, entry, same⟩ := only .OK _ w removed
  have nonempty := List.length_pos_of_ne_nil ((Fs.only w).isName _ n entry).2.1
  have sizes := congrArg List.length same
  rw [List.length_append, List.length_cons] at sizes
  omega

end

/-- The command removes only entries of the directory when the shell takes the path as it is and
the path fits into the buffer. Of paths of several words none is safe, and no path that is cut
unless `rm` refuses what is left of it. -/
theorem destroy_only_entries (configDir : Bytes) :
    (Literal configDir → configDir.length ≤ 502 → OnlyEntries beyond configDir) ∧
    (∀ ws, words configDir = some ws → (∀ w ∈ ws, 42 ∉ w ∧ w.head? ≠ some 45) →
      configDir.length ≤ 502 →
        (OnlyEntries beyond configDir ↔ configDir.any isBlank = false)) ∧
    (Literal configDir → 503 ≤ configDir.length → configDir.head? ≠ some 45 →
      refused ((configDir ++ [47]).take 504) = false → ¬ OnlyEntries beyond configDir) := by
  refine ⟨onlyEntries_of_literal, fun ws read plain short => ⟨fun only => ?_, fun one => ?_⟩,
    not_onlyEntries_of_long⟩
  · by_contra blanks
    exact not_onlyEntries_of_blank read plain short (Bool.eq_true_of_not_eq_false blanks) only
  · exact onlyEntries_of_literal (literal_of_words read plain one) short

namespace Sample

def nothing : Fs → Bytes → List Bytes := fun _ _ => []

/-- `rm -rf /home/bobby/My Profile/*`. -/
theorem blank_in_path : ¬ ∀ (beyond : Fs → Bytes → List Bytes) (configDir : Bytes),
    OnlyEntries beyond configDir := by
  intro all
  have read : words (utf8 "/home/bobby/My Profile") =
      some [utf8 "/home/bobby/My", utf8 "Profile"] := by decide
  exact not_onlyEntries_of_blank read (by decide) (by decide) (by decide)
    (all nothing (utf8 "/home/bobby/My Profile"))

theorem destroy_only_entries_plain : OnlyEntries nothing (utf8 "/home/bobby/.config/shyake") :=
  (destroy_only_entries nothing (utf8 "/home/bobby/.config/shyake")).1 (by decide) (by decide)

end Sample

end Shyake.Client
