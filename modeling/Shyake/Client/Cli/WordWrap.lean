import Shyake.Client.Base64
import Shyake.Client.Cli.Csv
import Shyake.Lib.Utf8

/-!
# Word wrap (`cli_print_word_wrap` of `display.c`)

A pointer into the text is what is left of the text from there on; the NUL at its end is the empty
rest. The difference of two pointers goes to `printf` as an `int`.
-/

namespace Shyake.Client

open Utf8 (continuation WellFormed)

/-! ## Display width -/

/-- The loop over the bytes behind the first. -/
def utf8Rest : Nat → Nat → Bytes → Option Nat
  | 0, cp, _ => some cp
  | _ + 1, _, [] => none
  | k + 1, cp, c :: s =>
    if continuation c then utf8Rest k (64 * cp + (c &&& 0x3F).toNat) s else none

/-- What the loop makes of a sequence of `n` bytes whose first one gives `cp`. -/
def utf8Sequence (n : Nat) (cp : UInt8) (s : Bytes) : Int × Nat :=
  match utf8Rest (n - 1) cp.toNat s with
  | some cp => (cp, n)
  | none => (0, 1)

/-- `utf8_next`: the code point, and by how much `*s` advances. -/
def utf8Next : Bytes → Int × Nat
  | [] => (-1, 0)
  | c :: s =>
    if c < 0x80 then (c.toNat, 1)
    else if c < 0xC2 then (0, 1)
    else if c < 0xE0 then utf8Sequence 2 (c &&& 0x1F) s
    else if c < 0xF0 then utf8Sequence 3 (c &&& 0x0F) s
    else if c < 0xF8 then utf8Sequence 4 (c &&& 0x07) s
    else (0, 1)

/-- `cp_width`. -/
def cpWidth (cp : Int) : Nat :=
  if cp ≤ 0 then 0
  else if (cp ≥ 0x1100 ∧ cp ≤ 0x115F) ∨
      (cp = 0x2329 ∨ cp = 0x232A) ∨
      (cp ≥ 0x2E80 ∧ cp ≤ 0x303E) ∨
      (cp ≥ 0x3040 ∧ cp ≤ 0x33FF) ∨
      (cp ≥ 0x3400 ∧ cp ≤ 0x4DBF) ∨
      (cp ≥ 0x4E00 ∧ cp ≤ 0xA4CF) ∨
      (cp ≥ 0xA960 ∧ cp ≤ 0xA97F) ∨
      (cp ≥ 0xAC00 ∧ cp ≤ 0xD7FF) ∨
      (cp ≥ 0xF900 ∧ cp ≤ 0xFAFF) ∨
      (cp ≥ 0xFE10 ∧ cp ≤ 0xFE1F) ∨
      (cp ≥ 0xFE30 ∧ cp ≤ 0xFE6F) ∨
      (cp ≥ 0xFF00 ∧ cp ≤ 0xFF60) ∨
      (cp ≥ 0xFFE0 ∧ cp ≤ 0xFFE6) ∨
      (cp ≥ 0x1B000 ∧ cp ≤ 0x1B0FF) ∨
      (cp ≥ 0x1F004 ∧ cp ≤ 0x1F0CF) ∨
      (cp ≥ 0x1F300 ∧ cp ≤ 0x1F9FF) ∨
      (cp ≥ 0x20000 ∧ cp ≤ 0x2FFFD) ∨
      (cp ≥ 0x30000 ∧ cp ≤ 0x3FFFD) then 2
  else 1

/-- The width of the code point at the front. -/
def frontWidth (s : Bytes) : Nat :=
  let cp := (utf8Next s).1
  if cp > 0 then cpWidth cp else 0

theorem utf8Next_pos (c : UInt8) (s : Bytes) : 0 < (utf8Next (c :: s)).2 := by
  have sequence : ∀ n cp, 0 < n → 0 < (utf8Sequence n cp s).2 := by
    intro n cp pos
    unfold utf8Sequence
    split
    · exact pos
    · exact Nat.one_pos
  unfold utf8Next
  dsimp only
  repeat' split
  · exact Nat.one_pos
  · exact Nat.one_pos
  · exact sequence 2 _ (by decide)
  · exact sequence 3 _ (by decide)
  · exact sequence 4 _ (by decide)
  · exact Nat.one_pos

/-- `utf8_display_width`. -/
def utf8DisplayWidth : Bytes → Nat
  | [] => 0
  | c :: s => frontWidth (c :: s) + utf8DisplayWidth ((c :: s).drop (utf8Next (c :: s)).2)
termination_by s => s.length
decreasing_by
  have := utf8Next_pos c s
  rw [List.length_drop, List.length_cons]
  omega

/-! ## cli_print_word_wrap -/

/-- Where the inner loop leaves its variables. -/
structure Scan where
  p : Bytes
  last_space : Option Bytes
  safe_cut : Bytes
  accum : Int

/-- The inner loop. -/
def scanLine (avail : Int) (p : Bytes) (last_space : Option Bytes) (safe_cut : Bytes)
    (accum : Int) : Scan :=
  match p with
  | [] => ⟨[], last_space, safe_cut, accum⟩
  | c :: s =>
    let before := c :: s
    let last_space := if (utf8Next before).1 = 32 then some before else last_space
    if toInt (accum + frontWidth before) > avail then ⟨before, last_space, safe_cut, accum⟩
    else
      let p := before.drop (utf8Next before).2
      scanLine avail p last_space p (accum + frontWidth before)
termination_by p.length
decreasing_by
  have := utf8Next_pos c s
  rw [List.length_drop, List.length_cons]
  omega

/-- `printf("%.*s", (int)(to - from), from)`. -/
def printTo (start stop : Bytes) : Bytes := precision (toInt (start.length - stop.length)) start

/-- The outer loop, for at most so many lines: what is printed on each of them. -/
def wrap (avail : Int) : (fuel : Nat) → Bytes → Option (List Bytes)
  | _, [] => some []
  | 0, _ :: _ => none
  | fuel + 1, line_start =>
    let r := scanLine avail line_start none line_start 0
    if r.p = [] then some [printTo line_start r.safe_cut]
    else
      match r.last_space with
      | none => (wrap avail fuel r.safe_cut).map (printTo line_start r.safe_cut :: ·)
      | some last_space =>
        if last_space.length < line_start.length then
          (wrap avail fuel (last_space.dropWhile (· == 32))).map
            (printTo line_start last_space :: ·)
        else (wrap avail fuel r.safe_cut).map (printTo line_start r.safe_cut :: ·)

/-- `avail`. -/
def available (indent width : Int) : Int :=
  let avail := toInt (width - indent)
  if avail < 20 then 20 else avail

/-- The text on the terminal: what is printed between the lines, and behind the last. -/
def rendered (indent : Int) (lines : List Bytes) : Bytes :=
  List.intercalate (10 :: List.replicate indent.natAbs 32) lines ++ [10]

/-- `cli_print_word_wrap`, of at most so many lines. -/
def cliPrintWordWrap (fuel : Nat) (text : Bytes) (indent width : Int) : Option Bytes :=
  (wrap (available indent width) fuel text).map (rendered indent)

/-! ## What wrapping is for -/

/-- The lines in order give the text, but for spaces that are dropped where it is broken, and it is
broken only where what is left does not fit. -/
def Joined (bound : Int) : List Bytes → Bytes → Prop
  | [], text => text = []
  | line :: lines, text => line = text ∧ lines = [] ∨
      bound < utf8DisplayWidth text ∧ ∃ gap rest, text = line ++ (gap ++ rest) ∧
        (∀ c ∈ gap, c = 32) ∧ Joined bound lines rest

/-- The text is printed on lines that are narrow enough, lose nothing but spaces at their ends and
break no character. -/
structure Wrapped (text : Bytes) (indent width : Int) (lines : List Bytes) : Prop where
  narrow : ∀ line ∈ lines, (utf8DisplayWidth line : Int) ≤ max (width - indent) 20
  joined : Joined (max (width - indent) 20) lines text
  characters : WellFormed text → ∀ line ∈ lines, WellFormed line

/-- The function returns, and prints such lines. -/
def WrapsWords (text : Bytes) (indent width : Int) : Prop :=
  ∃ lines, (∀ fuel, text.length ≤ fuel →
      wrap (available indent width) fuel text = some lines ∧
      cliPrintWordWrap fuel text indent width = some (rendered indent lines)) ∧
    Wrapped text indent width lines

/-! ## Sequences of bytes -/

/-- What comes behind is read only where there is too little in front. -/
theorem utf8Rest_append (k cp : Nat) (s t : Bytes) :
    utf8Rest k cp s = utf8Rest k cp (s ++ t) ∨ s.length < k ∧ utf8Rest k cp s = none := by
  induction k generalizing cp s with
  | zero => exact .inl rfl
  | succ k ih =>
    cases s with
    | nil => exact .inr ⟨Nat.succ_pos k, rfl⟩
    | cons c s =>
      rw [List.cons_append, utf8Rest, utf8Rest]
      split
      · rcases ih (64 * cp + (c &&& 0x3F).toNat) s with same | ⟨short, none⟩
        · exact .inl same
        · exact .inr ⟨Nat.succ_lt_succ short, none⟩
      · exact .inl rfl

theorem utf8Sequence_append {n : Nat} {cp : UInt8} {s t : Bytes}
    (inside : (utf8Sequence n cp (s ++ t)).2 ≤ s.length + 1) :
    utf8Sequence n cp s = utf8Sequence n cp (s ++ t) := by
  unfold utf8Sequence at inside ⊢
  rcases utf8Rest_append (n - 1) cp.toNat s t with same | ⟨short, none⟩
  · rw [same]
  cases read : utf8Rest (n - 1) cp.toNat (s ++ t) with
  | none => rw [none]
  | some v =>
    rw [read] at inside
    change n ≤ s.length + 1 at inside
    omega

/-- What is decoded at the front does not depend on what comes behind it. -/
theorem utf8Next_append {s t : Bytes} (nonempty : s ≠ [])
    (inside : (utf8Next (s ++ t)).2 ≤ s.length) : utf8Next s = utf8Next (s ++ t) := by
  cases s with
  | nil => exact absurd rfl nonempty
  | cons c s =>
    unfold utf8Next at inside ⊢
    rw [List.cons_append] at inside ⊢
    dsimp only at inside ⊢
    split
    · rfl
    rename_i h₁
    rw [if_neg h₁] at inside
    split
    · rfl
    rename_i h₂
    rw [if_neg h₂] at inside
    split
    · rename_i h₃
      rw [if_pos h₃] at inside
      exact utf8Sequence_append inside
    rename_i h₃
    rw [if_neg h₃] at inside
    split
    · rename_i h₄
      rw [if_pos h₄] at inside
      exact utf8Sequence_append inside
    rename_i h₄
    rw [if_neg h₄] at inside
    split
    · rename_i h₅
      rw [if_pos h₅] at inside
      exact utf8Sequence_append inside
    · rfl

/-- The bytes of the front code point are there. -/
theorem utf8Rest_length {k cp v : Nat} {s : Bytes} (read : utf8Rest k cp s = some v) :
    k ≤ s.length := by
  induction k generalizing cp s with
  | zero => exact Nat.zero_le _
  | succ k ih =>
    cases s with
    | nil => cases read
    | cons c s =>
      rw [utf8Rest] at read
      split at read
      · exact Nat.succ_le_succ (ih read)
      · cases read

theorem utf8Sequence_le {n : Nat} {cp : UInt8} {s : Bytes} :
    (utf8Sequence n cp s).2 ≤ s.length + 1 := by
  unfold utf8Sequence
  split
  · rename_i read
    have := utf8Rest_length read
    dsimp only
    omega
  · exact Nat.succ_le_succ (Nat.zero_le _)

theorem utf8Next_le (s : Bytes) : (utf8Next s).2 ≤ s.length := by
  cases s with
  | nil => exact le_refl _
  | cons c s =>
    unfold utf8Next
    dsimp only
    repeat' split
    · exact Nat.succ_le_succ (Nat.zero_le _)
    · exact Nat.succ_le_succ (Nat.zero_le _)
    · exact utf8Sequence_le
    · exact utf8Sequence_le
    · exact utf8Sequence_le
    · exact Nat.succ_le_succ (Nat.zero_le _)

theorem utf8Next_pos_of_ne {s : Bytes} (nonempty : s ≠ []) : 0 < (utf8Next s).2 := by
  obtain ⟨c, s, rfl⟩ := List.exists_cons_of_ne_nil nonempty
  exact utf8Next_pos c s

theorem displayWidth_of_ne {s : Bytes} (nonempty : s ≠ []) :
    utf8DisplayWidth s = frontWidth s + utf8DisplayWidth (s.drop (utf8Next s).2) := by
  obtain ⟨c, s, rfl⟩ := List.exists_cons_of_ne_nil nonempty
  rw [utf8DisplayWidth]

theorem cpWidth_le (cp : Int) : cpWidth cp ≤ 2 := by
  unfold cpWidth
  repeat' split
  all_goals omega

theorem frontWidth_le_two (s : Bytes) : frontWidth s ≤ 2 := by
  unfold frontWidth
  dsimp only
  split
  · exact cpWidth_le _
  · exact Nat.zero_le _

theorem cpWidth_small {cp : Int} (small : cp < 0x1100) : cpWidth cp ≤ 1 := by
  unfold cpWidth
  split
  · exact Nat.zero_le _
  · rw [if_neg (by omega)]

theorem utf8Sequence_small {n : Nat} {cp : UInt8} {s : Bytes} (many : 2 ≤ n)
    (one : (utf8Sequence n cp s).2 ≤ 1) : (utf8Sequence n cp s).1 = 0 := by
  unfold utf8Sequence at one ⊢
  split
  · rename_i read
    rw [read] at one
    change n ≤ 1 at one
    omega
  · rfl

theorem utf8Next_small {s : Bytes} (one : (utf8Next s).2 ≤ 1) : (utf8Next s).1 < 0x1100 := by
  cases s with
  | nil => decide
  | cons c s =>
    have byte := c.toNat_lt
    unfold utf8Next at one ⊢
    dsimp only at one ⊢
    split at one
    · rename_i h
      rw [if_pos h]
      dsimp only
      omega
    rename_i h₁
    rw [if_neg h₁]
    split at one
    · rename_i h
      rw [if_pos h]
      decide
    rename_i h₂
    rw [if_neg h₂]
    split at one
    · rename_i h
      rw [if_pos h, utf8Sequence_small (by decide) one]
      decide
    rename_i h₃
    rw [if_neg h₃]
    split at one
    · rename_i h
      rw [if_pos h, utf8Sequence_small (by decide) one]
      decide
    rename_i h₄
    rw [if_neg h₄]
    split at one
    · rename_i h
      rw [if_pos h, utf8Sequence_small (by decide) one]
      decide
    · rename_i h
      rw [if_neg h]
      decide

/-- A wide code point has two bytes at least. -/
theorem frontWidth_le (s : Bytes) : frontWidth s ≤ (utf8Next s).2 := by
  by_cases many : 2 ≤ (utf8Next s).2
  · exact le_trans (frontWidth_le_two s) many
  by_cases empty : s = []
  · rw [empty]
    decide
  have pos := utf8Next_pos_of_ne empty
  refine le_trans ?_ pos
  unfold frontWidth
  dsimp only
  split
  · exact cpWidth_small (utf8Next_small (by omega))
  · exact Nat.zero_le _

/-! ## Cuts between code points -/

/-- A walk of `utf8_next` from the front of `s` comes to `rest` behind `front`. -/
inductive Cut : Bytes → Bytes → Bytes → Prop where
  | here (s : Bytes) : Cut s [] s
  | next {s front rest : Bytes} (nonempty : s ≠ []) (cut : Cut (s.drop (utf8Next s).2) front rest) :
    Cut s (s.take (utf8Next s).2 ++ front) rest

section

variable {s front rest : Bytes}

theorem Cut.eq (h : Cut s front rest) : s = front ++ rest := by
  induction h with
  | here s => rfl
  | @next s front rest nonempty cut ih =>
    rw [List.append_assoc, ← ih, List.take_append_drop]

/-- One more code point. -/
theorem Cut.snoc (h : Cut s front rest) (more : rest ≠ []) :
    Cut s (front ++ rest.take (utf8Next rest).2) (rest.drop (utf8Next rest).2) := by
  induction h with
  | here s =>
    have one := Cut.next more (.here _)
    rwa [List.append_nil] at one
  | next nonempty cut ih =>
    have tail := Cut.next nonempty (ih more)
    rwa [← List.append_assoc] at tail

/-- A front that ends at a cut is decoded as it is in the whole. -/
theorem Cut.displayWidth (h : Cut s front rest) :
    utf8DisplayWidth s = utf8DisplayWidth front + utf8DisplayWidth rest := by
  induction h with
  | here s => rw [utf8DisplayWidth, Nat.zero_add]
  | @next s front rest nonempty cut ih =>
    have pos := utf8Next_pos_of_ne nonempty
    have taken : (s.take (utf8Next s).2).length = (utf8Next s).2 :=
      List.length_take_of_le (utf8Next_le s)
    have ne : s.take (utf8Next s).2 ++ front ≠ [] := by
      intro empty
      have := congrArg List.length empty
      rw [List.length_append, taken, List.length_nil] at this
      omega
    have whole : s = s.take (utf8Next s).2 ++ front ++ rest := (Cut.next nonempty cut).eq
    have same : utf8Next (s.take (utf8Next s).2 ++ front) = utf8Next s := by
      have inside : (utf8Next (s.take (utf8Next s).2 ++ front ++ rest)).2 ≤
          (s.take (utf8Next s).2 ++ front).length := by
        rw [← whole, List.length_append, taken]
        exact Nat.le_add_right _ _
      rw [utf8Next_append ne inside, ← whole]
    have behind : (s.take (utf8Next s).2 ++ front).drop (utf8Next s).2 = front :=
      List.drop_left' taken
    have first : frontWidth (s.take (utf8Next s).2 ++ front) = frontWidth s := by
      unfold frontWidth
      rw [same]
    rw [displayWidth_of_ne nonempty, displayWidth_of_ne ne, same, behind, first, ih, Nat.add_assoc]

theorem displayWidth_le (s : Bytes) : utf8DisplayWidth s ≤ s.length := by
  induction size : s.length using Nat.strong_induction_on generalizing s with
  | _ n ih =>
    subst size
    by_cases empty : s = []
    · rw [empty, utf8DisplayWidth]
      exact le_refl _
    · have pos := utf8Next_pos_of_ne empty
      have inside := utf8Next_le s
      have behind := ih (s.drop (utf8Next s).2).length (by rw [List.length_drop]; omega) _ rfl
      have first := frontWidth_le s
      rw [List.length_drop] at behind
      rw [displayWidth_of_ne empty]
      omega

/-! ## Well-formed text -/

/-- Bytes that continue a character are taken whole. -/
theorem utf8Rest_continuation (t rest : Bytes) (follow : ∀ x ∈ t, continuation x = true)
    (cp : Nat) : ∃ v, utf8Rest t.length cp (t ++ rest) = some v := by
  induction t generalizing cp with
  | nil => exact ⟨cp, rfl⟩
  | cons c t ih =>
    rw [List.length_cons, List.cons_append, utf8Rest, if_pos (follow c List.mem_cons_self)]
    exact ih (fun x mem => follow x (List.mem_cons_of_mem c mem)) _

theorem utf8Sequence_continuation {n : Nat} {t : Bytes} (length : t.length = n)
    (follow : ∀ x ∈ t, continuation x = true) (cp : UInt8) (rest : Bytes) :
    (utf8Sequence (n + 1) cp (t ++ rest)).2 = n + 1 := by
  obtain ⟨v, read⟩ := utf8Rest_continuation t rest follow cp.toNat
  unfold utf8Sequence
  rw [Nat.add_sub_cancel, ← length, read]

/-- `utf8_next` advances by a whole character. -/
theorem utf8Next_encodeChar (c : Char) (rest : Bytes) :
    (utf8Next (String.utf8EncodeChar c ++ rest)).2 = (String.utf8EncodeChar c).length := by
  obtain ⟨b, t, shape, follow, lead⟩ := Utf8.encodeChar_lead c
  have bytes : ∀ {x y : UInt8}, x < y ↔ x.toNat < y.toNat := UInt8.lt_iff_toNat_lt
  have bytes' : ∀ {x y : UInt8}, x ≤ y ↔ x.toNat ≤ y.toNat := UInt8.le_iff_toNat_le
  rw [shape, List.cons_append, List.length_cons]
  unfold utf8Next
  dsimp only
  simp only [bytes, bytes', UInt8.reduceToNat] at lead ⊢
  rcases lead with ⟨zero, low⟩ | ⟨one, low, high⟩ | ⟨two, low, high⟩ | ⟨three, low, high⟩
  · rw [if_pos low, zero]
  · rw [if_neg (by omega), if_neg (by omega), if_pos high, one]
    exact utf8Sequence_continuation one follow _ _
  · rw [if_neg (by omega), if_neg (by omega), if_neg (by omega), if_pos high, two]
    exact utf8Sequence_continuation two follow _ _
  · rw [if_neg (by omega), if_neg (by omega), if_neg (by omega), if_neg (by omega), if_pos high,
      three]
    exact utf8Sequence_continuation three follow _ _

theorem Cut.wellFormed (h : Cut s front rest) (well : WellFormed s) :
    WellFormed front ∧ WellFormed rest := by
  induction h with
  | here s => exact ⟨⟨[], rfl⟩, well⟩
  | @next s front rest nonempty cut ih =>
    obtain ⟨cs, rfl⟩ := well
    cases cs with
    | nil => exact absurd rfl nonempty
    | cons c cs =>
      have advance := utf8Next_encodeChar c (Utf8.encode cs)
      rw [← Utf8.encode_cons] at advance
      have behind : (Utf8.encode (c :: cs)).drop (utf8Next (Utf8.encode (c :: cs))).2 =
          Utf8.encode cs := by
        rw [advance, Utf8.encode_cons]
        exact List.drop_left' rfl
      have here : (Utf8.encode (c :: cs)).take (utf8Next (Utf8.encode (c :: cs))).2 =
          Utf8.encode [c] := by
        rw [advance, Utf8.encode_cons, Utf8.encode_cons, Utf8.encode_nil, List.append_nil]
        exact List.take_left' rfl
      obtain ⟨wellFront, wellRest⟩ := ih ⟨cs, behind⟩
      rw [here]
      exact ⟨WellFormed.append ⟨[c], rfl⟩ wellFront, wellRest⟩

theorem wellFormed_spaces {gap : Bytes} (spaces : ∀ c ∈ gap, c = 32) : WellFormed gap := by
  induction gap with
  | nil => exact ⟨[], rfl⟩
  | cons c gap ih =>
    have space : WellFormed [32] := ⟨[' '], by decide⟩
    rw [spaces c List.mem_cons_self]
    exact space.append (ih fun d mem => spaces d (List.mem_cons_of_mem c mem))

/-! ## The inner loop -/

/-- The inner loop stops at a cut behind a front that fits. It stops before the end only where the
next code point does not fit. The cuts it remembers are behind fronts that fit. -/
structure LineScanned (avail : Int) (start : Bytes) (r : Scan) : Prop where
  safe : r.safe_cut = r.p
  stop : ∃ front, Cut start front r.p ∧ (utf8DisplayWidth front : Int) ≤ avail ∧
    (r.p ≠ [] → avail < utf8DisplayWidth front + frontWidth r.p)
  space : ∀ sp ∈ r.last_space, ∃ front, Cut start front sp ∧
    (utf8DisplayWidth front : Int) ≤ avail

theorem scanLine_spec {avail : Int} {start : Bytes} (short : start.length < 2 ^ 31)
    {p : Bytes} {last_space : Option Bytes} {accum : Int}
    (cut : Cut start front p) (fits : (utf8DisplayWidth front : Int) ≤ avail)
    (accumulated : accum = utf8DisplayWidth front)
    (spaces : ∀ sp ∈ last_space, ∃ front, Cut start front sp ∧
      (utf8DisplayWidth front : Int) ≤ avail) :
    LineScanned avail start (scanLine avail p last_space p accum) := by
  induction size : p.length using Nat.strong_induction_on generalizing front p last_space accum with
  | _ n ih =>
    subst size accumulated
    cases p with
    | nil =>
      rw [scanLine]
      exact ⟨rfl, ⟨front, cut, fits, fun more => absurd rfl more⟩, spaces⟩
    | cons c s =>
      have nonempty : c :: s ≠ [] := List.cons_ne_nil c s
      have within : utf8DisplayWidth front + frontWidth (c :: s) < 2 ^ 31 := by
        have whole := congrArg List.length cut.eq
        have first := displayWidth_le front
        have next := frontWidth_le (c :: s)
        have inside := utf8Next_le (c :: s)
        rw [List.length_append] at whole
        omega
      have exact_sum : toInt ((utf8DisplayWidth front : Int) + frontWidth (c :: s)) =
          utf8DisplayWidth front + frontWidth (c :: s) := by
        have := toInt_of_small within
        rwa [Int.natCast_add] at this
      have remembered : ∀ sp ∈ (if (utf8Next (c :: s)).1 = 32 then some (c :: s) else last_space),
          ∃ front, Cut start front sp ∧ (utf8DisplayWidth front : Int) ≤ avail := by
        intro sp mem
        split at mem
        · obtain rfl := Option.some.inj mem
          exact ⟨front, cut, fits⟩
        · exact spaces sp mem
      rw [scanLine]
      dsimp only
      rw [exact_sum]
      by_cases exceeds : (utf8DisplayWidth front : Int) + frontWidth (c :: s) > avail
      · rw [if_pos exceeds]
        exact ⟨rfl, ⟨front, cut, fits, fun _ => exceeds⟩, remembered⟩
      · rw [if_neg exceeds]
        have further := cut.snoc nonempty
        have widths : utf8DisplayWidth (front ++ (c :: s).take (utf8Next (c :: s)).2) =
            utf8DisplayWidth front + frontWidth (c :: s) := by
          have before := cut.displayWidth
          have after := further.displayWidth
          have step := displayWidth_of_ne nonempty
          omega
        refine ih _ ?_ further ?_ ?_ remembered rfl
        · have pos := utf8Next_pos c s
          rw [List.length_drop, List.length_cons]
          omega
        · rw [widths]
          omega
        · rw [widths]
          exact (Int.natCast_add _ _).symm

/-! ## The outer loop -/

theorem printTo_of_cut {start stop : Bytes} (short : start.length < 2 ^ 31)
    (cut : Cut start front stop) : printTo start stop = front := by
  have whole := congrArg List.length cut.eq
  rw [List.length_append] at whole
  have size : (start.length : Int) - stop.length = front.length := by omega
  unfold printTo precision
  rw [size, toInt_of_small (by omega), if_neg (by omega), Int.toNat_natCast, cut.eq]
  exact List.take_left' rfl

/-- What is left of the text is wrapped. -/
structure WrapsTo (avail : Int) (p : Bytes) (lines : List Bytes) : Prop where
  returns : ∀ fuel, p.length ≤ fuel → wrap avail fuel p = some lines
  narrow : ∀ line ∈ lines, (utf8DisplayWidth line : Int) ≤ avail
  joined : Joined avail lines p
  characters : WellFormed p → ∀ line ∈ lines, WellFormed line

/-- A line with a break behind it. -/
theorem WrapsTo.broken {avail : Int} {p stop gap rest : Bytes} {lines : List Bytes}
    (cut : Cut p front stop) (fits : (utf8DisplayWidth front : Int) ≤ avail)
    (exceeds : avail < utf8DisplayWidth p) (skipped : stop = gap ++ rest)
    (spaces : ∀ c ∈ gap, c = 32) (behind : WrapsTo avail rest lines)
    (short : p.length < 2 ^ 31) (shorter : rest.length < p.length)
    (next : ∀ fuel, wrap avail (fuel + 1) p =
      (wrap avail fuel rest).map (printTo p stop :: ·)) : WrapsTo avail p (front :: lines) where
  returns fuel enough := by
    obtain ⟨k, rfl⟩ : ∃ k, fuel = k + 1 := ⟨fuel - 1, by omega⟩
    rw [next, behind.returns k (by omega), printTo_of_cut short cut]
    rfl
  narrow line mem := by
    rcases List.mem_cons.mp mem with rfl | mem
    · exact fits
    · exact behind.narrow line mem
  joined := .inr ⟨exceeds, gap, rest, by rw [← skipped, ← cut.eq], spaces, behind.joined⟩
  characters well line mem := by
    obtain ⟨wellFront, wellStop⟩ := cut.wellFormed well
    rcases List.mem_cons.mp mem with rfl | mem
    · exact wellFront
    · rw [skipped] at wellStop
      exact behind.characters ((wellFormed_spaces spaces).of_append wellStop) line mem

/-- The last line. -/
theorem WrapsTo.last {avail : Int} {p : Bytes} (fits : (utf8DisplayWidth p : Int) ≤ avail)
    (returns : ∀ fuel, p.length ≤ fuel → wrap avail fuel p = some [p]) : WrapsTo avail p [p] where
  returns := returns
  narrow line mem := by
    rw [List.mem_singleton.mp mem]
    exact fits
  joined := .inl ⟨rfl, rfl⟩
  characters well line mem := by
    rw [List.mem_singleton.mp mem]
    exact well

/-- Every text that is short enough is wrapped: each line takes at least one byte. -/
theorem exists_wrapsTo {avail : Int} (wide : 20 ≤ avail) {p : Bytes} (short : p.length < 2 ^ 31) :
    ∃ lines, WrapsTo avail p lines := by
  induction size : p.length using Nat.strong_induction_on generalizing p with
  | _ n ih =>
    subst size
    by_cases empty : p = []
    · subst empty
      refine ⟨[], ⟨fun fuel _ => ?_, nofun, rfl, fun _ => nofun⟩⟩
      rw [wrap]
    have scanned : LineScanned avail p (scanLine avail p none p 0) :=
      scanLine_spec short (.here p) (by rw [utf8DisplayWidth]; omega)
        (by rw [utf8DisplayWidth]; rfl) nofun
    generalize result : scanLine avail p none p 0 = r at scanned
    obtain ⟨safe, ⟨front, cut, fits, progress⟩, space⟩ := scanned
    have unfolded : ∀ fuel, wrap avail (fuel + 1) p =
        if r.p = [] then some [printTo p r.safe_cut]
        else
          match r.last_space with
          | none => (wrap avail fuel r.safe_cut).map (printTo p r.safe_cut :: ·)
          | some last_space =>
            if last_space.length < p.length then
              (wrap avail fuel (last_space.dropWhile (· == 32))).map (printTo p last_space :: ·)
            else (wrap avail fuel r.safe_cut).map (printTo p r.safe_cut :: ·) := by
      intro fuel
      obtain ⟨c, s, rfl⟩ := List.exists_cons_of_ne_nil empty
      rw [wrap, result]
      exact empty
    have pos := List.length_pos_of_ne_nil empty
    have noGap : ∀ c ∈ ([] : Bytes), c = 32 := fun c mem => absurd mem List.not_mem_nil
    by_cases ended : r.p = []
    · rw [ended] at cut
      obtain rfl : p = front := cut.eq.trans (List.append_nil front)
      refine ⟨[p], .last fits fun fuel enough => ?_⟩
      obtain ⟨k, rfl⟩ : ∃ k, fuel = k + 1 := ⟨fuel - 1, by omega⟩
      rw [unfolded, if_pos ended, safe, ended, printTo_of_cut short cut]
    have whole := congrArg List.length cut.eq
    rw [List.length_append] at whole
    have full := progress ended
    have widths := cut.displayWidth
    have step := displayWidth_of_ne ended
    have exceeds : avail < utf8DisplayWidth p := by omega
    have taken : 0 < front.length := by
      have := frontWidth_le_two r.p
      have := displayWidth_le front
      omega
    obtain ⟨after, wrapped⟩ := ih r.p.length (by omega) (by omega) rfl
    have breaks : (∀ fuel, wrap avail (fuel + 1) p =
        (wrap avail fuel r.safe_cut).map (printTo p r.safe_cut :: ·)) →
        ∃ lines, WrapsTo avail p lines := by
      intro next
      rw [safe] at next
      exact ⟨front :: after, .broken cut fits exceeds (List.nil_append _).symm noGap wrapped short
        (by omega) next⟩
    cases found : r.last_space with
    | none =>
      refine breaks fun fuel => ?_
      rw [unfolded, if_neg ended, found]
    | some sp =>
      by_cases behind : sp.length < p.length
      · obtain ⟨before, cutSp, fitsSp⟩ := space sp (Option.mem_def.mpr found)
        have dropped := List.length_dropWhile_le (· == 32) sp
        obtain ⟨others, wrappedSp⟩ := ih (sp.dropWhile (· == 32)).length (by omega) (by omega) rfl
        refine ⟨before :: others, .broken cutSp fitsSp exceeds
          (List.takeWhile_append_dropWhile (p := (· == 32))).symm (fun c mem => ?_) wrappedSp short
          (by omega) fun fuel => ?_⟩
        · have space : (c == 32) = true := List.mem_takeWhile_imp (p := (· == 32)) mem
          exact beq_iff_eq.mp space
        · rw [unfolded, if_neg ended, found]
          exact if_pos behind
      · refine breaks fun fuel => ?_
        rw [unfolded, if_neg ended, found]
        exact if_neg behind

/-- Word wrapping ends and loses nothing, for a text of fewer than 2^31 bytes and widths whose
difference is an `int`. -/
theorem word_wrap (text : Bytes) (indent width : Int) (short : text.length < 2 ^ 31)
    (least : -2 ^ 31 ≤ width - indent) (most : width - indent < 2 ^ 31) :
    WrapsWords text indent width := by
  have avail : available indent width = max (width - indent) 20 := by
    have exact_difference : toInt (width - indent) = width - indent := by
      unfold toInt
      exact Int.bmod_eq_of_le (by omega) (by omega)
    unfold available
    dsimp only
    rw [exact_difference]
    split <;> omega
  have wide : 20 ≤ available indent width := by omega
  obtain ⟨lines, wraps⟩ := exists_wrapsTo wide short
  rw [avail] at wraps
  refine ⟨lines, fun fuel enough => ?_, ⟨wraps.narrow, wraps.joined, wraps.characters⟩⟩
  have returned : wrap (available indent width) fuel text = some lines := by
    rw [avail]
    exact wraps.returns fuel enough
  refine ⟨returned, ?_⟩
  unfold cliPrintWordWrap
  rw [returned]
  rfl

end

namespace Sample

theorem scanLine_zeros {avail : Int} (nonneg : 0 ≤ avail) (n : Nat) :
    scanLine avail (List.replicate n 0x80) none (List.replicate n 0x80) 0 = ⟨[], none, [], 0⟩ := by
  induction n with
  | zero => rw [List.replicate_zero, scanLine]
  | succ n ih =>
    have next : utf8Next (0x80 :: List.replicate n 0x80) = (0, 1) := rfl
    have width : frontWidth (0x80 :: List.replicate n 0x80) = 0 := rfl
    have fits : ¬ toInt (0 + (0 : Nat)) > avail := not_lt.mpr nonneg
    rw [List.replicate_succ, scanLine]
    dsimp only
    rw [next, width, if_neg fits]
    exact ih

/-- Bytes of no width are printed on one line, as many as their number is as an `int`. -/
theorem wrap_zeros {avail : Int} (nonneg : 0 ≤ avail) (n fuel : Nat) :
    wrap avail (fuel + 1) (List.replicate (n + 1) 0x80) =
      some [precision (toInt ((n : Int) + 1)) (List.replicate (n + 1) 0x80)] := by
  have scanned := scanLine_zeros nonneg (n + 1)
  rw [List.replicate_succ] at scanned ⊢
  rw [wrap, scanned, if_pos rfl]
  · unfold printTo
    rw [List.length_cons, List.length_replicate]
    simp
  · exact List.cons_ne_nil _ _

/-- The length of 2^32 bytes is 0 as an `int`, and nothing of them is printed. -/
theorem long_text_is_lost : ¬ ∀ (text : Bytes) (indent width : Int),
    WrapsWords text indent width := by
  intro all
  obtain ⟨lines, returns, wrapped⟩ := all (List.replicate (4294967295 + 1) 0x80) 7 80
  have avail : available 7 80 = 73 := by decide
  have length : toInt ((4294967295 : Nat) + 1) = 0 := by decide
  have printed : wrap (available 7 80) (4294967295 + 1) (List.replicate (4294967295 + 1) 0x80) =
      some [[]] := by
    rw [avail, wrap_zeros (by decide), length]
    rfl
  have bound := (List.length_replicate (n := 4294967295 + 1) (a := (0x80 : UInt8))).le
  obtain rfl := Option.some.inj (printed.symm.trans (returns _ bound).1)
  rcases wrapped.joined with ⟨same, -⟩ | ⟨-, gap, rest, whole, spaces, nothing⟩
  · rw [List.replicate_succ] at same
    cases same
  · rw [show rest = [] from nothing, List.nil_append, List.append_nil, List.replicate_succ] at whole
    have first := spaces 0x80 (whole ▸ List.mem_cons_self)
    exact absurd first (by decide)

theorem word_wrap_greeting : WrapsWords (utf8 "Hello, Bobby") 7 80 :=
  word_wrap (utf8 "Hello, Bobby") 7 80 (by decide) (by decide) (by decide)

end Sample

end Shyake.Client
