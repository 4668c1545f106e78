import Shyake.Client.Cli.WordWrap

/-!
# The subject cell of a mail list (`utf8_truncate` of `display.c`)

A subject is shown in a column of `w` columns of the terminal and goes through a buffer of 512
bytes. Each limit cuts the text in its own way: the columns between code points, the buffer
wherever its end falls.
-/

namespace Shyake.Client

open Utf8 (continuation WellFormed)

/-! ## utf8_truncate -/

/-- A sum of `int`s; one that is no `int` is undefined. -/
def intSum (n : Int) : Option Int := if -2 ^ 31 ≤ n ∧ n < 2 ^ 31 then some n else none

/-- `memcpy` of `n` bytes of `src` and of `tail` into a buffer, and the NUL behind them. What
does not lie in the buffer is undefined. -/
def fill (buf_sz : Int) (src : Bytes) (n : Int) (tail : Bytes) : Option Bytes :=
  if 0 ≤ n ∧ n + tail.length + 1 ≤ buf_sz then some (src.take n.toNat ++ tail) else none

/-- The loop of `utf8_truncate`: `last_safe` and `accum`. -/
def scanHead (limit_w : Int) (p : Bytes) (accum : Int) : Bytes × Int :=
  match p with
  | [] => ([], accum)
  | c :: s =>
    let p := c :: s
    if accum + frontWidth p > limit_w then (p, accum)
    else scanHead limit_w (p.drop (utf8Next p).2) (accum + frontWidth p)
termination_by p.length
decreasing_by
  have := utf8Next_pos c s
  rw [List.length_drop, List.length_cons]
  omega

def ellipsis : Bytes := utf8 "..."

/-- How much of a head of so many bytes is copied: what the buffer has room for. -/
def headRoom (buf_sz head : Int) : Option Int := do
  let needed ← intSum (head + 3)
  let head := if needed ≥ buf_sz then buf_sz - 3 - 1 else head
  some (if head < 0 then 0 else head)

/-- `utf8_truncate`: what `buf` holds afterwards, and the width that is returned. -/
def utf8Truncate (src : Bytes) (buf_sz max_w : Int) : Option (Bytes × Int) :=
  if max_w < 3 then (fill buf_sz src 0 []).map fun buf => (buf, 0)
  else do
    let total_w ← intSum (utf8DisplayWidth src)
    if total_w ≤ max_w then
      let len := toInt src.length
      let len := if len ≥ buf_sz then buf_sz - 1 else len
      let buf ← fill buf_sz src len []
      some (buf, total_w)
    else
      let (last_safe, accum) := scanHead (max_w - 3) src 0
      let head ← headRoom buf_sz (toInt (src.length - last_safe.length))
      let buf ← fill buf_sz src head ellipsis
      some (buf, accum + 3)

/-! ## The column of the subjects -/

/-- `w_sub` behind the loop over the entries: the widest subject, and 7 at least. -/
def widestSubject (subjects : List Bytes) : Option Int :=
  subjects.foldlM (fun w_sub s => do
    let l ← intSum (utf8DisplayWidth s)
    some (if l > w_sub then l else w_sub)) 7

/-- `w_sub` of `cli_render_mail_list`, on a terminal of `tw` columns of which the others are
`used`. -/
def subjectColumn (plain : Bool) (tw used : Int) (subjects : List Bytes) : Option Int := do
  let w_sub ← widestSubject subjects
  if plain then some w_sub
  else
    let max_sub ← intSum (tw - used)
    let max_sub ← intSum (max_sub - 1)
    let max_sub := if max_sub < 15 then 15 else max_sub
    some (if w_sub > max_sub then max_sub else w_sub)

/-! ## What a cell is for -/

/-- The buffer and the width that is returned tell the truth about the subject. -/
structure Honest (subject : Bytes) (w : Int) (buf : Bytes) (dw : Int) : Prop where
  width : dw = utf8DisplayWidth buf
  narrow : dw ≤ w
  characters : WellFormed subject → WellFormed buf
  whole : (utf8DisplayWidth subject : Int) ≤ w → buf = subject
  cut : w < utf8DisplayWidth subject → ∃ head, head <+: subject ∧ buf = head ++ ellipsis

/-- The subject is shown in `w` columns by way of the 512 bytes of `sub_trunc`. -/
def ShownHonestly (subject : Bytes) (w : Int) : Prop :=
  ∃ buf dw, utf8Truncate subject 512 w = some (buf, dw) ∧ Honest subject w buf dw

/-- The code points of `s` before the first that does not fit in `limit` columns. -/
def Head (limit : Int) (s head : Bytes) : Prop :=
  ∃ rest, Cut s head rest ∧ rest ≠ [] ∧ (utf8DisplayWidth head : Int) ≤ limit ∧
    limit < utf8DisplayWidth head + frontWidth rest

/-- What is to be shown fits in the buffer. -/
def FitsBuffer (subject : Bytes) (w : Int) : Prop :=
  if (utf8DisplayWidth subject : Int) ≤ w then subject.length ≤ 511
  else utf8DisplayWidth subject < 2 ^ 31 ∧ ∀ head, Head (w - 3) subject head →
    head.length ≤ 508 ∨ ¬ WellFormed subject ∧
      ∃ n, headRoom 512 (toInt head.length) = some n ∧
        utf8DisplayWidth (head.take n.toNat) = utf8DisplayWidth head

/-! ## Cuts -/

section

variable {s t front rest head : Bytes} {limit : Int}

theorem Cut.front_width (nonempty : s ≠ []) (cut : Cut (s.drop (utf8Next s).2) front rest) :
    utf8DisplayWidth (s.take (utf8Next s).2 ++ front) = frontWidth s + utf8DisplayWidth front := by
  have whole := (Cut.next nonempty cut).displayWidth
  have behind := cut.displayWidth
  have step := displayWidth_of_ne nonempty
  omega

/-- The loop stops before the first code point that does not fit. -/
theorem scanHead_of_cut (cut : Cut s head rest) (more : rest ≠ []) (accum : Int)
    (fits : accum + utf8DisplayWidth head ≤ limit)
    (next : limit < accum + utf8DisplayWidth head + frontWidth rest) :
    scanHead limit s accum = (rest, accum + utf8DisplayWidth head) := by
  induction cut generalizing accum with
  | here s =>
    obtain ⟨c, s, rfl⟩ := List.exists_cons_of_ne_nil more
    rw [utf8DisplayWidth] at next ⊢
    rw [scanHead, if_pos (by omega), Int.natCast_zero, Int.add_zero]
  | @next s front rest nonempty cut ih =>
    have width := Cut.front_width nonempty cut
    rw [width] at fits next ⊢
    have further := ih more (accum + frontWidth s) (by omega) (by omega)
    obtain ⟨c, s, rfl⟩ := List.exists_cons_of_ne_nil nonempty
    rw [scanHead, if_neg (by omega), further, Int.natCast_add, Int.add_assoc]

theorem exists_head_from (cut : Cut s front rest) (fits : (utf8DisplayWidth front : Int) ≤ limit)
    (wide : limit < utf8DisplayWidth s) : ∃ head, Head limit s head := by
  induction size : rest.length using Nat.strong_induction_on generalizing front rest with
  | _ n ih =>
    subst size
    have widths := cut.displayWidth
    by_cases ended : rest = []
    · rw [ended, utf8DisplayWidth] at widths
      omega
    by_cases next : limit < utf8DisplayWidth front + frontWidth rest
    · exact ⟨front, rest, cut, ended, fits, next⟩
    · have further := cut.snoc ended
      have after := further.displayWidth
      have step := displayWidth_of_ne ended
      have pos := utf8Next_pos_of_ne ended
      have some_left := List.length_pos_of_ne_nil ended
      refine ih _ ?_ further (by omega) rfl
      rw [List.length_drop]
      omega

theorem exists_head (nonneg : 0 ≤ limit) (wide : limit < utf8DisplayWidth s) :
    ∃ head, Head limit s head :=
  exists_head_from (.here s) (by rw [utf8DisplayWidth]; exact nonneg) wide

/-- A sequence that would reach into bytes that continue nothing is no code point. -/
theorem utf8Rest_stops (k cp : Nat) (short : s.length < k)
    (stop : ∀ c ∈ t.head?, continuation c = false) : utf8Rest k cp (s ++ t) = none := by
  induction k generalizing cp s with
  | zero => exact absurd short (Nat.not_lt_zero _)
  | succ k ih =>
    cases s with
    | nil =>
      cases t with
      | nil => rfl
      | cons c t =>
        rw [List.nil_append, utf8Rest, stop c rfl]
        rfl
    | cons c s =>
      rw [List.cons_append, utf8Rest]
      split
      · exact ih _ (Nat.lt_of_succ_lt_succ short)
      · rfl

theorem utf8Sequence_stops {n : Nat} {cp : UInt8}
    (stop : ∀ c ∈ t.head?, continuation c = false) :
    (utf8Sequence n cp (s ++ t)).2 ≤ s.length + 1 := by
  unfold utf8Sequence
  by_cases short : s.length < n - 1
  · rw [utf8Rest_stops _ _ short stop]
    exact Nat.le_add_left 1 _
  · split
    · dsimp only
      omega
    · exact Nat.le_add_left 1 _

theorem utf8Next_stops (nonempty : s ≠ []) (stop : ∀ c ∈ t.head?, continuation c = false) :
    (utf8Next (s ++ t)).2 ≤ s.length := by
  obtain ⟨c, s, rfl⟩ := List.exists_cons_of_ne_nil nonempty
  rw [List.cons_append, List.length_cons]
  unfold utf8Next
  dsimp only
  repeat' split
  · exact Nat.le_add_left 1 _
  · exact Nat.le_add_left 1 _
  · exact utf8Sequence_stops stop
  · exact utf8Sequence_stops stop
  · exact utf8Sequence_stops stop
  · exact Nat.le_add_left 1 _

/-- Text that begins with no continuation byte is decoded on its own, whatever is before it. -/
theorem Cut.append (s : Bytes) (stop : ∀ c ∈ t.head?, continuation c = false) :
    Cut (s ++ t) s t := by
  induction size : s.length using Nat.strong_induction_on generalizing s with
  | _ n ih =>
    subst size
    by_cases empty : s = []
    · rw [empty]
      exact .here t
    · have inside := utf8Next_stops empty stop
      have pos : 0 < (utf8Next (s ++ t)).2 := utf8Next_pos_of_ne (by simp [empty])
      have some_left := List.length_pos_of_ne_nil empty
      have shorter : (s.drop (utf8Next (s ++ t)).2).length < s.length := by
        rw [List.length_drop]
        omega
      have further := ih _ shorter _ rfl
      have whole := Cut.next (s := s ++ t) (by simp [empty])
        (by rwa [List.drop_append_of_le_length inside])
      rwa [List.take_append_of_le_length inside, List.take_append_drop] at whole

theorem displayWidth_ellipsis (s : Bytes) :
    utf8DisplayWidth (s ++ ellipsis) = utf8DisplayWidth s + 3 := by
  have dots : ellipsis = [46, 46, 46] := by decide
  have stop : ∀ c ∈ ellipsis.head?, continuation c = false := by
    rw [dots]
    rintro c ⟨⟩
    decide
  have three : utf8DisplayWidth ellipsis = 3 := by
    rw [dots]
    simp [utf8DisplayWidth, frontWidth, utf8Next, cpWidth]
  rw [(Cut.append s stop).displayWidth, three]

/-! ## Characters cut short -/

theorem cpWidth_pos {cp : Int} (pos : 0 < cp) : 0 < cpWidth cp := by
  unfold cpWidth
  rw [if_neg (by omega)]
  split
  · exact Nat.two_pos
  · exact Nat.one_pos

theorem frontWidth_pos (pos : 0 < (utf8Next s).1) : 0 < frontWidth s := by
  unfold frontWidth
  dsimp only
  rw [if_pos pos]
  exact cpWidth_pos pos

theorem le_utf8Rest {k cp v : Nat} (read : utf8Rest k cp s = some v) : cp ≤ v := by
  induction k generalizing cp s with
  | zero => exact (Option.some.inj read).le
  | succ k ih =>
    cases s with
    | nil => cases read
    | cons c s =>
      rw [utf8Rest] at read
      split at read
      · have := ih read
        omega
      · cases read

theorem utf8Sequence_pos {n : Nat} {cp x : UInt8}
    (whole : (utf8Sequence (n + 2) cp (x :: s)).2 = n + 2)
    (pos : 0 < cp.toNat ∨ 0 < (x &&& 0x3F).toNat) :
    0 < (utf8Sequence (n + 2) cp (x :: s)).1 := by
  unfold utf8Sequence at whole ⊢
  cases read : utf8Rest (n + 2 - 1) cp.toNat (x :: s) with
  | none =>
    rw [read] at whole
    change 1 = n + 2 at whole
    omega
  | some v =>
    rw [show n + 2 - 1 = n + 1 from rfl, utf8Rest] at read
    split at read
    · have least := le_utf8Rest read
      change (0 : Int) < (v : Int)
      omega
    · cases read

/-- The sequence that a first byte begins. -/
theorem utf8Next_lead (b : UInt8) (s : Bytes) :
    (0xC2 ≤ b → b < 0xE0 → utf8Next (b :: s) = utf8Sequence 2 (b &&& 0x1F) s) ∧
    (0xE0 ≤ b → b < 0xF0 → utf8Next (b :: s) = utf8Sequence 3 (b &&& 0x0F) s) ∧
    (0xF0 ≤ b → b < 0xF8 → utf8Next (b :: s) = utf8Sequence 4 (b &&& 0x07) s) := by
  unfold utf8Next
  dsimp only
  simp only [UInt8.lt_iff_toNat_lt, UInt8.le_iff_toNat_le, UInt8.reduceToNat]
  refine ⟨fun low high => ?_, fun low high => ?_, fun low high => ?_⟩
  · rw [if_neg (by omega), if_neg (by omega), if_pos high]
  · rw [if_neg (by omega), if_neg (by omega), if_neg (by omega), if_pos high]
  · rw [if_neg (by omega), if_neg (by omega), if_neg (by omega), if_neg (by omega), if_pos high]

/-- What the bits of a first byte and of a second one are worth. -/
theorem payload_pos (b : UInt8) :
    (0xC2 ≤ b → b < 0xE0 → 0 < (b &&& 0x1F).toNat) ∧
    (0xE0 ≤ b → b < 0xF0 → b ≠ 0xE0 → 0 < (b &&& 0x0F).toNat) ∧
    (0xF0 ≤ b → b < 0xF8 → b ≠ 0xF0 → 0 < (b &&& 0x07).toNat) ∧
    (continuation b = true → 0x90 ≤ b → 0 < (b &&& 0x3F).toNat) := by
  have two : ∀ b : UInt8, 0xC2 ≤ b → b < 0xE0 → 0 < (b &&& 0x1F).toNat :=
    Utf8.forall_byte (by decide +kernel)
  have three : ∀ b : UInt8, 0xE0 ≤ b → b < 0xF0 → b ≠ 0xE0 → 0 < (b &&& 0x0F).toNat :=
    Utf8.forall_byte (by decide +kernel)
  have four : ∀ b : UInt8, 0xF0 ≤ b → b < 0xF8 → b ≠ 0xF0 → 0 < (b &&& 0x07).toNat :=
    Utf8.forall_byte (by decide +kernel)
  have next : ∀ b : UInt8, continuation b = true → 0x90 ≤ b → 0 < (b &&& 0x3F).toNat :=
    Utf8.forall_byte (by decide +kernel)
  exact ⟨two b, three b, four b, next b⟩

/-- A character other than NUL takes a column. -/
theorem frontWidth_encodeChar {c : Char} (nul : 0 ∉ String.utf8EncodeChar c) :
    0 < frontWidth (String.utf8EncodeChar c) := by
  obtain ⟨b, t, shape, follow, lead⟩ := Utf8.encodeChar_lead c
  have advance := utf8Next_encodeChar c []
  rw [List.append_nil] at advance
  refine frontWidth_pos ?_
  rcases lead with ⟨alone, low⟩ | ⟨one, low, high⟩ | ⟨two, low, high⟩ | ⟨three, low, high⟩
  · have some_byte : b.toNat ≠ 0 := by
      intro zero
      rw [shape, show b = 0 from UInt8.toNat_inj.mp zero] at nul
      exact nul List.mem_cons_self
    rw [shape]
    unfold utf8Next
    dsimp only
    rw [if_pos low]
    dsimp only
    omega
  · obtain ⟨x, rfl⟩ := List.length_eq_one_iff.mp one
    rw [shape, (utf8Next_lead b _).1 low high] at advance ⊢
    exact utf8Sequence_pos advance (.inl ((payload_pos b).1 low high))
  · obtain ⟨x, y, rfl⟩ := List.length_eq_two.mp two
    rw [shape, (utf8Next_lead b _).2.1 low high] at advance ⊢
    refine utf8Sequence_pos advance ?_
    by_cases least : b = 0xE0
    · have next := (Utf8.encodeChar_shortest c).1 (least ▸ shape)
      have cont := follow x List.mem_cons_self
      exact .inr ((payload_pos x).2.2.2 cont (UInt8.le_trans (by decide) next))
    · exact .inl ((payload_pos b).2.1 low high least)
  · obtain ⟨x, y, z, rfl⟩ := List.length_eq_three.mp three
    rw [shape, (utf8Next_lead b _).2.2 low high] at advance ⊢
    refine utf8Sequence_pos advance ?_
    by_cases least : b = 0xF0
    · have next := (Utf8.encodeChar_shortest c).2 (least ▸ shape)
      have cont := follow x List.mem_cons_self
      exact .inr ((payload_pos x).2.2.2 cont next)
    · exact .inl ((payload_pos b).2.2.1 low high least)

theorem width_of_zero {b : UInt8} {t : Bytes} (next : utf8Next (b :: t) = (0, 1)) :
    utf8DisplayWidth (b :: t) = utf8DisplayWidth t := by
  have nothing : frontWidth (b :: t) = 0 := by
    unfold frontWidth
    rw [next]
    rfl
  rw [utf8DisplayWidth, nothing, next, Nat.zero_add]
  rfl

/-- Bytes that continue a character take no column by themselves. -/
theorem width_of_continuation {t : Bytes} (follow : ∀ x ∈ t, continuation x = true) :
    utf8DisplayWidth t = 0 := by
  have range : ∀ x : UInt8, continuation x = true → ¬ x < 0x80 ∧ x < 0xC2 :=
    Utf8.forall_byte (by decide +kernel)
  induction t with
  | nil => rw [utf8DisplayWidth]
  | cons x t ih =>
    obtain ⟨high, low⟩ := range x (follow x List.mem_cons_self)
    have next : utf8Next (x :: t) = (0, 1) := by
      unfold utf8Next
      dsimp only
      rw [if_neg high, if_pos low]
    rw [width_of_zero next]
    exact ih fun y mem => follow y (List.mem_cons_of_mem _ mem)

theorem utf8Sequence_short {n : Nat} {cp : UInt8} {t : Bytes} (short : t.length < n - 1) :
    utf8Sequence n cp t = (0, 1) := by
  have none := utf8Rest_stops (s := t) (t := []) (n - 1) cp.toNat short nofun
  rw [List.append_nil] at none
  unfold utf8Sequence
  rw [none]

/-- Nor does a character that lacks some of its bytes. -/
theorem width_of_partial {c : Char} {n : Nat} (short : n < (String.utf8EncodeChar c).length) :
    utf8DisplayWidth ((String.utf8EncodeChar c).take n) = 0 := by
  obtain ⟨b, t, shape, follow, lead⟩ := Utf8.encodeChar_lead c
  rw [shape] at short ⊢
  cases n with
  | zero => rw [List.take_zero, utf8DisplayWidth]
  | succ n =>
    have fewer : (t.take n).length < t.length := by
      rw [List.length_take]
      rw [List.length_cons] at short
      omega
    have next : utf8Next (b :: t.take n) = (0, 1) := by
      rcases lead with ⟨zero, -⟩ | ⟨one, low, high⟩ | ⟨two, low, high⟩ | ⟨three, low, high⟩
      · omega
      · rw [(utf8Next_lead b _).1 low high, utf8Sequence_short (by omega)]
      · rw [(utf8Next_lead b _).2.1 low high, utf8Sequence_short (by omega)]
      · rw [(utf8Next_lead b _).2.2 low high, utf8Sequence_short (by omega)]
    rw [List.take_succ_cons, width_of_zero next]
    exact width_of_continuation fun x mem => follow x (List.mem_of_mem_take mem)

/-- A character in front of a text takes its own columns. -/
theorem width_encode_cons (c : Char) (rest : Bytes) :
    utf8DisplayWidth (String.utf8EncodeChar c ++ rest) =
      frontWidth (String.utf8EncodeChar c) + utf8DisplayWidth rest := by
  obtain ⟨b, t, shape, -⟩ := Utf8.encodeChar_lead c
  have nonempty : String.utf8EncodeChar c ≠ [] := by simp [shape]
  have alone : utf8Next (String.utf8EncodeChar c) = utf8Next (String.utf8EncodeChar c ++ rest) :=
    utf8Next_append nonempty (utf8Next_encodeChar c rest).le
  rw [displayWidth_of_ne (by simp [shape]), utf8Next_encodeChar, List.drop_left]
  unfold frontWidth
  rw [alone]

/-- A well-formed text that is cut by bytes loses a column. -/
theorem width_take_lt {s : Bytes} (well : WellFormed s) (nul : 0 ∉ s) {n : Nat}
    (short : n < s.length) : utf8DisplayWidth (s.take n) < utf8DisplayWidth s := by
  obtain ⟨cs, rfl⟩ := well
  induction cs generalizing n with
  | nil => exact absurd short (Nat.not_lt_zero n)
  | cons c cs ih =>
    rw [Utf8.encode_cons] at nul short ⊢
    rw [List.length_append] at short
    have column := frontWidth_encodeChar fun mem => nul (List.mem_append_left _ mem)
    by_cases inside : n < (String.utf8EncodeChar c).length
    · rw [List.take_append_of_le_length inside.le, width_of_partial inside, width_encode_cons]
      omega
    · have fewer := ih (fun mem => nul (List.mem_append_right _ mem))
        (show n - (String.utf8EncodeChar c).length < (Utf8.encode cs).length by omega)
      rw [List.take_append, List.take_of_length_le (by omega), width_encode_cons,
        width_encode_cons]
      omega

end

/-! ## What the buffer takes -/

section

variable {src head buf : Bytes} {w : Int}

theorem intSum_of_small {n : Int} (low : -2 ^ 31 ≤ n) (high : n < 2 ^ 31) : intSum n = some n :=
  if_pos ⟨low, high⟩

/-- The subject is copied, up to the end of the buffer. -/
theorem utf8Truncate_whole (least : 3 ≤ w) (most : w < 2 ^ 31)
    (narrow : (utf8DisplayWidth src : Int) ≤ w) :
    utf8Truncate src 512 w =
      (fill 512 src (min (toInt src.length) 511) []).map fun buf =>
        (buf, (utf8DisplayWidth src : Int)) := by
  have clamped : (if toInt src.length ≥ 512 then (512 : Int) - 1 else toInt src.length) =
      min (toInt src.length) 511 := by
    split <;> omega
  unfold utf8Truncate
  rw [if_neg (by omega), intSum_of_small (by omega) (by omega)]
  simp only [Option.bind_eq_bind, Option.bind_some]
  rw [if_pos narrow, clamped]
  cases fill 512 src (min (toInt src.length) 511) [] <;> rfl

/-- The head is copied, as far as there is room, and the ellipsis behind it. -/
theorem utf8Truncate_cut (least : 3 ≤ w) (wide : w < utf8DisplayWidth src)
    (counted : utf8DisplayWidth src < 2 ^ 31) (fits : Head (w - 3) src head) :
    utf8Truncate src 512 w =
      (headRoom 512 (toInt head.length)).bind fun n =>
        (fill 512 src n ellipsis).map fun buf => (buf, (utf8DisplayWidth head : Int) + 3) := by
  obtain ⟨rest, cut, more, inside, next⟩ := fits
  have scanned : scanHead (w - 3) src 0 = (rest, (utf8DisplayWidth head : Int)) := by
    have scanned : scanHead (w - 3) src 0 = (rest, 0 + (utf8DisplayWidth head : Int)) :=
      scanHead_of_cut cut more 0 (by omega) (by omega)
    rwa [Int.zero_add] at scanned
  have length : (src.length : Int) - rest.length = head.length := by
    rw [cut.eq, List.length_append]
    omega
  unfold utf8Truncate
  rw [if_neg (by omega), intSum_of_small (by omega) (by omega)]
  simp only [Option.bind_eq_bind, Option.bind_some]
  rw [if_neg (by omega), scanned]
  dsimp only
  rw [length]
  cases headRoom 512 (toInt head.length) with
  | none => rfl
  | some n =>
    simp only [Option.bind_some]
    cases fill 512 src n ellipsis <;> rfl

theorem toInt_le (h : Nat) : toInt h ≤ h := by
  unfold toInt
  rw [Int.bmod_def]
  split <;> omega

/-- Of the head at most 508 bytes are copied, all of them if there are no more. -/
theorem headRoom_spec {h : Nat} {n : Int} (room : headRoom 512 (toInt h) = some n) :
    0 ≤ n ∧ n ≤ 508 ∧ n ≤ h ∧ (h ≤ 508 → n = h) := by
  have le := toInt_le h
  have same : h ≤ 508 → toInt h = h := fun few => toInt_of_small (by omega)
  unfold headRoom at room
  obtain ⟨needed, sum, rest⟩ := Option.bind_eq_some_iff.mp room
  obtain ⟨-, rfl⟩ : _ ∧ toInt h + 3 = needed := by
    unfold intSum at sum
    split at sum
    · rename_i range
      exact ⟨range, Option.some.inj sum⟩
    · cases sum
  obtain rfl := Option.some.inj rest
  refine ⟨?_, ?_, ?_, fun few => ?_⟩
  · split <;> omega
  · split <;> split <;> omega
  · split <;> split <;> omega
  · rw [same few]
    split <;> split <;> omega

theorem headRoom_of_small {h : Nat} (few : h ≤ 508) : headRoom 512 (toInt h) = some (h : Int) := by
  have same : toInt h = h := toInt_of_small (by omega)
  unfold headRoom
  rw [same, intSum_of_small (by omega) (by omega)]
  simp only [Option.bind_eq_bind, Option.bind_some]
  rw [if_neg (by omega), if_neg (by omega)]

theorem fill_of_room {n : Int} (low : 0 ≤ n) (high : n ≤ 508) :
    fill 512 src n ellipsis = some (src.take n.toNat ++ ellipsis) := by
  have three : ellipsis.length = 3 := by decide
  unfold fill
  rw [if_pos ⟨low, by rw [three]; omega⟩]

/-! ## The cell -/

/-- A subject that is narrow enough is shown as it is, when it fits in the buffer. -/
theorem shownHonestly_whole (least : 3 ≤ w) (most : w < 2 ^ 31)
    (narrow : (utf8DisplayWidth src : Int) ≤ w) :
    ShownHonestly src w ↔ src.length ≤ 511 := by
  have result := utf8Truncate_whole least most narrow
  constructor
  · rintro ⟨buf, dw, shown, honest⟩
    rw [result] at shown
    obtain ⟨copied, filled, same⟩ := Option.map_eq_some_iff.mp shown
    obtain ⟨rfl, -⟩ := Prod.mk.inj same
    have whole := honest.whole narrow
    unfold fill at filled
    split at filled
    · have length := congrArg List.length (Option.some.inj filled)
      rw [whole, List.append_nil, List.length_take] at length
      omega
    · cases filled
  · intro few
    have length : toInt src.length = src.length := toInt_of_small (by omega)
    have filled : fill 512 src (min (toInt src.length) 511) [] = some src := by
      have size : min (toInt src.length) 511 = (src.length : Int) := by omega
      unfold fill
      rw [size, if_pos ⟨by omega, by simp; omega⟩, Int.toNat_natCast, List.take_length,
        List.append_nil]
    rw [filled] at result
    exact ⟨src, utf8DisplayWidth src, result, rfl, narrow, id, fun _ => rfl, fun wide => by omega⟩

/-- A subject that is too wide is shown as what fits of it and an ellipsis, when what the buffer
takes of that has its width. -/
theorem shownHonestly_cut (least : 3 ≤ w) (nul : 0 ∉ src) (wide : w < utf8DisplayWidth src)
    (counted : utf8DisplayWidth src < 2 ^ 31) (fits : Head (w - 3) src head) :
    ShownHonestly src w ↔ head.length ≤ 508 ∨ ¬ WellFormed src ∧
      ∃ n, headRoom 512 (toInt head.length) = some n ∧
        utf8DisplayWidth (head.take n.toNat) = utf8DisplayWidth head := by
  have result := utf8Truncate_cut least wide counted fits
  obtain ⟨rest, cut, -, inside, -⟩ := fits
  have shown_of {n : Int} (room : headRoom 512 (toInt head.length) = some n) :
      utf8Truncate src 512 w =
        some (head.take n.toNat ++ ellipsis, (utf8DisplayWidth head : Int) + 3) := by
    obtain ⟨low, high, inHead, -⟩ := headRoom_spec room
    have taken : src.take n.toNat = head.take n.toNat := by
      rw [cut.eq, List.take_append_of_le_length (by omega)]
    rw [result, room, Option.bind_some, fill_of_room low high, taken]
    rfl
  constructor
  · rintro ⟨buf, dw, shown, honest⟩
    cases room : headRoom 512 (toInt head.length) with
    | none =>
      rw [result, room] at shown
      cases shown
    | some n =>
      obtain ⟨rfl, rfl⟩ := Prod.mk.inj (Option.some.inj ((shown_of room).symm.trans shown))
      have width := honest.width
      rw [displayWidth_ellipsis] at width
      by_cases few : head.length ≤ 508
      · exact .inl few
      refine .inr ⟨fun well => ?_, n, rfl, by omega⟩
      -- in a well-formed subject the bytes that the buffer leaves out have columns
      obtain ⟨-, high, -⟩ := headRoom_spec room
      have loses := width_take_lt (n := n.toNat) (cut.wellFormed well).1
        (fun mem => nul (cut.eq ▸ List.mem_append_left rest mem)) (by omega)
      omega
  · intro fits
    obtain ⟨n, room, same, well⟩ : ∃ n, headRoom 512 (toInt head.length) = some n ∧
        utf8DisplayWidth (head.take n.toNat) = utf8DisplayWidth head ∧
        (WellFormed src → WellFormed (head.take n.toNat)) := by
      rcases fits with few | ⟨ill, n, room, same⟩
      · refine ⟨head.length, headRoom_of_small few, ?_, fun well => ?_⟩
        · rw [Int.toNat_natCast, List.take_length]
        · rw [Int.toNat_natCast, List.take_length]
          exact (cut.wellFormed well).1
      · exact ⟨n, room, same, fun well => absurd well ill⟩
    have dots : WellFormed ellipsis := ⟨['.', '.', '.'], by decide⟩
    refine ⟨_, _, shown_of room, ?_, by omega, fun h => (well h).append dots, fun _ => by omega,
      fun _ => ⟨head.take n.toNat, ?_, rfl⟩⟩
    · rw [displayWidth_ellipsis, same]
      omega
    · exact (List.take_prefix _ head).trans ⟨rest, cut.eq.symm⟩

/-- **The subject cell is honest** exactly when what is to be shown fits in its buffer. -/
theorem shownHonestly_iff (subject : Bytes) (w : Int) (nul : 0 ∉ subject) (least : 3 ≤ w)
    (most : w < 2 ^ 31) : ShownHonestly subject w ↔ FitsBuffer subject w := by
  unfold FitsBuffer
  split
  · rename_i narrow
    exact shownHonestly_whole least most narrow
  · rename_i wide
    by_cases counted : utf8DisplayWidth subject < 2 ^ 31
    · have cell {head : Bytes} (fits : Head (w - 3) subject head) :=
        shownHonestly_cut least nul (Int.not_le.mp wide) counted fits
      obtain ⟨head, fits⟩ : ∃ head, Head (w - 3) subject head :=
        exists_head (by omega) (by omega)
      exact ⟨fun honest => ⟨counted, fun head fits => (cell fits).mp honest⟩,
        fun room => (cell fits).mpr (room.2 head fits)⟩
    · refine ⟨fun ⟨buf, dw, shown, _⟩ => ?_, fun room => absurd room.1 counted⟩
      have overflow : intSum (utf8DisplayWidth subject) = none := if_neg (by omega)
      unfold utf8Truncate at shown
      rw [if_neg (by omega), overflow] at shown
      cases shown

end

/-! ## The widths that the list computes -/

section

variable {subjects : List Bytes} {subject : Bytes} {w tw used : Int}

theorem intSum_eq {n m : Int} (h : intSum n = some m) : m = n ∧ -2 ^ 31 ≤ n ∧ n < 2 ^ 31 := by
  unfold intSum at h
  split at h
  · rename_i range
    exact ⟨(Option.some.inj h).symm, range⟩
  · cases h

/-- The loop keeps what it starts from and sees every subject. -/
theorem widest_spec {start : Int} (low : 7 ≤ start) (high : start < 2 ^ 31)
    (column : subjects.foldlM (fun w_sub s => do
      let l ← intSum (utf8DisplayWidth s)
      some (if l > w_sub then l else w_sub)) start = some w) :
    start ≤ w ∧ w < 2 ^ 31 ∧ ∀ subject ∈ subjects, (utf8DisplayWidth subject : Int) ≤ w := by
  induction subjects generalizing start with
  | nil =>
    obtain rfl := Option.some.inj column
    exact ⟨Int.le_refl _, high, nofun⟩
  | cons s subjects ih =>
    rw [List.foldlM_cons] at column
    obtain ⟨next, one, rest⟩ := Option.bind_eq_some_iff.mp column
    obtain ⟨l, counted, chosen⟩ := Option.bind_eq_some_iff.mp one
    obtain ⟨rfl, -, small⟩ := intSum_eq counted
    obtain rfl := Option.some.inj chosen
    obtain ⟨least, most, all⟩ := ih (by split <;> omega) (by split <;> omega) rest
    have wider : (utf8DisplayWidth s : Int) ≤ w ∧ start ≤ w := by
      split at least <;> omega
    refine ⟨wider.2, most, fun subject mem => ?_⟩
    rcases List.mem_cons.mp mem with rfl | mem
    · exact wider.1
    · exact all subject mem

/-- Every column is one of those above. -/
theorem subjectColumn_range {plain : Bool}
    (column : subjectColumn plain tw used subjects = some w) : 7 ≤ w ∧ w < 2 ^ 31 := by
  unfold subjectColumn at column
  obtain ⟨w_sub, widest, rest⟩ := Option.bind_eq_some_iff.mp column
  obtain ⟨low, high, -⟩ := widest_spec (Int.le_refl 7) (by decide) widest
  cases plain with
  | true =>
    obtain rfl := Option.some.inj rest
    exact ⟨low, high⟩
  | false =>
    obtain ⟨space, -, rest⟩ := Option.bind_eq_some_iff.mp rest
    obtain ⟨max_sub, counted, rest⟩ := Option.bind_eq_some_iff.mp rest
    obtain rfl := Option.some.inj rest
    constructor
    · split <;> split <;> omega
    · split <;> split <;> omega

/-- Without decoration every subject fits in its column, and the buffer alone cuts it. -/
theorem plain_cell (column : subjectColumn true tw used subjects = some w)
    (mem : subject ∈ subjects) : ShownHonestly subject w ↔ subject.length ≤ 511 := by
  obtain ⟨low, high⟩ := subjectColumn_range column
  unfold subjectColumn at column
  obtain ⟨w_sub, widest, rest⟩ := Option.bind_eq_some_iff.mp column
  obtain rfl := Option.some.inj rest
  obtain ⟨-, -, all⟩ := widest_spec (Int.le_refl 7) (by decide) widest
  exact shownHonestly_whole (by omega) high (all subject mem)

end

namespace Sample

theorem width_letters (n : Nat) : utf8DisplayWidth (List.replicate n 97) = n := by
  induction n with
  | zero => rw [List.replicate_zero, utf8DisplayWidth]
  | succ n ih =>
    have next : utf8Next (97 :: List.replicate n 97) = (97, 1) := rfl
    have one : frontWidth (97 :: List.replicate n 97) = 1 := by
      unfold frontWidth
      rw [next]
      decide
    rw [List.replicate_succ, utf8DisplayWidth, one, next, List.drop_one, List.tail_cons, ih,
      Nat.add_comm]

/-- A subject of 600 letters, in plain mode and alone in the list. -/
theorem long_subject_is_cut : ¬ ∀ plain tw used subjects w,
    subjectColumn plain tw used subjects = some w → 3 ≤ w →
    ∀ subject ∈ subjects, 0 ∉ subject → ShownHonestly subject w := by
  intro all
  have column : subjectColumn true 80 0 [List.replicate 600 97] = some 600 := by
    have widest : widestSubject [List.replicate 600 97] = some 600 := by
      unfold widestSubject
      rw [List.foldlM_cons, width_letters]
      rfl
    unfold subjectColumn
    rw [widest]
    rfl
  have shown := all true 80 0 _ 600 column (by decide) _ List.mem_cons_self
    (fun mem => absurd (List.eq_of_mem_replicate mem) (by decide))
  have short := (plain_cell column List.mem_cons_self).mp shown
  rw [List.length_replicate] at short
  exact absurd short (by decide)

theorem hello_shown : ShownHonestly (utf8 "Hello, Bobby") 15 := by
  refine (shownHonestly_iff (utf8 "Hello, Bobby") 15 (by decide) (by decide) (by decide)).mpr ?_
  have narrow := displayWidth_le (utf8 "Hello, Bobby")
  have length : (utf8 "Hello, Bobby").length = 12 := by decide
  unfold FitsBuffer
  rw [if_pos (by omega), length]
  decide

end Sample

end Shyake.Client
