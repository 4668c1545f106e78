import Shyake.Client.CJson.Safe
import Shyake.Client.DraftStore
import Shyake.Client.Signed

/-!
# The parser reads what the printer writes

Every lemma here is about what stands at an offset: a token with anything behind it is read to its
end, and a token that is cut is refused, or read up to the NUL behind it.
-/

namespace Shyake.Client.CJson

open Lib (Access)
open Lib.Access
open Go.Protocol (quote escapeByte)

variable {content rest : Bytes} {p : Nat} {c : UInt8}

/-! ## What stands at an offset -/

theorem lt_of_drop (here : content.drop p = c :: rest) : p < content.length := by
  by_contra out
  rw [List.drop_of_length_le (Nat.le_of_not_lt out)] at here
  cases here

theorem read_of_drop (here : content.drop p = c :: rest) : read content p = .ok c := by
  have : content[p]? = some c := by rw [← List.head?_drop, here, List.head?_cons]
  unfold Access.read
  rw [this]

theorem drop_next (here : content.drop p = c :: rest) : content.drop (p + 1) = rest := by
  rw [← List.drop_drop, here, List.drop_succ_cons, List.drop_zero]

theorem drop_past {s : Bytes} (here : content.drop p = s ++ rest) :
    content.drop (p + s.length) = rest := by
  rw [← List.drop_drop, here, List.drop_left]

theorem canAccess_of_drop (here : content.drop p = c :: rest) : canAccess content p 0 = true := by
  have := lt_of_drop here
  simpa [canAccess] using this

theorem isNext_of_drop (d : UInt8) (here : content.drop p = c :: rest) :
    isNext content p d = .ok (c == d) := by
  unfold isNext
  rw [if_pos (canAccess_of_drop here), read_of_drop here]
  rfl

theorem skipWhitespace_of_drop (here : content.drop p = c :: rest) (dark : 32 < c) :
    skipWhitespace content p = p := by
  have inside := lt_of_drop here
  unfold skipWhitespace
  rw [if_pos (canAccess_of_drop here), here,
    List.takeWhile_cons_of_neg (by simpa [UInt8.not_le] using dark)]
  dsimp only [List.length_nil]
  rw [if_neg (by omega), Nat.add_zero]

/-- The NUL is skipped, and stepped back to. -/
theorem skipWhitespace_of_nul (here : content.drop p = [0]) : skipWhitespace content p = p := by
  have inside := lt_of_drop here
  have length := congrArg List.length here
  rw [List.length_drop, List.length_singleton] at length
  unfold skipWhitespace
  rw [if_pos (canAccess_of_drop here), here]
  dsimp only
  rw [if_pos (show p + _ = _ by simp; omega)]
  simp

/-! ## Strings -/

/-- Without a quotation mark, no string ends. -/
theorem stringEnd_open {p k : Nat} (none : (34 : UInt8) ∉ content.drop p) :
    Run (stringEndTurn content) (p, k) .refused := by
  induction left : content.length - p using Nat.strong_induction_on generalizing p k with
  | _ left ih =>
  subst left
  by_cases inside : p < content.length
  · obtain ⟨c, here⟩ : ∃ c, content[p]? = some c := ⟨_, List.getElem?_eq_getElem inside⟩
    have at_p : content.drop p = c :: content.drop (p + 1) := by
      obtain ⟨_, rfl⟩ := List.getElem?_eq_some_iff.mp here
      exact List.drop_eq_getElem_cons inside
    have other : c ≠ 34 := fun e => none (by rw [at_p, e]; exact List.mem_cons_self)
    have later : ∀ n, (34 : UInt8) ∉ content.drop (p + 1 + n) := fun n mem =>
      none (by
        rw [at_p]
        refine List.mem_cons_of_mem _ ?_
        rw [← List.drop_drop] at mem
        exact List.mem_of_mem_drop mem)
    have turn : ∀ {r}, (if c = 92 then
          if p + 1 ≥ content.length then Access.refused else pure (.inl (p + 2, k + 1))
        else pure (.inl (p + 1, k))) = r → stringEndTurn content (p, k) = r := by
      rintro r rfl
      rw [stringEndTurn, if_pos inside, read_of_drop at_p, ok_bind, if_neg other]
    by_cases backslash : c = 92
    · rw [if_pos backslash] at turn
      by_cases cut : p + 1 ≥ content.length
      · exact .stop (turn (if_pos cut))
      · exact .next (turn (if_neg cut)) (ih _ (by omega) (later 1) rfl)
    · exact .next (turn (if_neg backslash)) (ih _ (by omega) (later 0) rfl)
  · exact .stop (by rw [stringEndTurn, if_neg inside])

theorem stringEnd_quotation {p k : Nat} (here : content.drop p = 34 :: rest) :
    Run (stringEndTurn content) (p, k) (.ok (p, k)) := by
  refine .last ?_
  rw [stringEndTurn, if_pos (lt_of_drop here), read_of_drop here, ok_bind, if_pos rfl]
  rfl

theorem stringEnd_plain {p k : Nat} {r : Access (Nat × Nat)} (here : content.drop p = c :: rest)
    (quote : c ≠ 34) (backslash : c ≠ 92) (on : Run (stringEndTurn content) (p + 1, k) r) :
    Run (stringEndTurn content) (p, k) r := by
  refine .next ?_ on
  rw [stringEndTurn, if_pos (lt_of_drop here), read_of_drop here, ok_bind, if_neg quote,
    if_neg backslash]
  rfl

theorem stringEnd_escape {p k : Nat} {r : Access (Nat × Nat)}
    (here : content.drop p = 92 :: c :: rest) (on : Run (stringEndTurn content) (p + 2, k + 1) r) :
    Run (stringEndTurn content) (p, k) r := by
  have := lt_of_drop (drop_next here)
  refine .next ?_ on
  rw [stringEndTurn, if_pos (lt_of_drop here), read_of_drop here, ok_bind, if_neg (by decide),
    if_pos rfl, if_neg (by omega)]
  rfl

theorem hexDigit_plain : ∀ n : Fin 256, Go.hexDigit (UInt8.ofNat n &&& 0xf) ≠ 34 ∧
    Go.hexDigit (UInt8.ofNat n &&& 0xf) ≠ 92 ∧ Go.hexDigit (UInt8.ofNat n >>> 4) ≠ 34 ∧
    Go.hexDigit (UInt8.ofNat n >>> 4) ≠ 92 := by
  decide +kernel

/-- What is printed for a character is passed, and makes up for what is skipped in it. -/
theorem stringEnd_escapeByte {p k : Nat} (here : content.drop p = escapeByte c ++ rest) :
    ∃ skipped, skipped + 1 ≤ (escapeByte c).length ∧ ∀ {r},
      Run (stringEndTurn content) (p + (escapeByte c).length, k + skipped) r →
        Run (stringEndTurn content) (p, k) r := by
  unfold escapeByte at here ⊢
  split_ifs at here ⊢ with quote backslash _ _ _ _ _ control
  any_goals exact ⟨1, Nat.le_refl _, fun on => stringEnd_escape here on⟩
  · have plain := hexDigit_plain ⟨c.toNat, c.toNat_lt⟩
    simp only [UInt8.ofNat_toNat] at plain
    obtain ⟨low, low', high, high'⟩ := plain
    have second := drop_next (drop_next here)
    refine ⟨1, by simp, fun on => stringEnd_escape here ?_⟩
    refine stringEnd_plain second (by decide) (by decide) ?_
    refine stringEnd_plain (drop_next second) (by decide) (by decide) ?_
    refine stringEnd_plain (drop_next (drop_next second)) high high' ?_
    exact stringEnd_plain (drop_next (drop_next (drop_next second))) low low' on
  · exact ⟨0, Nat.le_refl _, fun on => stringEnd_plain here quote backslash on⟩

/-- A string in quotation marks ends at the second one. -/
theorem stringEnd_body (s : Bytes) {p k : Nat}
    (here : content.drop p = s.flatMap escapeByte ++ 34 :: rest) :
    ∃ skipped, skipped + s.length ≤ (s.flatMap escapeByte).length ∧
      Run (stringEndTurn content) (p, k) (.ok (p + (s.flatMap escapeByte).length, k + skipped)) := by
  induction s generalizing p k with
  | nil => exact ⟨0, Nat.le_refl _, stringEnd_quotation here⟩
  | cons c s ih =>
    rw [List.flatMap_cons, List.append_assoc] at here
    obtain ⟨first, short, on⟩ := stringEnd_escapeByte (k := k) here
    obtain ⟨more, shorter, run⟩ := ih (k := k + first) (drop_past here)
    refine ⟨first + more, ?_, ?_⟩
    · rw [List.flatMap_cons, List.length_append, List.length_cons]
      omega
    · rw [List.flatMap_cons, List.length_append, ← Nat.add_assoc, ← Nat.add_assoc]
      exact on run

/-- A part of what is printed for a character holds no quotation mark. -/
theorem quote_not_mem_part {n : Nat} (part : n < (escapeByte c).length) :
    (34 : UInt8) ∉ (escapeByte c).take n := by
  have table : ∀ m : Fin 256, ∀ n < (escapeByte (UInt8.ofNat m)).length,
      (34 : UInt8) ∉ (escapeByte (UInt8.ofNat m)).take n := by
    decide +kernel
  have here := table ⟨c.toNat, c.toNat_lt⟩
  simp only [UInt8.ofNat_toNat] at here
  exact here n part

/-- A string that is cut ends nowhere. -/
theorem stringEnd_part (s : Bytes) {p k n : Nat}
    (here : content.drop p = (s.flatMap escapeByte).take n ++ [0]) :
    Run (stringEndTurn content) (p, k) .refused := by
  induction s generalizing p k n with
  | nil =>
    refine stringEnd_open ?_
    rw [here]
    simp
  | cons c s ih =>
    rw [List.flatMap_cons, List.take_append] at here
    rcases Nat.lt_or_ge n (escapeByte c).length with within | behind
    · refine stringEnd_open ?_
      rw [here, Nat.sub_eq_zero_of_le (Nat.le_of_lt within), List.take_zero, List.append_nil]
      simpa using quote_not_mem_part within
    · rw [List.take_of_length_le behind, List.append_assoc] at here
      obtain ⟨first, -, on⟩ := stringEnd_escapeByte (k := k) here
      exact on (ih (drop_past here))

theorem stringEnd_eq {start : Nat} (inside : start ≤ content.length) {r : Access (Nat × Nat)}
    (run : Run (stringEndTurn content) (start, 0) r) : stringEnd content start = r :=
  run.loop_eq _ (stringEnd_ends inside).not_fault

/-! ### Escapes -/

theorem parseHex4Turn_digit {i h digit : Nat} (here : content.drop (p + i) = c :: rest)
    (value : hexDigitOf c = some digit) (more : i < 4) :
    parseHex4Turn content p (i, h) =
      .ok (.inl (i + 1, if i < 3 then (h + digit) <<< 4 else h + digit)) := by
  rw [parseHex4Turn, if_pos more, read_of_drop here, ok_bind, value]
  rfl

theorem parseHex4_eq {a b c d : UInt8} {i j k l : Nat}
    (here : content.drop p = a :: b :: c :: d :: rest) (first : hexDigitOf a = some i)
    (second : hexDigitOf b = some j) (third : hexDigitOf c = some k)
    (fourth : hexDigitOf d = some l) :
    parseHex4 content p = .ok ((((0 + i) <<< 4 + j) <<< 4 + k) <<< 4 + l) := by
  have at_b := drop_next here
  have at_c := drop_next at_b
  unfold parseHex4
  rw [loop_next 4 (parseHex4Turn_digit (i := 0) here first (by decide)),
    loop_next 3 (parseHex4Turn_digit (i := 1) at_b second (by decide)),
    loop_next 2 (parseHex4Turn_digit (i := 2) at_c third (by decide)),
    loop_next 1 (parseHex4Turn_digit (i := 3) (drop_next at_c) fourth (by decide))]
  exact loop_last 0 rfl

theorem encodeUtf8_ascii (small : c < 0x80) : encodeUtf8 c.toNat = some [c] := by
  have table : ∀ n : Fin 128, encodeUtf8 n = some [UInt8.ofNat n] := by decide
  have bound : c.toNat < 128 := UInt8.lt_iff_toNat_lt.mp small
  simpa using table ⟨c.toNat, bound⟩

/-- The literal of a control character. -/
theorem utf16Literal_control {input_end : Nat} (control : c < 0x20)
    (here : content.drop p = 92 :: 117 :: 48 :: 48 :: Go.hexDigit (c >>> 4) ::
      Go.hexDigit (c &&& 0xf) :: rest) (room : p + 6 ≤ input_end) :
    utf16Literal content p input_end = .ok (c.toNat, 6) := by
  have digits : ∀ n : Fin 32, ∃ high low, hexDigitOf (Go.hexDigit (UInt8.ofNat n >>> 4)) = some high ∧
      hexDigitOf (Go.hexDigit (UInt8.ofNat n &&& 0xf)) = some low ∧ high <<< 4 + low = n := by
    intro n
    have table : ∀ n : Fin 32,
        hexDigitOf (Go.hexDigit (UInt8.ofNat n >>> 4)) = some (n / 16) ∧
          hexDigitOf (Go.hexDigit (UInt8.ofNat n &&& 0xf)) = some (n % 16) ∧
            (n.val / 16) <<< 4 + n.val % 16 = n := by
      decide
    exact ⟨_, _, table n⟩
  have bound : c.toNat < 32 := UInt8.lt_iff_toNat_lt.mp control
  obtain ⟨high, low, first, second, value⟩ := digits ⟨c.toNat, bound⟩
  simp only [UInt8.ofNat_toNat] at first second value
  have code : parseHex4 content (p + 2) = .ok c.toNat := by
    rw [parseHex4_eq (drop_next (drop_next here)) (i := 0) (j := 0) rfl rfl first second]
    simpa using value
  unfold utf16Literal
  rw [if_neg (by omega), code, ok_bind, if_neg (by omega), if_neg (by omega)]
  rfl

section Unescape

variable {input_end size : Nat} {output : Bytes}

theorem write_char (room : output.length < size) : write size output [c] = .ok (output ++ [c]) := by
  unfold write
  rw [if_pos (by rw [List.length_singleton]; omega)]

theorem unescapeNext_plain (here : content.drop p = c :: rest) (plain : c ≠ 92)
    (room : output.length < size) :
    unescapeNext content input_end size (p, output) = .ok (p + 1, output ++ [c]) := by
  rw [unescapeNext, read_of_drop here, ok_bind, if_pos plain, write_char room]
  rfl

theorem unescapeNext_short {escape : UInt8} (here : content.drop p = 92 :: escape :: rest)
    (short : escape ≠ 117) (char : shortEscape escape = some c) (room : output.length < size) :
    unescapeNext content input_end size (p, output) = .ok (p + 2, output ++ [c]) := by
  rw [unescapeNext, read_of_drop here, ok_bind, if_neg (by decide), read_of_drop (drop_next here), ok_bind,
    if_neg short, char]
  dsimp only
  rw [write_char room]
  rfl

theorem unescapeNext_control (control : c < 0x20)
    (here : content.drop p = 92 :: 117 :: 48 :: 48 :: Go.hexDigit (c >>> 4) ::
      Go.hexDigit (c &&& 0xf) :: rest) (ahead : p + 6 ≤ input_end) (room : output.length < size) :
    unescapeNext content input_end size (p, output) = .ok (p + 6, output ++ [c]) := by
  rw [unescapeNext, read_of_drop here, ok_bind, if_neg (by decide), read_of_drop (drop_next here), ok_bind,
    if_pos rfl, utf16Literal_control control here ahead, ok_bind]
  dsimp only
  rw [encodeUtf8_ascii (UInt8.lt_trans control (by decide))]
  dsimp only
  rw [write_char room]
  rfl

/-- What is printed for a character is turned into it. -/
theorem unescapeNext_escapeByte (input_end : Nat) (here : content.drop p = escapeByte c ++ rest)
    (room : output.length < size) (ahead : p + (escapeByte c).length ≤ input_end) :
    unescapeNext content input_end size (p, output) =
      .ok (p + (escapeByte c).length, output ++ [c]) := by
  unfold escapeByte at here ahead ⊢
  by_cases quote : c = 34
  · rw [if_pos quote] at here ⊢
    exact unescapeNext_short here (by decide) (by rw [quote]; rfl) room
  rw [if_neg quote] at here ahead ⊢
  by_cases backslash : c = 92
  · rw [if_pos backslash] at here ⊢
    exact unescapeNext_short here (by decide) (by rw [backslash]; rfl) room
  rw [if_neg backslash] at here ahead ⊢
  split_ifs at here ahead ⊢ with backspace formfeed newline carriage tab control
  · exact unescapeNext_short here (by decide) (backspace ▸ rfl) room
  · exact unescapeNext_short here (by decide) (formfeed ▸ rfl) room
  · exact unescapeNext_short here (by decide) (newline ▸ rfl) room
  · exact unescapeNext_short here (by decide) (carriage ▸ rfl) room
  · exact unescapeNext_short here (by decide) (tab ▸ rfl) room
  · exact unescapeNext_control control here ahead room
  · exact unescapeNext_plain here backslash room

theorem unescapeTurn_of_lt (ahead : p < input_end)
    {next : Nat × Bytes} (h : unescapeNext content input_end size (p, output) = .ok next) :
    unescapeTurn content input_end size (p, output) = .ok (.inl next) := by
  rw [unescapeTurn, if_pos ahead, h]
  rfl

theorem length_escapeByte_pos (c : UInt8) : 0 < (escapeByte c).length := by
  unfold escapeByte
  split_ifs <;> exact Nat.succ_pos _

theorem unescape_body (s output : Bytes)
    (here : content.drop p = s.flatMap escapeByte ++ 34 :: rest)
    (stop : p + (s.flatMap escapeByte).length = input_end) (room : output.length + s.length ≤ size) :
    Run (unescapeTurn content input_end size) (p, output) (.ok (output ++ s)) := by
  induction s generalizing p output with
  | nil =>
    rw [List.append_nil]
    refine .last ?_
    rw [unescapeTurn, if_neg (by simp at stop; omega)]
    rfl
  | cons c s ih =>
    rw [List.flatMap_cons, List.append_assoc] at here
    rw [List.flatMap_cons, List.length_append] at stop
    rw [List.length_cons] at room
    have := length_escapeByte_pos c
    have next := unescapeNext_escapeByte input_end here
      (show output.length < size by omega) (by omega)
    have on := ih (output ++ [c]) (drop_past here) (by omega)
      (by rw [List.length_append, List.length_singleton]; omega)
    rw [List.append_assoc] at on
    exact .next (unescapeTurn_of_lt (by omega) next) on

end Unescape

/-- **A string that is printed is parsed.** -/
theorem parseString_quote (s : Bytes) (here : content.drop p = quote s ++ rest) :
    parseString content p = .ok (s, p + (quote s).length) := by
  have body : content.drop (p + 1) = s.flatMap escapeByte ++ 34 :: rest := by
    refine drop_next (c := 34) (here.trans ?_)
    simp [quote]
  have first := lt_of_drop (here.trans (by rw [quote, List.cons_append]))
  obtain ⟨skipped, short, run⟩ := stringEnd_body s (k := 0) body
  have ended := stringEnd_eq first run
  have length : (quote s).length = (s.flatMap escapeByte).length + 2 := by simp [quote]
  generalize measured : (s.flatMap escapeByte).length = n at *
  have within : (parseString content p).Ends _ := parseString_ends first
  have alloc : p + 1 + n - p - skipped = n + 1 - skipped := by omega
  unfold parseString at within ⊢
  rw [read_of_drop (here.trans (by rw [quote, List.cons_append])), ok_bind, if_neg (by decide),
    ended, ok_bind] at within ⊢
  dsimp only at within ⊢
  rw [Nat.zero_add, alloc] at within ⊢
  have output := (unescape_body s [] body (by rw [measured])
    (show _ ≤ n + 1 - skipped + 1 by simp; omega)).loop_eq (content.length + 1) (by
      intro fault
      rw [unescape, fault] at within
      exact within)
  rw [unescape, output, ok_bind, List.nil_append]
  have nul : write (n + 1 - skipped + 1) s [0] = .ok (s ++ [0]) := by
    unfold write
    rw [if_pos (by rw [List.length_singleton]; omega)]
  rw [nul, ok_bind, length]
  exact congrArg (fun q => Access.ok (s, q)) (by omega)

/-- A string that is cut is refused. -/
theorem parseString_part (s : Bytes) {n : Nat} (part : n < (quote s).length)
    (here : content.drop p = (quote s).take n ++ [0]) : parseString content p = .refused := by
  cases n with
  | zero =>
    unfold parseString
    rw [read_of_drop here, ok_bind, if_pos (by decide)]
  | succ n =>
    have length : (quote s).length = (s.flatMap escapeByte).length + 2 := by simp [quote]
    have body : content.drop (p + 1) = (s.flatMap escapeByte).take n ++ [0] := by
      refine drop_next (c := 34) (here.trans ?_)
      rw [quote, List.take_succ_cons, List.take_append_of_le_length (by omega), List.cons_append]
    have first : content.drop p = 34 :: ((s.flatMap escapeByte ++ [34]).take n ++ [0]) := here
    unfold parseString
    rw [read_of_drop first, ok_bind, if_neg (by decide),
      stringEnd_eq (lt_of_drop first) (stringEnd_part s body), refused_bind]

/-! ## Numbers -/

/-- A text of digits that a number starts with, after its sign. -/
theorem strtod_digits (round : ℚ → ℚ) {sign : Int} {n : Nat} {s digits : Bytes}
    (signed : signOf s = (sign, n)) (here : s.drop n = digits) (all : ∀ c ∈ digits, isDigit c = true)
    (nonempty : digits ≠ []) :
    strtod round s = some (round (sign * decimal digits), n + digits.length) := by
  have taken : (s.drop n).takeWhile isDigit = digits := by
    rw [here]
    exact List.takeWhile_eq_self_iff.mpr all
  have out : s.drop (n + digits.length) = [] := by
    rw [← List.drop_drop, here, List.drop_length]
  have noExponent : exponentOf [] = (0, 0) := rfl
  unfold strtod
  rw [signed]
  dsimp only
  rw [taken]
  simp [out, nonempty, noExponent]

/-- A sign, and digits. -/
theorem formatInt_eq (d : Int) : ∃ front sign, (front = [] ∧ sign = 1 ∨ front = [45] ∧ sign = -1) ∧
    Go.formatInt d = front ++ Go.formatInt d.natAbs ∧ sign * (d.natAbs : Int) = d := by
  cases d with
  | ofNat n => exact ⟨[], 1, .inl ⟨rfl, rfl⟩, rfl, Int.one_mul _⟩
  | negSucc n => exact ⟨[45], -1, .inr ⟨rfl, rfl⟩, rfl, by omega⟩

theorem isNumberChar_formatInt (d : Int) : ∀ c ∈ Go.formatInt d, isNumberChar c = true := by
  obtain ⟨front, sign, signed, eq, -⟩ := formatInt_eq d
  rw [eq]
  intro c mem
  rcases List.mem_append.mp mem with mem | mem
  · rcases signed with ⟨rfl, -⟩ | ⟨rfl, -⟩
    · cases mem
    · rw [List.mem_singleton.mp mem]
      rfl
  · simp [isNumberChar, isDigit_formatInt _ c mem]

theorem signOf_digits {front digits : Bytes} {sign : Int}
    (signed : front = [] ∧ sign = 1 ∨ front = [45] ∧ sign = -1)
    (all : ∀ c ∈ digits, isDigit c = true) : signOf (front ++ digits) = (sign, front.length) := by
  rcases signed with ⟨rfl, rfl⟩ | ⟨rfl, rfl⟩
  · cases digits with
    | nil => rfl
    | cons c digits =>
      have digit := all c List.mem_cons_self
      rw [List.nil_append]
      unfold signOf
      split
      · rename_i e
        cases e
        exact absurd digit (by decide)
      · rename_i e
        cases e
        exact absurd digit (by decide)
      · rfl
  · rfl

/-- A part of a number is a number, or none. -/
theorem strtod_part (round : ℚ → ℚ) (d : Int) (n : Nat) :
    strtod round ((Go.formatInt d).take n) = none ∨
      ∃ value, strtod round ((Go.formatInt d).take n) = some (value, ((Go.formatInt d).take n).length) := by
  obtain ⟨front, sign, signed, eq, -⟩ := formatInt_eq d
  rw [eq, List.take_append]
  by_cases nothing : (Go.formatInt d.natAbs).take (n - front.length) = []
  · left
    rw [nothing, List.append_nil]
    rcases signed with ⟨rfl, -⟩ | ⟨rfl, -⟩
    · rw [List.take_nil]
      rfl
    · cases n with
      | zero => rfl
      | succ n =>
        rw [List.take_succ_cons, List.take_nil]
        rfl
  · have whole : front.take n = front := by
      refine List.take_of_length_le ?_
      by_contra short
      exact nothing (by rw [Nat.sub_eq_zero_of_le (by omega), List.take_zero])
    have all : ∀ c ∈ (Go.formatInt d.natAbs).take (n - front.length), isDigit c = true :=
      fun c mem => isDigit_formatInt _ c (List.mem_of_mem_take mem)
    right
    rw [whole, strtod_digits round (signOf_digits signed all) (by rw [List.drop_left]) all nothing,
      List.length_append]
    exact ⟨_, rfl⟩

theorem strtod_formatInt (round : ℚ → ℚ) (d : Int) :
    strtod round (Go.formatInt d) = some (round d, (Go.formatInt d).length) := by
  obtain ⟨front, sign, signed, eq, value⟩ := formatInt_eq d
  have all := isDigit_formatInt d.natAbs
  have decimal : decimal (Go.formatInt d.natAbs) = d.natAbs := foldl_formatInt d.natAbs
  rw [eq, strtod_digits round (signOf_digits signed all) (by rw [List.drop_left]) all
    (formatInt_ne_nil _), List.length_append, decimal]
  have same := congrArg (Int.cast (R := ℚ)) value
  rw [Int.cast_mul, Int.cast_natCast] at same
  rw [same]

theorem takeWhile_number {text : Bytes} (all : ∀ c ∈ text, isNumberChar c = true)
    (stop : isNumberChar c = false) :
    (text ++ c :: rest).takeWhile isNumberChar = text := by
  rw [List.takeWhile_append_of_pos all, List.takeWhile_cons_of_neg (by rw [stop]; decide),
    List.append_nil]

/-- **A number that is printed is parsed.** -/
theorem parseNumber_formatInt {round : ℚ → ℚ} {d : Int} (exact : round d = d)
    (here : content.drop p = Go.formatInt d ++ c :: rest) (stop : isNumberChar c = false) :
    parseNumber round content p = .ok (.number (toValueint d) d, p + (Go.formatInt d).length) := by
  unfold parseNumber
  rw [here, takeWhile_number (isNumberChar_formatInt d) stop, strtod_formatInt]
  dsimp only
  rw [exact]

/-- A number that is cut is read to where it is cut. -/
theorem parseNumber_part (round : ℚ → ℚ) {d : Int} {n : Nat}
    (here : content.drop p = (Go.formatInt d).take n ++ [0]) :
    parseNumber round content p = .refused ∨
      ∃ item q, parseNumber round content p = .ok (item, q) ∧ content.drop q = [0] := by
  have all : ∀ c ∈ (Go.formatInt d).take n, isNumberChar c = true :=
    fun c mem => isNumberChar_formatInt d c (List.mem_of_mem_take mem)
  unfold parseNumber
  rw [here, takeWhile_number all (by decide)]
  rcases strtod_part round d n with none | ⟨value, some⟩
  · exact .inl (by rw [none])
  · exact .inr ⟨_, _, by rw [some], drop_past here⟩

theorem truncate_intCast (d : Int) : truncate d = d := by
  simp [truncate]

/-- `valueint` is the one that the item was made with. -/
theorem createNumber_eq (d : Int) : createNumber d = .number (toValueint d) d := by
  unfold createNumber toValueint
  have large : ((d : ℚ) ≥ (INT_MAX : ℚ)) ↔ d ≥ INT_MAX := Rat.intCast_le_intCast
  have small : ((d : ℚ) ≤ (INT_MIN : ℚ)) ↔ d ≤ INT_MIN := Rat.intCast_le_intCast
  simp only [large, small, truncate_intCast]
  split_ifs <;> rfl

/-! ## Values -/

def Value.node : Value → Node
  | .string s => .string s
  | .number i d => .number i d

/-- The text of a string, or of a number that a double holds exactly. -/
inductive Printed (round : ℚ → ℚ) : Value → Bytes → Prop where
  | string (s : Bytes) : Printed round (.string s) (quote s)
  | number {d : Int} (exact : round d = d) : Printed round (createNumber d) (Go.formatInt d)

section Values

variable {round : ℚ → ℚ} {left : Nat}

/-- What no literal starts with. -/
theorem startsWith_other {text : String} (here : content.drop p = c :: rest)
    (other : (utf8 text).head? ≠ some c) (nonempty : utf8 text ≠ []) :
    startsWith content p text = false := by
  unfold startsWith
  rw [here]
  refine beq_eq_false_iff_ne.mpr fun same => other ?_
  rw [← same]
  obtain ⟨d, ds, shape⟩ := List.exists_cons_of_ne_nil nonempty
  rw [shape]
  rfl

/-- A value that starts with no letter. -/
theorem parseValue_of_drop (left : Nat) (here : content.drop p = c :: rest) (letter : c < 97) :
    parseValue round content left p =
      if c = 34 then parseString content p >>= fun r => .ok (.string r.1, r.2)
      else if c = 45 ∨ (48 ≤ c ∧ c ≤ 57) then parseNumber round content p
      else if c = 91 then
        match left with
        | 0 => .refused
        | left + 1 => parseArray content (parseValue round content left) p
      else .refused := by
  have other : ∀ {d : UInt8}, 97 ≤ d → some d ≠ some c := by
    rintro d above e
    cases e
    exact absurd letter (UInt8.not_lt.mpr above)
  have noNull : startsWith content p "null" = false :=
    startsWith_other here (other (by decide)) (by decide)
  have noFalse : startsWith content p "false" = false :=
    startsWith_other here (other (by decide)) (by decide)
  have noTrue : startsWith content p "true" = false :=
    startsWith_other here (other (by decide)) (by decide)
  have brace : c ≠ 123 := by
    rintro rfl
    exact absurd letter (by decide)
  cases left with
  | zero =>
    unfold parseValue parseValueWith
    simp only [noNull, noFalse, noTrue, canAccess_of_drop here, read_of_drop here, ok_bind, brace]
    rfl
  | succ left =>
    unfold parseValue parseValueWith
    simp only [noNull, noFalse, noTrue, canAccess_of_drop here, read_of_drop here, ok_bind, brace]
    rfl

theorem parseValue_string (left : Nat) (here : content.drop p = 34 :: rest) :
    parseValue round content left p = parseString content p >>= fun r => .ok (.string r.1, r.2) := by
  rw [parseValue_of_drop left here (by decide), if_pos rfl]

theorem parseValue_number (left : Nat) (here : content.drop p = c :: rest)
    (number : c = 45 ∨ (48 ≤ c ∧ c ≤ 57)) :
    parseValue round content left p = parseNumber round content p := by
  have low : c ≤ 57 := by
    rcases number with rfl | ⟨-, high⟩
    · decide
    · exact high
  have other : c ≠ 34 := by
    rcases number with rfl | ⟨low, -⟩
    · decide
    · rintro rfl
      exact absurd low (by decide)
  rw [parseValue_of_drop left here (UInt8.lt_of_le_of_lt low (by decide)), if_neg other,
    if_pos number]

theorem parseValue_nul (left : Nat) (here : content.drop p = [0]) :
    parseValue round content left p = .refused := by
  rw [parseValue_of_drop left here (by decide), if_neg (by decide), if_neg (by decide),
    if_neg (by decide)]

theorem formatInt_cons (d : Int) : ∃ c text, Go.formatInt d = c :: text ∧
    (c = 45 ∨ (48 ≤ c ∧ c ≤ 57)) := by
  obtain ⟨front, sign, signed, eq, -⟩ := formatInt_eq d
  rcases signed with ⟨rfl, -⟩ | ⟨rfl, -⟩
  · obtain ⟨c, text, shape⟩ := List.exists_cons_of_ne_nil (formatInt_ne_nil d.natAbs)
    have digit := isDigit_formatInt d.natAbs c (shape ▸ List.mem_cons_self)
    unfold isDigit at digit
    simp only [Bool.and_eq_true, decide_eq_true_eq] at digit
    exact ⟨c, text, eq.trans shape, .inr digit⟩
  · exact ⟨45, _, eq, .inl rfl⟩

/-- **A value that is printed is parsed.** -/
theorem parseValue_printed {v : Value} {text : Bytes} (printed : Printed round v text) (left : Nat)
    (here : content.drop p = text ++ c :: rest) (stop : c = 44 ∨ c = 125) :
    parseValue round content left p = .ok (v.node, p + text.length) := by
  cases printed with
  | string s =>
    rw [parseValue_string left (here.trans (by rw [quote, List.cons_append])),
      parseString_quote s here]
    rfl
  | @number d exact =>
    obtain ⟨first, digits, shape, number⟩ := formatInt_cons d
    have noNumber : isNumberChar c = false := by
      rcases stop with rfl | rfl <;> rfl
    rw [parseValue_number left (here.trans (by rw [shape, List.cons_append])) number,
      parseNumber_formatInt exact here noNumber, createNumber_eq]
    rfl

/-- A value that is cut is refused, or read to where it is cut. -/
theorem parseValue_part {v : Value} {text : Bytes} (printed : Printed round v text) (left n : Nat)
    (here : content.drop p = text.take n ++ [0]) :
    parseValue round content left p = .refused ∨
      ∃ item q, parseValue round content left p = .ok (item, q) ∧ content.drop q = [0] := by
  cases n with
  | zero => exact .inl (parseValue_nul left here)
  | succ n =>
    cases printed with
    | string s =>
      have first : content.drop p = 34 :: ((s.flatMap escapeByte ++ [34]).take n ++ [0]) := here
      rw [parseValue_string left first]
      rcases Nat.lt_or_ge (n + 1) (quote s).length with part | whole
      · exact .inl (by rw [parseString_part s part here, refused_bind])
      · rw [List.take_of_length_le whole] at here
        exact .inr ⟨_, _, by rw [parseString_quote s here, ok_bind], drop_past here⟩
    | @number d exact =>
      obtain ⟨first, digits, shape, number⟩ := formatInt_cons d
      have first : content.drop p = first :: (digits.take n ++ [0]) := by
        rw [here, shape, List.take_succ_cons, List.cons_append]
      rw [parseValue_number left first number]
      exact parseNumber_part round here

/-! ## Members -/

theorem dark_of_printed {v : Value} {text : Bytes} (printed : Printed round v text) :
    ∃ c rest, text = c :: rest ∧ 32 < c := by
  cases printed with
  | string s => exact ⟨34, _, rfl, by decide⟩
  | @number d exact =>
    obtain ⟨first, digits, shape, number⟩ := formatInt_cons d
    refine ⟨first, digits, shape, ?_⟩
    rcases number with rfl | ⟨low, -⟩
    · decide
    · exact UInt8.lt_of_lt_of_le (by decide) low

theorem parseName_eq (name : Bytes) (here : content.drop (p + 1) = quote name ++ 58 :: rest)
    (stays : skipWhitespace content (p + 1 + (quote name).length + 1) =
      p + 1 + (quote name).length + 1) :
    parseName content p = .ok (name, p + 1 + (quote name).length + 1) := by
  have first : content.drop (p + 1) = 34 :: (name.flatMap escapeByte ++ [34] ++ 58 :: rest) := here
  have colon := drop_past here
  have inside := lt_of_drop first
  unfold parseName
  rw [if_neg (by simp [canAccess]; omega), skipWhitespace_of_drop first (by decide)]
  dsimp only
  rw [parseString_quote name here, ok_bind]
  dsimp only
  rw [skipWhitespace_of_drop colon (by decide), isNext_of_drop 58 colon, ok_bind,
    if_pos (by decide), stays]
  rfl

/-- A name that is cut, or one without its colon. -/
theorem parseName_part (name : Bytes) {n : Nat} (part : n ≤ (quote name).length)
    (here : content.drop (p + 1) = (quote name).take n ++ [0]) :
    parseName content p = .refused := by
  have inside : p + 1 < content.length := by
    cases n with
    | zero => exact lt_of_drop here
    | succ n => exact lt_of_drop (c := 34) here
  have stays : skipWhitespace content (p + 1) = p + 1 := by
    cases n with
    | zero => exact skipWhitespace_of_nul here
    | succ n => exact skipWhitespace_of_drop (c := 34) here (by decide)
  unfold parseName
  rw [if_neg (by simp [canAccess]; omega), stays]
  dsimp only
  rcases Nat.lt_or_ge n (quote name).length with cut | whole
  · rw [parseString_part name cut here, refused_bind]
  · rw [List.take_of_length_le whole] at here
    have nul := drop_past here
    rw [parseString_quote name here, ok_bind]
    dsimp only
    rw [skipWhitespace_of_nul nul, isNext_of_drop 58 nul, ok_bind, if_neg (by decide)]

theorem parseSeparator_of_drop (close : UInt8) (here : content.drop p = c :: rest) :
    parseSeparator content p close =
      if c = 44 then .ok true else if c = close then .ok false else .refused := by
  unfold parseSeparator
  rw [isNext_of_drop 44 here, isNext_of_drop close here]
  simp only [ok_bind, beq_iff_eq]
  split_ifs <;> rfl

section Member

variable {v : Value} {text : Bytes} {members : List (Bytes × Node)}

/-- A member with what stands behind it. -/
theorem memberTurn_eq (printed : Printed round v text) (left : Nat) (name : Bytes)
    (here : content.drop (p + 1) = itemText name text ++ c :: rest) (stop : c = 44 ∨ c = 125) :
    memberTurn content (parseValue round content left) (p, members) =
      .ok (if c = 44 then .inl (p + 1 + (itemText name text).length, members ++ [(name, v.node)])
        else .inr (.object (members ++ [(name, v.node)]),
          p + 1 + (itemText name text).length + 1)) := by
  have named : content.drop (p + 1) = quote name ++ 58 :: (text ++ c :: rest) := by
    simpa [itemText] using here
  have value : content.drop (p + 1 + (quote name).length + 1) = text ++ c :: rest :=
    drop_next (drop_past named)
  have behind : content.drop (p + 1 + (quote name).length + 1 + text.length) = c :: rest :=
    drop_past value
  have length : p + 1 + (quote name).length + 1 + text.length =
      p + 1 + (itemText name text).length := by
    simp only [itemText, List.length_append, List.length_singleton]
    omega
  obtain ⟨first, others, shape, dark⟩ := dark_of_printed printed
  have stays : skipWhitespace content (p + 1 + (quote name).length + 1) =
      p + 1 + (quote name).length + 1 :=
    skipWhitespace_of_drop (value.trans (by rw [shape, List.cons_append])) dark
  have stays' : skipWhitespace content (p + 1 + (quote name).length + 1 + text.length) =
      p + 1 + (quote name).length + 1 + text.length := by
    refine skipWhitespace_of_drop behind ?_
    rcases stop with rfl | rfl <;> decide
  rw [memberTurn, parseName_eq name named stays, ok_bind]
  dsimp only
  rw [parseValue_printed printed left value stop, ok_bind]
  dsimp only
  rw [stays', parseSeparator_of_drop 125 behind, length]
  rcases stop with rfl | rfl <;> rfl

/-- A member that is cut, or that nothing stands behind. -/
theorem memberTurn_part (printed : Printed round v text) (left : Nat) (name : Bytes) {n : Nat}
    (part : n ≤ (itemText name text).length)
    (here : content.drop (p + 1) = (itemText name text).take n ++ [0]) :
    memberTurn content (parseValue round content left) (p, members) = .refused := by
  rw [memberTurn]
  rcases Nat.lt_or_ge (quote name).length n with named | cut
  · -- the cut is behind the colon
    obtain ⟨m, rfl⟩ : ∃ m, n = (quote name).length + 1 + m := ⟨n - (quote name).length - 1, by omega⟩
    have taken : (itemText name text).take ((quote name).length + 1 + m) =
        quote name ++ 58 :: text.take m := by
      rw [itemText, show (quote name).length + 1 = (quote name ++ [58]).length by simp,
        List.take_length_add_append, List.append_assoc, List.singleton_append]
    rw [taken, List.append_assoc, List.cons_append] at here
    have value := drop_next (drop_past here)
    obtain ⟨first, others, shape, dark⟩ := dark_of_printed printed
    have stays : skipWhitespace content (p + 1 + (quote name).length + 1) =
        p + 1 + (quote name).length + 1 := by
      cases m with
      | zero => exact skipWhitespace_of_nul value
      | succ m =>
        have start := value
        rw [shape, List.take_succ_cons, List.cons_append] at start
        exact skipWhitespace_of_drop start dark
    rw [parseName_eq name here stays, ok_bind]
    dsimp only
    rcases parseValue_part printed left m value with refused | ⟨item, q, read, nul⟩
    · rw [refused, refused_bind]
    · rw [read, ok_bind]
      dsimp only
      rw [skipWhitespace_of_nul nul, parseSeparator_of_drop 125 nul]
      rfl
  · have taken : (itemText name text).take n = (quote name).take n := by
      rw [itemText, List.append_assoc, List.take_append_of_le_length cut]
    rw [parseName_part name cut (here.trans (by rw [taken])), refused_bind]

end Member

/-! ## Objects -/

/-- The text of some members, at least one. -/
inductive PrintedMembers (round : ℚ → ℚ) : Object → Bytes → Prop where
  | last (name : Bytes) {v : Value} {text : Bytes} (printed : Printed round v text) :
    PrintedMembers round [⟨name, v⟩] (itemText name text)
  | next (name : Bytes) {v : Value} {text more : Bytes} {items : Object}
    (printed : Printed round v text) (later : PrintedMembers round items more) :
    PrintedMembers round (⟨name, v⟩ :: items) (itemText name text ++ 44 :: more)

/-- The members that are parsed. -/
def Object.nodes (object : Object) : List (Bytes × Node) :=
  object.map fun item => (item.string, item.value.node)

section Object

variable {object : Object} {text : Bytes}

theorem run_members (printed : PrintedMembers round object text) (left : Nat)
    (members : List (Bytes × Node)) (here : content.drop (p + 1) = text ++ 125 :: rest) :
    Run (memberTurn content (parseValue round content left)) (p, members)
      (.ok (.object (members ++ Object.nodes object), p + 1 + text.length + 1)) := by
  induction printed generalizing p members with
  | last name printed => exact .last (memberTurn_eq printed left name here (.inr rfl))
  | @next name v text more items printed later ih =>
    rw [List.append_assoc, List.cons_append] at here
    have comma := drop_past here
    refine .next (memberTurn_eq printed left name here (.inl rfl)) ?_
    have on := ih (members ++ [(name, v.node)]) (drop_next comma)
    rw [List.append_assoc] at on
    have length : p + 1 + (itemText name text).length + 1 + more.length + 1 =
        p + 1 + (itemText name text ++ 44 :: more).length + 1 := by
      rw [List.length_append, List.length_cons]
      omega
    rw [← length]
    exact on

/-- Members that are cut, or that no brace stands behind. -/
theorem run_members_part (printed : PrintedMembers round object text) (left : Nat)
    {members : List (Bytes × Node)} {n : Nat} (part : n ≤ text.length)
    (here : content.drop (p + 1) = text.take n ++ [0]) :
    Run (memberTurn content (parseValue round content left)) (p, members) .refused := by
  induction printed generalizing p members n with
  | last name printed => exact .stop (memberTurn_part printed left name part here)
  | @next name v text more items printed later ih =>
    rw [List.take_append] at here
    rcases Nat.lt_or_ge (itemText name text).length n with behind | within
    · obtain ⟨m, rfl⟩ : ∃ m, n = (itemText name text).length + 1 + m :=
        ⟨n - (itemText name text).length - 1, by omega⟩
      rw [List.take_of_length_le (by omega),
        show (itemText name text).length + 1 + m - (itemText name text).length = m + 1 by omega,
        List.take_succ_cons, List.append_assoc, List.cons_append] at here
      refine .next (memberTurn_eq printed left name here (.inl rfl)) ?_
      refine ih ?_ (drop_next (drop_past here))
      rw [List.length_append, List.length_cons] at part
      omega
    · rw [Nat.sub_eq_zero_of_le within, List.take_zero, List.append_nil] at here
      exact .stop (memberTurn_part printed left name within here)

theorem quote_of_printedMembers (printed : PrintedMembers round object text) :
    ∃ rest, text = 34 :: rest := by
  cases printed with
  | last name _ => exact ⟨_, rfl⟩
  | next name _ _ => exact ⟨_, rfl⟩

/-- An object goes where its members lead. -/
theorem parseObject_eq (left : Nat) {after : Bytes} (here : content.drop p = 123 :: after)
    (first : after = [0] ∨ ∃ rest, after = 34 :: rest) {r : Access (Node × Nat)}
    (run : Run (memberTurn content (parseValue round content left)) (p, []) r) :
    parseObject content (parseValue round content left) p = r := by
  have ends := (parseObject_ends (fun _ => parseValue_ends round left) p : Ends
    (parseObject content (parseValue round content left) p) _).not_fault
  have behind := drop_next here
  obtain ⟨d, ds, shape, other, stays⟩ : ∃ d ds, after = d :: ds ∧ (d == 125) = false ∧
      skipWhitespace content (p + 1) = p + 1 := by
    rcases first with rfl | ⟨ds, rfl⟩
    · exact ⟨0, [], rfl, by decide, skipWhitespace_of_nul behind⟩
    · exact ⟨34, ds, rfl, by decide, skipWhitespace_of_drop behind (by decide)⟩
  rw [shape] at behind
  unfold parseObject at ends ⊢
  rw [isNext_of_drop 123 here, ok_bind, if_neg (by decide), stays] at ends ⊢
  dsimp only at ends ⊢
  rw [isNext_of_drop 125 behind, ok_bind, other, if_neg (by decide),
    if_neg (by simp [canAccess_of_drop behind]), Nat.add_sub_cancel] at ends ⊢
  exact run.loop_eq _ ends

theorem parseValue_object (left : Nat) (here : content.drop p = 123 :: rest) :
    parseValue round content (left + 1) p =
      parseObject content (parseValue round content left) p := by
  have other : ∀ {d : UInt8}, d < 123 → some d ≠ some (123 : UInt8) := by
    rintro d below e
    cases e
    exact absurd below (by decide)
  have noNull : startsWith content p "null" = false :=
    startsWith_other here (other (by decide)) (by decide)
  have noFalse : startsWith content p "false" = false :=
    startsWith_other here (other (by decide)) (by decide)
  have noTrue : startsWith content p "true" = false :=
    startsWith_other here (other (by decide)) (by decide)
  unfold parseValue parseValueWith
  simp only [noNull, noFalse, noTrue, canAccess_of_drop here, read_of_drop here, ok_bind]
  rfl

/-- What `cJSON_ParseWithLength` makes of a text that is an object. -/
theorem parseWithLength_object {after : Bytes} {r : Access (Node × Nat)}
    (object : parseObject (123 :: after) (parseValue round (123 :: after) 999) 0 = r) :
    parseWithLength round (123 :: after) = r >>= fun r => .ok r.1 := by
  have here : (123 :: after).drop 0 = 123 :: after := rfl
  have bom : skipUtf8Bom (123 :: after) = 0 := by
    unfold skipUtf8Bom
    rw [if_neg]
    rintro ⟨-, marks⟩
    rw [List.take_succ_cons] at marks
    cases marks
  unfold parseWithLength
  rw [if_neg (List.cons_ne_nil _ _), bom, skipWhitespace_of_drop here (by decide)]
  change (parseValue round (123 :: after) (999 + 1) 0 >>= _) = _
  rw [parseValue_object 999 here, object]
  rfl

end Object

end Values

/-! ## What the client prints -/

/-- A string, or a number of at most fifteen digits. -/
def Value.Short : Value → Prop
  | .string _ => True
  | .number valueint valuedouble =>
    createNumber valuedouble = .number valueint valuedouble ∧ valuedouble.natAbs < 10 ^ 15

/-- `%1.15g` of a number of at most fifteen digits is that number. -/
def PrintsShort (printG : Int → Bytes) : Prop :=
  ∀ d : Int, d.natAbs < 10 ^ 15 → printG d = Go.formatInt d

/-- A double holds every number of at most fifteen digits. -/
def HoldsShort (round : ℚ → ℚ) : Prop := ∀ d : Int, d.natAbs < 10 ^ 15 → round d = d

section Client

variable {round : ℚ → ℚ} {printG : Int → Bytes}

theorem length_formatInt_short {d : Int} (short : d.natAbs < 10 ^ 15) :
    (Go.formatInt d).length ≤ 25 := by
  obtain ⟨front, sign, signed, eq, -⟩ := formatInt_eq d
  have digits := length_formatInt (n := d.natAbs) (by omega)
  have : front.length ≤ 1 := by
    rcases signed with ⟨rfl, -⟩ | ⟨rfl, -⟩ <;> simp
  rw [eq, List.length_append]
  omega

theorem prints_short (prints : PrintsShort printG) (holds : HoldsShort round) {v : Value}
    (short : v.Short) : ∃ text, Printed round v text ∧ Prints (printValue printG v) text := by
  cases v with
  | string s => exact ⟨_, .string s, prints_string s⟩
  | number i d =>
    obtain ⟨made, digits⟩ := short
    refine ⟨Go.formatInt d, made ▸ .number (holds d digits), ?_⟩
    have length := length_formatInt_short digits
    have same : printValue printG (.number i d) =
        put (Go.formatInt d) ((Go.formatInt d).length + 1) := by
      funext out
      simp only [printValue, printNumber, prints d digits]
      split_ifs with int big big
      · rw [← int] at big
        omega
      · rw [int]
      · omega
      · rfl
    rw [same]
    exact .put_ensured (Nat.le_refl _)

theorem prints_members (prints : PrintsShort printG) (holds : HoldsShort round) {object : Object}
    (nonempty : object ≠ []) (short : ∀ item ∈ object, item.value.Short) :
    ∃ text, PrintedMembers round object text ∧ Prints (printMembers printG object) text := by
  induction object with
  | nil => exact absurd rfl nonempty
  | cons item items ih =>
    obtain ⟨text, printed, print⟩ := prints_short prints holds (short item List.mem_cons_self)
    cases items with
    | nil => exact ⟨_, .last item.string printed, prints_last printG item.string item.value print⟩
    | cons next items =>
      obtain ⟨more, later, prints'⟩ := ih (List.cons_ne_nil _ _)
        fun item mem => short item (List.mem_cons_of_mem _ mem)
      exact ⟨_, .next item.string printed later,
        prints_member printG item.string item.value print prints'⟩

theorem nulFree_quote (s : Bytes) : NulFree (quote s) := by
  have table : ∀ n : Fin 256, (0 : UInt8) ∉ escapeByte (UInt8.ofNat n) := by decide +kernel
  intro nul
  simp only [quote, List.mem_cons, List.mem_append, List.mem_flatMap] at nul
  rcases nul with quote | ⟨c, -, nul⟩ | quote | none
  · cases quote
  · have := table ⟨c.toNat, c.toNat_lt⟩
    simp only [UInt8.ofNat_toNat] at this
    exact this nul
  · cases quote
  · cases none

theorem nulFree_printed {v : Value} {text : Bytes} (printed : Printed round v text) :
    NulFree text := by
  cases printed with
  | string s => exact nulFree_quote s
  | @number d _ => exact fun nul => absurd (isNumberChar_formatInt d 0 nul) (by decide)

theorem nulFree_item {v : Value} {text : Bytes} (name : Bytes) (printed : Printed round v text) :
    NulFree (itemText name text) := by
  intro nul
  simp only [itemText, List.mem_append, List.mem_singleton] at nul
  rcases nul with (nul | colon) | nul
  · exact nulFree_quote name nul
  · cases colon
  · exact nulFree_printed printed nul

theorem nulFree_members {object : Object} {text : Bytes}
    (printed : PrintedMembers round object text) : NulFree text := by
  induction printed with
  | last name printed => exact nulFree_item name printed
  | next name printed _ ih =>
    intro nul
    rcases List.mem_append.mp nul with nul | nul
    · exact nulFree_item name printed nul
    · rcases List.mem_cons.mp nul with comma | nul
      · cases comma
      · exact ih nul

/-- **An object that is printed is parsed.** -/
theorem parse_printed {object : Object} {text : Bytes} (printed : PrintedMembers round object text) :
    parse round (123 :: text ++ [125]) = .ok (.object (Object.nodes object)) := by
  have nulFree : NulFree (123 :: text ++ [125]) := by
    have members := nulFree_members printed
    simpa [NulFree] using members
  obtain ⟨rest, quoted⟩ := quote_of_printedMembers printed
  unfold parse
  rw [cstr_of_nulFree nulFree]
  have shape : 123 :: text ++ [125] ++ [0] = 123 :: (text ++ 125 :: [0]) := by simp
  rw [shape, parseWithLength_object (parseObject_eq 999 rfl
    (.inr ⟨rest ++ 125 :: [0], by rw [quoted]; rfl⟩) (run_members printed 999 [] rfl))]
  rfl

/-- **An object that is cut is refused.** -/
theorem parse_part {object : Object} {text : Bytes} (printed : PrintedMembers round object text)
    {n : Nat} (part : n < (123 :: text ++ [125]).length) :
    parse round ((123 :: text ++ [125]).take n) = .refused := by
  cases n with
  | zero => rfl
  | succ n =>
    have short : n ≤ text.length := Nat.lt_succ_iff.mp (by simpa using part)
    have taken : (123 :: text ++ [125]).take (n + 1) = 123 :: text.take n := by
      rw [List.cons_append, List.take_succ_cons, List.take_append_of_le_length short]
    have nulFree : NulFree (123 :: text.take n) := by
      intro nul
      rcases List.mem_cons.mp nul with brace | nul
      · cases brace
      · exact nulFree_members printed (List.mem_of_mem_take nul)
    obtain ⟨rest, quoted⟩ := quote_of_printedMembers printed
    have first : text.take n ++ [0] = [0] ∨ ∃ more, text.take n ++ [0] = 34 :: more := by
      rw [quoted]
      cases n with
      | zero => exact .inl rfl
      | succ n => exact .inr ⟨_, rfl⟩
    unfold parse
    rw [taken, cstr_of_nulFree nulFree, List.cons_append, parseWithLength_object
      (parseObject_eq 999 rfl first (run_members_part printed 999 short rfl))]
    rfl

/-- The tree that the client takes, and a number in it. -/
def parser (round : ℚ → ℚ) : JsonParser where
  parse text :=
    match parse round text with
    | .ok item => some item.json
    | _ => none
  valuedouble text name :=
    match parse round text with
    | .ok item => ((item.getObjectItem name).map fun item => truncate item.valuedouble).getD 0
    | _ => 0

theorem json_nodes (object : Object) :
    (Node.object (Object.nodes object)).json = .ofObject object := by
  unfold Node.json Json.ofObject
  refine congrArg Json.object ?_
  induction object with
  | nil => rfl
  | cons item items ih =>
    change (item.string, item.value.node.json) :: Node.jsonMembers (Object.nodes items) = _
    rw [ih, List.map_cons]
    refine congrArg (· :: _) (Prod.ext rfl ?_)
    obtain ⟨name, value⟩ := item
    cases value <;> rfl

section Printed

variable {object : Object} {text : Bytes}

/-- What is printed is parsed, and no part of it is. -/
theorem parse_printUnformatted (prints : PrintsShort printG) (holds : HoldsShort round)
    (nonempty : object ≠ []) (short : ∀ item ∈ object, item.value.Short)
    (printed : printUnformatted printG object = some text) :
    parse round text = .ok (.object (Object.nodes object)) ∧
      ∀ n < text.length, parse round (text.take n) = .refused := by
  obtain ⟨members, shape, print⟩ := prints_members prints holds nonempty short
  obtain rfl : text = 123 :: members ++ [125] := (signs_of_prints print).1 text printed
  exact ⟨parse_printed shape, fun _ => parse_part shape⟩

/-- **What the client prints is parsed when it is whole, and refused when it is cut.** -/
theorem parse_take_printed (prints : PrintsShort printG) (holds : HoldsShort round)
    (nonempty : object ≠ []) (short : ∀ item ∈ object, item.value.Short)
    (printed : printUnformatted printG object = some text) (n : Nat) :
    parse round (text.take n) =
      if n < text.length then .refused else .ok (.object (Object.nodes object)) := by
  have ⟨whole, part⟩ := parse_printUnformatted prints holds nonempty short printed
  split_ifs with cut
  · exact part n cut
  · rw [List.take_of_length_le (Nat.le_of_not_lt cut), whole]

/-- A line break and a number, cut in the middle. -/
theorem parse_take_printed_note :
    parse id ((utf8 "\x7b\"text\":\"a\\n\",\"size\":-2\x7d").take 12) = .refused := by
  have printed : printUnformatted Go.formatInt
      [⟨utf8 "text", .string (utf8 "a\n")⟩, ⟨utf8 "size", .number (-2) (-2)⟩] =
        some (utf8 "\x7b\"text\":\"a\\n\",\"size\":-2\x7d") := by
    decide +kernel
  have cut := parse_take_printed (fun _ _ => rfl) (show HoldsShort id from fun _ _ => rfl) (List.cons_ne_nil _ _)
    (by simp [Value.Short, createNumber, INT_MAX, INT_MIN]) printed 12
  rwa [if_pos (by decide)] at cut

/-- The parser that the client has. -/
theorem parser_parsesBack (prints : PrintsShort printG) (holds : HoldsShort round)
    (nonempty : object ≠ []) (short : ∀ item ∈ object, item.value.Short) :
    ParsesBack (parser round) printG object where
  nothing := rfl
  whole text printed := by
    dsimp only [parser]
    rw [(parse_printUnformatted prints holds nonempty short printed).1]
    exact congrArg some (json_nodes object)
  part text printed n cut := by
    dsimp only [parser]
    rw [(parse_printUnformatted prints holds nonempty short printed).2 n cut]

end Printed

end Client

end Shyake.Client.CJson
