import Shyake.Client.CJson.Parse

/-!
# The parser stays within its memory

No buffer makes the parser read behind its end, write behind the end of a string that it has
allocated, or go round a loop for ever. The second loop of `parse_string` need not see the escapes
where the first one counted them: after `\u` it steps over six characters, whatever they are.
So the bound is no count of escapes, but of the characters that the first loop did not skip: two
that stand together are never both skipped.
-/

namespace Shyake.Client.CJson

open Lib (Access)
open Lib.Access

variable {content : Bytes}

/-! ## Escapes -/

theorem hexDigitOf_lt {c : UInt8} {digit : Nat} (h : hexDigitOf c = some digit) : digit < 16 := by
  unfold hexDigitOf at h
  simp only [UInt8.le_iff_toNat_le] at h
  split_ifs at h with number upper lower
  · obtain ⟨-, high⟩ := number
    change c.toNat ≤ 57 at high
    cases h
    omega
  · obtain ⟨-, high⟩ := upper
    change c.toNat ≤ 70 at high
    cases h
    omega
  · obtain ⟨-, high⟩ := lower
    change c.toNat ≤ 102 at high
    cases h
    omega

theorem parseHex4_ends {input : Nat} (inside : input + 4 ≤ content.length) :
    (parseHex4 content input).Ends (· < 0x10000) := by
  unfold parseHex4
  -- before digit `i`, the digits so far are followed by a nibble of zeros
  refine ends_loop (fun s => s.1 = 0 ∧ s.2 = 0 ∨ s.1 = 1 ∧ s.2 ≤ 0xF0 ∧ 16 ∣ s.2 ∨
    s.1 = 2 ∧ s.2 ≤ 0xFF0 ∧ 16 ∣ s.2 ∨ s.1 = 3 ∧ s.2 ≤ 0xFFF0 ∧ 16 ∣ s.2 ∨ s.1 = 4 ∧ s.2 < 0x10000)
    (fun s => 4 - s.1) ?_ (.inl ⟨rfl, rfl⟩) (by decide)
  rintro ⟨i, h⟩ before
  dsimp only [parseHex4Turn] at before ⊢
  by_cases more : i < 4
  · rw [if_pos more]
    refine (ends_read (by omega)).bind fun c _ => ?_
    cases digit : hexDigitOf c with
    | none => exact ends_ok (show (0 : Nat) < 0x10000 by decide)
    | some digit =>
      have small := hexDigitOf_lt digit
      refine ends_ok ⟨?_, ?_⟩
      · dsimp only
        rw [Nat.shiftLeft_eq]
        split_ifs <;> omega
      · dsimp only
        omega
  · rw [if_neg more]
    exact ends_ok (show h < 0x10000 by omega)

/-- The code point of a surrogate pair. -/
theorem surrogates_le (first second : Nat) :
    0x10000 + ((first &&& 0x3FF) <<< 10 ||| second &&& 0x3FF) ≤ 0x10FFFF := by
  have high : (first &&& 0x3FF) <<< 10 < 2 ^ 20 := by
    have : first &&& 0x3FF ≤ 0x3FF := Nat.and_le_right
    rw [Nat.shiftLeft_eq]
    omega
  have low : second &&& 0x3FF < 2 ^ 20 := by
    have : second &&& 0x3FF ≤ 0x3FF := Nat.and_le_right
    omega
  have := Nat.or_lt_two_pow high low
  omega

/-- A literal is within the string, and its code point is that of a character. -/
theorem utf16Literal_ends {first input_end : Nat} (inside : input_end ≤ content.length) :
    (utf16Literal content first input_end).Ends fun r =>
      first + r.2 ≤ input_end ∧ r.1.isValidChar ∧ (r.2 = 6 ∧ r.1 < 0x10000 ∨ r.2 = 12) := by
  unfold utf16Literal
  split_ifs with short
  · exact ends_refused
  refine (parseHex4_ends (by omega)).bind fun first_code code => ?_
  dsimp only
  split_ifs with low high cut
  · exact ends_refused
  · exact ends_refused
  · refine (ends_read (by omega)).bind fun backslash _ => ?_
    refine (ends_read (by omega)).bind fun u _ => ?_
    split_ifs
    · exact ends_refused
    refine (parseHex4_ends (by omega)).bind fun second_code _ => ?_
    split_ifs
    · exact ends_refused
    have := surrogates_le first_code second_code
    exact ends_ok ⟨by dsimp only; omega, .inr ⟨by dsimp only; omega, by dsimp only; omega⟩, .inr rfl⟩
  · exact ends_ok ⟨by dsimp only; omega, by unfold Nat.isValidChar; dsimp only; omega, .inl ⟨rfl, code⟩⟩

theorem length_tailBytes (n codepoint : Nat) : (tailBytes n codepoint).2.length = n := by
  induction n generalizing codepoint with
  | zero => rfl
  | succ n ih =>
    rw [tailBytes, List.length_append, ih]
    rfl

theorem length_encodeUtf8 {codepoint : Nat} {text : Bytes} (h : encodeUtf8 codepoint = some text) :
    text.length ≤ 4 ∧ (codepoint < 0x10000 → text.length ≤ 3) := by
  unfold encodeUtf8 at h
  dsimp only at h
  split_ifs at h with one two three four
  all_goals
    cases h
    simp only [List.length_cons, List.length_nil, length_tailBytes]
    omega

/-! ## The two loops of `parse_string` -/

/-- How many characters behind `start` and before a position the first loop does not skip, once it
has gone as far as `stop`. -/
structure Kept (content : Bytes) (start stop : Nat) (kept : Nat → Nat) : Prop where
  zero : kept start = 0
  char : ∀ p, start ≤ p → p < stop → content[p]? ≠ some 92 → kept (p + 1) = kept p + 1
  mono : ∀ p, start ≤ p → p < stop → kept p ≤ kept (p + 1)
  two : ∀ p, start ≤ p → p + 2 ≤ stop → kept p + 1 ≤ kept (p + 2)
  /-- The last one is not skipped. -/
  last : ∀ p, start ≤ p → p + 1 = stop → kept stop = kept p + 1

namespace Kept

variable {start stop : Nat} {kept : Nat → Nat}

theorem nothing (content : Bytes) (start : Nat) : Kept content start start fun _ => 0 where
  zero := rfl
  char p _ _ := by omega
  mono p _ _ := by omega
  two p _ _ := by omega
  last p _ _ := by omega

/-- The first loop passes a character. -/
theorem pass (h : Kept content start stop kept) (ahead : start ≤ stop) :
    Kept content start (stop + 1) fun p => if p ≤ stop then kept p else kept stop + 1 where
  zero := by rw [if_pos ahead, h.zero]
  char p low high plain := by
    rcases Nat.lt_or_ge p stop with before | there
    · simpa only [if_pos (show p + 1 ≤ stop by omega), if_pos (show p ≤ stop by omega)] using
        h.char p low before plain
    · obtain rfl : p = stop := by omega
      rw [if_neg (Nat.not_succ_le_self p), if_pos (Nat.le_refl _)]
  mono p low high := by
    rcases Nat.lt_or_ge p stop with before | there
    · simpa only [if_pos (show p + 1 ≤ stop by omega), if_pos (show p ≤ stop by omega)] using
        h.mono p low before
    · obtain rfl : p = stop := by omega
      rw [if_neg (Nat.not_succ_le_self p), if_pos (Nat.le_refl _)]
      exact Nat.le_succ _
  two p low high := by
    rcases Nat.lt_or_ge (p + 1) stop with before | there
    · simpa only [if_pos (show p + 2 ≤ stop by omega), if_pos (show p ≤ stop by omega)] using
        h.two p low before
    · obtain rfl : stop = p + 1 := by omega
      rw [if_neg (Nat.not_succ_le_self (p + 1)), if_pos (Nat.le_succ p), h.last p low rfl]
      exact Nat.le_succ _
  last p low here := by
    obtain rfl : p = stop := by omega
    rw [if_neg (Nat.not_succ_le_self p), if_pos (Nat.le_refl _)]

/-- The first loop skips a backslash, and passes the character behind it. -/
theorem skip (h : Kept content start stop kept) (ahead : start ≤ stop)
    (backslash : content[stop]? = some 92) :
    Kept content start (stop + 2) fun p =>
      if p ≤ stop then kept p else if p = stop + 1 then kept stop else kept stop + 1 where
  zero := by rw [if_pos ahead, h.zero]
  char p low high plain := by
    rcases Nat.lt_trichotomy p stop with before | rfl | behind
    · simpa only [if_pos (show p + 1 ≤ stop by omega), if_pos (show p ≤ stop by omega)] using
        h.char p low before plain
    · exact absurd backslash plain
    · obtain rfl : p = stop + 1 := by omega
      simp [show ¬ stop + 1 + 1 ≤ stop by omega]
  mono p low high := by
    rcases Nat.lt_trichotomy p stop with before | rfl | behind
    · simpa only [if_pos (show p + 1 ≤ stop by omega), if_pos (show p ≤ stop by omega)] using
        h.mono p low before
    · simp
    · obtain rfl : p = stop + 1 := by omega
      simp [show ¬ stop + 1 + 1 ≤ stop by omega]
  two p low high := by
    rcases Nat.lt_trichotomy (p + 1) stop with before | rfl | behind
    · simpa only [if_pos (show p + 2 ≤ stop by omega), if_pos (show p ≤ stop by omega)] using
        h.two p low before
    · have := h.last p low rfl
      simp [this]
    · obtain rfl : p = stop := by omega
      simp
  last p low here := by
    obtain rfl : p = stop + 1 := by omega
    simp

theorem le (h : Kept content start stop kept) {p q : Nat} (low : start ≤ p) (ahead : p ≤ q)
    (high : q ≤ stop) : kept p ≤ kept q := by
  induction q with
  | zero =>
    obtain rfl : p = 0 := by omega
    exact Nat.le_refl _
  | succ q ih =>
    rcases Nat.lt_or_ge p (q + 1) with before | there
    · exact (ih (by omega) (by omega)).trans (h.mono q (by omega) (by omega))
    · obtain rfl : p = q + 1 := by omega
      exact Nat.le_refl _

/-- Half of a stretch is not skipped. -/
theorem half (h : Kept content start stop kept) {p : Nat} (n : Nat) (low : start ≤ p)
    (high : p + 2 * n ≤ stop) : kept p + n ≤ kept (p + 2 * n) := by
  induction n with
  | zero => exact Nat.le_refl _
  | succ n ih =>
    have front := ih (by omega)
    have two := h.two (p + 2 * n) (by omega) (by omega)
    have : p + 2 * (n + 1) = p + 2 * n + 2 := by omega
    rw [this]
    omega

end Kept

/-- Where the string ends is a quotation mark, and what is not skipped is counted. -/
theorem stringEnd_ends {start : Nat} (inside : start ≤ content.length) :
    (stringEnd content start).Ends fun r => start ≤ r.1 ∧ content[r.1]? = some 34 ∧
      ∃ kept, Kept content start (r.1 + 1) kept ∧ kept (r.1 + 1) + r.2 = r.1 + 1 - start := by
  unfold stringEnd
  refine ends_loop (fun s => start ≤ s.1 ∧ s.1 ≤ content.length ∧
    ∃ kept, Kept content start s.1 kept ∧ kept s.1 + s.2 = s.1 - start)
    (fun s => content.length - s.1) ?_
    ⟨Nat.le_refl _, inside, _, .nothing content start, by omega⟩ (by dsimp only; omega)
  rintro ⟨stop, skipped⟩ ⟨ahead, -, kept, before, count⟩
  dsimp only [stringEndTurn] at ahead before count ⊢
  by_cases more : stop < content.length
  · rw [if_pos more]
    refine (ends_read more).bind fun c here => ?_
    split_ifs with quote backslash
    · subst quote
      refine ends_ok ⟨ahead, here, _, before.pass ahead, ?_⟩
      rw [if_neg (Nat.not_succ_le_self stop)]
      omega
    · exact ends_refused
    · subst backslash
      refine ends_ok ⟨⟨by dsimp only; omega, by dsimp only; omega, _, before.skip ahead here, ?_⟩,
        by dsimp only; omega⟩
      simp only [show ¬ stop + 2 ≤ stop by omega, show stop + 2 ≠ stop + 1 by omega, if_false]
      omega
    · refine ends_ok ⟨⟨by dsimp only; omega, by dsimp only; omega, _, before.pass ahead, ?_⟩,
        by dsimp only; omega⟩
      simp only [show ¬ stop + 1 ≤ stop by omega, if_false]
      omega
  · rw [if_neg more]
    exact ends_refused

section Unescape

variable {start input_end size : Nat} {kept : Nat → Nat}

/-- What a turn writes is within what the characters that it reads were counted as. -/
theorem unescapeNext_ends (counted : Kept content start (input_end + 1) kept)
    (quote : content[input_end]? = some 34) (room : kept (input_end + 1) ≤ size) {p : Nat}
    {output : Bytes} (low : start ≤ p) (high : p < input_end) (fits : output.length ≤ kept p) :
    (unescapeNext content input_end size (p, output)).Ends fun r =>
      p < r.1 ∧ r.1 ≤ input_end + 1 ∧ r.2.length ≤ kept r.1 := by
  have inside : input_end < content.length := (List.getElem?_eq_some_iff.mp quote).1
  have two := counted.two p low (by omega)
  have most := counted.le (Nat.le_trans low (by omega)) (show p + 2 ≤ input_end + 1 by omega)
    (Nat.le_refl _)
  unfold unescapeNext
  refine (ends_read (by omega)).bind fun c here => ?_
  split_ifs with plain
  · have one := counted.char p low (by omega) (by rw [here]; simpa using plain)
    refine (ends_write (by dsimp only [List.length_singleton]; omega)).bind fun r wrote => ?_
    subst wrote
    refine ends_ok ⟨Nat.lt_succ_self p, by dsimp only; omega, ?_⟩
    change (output ++ [c]).length ≤ kept (p + 1)
    rw [List.length_append, List.length_singleton]
    omega
  refine (ends_read (by omega)).bind fun escape _ => ?_
  by_cases unicode : escape = 117
  · rw [if_pos unicode]
    refine (utf16Literal_ends (Nat.le_of_lt inside)).bind ?_
    rintro ⟨codepoint, sequence_length⟩ ⟨within, -, shape⟩
    dsimp only at within shape ⊢
    cases encoded : encodeUtf8 codepoint with
    | none => exact ends_refused
    | some text =>
      have short := length_encodeUtf8 encoded
      have after : output.length + text.length ≤ kept (p + sequence_length) := by
        rcases shape with ⟨rfl, small⟩ | rfl
        · have : kept p + 3 ≤ kept (p + 6) := counted.half 3 low (by omega)
          have := short.2 small
          omega
        · have : kept p + 6 ≤ kept (p + 12) := counted.half 6 low (by omega)
          omega
      have := counted.le (show start ≤ p + sequence_length by omega)
        (show _ ≤ input_end + 1 by omega) (Nat.le_refl _)
      refine (ends_write (by omega)).bind fun written wrote => ?_
      subst wrote
      refine ends_ok ⟨?_, by dsimp only; omega, by rw [List.length_append]; exact after⟩
      dsimp only
      omega
  · rw [if_neg unicode]
    cases shortEscape escape with
    | none => exact ends_refused
    | some character =>
      refine (ends_write (by dsimp only [List.length_singleton]; omega)).bind fun r wrote => ?_
      subst wrote
      refine ends_ok ⟨by dsimp only; omega, by dsimp only; omega, ?_⟩
      change (output ++ [_]).length ≤ kept (p + 2)
      rw [List.length_append, List.length_singleton]
      omega

theorem unescape_ends (counted : Kept content start (input_end + 1) kept)
    (quote : content[input_end]? = some 34) (room : kept (input_end + 1) ≤ size)
    (ahead : start ≤ input_end) :
    (unescape content start input_end size).Ends (·.length ≤ kept (input_end + 1)) := by
  have inside : input_end < content.length := (List.getElem?_eq_some_iff.mp quote).1
  unfold unescape
  refine ends_loop (fun s => start ≤ s.1 ∧ s.1 ≤ input_end + 1 ∧ s.2.length ≤ kept s.1)
    (fun s => input_end + 1 - s.1) ?_
    ⟨Nat.le_refl _, Nat.le_succ_of_le ahead, by simp⟩ (by dsimp only; omega)
  rintro ⟨p, output⟩ ⟨low, high, fits⟩
  dsimp only [unescapeTurn] at low high fits ⊢
  split_ifs with more
  · refine (unescapeNext_ends counted quote room low more fits).bind fun next turned => ?_
    obtain ⟨further, within, fits⟩ := turned
    exact ends_ok ⟨⟨by omega, within, fits⟩, by omega⟩
  · exact ends_ok (fits.trans (counted.le low high (Nat.le_refl _)))

end Unescape

/-- A string is read within the buffer, and is shorter than what it is read of. -/
theorem parseString_ends {offset : Nat} (inside : offset < content.length) :
    (parseString content offset).Ends fun r =>
      r.2 ≤ content.length ∧ offset + 1 + r.1.length ≤ r.2 := by
  unfold parseString
  refine (ends_read inside).bind fun c _ => ?_
  split_ifs
  · exact ends_refused
  refine (stringEnd_ends inside).bind fun r found => ?_
  obtain ⟨input_end, skipped⟩ := r
  obtain ⟨ahead, quote, kept, counted, count⟩ := found
  dsimp only at ahead quote counted count ⊢
  have within : input_end < content.length := (List.getElem?_eq_some_iff.mp quote).1
  have alloc : input_end - offset - skipped = kept (input_end + 1) := by omega
  rw [alloc]
  refine (unescape_ends counted quote (Nat.le_succ _) ahead).bind fun output short => ?_
  refine (ends_write (by dsimp only [List.length_singleton]; omega)).bind fun _ _ => ?_
  exact ends_ok ⟨by dsimp only; omega, by dsimp only; omega⟩

/-! ## Numbers -/

theorem length_takeWhile_le (p : UInt8 → Bool) (s : Bytes) : (s.takeWhile p).length ≤ s.length :=
  (List.takeWhile_prefix p).length_le

theorem signOf_le (s : Bytes) : (signOf s).2 ≤ s.length := by
  unfold signOf
  split <;> simp

theorem exponentOf_le (s : Bytes) : (exponentOf s).2 ≤ s.length := by
  cases s with
  | nil => exact Nat.le_refl _
  | cons e s =>
    unfold exponentOf
    have sign := signOf_le s
    dsimp only
    have digits := length_takeWhile_le isDigit (s.drop (signOf s).2)
    rw [List.length_drop] at digits
    split_ifs
    · exact Nat.zero_le _
    · rw [List.length_cons]
      dsimp only
      omega
    · exact Nat.zero_le _

/-- A number is at least one character long. -/
theorem strtod_length {round : ℚ → ℚ} {s : Bytes} {r : ℚ × Nat} (h : strtod round s = some r) :
    0 < r.2 ∧ r.2 ≤ s.length := by
  unfold strtod at h
  have sign := signOf_le s
  generalize signOf s = parts at h sign
  obtain ⟨sign, n⟩ := parts
  have whole := length_takeWhile_le isDigit (s.drop n)
  dsimp only at h
  generalize List.takeWhile isDigit (s.drop n) = digits at h whole
  rw [List.length_drop] at whole
  dsimp only at sign
  by_cases point : (s.drop (n + digits.length)).head? = some 46
  · simp only [point, if_true] at h
    generalize atFraction : s.drop (n + digits.length + 1) = rest at h
    have fraction := length_takeWhile_le isDigit rest
    have there : n + digits.length < s.length := by
      rw [List.head?_drop] at point
      exact (List.getElem?_eq_some_iff.mp point).1
    have exponent := exponentOf_le (s.drop (n + digits.length + 1 +
      (rest.takeWhile isDigit).length))
    rw [← atFraction, List.length_drop, atFraction] at fraction
    rw [List.length_drop] at exponent
    split_ifs at h
    cases h
    dsimp only
    omega
  · simp only [point, if_false, Nat.zero_ne_one, List.length_nil, Nat.add_zero] at h
    have exponent := exponentOf_le (s.drop (n + digits.length))
    rw [List.length_drop] at exponent
    split_ifs at h with nothing
    have : 0 < digits.length := List.length_pos_iff.mpr fun none => nothing ⟨none, trivial⟩
    cases h
    dsimp only
    omega

/-! ## Values -/

mutual
/-- How deep arrays and objects nest. -/
def Node.depth : Node → Nat
  | .array items => depths items + 1
  | .object members => memberDepths members + 1
  | _ => 0

def depths : List Node → Nat
  | [] => 0
  | item :: items => max item.depth (depths items)

def memberDepths : List (Bytes × Node) → Nat
  | [] => 0
  | (_, item) :: members => max item.depth (memberDepths members)
end

mutual
/-- The items, and the characters of the names and strings. -/
def Node.size : Node → Nat
  | .string valuestring => valuestring.length + 1
  | .array items => sizes items + 1
  | .object members => memberSizes members + 1
  | _ => 1

def sizes : List Node → Nat
  | [] => 0
  | item :: items => item.size + sizes items

def memberSizes : List (Bytes × Node) → Nat
  | [] => 0
  | (name, item) :: members => name.length + item.size + memberSizes members
end

theorem depths_append (items : List Node) (item : Node) :
    depths (items ++ [item]) = max (depths items) item.depth := by
  induction items with
  | nil => simp [depths]
  | cons first items ih => rw [List.cons_append, depths, ih, depths, max_assoc]

theorem memberDepths_append (members : List (Bytes × Node)) (name : Bytes) (item : Node) :
    memberDepths (members ++ [(name, item)]) = max (memberDepths members) item.depth := by
  induction members with
  | nil => simp [memberDepths]
  | cons first members ih =>
    obtain ⟨_, _⟩ := first
    rw [List.cons_append, memberDepths, ih, memberDepths, max_assoc]

theorem sizes_append (items : List Node) (item : Node) :
    sizes (items ++ [item]) = sizes items + item.size := by
  induction items with
  | nil => simp [sizes]
  | cons first items ih => rw [List.cons_append, sizes, ih, sizes, Nat.add_assoc]

theorem memberSizes_append (members : List (Bytes × Node)) (name : Bytes) (item : Node) :
    memberSizes (members ++ [(name, item)]) = memberSizes members + (name.length + item.size) := by
  induction members with
  | nil => simp [memberSizes]
  | cons first members ih =>
    obtain ⟨_, _⟩ := first
    rw [List.cons_append, memberSizes, ih, memberSizes]
    omega

theorem skipWhitespace_within (content : Bytes) {offset : Nat} (inside : offset ≤ content.length) :
    offset ≤ skipWhitespace content offset ∧ skipWhitespace content offset ≤ content.length ∧
      (offset < content.length → skipWhitespace content offset < content.length) := by
  unfold skipWhitespace
  have spaces := length_takeWhile_le (· ≤ 32) (content.drop offset)
  rw [List.length_drop] at spaces
  by_cases here : canAccess content offset 0
  · rw [if_pos here]
    simp only [canAccess, decide_eq_true_eq] at here
    dsimp only
    split_ifs <;> omega
  · rw [if_neg here]
    omega

theorem isNext_ends (content : Bytes) (offset : Nat) (c : UInt8) :
    (isNext content offset c).Ends fun b => b = true → offset < content.length := by
  unfold isNext
  split_ifs with here
  · simp only [canAccess, decide_eq_true_eq] at here
    refine (ends_read (by omega)).bind fun _ _ => ends_ok fun _ => by omega
  · exact ends_ok (by simp)

theorem parseSeparator_ends (content : Bytes) (offset : Nat) (close : UInt8) :
    (parseSeparator content offset close).Ends fun _ => offset < content.length := by
  unfold parseSeparator
  refine (isNext_ends content offset 44).bind fun comma inside => ?_
  cases comma with
  | true => exact ends_ok (inside rfl)
  | false =>
    refine (isNext_ends content offset close).bind fun closed inside => ?_
    cases closed with
    | true => exact ends_ok (inside rfl)
    | false => exact ends_refused

/-- What a parser at an offset returns: a value that is no larger than what it is read of, and where
to go on. -/
structure Fits (content : Bytes) (left offset : Nat) (r : Node × Nat) : Prop where
  size : offset + r.1.size ≤ r.2
  inside : r.2 ≤ content.length
  depth : r.1.depth ≤ left

theorem Node.size_pos (item : Node) : 0 < item.size := by
  cases item <;> simp [Node.size]

theorem parseNumber_ends (round : ℚ → ℚ) (left : Nat) {offset : Nat}
    (inside : offset ≤ content.length) :
    (parseNumber round content offset).Ends (Fits content left offset) := by
  unfold parseNumber
  split
  · exact ends_refused
  · rename_i number length h
    have ⟨long, within⟩ := strtod_length h
    have run := length_takeWhile_le isNumberChar (content.drop offset)
    rw [List.length_drop] at run
    dsimp only at long within
    exact ends_ok ⟨by simp only [Node.size]; omega, by dsimp only; omega, Nat.zero_le _⟩

section Nesting

variable {parse : Nat → Access (Node × Nat)} {left : Nat}

theorem parseArray_ends
    (nested : ∀ offset, offset ≤ content.length → (parse offset).Ends (Fits content left offset))
    {offset : Nat} (inside : offset < content.length) :
    (parseArray content parse offset).Ends (Fits content (left + 1) offset) := by
  unfold parseArray
  refine (ends_read inside).bind fun c _ => ?_
  split_ifs
  · exact ends_refused
  have spaces := skipWhitespace_within content (show offset + 1 ≤ _ from inside)
  generalize skipWhitespace content (offset + 1) = first at spaces
  refine (isNext_ends content first 93).bind fun empty there => ?_
  cases empty with
  | true =>
    have := there rfl
    refine ends_ok ⟨?_, by dsimp only; omega, ?_⟩
    · simp only [Node.size, sizes]
      omega
    · simp only [Node.depth, depths]
      omega
  | false =>
    simp only [Bool.false_eq_true, if_false]
    split_ifs with out
    · exact ends_refused
    simp only [canAccess, Bool.not_eq_false, decide_eq_true_eq] at out
    refine ends_loop (fun s => offset + sizes s.2 ≤ s.1 ∧ s.1 < content.length ∧ depths s.2 ≤ left)
      (fun s => content.length - s.1) ?_
      ⟨by dsimp only [sizes]; omega, by dsimp only; omega, Nat.zero_le _⟩ (by dsimp only; omega)
    rintro ⟨before, items⟩ ⟨size, within, depth⟩
    dsimp only [itemTurn] at size within depth ⊢
    have front := skipWhitespace_within content (show before + 1 ≤ _ from within)
    refine (nested _ front.2.1).bind ?_
    rintro ⟨item, behind⟩ ⟨larger, inside', nests⟩
    dsimp only at larger inside' nests ⊢
    have back := skipWhitespace_within content inside'
    refine (parseSeparator_ends content (skipWhitespace content behind) 93).bind fun comma here => ?_
    have := item.size_pos
    cases comma with
    | true =>
      refine ends_ok ⟨⟨?_, here, ?_⟩, by dsimp only; omega⟩
      · dsimp only
        rw [sizes_append]
        omega
      · dsimp only
        rw [depths_append]
        omega
    | false =>
      refine ends_ok ⟨?_, here, ?_⟩
      · simp only [Node.size, sizes_append]
        omega
      · simp only [Node.depth, depths_append]
        omega

/-- A name is followed by a colon. -/
theorem parseName_ends (content : Bytes) (offset : Nat) :
    (parseName content offset).Ends fun r =>
      offset + 2 + r.1.length ≤ r.2 ∧ r.2 ≤ content.length := by
  unfold parseName
  split_ifs with short
  · exact ends_refused
  simp only [canAccess, Bool.not_eq_false, decide_eq_true_eq] at short
  have front := skipWhitespace_within content (show offset + 1 ≤ _ by omega)
  refine (parseString_ends (front.2.2 short)).bind ?_
  rintro ⟨name, behind⟩ ⟨inside, longer⟩
  dsimp only at inside longer ⊢
  have back := skipWhitespace_within content inside
  refine (isNext_ends content (skipWhitespace content behind) 58).bind fun colon here => ?_
  cases colon with
  | true =>
    have value := skipWhitespace_within content
      (show skipWhitespace content behind + 1 ≤ _ from here rfl)
    exact ends_ok ⟨by dsimp only; omega, value.2.1⟩
  | false => exact ends_refused

theorem parseObject_ends
    (nested : ∀ offset, offset ≤ content.length → (parse offset).Ends (Fits content left offset))
    (offset : Nat) :
    (parseObject content parse offset).Ends (Fits content (left + 1) offset) := by
  unfold parseObject
  refine (isNext_ends content offset 123).bind fun brace inside => ?_
  cases brace with
  | false => exact ends_refused
  | true =>
  have inside := inside rfl
  simp only [Bool.not_true, Bool.false_eq_true, if_false]
  have spaces := skipWhitespace_within content (show offset + 1 ≤ _ from inside)
  generalize skipWhitespace content (offset + 1) = first at spaces
  refine (isNext_ends content first 125).bind fun empty there => ?_
  cases empty with
  | true =>
    have := there rfl
    refine ends_ok ⟨?_, by dsimp only; omega, ?_⟩
    · simp only [Node.size, memberSizes]
      omega
    · simp only [Node.depth, memberDepths]
      omega
  | false =>
    simp only [Bool.false_eq_true, if_false]
    split_ifs with out
    · exact ends_refused
    simp only [canAccess, Bool.not_eq_false, decide_eq_true_eq] at out
    refine ends_loop
      (fun s => offset + memberSizes s.2 ≤ s.1 ∧ s.1 < content.length ∧ memberDepths s.2 ≤ left)
      (fun s => content.length - s.1) ?_
      ⟨by dsimp only [memberSizes]; omega, by dsimp only; omega, Nat.zero_le _⟩
      (by dsimp only; omega)
    rintro ⟨before, members⟩ ⟨size, within, depth⟩
    dsimp only [memberTurn] at size within depth ⊢
    refine (parseName_ends content before).bind ?_
    rintro ⟨name, value⟩ ⟨named, valueInside⟩
    dsimp only at named valueInside ⊢
    refine (nested _ valueInside).bind ?_
    rintro ⟨item, behind⟩ ⟨larger, inside', nests⟩
    dsimp only at larger inside' nests ⊢
    have back := skipWhitespace_within content inside'
    refine (parseSeparator_ends content (skipWhitespace content behind) 125).bind fun comma here => ?_
    have := item.size_pos
    cases comma with
    | true =>
      refine ends_ok ⟨⟨?_, here, ?_⟩, by dsimp only; omega⟩
      · dsimp only
        rw [memberSizes_append]
        omega
      · dsimp only
        rw [memberDepths_append]
        omega
    | false =>
      refine ends_ok ⟨?_, here, ?_⟩
      · simp only [Node.size, memberSizes_append]
        omega
      · simp only [Node.depth, memberDepths_append]
        omega

end Nesting

theorem startsWith_within {offset : Nat} {text : String} (h : startsWith content offset text)
    (inside : offset ≤ content.length) : offset + (utf8 text).length ≤ content.length := by
  unfold startsWith at h
  have length := congrArg List.length (eq_of_beq h)
  rw [List.length_take, List.length_drop] at length
  omega

theorem parseValueWith_ends (round : ℚ → ℚ) {array object : Nat → Access (Node × Nat)}
    {left : Nat}
    (arrays : ∀ offset, offset < content.length → (array offset).Ends (Fits content left offset))
    (objects : ∀ offset, (object offset).Ends (Fits content left offset))
    {offset : Nat} (inside : offset ≤ content.length) :
    (parseValueWith round content array object offset).Ends (Fits content left offset) := by
  unfold parseValueWith
  split_ifs with isNull isFalse isTrue out
  · exact ends_ok ⟨by simp only [Node.size]; omega, startsWith_within isNull inside, Nat.zero_le _⟩
  · exact ends_ok ⟨by simp only [Node.size]; omega, startsWith_within isFalse inside, Nat.zero_le _⟩
  · exact ends_ok ⟨by simp only [Node.size]; omega, startsWith_within isTrue inside, Nat.zero_le _⟩
  · exact ends_refused
  simp only [canAccess, Bool.not_eq_false, decide_eq_true_eq] at out
  refine (ends_read out).bind fun c _ => ?_
  split_ifs
  · refine (parseString_ends out).bind ?_
    rintro ⟨s, behind⟩ ⟨within, longer⟩
    dsimp only at within longer
    exact ends_ok ⟨by simp only [Node.size]; omega, within, Nat.zero_le _⟩
  · exact parseNumber_ends round left inside
  · exact arrays offset out
  · exact objects offset
  · exact ends_refused

theorem parseValue_ends (round : ℚ → ℚ) (left : Nat) {offset : Nat}
    (inside : offset ≤ content.length) :
    (parseValue round content left offset).Ends (Fits content left offset) := by
  induction left generalizing offset with
  | zero =>
    exact parseValueWith_ends round (fun _ _ => ends_refused) (fun _ => ends_refused) inside
  | succ left ih =>
    exact parseValueWith_ends round (fun _ out => parseArray_ends (fun _ => ih) out)
      (parseObject_ends fun _ => ih) inside

/-- **No buffer makes the parser leave its memory.** What it returns nests no deeper than
`CJSON_NESTING_LIMIT`, and has no more items and characters than the buffer has bytes. -/
theorem parseWithLength_ends (round : ℚ → ℚ) (buffer : Bytes) :
    (parseWithLength round buffer).Ends fun item =>
      item.depth ≤ CJSON_NESTING_LIMIT ∧ item.size ≤ buffer.length := by
  unfold parseWithLength
  split_ifs with empty
  · exact ends_refused
  have nonempty : 0 < buffer.length := List.length_pos_iff.mpr empty
  have bom : skipUtf8Bom buffer < buffer.length := by
    unfold skipUtf8Bom
    simp only [canAccess, decide_eq_true_eq]
    split_ifs <;> omega
  have front := skipWhitespace_within buffer (Nat.le_of_lt bom)
  refine (parseValue_ends round CJSON_NESTING_LIMIT front.2.1).bind ?_
  rintro ⟨item, behind⟩ ⟨size, within, depth⟩
  dsimp only at size within depth
  exact ends_ok ⟨depth, by omega⟩

end Shyake.Client.CJson
