import Shyake.Client.CJson.Safe
import Shyake.Lib.Utf8

/-!
# The parser keeps UTF-8

Of a buffer in UTF-8, every name and every string that is parsed is in UTF-8 as far as it is read, up
to its first NUL. Behind that it need not be: `\u` without four digits is a NUL, and steps over four
bytes, which may end inside a character.
-/

namespace Shyake.Client.CJson

open Lib (Access)
open Lib.Access
open Utf8 (WellFormed wellFormed_ascii)

variable {content : Bytes}

/-! ## Code points -/

theorem ofNat_tail (m : Nat) :
    UInt8.ofNat ((m ||| 0x80) &&& 0xBF) = UInt8.ofNat m &&& 0x3f ||| 0x80 := by
  have table : ∀ x : UInt8, (x ||| 0x80) &&& 0xBF = x &&& 0x3f ||| 0x80 :=
    Utf8.forall_byte (by decide +kernel)
  rw [UInt8.ofNat_and, UInt8.ofNat_or]
  exact table _

theorem ofNat_lead (mask : Nat) {m mark : Nat} (small : m ≤ mask)
    (table : ∀ k ≤ mask, UInt8.ofNat ((k ||| mark) &&& 0xFF) =
      UInt8.ofNat k &&& UInt8.ofNat mask ||| UInt8.ofNat mark) :
    UInt8.ofNat ((m ||| mark) &&& 0xFF) =
      UInt8.ofNat m &&& UInt8.ofNat mask ||| UInt8.ofNat mark := table m small

/-- The bytes of a character are those of the standard encoding. -/
theorem encodeUtf8_eq {n : Nat} (valid : n.isValidChar) :
    encodeUtf8 n = some (String.utf8EncodeChar (Char.ofNat n)) := by
  have value : (Char.ofNat n).val.toNat = n := by
    rw [Char.ofNat, dif_pos valid]
    rfl
  have limit : n ≤ 0x10FFFF := by
    unfold Nat.isValidChar at valid
    omega
  rw [String.utf8EncodeChar_eq_utf8EncodeCharFast]
  unfold String.utf8EncodeCharFast
  extract_lets v
  change v.toNat = n at value
  have byte : v.toUInt8 = UInt8.ofNat n := by
    rw [← value]
    rfl
  have shifted : ∀ k : UInt32, k.toNat < 32 → (v >>> k).toUInt8 = UInt8.ofNat (n >>> k.toNat) := by
    intro k small
    rw [← UInt8.toNat_inj, Utf8.toNat_shiftRight_toUInt8, value, UInt8.toNat_ofNat',
      Nat.mod_eq_of_lt small, Nat.shiftRight_eq_div_pow]
  have by6 : (v >>> 6).toUInt8 = UInt8.ofNat (n >>> 6) := shifted 6 (by decide)
  have by12 : (v >>> 12).toUInt8 = UInt8.ofNat (n >>> 12) := shifted 12 (by decide)
  have by18 : (v >>> 18).toUInt8 = UInt8.ofNat (n >>> 18) := shifted 18 (by decide)
  have twice : n >>> 6 >>> 6 = n >>> 12 := (Nat.shiftRight_add n 6 6).symm
  have thrice : n >>> 12 >>> 6 = n >>> 18 := (Nat.shiftRight_add n 12 6).symm
  have ascii : n ≤ 0x7f → UInt8.ofNat (n &&& 0x7F) = UInt8.ofNat n := fun small => by
    rw [Nat.and_two_pow_sub_one_eq_mod n 7, Nat.mod_eq_of_lt (by omega)]
  have lead2 : n ≤ 0x7ff → UInt8.ofNat ((n >>> 6 ||| 0xC0) &&& 0xFF) =
      UInt8.ofNat (n >>> 6) &&& 0x1f ||| 0xc0 := fun small =>
    ofNat_lead 0x1f (by rw [Nat.shiftRight_eq_div_pow]; omega) (by decide +kernel)
  have lead3 : n ≤ 0xffff → UInt8.ofNat ((n >>> 12 ||| 0xE0) &&& 0xFF) =
      UInt8.ofNat (n >>> 12) &&& 0x0f ||| 0xe0 := fun small =>
    ofNat_lead 0x0f (by rw [Nat.shiftRight_eq_div_pow]; omega) (by decide +kernel)
  have lead4 : UInt8.ofNat ((n >>> 18 ||| 0xF0) &&& 0xFF) =
      UInt8.ofNat (n >>> 18) &&& 0x07 ||| 0xf0 :=
    ofNat_lead 0x07 (by rw [Nat.shiftRight_eq_div_pow]; omega) (by decide +kernel)
  have max1 : (0x7f : UInt32).toNat = 0x7f := rfl
  have max2 : (0x7ff : UInt32).toNat = 0x7ff := rfl
  have max3 : (0xffff : UInt32).toNat = 0xffff := rfl
  unfold encodeUtf8
  simp only [UInt32.le_iff_toNat_le, value, tailBytes, twice, thrice, byte, by6, by12, by18, ofNat_tail,
    List.nil_append, List.cons_append, max1, max2, max3]
  split_ifs
  all_goals first | omega | skip
  · rw [ascii (by omega)]
  · rw [lead2 (by omega)]
  · rw [lead3 (by omega)]
  · rw [lead4]

/-! ## Escapes -/

/-- A character below 0x80 stands there. -/
def Ascii (content : Bytes) (i : Nat) : Prop := ∃ c, content[i]? = some c ∧ c < 0x80

theorem hexDigitOf_ascii {c : UInt8} {digit : Nat} (h : hexDigitOf c = some digit) : c < 0x80 := by
  have table : ∀ n : Fin 256, (hexDigitOf (UInt8.ofNat n)).isSome → UInt8.ofNat n < 0x80 := by
    decide +kernel
  have here := table ⟨c.toNat, c.toNat_lt⟩
  simp only [UInt8.ofNat_toNat, h] at here
  exact here rfl

/-- What is no zero is four digits. -/
theorem parseHex4_returns (content : Bytes) (input : Nat) :
    (parseHex4 content input).Returns fun h => h = 0 ∨ ∀ j < 4, Ascii content (input + j) := by
  unfold parseHex4
  refine returns_loop (fun s => ∀ j < s.1, Ascii content (input + j)) ?_ (by simp)
  rintro ⟨i, h⟩ before
  dsimp only [parseHex4Turn] at before ⊢
  by_cases more : i < 4
  · rw [if_pos more]
    refine (returns_read content (input + i)).bind fun c here => ?_
    cases digit : hexDigitOf c with
    | none => exact returns_ok (.inl rfl)
    | some digit' =>
      refine returns_ok fun j within => ?_
      rcases Nat.lt_or_ge j i with earlier | last
      · exact before j earlier
      · obtain rfl : j = i := by
          dsimp only at within
          omega
        exact ⟨c, here, hexDigitOf_ascii digit⟩
  · rw [if_neg more]
    have digits : h = 0 ∨ ∀ j < 4, Ascii content (input + j) :=
      .inr fun j within => before j (by omega)
    exact returns_ok digits

/-- A literal that is no NUL is of ASCII characters. -/
theorem utf16Literal_returns (content : Bytes) (first input_end : Nat) :
    (utf16Literal content first input_end).Returns fun r => first + r.2 ≤ input_end ∧
      (r.1 = 0 ∨ ∀ j, 2 ≤ j → j < r.2 → Ascii content (first + j)) := by
  unfold utf16Literal
  split_ifs with short
  · exact returns_refused
  refine (parseHex4_returns content (first + 2)).bind fun first_code digits => ?_
  dsimp only
  split_ifs with low high cut
  · exact returns_refused
  · exact returns_refused
  · refine (returns_read content (first + 6)).bind fun backslash atBackslash => ?_
    refine (returns_read content (first + 6 + 1)).bind fun u atU => ?_
    split_ifs with other
    · exact returns_refused
    obtain ⟨rfl, rfl⟩ : backslash = 92 ∧ u = 117 := by
      simpa [not_or] using other
    refine (parseHex4_returns content (first + 6 + 2)).bind fun second_code digits' => ?_
    split_ifs with range
    · exact returns_refused
    refine returns_ok ⟨by dsimp only; omega, .inr fun j from2 below => ?_⟩
    have front := digits.resolve_left (by omega)
    have back := digits'.resolve_left (by omega)
    dsimp only at below
    rcases Nat.lt_or_ge j 6 with one | two
    · obtain ⟨k, rfl⟩ := Nat.exists_eq_add_of_le from2
      simpa only [Nat.add_assoc] using front k (by omega)
    · obtain ⟨k, rfl⟩ := Nat.exists_eq_add_of_le two
      rcases Nat.lt_or_ge k 2 with marks | digits
      · obtain rfl | rfl : k = 0 ∨ k = 1 := by omega
        · exact ⟨92, atBackslash, by decide⟩
        · exact ⟨117, atU, by decide⟩
      · obtain ⟨l, rfl⟩ := Nat.exists_eq_add_of_le digits
        simpa only [Nat.add_assoc] using back l (by omega)
  · refine returns_ok ⟨by dsimp only; omega, ?_⟩
    refine digits.imp id fun all j from2 below => ?_
    obtain ⟨k, rfl⟩ := Nat.exists_eq_add_of_le from2
    dsimp only at below
    simpa only [Nat.add_assoc] using all k (by omega)

/-! ## Strings -/

theorem wellFormed_cstr {s : Bytes} (h : WellFormed s) : WellFormed (cstr s) := by
  have split := List.takeWhile_append_dropWhile (p := (· != 0)) (l := s)
  cases rest : s.dropWhile (· != 0) with
  | nil =>
    rw [rest, List.append_nil] at split
    unfold cstr
    rwa [split]
  | cons c t =>
    have nul : c = 0 := by
      have stop := List.head?_dropWhile_not (· != 0) s
      rw [rest] at stop
      simpa using stop
    subst nul
    rw [rest] at split
    rw [← split] at h
    exact (h.cut (by decide)).1

theorem cstr_append_of_nul {s : Bytes} (t : Bytes) (nul : 0 ∈ s) : cstr (s ++ t) = cstr s := by
  unfold cstr
  rw [List.takeWhile_append, if_neg]
  intro all
  have whole : s.takeWhile (· != 0) = s := (List.takeWhile_prefix _).eq_of_length all
  have := List.takeWhile_eq_self_iff.mp whole 0 nul
  simp at this

theorem cstr_append_nul (s : Bytes) : cstr (s ++ [0]) = cstr s := by
  unfold cstr
  rw [List.takeWhile_append]
  split_ifs with all
  · simp [(List.takeWhile_prefix _).eq_of_length all]
  · rfl

/-- What the second loop has before it. -/
def ahead (content : Bytes) (input_end p : Nat) : Bytes := (content.take input_end).drop p

variable {input_end p : Nat} {c : UInt8}

theorem ahead_cons (inside : p < input_end) (here : content[p]? = some c) :
    ahead content input_end p = c :: ahead content input_end (p + 1) := by
  obtain ⟨within, rfl⟩ := List.getElem?_eq_some_iff.mp here
  unfold ahead
  rw [List.drop_eq_getElem_cons (by rw [List.length_take]; omega), List.getElem_take]

theorem ahead_nil (out : input_end ≤ p) : ahead content input_end p = [] :=
  List.drop_of_length_le (by rw [List.length_take]; omega)

/-- Past ASCII characters. -/
theorem ahead_past {n : Nat} (inside : p + n ≤ input_end)
    (ascii : ∀ j < n, Ascii content (p + j)) (h : WellFormed (ahead content input_end p)) :
    WellFormed (ahead content input_end (p + n)) := by
  induction n with
  | zero => exact h
  | succ n ih =>
    have front := ih (by omega) fun j below => ascii j (by omega)
    obtain ⟨c, here, small⟩ := ascii n (Nat.lt_succ_self n)
    rw [ahead_cons (by omega) here] at front
    exact front.tail small

theorem shortEscape_ascii {escape char : UInt8} (h : shortEscape escape = some char) :
    escape < 0x80 ∧ char < 0x80 := by
  have table : ∀ n : Fin 256, (shortEscape (UInt8.ofNat n)).all (· < 0x80) ∧
      ((shortEscape (UInt8.ofNat n)).isSome → UInt8.ofNat n < 0x80) := by
    decide +kernel
  have here := table ⟨escape.toNat, escape.toNat_lt⟩
  rw [UInt8.ofNat_toNat, h] at here
  exact ⟨here.2 rfl, of_decide_eq_true here.1⟩

/-- A turn takes from what is before it what it writes, or ends the string with a NUL. -/
theorem unescapeNext_returns (inside : p < input_end) (within : input_end ≤ content.length)
    (size : Nat) (output : Bytes) :
    (unescapeNext content input_end size (p, output)).Returns fun r => ∃ text, r.2 = output ++ text ∧
      (WellFormed (output ++ ahead content input_end p) →
        WellFormed (output ++ text ++ ahead content input_end r.1) ∨
          text = [0] ∧ WellFormed output) := by
  rw [unescapeNext]
  refine (returns_read content p).bind fun c here => ?_
  split_ifs with plain
  · refine (returns_write size output [c]).bind fun r wrote => ?_
    refine returns_ok ⟨[c], wrote, fun h => .inl ?_⟩
    rw [ahead_cons inside here] at h
    rwa [List.append_assoc]
  obtain rfl : c = 92 := by simpa using plain
  refine (returns_read content (p + 1)).bind fun escape next => ?_
  have parts : WellFormed (output ++ ahead content input_end p) →
      WellFormed output ∧ WellFormed (ahead content input_end (p + 1)) := by
    intro h
    rw [ahead_cons inside here] at h
    have ⟨front, back⟩ := h.cut (by decide)
    exact ⟨front, back.tail (by decide)⟩
  split_ifs with unicode
  · subst unicode
    have valid := @utf16Literal_ends content p input_end within |>.returns
    have ascii := utf16Literal_returns content p input_end
    have both : (utf16Literal content p input_end).Returns fun r => _ ∧ _ :=
      fun r returned => ⟨valid r returned, ascii r returned⟩
    refine both.bind ?_
    rintro ⟨codepoint, sequence_length⟩ ⟨⟨-, char, shape⟩, fits, digits⟩
    dsimp only at char shape fits digits ⊢
    cases encoded : encodeUtf8 codepoint with
    | none => exact returns_refused
    | some text =>
      refine (returns_write size output text).bind fun r wrote => ?_
      refine returns_ok ⟨text, wrote, fun h => ?_⟩
      have ⟨front, back⟩ := parts h
      rcases digits with rfl | digits
      · right
        obtain rfl : [0] = text := Option.some.inj encoded
        exact ⟨rfl, front⟩
      · left
        rw [encodeUtf8_eq char] at encoded
        cases encoded
        have literal : WellFormed (ahead content input_end (p + sequence_length)) := by
          have past := ahead_past (n := sequence_length - 1) (p := p + 1) (by omega) ?_ back
          · rwa [show p + 1 + (sequence_length - 1) = p + sequence_length by omega] at past
          · intro j below
            cases j with
            | zero => exact ⟨117, next, by decide⟩
            | succ j =>
              rw [show p + 1 + (j + 1) = p + (j + 2) by omega]
              exact digits (j + 2) (by omega) (by omega)
        exact (front.append ⟨[Char.ofNat codepoint], by simp⟩).append literal
  · cases short : shortEscape escape with
    | none => exact returns_refused
    | some char =>
      have ⟨small, small'⟩ := shortEscape_ascii short
      refine (returns_write size output [char]).bind fun r wrote => ?_
      refine returns_ok ⟨[char], wrote, fun h => .inl ?_⟩
      have ⟨front, back⟩ := parts h
      refine (front.append (wellFormed_ascii small')).append ?_
      rcases Nat.lt_or_ge (p + 1) input_end with more | last
      · rw [ahead_cons more next] at back
        exact back.tail small
      · dsimp only
        rw [ahead_nil (by omega)]
        exact ⟨[], rfl⟩

theorem unescape_returns {start : Nat} (within : input_end ≤ content.length) (size : Nat)
    (h : WellFormed (ahead content input_end start)) :
    (unescape content start input_end size).Returns fun output => WellFormed (cstr output) := by
  unfold unescape
  refine returns_loop (fun s => WellFormed (s.2 ++ ahead content input_end s.1) ∨
    0 ∈ s.2 ∧ WellFormed (cstr s.2)) ?_ (.inl h)
  rintro ⟨p, output⟩ before
  rw [unescapeTurn]
  dsimp only at before ⊢
  split_ifs with more
  · refine (unescapeNext_returns more within size output).bind ?_
    rintro ⟨p', output'⟩ ⟨text, rfl, kept⟩
    refine returns_ok ?_
    dsimp only at kept
    rcases before with h | ⟨nul, h⟩
    · rcases kept h with goes | ⟨rfl, front⟩
      · exact .inl goes
      · exact .inr ⟨by simp, by rw [cstr_append_nul]; exact wellFormed_cstr front⟩
    · exact .inr ⟨List.mem_append_left _ nul, by rw [cstr_append_of_nul _ nul]; exact h⟩
  · refine returns_ok ?_
    change WellFormed (cstr output)
    rcases before with h | ⟨-, h⟩
    · rw [ahead_nil (Nat.le_of_not_lt more), List.append_nil] at h
      exact wellFormed_cstr h
    · exact h

/-- A string of a text in UTF-8 is read as one in UTF-8. -/
theorem parseString_returns (utf : WellFormed content) (offset : Nat) :
    (parseString content offset).Returns fun r => WellFormed (cstr r.1) := by
  unfold parseString
  refine (returns_read content offset).bind fun c here => ?_
  have inside : offset < content.length := (List.getElem?_eq_some_iff.mp here).1
  split_ifs with quote
  · exact returns_refused
  obtain rfl : c = 34 := by simpa using quote
  refine (stringEnd_ends inside).returns.bind ?_
  rintro ⟨input_end, skipped⟩ ⟨further, last, -⟩
  dsimp only at further last ⊢
  have within : input_end < content.length := (List.getElem?_eq_some_iff.mp last).1
  have front : WellFormed (content.take input_end) :=
    utf.take (by rw [last]; rintro _ ⟨⟩; decide)
  have text : WellFormed (ahead content input_end (offset + 1)) := by
    have whole := List.take_append_drop offset (content.take input_end)
    rw [← whole] at front
    have first : (content.take input_end).drop offset = 34 :: ahead content input_end (offset + 1) :=
      ahead_cons further here
    rw [first] at front
    exact (front.cut (by decide)).2.tail (by decide)
  refine (unescape_returns (Nat.le_of_lt within) _ text).bind fun output readable => ?_
  exact (returns_write _ output [0]).bind fun _ _ => returns_ok readable

/-! ## Values -/

mutual
/-- The names and the strings of a tree. -/
def Node.texts : Node → List Bytes
  | .string valuestring => [valuestring]
  | .array items => itemTexts items
  | .object members => memberTexts members
  | _ => []

def itemTexts : List Node → List Bytes
  | [] => []
  | item :: items => item.texts ++ itemTexts items

def memberTexts : List (Bytes × Node) → List Bytes
  | [] => []
  | (name, item) :: members => name :: item.texts ++ memberTexts members
end

/-- All of them are read in UTF-8. -/
def Legible (texts : List Bytes) : Prop := ∀ s ∈ texts, WellFormed (cstr s)

theorem Legible.append {s t : List Bytes} (hs : Legible s) (ht : Legible t) : Legible (s ++ t) :=
  fun text mem => (List.mem_append.mp mem).elim (hs text) (ht text)

theorem legible_nil : Legible [] := fun _ mem => absurd mem List.not_mem_nil

theorem itemTexts_append (items : List Node) (item : Node) :
    itemTexts (items ++ [item]) = itemTexts items ++ item.texts := by
  induction items with
  | nil => simp [itemTexts]
  | cons first items ih => rw [List.cons_append, itemTexts, ih, itemTexts, List.append_assoc]

theorem memberTexts_append (members : List (Bytes × Node)) (name : Bytes) (item : Node) :
    memberTexts (members ++ [(name, item)]) = memberTexts members ++ (name :: item.texts) := by
  induction members with
  | nil => simp [memberTexts]
  | cons first members ih =>
    obtain ⟨_, _⟩ := first
    rw [List.cons_append, memberTexts, ih, memberTexts, List.append_assoc]

section Nesting

variable {parse : Nat → Access (Node × Nat)}

theorem parseArray_returns (nested : ∀ offset, (parse offset).Returns (Legible ·.1.texts))
    (offset : Nat) : (parseArray content parse offset).Returns (Legible ·.1.texts) := by
  unfold parseArray
  refine (returns_read content offset).bind fun c _ => ?_
  split_ifs
  · exact returns_refused
  refine Returns.bind (Q := fun _ => True) (fun _ _ => trivial) fun empty _ => ?_
  split_ifs
  · exact returns_ok legible_nil
  · exact returns_refused
  refine returns_loop (fun s : Nat × List Node => Legible (itemTexts s.2)) ?_ legible_nil
  rintro ⟨before, items⟩ legible
  rw [itemTurn]
  refine (nested _).bind ?_
  rintro ⟨item, behind⟩ legible'
  dsimp only at legible legible' ⊢
  have both := legible.append legible'
  rw [← itemTexts_append] at both
  refine Returns.bind (Q := fun _ => True) (fun _ _ => trivial) fun comma _ => ?_
  cases comma with
  | true => exact returns_ok both
  | false => exact returns_ok both

theorem parseName_returns (utf : WellFormed content) (offset : Nat) :
    (parseName content offset).Returns fun r => WellFormed (cstr r.1) := by
  unfold parseName
  split_ifs
  · exact returns_refused
  refine (parseString_returns utf _).bind ?_
  rintro ⟨name, behind⟩ legible
  refine Returns.bind (Q := fun _ => True) (fun _ _ => trivial) fun colon _ => ?_
  cases colon with
  | true => exact returns_ok legible
  | false => exact returns_refused

theorem parseObject_returns (utf : WellFormed content)
    (nested : ∀ offset, (parse offset).Returns (Legible ·.1.texts)) (offset : Nat) :
    (parseObject content parse offset).Returns (Legible ·.1.texts) := by
  unfold parseObject
  refine Returns.bind (Q := fun _ => True) (fun _ _ => trivial) fun brace _ => ?_
  split_ifs
  · exact returns_refused
  refine Returns.bind (Q := fun _ => True) (fun _ _ => trivial) fun empty _ => ?_
  split_ifs
  · exact returns_ok legible_nil
  · exact returns_refused
  refine returns_loop (fun s : Nat × List (Bytes × Node) => Legible (memberTexts s.2)) ?_ legible_nil
  rintro ⟨before, members⟩ legible
  rw [memberTurn]
  refine (parseName_returns utf before).bind ?_
  rintro ⟨name, value⟩ named
  refine (nested _).bind ?_
  rintro ⟨item, behind⟩ legible'
  dsimp only at legible named legible' ⊢
  have member : Legible (name :: item.texts) := by
    rintro text mem
    rcases List.mem_cons.mp mem with rfl | mem
    · exact named
    · exact legible' text mem
  have both := legible.append member
  rw [← memberTexts_append] at both
  refine Returns.bind (Q := fun _ => True) (fun _ _ => trivial) fun comma _ => ?_
  cases comma with
  | true => exact returns_ok both
  | false => exact returns_ok both

end Nesting

theorem parseNumber_returns (round : ℚ → ℚ) (offset : Nat) :
    (parseNumber round content offset).Returns (Legible ·.1.texts) := by
  unfold parseNumber
  split
  · exact returns_refused
  · exact returns_ok legible_nil

theorem parseValueWith_returns (utf : WellFormed content) (round : ℚ → ℚ)
    {array object : Nat → Access (Node × Nat)}
    (arrays : ∀ offset, (array offset).Returns (Legible ·.1.texts))
    (objects : ∀ offset, (object offset).Returns (Legible ·.1.texts)) (offset : Nat) :
    (parseValueWith round content array object offset).Returns (Legible ·.1.texts) := by
  unfold parseValueWith
  split_ifs
  · exact returns_ok legible_nil
  · exact returns_ok legible_nil
  · exact returns_ok legible_nil
  · exact returns_refused
  refine (returns_read content offset).bind fun c _ => ?_
  split_ifs
  · refine (parseString_returns utf offset).bind ?_
    rintro ⟨s, behind⟩ legible
    refine returns_ok fun text mem => ?_
    rw [List.mem_singleton.mp mem]
    exact legible
  · exact parseNumber_returns round offset
  · exact arrays offset
  · exact objects offset
  · exact returns_refused

theorem parseValue_returns (utf : WellFormed content) (round : ℚ → ℚ) (left offset : Nat) :
    (parseValue round content left offset).Returns (Legible ·.1.texts) := by
  induction left generalizing offset with
  | zero =>
    exact parseValueWith_returns utf round (fun _ => returns_refused) (fun _ => returns_refused) offset
  | succ left ih =>
    exact parseValueWith_returns utf round (parseArray_returns ih) (parseObject_returns utf ih) offset

/-- **A buffer in UTF-8 makes a tree in UTF-8**, as far as its names and strings are C strings. -/
theorem parseWithLength_legible {round : ℚ → ℚ} {buffer : Bytes} (utf : WellFormed buffer)
    {item : Node} (parsed : parseWithLength round buffer = .ok item) :
    ∀ s ∈ item.texts, WellFormed (cstr s) := by
  have legible : (parseWithLength round buffer).Returns (Legible ·.texts) := by
    unfold parseWithLength
    split_ifs
    · exact returns_refused
    exact (parseValue_returns utf round _ _).bind fun r legible => returns_ok legible
  exact legible item parsed

/-- The name comes out in UTF-8 behind an escape that has no digits. -/
theorem parseWithLength_legible_name : ∃ s, parseWithLength id (utf8 "\"Zoë \\uZZZZ\"") = .ok (.string s) ∧
    WellFormed (cstr s) := by
  have utf : WellFormed (utf8 "\"Zoë \\uZZZZ\"") := ⟨"\"Zoë \\uZZZZ\"".toList, by decide⟩
  have parsed : parseWithLength id (utf8 "\"Zoë \\uZZZZ\"") = .ok (.string (utf8 "Zoë " ++ [0])) := by
    rfl
  exact ⟨_, parsed, parseWithLength_legible utf parsed _ List.mem_cons_self⟩

end Shyake.Client.CJson
