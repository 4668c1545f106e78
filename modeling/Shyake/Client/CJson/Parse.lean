import Mathlib.Algebra.Field.Rat
import Shyake.Client.Json
import Shyake.Lib.Access

/-!
# The vendored JSON parser (`vendor/cJSON/cJSON.c`)

`cJSON_ParseWithLength` of any buffer and `cJSON_Parse` of any C string. A pointer into the
buffer is an index, every read names the index that it reads, and every write into the buffer of
a string names the size of that buffer. No allocation fails.
-/

namespace Shyake.Client.CJson

open Lib (Access)
open Lib.Access (read write loop)

/-- A `cJSON` with its children. -/
inductive Node where
  | null
  | bool (value : Bool)
  | number (valueint : Int) (valuedouble : ℚ)
  | string (valuestring : Bytes)
  | array (items : List Node)
  | object (members : List (Bytes × Node))

def CJSON_NESTING_LIMIT : Nat := 1000

namespace Node

mutual
/-- A tree without the fractions of its numbers. -/
def json : Node → Json
  | null => .null
  | bool value => .bool value
  | number valueint _ => .number valueint
  | string valuestring => .string valuestring
  | array items => .array (jsons items)
  | object members => .object (jsonMembers members)

def jsons : List Node → List Json
  | [] => []
  | item :: items => item.json :: jsons items

def jsonMembers : List (Bytes × Node) → List (Bytes × Json)
  | [] => []
  | (name, item) :: members => (name, item.json) :: jsonMembers members
end

/-- `cJSON_GetObjectItem`. -/
def getObjectItem : Node → Bytes → Option Node
  | object members, name =>
    (members.find? fun m => name.map tolower == (cstr m.1).map tolower).map (·.2)
  | _, _ => none

/-- `valuedouble`. -/
def valuedouble : Node → ℚ
  | number _ valuedouble => valuedouble
  | _ => 0

end Node

/-! ## Numbers -/

/-- The value of a run of digits. -/
def decimal (digits : Bytes) : Nat := digits.foldl (fun n c => 10 * n + (c.toNat - 48)) 0

/-- The sign at the front, and its length. -/
def signOf : Bytes → Int × Nat
  | 45 :: _ => (-1, 1)
  | 43 :: _ => (1, 1)
  | _ => (1, 0)

/-- The exponent at the front, and its length; without a digit there is none. -/
def exponentOf : Bytes → Int × Nat
  | e :: s =>
    if e = 101 ∨ e = 69 then
      let (sign, n) := signOf s
      let digits := (s.drop n).takeWhile isDigit
      if digits = [] then (0, 0) else (sign * decimal digits, 1 + n + digits.length)
    else (0, 0)
  | [] => (0, 0)

/-- `strtod` of a text of digits, signs, points and the letter e, and how much of it is read.
`round` makes a double of a number. -/
def strtod (round : ℚ → ℚ) (s : Bytes) : Option (ℚ × Nat) :=
  let (sign, n) := signOf s
  let whole := (s.drop n).takeWhile isDigit
  let n := n + whole.length
  let point := if (s.drop n).head? = some 46 then 1 else 0
  let fraction := if point = 1 then (s.drop (n + 1)).takeWhile isDigit else []
  if whole = [] ∧ fraction = [] then none
  else
    let n := n + point + fraction.length
    let (exponent, m) := exponentOf (s.drop n)
    let value := sign * decimal (whole ++ fraction) * (10 : ℚ) ^ (exponent - fraction.length)
    some (round value, n + m)

/-- What the loop of `parse_number` takes. -/
def isNumberChar (c : UInt8) : Bool :=
  isDigit c || c == 43 || c == 45 || c == 101 || c == 69 || c == 46

/-- A double that is cut to an integer. -/
def truncate (number : ℚ) : Int := number.num.tdiv number.den

/-- `valueint` of a number, with saturation. -/
def toValueint (number : ℚ) : Int :=
  if number ≥ INT_MAX then INT_MAX
  else if number ≤ INT_MIN then INT_MIN
  else truncate number

/-- `parse_number`. -/
def parseNumber (round : ℚ → ℚ) (content : Bytes) (offset : Nat) : Access (Node × Nat) :=
  match strtod round ((content.drop offset).takeWhile isNumberChar) with
  | none => .refused
  | some (number, length) => .ok (.number (toValueint number) number, offset + length)

/-! ## Strings -/

/-- A hexadecimal digit. -/
def hexDigitOf (c : UInt8) : Option Nat :=
  if 48 ≤ c ∧ c ≤ 57 then some (c.toNat - 48)
  else if 65 ≤ c ∧ c ≤ 70 then some (10 + c.toNat - 65)
  else if 97 ≤ c ∧ c ≤ 102 then some (10 + c.toNat - 97)
  else none

/-- A turn of the loop of `parse_hex4`; what is no number is zero. -/
def parseHex4Turn (content : Bytes) (input : Nat) :
    (state : Nat × Nat) → Access ((Nat × Nat) ⊕ Nat)
  | (i, h) =>
    if i < 4 then do
      let c ← read content (input + i)
      match hexDigitOf c with
      | none => return .inr 0
      | some digit =>
        let h := h + digit
        return .inl (i + 1, if i < 3 then h <<< 4 else h)
    else return .inr h

/-- `parse_hex4`. -/
def parseHex4 (content : Bytes) (input : Nat) : Access Nat :=
  loop (parseHex4Turn content input) 5 (0, 0)

/-- The last `n` bytes of the encoding of a code point, and what is left for the first one. -/
def tailBytes : (n : Nat) → (codepoint : Nat) → Nat × Bytes
  | 0, codepoint => (codepoint, [])
  | n + 1, codepoint =>
    let (first, bytes) := tailBytes n (codepoint >>> 6)
    (first, bytes ++ [UInt8.ofNat ((codepoint ||| 0x80) &&& 0xBF)])

/-- The end of `utf16_literal_to_utf8`: a code point in UTF-8. -/
def encodeUtf8 (codepoint : Nat) : Option Bytes :=
  if codepoint < 0x80 then some [UInt8.ofNat (codepoint &&& 0x7F)]
  else
    let encoded (utf8_length first_byte_mark : Nat) : Bytes :=
      let (first, bytes) := tailBytes (utf8_length - 1) codepoint
      UInt8.ofNat ((first ||| first_byte_mark) &&& 0xFF) :: bytes
    if codepoint < 0x800 then some (encoded 2 0xC0)
    else if codepoint < 0x10000 then some (encoded 3 0xE0)
    else if codepoint ≤ 0x10FFFF then some (encoded 4 0xF0)
    else none

/-- The code point of a literal before `input_end`, and the length of the literal. -/
def utf16Literal (content : Bytes) (first_sequence input_end : Nat) : Access (Nat × Nat) :=
  if input_end < first_sequence + 6 then .refused
  else do
    let first_code ← parseHex4 content (first_sequence + 2)
    if 0xDC00 ≤ first_code ∧ first_code ≤ 0xDFFF then .refused
    else if 0xD800 ≤ first_code ∧ first_code ≤ 0xDBFF then
      let second_sequence := first_sequence + 6
      if input_end < second_sequence + 6 then .refused
      else
        let backslash ← read content second_sequence
        let u ← read content (second_sequence + 1)
        if backslash ≠ 92 ∨ u ≠ 117 then .refused
        else
          let second_code ← parseHex4 content (second_sequence + 2)
          if second_code < 0xDC00 ∨ second_code > 0xDFFF then .refused
          else
            return (0x10000 + ((first_code &&& 0x3FF) <<< 10 ||| second_code &&& 0x3FF), 12)
    else return (first_code, 6)

/-- A turn of the first loop of `parse_string`. -/
def stringEndTurn (content : Bytes) :
    (state : Nat × Nat) → Access ((Nat × Nat) ⊕ (Nat × Nat))
  | (input_end, skipped_bytes) =>
    if input_end < content.length then do
      let c ← read content input_end
      if c = 34 then return .inr (input_end, skipped_bytes)
      else if c = 92 then
        if input_end + 1 ≥ content.length then .refused
        else return .inl (input_end + 2, skipped_bytes + 1)
      else return .inl (input_end + 1, skipped_bytes)
    else .refused

/-- Where a string ends, and how many escapes are in it. -/
def stringEnd (content : Bytes) (start : Nat) : Access (Nat × Nat) :=
  loop (stringEndTurn content) (content.length + 1) (start, 0)

/-- The character of an escape of two. -/
def shortEscape (escape : UInt8) : Option UInt8 :=
  if escape = 98 then some 8
  else if escape = 102 then some 12
  else if escape = 110 then some 10
  else if escape = 114 then some 13
  else if escape = 116 then some 9
  else if escape = 34 ∨ escape = 92 ∨ escape = 47 then some escape
  else none

/-- A character or an escape, and what is written for it. -/
def unescapeNext (content : Bytes) (input_end size : Nat) :
    (state : Nat × Bytes) → Access (Nat × Bytes)
  | (input_pointer, output) => do
    let c ← read content input_pointer
    if c ≠ 92 then
      return (input_pointer + 1, ← write size output [c])
    let escape ← read content (input_pointer + 1)
    if escape = 117 then
      let (codepoint, sequence_length) ← utf16Literal content input_pointer input_end
      match encodeUtf8 codepoint with
      | none => .refused
      | some text => return (input_pointer + sequence_length, ← write size output text)
    else
      match shortEscape escape with
      | none => .refused
      | some character => return (input_pointer + 2, ← write size output [character])

/-- A turn of the second loop of `parse_string`. -/
def unescapeTurn (content : Bytes) (input_end size : Nat) (state : Nat × Bytes) :
    Access ((Nat × Bytes) ⊕ Bytes) :=
  if state.1 < input_end then do
    return .inl (← unescapeNext content input_end size state)
  else return .inr state.2

def unescape (content : Bytes) (input_pointer input_end size : Nat) : Access Bytes :=
  loop (unescapeTurn content input_end size) (content.length + 1) (input_pointer, [])

/-- `parse_string`. -/
def parseString (content : Bytes) (offset : Nat) : Access (Bytes × Nat) := do
  let c ← read content offset
  if c ≠ 34 then .refused
  else
    let (input_end, skipped_bytes) ← stringEnd content (offset + 1)
    let allocation_length := input_end - offset - skipped_bytes
    let output ← unescape content (offset + 1) input_end (allocation_length + 1)
    -- the NUL behind it
    let _ ← write (allocation_length + 1) output [0]
    return (output, input_end + 1)

/-! ## Values -/

/-- `can_access_at_index`. -/
def canAccess (content : Bytes) (offset index : Nat) : Bool := offset + index < content.length

/-- `buffer_skip_whitespace`, which stays in the buffer. -/
def skipWhitespace (content : Bytes) (offset : Nat) : Nat :=
  if canAccess content offset 0 then
    let stop := offset + ((content.drop offset).takeWhile (· ≤ 32)).length
    if stop = content.length then stop - 1 else stop
  else offset

/-- Whether `c` is the next character. -/
def isNext (content : Bytes) (offset : Nat) (c : UInt8) : Access Bool :=
  if canAccess content offset 0 then do return (← read content offset) == c
  else return false

/-- What follows an element: a comma, or `close` and with it the end. -/
def parseSeparator (content : Bytes) (offset : Nat) (close : UInt8) : Access Bool := do
  if ← isNext content offset 44 then return true
  else if ← isNext content offset close then return false
  else .refused

/-- A turn of the loop of `parse_array`, which begins in front of an element. `parse` is
`parse_value` one level down. -/
def itemTurn (content : Bytes) (parse : Nat → Access (Node × Nat)) :
    (state : Nat × List Node) → Access ((Nat × List Node) ⊕ (Node × Nat))
  | (offset, items) => do
    let offset := skipWhitespace content (offset + 1)
    let (item, offset) ← parse offset
    let offset := skipWhitespace content offset
    if ← parseSeparator content offset 93 then return .inl (offset, items ++ [item])
    else return .inr (.array (items ++ [item]), offset + 1)

/-- `parse_array`. -/
def parseArray (content : Bytes) (parse : Nat → Access (Node × Nat)) (offset : Nat) :
    Access (Node × Nat) := do
  let c ← read content offset
  if c ≠ 91 then .refused
  else
    let offset := skipWhitespace content (offset + 1)
    if ← isNext content offset 93 then return (.array [], offset + 1)
    else if canAccess content offset 0 = false then .refused
    else loop (itemTurn content parse) (content.length + 1) (offset - 1, [])

/-- The name of a member and the colon after it. -/
def parseName (content : Bytes) (offset : Nat) : Access (Bytes × Nat) := do
  if canAccess content offset 1 = false then .refused
  else
    let offset := skipWhitespace content (offset + 1)
    let (name, offset) ← parseString content offset
    let offset := skipWhitespace content offset
    if ← isNext content offset 58 then return (name, skipWhitespace content (offset + 1))
    else .refused

/-- A turn of the loop of `parse_object`. -/
def memberTurn (content : Bytes) (parse : Nat → Access (Node × Nat)) :
    (state : Nat × List (Bytes × Node)) → Access ((Nat × List (Bytes × Node)) ⊕ (Node × Nat))
  | (offset, members) => do
    let (name, offset) ← parseName content offset
    let (item, offset) ← parse offset
    let offset := skipWhitespace content offset
    if ← parseSeparator content offset 125 then return .inl (offset, members ++ [(name, item)])
    else return .inr (.object (members ++ [(name, item)]), offset + 1)

/-- `parse_object`. -/
def parseObject (content : Bytes) (parse : Nat → Access (Node × Nat)) (offset : Nat) :
    Access (Node × Nat) := do
  if !(← isNext content offset 123) then .refused
  else
    let offset := skipWhitespace content (offset + 1)
    if ← isNext content offset 125 then return (.object [], offset + 1)
    else if canAccess content offset 0 = false then .refused
    else loop (memberTurn content parse) (content.length + 1) (offset - 1, [])

/-- Whether `text` stands at the offset (`can_read` and `strncmp`). -/
def startsWith (content : Bytes) (offset : Nat) (text : String) : Bool :=
  (content.drop offset).take (utf8 text).length == utf8 text

/-- `parse_value`, with the parsers of what nests. -/
def parseValueWith (round : ℚ → ℚ) (content : Bytes) (array object : Nat → Access (Node × Nat))
    (offset : Nat) : Access (Node × Nat) := do
  if startsWith content offset "null" then return (.null, offset + 4)
  else if startsWith content offset "false" then return (.bool false, offset + 5)
  else if startsWith content offset "true" then return (.bool true, offset + 4)
  else if canAccess content offset 0 = false then .refused
  else
    let c ← read content offset
    if c = 34 then
      let (s, offset) ← parseString content offset
      return (.string s, offset)
    else if c = 45 ∨ (48 ≤ c ∧ c ≤ 57) then parseNumber round content offset
    else if c = 91 then array offset
    else if c = 123 then object offset
    else .refused

/-- `parse_value`, where arrays and objects may nest `left` times more. -/
def parseValue (round : ℚ → ℚ) (content : Bytes) : (left offset : Nat) → Access (Node × Nat)
  | 0, offset => parseValueWith round content (fun _ => .refused) (fun _ => .refused) offset
  | left + 1, offset =>
    parseValueWith round content (parseArray content (parseValue round content left))
      (parseObject content (parseValue round content left)) offset

/-- `skip_utf8_bom`, at the start of the buffer. -/
def skipUtf8Bom (content : Bytes) : Nat :=
  if canAccess content 0 4 ∧ content.take 3 = [0xEF, 0xBB, 0xBF] then 3 else 0

/-- `cJSON_ParseWithLength`. -/
def parseWithLength (round : ℚ → ℚ) (buffer : Bytes) : Access Node :=
  if buffer = [] then .refused
  else do
    let (item, _) ← parseValue round buffer CJSON_NESTING_LIMIT
      (skipWhitespace buffer (skipUtf8Bom buffer))
    return item

/-- `cJSON_Parse` of a C string. -/
def parse (round : ℚ → ℚ) (value : Bytes) : Access Node := parseWithLength round (cstr value ++ [0])

end Shyake.Client.CJson
