import Shyake.Go.Protocol.Signed

/-!
# The vendored JSON printer (`vendor/cJSON/cJSON.c`)

`cJSON_PrintUnformatted` of an object of strings and numbers. A print function
takes what is in the buffer and returns it with its text appended, or nothing when
`ensure` refuses: the buffer never grows past `INT_MAX` bytes. `Prints` is the one
fact about such a function, and it composes.
-/

namespace Shyake.Client

open Go.Protocol (escapeByte quote)

/-- The characters of a C string: those before the first NUL. -/
def cstr (s : Bytes) : Bytes := s.takeWhile (· != 0)

def NulFree (s : Bytes) : Prop := (0 : UInt8) ∉ s

instance (s : Bytes) : Decidable (NulFree s) := inferInstanceAs (Decidable ((0 : UInt8) ∉ s))

theorem cstr_of_nulFree {s : Bytes} (h : NulFree s) : cstr s = s := by
  refine List.takeWhile_eq_self_iff.mpr fun c mem => ?_
  simp only [bne_iff_ne, ne_eq]
  exact fun e => h (e ▸ mem)

namespace CJson

def INT_MAX : Int := 2147483647
def INT_MIN : Int := -2147483648

/-! ## Items -/

/-- A string or a number. No double here holds a fraction. -/
inductive Value where
  | string (valuestring : Bytes)
  | number (valueint valuedouble : Int)

structure Item where
  string : Bytes
  value : Value

abbrev Object := List Item

def createObject : Object := []

def createNumber (num : Int) : Value :=
  if num ≥ INT_MAX then .number INT_MAX num
  else if num ≤ INT_MIN then .number INT_MIN num
  else .number num num

/-- The names are literals; the string is copied by `strdup`. -/
def addStringToObject (object : Object) (name string : Bytes) : Object :=
  object ++ [⟨name, .string (cstr string)⟩]

def addNumberToObject (object : Object) (name : Bytes) (number : Int) : Object :=
  object ++ [⟨name, createNumber number⟩]

/-- `cJSON_AddStringToObject` of a string that may be NULL: a NULL is not added. -/
def addStringOrNull (object : Object) (name : Bytes) : Option Bytes → Object
  | some string => addStringToObject object name string
  | none => object

/-! ## Looking up -/

/-- `tolower` of the C locale. -/
def tolower (c : UInt8) : UInt8 := if isUpper c then c + 32 else c

/-- `cJSON_GetObjectItem`: the first item of that name, whatever the case of its letters. -/
def getObjectItem (object : Object) (name : Bytes) : Option Item :=
  object.find? fun item => name.map tolower == item.string.map tolower

/-- `valuestring`, with `none` for NULL. -/
def Item.valuestring (item : Item) : Option Bytes :=
  match item.value with
  | .string s => some s
  | .number _ _ => none

/-- `valueint`, which is zero in a string. -/
def Item.valueint (item : Item) : Int :=
  match item.value with
  | .string _ => 0
  | .number i _ => i

/-- The string of that name, for a caller that needs one. -/
def getString (object : Object) (name : Bytes) : Option Bytes :=
  (getObjectItem object name).bind Item.valuestring

/-! ## Printing -/

/-- Whether `ensure` finds room for `needed` bytes behind `offset`. -/
def ensure (offset needed : Nat) : Bool := needed ≤ INT_MAX && offset + needed + 1 ≤ INT_MAX

/-- Ask for `needed` bytes, then write `text`. -/
def put (text : Bytes) (needed : Nat) (out : Bytes) : Option Bytes :=
  if ensure out.length needed then some (out ++ text) else none

/-- The first loop of `print_string_ptr`: how many characters escaping adds. -/
def escapeCharacters : Bytes → Nat
  | [] => 0
  | c :: cs =>
    (if c = 34 ∨ c = 92 ∨ c = 8 ∨ c = 12 ∨ c = 10 ∨ c = 13 ∨ c = 9 then 1
     else if c < 32 then 5 else 0) + escapeCharacters cs

/-- What the second loop writes for one character. -/
def escaped (c : UInt8) : Bytes :=
  if c > 31 ∧ c ≠ 34 ∧ c ≠ 92 then [c]
  else 92 ::
    if c = 92 then [92]
    else if c = 34 then [34]
    else if c = 8 then [98]
    else if c = 12 then [102]
    else if c = 10 then [110]
    else if c = 13 then [114]
    else if c = 9 then [116]
    else [117, 48, 48, Go.hexDigit (c >>> 4), Go.hexDigit (c &&& 0xf)]

def printStringPtr (input out : Bytes) : Option Bytes :=
  let escape_characters := escapeCharacters input
  let output_length := input.length + escape_characters
  if escape_characters = 0 then put (34 :: (input ++ [34])) (output_length + 3) out
  else put (34 :: (input.flatMap escaped ++ [34])) (output_length + 3) out

/-- `print_number`. `printG` stands for the C library's `%1.15g` or `%1.17g`, which prints a
number that is no `int`. -/
def printNumber (printG : Int → Bytes) (valueint valuedouble : Int) (out : Bytes) : Option Bytes :=
  let number := if valuedouble = valueint then Go.formatInt valueint else printG valuedouble
  if number.length > 25 then none else put number (number.length + 1) out

def printValue (printG : Int → Bytes) : Value → Bytes → Option Bytes
  | .string s => printStringPtr s
  | .number i d => printNumber printG i d

/-- The loop of `print_object`, with `format` off. -/
def printMembers (printG : Int → Bytes) : List Item → Bytes → Option Bytes
  | [], out => some out
  | item :: next, out => do
    let out ← printStringPtr item.string out
    let out ← put [58] 1 out
    let out ← printValue printG item.value out
    let comma : Bytes := if next.isEmpty then [] else [44]
    let out ← put comma (comma.length + 1) out
    printMembers printG next out

def printUnformatted (printG : Int → Bytes) (object : Object) : Option Bytes := do
  let out ← put [123] 2 []
  let out ← printMembers printG object out
  put [125] 2 out

/-! ## What is printed -/

/-- `p` appends `text`, and does so whenever two more bytes would fit behind it. -/
structure Prints (p : Bytes → Option Bytes) (text : Bytes) : Prop where
  only : ∀ out r, p out = some r → r = out ++ text
  fits : ∀ out : Bytes, (out.length + text.length + 2 : Nat) ≤ INT_MAX → p out = some (out ++ text)

namespace Prints

variable {p q : Bytes → Option Bytes} {t u : Bytes}

theorem nothing : Prints some [] :=
  ⟨fun out r h => by simpa using h.symm, fun out _ => by simp⟩

theorem seq (hp : Prints p t) (hq : Prints q u) : Prints (fun out => p out >>= q) (t ++ u) where
  only out r h := by
    obtain ⟨mid, hmid, h⟩ := Option.bind_eq_some_iff.mp h
    rw [hq.only mid r h, hp.only out mid hmid, List.append_assoc]
  fits out h := by
    simp only [List.length_append] at h
    rw [hp.fits out (by omega)]
    change q (out ++ t) = _
    rw [hq.fits (out ++ t) (by simp only [List.length_append]; omega), List.append_assoc]

theorem put_ensured {needed : Nat} (h : needed ≤ t.length + 1) : Prints (put t needed) t where
  only out r e := by
    unfold put at e
    split at e
    · exact (Option.some.inj e).symm
    · cases e
  fits out room := by
    have fits : ensure out.length needed = true := by
      simp only [ensure, Bool.and_eq_true, decide_eq_true_eq]
      unfold INT_MAX at room ⊢
      omega
    simp only [put, fits, if_true]

end Prints

/-- The two printers escape a character alike. -/
theorem escaped_eq (c : UInt8) : escaped c = escapeByte c := by
  have table : ∀ n : Fin 256, escaped (UInt8.ofNat n) = escapeByte (UInt8.ofNat n) := by
    decide +kernel
  simpa using table ⟨c.toNat, c.toNat_lt⟩

/-- The first loop counts what the second one adds. -/
theorem length_escaped (s : Bytes) :
    (s.flatMap escapeByte).length = s.length + escapeCharacters s := by
  have one : ∀ c : UInt8, (escapeByte c).length = 1 +
      (if c = 34 ∨ c = 92 ∨ c = 8 ∨ c = 12 ∨ c = 10 ∨ c = 13 ∨ c = 9 then 1
       else if c < 32 then 5 else 0) := by
    intro c
    have table : ∀ n : Fin 256, (escapeByte (UInt8.ofNat n)).length = 1 +
        (if UInt8.ofNat n = 34 ∨ UInt8.ofNat n = 92 ∨ UInt8.ofNat n = 8 ∨ UInt8.ofNat n = 12 ∨
            UInt8.ofNat n = 10 ∨ UInt8.ofNat n = 13 ∨ UInt8.ofNat n = 9 then 1
         else if UInt8.ofNat n < 32 then 5 else 0) := by
      decide +kernel
    simpa using table ⟨c.toNat, c.toNat_lt⟩
  induction s with
  | nil => rfl
  | cons c cs ih =>
    rw [List.flatMap_cons, List.length_append, ih, one, escapeCharacters, List.length_cons]
    omega

/-- With nothing to count, there is nothing to escape. -/
theorem escape_nothing {s : Bytes} (h : escapeCharacters s = 0) : s.flatMap escapeByte = s := by
  induction s with
  | nil => rfl
  | cons c cs ih =>
    simp only [escapeCharacters, Nat.add_eq_zero_iff] at h
    have len := length_escaped [c]
    simp only [escapeCharacters, h.1, List.flatMap_cons, List.flatMap_nil, List.append_nil,
      List.length_singleton] at len
    have same : escapeByte c = [c] := by
      have table : ∀ n : Fin 256, (escapeByte (UInt8.ofNat n)).length = 1 →
          escapeByte (UInt8.ofNat n) = [UInt8.ofNat n] := by
        decide +kernel
      simpa using table ⟨c.toNat, c.toNat_lt⟩ (by simpa using len)
    rw [List.flatMap_cons, same, ih h.2]
    rfl

theorem prints_string (s : Bytes) : Prints (printStringPtr s) (quote s) := by
  have len := length_escaped s
  unfold printStringPtr quote
  by_cases plain : escapeCharacters s = 0
  · simp only [plain, if_true, escape_nothing plain]
    exact .put_ensured (by simp)
  · simp only [plain, if_false, funext escaped_eq]
    refine .put_ensured ?_
    simp only [List.length_cons, List.length_append, List.length_nil, len]
    omega

/-- A number that is an `int` is printed in decimal. -/
theorem prints_number (printG : Int → Bytes) {n : Int} (h : 0 ≤ n) (h' : n ≤ INT_MAX) :
    Prints (printValue printG (createNumber n)) (Go.formatInt n) := by
  have int : createNumber n = .number n n := by
    unfold createNumber
    split_ifs with big small
    · rw [show n = INT_MAX from Int.le_antisymm h' big]
    · exact absurd small (by unfold INT_MIN; omega)
    · rfl
  have short : (Go.formatInt n).length ≤ 25 := by
    obtain ⟨k, rfl⟩ := Int.eq_ofNat_of_zero_le h
    change ((Nat.toDigits 10 k).map _).length ≤ 25
    rw [List.length_map]
    exact (Nat.length_toDigits_le_iff (by omega) (by omega)).mpr (by
      unfold INT_MAX at h'
      omega)
  have same : printValue printG (createNumber n) =
      put (Go.formatInt n) ((Go.formatInt n).length + 1) := by
    funext out
    rw [int]
    simp only [printValue, printNumber, if_true]
    rw [if_neg (by omega)]
  rw [same]
  exact .put_ensured (Nat.le_refl _)

end CJson

end Shyake.Client
