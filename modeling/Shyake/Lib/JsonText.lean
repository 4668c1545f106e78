import Mathlib.Algebra.Ring.Nat
import Mathlib.Data.List.Basic

/-!
# JSON texts (RFC 8259)

A reader of the grammar, in the two steps that readers of it take: a scanner makes tokens of the
code points, and a machine with a stack makes a value of the tokens. The stack may have a limit.

A string may name a surrogate that has no other half. It is kept as a code point of its own, for
what a program makes of it is not a matter of the grammar.
-/

namespace Shyake.Lib.JsonText

/-- A string of code points. -/
abbrev Text := List Nat

/-- The code points of a string literal. -/
def codes (s : String) : Text := s.toList.map Char.toNat

inductive Doc where
  | null
  | bool (b : Bool)
  | number (text : Text)
  | string (s : Text)
  | array (elements : List Doc)
  | object (members : List (Text × Doc))

/-! ## Tokens -/

inductive Token where
  | beginArray
  | endArray
  | beginObject
  | endObject
  | nameSeparator
  | valueSeparator
  | string (s : Text)
  /-- A number or a literal name. -/
  | scalar (d : Doc)

def digit (c : Nat) : Bool := 48 ≤ c && c ≤ 57

/-- How far a number has come. -/
inductive Phase where
  | minus
  | zero
  | int
  | point
  | frac
  | e
  | sign
  | exp
  deriving DecidableEq

namespace Phase

/-- The phase after one more character. -/
def next (p : Phase) (c : Nat) : Option Phase :=
  match p with
  | minus => if c = 48 then some zero else if digit c then some int else none
  | zero => if c = 46 then some point else if c = 101 ∨ c = 69 then some e else none
  | int =>
    if digit c then some int
    else if c = 46 then some point
    else if c = 101 ∨ c = 69 then some e
    else none
  | point => if digit c then some frac else none
  | frac => if digit c then some frac else if c = 101 ∨ c = 69 then some e else none
  | e => if c = 43 ∨ c = 45 then some sign else if digit c then some exp else none
  | sign => if digit c then some exp else none
  | exp => if digit c then some exp else none

/-- A number may end here. -/
def ends : Phase → Bool
  | zero | int | frac | exp => true
  | minus | point | e | sign => false

end Phase

/-- Where the scanner is. Texts are kept backwards. -/
inductive Scan where
  | between
  | string (text : Text)
  | escape (text : Text)
  /-- Within a `\u` escape: so many digits are still to come. -/
  | hex (text : Text) (digits value : Nat)
  | number (phase : Phase) (text : Text)
  /-- Within a literal name, before this character. -/
  | name (c : Nat) (rest : Text) (d : Doc)

/-- The value of a hexadecimal digit. -/
def hexValue (c : Nat) : Option Nat :=
  if digit c then some (c - 48)
  else if 97 ≤ c ∧ c ≤ 102 then some (c - 87)
  else if 65 ≤ c ∧ c ≤ 70 then some (c - 55)
  else none

/-- What a backslash and this character stand for. -/
def unescape (c : Nat) : Option Nat :=
  if c = 34 ∨ c = 92 ∨ c = 47 then some c
  else if c = 98 then some 8
  else if c = 102 then some 12
  else if c = 110 then some 10
  else if c = 114 then some 13
  else if c = 116 then some 9
  else none

def highSurrogate (c : Nat) : Bool := 0xd800 ≤ c && c ≤ 0xdbff

def lowSurrogate (c : Nat) : Bool := 0xdc00 ≤ c && c ≤ 0xdfff

def surrogate (c : Nat) : Bool := highSurrogate c || lowSurrogate c

/-- Add an escaped code unit to a text. The two halves of a pair make one code point. -/
def pushUnit (u : Nat) : Text → Text
  | [] => [u]
  | c :: text =>
    if highSurrogate c && lowSurrogate u then
      (0x10000 + (c - 0xd800) * 1024 + (u - 0xdc00)) :: text
    else u :: c :: text

/-- The first character of a token, or a blank. -/
def start (c : Nat) : Option (Scan × List Token) :=
  if c = 32 ∨ c = 9 ∨ c = 10 ∨ c = 13 then some (.between, [])
  else if c = 91 then some (.between, [.beginArray])
  else if c = 93 then some (.between, [.endArray])
  else if c = 123 then some (.between, [.beginObject])
  else if c = 125 then some (.between, [.endObject])
  else if c = 58 then some (.between, [.nameSeparator])
  else if c = 44 then some (.between, [.valueSeparator])
  else if c = 34 then some (.string [], [])
  else if c = 45 then some (.number .minus [c], [])
  else if c = 48 then some (.number .zero [c], [])
  else if digit c then some (.number .int [c], [])
  else if c = 116 then some (.name 114 (codes "ue") (.bool true), [])
  else if c = 102 then some (.name 97 (codes "lse") (.bool false), [])
  else if c = 110 then some (.name 117 (codes "ll") .null, [])
  else none

/-- One character. -/
def scanStep : Scan → Nat → Option (Scan × List Token)
  | .between, c => start c
  | .string text, c =>
    if c = 34 then some (.between, [.string text.reverse])
    else if c = 92 then some (.escape text, [])
    else if c < 32 then none
    else some (.string (c :: text), [])
  | .escape text, c =>
    if c = 117 then some (.hex text 4 0, [])
    else (unescape c).map fun u => (.string (u :: text), [])
  | .hex text digits value, c =>
    (hexValue c).map fun d =>
      if digits ≤ 1 then (.string (pushUnit (16 * value + d) text), [])
      else (.hex text (digits - 1) (16 * value + d), [])
  | .number phase text, c =>
    match phase.next c with
    | some phase => some (.number phase (c :: text), [])
    | none =>
      if phase.ends then (start c).map fun (s, ts) => (s, .scalar (.number text.reverse) :: ts)
      else none
  | .name n rest d, c =>
    if c = n then
      match rest with
      | [] => some (.between, [.scalar d])
      | n :: rest => some (.name n rest d, [])
    else none

/-- The end of the text. -/
def finish : Scan → Option (List Token)
  | .between => some []
  | .number phase text => if phase.ends then some [.scalar (.number text.reverse)] else none
  | .string _ | .escape _ | .hex _ _ _ | .name _ _ _ => none

def scan : Scan → Text → Option (List Token)
  | s, [] => finish s
  | s, c :: cs => (scanStep s c).bind fun (s, ts) => (scan s cs).map (ts ++ ·)

/-! ## Values -/

/-- A value that has begun, with what it holds so far, backwards. -/
inductive Frame where
  | array (elements : List Doc)
  /-- The value of this name is being read. -/
  | object (members : List (Text × Doc)) (name : Text)

/-- What the machine waits for. -/
inductive State where
  /-- A value. -/
  | value (stack : List Frame)
  /-- A value, or the end of the array that has just begun. -/
  | element (stack : List Frame)
  /-- A name, or the end of the object that has just begun. -/
  | member (stack : List Frame)
  /-- A name. -/
  | name (stack : List Frame) (members : List (Text × Doc))
  /-- The separator behind a name. -/
  | separator (stack : List Frame) (members : List (Text × Doc)) (name : Text)
  /-- What follows a value. -/
  | after (stack : List Frame) (d : Doc)

/-- One more array or object within those of the stack. -/
def deeper (limit : Option Nat) (stack : List Frame) (s : State) : Option State :=
  if limit.any (· ≤ stack.length) then none else some s

/-- The token that a value begins with. -/
def beginValue (limit : Option Nat) (stack : List Frame) : Token → Option State
  | .string s => some (.after stack (.string s))
  | .scalar d => some (.after stack d)
  | .beginArray => deeper limit stack (.element stack)
  | .beginObject => deeper limit stack (.member stack)
  | .endArray | .endObject | .nameSeparator | .valueSeparator => none

def feed (limit : Option Nat) : State → Token → Option State
  | .value stack, t => beginValue limit stack t
  | .element stack, .endArray => some (.after stack (.array []))
  | .element stack, t => beginValue limit (.array [] :: stack) t
  | .member stack, .endObject => some (.after stack (.object []))
  | .member stack, .string name => some (.separator stack [] name)
  | .name stack members, .string name => some (.separator stack members name)
  | .separator stack members name, .nameSeparator => some (.value (.object members name :: stack))
  | .after (.array elements :: stack) d, .valueSeparator =>
    some (.value (.array (d :: elements) :: stack))
  | .after (.array elements :: stack) d, .endArray =>
    some (.after stack (.array (d :: elements).reverse))
  | .after (.object members name :: stack) d, .valueSeparator =>
    some (.name stack ((name, d) :: members))
  | .after (.object members name :: stack) d, .endObject =>
    some (.after stack (.object ((name, d) :: members).reverse))
  | _, _ => none

/-- The value, if nothing is open and nothing is missing. -/
def State.whole : State → Option Doc
  | .after [] d => some d
  | _ => none

/-- The value that a text holds, if it nests no deeper than the limit. -/
def read (limit : Option Nat) (text : Text) : Option Doc :=
  (scan .between text).bind fun tokens => (tokens.foldlM (feed limit) (.value [])).bind State.whole

/-! ## The code points of a document -/

/-- Code points of Unicode, the surrogates among them. -/
def Points (text : Text) : Prop := ∀ c ∈ text, c < 0x110000

def MemberPoints (members : List (Text × Doc)) : Prop :=
  ∀ m ∈ members, ∀ s, m.2 = .string s → Points s

/-- The strings of a document that are no deeper than an object's members. -/
def Doc.Points : Doc → Prop
  | .string s => JsonText.Points s
  | .object members => MemberPoints members
  | .null | .bool _ | .number _ | .array _ => True

def Token.Points : Token → Prop
  | .string s => JsonText.Points s
  | .scalar d => d.Points
  | .beginArray | .endArray | .beginObject | .endObject | .nameSeparator | .valueSeparator => True

def Scan.Points : Scan → Prop
  | .string text | .escape text => JsonText.Points text
  | .hex text digits value =>
    JsonText.Points text ∧ 1 ≤ digits ∧ (value + 1) * 16 ^ digits ≤ 0x10000
  | .name _ _ d => d.Points
  | .between | .number _ _ => True

theorem Points.cons {c : Nat} {text : Text} (h : Points text) (point : c < 0x110000) :
    Points (c :: text) :=
  List.forall_mem_cons.mpr ⟨point, h⟩

theorem Points.reverse {text : Text} (h : Points text) : Points text.reverse :=
  fun c mem => h c (List.mem_reverse.mp mem)

/-- A pair is a code point as well. -/
theorem Points.pushUnit {u : Nat} {text : Text} (h : Points text) (unit : u < 0x10000) :
    Points (pushUnit u text) := by
  cases text with
  | nil => exact h.cons (by omega)
  | cons c text =>
    simp only [JsonText.pushUnit]
    split
    · rename_i pair
      simp only [highSurrogate, lowSurrogate, Bool.and_eq_true, decide_eq_true_eq] at pair
      exact Points.cons (List.forall_mem_cons.mp h).2 (by omega)
    · exact h.cons (by omega)

/-- What a step makes is made of code points. -/
def Stepped (r : Option (Scan × List Token)) : Prop :=
  ∀ p ∈ r, p.1.Points ∧ ∀ t ∈ p.2, t.Points

theorem start_points (c : Nat) : Stepped (start c) := by
  unfold start
  repeat' refine iteInduction (fun _ => ?_) fun _ => ?_
  all_goals simp [Stepped, Scan.Points, Token.Points, Doc.Points, Points]

theorem hexValue_lt {c d : Nat} (h : hexValue c = some d) : d < 16 := by
  unfold hexValue digit at h
  split_ifs at h <;> cases h <;> simp_all <;> omega

theorem unescape_lt {c u : Nat} (h : unescape c = some u) : u < 0x110000 := by
  unfold unescape at h
  split_ifs at h <;> cases h <;> omega

theorem scanStep_points {s s' : Scan} {c : Nat} {ts : List Token} (h : s.Points)
    (point : c < 0x110000) (step : scanStep s c = some (s', ts)) :
    s'.Points ∧ ∀ t ∈ ts, t.Points := by
  cases s with
  | between => exact start_points c _ step
  | string text =>
    simp only [scanStep] at step
    split_ifs at step
    · cases step
      exact ⟨trivial, List.forall_mem_singleton.mpr (Points.reverse h)⟩
    · cases step
      exact ⟨h, by simp⟩
    · cases step
      exact ⟨Points.cons h point, by simp⟩
  | escape text =>
    simp only [scanStep] at step
    split_ifs at step
    · cases step
      exact ⟨⟨h, by omega, by omega⟩, by simp⟩
    · obtain ⟨u, hu, made⟩ := Option.map_eq_some_iff.mp step
      cases made
      exact ⟨Points.cons h (unescape_lt hu), by simp⟩
  | hex text digits value =>
    obtain ⟨h, left, bound⟩ := h
    obtain ⟨d, hd, made⟩ := Option.map_eq_some_iff.mp step
    have small := hexValue_lt hd
    obtain ⟨n, rfl⟩ : ∃ n, digits = n + 1 := ⟨digits - 1, by omega⟩
    rw [Nat.pow_succ] at bound
    split_ifs at made with last
    · cases made
      obtain rfl : n = 0 := by omega
      exact ⟨h.pushUnit (by omega), by simp⟩
    · cases made
      refine ⟨⟨h, by omega, ?_⟩, by simp⟩
      calc (16 * value + d + 1) * 16 ^ n ≤ (16 * (value + 1)) * 16 ^ n :=
            Nat.mul_le_mul_right _ (by omega)
        _ = (value + 1) * (16 ^ n * 16) := by
            rw [Nat.mul_comm 16, Nat.mul_assoc, Nat.mul_comm 16]
        _ ≤ 0x10000 := bound
  | number phase text =>
    simp only [scanStep] at step
    split at step
    · cases step
      exact ⟨trivial, by simp⟩
    · split_ifs at step
      obtain ⟨⟨s₁, ts₁⟩, started, made⟩ := Option.map_eq_some_iff.mp step
      cases made
      obtain ⟨hs, ht⟩ := start_points c _ started
      exact ⟨hs, List.forall_mem_cons.mpr ⟨trivial, ht⟩⟩
  | name n rest d =>
    simp only [scanStep] at step
    split_ifs at step
    cases rest with
    | nil =>
      cases step
      exact ⟨trivial, List.forall_mem_singleton.mpr h⟩
    | cons n rest =>
      cases step
      exact ⟨h, by simp⟩

theorem scan_points {s : Scan} {text : Text} {ts : List Token} (h : s.Points)
    (points : Points text) (scanned : scan s text = some ts) : ∀ t ∈ ts, t.Points := by
  induction text generalizing s ts with
  | nil =>
    cases s with
    | between =>
      cases scanned
      simp
    | number phase text =>
      simp only [scan, finish] at scanned
      split_ifs at scanned
      cases scanned
      simp [Token.Points, Doc.Points]
    | string text | escape text | hex text digits value | name n rest d => cases scanned
  | cons c text ih =>
    obtain ⟨point, points⟩ := List.forall_mem_cons.mp points
    obtain ⟨⟨s₁, ts₁⟩, step, later⟩ := Option.bind_eq_some_iff.mp scanned
    obtain ⟨ts₂, rest, made⟩ := Option.map_eq_some_iff.mp later
    obtain ⟨hs, ht⟩ := scanStep_points h point step
    cases made
    exact List.forall_mem_append.mpr ⟨ht, ih hs points rest⟩

def Frame.Points : Frame → Prop
  | .array _ => True
  | .object members _ => MemberPoints members

def State.Points : State → Prop
  | .value stack | .element stack | .member stack => ∀ f ∈ stack, f.Points
  | .name stack members | .separator stack members _ =>
    (∀ f ∈ stack, f.Points) ∧ MemberPoints members
  | .after stack d => (∀ f ∈ stack, f.Points) ∧ d.Points

theorem MemberPoints.cons {members : List (Text × Doc)} (h : MemberPoints members) (name : Text)
    {d : Doc} (points : d.Points) : MemberPoints ((name, d) :: members) := by
  refine List.forall_mem_cons.mpr ⟨?_, h⟩
  rintro s rfl
  exact points

theorem beginValue_points {limit : Option Nat} {stack : List Frame} {t : Token} {s : State}
    (h : ∀ f ∈ stack, f.Points) (ht : t.Points) (fed : beginValue limit stack t = some s) :
    s.Points := by
  cases t with
  | string text | scalar d =>
    cases fed
    exact ⟨h, ht⟩
  | beginArray | beginObject =>
    simp only [beginValue, deeper] at fed
    split_ifs at fed
    cases fed
    exact h
  | endArray | endObject | nameSeparator | valueSeparator => cases fed

theorem MemberPoints.reverse {members : List (Text × Doc)} (h : MemberPoints members) :
    MemberPoints members.reverse :=
  fun m mem => h m (List.mem_reverse.mp mem)

theorem feed_points {limit : Option Nat} {s s' : State} {t : Token} (h : s.Points)
    (ht : t.Points) (fed : feed limit s t = some s') : s'.Points := by
  cases s with
  | value stack => exact beginValue_points h ht fed
  | element stack =>
    have begun : ∀ f ∈ Frame.array [] :: stack, f.Points := List.forall_mem_cons.mpr ⟨trivial, h⟩
    cases t with
    | endArray =>
      cases fed
      exact ⟨h, trivial⟩
    | _ => exact @beginValue_points limit _ _ _ begun ht fed
  | member stack =>
    cases t with
    | endObject | string name =>
      cases fed
      exact ⟨h, by simp [Doc.Points, MemberPoints]⟩
    | _ => cases fed
  | name stack members =>
    cases t with
    | string name =>
      cases fed
      exact h
    | _ => cases fed
  | separator stack members name =>
    cases t with
    | nameSeparator =>
      cases fed
      exact List.forall_mem_cons.mpr ⟨h.2, h.1⟩
    | _ => cases fed
  | after stack d =>
    obtain ⟨all, hd⟩ := h
    cases stack with
    | nil => cases t <;> cases fed
    | cons f stack =>
      obtain ⟨hf, rest⟩ := List.forall_mem_cons.mp all
      cases f with
      | array elements =>
        cases t with
        | valueSeparator =>
          cases fed
          exact List.forall_mem_cons.mpr ⟨trivial, rest⟩
        | endArray =>
          cases fed
          exact ⟨rest, trivial⟩
        | _ => cases fed
      | object members name =>
        have more : MemberPoints ((name, d) :: members) := MemberPoints.cons hf name hd
        cases t with
        | valueSeparator =>
          cases fed
          exact ⟨rest, more⟩
        | endObject =>
          cases fed
          exact ⟨rest, more.reverse⟩
        | _ => cases fed

theorem foldlM_points {limit : Option Nat} {s s' : State} {ts : List Token} (h : s.Points)
    (ht : ∀ t ∈ ts, t.Points) (fed : ts.foldlM (feed limit) s = some s') : s'.Points := by
  induction ts generalizing s with
  | nil =>
    cases fed
    exact h
  | cons t ts ih =>
    obtain ⟨first, rest⟩ := List.forall_mem_cons.mp ht
    rw [List.foldlM_cons] at fed
    obtain ⟨s₁, step, later⟩ := Option.bind_eq_some_iff.mp fed
    exact ih (feed_points h first step) rest later

/-- A document has no code points that its text could not name. -/
theorem read_points {limit : Option Nat} {text : Text} {d : Doc} (points : Points text)
    (found : read limit text = some d) : d.Points := by
  obtain ⟨ts, scanned, fed⟩ := Option.bind_eq_some_iff.mp found
  obtain ⟨s, run, whole⟩ := Option.bind_eq_some_iff.mp fed
  have stack : (State.value []).Points := List.forall_mem_nil _
  have last := foldlM_points stack (scan_points (s := .between) trivial points scanned) run
  cases s with
  | after stack d' =>
    cases stack with
    | nil =>
      cases whole
      exact last.2
    | cons f stack => cases whole
  | value stack | element stack | member stack | name stack m | separator stack m n => cases whole

end Shyake.Lib.JsonText
