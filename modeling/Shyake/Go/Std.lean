import Mathlib.Algebra.Order.Group.Nat
import Mathlib.Algebra.Ring.Int.Defs
import Shyake.Lib.Bytes

/-!
# The Go standard library, as the server uses it

`time.Time` as a clock reading, `strconv`, `encoding/hex`, `unicode/utf8` and the
Unicode parts of `strings`. Each function has the name it has in Go.
-/

namespace Shyake.Go

/-! ## time -/

/-- A reading of the wall clock: nanoseconds since 1970 within the range of
`UnixNano`, so that no difference of two readings overflows a `time.Duration`. -/
structure Time where
  ns : Nat
  inRange : ns < 2 ^ 63
  deriving DecidableEq

namespace Time

/-- `t.Unix()`: whole seconds, truncated. -/
def unix (t : Time) : Int := t.ns / 1000000000

/-- `t.Sub(u)` in nanoseconds. -/
def sub (t u : Time) : Int := t.ns - u.ns

instance : LE Time := ⟨fun t u => t.ns ≤ u.ns⟩
instance (t u : Time) : Decidable (t ≤ u) := inferInstanceAs (Decidable (t.ns ≤ u.ns))

theorem le_def {t u : Time} : t ≤ u ↔ t.ns ≤ u.ns := Iff.rfl

protected theorem le_refl (t : Time) : t ≤ t := Nat.le_refl _

protected theorem le_trans {t u v : Time} (h : t ≤ u) (h' : u ≤ v) : t ≤ v := Nat.le_trans h h'

end Time

/-- A `time.Duration` of `n` seconds. -/
def seconds (n : Nat) : Nat := n * 1000000000

/-- `int64` arithmetic wraps. -/
def int64 (x : Int) : Int := Int.bmod x (2 ^ 64)

/-! ## strconv -/

/-- `strconv.ParseUint` in base 10, before its range check. -/
def parseUint (s : Bytes) : Option Nat :=
  if s ≠ [] ∧ s.all isDigit = true then some (s.foldl (fun n c => 10 * n + (c.toNat - 48)) 0)
  else none

/-- `strconv.ParseInt(s, 10, 64)`, and `strconv.Atoi` with 64-bit `int`. -/
def parseInt : Bytes → Option Int
  | 43 :: s => (parseUint s).bind fun n => if n < 2 ^ 63 then some (n : Int) else none
  | 45 :: s => (parseUint s).bind fun n => if n ≤ 2 ^ 63 then some (-(n : Int)) else none
  | s => (parseUint s).bind fun n => if n < 2 ^ 63 then some (n : Int) else none

/-- `strconv.AppendInt(nil, n, 10)`. -/
def formatInt : Int → Bytes
  | .ofNat n => (Nat.toDigits 10 n).map fun c => UInt8.ofNat c.toNat
  | .negSucc n => 45 :: (Nat.toDigits 10 (n + 1)).map fun c => UInt8.ofNat c.toNat

theorem all_isDigit_of_parseUint {s : Bytes} {n : Nat} (h : parseUint s = some n) :
    ∀ c ∈ s, isDigit c = true := by
  unfold parseUint at h
  split at h
  · rename_i cond
    exact List.all_eq_true.mp cond.2
  · cases h

/-- What `ParseInt` accepts holds digits and at most a sign in front. -/
theorem chars_of_parseInt {s : Bytes} {t : Int} (h : parseInt s = some t) :
    ∀ c ∈ s, isDigit c = true ∨ c = 43 ∨ c = 45 := by
  intro c mem
  unfold parseInt at h
  split at h
  all_goals obtain ⟨n, hn, -⟩ := Option.bind_eq_some_iff.mp h
  all_goals have digits := all_isDigit_of_parseUint hn
  · rcases List.mem_cons.mp mem with rfl | mem
    · exact .inr (.inl rfl)
    · exact .inl (digits c mem)
  · rcases List.mem_cons.mp mem with rfl | mem
    · exact .inr (.inr rfl)
    · exact .inl (digits c mem)
  · exact .inl (digits c mem)

/-- An accepted integer is an `int64`. -/
theorem bounds_of_parseInt {s : Bytes} {t : Int} (h : parseInt s = some t) :
    -2 ^ 63 ≤ t ∧ t < 2 ^ 63 := by
  unfold parseInt at h
  split at h
  all_goals obtain ⟨n, -, hn⟩ := Option.bind_eq_some_iff.mp h
  all_goals
    split at hn
    · cases hn
      constructor <;> omega
    · cases hn

private theorem digitByte_injective {a b : Char} (ha : a.isDigit = true) (hb : b.isDigit = true)
    (h : UInt8.ofNat a.toNat = UInt8.ofNat b.toNat) : a = b := by
  simp only [Char.isDigit, Bool.and_eq_true, decide_eq_true_eq] at ha hb
  have la : a.toNat ≤ 57 := ha.2
  have lb : b.toNat ≤ 57 := hb.2
  have e := congrArg UInt8.toNat h
  simp only [UInt8.toNat_ofNat'] at e
  exact Char.toNat_inj.mp (by omega)

private theorem digitBytes_injective {l m : List Char} (hl : ∀ c ∈ l, c.isDigit = true)
    (hm : ∀ c ∈ m, c.isDigit = true)
    (h : l.map (fun c => UInt8.ofNat c.toNat) = m.map (fun c => UInt8.ofNat c.toNat)) : l = m := by
  induction l generalizing m with
  | nil => cases m with
    | nil => rfl
    | cons b m => cases h
  | cons a l ih => cases m with
    | nil => cases h
    | cons b m =>
      simp only [List.map_cons, List.cons.injEq] at h
      rw [digitByte_injective (hl a List.mem_cons_self) (hm b List.mem_cons_self) h.1,
        ih (fun c mem => hl c (List.mem_cons_of_mem _ mem))
          (fun c mem => hm c (List.mem_cons_of_mem _ mem)) h.2]

private theorem decimal_injective {n m : Nat}
    (h : (Nat.toDigits 10 n).map (fun c => UInt8.ofNat c.toNat) =
      (Nat.toDigits 10 m).map (fun c => UInt8.ofNat c.toNat)) : n = m := by
  have digits : ∀ k, ∀ c ∈ Nat.toDigits 10 k, c.isDigit = true :=
    fun _ _ => Nat.isDigit_of_mem_toDigits (by omega) (by omega)
  have e := congrArg (Nat.ofDigitChars 10 · 0) (digitBytes_injective (digits n) (digits m) h)
  simpa only [Nat.ofDigitChars_ten_toDigits] using e

private theorem decimal_head (n : Nat) :
    ((Nat.toDigits 10 n).map fun c => UInt8.ofNat c.toNat).head? ≠ some 45 := by
  intro h
  rw [List.head?_map, Option.map_eq_some_iff] at h
  obtain ⟨c, hc, e⟩ := h
  have digit : c.isDigit = true :=
    Nat.isDigit_of_mem_toDigits (b := 10) (by omega) (by omega) (List.mem_of_head? hc)
  simp only [Char.isDigit, Bool.and_eq_true, decide_eq_true_eq] at digit
  have lower : 48 ≤ c.toNat := digit.1
  have upper : c.toNat ≤ 57 := digit.2
  have e := congrArg UInt8.toNat e
  simp only [UInt8.toNat_ofNat'] at e
  have : c.toNat % 256 = 45 := e
  omega

/-- Decimal notation is unambiguous. -/
theorem formatInt_injective : Function.Injective formatInt := by
  intro x y h
  cases x with
  | ofNat n => cases y with
    | ofNat m => rw [decimal_injective h]
    | negSucc m => exact absurd (congrArg List.head? h) (decimal_head n)
  | negSucc n => cases y with
    | ofNat m => exact absurd (congrArg List.head? h.symm) (decimal_head m)
    | negSucc m =>
      have e := decimal_injective (List.cons.inj h).2
      rw [Nat.add_right_cancel e]

/-! ## encoding/hex -/

def hexDigits : Bytes := utf8 "0123456789abcdef"

/-- `hex[n]` for a half byte. -/
def hexDigit (n : UInt8) : UInt8 := hexDigits.getD n.toNat 0

/-- `hex.EncodeToString`. -/
def hexEncode (b : Bytes) : Bytes :=
  b.flatMap fun c : UInt8 => [hexDigit (c >>> 4), hexDigit (c &&& 15)]

theorem length_hexEncode (b : Bytes) : (hexEncode b).length = 2 * b.length := by
  induction b with
  | nil => rfl
  | cons c cs ih =>
    simp only [hexEncode, List.flatMap_cons, List.length_append, List.length_cons,
      List.length_nil] at ih ⊢
    omega

/-! ## unicode/utf8 -/

/-- A continuation byte within the bounds the first byte sets for it. -/
def within (lo hi : UInt8) : Bytes → Bool
  | c :: _ => lo ≤ c && c ≤ hi
  | [] => false

/-- The bounds of the second byte and the length of a rune, by its first byte. -/
def first (c : UInt8) : Option (Nat × UInt8 × UInt8) :=
  if 0xc2 ≤ c ∧ c ≤ 0xdf then some (2, 0x80, 0xbf)
  else if c = 0xe0 then some (3, 0xa0, 0xbf)
  else if c = 0xed then some (3, 0x80, 0x9f)
  else if 0xe1 ≤ c ∧ c ≤ 0xef then some (3, 0x80, 0xbf)
  else if c = 0xf0 then some (4, 0x90, 0xbf)
  else if c = 0xf4 then some (4, 0x80, 0x8f)
  else if 0xf1 ≤ c ∧ c ≤ 0xf3 then some (4, 0x80, 0xbf)
  else none

/-- `utf8.DecodeRuneInString`: the rune at the front and its size; an invalid
encoding is one byte of `RuneError`. -/
def decodeRune : Bytes → Nat × Nat
  | [] => (0xfffd, 0)
  | c :: cs =>
    if c < 0x80 then (c.toNat, 1)
    else match first c with
      | none => (0xfffd, 1)
      | some (n, lo, hi) =>
        if within lo hi cs = false then (0xfffd, 1)
        else if n = 2 then ((c.toNat - 0xc0) * 64 + (cs.getD 0 0).toNat % 64, 2)
        else if within 0x80 0xbf (cs.drop 1) = false then (0xfffd, 1)
        else if n = 3 then
          ((c.toNat - 0xe0) * 4096 + (cs.getD 0 0).toNat % 64 * 64 + (cs.getD 1 0).toNat % 64, 3)
        else if within 0x80 0xbf (cs.drop 2) = false then (0xfffd, 1)
        else ((c.toNat - 0xf0) * 262144 + (cs.getD 0 0).toNat % 64 * 4096 +
          (cs.getD 1 0).toNat % 64 * 64 + (cs.getD 2 0).toNat % 64, 4)

/-! ## strings, where Unicode matters -/

/-- `unicode.ToLower` of a rune that is not ASCII, as far as it is ASCII again: the
dotted capital I and the Kelvin sign. Every other rune lowers to one that is not
ASCII, which no caller tells apart from the rune itself. -/
def lowerToASCII (r : Nat) : Option UInt8 :=
  if r = 0x130 then some 105 else if r = 0x212a then some 107 else none

/-- The loop of `toLower`; the number counts the bytes of the current rune still to skip. -/
def toLowerFrom : Nat → Bytes → Bytes
  | _, [] => []
  | n + 1, _ :: cs => toLowerFrom n cs
  | 0, c :: cs =>
    if c < 0x80 then (if isUpper c then c + 32 else c) :: toLowerFrom 0 cs
    else
      let (r, n) := decodeRune (c :: cs)
      match lowerToASCII r with
      | some l => l :: toLowerFrom (n - 1) cs
      | none => (c :: cs).take n ++ toLowerFrom (n - 1) cs

/-- `strings.ToLower`. -/
def toLower (s : Bytes) : Bytes := toLowerFrom 0 s

/-- The runes of a string. -/
def runesFrom : Nat → Bytes → List Nat
  | _, [] => []
  | n + 1, _ :: cs => runesFrom n cs
  | 0, c :: cs => let (r, n) := decodeRune (c :: cs); r :: runesFrom (n - 1) cs

/-- The fold of a rune that some ASCII letter folds to as well. -/
def foldRune (r : Nat) : Nat :=
  if 65 ≤ r ∧ r ≤ 90 then r + 32 else if r = 0x17f then 115 else if r = 0x212a then 107 else r

/-- `strings.EqualFold(s, t)` for an ASCII string `s`. -/
def equalFold (s t : Bytes) : Bool := (runesFrom 0 s).map foldRune = (runesFrom 0 t).map foldRune

end Shyake.Go
