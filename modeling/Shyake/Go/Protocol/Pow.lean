import Shyake.Lib.Sha
import Shyake.Go.Std

/-!
# Proof of work (`internal/protocol/pow.go`)

A Hashcash v1 token `1:<bits>:<yymmdd>:<resource>::<rand>:<counter-hex>`. The
date goes through `time.Parse("060102", ..)`: the year is two bytes read by the
package's own `atoi`, which takes a sign, month and day are two digits each.
-/

namespace Shyake.Go.Protocol

def powBits : Nat := 20

def maxPoWLen : Nat := 256

/-! ## time.Parse("060102") -/

/-- `atoi` of package `time`. -/
def timeAtoi (s : Bytes) : Option Int :=
  let digits := match s with
    | 43 :: r => r
    | 45 :: r => r
    | r => r
  if digits.all isDigit then
    let x : Int := (digits.foldl (fun n c => 10 * n + (c.toNat - 48)) 0 : Nat)
    some (if s.head? = some 45 then -x else x)
  else none

/-- `getnum` with exactly two digits. -/
def getnum (a b : UInt8) : Option Nat :=
  if isDigit a && isDigit b then some ((a.toNat - 48) * 10 + (b.toNat - 48)) else none

def isLeap (year : Int) : Bool := year % 4 == 0 && (year % 100 != 0 || year % 400 == 0)

/-- The days of the months of a year. -/
def monthDays (year : Int) : List Nat :=
  [31, if isLeap year then 29 else 28, 31, 30, 31, 30, 31, 31, 30, 31, 30, 31]

/-- Days from 1970-01-01 to a date. -/
def daysFromEpoch (year : Int) (month day : Nat) : Int :=
  let y := year - 1
  365 * y + y / 4 - y / 100 + y / 400 - 719162 +
    ((monthDays year).take (month - 1)).sum + (day - 1 : Nat)

/-- `time.Parse("060102", s)`, as the number of days from 1970-01-01. -/
def parseDate : Bytes → Option Int
  | [y₁, y₂, m₁, m₂, d₁, d₂] => do
    let yy ← timeAtoi [y₁, y₂]
    let year := if yy ≥ 69 then yy + 1900 else yy + 2000
    let month ← getnum m₁ m₂
    let day ← getnum d₁ d₂
    if month = 0 ∨ month > 12 then none
    else if day < 1 ∨ day > (monthDays year).getD (month - 1) 0 then none
    else some (daysFromEpoch year month day)
  | _ => none

theorem digit_bounds {c : UInt8} (h : isDigit c = true) : 48 ≤ c.toNat ∧ c.toNat ≤ 57 := by
  unfold isDigit at h
  simp only [Bool.and_eq_true, decide_eq_true_eq, UInt8.le_iff_toNat_le] at h
  exact h

/-- Two digits have no sign. -/
theorem timeAtoi_digits {a b : UInt8} (ha : isDigit a = true) (hb : isDigit b = true) :
    timeAtoi [a, b] = some (((a.toNat - 48) * 10 + (b.toNat - 48) : Nat) : Int) := by
  have bounds := digit_bounds ha
  unfold timeAtoi
  dsimp only
  split
  · rename_i same
    obtain rfl : a = 43 := (List.cons.inj same).1
    exact absurd bounds.1 (by decide)
  · rename_i same
    obtain rfl : a = 45 := (List.cons.inj same).1
    exact absurd bounds.1 (by decide)
  · have minus : ¬ [a, b].head? = some 45 := by
      rw [List.head?_cons, Option.some.injEq]
      rintro rfl
      exact absurd bounds.1 (by decide)
    rw [if_pos (by simp [ha, hb]), if_neg minus]
    simp only [List.foldl_cons, List.foldl_nil, Option.some.injEq]
    omega

/-! ## The token -/

/-- Yesterday, today or tomorrow (UTC). -/
def freshDate (yymmdd : Bytes) (now : Time) : Bool :=
  match parseDate yymmdd with
  | none => false
  | some d =>
    let today : Int := now.ns / (seconds 86400)
    let delta := d - today
    delta ≥ -1 && delta ≤ 1

def leadingZeroBits (h : Bytes) (bits : Nat) : Bool :=
  let full := bits / 8
  let rem := bits % 8
  (h.take full).all (· == 0) && (rem == 0 || (h.getD full 0).toNat >>> (8 - rem) == 0)

/-- `VerifyPoW`; `true` is a nil error. -/
def verifyPoW (token resource : Bytes) (now : Time) : Bool :=
  if token.length > maxPoWLen then false
  else
    let parts := Bytes.split 58 token
    let n := parts.length
    if n < 7 || parts.head? != some (utf8 "1") then false
    else match parseInt (parts.getD 1 []) with
      | none => false
      | some claimed =>
        if claimed < powBits then false
        else if Bytes.join 58 ((parts.drop 3).take (n - 6)) != resource ||
            !freshDate (parts.getD 2 []) now then false
        else leadingZeroBits (Lib.sha1 token) powBits

/-- What a token must be to be accepted. -/
structure Accepted (token resource : Bytes) (now : Time) : Prop where
  short : token.length ≤ maxPoWLen
  long : 7 ≤ (Bytes.split 58 token).length
  version : (Bytes.split 58 token).head? = some (utf8 "1")
  bits : ∃ n, parseInt ((Bytes.split 58 token).getD 1 []) = some n ∧ (powBits : Int) ≤ n
  named : Bytes.join 58 (((Bytes.split 58 token).drop 3).take
    ((Bytes.split 58 token).length - 6)) = resource
  fresh : freshDate ((Bytes.split 58 token).getD 2 []) now = true
  work : leadingZeroBits (Lib.sha1 token) powBits = true

theorem verifyPoW_iff {token resource : Bytes} {now : Time} :
    verifyPoW token resource now = true ↔ Accepted token resource now := by
  constructor
  · intro h
    unfold verifyPoW at h
    dsimp only at h
    split at h
    · cases h
    rename_i short
    split at h
    · cases h
    rename_i shape
    split at h
    · cases h
    rename_i claimed read
    split at h
    · cases h
    rename_i enough
    split at h
    · cases h
    rename_i bound
    simp only [Bool.or_eq_true, decide_eq_true_eq, bne_iff_ne, ne_eq, not_or, not_not, not_lt,
      Bool.not_eq_true', Bool.not_eq_false] at shape bound
    exact ⟨Nat.not_lt.mp short, shape.1, shape.2, ⟨claimed, read, Int.not_lt.mp enough⟩, bound.1,
      bound.2, h⟩
  · rintro ⟨short, long, version, ⟨claimed, read, enough⟩, named, fresh, work⟩
    have shape : ¬ (decide ((Bytes.split 58 token).length < 7) ||
        (Bytes.split 58 token).head? != some (utf8 "1")) = true := by
      simp only [Bool.or_eq_true, decide_eq_true_eq, bne_iff_ne, ne_eq, not_or, not_not, not_lt]
      exact ⟨long, version⟩
    have bound : ¬ (Bytes.join 58 (((Bytes.split 58 token).drop 3).take
        ((Bytes.split 58 token).length - 6)) != resource ||
        !freshDate ((Bytes.split 58 token).getD 2 []) now) = true := by
      rw [named, fresh]
      simp
    unfold verifyPoW
    rw [if_neg (Nat.not_lt.mpr short)]
    dsimp only
    rw [if_neg shape, read]
    dsimp only
    rw [if_neg (Int.not_lt.mpr enough), if_neg bound]
    exact work

/-- A token that is accepted has a fresh date. -/
theorem freshDate_of_verifyPoW {token resource : Bytes} {now : Time}
    (h : verifyPoW token resource now = true) :
    freshDate ((Bytes.split 58 token).getD 2 []) now = true :=
  (verifyPoW_iff.mp h).fresh

/-- Within one day of today (UTC). -/
def Near (day : Int) (now : Time) : Prop :=
  -1 ≤ day - (now.ns / 86400000000000 : Nat) ∧ day - (now.ns / 86400000000000 : Nat) ≤ 1

theorem freshDate_iff {date : Bytes} {now : Time} :
    freshDate date now = true ↔ ∃ day, parseDate date = some day ∧ Near day now := by
  unfold freshDate Near
  cases parseDate date with
  | none => simp
  | some day =>
    simp only [Option.some.injEq, Bool.and_eq_true, decide_eq_true_eq, exists_eq_left']
    unfold seconds
    omega

/-- Two times at which one date is fresh are less than three days apart. -/
theorem freshDate_span {date : Bytes} {now later : Time} (h : freshDate date now = true)
    (h' : freshDate date later = true) : later.ns < now.ns + seconds (72 * 3600) := by
  unfold freshDate at h h'
  cases parsed : parseDate date with
  | none =>
    rw [parsed] at h
    cases h
  | some d =>
    rw [parsed] at h h'
    simp only [Bool.and_eq_true, decide_eq_true_eq] at h h'
    unfold seconds at *
    omega

/-- A leap day, a day no month has, and a signed year. -/
example : parseDate (utf8 "240229") = some 19782 ∧ parseDate (utf8 "230229") = none ∧
    parseDate (utf8 "+50101") = some 12784 := by decide

end Shyake.Go.Protocol
