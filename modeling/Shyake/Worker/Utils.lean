import Mathlib.Algebra.Ring.Int.Defs
import Shyake.Lib.Program
import Shyake.Lib.Sha

/-!
# The Worker's helpers (`server/cf/src/utils.ts`)

A JavaScript string is carried as its UTF-8 bytes. Cutting at an "@" and comparing
mean the same on either; where the length in UTF-16 code units matters it is `length`.
-/

namespace Shyake.Worker

/-! ## Strings and numbers -/

/-- `s.length`: a character outside the basic plane counts twice. -/
def length (s : Bytes) : Nat :=
  (s.filter fun c => !(0x80 ≤ c && c ≤ 0xbf)).length + (s.filter fun c => 0xf0 ≤ c).length

/-- White space at the front of a string, by its bytes. -/
def skipWhiteSpace : Bytes → Bytes
  | 0xc2 :: 0xa0 :: s => skipWhiteSpace s
  | 0xef :: 0xbb :: 0xbf :: s => skipWhiteSpace s
  | 0xe1 :: 0x9a :: 0x80 :: s => skipWhiteSpace s
  | 0xe2 :: 0x80 :: c :: s =>
    if (0x80 ≤ c && c ≤ 0x8a) || c == 0xa8 || c == 0xa9 || c == 0xaf then skipWhiteSpace s
    else 0xe2 :: 0x80 :: c :: s
  | 0xe2 :: 0x81 :: 0x9f :: s => skipWhiteSpace s
  | 0xe3 :: 0x80 :: 0x80 :: s => skipWhiteSpace s
  | c :: s => if c == 32 || (9 ≤ c && c ≤ 13) then skipWhiteSpace s else c :: s
  | [] => []

/-- The value of the digits at the front. -/
def leadingDigits (s : Bytes) : Option Nat :=
  match s.takeWhile isDigit with
  | [] => none
  | digits => some (digits.foldl (fun n c => 10 * n + (c.toNat - 48)) 0)

/-- `parseInt(s, 10)`; `none` is NaN. -/
def parseInt (s : Bytes) : Option Int :=
  match skipWhiteSpace s with
  | 43 :: s => (leadingDigits s).map fun n => n
  | 45 :: s => (leadingDigits s).map fun n => -n
  | s => (leadingDigits s).map fun n => n

/-- `/^(?=.*[a-zA-Z])[a-zA-Z0-9_]{4,16}$/`. -/
def isValidUsername (username : Bytes) : Bool :=
  4 ≤ username.length && username.length ≤ 16 &&
    username.all (fun c => isLower c || isUpper c || isDigit c || c == 95) &&
    username.any fun c => isLower c || isUpper c

/-! ## Proof of work -/

/-- Days from 1970-01-01 to the first day of a month. -/
def monthStart (year month : Int) : Int :=
  let y := year - 1
  let leap : Int := if year % 4 = 0 ∧ (year % 100 ≠ 0 ∨ year % 400 = 0) then 1 else 0
  365 * y + y / 4 - y / 100 + y / 400 - 719162 +
    (([31, 28 + leap, 31, 30, 31, 30, 31, 31, 30, 31, 30, 31] : List Int).take month.toNat).sum

/-- `Date.UTC(year, month, day)` in days; a month past December is one of the next year. -/
def dateUTC (year month day : Int) : Int :=
  monthStart (year + month / 12) (month % 12) + (day - 1)

/-- The number that two digits make. -/
def twoDigits (s : Bytes) : Int := ((leadingDigits (s.take 2)).getD 0 : Nat)

/-- Within one day of today (UTC); `now` is `Date.now()`. -/
def freshDate (yymmdd : Bytes) (now : Nat) : Bool :=
  if yymmdd.length ≠ 6 ∨ yymmdd.all isDigit = false then false
  else
    let day := dateUTC (2000 + twoDigits yymmdd) (twoDigits (yymmdd.drop 2) - 1)
      (twoDigits (yymmdd.drop 4))
    let today : Int := (now / 86400000 : Nat)
    (day - today).natAbs ≤ 1

/-- The bits of a byte, the high one first. -/
def bits (c : UInt8) : List Bool := (List.range 8).map fun i => c.toNat.testBit (7 - i)

/-- `verifyPoW` with the default of 20 bits. -/
def verifyPoW (hashcash resource : Bytes) (now : Nat) : Bool :=
  if length hashcash > 256 then false
  else
    let parts := Bytes.split 58 hashcash
    let n := parts.length
    if n < 7 || parts.head? != some (utf8 "1") then false
    else match parseInt (parts.getD 1 []) with
      | none => false
      | some claimedBits =>
        if claimedBits < 20 then false
        else if Bytes.join 58 ((parts.drop 3).take (n - 6)) != resource then false
        else if !freshDate (parts.getD 2 []) now then false
        else (((Lib.sha1 hashcash).take 4).flatMap bits).take 20 == List.replicate 20 false

/-! ## Addresses -/

/-- `String.prototype.toLowerCase`. No character but "@" itself lowers to "@". -/
structure Lowering where
  toLowerCase : Bytes → Bytes
  at_mem : ∀ s, 64 ∈ toLowerCase s ↔ 64 ∈ s

variable (lowering : Lowering)

def normalizeAddress (addr instanceDomain : Bytes) : Bytes :=
  match Bytes.cut 64 addr with
  | (_, none) => if addr.contains 46 then lowering.toLowerCase addr else addr
  | (local_, some rest) =>
    let domain := lowering.toLowerCase rest
    if domain = lowering.toLowerCase instanceDomain then local_ else local_ ++ 64 :: domain

def addressDomain (addr instanceDomain : Bytes) : Bytes :=
  match Bytes.cut 64 addr with
  | (_, none) =>
    if addr.contains 46 then lowering.toLowerCase addr else lowering.toLowerCase instanceDomain
  | (_, some rest) => lowering.toLowerCase rest

end Shyake.Worker
