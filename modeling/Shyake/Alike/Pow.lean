import Mathlib.Tactic.IntervalCases
import Shyake.Alike.Window

/-!
# Proof of work on both servers

Both servers cut a token alike, and both hash it alike. They differ in how they read
three things: the length, the number of bits and the date. `ReadAlike` says where
that makes no difference, field by field, and it is where the two verifiers agree.
-/

namespace Shyake.Alike

open Go.Protocol (Near parseDate daysFromEpoch monthDays getnum digit_bounds timeAtoi_digits isLeap)
open Worker (twoDigits dateUTC monthStart)

/-! ## What both read the same way -/

def fields (token : Bytes) : List Bytes := Bytes.split 58 token

/-- The third field. -/
def date (token : Bytes) : Bytes := (fields token).getD 2 []

/-- The token is of version 1 and names the resource, and its hash begins with 20 zero bits. -/
structure Binds (token resource : Bytes) : Prop where
  long : 7 ≤ (fields token).length
  version : (fields token).head? = some (utf8 "1")
  named : Bytes.join 58 (((fields token).drop 3).take ((fields token).length - 6)) = resource
  work : Go.Protocol.leadingZeroBits (Lib.sha1 token) 20 = true

/-! ## Length and bits -/

/-- What the Go server asks of the length and of the bits. -/
structure GoTakes (token : Bytes) : Prop where
  length : token.length ≤ 256
  bits : ∃ n, Go.parseInt ((fields token).getD 1 []) = some n ∧ 20 ≤ n

/-- What the Worker asks of them. -/
structure WorkerTakes (token : Bytes) : Prop where
  length : Worker.length token ≤ 256
  bits : ∃ n, Worker.parseInt ((fields token).getD 1 []) = some n ∧ 20 ≤ n

/-! ## Dates -/

/-- The day a date names on the Worker. -/
def workerDay (date : Bytes) : Int :=
  dateUTC (2000 + twoDigits date) (twoDigits (date.drop 2) - 1) (twoDigits (date.drop 4))

def SixDigits (date : Bytes) : Prop := date.length = 6 ∧ date.all isDigit = true

/-- Six digits that name a day of the years 2000 to 2068. -/
structure Plain (date : Bytes) : Prop where
  digits : SixDigits date
  year : twoDigits date ≤ 68
  month : 1 ≤ twoDigits (date.drop 2) ∧ twoDigits (date.drop 2) ≤ 12
  day : 1 ≤ twoDigits (date.drop 4) ∧ twoDigits (date.drop 4) ≤
    ((monthDays (2000 + twoDigits date)).getD ((twoDigits (date.drop 2)).toNat - 1) 0 : Nat)

/-- A date of six digits, with the numbers it is made of. -/
structure Read (date : Bytes) (y m d : Nat) : Prop where
  year : twoDigits date = y
  month : twoDigits (date.drop 2) = m
  day : twoDigits (date.drop 4) = d
  small : y < 100
  parsed : parseDate date =
    let year : Int := if (y : Int) ≥ 69 then y + 1900 else y + 2000
    if m = 0 ∨ m > 12 then none
    else if d < 1 ∨ d > (monthDays year).getD (m - 1) 0 then none
    else some (daysFromEpoch year m d)

theorem twoDigits_cons {a b : UInt8} (ha : isDigit a = true) (hb : isDigit b = true) (rest : Bytes) :
    twoDigits (a :: b :: rest) = ((a.toNat - 48) * 10 + (b.toNat - 48) : Nat) := by
  unfold twoDigits Worker.leadingDigits
  have taken : (a :: b :: rest).take 2 = [a, b] := rfl
  have digits : [a, b].takeWhile isDigit = [a, b] := by simp [ha, hb]
  rw [taken, digits]
  simp only [List.foldl_cons, List.foldl_nil, Option.getD_some, Nat.mul_zero, Nat.zero_add]
  omega

theorem read_of_sixDigits {date : Bytes} (h : SixDigits date) : ∃ y m d, Read date y m d := by
  obtain ⟨six, digits⟩ := h
  match date, six with
  | [y₁, y₂, m₁, m₂, d₁, d₂], _ =>
    simp only [List.all_cons, List.all_nil, Bool.and_true, Bool.and_eq_true] at digits
    obtain ⟨hy₁, hy₂, hm₁, hm₂, hd₁, hd₂⟩ := digits
    have by₁ := digit_bounds hy₁
    have by₂ := digit_bounds hy₂
    refine ⟨_, _, _, twoDigits_cons hy₁ hy₂ _, twoDigits_cons hm₁ hm₂ _,
      twoDigits_cons hd₁ hd₂ _, by omega, ?_⟩
    unfold parseDate
    dsimp only
    rw [timeAtoi_digits hy₁ hy₂]
    simp only [getnum, hm₁, hm₂, hd₁, hd₂, Bool.and_self, if_true, Option.bind_eq_bind,
      Option.bind_some]

/-- The days of the months before one, counted by both. -/
theorem days_before (year : Int) {m : Nat} (month : 1 ≤ m ∧ m ≤ 12) :
    (((monthDays year).take (m - 1)).sum : Int) =
      (([31, 28 + (if year % 4 = 0 ∧ (year % 100 ≠ 0 ∨ year % 400 = 0) then 1 else 0), 31, 30, 31,
        30, 31, 31, 30, 31, 30, 31] : List Int).take (m - 1)).sum ∧
    ((monthDays year).take (m - 1)).sum ≤ 335 := by
  have leap : ((if isLeap year then 29 else 28 : Nat) : Int) =
      28 + (if year % 4 = 0 ∧ (year % 100 ≠ 0 ∨ year % 400 = 0) then 1 else 0) := by
    have same : isLeap year = true ↔ year % 4 = 0 ∧ (year % 100 ≠ 0 ∨ year % 400 = 0) := by
      simp [isLeap]
    by_cases h : year % 4 = 0 ∧ (year % 100 ≠ 0 ∨ year % 400 = 0)
    · rw [if_pos h, if_pos (same.mpr h)]
      rfl
    · rw [if_neg h, if_neg (fun yes => h (same.mp yes))]
      rfl
  have february : (if isLeap year then 29 else 28) ≤ 29 := by split <;> decide
  obtain ⟨low, high⟩ := month
  have months : monthDays year = [31, (if isLeap year then 29 else 28), 31, 30, 31, 30, 31, 31, 30,
    31, 30, 31] := rfl
  rw [← leap, months]
  generalize (if isLeap year then 29 else 28) = f at february ⊢
  interval_cases m <;> simp <;> omega

theorem daysFromEpoch_eq (year : Int) {m d : Nat} (month : 1 ≤ m ∧ m ≤ 12) (day : 1 ≤ d) :
    daysFromEpoch year m d = dateUTC year (m - 1) d := by
  have months := (days_before year month).1
  have inside : ((m : Int) - 1) / 12 = 0 ∧ ((m : Int) - 1) % 12 = (m - 1 : Nat) := by omega
  unfold daysFromEpoch dateUTC monthStart
  rw [inside.1, inside.2, Int.add_zero, Int.toNat_natCast]
  dsimp only
  rw [months]
  omega

/-- A century has more days than a year. -/
theorem century (y : Nat) {m d : Nat} (month : 1 ≤ m ∧ m ≤ 12) (day : 1 ≤ d) :
    daysFromEpoch (y + 1900) m d + 2 < dateUTC (2000 + y) (m - 1) d := by
  have before := (days_before (y + 1900) month).2
  have before' := (days_before (2000 + y) month).2
  rw [← daysFromEpoch_eq _ month day]
  unfold daysFromEpoch
  dsimp only
  omega

/-! ## One date, two readings -/

theorem plain_iff {date : Bytes} {y m d : Nat} (digits : SixDigits date) (read : Read date y m d) :
    Plain date ↔ y ≤ 68 ∧ (1 ≤ m ∧ m ≤ 12) ∧ 1 ≤ d ∧ d ≤ (monthDays (y + 2000)).getD (m - 1) 0 := by
  have year : (2000 + y : Int) = y + 2000 := Int.add_comm _ _
  constructor
  · rintro ⟨-, late, month, day⟩
    rw [read.year, read.month, read.day, Int.toNat_natCast, year] at day
    rw [read.year] at late
    rw [read.month] at month
    omega
  · rintro ⟨late, month, day⟩
    refine ⟨digits, ?_, ?_, ?_⟩
    · rw [read.year]
      omega
    · rw [read.month]
      omega
    · rw [read.year, read.month, read.day, Int.toNat_natCast, year]
      omega

/-- A plain date is the same day to both. -/
theorem parseDate_of_plain {date : Bytes} (h : Plain date) :
    parseDate date = some (workerDay date) := by
  obtain ⟨y, m, d, read⟩ := read_of_sixDigits h.digits
  obtain ⟨late, month, day⟩ := (plain_iff h.digits read).mp h
  have year : (2000 + y : Int) = y + 2000 := Int.add_comm _ _
  have recent : ¬ (y : Int) ≥ 69 := by omega
  rw [read.parsed]
  simp only [recent, if_false]
  rw [if_neg (by omega), if_neg (by omega)]
  unfold workerDay
  rw [read.year, read.month, read.day, year, daysFromEpoch_eq _ month day.1]

/-- Any other date of six digits is two days, a century apart, or none to the Go server. -/
theorem apart_of_not_plain {date : Bytes} (digits : SixDigits date) (other : ¬ Plain date) {day : Int}
    (parsed : parseDate date = some day) : day + 2 < workerDay date := by
  obtain ⟨y, m, d, read⟩ := read_of_sixDigits digits
  rw [plain_iff digits read] at other
  rw [read.parsed] at parsed
  dsimp only at parsed
  by_cases old : (y : Int) ≥ 69
  · rw [if_pos old] at parsed
    split at parsed
    · cases parsed
    rename_i month
    split at parsed
    · cases parsed
    rename_i inside
    rw [← Option.some.inj parsed]
    unfold workerDay
    rw [read.year, read.month, read.day]
    exact century y (by omega) (by omega)
  · rw [if_neg old] at parsed
    have sane : ¬ (m = 0 ∨ m > 12) := by
      intro bad
      rw [if_pos bad] at parsed
      cases parsed
    rw [if_neg sane] at parsed
    have inside : ¬ (d < 1 ∨ d > (monthDays (y + 2000)).getD (m - 1) 0) := by
      intro bad
      rw [if_pos bad] at parsed
      cases parsed
    exact absurd ⟨by omega, by omega, by omega⟩ other

/-! ## Zero bits -/

theorem bits_table : ∀ n : Fin 256,
    (Worker.bits (UInt8.ofNat n) = List.replicate 8 false ↔ UInt8.ofNat n = 0) ∧
    ((Worker.bits (UInt8.ofNat n)).take 4 = List.replicate 4 false ↔
      (UInt8.ofNat n).toNat >>> 4 = 0) := by
  decide +kernel

theorem bits_zero (c : UInt8) : Worker.bits c = List.replicate 8 false ↔ c = 0 := by
  simpa only [UInt8.ofNat_toNat] using (bits_table ⟨c.toNat, c.toNat_lt⟩).1

theorem bits_high (c : UInt8) :
    (Worker.bits c).take 4 = List.replicate 4 false ↔ c.toNat >>> 4 = 0 := by
  simpa only [UInt8.ofNat_toNat] using (bits_table ⟨c.toNat, c.toNat_lt⟩).2

theorem length_bits (c : UInt8) : (Worker.bits c).length = 8 := by
  unfold Worker.bits
  rw [List.length_map, List.length_range]

/-- The Worker writes the bits out and the Go server shifts: both ask for twenty zeros. -/
theorem zeroBits_iff {h : Bytes} (size : h.length = 20) :
    ((h.take 4).flatMap Worker.bits).take 20 = List.replicate 20 false ↔
      Go.Protocol.leadingZeroBits h 20 = true := by
  match h, size with
  | a :: b :: c :: d :: rest, _ =>
    have parts : (((a :: b :: c :: d :: rest).take 4).flatMap Worker.bits).take 20 =
        Worker.bits a ++ (Worker.bits b ++ (Worker.bits c).take 4) := by
      simp only [List.take_succ_cons, List.take_zero, List.flatMap_cons, List.flatMap_nil,
        List.append_nil]
      rw [List.take_append, List.take_append, List.take_append, length_bits, length_bits,
        length_bits, List.take_of_length_le (by rw [length_bits]; decide),
        List.take_of_length_le (by rw [length_bits]; decide)]
      simp
    have zeros : List.replicate 20 false =
        List.replicate 8 false ++ (List.replicate 8 false ++ List.replicate 4 false) := rfl
    rw [parts, zeros, List.append_eq_append_iff_of_size_eq_left (length_bits a),
      List.append_eq_append_iff_of_size_eq_left (length_bits b), bits_zero, bits_zero, bits_high]
    simp [Go.Protocol.leadingZeroBits, and_assoc]

/-! ## The verifiers -/

theorem freshDate_worker (date : Bytes) (now : Go.Time) :
    Worker.freshDate date (now.ns / 1000000) = true ↔
      SixDigits date ∧ Near (workerDay date) now := by
  have today : now.ns / 1000000 / 86400000 = now.ns / 86400000000000 := by omega
  unfold Worker.freshDate SixDigits Near workerDay
  rw [today]
  by_cases digits : date.length = 6 ∧ date.all isDigit = true
  · rw [if_neg (by simp [digits])]
    generalize dateUTC (2000 + twoDigits date) (twoDigits (date.drop 2) - 1)
      (twoDigits (date.drop 4)) = day
    generalize now.ns / 86400000000000 = today
    simp only [digits, decide_eq_true_eq, true_and, and_self]
    omega
  · have refused : date.length ≠ 6 ∨ date.all isDigit = false := by
      by_cases six : date.length = 6
      · exact .inr (by simpa [six] using digits)
      · exact .inl six
    rw [if_pos refused]
    exact iff_of_false Bool.false_ne_true fun h => digits h.1

theorem go_verifies (token resource : Bytes) (now : Go.Time) :
    Go.Protocol.verifyPoW token resource now = true ↔
      Binds token resource ∧ GoTakes token ∧
        ∃ day, parseDate (date token) = some day ∧ Near day now := by
  rw [Go.Protocol.verifyPoW_iff, ← Go.Protocol.freshDate_iff]
  constructor
  · rintro ⟨short, long, version, bits, named, fresh, work⟩
    exact ⟨⟨long, version, named, work⟩, ⟨short, bits⟩, fresh⟩
  · rintro ⟨⟨long, version, named, work⟩, ⟨short, bits⟩, fresh⟩
    exact ⟨short, long, version, bits, named, fresh, work⟩

theorem worker_verifies (token resource : Bytes) (now : Go.Time) :
    Worker.verifyPoW token resource (now.ns / 1000000) = true ↔
      Binds token resource ∧ WorkerTakes token ∧
        SixDigits (date token) ∧ Near (workerDay (date token)) now := by
  rw [← freshDate_worker]
  constructor
  · intro h
    unfold Worker.verifyPoW at h
    dsimp only at h
    split at h
    · cases h
    rename_i short
    split at h
    · cases h
    rename_i shape
    split at h
    · cases h
    rename_i claimed read
    split at h
    · cases h
    rename_i enough
    split at h
    · cases h
    rename_i named
    split at h
    · cases h
    rename_i fresh
    simp only [Bool.or_eq_true, decide_eq_true_eq, bne_iff_ne, ne_eq, not_or, not_not, not_lt,
      Bool.not_eq_true', Bool.not_eq_false] at shape named fresh
    exact ⟨⟨shape.1, shape.2, named, (zeroBits_iff (Lib.length_sha1 token)).mp (beq_iff_eq.mp h)⟩,
      ⟨Nat.not_lt.mp short, claimed, read, Int.not_lt.mp enough⟩, fresh⟩
  · rintro ⟨binds, ⟨short, claimed, read, enough⟩, fresh⟩
    have shape : ¬ (decide ((Bytes.split 58 token).length < 7) ||
        (Bytes.split 58 token).head? != some (utf8 "1")) = true := by
      simp only [Bool.or_eq_true, decide_eq_true_eq, bne_iff_ne, ne_eq, not_or, not_not, not_lt]
      exact ⟨binds.long, binds.version⟩
    have named : ¬ (Bytes.join 58 (((Bytes.split 58 token).drop 3).take
        ((Bytes.split 58 token).length - 6)) != resource) = true := by
      rw [show Bytes.join 58 (((Bytes.split 58 token).drop 3).take
        ((Bytes.split 58 token).length - 6)) = resource from binds.named]
      simp
    have read : Worker.parseInt ((Bytes.split 58 token).getD 1 []) = some claimed := read
    have fresh : Worker.freshDate ((Bytes.split 58 token).getD 2 []) (now.ns / 1000000) = true :=
      fresh
    unfold Worker.verifyPoW
    rw [if_neg (Nat.not_lt.mpr short)]
    dsimp only
    rw [if_neg shape, read]
    dsimp only
    rw [if_neg (Int.not_lt.mpr enough), if_neg named, fresh]
    exact beq_iff_eq.mpr ((zeroBits_iff (Lib.length_sha1 token)).mpr binds.work)

/-- Where a token that binds the resource is read alike: its date is a plain one, and both take the
length and the bits or neither does; or its date is another, and it is not near today to the server
that would take the rest. -/
structure ReadAlike (token : Bytes) (now : Go.Time) : Prop where
  plain : Plain (date token) → Near (workerDay (date token)) now →
    (WorkerTakes token ↔ GoTakes token)
  impossible : SixDigits (date token) → ¬ Plain (date token) →
    Near (workerDay (date token)) now → ¬ WorkerTakes token
  signed : ∀ day, ¬ Plain (date token) → parseDate (date token) = some day → Near day now →
    ¬ GoTakes token

/-- **Both servers verify proof of work alike** if and only if they read the token alike, for every
token, every resource and every time. -/
theorem same_pow (token resource : Bytes) (now : Go.Time) :
    (Worker.verifyPoW token resource (now.ns / 1000000) = true ↔
      Go.Protocol.verifyPoW token resource now = true) ↔
    (Binds token resource → ReadAlike token now) := by
  rw [worker_verifies, go_verifies]
  constructor
  · intro same binds
    -- no other date of six digits is near today to both
    have apart : ∀ day, SixDigits (date token) → ¬ Plain (date token) →
        parseDate (date token) = some day → Near day now → ¬ Near (workerDay (date token)) now := by
      intro day digits other parsed near near'
      have := apart_of_not_plain digits other parsed
      unfold Near at near near'
      omega
    refine ⟨fun plain near => ⟨fun takes => ?_, fun takes => ?_⟩, fun digits other near takes => ?_,
      fun day other parsed near takes => ?_⟩
    · exact (same.mp ⟨binds, takes, plain.digits, near⟩).2.1
    · exact (same.mpr ⟨binds, takes, _, parseDate_of_plain plain, near⟩).2.1
    · obtain ⟨-, -, day, parsed, near'⟩ := same.mp ⟨binds, takes, digits, near⟩
      exact apart day digits other parsed near' near
    · obtain ⟨-, -, digits, near'⟩ := same.mpr ⟨binds, takes, day, parsed, near⟩
      exact apart day digits other parsed near near'
  · intro alike
    constructor
    · rintro ⟨binds, takes, digits, near⟩
      obtain ⟨plain, impossible, -⟩ := alike binds
      by_cases h : Plain (date token)
      · exact ⟨binds, (plain h near).mp takes, _, parseDate_of_plain h, near⟩
      · exact absurd takes (impossible digits h near)
    · rintro ⟨binds, takes, day, parsed, near⟩
      obtain ⟨plain, -, signed⟩ := alike binds
      by_cases h : Plain (date token)
      · have day_eq : workerDay (date token) = day :=
          Option.some.inj ((parseDate_of_plain h).symm.trans parsed)
        rw [← day_eq] at near
        exact ⟨binds, (plain h near).mpr takes, h.digits, near⟩
      · exact absurd takes (signed day h parsed near)

namespace Sample

/-- **"20x" bits**: the Worker reads a number off the front of the field and accepts the token, and
the Go server refuses it. -/
theorem bits_with_a_tail :
    Worker.verifyPoW (utf8 "1:20x:250610:alice::one:2ac8de") (utf8 "alice")
      ((Go.Sample.clock 0).ns / 1000000) = true ∧
    Go.Protocol.verifyPoW (utf8 "1:20x:250610:alice::one:2ac8de") (utf8 "alice")
      (Go.Sample.clock 0) = false := by
  constructor <;> decide +kernel

end Sample

end Shyake.Alike
