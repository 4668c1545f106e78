import Shyake.Go.Api.Accepting
import Shyake.Go.Api.Specs
import Shyake.Worker.Index

/-!
# The timestamp window of both servers

The Go server takes an `int64` in decimal and nothing else. The Worker reads a number
off the front of the string: it reads what the Go server reads, but also takes a
string with more behind the number, and lets every string pass that it reads no
number from.
-/

namespace Shyake.Alike

open Lib.Prog
open Go (Within inWindow window)

/-! ## Reading numbers -/

theorem skipWhiteSpace_cons {c : UInt8} (s : Bytes)
    (plain : isDigit c = true ∨ c = 43 ∨ c = 45) : Worker.skipWhiteSpace (c :: s) = c :: s := by
  have bounds : 43 ≤ c.toNat ∧ c.toNat ≤ 57 := by
    rcases plain with digit | rfl | rfl
    · unfold isDigit at digit
      simp only [Bool.and_eq_true, decide_eq_true_eq, UInt8.le_iff_toNat_le] at digit
      exact ⟨Nat.le_trans (by decide) digit.1, digit.2⟩
    · decide
    · decide
  have other : ∀ d : UInt8, (57 < d.toNat ∨ d.toNat < 43) → c ≠ d := by
    rintro d out rfl
    omega
  unfold Worker.skipWhiteSpace
  split
  iterate 6
    rename_i same
    exact absurd (List.cons.inj same).1 (other _ (by decide))
  · rename_i same
    cases same
    have white : (c == 32 || (9 ≤ c && c ≤ 13)) = false := by
      simp only [Bool.or_eq_false_iff, beq_eq_false_iff_ne, Bool.and_eq_false_iff,
        decide_eq_false_iff_not]
      refine ⟨other _ (by decide), .inr fun le => ?_⟩
      have := UInt8.le_iff_toNat_le.mp le
      have : (13 : UInt8).toNat = 13 := rfl
      omega
    rw [white]
    rfl
  · rename_i same
    cases same

theorem leadingDigits_of_parseUint {s : Bytes} {n : Nat} (h : Go.parseUint s = some n) :
    Worker.leadingDigits s = some n := by
  unfold Go.parseUint at h
  split at h
  · rename_i cond
    obtain ⟨ne, digits⟩ := cond
    have all : s.takeWhile isDigit = s :=
      List.takeWhile_eq_self_iff.mpr (List.all_eq_true.mp digits)
    cases h
    unfold Worker.leadingDigits
    rw [all]
    cases s with
    | nil => exact absurd rfl ne
    | cons c cs => rfl
  · cases h

/-- Without a sign, the digits are the number. -/
theorem parseInt_unsigned {s : Bytes} (trimmed : Worker.skipWhiteSpace s = s)
    (plus : ∀ rest, s = 43 :: rest → False) (minus : ∀ rest, s = 45 :: rest → False) :
    Worker.parseInt s = (Worker.leadingDigits s).map fun n => (n : Int) := by
  unfold Worker.parseInt
  rw [trimmed]
  split
  · exact absurd rfl (plus _)
  · exact absurd rfl (minus _)
  · cases Worker.leadingDigits s <;> rfl

/-- What the Go server reads as a number is the same number to the Worker. -/
theorem parseInt_of_strict {s : Bytes} {n : Int} (h : Go.parseInt s = some n) :
    Worker.parseInt s = some n := by
  have chars := Go.chars_of_parseInt h
  cases s with
  | nil => cases h
  | cons c cs =>
    have trimmed := skipWhiteSpace_cons cs (chars c List.mem_cons_self)
    unfold Go.parseInt at h
    split at h
    · rename_i rest same
      cases same
      obtain ⟨m, read, bound⟩ := Option.bind_eq_some_iff.mp h
      split at bound
      · cases bound
        unfold Worker.parseInt
        rw [trimmed]
        show Option.map (fun n : Int => n) ((Worker.leadingDigits cs).bind fun a => some (a : Int)) = _
        rw [leadingDigits_of_parseUint read]
        rfl
      · cases bound
    · rename_i rest same
      cases same
      obtain ⟨m, read, bound⟩ := Option.bind_eq_some_iff.mp h
      split at bound
      · cases bound
        unfold Worker.parseInt
        rw [trimmed]
        show Option.map (fun n : Int => -n) ((Worker.leadingDigits cs).bind fun a => some (a : Int)) = _
        rw [leadingDigits_of_parseUint read]
        rfl
      · cases bound
    · rename_i plus minus
      obtain ⟨m, read, bound⟩ := Option.bind_eq_some_iff.mp h
      split at bound
      · cases bound
        rw [parseInt_unsigned trimmed plus minus, leadingDigits_of_parseUint read]
        rfl
      · cases bound

/-! ## The two checks -/

/-- The Go server's check passes when the clock says `now`. -/
def GoPasses (timestamp : Bytes) (now : Go.Time) : Prop :=
  ∃ l : Go.Log, (∀ e ∈ l, e = ⟨.now, now⟩) ∧ (inWindow timestamp).Resumes l (.ret true)

/-- The Worker's check passes; its clock has milliseconds. -/
def WorkerPasses (timestamp : Bytes) (now : Go.Time) : Prop :=
  Worker.inWindow timestamp (now.ns / 1000000) = true

/-- The Go server takes the decimal integers within the window. -/
theorem goPasses_iff (timestamp : Bytes) (now : Go.Time) :
    GoPasses timestamp now ↔ Within timestamp now := by
  constructor
  · rintro ⟨l, clock, passed⟩
    unfold inWindow at passed
    split at passed
    · cases (Resumes.ret_inv passed).2
    rename_i n parsed
    rcases Resumes.ask_inv passed with ⟨-, same⟩ | ⟨reading, l', rfl, rest⟩
    · cases same
    obtain rfl : reading = now := eq_of_heq (Lib.Event.mk.inj (clock _ List.mem_cons_self)).2
    have inside := Lib.Prog.ret.inj (Resumes.ret_inv rest).2
    have inside := inside.symm
    simp only [Bool.and_eq_true, decide_eq_true_eq] at inside
    exact ⟨n, parsed, Go.within_of_int64 (Go.bounds_of_parseInt parsed) inside⟩
  · intro within
    refine ⟨_, ?_, Go.inWindow_resumes within⟩
    simp

/-- The Worker lets a string pass that it reads no number from. -/
theorem workerPasses_iff (timestamp : Bytes) (now : Go.Time) :
    WorkerPasses timestamp now ↔ ∀ n, Worker.parseInt timestamp = some n →
      -window ≤ now.unix - n ∧ now.unix - n ≤ window := by
  have clock : ((now.ns / 1000000 / 1000 : Nat) : Int) = now.unix := by
    unfold Go.Time.unix
    rw [Nat.div_div_eq_div_mul]
    rfl
  unfold WorkerPasses Worker.inWindow
  cases Worker.parseInt timestamp with
  | none => simp
  | some n =>
    simp only [Option.some.injEq, forall_eq', decide_eq_true_eq]
    rw [clock]
    unfold window
    omega

/-- **The two windows are one**, and a string passes only for a decimal integer in the window, if
and only if the string is such an integer, in or out of the window, or the number the Worker reads
off its front is out of the window. -/
theorem same_window (timestamp : Bytes) (now : Go.Time) :
    ((WorkerPasses timestamp now → Within timestamp now) ∧
      (WorkerPasses timestamp now ↔ GoPasses timestamp now)) ↔
    (Go.parseInt timestamp).isSome = true ∨
      ∃ n, Worker.parseInt timestamp = some n ∧ (now.unix - n < -window ∨ window < now.unix - n) := by
  rw [goPasses_iff, workerPasses_iff]
  cases strict : Go.parseInt timestamp with
  | some n =>
    have loose := parseInt_of_strict strict
    have same : Within timestamp now ↔ -window ≤ now.unix - n ∧ now.unix - n ≤ window := by
      constructor
      · rintro ⟨m, read, inside⟩
        obtain rfl : n = m := Option.some.inj (strict.symm.trans read)
        exact inside
      · exact fun inside => ⟨n, strict, inside⟩
    rw [same, loose]
    simp
  | none =>
    have out : ¬ Within timestamp now := by
      rintro ⟨m, read, -⟩
      rw [strict] at read
      cases read
    simp only [out, Option.isSome_none, Bool.false_eq_true, false_or, iff_false, imp_false,
      and_self, not_forall]
    constructor
    · rintro ⟨n, read, outside⟩
      exact ⟨n, read, by omega⟩
    · rintro ⟨n, read, outside⟩
      exact ⟨n, read, by omega⟩

namespace Sample

/-- **A string that is no number** passes the Worker's check, and so does one with a number in the
window at its front. -/
theorem no_number_passes :
    (WorkerPasses (utf8 "now") (Go.Sample.clock 0) ∧
      ¬ GoPasses (utf8 "now") (Go.Sample.clock 0) ∧ ¬ Within (utf8 "now") (Go.Sample.clock 0)) ∧
    WorkerPasses (utf8 "1749513600.5") (Go.Sample.clock 0) ∧
      ¬ GoPasses (utf8 "1749513600.5") (Go.Sample.clock 0) := by
  have refused : ∀ text ∈ [utf8 "now", utf8 "1749513600.5"],
      ¬ Within text (Go.Sample.clock 0) := by
    rintro text mem ⟨n, read, -⟩
    have none_ : ∀ text ∈ [utf8 "now", utf8 "1749513600.5"], Go.parseInt text = none := by decide
    rw [none_ text mem] at read
    cases read
  refine ⟨⟨?_, ?_, refused _ (by simp)⟩, ?_, ?_⟩
  · show Worker.inWindow (utf8 "now") _ = true
    decide
  · rw [goPasses_iff]
    exact refused _ (by simp)
  · show Worker.inWindow (utf8 "1749513600.5") _ = true
    decide
  · rw [goPasses_iff]
    exact refused _ (by simp)

end Sample

end Shyake.Alike
