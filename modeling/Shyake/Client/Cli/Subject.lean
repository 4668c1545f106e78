import Shyake.Client.CJson
import Shyake.Client.Cli.Text
import Shyake.Client.Pow
import Shyake.Lib.Utf8

/-!
# Subjects (`subject_problem`, `reply_subject`)

The subject of a reply is cut to what a mail may have. It is read byte by byte from the end of what
fits, and a read outside the string, its NUL included, is `none`.
-/

namespace Shyake.Client

open CJson (tolower)
open Utf8 (continuation WellFormed)

/-- `strncasecmp(s, t, n) == 0`. -/
def sameFront (s t : Bytes) (n : Nat) : Bool := (s.take n).map tolower == (t.take n).map tolower

/-- The byte at `i` of a C string. -/
def byteAt (s : Bytes) (i : Nat) : Option UInt8 := (s ++ [0])[i]?

/-- Why a subject cannot be sent, or `none` when it can. -/
def subjectProblem (subject : Option Bytes) : Option Bytes :=
  match subject.filter (· ≠ []) with
  | none => some (utf8 "The subject cannot be empty.")
  | some subject =>
    if subject.length > 128 then some (utf8 "The subject cannot exceed 128 bytes.")
    else if subject.any (fun p => !isspace p) then none
    else some (utf8 "The subject cannot be only whitespace.")

/-- `prefix`. -/
def replyFront (orig : Bytes) : Bytes := if sameFront orig (utf8 "Re:") 3 then [] else utf8 "Re: "

/-- The loop of `reply_subject`, with `k` for `strlen(prefix)`. -/
def walkBack (orig : Bytes) (k : Nat) : Nat → Option Nat
  | 0 => some 0
  | n + 1 =>
    if n + 1 > k then
      match byteAt orig (n + 1 - k) with
      | none => none
      | some c => if continuation c then walkBack orig k n else some (n + 1)
    else some (n + 1)

def replySubject (orig : Bytes) : Option Bytes :=
  let front := replyFront orig
  let n := front.length + orig.length
  (if n > 128 then walkBack orig front.length 128 else some n).map fun n =>
    snprintf (n + 1) (front ++ orig)

/-! ## The walk -/

/-- The walk stays in the string, and goes back over bytes that continue a character to one that
does not, or to the front. -/
theorem walkBack_spec (orig : Bytes) (k n : Nat) (inside : n ≤ k + orig.length) :
    ∃ m, walkBack orig k n = some m ∧ m ≤ n ∧ (k ≤ n → k ≤ m) ∧
      (∀ i, m < i → i ≤ n → ∀ c, byteAt orig (i - k) = some c → continuation c = true) ∧
      (k < m → ∀ c, byteAt orig (m - k) = some c → continuation c = false) := by
  induction n with
  | zero => exact ⟨0, rfl, by omega, by omega, by omega, by omega⟩
  | succ n ih =>
    unfold walkBack
    by_cases beyond : n + 1 > k
    · obtain ⟨c, hc⟩ : ∃ c, byteAt orig (n + 1 - k) = some c := by
        unfold byteAt
        rw [List.getElem?_eq_getElem (by simp; omega)]
        exact ⟨_, rfl⟩
      rw [if_pos beyond, hc]
      dsimp only
      by_cases follows : continuation c = true
      · obtain ⟨m, eq, le, low, between, stop⟩ := ih (by omega)
        rw [if_pos follows]
        refine ⟨m, eq, by omega, by omega, fun i lo hi x hx => ?_, stop⟩
        rcases Nat.lt_or_eq_of_le hi with hi | rfl
        · exact between i lo (by omega) x hx
        · rw [hc] at hx
          cases hx
          exact follows
      · rw [if_neg follows]
        refine ⟨n + 1, rfl, le_refl _, id, by omega, fun _ x hx => ?_⟩
        rw [hc] at hx
        cases hx
        exact Bool.eq_false_iff.mpr follows
    · rw [if_neg beyond]
      exact ⟨n + 1, rfl, le_refl _, id, by omega, by omega⟩

/-! ## The subject of a reply -/

/-- A string that starts with "Re:" in any letter case. -/
theorem re_of_sameFront {s : Bytes} (h : sameFront s (utf8 "Re:") 3 = true) :
    ∃ a b t, s = a :: b :: 58 :: t ∧ (a = 82 ∨ a = 114) ∧ (b = 69 ∨ b = 101) := by
  have lower : ∀ c d : UInt8, tolower c = d → c = d ∨ c = d - 32 := by
    intro c d h
    unfold tolower at h
    split at h
    · right
      rw [← h]
      simp
    · exact .inl h
  have text : ((utf8 "Re:").take 3).map tolower = [114, 101, 58] := by decide
  unfold sameFront at h
  rw [text, beq_iff_eq] at h
  match s, h with
  | [], h | [_], h | [_, _], h => simp at h
  | a :: b :: c :: t, h =>
    simp only [List.take_succ_cons, List.take_zero, List.map_cons, List.map_nil, List.cons.injEq,
      and_true] at h
    obtain ⟨ha, hb, hc⟩ := h
    have colon : c = 58 := by
      unfold tolower at hc
      split at hc
      · rename_i upper
        rcases lower c 58 (by simp [tolower, upper, hc]) with rfl | rfl
        · rfl
        · exact absurd upper (by decide)
      · exact hc
    subst colon
    exact ⟨a, b, t, rfl, (lower a _ ha).symm, (lower b _ hb).symm⟩

theorem sameFront_of_re {a b : UInt8} (ha : a = 82 ∨ a = 114) (hb : b = 69 ∨ b = 101) (t : Bytes) :
    sameFront (a :: b :: 58 :: t) (utf8 "Re:") 3 = true := by
  rcases ha with rfl | rfl <;> rcases hb with rfl | rfl <;> rfl

/-- With its prefix every subject starts with "Re:". -/
theorem replyFront_re (s : Bytes) :
    ∃ a b t, replyFront s ++ s = a :: b :: 58 :: t ∧ (a = 82 ∨ a = 114) ∧ (b = 69 ∨ b = 101) := by
  unfold replyFront
  split
  · rename_i h
    exact re_of_sameFront h
  · exact ⟨82, 101, 32 :: s, rfl, .inl rfl, .inr rfl⟩

theorem wellFormed_re {a b : UInt8} (ha : a = 82 ∨ a = 114) (hb : b = 69 ∨ b = 101) :
    WellFormed [a, b, 58] := by
  rcases ha with rfl | rfl <;> rcases hb with rfl | rfl
  · exact ⟨['R', 'E', ':'], by decide⟩
  · exact ⟨['R', 'e', ':'], by decide⟩
  · exact ⟨['r', 'E', ':'], by decide⟩
  · exact ⟨['r', 'e', ':'], by decide⟩

theorem wellFormed_replyFront (s : Bytes) : WellFormed (replyFront s) := by
  unfold replyFront
  split
  · exact ⟨[], rfl⟩
  · exact ⟨['R', 'e', ':', ' '], by decide⟩

/-- `r` is the longest well-formed front of `full` within 128 bytes. -/
structure LongestFront (full r : Bytes) : Prop where
  front : r <+: full
  wellFormed : WellFormed r
  fits : r.length ≤ 128
  longest : ∀ p, p <+: full → WellFormed p → p.length ≤ 128 → p.length ≤ r.length

theorem replySubject_longest {s : Bytes} (utf : WellFormed s) :
    ∃ r, replySubject s = some r ∧ LongestFront (replyFront s ++ s) r := by
  have full : WellFormed (replyFront s ++ s) := (wellFormed_replyFront s).append utf
  have short : (replyFront s).length ≤ 4 := by
    unfold replyFront
    split <;> decide
  unfold replySubject
  dsimp only
  generalize replyFront s = front at *
  by_cases fits : front.length + s.length > 128
  · obtain ⟨m, eq, le, low, between, stop⟩ := walkBack_spec s front.length 128 (by omega)
    have low := low (by omega)
    have at_ : ∀ i, front.length ≤ i → ∀ c, (front ++ s)[i]? = some c →
        byteAt s (i - front.length) = some c := by
      intro i hi c hc
      rw [List.getElem?_append_right hi] at hc
      unfold byteAt
      rw [List.getElem?_append_left (List.getElem?_eq_some_iff.mp hc).1]
      exact hc
    have cut : WellFormed ((front ++ s).take m) := by
      apply WellFormed.take full
      intro c hc
      rcases Nat.lt_or_eq_of_le low with low | rfl
      · exact stop low c (at_ m (by omega) c hc)
      · rw [List.getElem?_append_right (le_refl _), Nat.sub_self] at hc
        obtain ⟨t, rfl⟩ : ∃ t, s = c :: t := by
          cases s with
          | nil => cases hc
          | cons b t =>
            cases hc
            exact ⟨t, rfl⟩
        exact utf.head
    have len : ((front ++ s).take m).length = m := by
      rw [List.length_take, List.length_append]
      omega
    rw [if_pos fits, eq]
    refine ⟨_, rfl, ⟨List.take_prefix _ _, cut, ?_, ?_⟩⟩
    · show ((front ++ s).take m).length ≤ 128
      omega
    · intro p hp wf hlen
      show p.length ≤ ((front ++ s).take m).length
      rw [len]
      apply Utf8.length_le_of_front full wf hp hlen
      · intro i lo hi c hc
        exact between i lo hi c (at_ i (by omega) c hc)
      · rw [List.length_append]
        omega
      · rw [List.length_append]
        omega
  · rw [if_neg fits]
    have whole : snprintf (front.length + s.length + 1) (front ++ s) = front ++ s := by
      apply List.take_of_length_le
      rw [List.length_append]
      omega
    refine ⟨_, congrArg some whole, ?_⟩
    refine ⟨List.prefix_refl _, full, ?_, fun p hp _ _ => hp.length_le⟩
    rw [List.length_append]
    omega

/-- The longest front still starts with "Re:". -/
theorem LongestFront.re {s r : Bytes} (h : LongestFront (replyFront s ++ s) r) :
    ∃ a b t, r = a :: b :: 58 :: t ∧ (a = 82 ∨ a = 114) ∧ (b = 69 ∨ b = 101) := by
  obtain ⟨a, b, t, eq, ha, hb⟩ := replyFront_re s
  have long : [a, b, 58].length ≤ r.length := by
    apply h.longest _ _ (wellFormed_re ha hb) (by simp)
    rw [eq]
    exact ⟨t, rfl⟩
  obtain ⟨u, hu⟩ := h.front
  rw [eq] at hu
  match r, long, hu with
  | [], long, _ | [_], long, _ | [_, _], long, _ => simp at long
  | x :: y :: z :: v, _, hu =>
    cases hu
    exact ⟨_, _, v, rfl, ha, hb⟩

/-- For every well-formed subject the subject of a reply is the longest part of it within 128 bytes,
made without a read outside it; it can be sent, and answering it again leaves it as it is. -/
theorem reply_subjects {s : Bytes} (nul_free : NulFree s) (utf : WellFormed s) :
    ∃ r, replySubject s = some r ∧ NulFree r ∧ LongestFront (replyFront s ++ s) r ∧
      subjectProblem (some r) = none ∧ replySubject r = some r := by
  obtain ⟨r, eq, longest⟩ := replySubject_longest utf
  obtain ⟨a, b, t, re, ha, hb⟩ := longest.re
  have fits := longest.fits
  refine ⟨r, eq, ?_, longest, ?_, ?_⟩
  · intro zero
    have := longest.front.subset zero
    rcases List.mem_append.mp this with inFront | inSubject
    · unfold replyFront at inFront
      split at inFront
      · cases inFront
      · exact absurd inFront (by decide)
    · exact nul_free inSubject
  · have visible : isspace a = false := by rcases ha with rfl | rfl <;> decide
    have some_ : (some r).filter (· ≠ []) = some r := by simp [re]
    have readable : r.any (fun p => !isspace p) = true := by simp [re, visible]
    unfold subjectProblem
    rw [some_]
    dsimp only
    rw [if_neg (by omega), if_pos readable]
  · have none : replyFront r = [] := by
      unfold replyFront
      rw [re, if_pos (sameFront_of_re ha hb t)]
    unfold replySubject
    simp only [none, List.nil_append, List.length_nil, Nat.zero_add]
    rw [if_neg (by omega)]
    simp [snprintf]

namespace Sample

theorem reply_to_greeting : ∃ r, replySubject (utf8 "Grüße") = some r ∧ NulFree r ∧
    LongestFront (replyFront (utf8 "Grüße") ++ utf8 "Grüße") r ∧
      subjectProblem (some r) = none ∧ replySubject r = some r :=
  reply_subjects (by decide) ⟨['G', 'r', 'ü', 'ß', 'e'], by decide⟩

end Sample

end Shyake.Client
