import Mathlib.Algebra.Order.Field.Basic
import Mathlib.Data.Nat.Cast.Order.Field
import Mathlib.Tactic.Linarith
import Mathlib.Tactic.Ring

/-!
# Token buckets

A bucket holds at most `burst` tokens and is filled at `rate`. Whatever is taken from it one token
at a time, never without one, is taken at most `burst + rate * length` times in any interval.
-/

namespace Shyake.TokenBucket

variable {K : Type*} [Field K] [LinearOrder K] {rate burst : K}

/-- What a bucket with `tokens` holds after a time. -/
def level (rate burst tokens elapsed : K) : K := min burst (tokens + rate * elapsed)

theorem level_le_burst (tokens elapsed : K) : level rate burst tokens elapsed ≤ burst :=
  min_le_left _ _

section

variable [IsStrictOrderedRing K]

theorem level_nonneg (filled : 0 ≤ rate) (holds : 0 ≤ burst) {tokens elapsed : K}
    (h : 0 ≤ tokens) (h' : 0 ≤ elapsed) : 0 ≤ level rate burst tokens elapsed :=
  le_min holds (add_nonneg h (mul_nonneg filled h'))

/-- A level rises no faster than at the rate. -/
theorem level_later (filled : 0 ≤ rate) (tokens : K) {elapsed elapsed' d : K} (hd : 0 ≤ d)
    (h : elapsed' ≤ elapsed + d) :
    level rate burst tokens elapsed' ≤ level rate burst tokens elapsed + rate * d := by
  have more : 0 ≤ rate * d := mul_nonneg filled hd
  have rises : rate * elapsed' ≤ rate * elapsed + rate * d := by
    rw [← mul_add]
    exact mul_le_mul_of_nonneg_left h filled
  unfold level
  rw [← min_add_add_right]
  apply min_le_min
  · linarith
  · linarith

/-- A bucket that has been filled long enough is full. -/
theorem level_full {tokens elapsed : K} (h : 0 ≤ tokens) (long : burst ≤ rate * elapsed) :
    level rate burst tokens elapsed = burst :=
  min_eq_left (by linarith)

end

/-- What is asked of the bucket at a time, and whether a token was taken. -/
structure Event (K : Type*) where
  time : K
  taken : Bool

def Event.cost (e : Event K) : K := if e.taken then 1 else 0

theorem Event.cost_if_le [IsStrictOrderedRing K] (e : Event K) (p : Prop) [Decidable p] :
    (if p then e.cost else 0) ≤ e.cost := by
  have : 0 ≤ e.cost := by
    unfold Event.cost
    split <;> simp
  split
  · exact le_refl _
  · exact this

/-- Events of a bucket with at most `l` tokens at `now`: before each the level has risen no faster
than at the rate and no higher than `burst`, and a token is taken only from a bucket that has one. -/
inductive Metered (rate burst : K) : K → K → List (Event K) → Prop
  | nil {now l : K} : Metered rate burst now l []
  | cons {now l l' : K} {e : Event K} {events : List (Event K)} (later : now ≤ e.time)
      (risen : l' ≤ l + rate * (e.time - now)) (bounded : l' ≤ burst) (enough : e.cost ≤ l')
      (rest : Metered rate burst e.time (l' - e.cost) events) : Metered rate burst now l (e :: events)

/-- How many tokens were taken from `start` to `stop`. -/
def takenIn (start stop : K) (events : List (Event K)) : Nat :=
  events.countP fun e => e.taken && decide (start ≤ e.time) && decide (e.time ≤ stop)

theorem takenIn_cons (start stop : K) (e : Event K) (events : List (Event K)) :
    (takenIn start stop (e :: events) : K) =
      takenIn start stop events + if start ≤ e.time ∧ e.time ≤ stop then e.cost else 0 := by
  rw [takenIn, takenIn, List.countP_cons, Event.cost]
  cases e.taken <;> by_cases h : start ≤ e.time <;> by_cases h' : e.time ≤ stop <;> simp [h, h']

namespace Metered

variable {now l : K} {events : List (Event K)}

/-- Nothing happens before the present. -/
theorem takenIn_past (h : Metered rate burst now l events) {start stop : K} (past : stop < now) :
    takenIn start stop events = 0 := by
  induction h with
  | nil => rfl
  | @cons now l l' e events later _ _ _ _ ih =>
    have after : ¬e.time ≤ stop := by
      rw [not_le]
      exact past.trans_le later
    rw [takenIn, List.countP_cons_of_neg (by simp [after])]
    exact ih (past.trans_le later)

/-- An event beyond the interval leaves nothing in it, and neither does what comes after. -/
theorem takenIn_beyond {e : Event K} (rest : Metered rate burst e.time l events) {start stop : K}
    (beyond : stop < e.time) : takenIn start stop (e :: events) = 0 := by
  rw [takenIn, List.countP_cons_of_neg (by simp [not_le.mpr beyond])]
  exact rest.takenIn_past beyond

variable [IsStrictOrderedRing K]

/-- From the present on, no more is taken than there is and what is filled in. -/
theorem takenIn_le (filled : 0 ≤ rate) (h : Metered rate burst now l events) (holds : 0 ≤ l)
    {start stop : K} (future : now ≤ stop) :
    (takenIn start stop events : K) ≤ l + rate * (stop - now) := by
  induction h with
  | @nil now l =>
    have more : 0 ≤ rate * (stop - now) := mul_nonneg filled (sub_nonneg.mpr future)
    simp only [takenIn, List.countP_nil, Nat.cast_zero]
    linarith
  | @cons now l l' e events later risen bounded enough rest ih =>
    rcases le_or_gt e.time stop with inside | beyond
    · have after := ih (sub_nonneg.mpr enough) inside
      have parts : rate * (stop - now) = rate * (e.time - now) + rate * (stop - e.time) := by ring
      have cost := e.cost_if_le (start ≤ e.time ∧ e.time ≤ stop)
      rw [takenIn_cons]
      linarith
    · have more : 0 ≤ rate * (stop - now) := mul_nonneg filled (sub_nonneg.mpr future)
      rw [rest.takenIn_beyond beyond, Nat.cast_zero]
      linarith

/-- In any interval no more is taken than a full bucket and what is filled in meanwhile. -/
theorem takenIn_interval (filled : 0 ≤ rate) (holds : 0 ≤ burst)
    (h : Metered rate burst now l events) (start : K) {length : K} (positive : 0 ≤ length) :
    (takenIn start (start + length) events : K) ≤ burst + rate * length := by
  have more : 0 ≤ rate * length := mul_nonneg filled positive
  induction h with
  | nil =>
    simp only [takenIn, List.countP_nil, Nat.cast_zero]
    linarith
  | @cons now l l' e events later risen bounded enough rest ih =>
    rcases lt_or_ge e.time start with before | started
    · rw [takenIn_cons, if_neg fun inside => absurd inside.1 (not_le.mpr before), add_zero]
      exact ih
    rcases le_or_gt e.time (start + length) with inside | beyond
    · -- the interval starts with at most a full bucket
      have after : (takenIn start (start + length) events : K) ≤
          l' - e.cost + rate * (start + length - e.time) :=
        rest.takenIn_le filled (sub_nonneg.mpr enough) inside
      have less : rate * (start + length - e.time) ≤ rate * length :=
        mul_le_mul_of_nonneg_left (by linarith) filled
      have cost := e.cost_if_le (start ≤ e.time ∧ e.time ≤ start + length)
      rw [takenIn_cons]
      linarith
    · rw [rest.takenIn_beyond beyond, Nat.cast_zero]
      linarith

end Metered

end Shyake.TokenBucket
