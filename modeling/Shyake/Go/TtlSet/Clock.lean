import Shyake.Go.TtlSet

/-!
# The replay set on Go's own clock (`internal/ttlset/ttlset.go`)

`TtlSet` takes its times from the range of `UnixNano` and its ttl as a number, which is
all a server with a ttl of minutes sees. Here the same `Add` runs on every `time.Time`
and every `time.Duration`: a clock may stand at the zero time, which a set takes for no
time at all, and `2*s.ttl` wraps. `addAll_clocked` says that the two agree where the
doubled ttl fits. A `time.Time` is an `Int` here: the nanoseconds since the zero time.
-/

namespace Shyake.Go.Ttlset

/-- A `time.Duration`. -/
structure Duration where
  ns : Int
  inRange : -2 ^ 63 ≤ ns ∧ ns < 2 ^ 63

namespace Duration

/-- `2 * d`, which wraps. -/
def twice (d : Duration) : Duration where
  ns := int64 (2 * d.ns)
  inRange := by
    have low : -((2 ^ 64 : Nat) : Int) ≤ 2 * Int.bmod (2 * d.ns) (2 ^ 64) := by
      have := @Int.le_bmod (2 * d.ns) (2 ^ 64) (by decide)
      omega
    have high := @Int.bmod_lt (2 * d.ns) (2 ^ 64) (by decide)
    unfold int64
    constructor <;> omega

/-- `t.Sub(u)`, which stops at the longest duration. -/
def sub (t u : Int) : Duration where
  ns := max (-2 ^ 63) (min (t - u) (2 ^ 63 - 1))
  inRange := by omega

/-- A positive duration whose double is a duration. -/
def Doubles (d : Duration) : Prop := 0 < d.ns ∧ d.ns < 2 ^ 62

theorem twice_of_doubles {d : Duration} (doubles : d.Doubles) : d.twice.ns = 2 * d.ns := by
  obtain ⟨pos, small⟩ := doubles
  exact Int.bmod_eq_of_le (by omega) (by omega)

/-- A double that wraps is negative. -/
theorem twice_of_wraps {d : Duration} (wraps : 2 ^ 62 ≤ d.ns) : d.twice.ns < 0 := by
  have high := d.inRange.2
  have wrapped : d.twice.ns = 2 * d.ns - (2 ^ 64 : Nat) := by
    show Int.bmod (2 * d.ns) (2 ^ 64) = _
    rw [← Int.sub_bmod_right (2 * d.ns) (2 ^ 64)]
    exact Int.bmod_eq_of_le (by omega) (by omega)
  omega

end Duration

structure Set where
  ttl : Duration
  max : Int
  cur : List Bytes
  prev : List Bytes
  rotatedAt : Int

def new (ttl : Duration) (maxPerGeneration : Int) : Set := ⟨ttl, maxPerGeneration, [], [], 0⟩

namespace Set

/-- `rotatedAt` once a call at `now` has set it: the zero time is none. -/
def startedAt (s : Set) (now : Int) : Int := if s.rotatedAt = 0 then now else s.rotatedAt

/-- The `elapsed` of a call at `now`. -/
def elapsed (s : Set) (now : Int) : Duration := .sub now (s.startedAt now)

/-- The first case of the switch: both generations go. -/
def Clears (s : Set) (now : Int) : Prop := (s.elapsed now).ns ≥ s.ttl.twice.ns

/-- The second case: the current generation becomes the previous one. -/
def Shifts (s : Set) (now : Int) : Prop :=
  (s.elapsed now).ns ≥ s.ttl.ns ∨ (s.cur.length : Int) ≥ s.max

instance (s : Set) (now : Int) : Decidable (s.Clears now) :=
  inferInstanceAs (Decidable (_ ≥ _))

instance (s : Set) (now : Int) : Decidable (s.Shifts now) :=
  inferInstanceAs (Decidable (_ ∨ _))

/-- `Add` up to the end of its switch. -/
def rotate (s : Set) (now : Int) : Set :=
  if s.Clears now then { s with prev := [], cur := [], rotatedAt := now }
  else if s.Shifts now then { s with prev := s.cur, cur := [], rotatedAt := now }
  else { s with rotatedAt := s.startedAt now }

/-- The switch takes one of its cases. -/
def Rotates (s : Set) (now : Int) : Prop := s.Clears now ∨ s.Shifts now

instance (s : Set) (now : Int) : Decidable (s.Rotates now) :=
  inferInstanceAs (Decidable (_ ∨ _))

/-- Record `k` and report whether it was new. -/
def add (s : Set) (k : Bytes) (now : Int) : Bool × Set :=
  let s := s.rotate now
  if k ∈ s.cur then (false, s)
  else if k ∈ s.prev then (false, s)
  else (true, { s with cur := k :: s.cur })

/-- Calls one after another, each with its key and its time. -/
def addAll (s : Set) (calls : List (Bytes × Int)) : Set :=
  calls.foldl (fun s c => (s.add c.1 c.2).2) s

variable {s : Set} {k : Bytes} {now : Int} {calls : List (Bytes × Int)}

/-! ### One call -/

/-- What a switch leaves, case by case. -/
theorem rotate_cases (s : Set) (now : Int) :
    s.Clears now ∧ s.rotate now = { s with prev := [], cur := [], rotatedAt := now } ∨
    ¬ s.Clears now ∧ s.Shifts now ∧
      s.rotate now = { s with prev := s.cur, cur := [], rotatedAt := now } ∨
    ¬ s.Rotates now ∧ s.rotate now = { s with rotatedAt := s.startedAt now } := by
  by_cases clears : s.Clears now
  · exact .inl ⟨clears, if_pos clears⟩
  · by_cases shifts : s.Shifts now
    · exact .inr (.inl ⟨clears, shifts, (if_neg clears).trans (if_pos shifts)⟩)
    · refine .inr (.inr ⟨?_, (if_neg clears).trans (if_neg shifts)⟩)
      rintro (h | h)
      · exact clears h
      · exact shifts h

/-- What a call adds to what its switch leaves. -/
theorem add_cases (s : Set) (k : Bytes) (now : Int) :
    (k ∈ (s.rotate now).cur ∨ k ∈ (s.rotate now).prev) ∧ s.add k now = (false, s.rotate now) ∨
    k ∉ (s.rotate now).cur ∧ k ∉ (s.rotate now).prev ∧
      s.add k now = (true, { s.rotate now with cur := k :: (s.rotate now).cur }) := by
  by_cases cur : k ∈ (s.rotate now).cur
  · exact .inl ⟨.inl cur, if_pos cur⟩
  · by_cases prev : k ∈ (s.rotate now).prev
    · exact .inl ⟨.inr prev, (if_neg cur).trans (if_pos prev)⟩
    · exact .inr ⟨cur, prev, (if_neg cur).trans (if_neg prev)⟩

theorem rotate_params (s : Set) (now : Int) :
    (s.rotate now).ttl = s.ttl ∧ (s.rotate now).max = s.max := by
  rcases rotate_cases s now with ⟨-, eq⟩ | ⟨-, -, eq⟩ | ⟨-, eq⟩ <;> rw [eq] <;> exact ⟨rfl, rfl⟩

@[simp] theorem rotate_ttl (s : Set) (now : Int) : (s.rotate now).ttl = s.ttl :=
  (rotate_params s now).1

@[simp] theorem rotate_max (s : Set) (now : Int) : (s.rotate now).max = s.max :=
  (rotate_params s now).2

/-- A call changes the current generation after its switch, and nothing else. -/
theorem add_frame (s : Set) (k : Bytes) (now : Int) :
    (s.add k now).2 = { s.rotate now with cur := (s.add k now).2.cur } := by
  rcases add_cases s k now with ⟨-, eq⟩ | ⟨-, -, eq⟩ <;> rw [eq]

@[simp] theorem add_ttl (s : Set) (k : Bytes) (now : Int) : (s.add k now).2.ttl = s.ttl := by
  rw [add_frame]
  exact rotate_ttl s now

@[simp] theorem add_max (s : Set) (k : Bytes) (now : Int) : (s.add k now).2.max = s.max := by
  rw [add_frame]
  exact rotate_max s now

theorem add_prev (s : Set) (k : Bytes) (now : Int) :
    (s.add k now).2.prev = (s.rotate now).prev := by
  rw [add_frame]

theorem add_rotatedAt (s : Set) (k : Bytes) (now : Int) :
    (s.add k now).2.rotatedAt = (s.rotate now).rotatedAt := by
  rw [add_frame]

/-- Another key is where the switch left it. -/
theorem mem_add_cur {x : Bytes} (other : x ≠ k) :
    x ∈ (s.add k now).2.cur ↔ x ∈ (s.rotate now).cur := by
  rcases add_cases s k now with ⟨-, eq⟩ | ⟨-, -, eq⟩
  · rw [eq]
  · rw [eq]
    exact List.mem_cons.trans (or_iff_right other)

theorem subset_add_cur {x : Bytes} (mem : x ∈ (s.rotate now).cur) : x ∈ (s.add k now).2.cur := by
  by_cases same : x = k
  · subst same
    rcases add_cases s x now with ⟨-, eq⟩ | ⟨away, -, -⟩
    · rwa [eq]
    · exact absurd mem away
  · exact (mem_add_cur same).mpr mem

theorem length_add (s : Set) (k : Bytes) (now : Int) :
    (s.add k now).2.cur.length = (s.rotate now).cur.length + (s.add k now).1.toNat := by
  rcases add_cases s k now with ⟨-, eq⟩ | ⟨-, -, eq⟩ <;> rw [eq] <;> rfl

/-- A key is new when the switch leaves it in neither generation. -/
theorem add_new_iff :
    (s.add k now).1 = true ↔ k ∉ (s.rotate now).cur ∧ k ∉ (s.rotate now).prev := by
  rcases add_cases s k now with ⟨mem, eq⟩ | ⟨cur, prev, eq⟩
  · rw [eq]
    refine ⟨fun h => Bool.noConfusion h, fun ⟨cur, prev⟩ => ?_⟩
    exact absurd mem (not_or.mpr ⟨cur, prev⟩)
  · rw [eq]
    exact ⟨fun _ => ⟨cur, prev⟩, fun _ => rfl⟩

/-- A key is in the current generation after a call that found it new. -/
theorem mem_cur_of_new (new : (s.add k now).1 = true) : k ∈ (s.add k now).2.cur := by
  rcases add_cases s k now with ⟨-, eq⟩ | ⟨-, -, eq⟩
  · rw [eq] at new
    cases new
  · rw [eq]
    exact List.mem_cons_self

/-! ### A run of calls -/

@[simp] theorem addAll_nil (s : Set) : s.addAll [] = s := rfl

@[simp] theorem addAll_cons (s : Set) (c : Bytes × Int) :
    s.addAll (c :: calls) = (s.add c.1 c.2).2.addAll calls := rfl

theorem addAll_append (s : Set) (a b : List (Bytes × Int)) :
    s.addAll (a ++ b) = (s.addAll a).addAll b := List.foldl_append

@[simp] theorem addAll_ttl (s : Set) (calls : List (Bytes × Int)) :
    (s.addAll calls).ttl = s.ttl := by
  induction calls generalizing s with
  | nil => rfl
  | cons c calls ih => exact (ih _).trans (add_ttl s c.1 c.2)

@[simp] theorem addAll_max (s : Set) (calls : List (Bytes × Int)) :
    (s.addAll calls).max = s.max := by
  induction calls generalizing s with
  | nil => rfl
  | cons c calls ih => exact (ih _).trans (add_max s c.1 c.2)

/-! ### Rotations by time and by size -/

theorem rotate_of_quiet (quiet : ¬ s.Rotates now) :
    s.rotate now = { s with rotatedAt := s.startedAt now } := by
  rcases rotate_cases s now with ⟨clears, -⟩ | ⟨-, shifts, -⟩ | ⟨-, eq⟩
  · exact absurd (.inl clears) quiet
  · exact absurd (.inr shifts) quiet
  · exact eq

theorem cur_of_rotates (rotates : s.Rotates now) : (s.rotate now).cur = [] := by
  rcases rotate_cases s now with ⟨-, eq⟩ | ⟨-, -, eq⟩ | ⟨quiet, -⟩
  · rw [eq]
  · rw [eq]
  · exact absurd rotates quiet

theorem rotatedAt_of_rotates (rotates : s.Rotates now) : (s.rotate now).rotatedAt = now := by
  rcases rotate_cases s now with ⟨-, eq⟩ | ⟨-, -, eq⟩ | ⟨quiet, -⟩
  · rw [eq]
  · rw [eq]
  · exact absurd rotates quiet

/-- A positive duration has gone since the last rotation, if there was one. -/
theorem elapsed_ge_iff {d : Int} (pos : 0 < d) (fits : d < 2 ^ 63) :
    (s.elapsed now).ns ≥ d ↔ s.rotatedAt ≠ 0 ∧ s.rotatedAt + d ≤ now := by
  unfold elapsed startedAt
  dsimp only [Duration.sub]
  split_ifs with zero
  · refine ⟨fun h => ?_, fun h => absurd zero h.1⟩
    omega
  · refine ⟨fun h => ⟨zero, by omega⟩, fun h => ?_⟩
    have := h.2
    omega

theorem clears_iff (doubles : s.ttl.Doubles) :
    s.Clears now ↔ s.rotatedAt ≠ 0 ∧ s.rotatedAt + 2 * s.ttl.ns ≤ now := by
  have twice := Duration.twice_of_doubles doubles
  obtain ⟨pos, small⟩ := doubles
  unfold Clears
  rw [twice]
  exact elapsed_ge_iff (by omega) (by omega)

theorem elapsed_iff (pos : 0 < s.ttl.ns) :
    (s.elapsed now).ns ≥ s.ttl.ns ↔ s.rotatedAt ≠ 0 ∧ s.rotatedAt + s.ttl.ns ≤ now :=
  elapsed_ge_iff pos s.ttl.inRange.2

/-- A rotation that a full generation does not force comes a ttl after the last one. -/
theorem rotates_by_time (doubles : s.ttl.Doubles) (rotates : s.Rotates now)
    (room : (s.cur.length : Int) < s.max) :
    s.rotatedAt ≠ 0 ∧ s.rotatedAt + s.ttl.ns ≤ now := by
  rcases rotates with clears | long | full
  · obtain ⟨started, late⟩ := (clears_iff doubles).mp clears
    have := doubles.1
    exact ⟨started, by omega⟩
  · exact (elapsed_iff doubles.1).mp long
  · omega

/-- A ttl whose double wraps clears the set at every call. -/
theorem clears_of_wraps (wraps : 2 ^ 62 ≤ s.ttl.ns) (order : s.rotatedAt = 0 ∨ s.rotatedAt ≤ now) :
    s.Clears now := by
  have negative := Duration.twice_of_wraps wraps
  unfold Clears elapsed startedAt
  dsimp only [Duration.sub]
  split_ifs with zero
  · omega
  · have := order.resolve_left zero
    omega

theorem startedAt_eq (s : Set) (now : Int) :
    s.startedAt now = now ∨ s.startedAt now = s.rotatedAt := by
  unfold startedAt
  split_ifs
  · exact .inl rfl
  · exact .inr rfl

theorem rotatedAt_add_eq (s : Set) (k : Bytes) (now : Int) :
    (s.add k now).2.rotatedAt = now ∨ (s.add k now).2.rotatedAt = s.rotatedAt := by
  rw [add_rotatedAt]
  rcases rotate_cases s now with ⟨-, eq⟩ | ⟨-, -, eq⟩ | ⟨-, eq⟩ <;> rw [eq]
  · exact .inl rfl
  · exact .inl rfl
  · exact startedAt_eq s now

/-- In a run whose times do not go back, no call comes before the last rotation. -/
theorem rotatedAt_le {rest : List (Bytes × Int)}
    (sorted : (calls ++ rest).Pairwise fun c c' => c.2 ≤ c'.2)
    (order : s.rotatedAt = 0 ∨ ∀ c ∈ calls ++ rest, s.rotatedAt ≤ c.2) :
    (s.addAll calls).rotatedAt = 0 ∨ ∀ c ∈ rest, (s.addAll calls).rotatedAt ≤ c.2 := by
  induction calls generalizing s with
  | nil => exact order
  | cons c calls ih =>
    obtain ⟨first, sorted⟩ := List.pairwise_cons.mp sorted
    refine ih (s := (s.add c.1 c.2).2) sorted ?_
    rcases rotatedAt_add_eq s c.1 c.2 with eq | eq <;> rw [eq]
    · exact .inr first
    · exact order.imp_right fun le x mem => le x (List.mem_cons_of_mem _ mem)

theorem startedAt_of_started (started : s.rotatedAt ≠ 0) (now : Int) :
    s.startedAt now = s.rotatedAt := if_neg started

end Set

/-! ### The set of the servers -/

/-- A reading of the wall clock, on the clock of `time.Time`. -/
def instant (t : Time) : Int := 62135596800000000000 + t.ns

/-- A set as the servers use it. -/
def clocked (ttl : Duration) (s : TtlSet) : Set where
  ttl := ttl
  max := s.max
  cur := s.cur
  prev := s.prev
  rotatedAt := (s.rotatedAt.map instant).getD 0

theorem instant_ne (t : Time) : instant t ≠ 0 := by
  unfold instant
  omega

theorem startedAt_clocked {ttl : Duration} (s : TtlSet) (now : Time) :
    (clocked ttl s).startedAt (instant now) = instant (s.rotatedAt.getD now) := by
  cases at_ : s.rotatedAt with
  | none => simp [clocked, Set.startedAt, at_]
  | some r =>
    have started : (clocked ttl s).rotatedAt = instant r := by simp [clocked, at_]
    rw [Set.startedAt_of_started (by rw [started]; exact instant_ne r), started]
    rfl

theorem elapsed_clocked (ttl : Duration) (s : TtlSet) (now : Time) :
    ((clocked ttl s).elapsed (instant now)).ns = now.sub (s.rotatedAt.getD now) := by
  have low := (s.rotatedAt.getD now).inRange
  have high := now.inRange
  unfold Set.elapsed
  rw [startedAt_clocked]
  unfold Duration.sub Time.sub instant
  dsimp only
  omega

theorem rotate_clocked {ttl : Duration} (doubles : ttl.Doubles) (s : TtlSet) (same : ttl.ns = s.ttl)
    (now : Time) : (clocked ttl s).rotate (instant now) = clocked ttl (s.rotate now) := by
  have twice : (clocked ttl s).ttl.twice.ns = 2 * s.ttl := by
    rw [← same]
    exact Duration.twice_of_doubles doubles
  have elapsed := elapsed_clocked ttl s now
  have clears : (clocked ttl s).Clears (instant now) ↔
      now.sub (s.rotatedAt.getD now) ≥ 2 * s.ttl := by
    unfold Set.Clears
    rw [elapsed, twice]
  have shifts : (clocked ttl s).Shifts (instant now) ↔
      now.sub (s.rotatedAt.getD now) ≥ s.ttl ∨ s.cur.length ≥ s.max := by
    unfold Set.Shifts
    rw [elapsed, show (clocked ttl s).ttl.ns = s.ttl from same]
    exact or_congr_right Int.ofNat_le
  unfold Set.rotate TtlSet.rotate
  simp only [clears, shifts]
  split_ifs
  · rfl
  · rfl
  · rw [startedAt_clocked]
    rfl

/-- `TtlSet` is this set, for times that `UnixNano` tells and a ttl that doubles. -/
theorem add_clocked {ttl : Duration} (doubles : ttl.Doubles) (s : TtlSet) (same : ttl.ns = s.ttl)
    (k : Bytes) (now : Time) :
    (clocked ttl s).add k (instant now) = ((s.add k now).1, clocked ttl (s.add k now).2) := by
  unfold Set.add TtlSet.add
  rw [rotate_clocked doubles s same]
  dsimp only [clocked]
  split_ifs <;> rfl

/-- A run of a server's set is a run of this one. -/
theorem addAll_clocked {ttl : Duration} (doubles : ttl.Doubles) (s : TtlSet) (same : ttl.ns = s.ttl)
    (l : List (Bytes × Time)) :
    (clocked ttl s).addAll (l.map fun p => (p.1, instant p.2)) = clocked ttl (s.addAll l) := by
  induction l generalizing s with
  | nil => rfl
  | cons p l ih =>
    have first := congrArg Prod.snd (add_clocked doubles s same p.1 p.2)
    rw [List.map_cons, Set.addAll_cons, first]
    exact ih (s.add p.1 p.2).2 (by rw [same, TtlSet.add_ttl])

end Shyake.Go.Ttlset
