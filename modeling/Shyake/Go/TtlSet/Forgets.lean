import Shyake.Go.TtlSet.Keeps

/-!
# What the replay set forgets (`internal/ttlset/ttlset.go`)

A key is as old as the number of generations that have gone since it was accepted, and
it is new again exactly when that is two. A generation goes only when some call comes,
so a call just under two ttl after the last rotation keeps the keys of the generation
it ends for a ttl more: three ttl are enough, two are not.
-/

namespace Shyake.Go.Ttlset

namespace Set

/-- How many generations go when `Add` is called at `now`. -/
def drops (s : Set) (now : Int) : Nat :=
  if s.Clears now then 2 else if s.Shifts now then 1 else 0

/-- How many generations go in a run of calls. -/
def dropsIn (s : Set) : List (Bytes × Int) → Nat
  | [] => 0
  | c :: calls => s.drops c.2 + (s.add c.1 c.2).2.dropsIn calls

variable {s : Set} {k : Bytes} {now : Int} {calls : List (Bytes × Int)}

/-- The age of a key that was accepted: the generations that have gone since. -/
def Aged (s : Set) (k : Bytes) : Nat → Prop
  | 0 => k ∈ s.cur
  | 1 => k ∉ s.cur ∧ k ∈ s.prev
  | _ + 2 => k ∉ s.cur ∧ k ∉ s.prev

/-- A key ages by the generations that a switch lets go. -/
theorem Aged.rotate {n : Nat} (aged : s.Aged k n) (now : Int) :
    (s.rotate now).Aged k (n + s.drops now) := by
  unfold drops
  rcases rotate_cases s now with ⟨clears, eq⟩ | ⟨keeps, shifts, eq⟩ | ⟨quiet, eq⟩ <;> rw [eq]
  · rw [if_pos clears]
    exact ⟨List.not_mem_nil, List.not_mem_nil⟩
  · rw [if_neg keeps, if_pos shifts]
    cases n with
    | zero => exact ⟨List.not_mem_nil, aged⟩
    | succ n =>
      have away : k ∉ s.cur := by
        cases n with
        | zero => exact aged.1
        | succ n => exact aged.1
      exact ⟨List.not_mem_nil, away⟩
  · rw [if_neg fun clears => quiet (.inl clears), if_neg fun shifts => quiet (.inr shifts)]
    match n, aged with
    | 0, aged => exact aged
    | 1, aged => exact aged
    | _ + 2, aged => exact aged

/-- A call of another key changes nothing more. -/
theorem Aged.add {n : Nat} {x : Bytes} (aged : s.Aged k n) (other : k ≠ x) (now : Int) :
    (s.add x now).2.Aged k (n + s.drops now) := by
  have rotated := aged.rotate now
  generalize n + s.drops now = m at rotated
  match m, rotated with
  | 0, rotated => exact (mem_add_cur other).mpr rotated
  | 1, rotated => exact ⟨fun mem => rotated.1 ((mem_add_cur other).mp mem), by
      rw [add_prev]; exact rotated.2⟩
  | _ + 2, rotated => exact ⟨fun mem => rotated.1 ((mem_add_cur other).mp mem), by
      rw [add_prev]; exact rotated.2⟩

theorem Aged.addAll {n : Nat} (aged : s.Aged k n) (others : ∀ c ∈ calls, c.1 ≠ k) :
    (s.addAll calls).Aged k (n + s.dropsIn calls) := by
  induction calls generalizing s n with
  | nil => exact aged
  | cons c calls ih =>
    have first := aged.add (others c List.mem_cons_self).symm c.2
    have rest := ih first fun x mem => others x (List.mem_cons_of_mem _ mem)
    rwa [Nat.add_assoc] at rest

/-- A key is new again when two generations have gone, the switch of its own call included. -/
theorem Aged.new_iff {n : Nat} (aged : s.Aged k n) (now : Int) :
    (s.add k now).1 = true ↔ 2 ≤ n + s.drops now := by
  have rotated := aged.rotate now
  rw [add_new_iff]
  generalize n + s.drops now = m at rotated
  match m, rotated with
  | 0, rotated => exact ⟨fun away => absurd rotated away.1, fun two => by omega⟩
  | 1, rotated => exact ⟨fun away => absurd rotated.2 away.2, fun two => by omega⟩
  | m + 2, rotated => exact ⟨fun _ => Nat.le_add_left 2 m, fun _ => rotated⟩

theorem dropsIn_append (s : Set) (a b : List (Bytes × Int)) :
    s.dropsIn (a ++ b) = s.dropsIn a + (s.addAll a).dropsIn b := by
  induction a generalizing s with
  | nil => exact (Nat.zero_add _).symm
  | cons c a ih =>
    have rest := ih (s.add c.1 c.2).2
    show s.drops c.2 + (s.add c.1 c.2).2.dropsIn (a ++ b) = s.drops c.2 + _ + _
    rw [rest, Nat.add_assoc]
    rfl

/-- Past the zero time a call leaves a time of rotation that it does not precede. -/
theorem started_of_add (order : s.rotatedAt = 0 ∨ s.rotatedAt ≤ now) (clock : 0 < now) :
    (s.add k now).2.rotatedAt ≠ 0 ∧ (s.add k now).2.rotatedAt ≤ now := by
  rw [add_rotatedAt]
  rcases rotate_cases s now with ⟨-, eq⟩ | ⟨-, -, eq⟩ | ⟨-, eq⟩ <;> rw [eq]
  · exact ⟨clock.ne', Int.le_refl _⟩
  · exact ⟨clock.ne', Int.le_refl _⟩
  · dsimp only [startedAt]
    split_ifs with zero
    · exact ⟨clock.ne', Int.le_refl _⟩
    · exact ⟨zero, order.resolve_left zero⟩

/-- How late the generation of a key accepted at `t₁`, or the one after it, can have begun. -/
structure Fading (s : Set) (k : Bytes) (t₁ : Int) (n : Nat) : Prop where
  aged : s.Aged k n
  started : s.rotatedAt ≠ 0
  zero : n = 0 → s.rotatedAt ≤ t₁
  one : n = 1 → s.rotatedAt < t₁ + 2 * s.ttl.ns

theorem Fading.add {x : Bytes} {t₁ : Int} {n : Nat} (fading : s.Fading k t₁ n)
    (doubles : s.ttl.Doubles) (other : k ≠ x) (later : 0 < now) :
    (s.add x now).2.Fading k t₁ (n + s.drops now) := by
  have aged := fading.aged.add other now
  have started := fading.started
  have clears : s.Clears now ↔ _ := clears_iff doubles
  refine ⟨aged, ?_, ?_, ?_⟩
  all_goals
    simp only [add_rotatedAt, add_ttl, drops]
    rcases rotate_cases s now with ⟨goes, eq⟩ | ⟨keeps, shifts, eq⟩ | ⟨quiet, eq⟩ <;> rw [eq]
  · exact later.ne'
  · exact later.ne'
  · rwa [startedAt_of_started started]
  · rw [if_pos goes]
    intro none
    omega
  · rw [if_neg keeps, if_pos shifts]
    intro none
    omega
  · rw [if_neg fun h => quiet (.inl h), if_neg fun h => quiet (.inr h),
      startedAt_of_started started]
    exact fading.zero
  · rw [if_pos goes]
    intro one
    omega
  · -- the generation of the key ends before it is two ttl old
    rw [if_neg keeps, if_pos shifts]
    intro one
    have began := fading.zero (by omega)
    have early : ¬ s.rotatedAt + 2 * s.ttl.ns ≤ now := fun late =>
      keeps (clears.mpr ⟨started, late⟩)
    dsimp only
    omega
  · rw [if_neg fun h => quiet (.inl h), if_neg fun h => quiet (.inr h),
      startedAt_of_started started]
    exact fading.one

theorem Fading.addAll {t₁ : Int} {n : Nat} (fading : s.Fading k t₁ n) (doubles : s.ttl.Doubles)
    (others : ∀ c ∈ calls, c.1 ≠ k) (later : ∀ c ∈ calls, 0 < c.2) :
    (s.addAll calls).Fading k t₁ (n + s.dropsIn calls) := by
  induction calls generalizing s n with
  | nil => exact fading
  | cons c calls ih =>
    have first := fading.add doubles (others c List.mem_cons_self).symm
      (later c List.mem_cons_self)
    have rest := ih first (by rwa [add_ttl]) (fun x mem => others x (List.mem_cons_of_mem _ mem))
      fun x mem => later x (List.mem_cons_of_mem _ mem)
    rwa [Nat.add_assoc] at rest

/-- Three ttl after a key was accepted it is new, wherever other calls fall. -/
theorem Fading.new {t₁ t : Int} {n : Nat} (fading : s.Fading k t₁ n) (doubles : s.ttl.Doubles)
    (late : t₁ + 3 * s.ttl.ns ≤ t) : (s.add k t).1 = true := by
  have pos := doubles.1
  rw [fading.aged.new_iff]
  match n, fading with
  | 0, fading =>
    have began := fading.zero rfl
    have clears : s.Clears t := (clears_iff doubles).mpr ⟨fading.started, by omega⟩
    rw [drops, if_pos clears]
  | 1, fading =>
    have began := fading.one rfl
    have shifts : s.Shifts t := .inl ((elapsed_iff pos).mpr ⟨fading.started, by omega⟩)
    rw [drops, if_pos shifts]
    split_ifs <;> omega
  | n + 2, _ => omega

end Set

variable {ttl : Duration} {max : Int} {calls : List (Bytes × Int)}

/-- A key that was new, and that no call of `b` names, is new again when two generations have
gone. -/
theorem new_again_iff {a b : List (Bytes × Int)} {k : Bytes} {t₁ t₂ : Int}
    (accepted : (((new ttl max).addAll a).add k t₁).1 = true) (others : ∀ c ∈ b, c.1 ≠ k) :
    (((new ttl max).addAll (a ++ (k, t₁) :: b)).add k t₂).1 = true ↔
      2 ≤ ((new ttl max).addAll (a ++ [(k, t₁)])).dropsIn (b ++ [(k, t₂)]) := by
  have first : (new ttl max).addAll (a ++ [(k, t₁)]) = (((new ttl max).addAll a).add k t₁).2 :=
    Set.addAll_append _ _ _
  have after : (new ttl max).addAll (a ++ (k, t₁) :: b) =
      (((new ttl max).addAll a).add k t₁).2.addAll b := Set.addAll_append _ _ _
  have aged : (((new ttl max).addAll a).add k t₁).2.Aged k 0 := Set.mem_cur_of_new accepted
  rw [first, after, (aged.addAll others).new_iff t₂, Nat.zero_add, Set.dropsIn_append]
  rfl

/-- What the package comment promises of `calls`: a key that was new, and that is not added
again, is new two ttl later. -/
def Forgets (ttl : Duration) (max : Int) (calls : List (Bytes × Int)) : Prop :=
  ∀ a k t₁ b t₂ d, calls = a ++ (k, t₁) :: (b ++ (k, t₂) :: d) →
    (((new ttl max).addAll a).add k t₁).1 = true → (∀ c ∈ b, c.1 ≠ k) → t₁ + 2 * ttl.ns ≤ t₂ →
    (((new ttl max).addAll (a ++ (k, t₁) :: b)).add k t₂).1 = true

/-- Three ttl are enough wherever other calls fall, on a clock past the zero time. -/
theorem new_of_three_ttl {a b : List (Bytes × Int)} {k : Bytes} {t₁ t₂ : Int}
    (doubles : ttl.Doubles)
    (sorted : (a ++ (k, t₁) :: b).Pairwise fun c c' => c.2 ≤ c'.2)
    (clock : 0 < t₁) (accepted : (((new ttl max).addAll a).add k t₁).1 = true)
    (others : ∀ c ∈ b, c.1 ≠ k) (late : t₁ + 3 * ttl.ns ≤ t₂) :
    (((new ttl max).addAll (a ++ (k, t₁) :: b)).add k t₂).1 = true := by
  have ttl_eq : (((new ttl max).addAll a).add k t₁).2.ttl = ttl := by
    rw [Set.add_ttl, Set.addAll_ttl]
    rfl
  have after : (new ttl max).addAll (a ++ (k, t₁) :: b) =
      (((new ttl max).addAll a).add k t₁).2.addAll b := Set.addAll_append _ _ _
  have order := Set.rotatedAt_le (s := new ttl max) sorted (.inl rfl)
  obtain ⟨started, began⟩ := Set.started_of_add (k := k)
    (order.imp_right fun le => le (k, t₁) List.mem_cons_self) clock
  have fading : (((new ttl max).addAll a).add k t₁).2.Fading k t₁ 0 :=
    ⟨Set.mem_cur_of_new accepted, started, fun _ => began, fun one => absurd one (by decide)⟩
  obtain ⟨-, sorted, -⟩ := List.pairwise_append.mp sorted
  have later : ∀ c ∈ b, 0 < c.2 := fun c mem =>
    Int.lt_of_lt_of_le clock ((List.pairwise_cons.mp sorted).1 c mem)
  rw [after]
  refine (fading.addAll (by rwa [ttl_eq]) others later).new ?_ ?_
  · rwa [Set.addAll_ttl, ttl_eq]
  · rwa [Set.addAll_ttl, ttl_eq]

namespace Sample

/-- A key, another just under two ttl later, and the first one again two ttl after its own. -/
def spaced : List (Bytes × Int) :=
  [(key 1, now), (key 2, now + 1199999999999), (key 1, now + 1200000000000)]

end Sample

end Shyake.Go.Ttlset
