import Shyake.Go.TtlSet.Clock

/-!
# What the replay set keeps (`internal/ttlset/ttlset.go`)

The set holds no more than `max` keys in a generation, and it refuses a key until `ttl`
after it took it, as long as no generation but the first of a run fills up. Both hold of
every run whose times do not go back, for every ttl whose double is a duration.
-/

namespace Shyake.Go.Ttlset

namespace Set

/-- How many of the calls are told that their key is new. -/
def accepted (s : Set) : List (Bytes × Int) → Nat
  | [] => 0
  | c :: calls => (s.add c.1 c.2).1.toNat + (s.add c.1 c.2).2.accepted calls

/-- No call rotates. -/
def Quiet (s : Set) : List (Bytes × Int) → Prop
  | [] => True
  | c :: calls => ¬ s.Rotates c.2 ∧ (s.add c.1 c.2).2.Quiet calls

variable {s : Set} {k : Bytes} {now : Int} {calls : List (Bytes × Int)}

/-! ### The size of a generation -/

/-- Neither generation holds more than `max` keys. -/
def Bounded (s : Set) : Prop := (s.cur.length : Int) ≤ s.max ∧ (s.prev.length : Int) ≤ s.max

theorem Bounded.rotate (h : s.Bounded) (pos : 1 ≤ s.max) (now : Int) :
    ((s.rotate now).cur.length : Int) < s.max ∧ ((s.rotate now).prev.length : Int) ≤ s.max := by
  rcases rotate_cases s now with ⟨-, eq⟩ | ⟨-, -, eq⟩ | ⟨quiet, eq⟩ <;> rw [eq]
  · exact ⟨by simp; omega, by simp; omega⟩
  · exact ⟨by simp; omega, h.1⟩
  · -- a generation that is full rotates
    have room : ¬ (s.cur.length : Int) ≥ s.max := fun full => quiet (.inr (.inr full))
    exact ⟨by dsimp only; omega, h.2⟩

theorem Bounded.add (h : s.Bounded) (pos : 1 ≤ s.max) (k : Bytes) (now : Int) :
    (s.add k now).2.Bounded := by
  obtain ⟨cur, prev⟩ := h.rotate pos now
  refine ⟨?_, ?_⟩
  · rw [length_add, add_max]
    have le : (s.add k now).1.toNat ≤ 1 := Bool.toNat_le _
    omega
  · rwa [add_prev, add_max]

theorem Bounded.addAll (h : s.Bounded) (pos : 1 ≤ s.max) (calls : List (Bytes × Int)) :
    (s.addAll calls).Bounded := by
  induction calls generalizing s with
  | nil => exact h
  | cons c calls ih => exact ih (h.add pos c.1 c.2) (by rwa [add_max])

/-! ### What is remembered -/

/-- A generation holds what was accepted since the rotation it began with. -/
theorem length_of_quiet (quiet : s.Quiet calls) :
    (s.addAll calls).cur.length = s.cur.length + s.accepted calls := by
  induction calls generalizing s with
  | nil => rfl
  | cons c calls ih =>
    have first : (s.add c.1 c.2).2.cur.length = s.cur.length + (s.add c.1 c.2).1.toNat := by
      rw [length_add, rotate_of_quiet quiet.1]
    rw [addAll_cons, ih quiet.2, first, Nat.add_assoc]
    rfl

theorem length_of_rotates {c : Bytes × Int} (rotates : s.Rotates c.2)
    (quiet : (s.add c.1 c.2).2.Quiet calls) :
    (s.addAll (c :: calls)).cur.length = s.accepted (c :: calls) := by
  rw [addAll_cons, length_of_quiet quiet, length_add, cur_of_rotates rotates, List.length_nil,
    Nat.zero_add]
  rfl

/-- Fewer than `max` keys are accepted between any two rotations that follow one another. -/
def Sparse (s : Set) (calls : List (Bytes × Int)) : Prop :=
  ∀ a c b c' d, calls = a ++ c :: (b ++ c' :: d) → (s.addAll a).Rotates c.2 →
    (s.addAll (a ++ [c])).Quiet b → (s.addAll (a ++ c :: b)).Rotates c'.2 →
    ((s.addAll a).accepted (c :: b) : Int) < s.max

/-- No rotation of the run finds a full generation. -/
def Roomy (s : Set) : List (Bytes × Int) → Prop
  | [] => True
  | c :: calls => (s.Rotates c.2 → (s.cur.length : Int) < s.max) ∧ (s.add c.1 c.2).2.Roomy calls

/-- No rotation but the first finds a full generation. -/
def Spaced (s : Set) : List (Bytes × Int) → Prop
  | [] => True
  | c :: calls => (s.Rotates c.2 → (s.add c.1 c.2).2.Roomy calls) ∧ (s.add c.1 c.2).2.Spaced calls

theorem quiet_append {q rest : List (Bytes × Int)} :
    s.Quiet (q ++ rest) ↔ s.Quiet q ∧ (s.addAll q).Quiet rest := by
  induction q generalizing s with
  | nil => exact (true_and _).symm.to_iff
  | cons c q ih => exact (and_congr_right fun _ => ih).trans and_assoc.symm

/-- The rotations after one that begins a generation, with the calls `q` made in it so far. -/
theorem Sparse.roomy {a q rest : List (Bytes × Int)} {c : Bytes × Int}
    (sparse : s.Sparse calls) (split : calls = a ++ c :: (q ++ rest))
    (rotates : (s.addAll a).Rotates c.2) (quiet : (s.addAll (a ++ [c])).Quiet q) :
    (s.addAll (a ++ c :: q)).Roomy rest := by
  induction rest generalizing a q c with
  | nil => trivial
  | cons x rest ih =>
    have after : s.addAll (a ++ c :: q) = (s.addAll (a ++ [c])).addAll q := by
      rw [← addAll_append, List.append_assoc]
      rfl
    have next : s.addAll (a ++ c :: (q ++ [x])) = ((s.addAll (a ++ c :: q)).add x.1 x.2).2 := by
      rw [show a ++ c :: (q ++ [x]) = a ++ c :: q ++ [x] by simp, addAll_append]
      rfl
    refine ⟨fun due => ?_, ?_⟩
    · have few := sparse a c q x rest split rotates quiet due
      have size : (s.addAll (a ++ c :: q)).cur.length = (s.addAll a).accepted (c :: q) := by
        rw [addAll_append]
        refine length_of_rotates rotates ?_
        rwa [addAll_append] at quiet
      rw [size, addAll_max]
      exact few
    · rw [← next]
      by_cases due : (s.addAll (a ++ c :: q)).Rotates x.2
      · -- `x` begins the next generation
        have begun := ih (a := a ++ c :: q) (c := x) (q := []) (by simp [split]) due trivial
        rwa [show a ++ c :: q ++ [x] = a ++ c :: (q ++ [x]) by simp] at begun
      · refine ih (q := q ++ [x]) (by simp [split]) rotates (quiet_append.mpr ⟨quiet, ?_, trivial⟩)
        rwa [← after]

theorem Sparse.spaced {a rest : List (Bytes × Int)} (sparse : s.Sparse calls)
    (split : calls = a ++ rest) : (s.addAll a).Spaced rest := by
  induction rest generalizing a with
  | nil => trivial
  | cons x rest ih =>
    have next : s.addAll (a ++ [x]) = ((s.addAll a).add x.1 x.2).2 := addAll_append s a [x]
    refine ⟨fun rotates => ?_, ?_⟩
    · have begun := sparse.roomy (q := []) split rotates trivial
      rwa [next] at begun
    · have rest := ih (a := a ++ [x]) (by simp [split])
      rwa [next] at rest

/-- A generation that began at `t₁` or later is not due before `t₁ + ttl`. -/
theorem quiet_of_room {t₁ : Int} (doubles : s.ttl.Doubles)
    (age : s.rotatedAt = 0 ∨ t₁ ≤ s.rotatedAt)
    (room : s.Rotates now → (s.cur.length : Int) < s.max) (soon : now < t₁ + s.ttl.ns) :
    ¬ s.Rotates now := by
  intro rotates
  obtain ⟨started, late⟩ := rotates_by_time doubles rotates (room rotates)
  have := age.resolve_left started
  omega

/-- A key of the previous generation stays until a ttl after it was accepted. -/
theorem refused_of_prev {t t₁ : Int} {rest : List (Bytes × Int)} (doubles : s.ttl.Doubles)
    (mem : k ∈ s.prev) (age : s.rotatedAt = 0 ∨ t₁ ≤ s.rotatedAt)
    (roomy : s.Roomy (calls ++ (k, t) :: rest))
    (times : ∀ c ∈ calls ++ [(k, t)], t₁ ≤ c.2 ∧ c.2 < t₁ + s.ttl.ns) :
    ((s.addAll calls).add k t).1 = false := by
  induction calls generalizing s with
  | nil =>
    have quiet := quiet_of_room doubles age roomy.1 (times (k, t) List.mem_cons_self).2
    refine Bool.eq_false_iff.mpr fun new => (add_new_iff.mp new).2 ?_
    show k ∈ (s.rotate t).prev
    rwa [rotate_of_quiet quiet]
  | cons c calls ih =>
    obtain ⟨after, soon⟩ := times c List.mem_cons_self
    have quiet := quiet_of_room doubles age roomy.1 soon
    refine ih (s := (s.add c.1 c.2).2) ?_ ?_ ?_ roomy.2 fun x mem => ?_
    · rwa [add_ttl]
    · rwa [add_prev, rotate_of_quiet quiet]
    · rw [add_rotatedAt, rotate_of_quiet quiet]
      dsimp only [startedAt]
      split_ifs with zero
      · exact .inr after
      · exact .inr (age.resolve_left zero)
    · rw [add_ttl]
      exact times x (List.mem_cons_of_mem _ mem)

/-- Both generations go only two ttl after `rotatedAt`. -/
theorem not_clears {t₁ : Int} (doubles : s.ttl.Doubles)
    (age : s.rotatedAt = 0 ∨ t₁ < s.rotatedAt + s.ttl.ns) (soon : now < t₁ + s.ttl.ns) :
    ¬ s.Clears now := by
  intro clears
  obtain ⟨started, late⟩ := (clears_iff doubles).mp clears
  have := age.resolve_left started
  omega

/-- A key of the current generation stays until a ttl after it was accepted. -/
theorem refused_of_cur {t t₁ : Int} {rest : List (Bytes × Int)} (doubles : s.ttl.Doubles)
    (mem : k ∈ s.cur) (age : s.rotatedAt = 0 ∨ t₁ < s.rotatedAt + s.ttl.ns)
    (spaced : s.Spaced (calls ++ (k, t) :: rest))
    (times : ∀ c ∈ calls ++ [(k, t)], t₁ ≤ c.2 ∧ c.2 < t₁ + s.ttl.ns) :
    ((s.addAll calls).add k t).1 = false := by
  induction calls generalizing s with
  | nil =>
    have keeps := not_clears doubles age (times (k, t) List.mem_cons_self).2
    refine Bool.eq_false_iff.mpr fun new => ?_
    obtain ⟨cur, prev⟩ := add_new_iff.mp new
    rcases rotate_cases s t with ⟨clears, -⟩ | ⟨-, -, eq⟩ | ⟨-, eq⟩
    · exact keeps clears
    · exact prev (by rwa [addAll_nil, eq])
    · exact cur (by rwa [addAll_nil, eq])
  | cons c calls ih =>
    obtain ⟨after, soon⟩ := times c List.mem_cons_self
    have doubles' : (s.add c.1 c.2).2.ttl.Doubles := by rwa [add_ttl]
    have times : ∀ x ∈ calls ++ [(k, t)], t₁ ≤ x.2 ∧ x.2 < t₁ + (s.add c.1 c.2).2.ttl.ns := by
      intro x mem
      rw [add_ttl]
      exact times x (List.mem_cons_of_mem _ mem)
    rcases rotate_cases s c.2 with ⟨clears, -⟩ | ⟨-, shifts, eq⟩ | ⟨-, eq⟩
    · exact absurd clears (not_clears doubles age soon)
    · have mem : k ∈ (s.add c.1 c.2).2.prev := by rwa [add_prev, eq]
      have age : t₁ ≤ (s.add c.1 c.2).2.rotatedAt := by rwa [add_rotatedAt, eq]
      have roomy := spaced.1 (.inr shifts)
      exact refused_of_prev (s := (s.add c.1 c.2).2) doubles' mem (.inr age) roomy times
    · refine ih (s := (s.add c.1 c.2).2) doubles' ?_ ?_ spaced.2 times
      · exact subset_add_cur (by rwa [eq])
      · rw [add_rotatedAt, add_ttl, eq]
        dsimp only [startedAt]
        have := doubles.1
        split_ifs with zero
        · exact .inr (by omega)
        · exact .inr (age.resolve_left zero)

/-- The age of the generation that takes a new key. -/
theorem age_of_add (doubles : s.ttl.Doubles) :
    (s.add k now).2.rotatedAt = 0 ∨ now < (s.add k now).2.rotatedAt + (s.add k now).2.ttl.ns := by
  have pos := doubles.1
  rw [add_rotatedAt, add_ttl]
  by_cases rotates : s.Rotates now
  · rw [rotatedAt_of_rotates rotates]
    exact .inr (by omega)
  · have early : ¬ (s.elapsed now).ns ≥ s.ttl.ns := fun long => rotates (.inr (.inl long))
    rw [elapsed_iff pos] at early
    rw [rotate_of_quiet rotates]
    dsimp only [startedAt]
    split_ifs with zero
    · exact .inr (by omega)
    · exact .inr (by omega)

theorem accepted_le (s : Set) (calls : List (Bytes × Int)) : s.accepted calls ≤ calls.length := by
  induction calls generalizing s with
  | nil => exact Nat.le_refl _
  | cons c calls ih =>
    have first : (s.add c.1 c.2).1.toNat ≤ 1 := Bool.toNat_le _
    have rest := ih (s.add c.1 c.2).2
    show (s.add c.1 c.2).1.toNat + _ ≤ calls.length + 1
    omega

end Set

/-- What the set promises of `calls`: no generation ever holds more than `max` keys, and, when
fewer than `max` are accepted between any two rotations that follow one another, a key that was
new is refused until `ttl` after. -/
def Keeps (ttl : Duration) (max : Int) (calls : List (Bytes × Int)) : Prop :=
  (∀ a, a <+: calls → ((new ttl max).addAll a).Bounded) ∧
  ((new ttl max).Sparse calls → ∀ a k t₁ b t₂ d, calls = a ++ (k, t₁) :: (b ++ (k, t₂) :: d) →
    (((new ttl max).addAll a).add k t₁).1 = true → t₂ < t₁ + ttl.ns →
    (((new ttl max).addAll (a ++ (k, t₁) :: b)).add k t₂).1 = false)

variable {ttl : Duration} {max : Int} {calls : List (Bytes × Int)}

theorem bounded_addAll (room : 1 ≤ max) (a : List (Bytes × Int)) :
    ((new ttl max).addAll a).Bounded := by
  have empty : (new ttl max).Bounded := ⟨by simp [new]; omega, by simp [new]; omega⟩
  exact empty.addAll room a

/-- The promise, for a ttl whose double is a duration. -/
theorem keeps_of_doubles (doubles : ttl.Doubles) (room : 1 ≤ max)
    (sorted : calls.Pairwise fun c c' => c.2 ≤ c'.2) : Keeps ttl max calls := by
  refine ⟨fun a _ => bounded_addAll room a, ?_⟩
  rintro sparse a k t₁ b t₂ d rfl new soon
  have ttl_eq : (((Ttlset.new ttl max).addAll a).add k t₁).2.ttl = ttl := by
    rw [Set.add_ttl, Set.addAll_ttl]
    rfl
  have after : (Ttlset.new ttl max).addAll (a ++ (k, t₁) :: b) =
      ((((Ttlset.new ttl max).addAll a).add k t₁).2).addAll b := Set.addAll_append _ _ _
  -- the calls from the first of `k` to the second
  obtain ⟨-, sorted, -⟩ := List.pairwise_append.mp sorted
  obtain ⟨first, sorted⟩ := List.pairwise_cons.mp sorted
  obtain ⟨-, sorted, last⟩ := List.pairwise_append.mp sorted
  have times : ∀ c ∈ b ++ [(k, t₂)], t₁ ≤ c.2 ∧ c.2 < t₁ + ttl.ns := by
    intro c mem
    rcases List.mem_append.mp mem with mem | mem
    · have := last c mem (k, t₂) List.mem_cons_self
      exact ⟨first c (List.mem_append_left _ mem), by omega⟩
    · rw [List.mem_singleton.mp mem]
      exact ⟨first (k, t₂) (by simp), soon⟩
  have spaced : ((((Ttlset.new ttl max).addAll a).add k t₁).2).Spaced (b ++ (k, t₂) :: d) := by
    have spaced := sparse.spaced (a := a ++ [(k, t₁)]) (List.append_assoc a [(k, t₁)] _).symm
    rwa [Set.addAll_append] at spaced
  have doubles' : ((Ttlset.new ttl max).addAll a).ttl.Doubles := by rwa [Set.addAll_ttl]
  rw [after]
  refine Set.refused_of_cur ?_ (Set.mem_cur_of_new new) (Set.age_of_add doubles') spaced ?_
  · rwa [ttl_eq]
  · rwa [ttl_eq]

/-- The promise, for a ttl whose double wraps and generations of one key. -/
theorem keeps_of_one (wraps : 2 ^ 62 ≤ ttl.ns) (sorted : calls.Pairwise fun c c' => c.2 ≤ c'.2) :
    Keeps ttl 1 calls := by
  refine ⟨fun a _ => bounded_addAll (by decide) a, ?_⟩
  rintro sparse a k t₁ b t₂ d rfl new -
  exfalso
  -- every call clears, the one that accepts the key and the next
  have clears {a rest : List (Bytes × Int)} {c : Bytes × Int}
      (sorted : (a ++ c :: rest).Pairwise fun c c' => c.2 ≤ c'.2) :
      ((Ttlset.new ttl 1).addAll a).Clears c.2 := by
    have order := Set.rotatedAt_le (s := Ttlset.new ttl 1) sorted (.inl rfl)
    refine Set.clears_of_wraps ?_ (order.imp_right fun le => le c List.mem_cons_self)
    rw [Set.addAll_ttl]
    exact wraps
  obtain ⟨c, rest, next⟩ : ∃ c rest, b ++ (k, t₂) :: d = c :: rest := by
    cases b with
    | nil => exact ⟨_, _, rfl⟩
    | cons c b => exact ⟨c, _, rfl⟩
  rw [next] at sorted sparse
  have few := sparse a (k, t₁) [] c rest rfl (.inl (clears sorted)) trivial
    (.inl (clears (a := a ++ [(k, t₁)]) (by simpa using sorted)))
  have one : ((Ttlset.new ttl 1).addAll a).accepted [(k, t₁)] = 1 := by
    show (((Ttlset.new ttl 1).addAll a).add k t₁).1.toNat + 0 = 1
    rw [new]
    rfl
  rw [one] at few
  exact absurd few (by simp [Ttlset.new])

/-- A ttl whose double wraps forgets at once. -/
theorem not_keeps_of_wraps (wraps : 2 ^ 62 ≤ ttl.ns) (room : 2 ≤ max)
    (k : Bytes) (t : Int) : ¬ Keeps ttl max [(k, t), (k, t)] := by
  intro keeps
  have sparse : (new ttl max).Sparse [(k, t), (k, t)] := by
    intro a c b c' d split _ _ _
    have length := congrArg List.length split
    simp only [List.length_cons, List.length_append, List.length_nil] at length
    have few := Set.accepted_le ((new ttl max).addAll a) (c :: b)
    rw [List.length_cons] at few
    show _ < max
    omega
  have first : ((new ttl max).add k t).1 = true := by
    have clears : (new ttl max).Clears t := Set.clears_of_wraps wraps (.inl rfl)
    rw [Set.add_new_iff, show (new ttl max).rotate t = _ from if_pos clears]
    exact ⟨List.not_mem_nil, List.not_mem_nil⟩
  have second : (((new ttl max).add k t).2.add k t).1 = true := by
    have order := Set.rotatedAt_add_eq (new ttl max) k t
    have clears : ((new ttl max).add k t).2.Clears t := by
      refine Set.clears_of_wraps (by rwa [Set.add_ttl]) ?_
      rcases order with eq | eq
      · exact .inr (Int.le_of_eq eq)
      · exact .inl eq
    rw [Set.add_new_iff, show ((new ttl max).add k t).2.rotate t = _ from if_pos clears]
    exact ⟨List.not_mem_nil, List.not_mem_nil⟩
  have refused := keeps.2 sparse [] k t [] t [] rfl first (by omega)
  exact Bool.noConfusion (refused.symm.trans second)

/-- The set keeps what it promises in every run whose times do not go back, exactly when twice
its ttl is a duration or its generations hold one key. -/
theorem keeps_iff (pos : 0 < ttl.ns) (room : 1 ≤ max) :
    (∀ calls, calls.Pairwise (fun c c' => c.2 ≤ c'.2) → Keeps ttl max calls) ↔
      ttl.ns < 2 ^ 62 ∨ max = 1 := by
  constructor
  · intro keeps
    by_contra neither
    obtain ⟨wraps, more⟩ := not_or.mp neither
    have sorted : [([], 0), ([], 0)].Pairwise fun c c' : Bytes × Int => c.2 ≤ c'.2 := by simp
    exact not_keeps_of_wraps (by omega) (by omega) [] 0 (keeps _ sorted)
  · intro fits calls sorted
    by_cases small : ttl.ns < 2 ^ 62
    · exact keeps_of_doubles ⟨pos, small⟩ room sorted
    · obtain rfl : max = 1 := fits.resolve_left small
      exact keeps_of_one (by omega) sorted

namespace Sample

/-- The replay set of the servers: ten minutes, a quarter of a million keys. -/
def tenMinutes : Duration := ⟨600000000000, by decide⟩

/-- 146 years, the first whole number of seconds whose double is no duration. -/
def long : Duration := ⟨4611686019000000000, by decide⟩

/-- A reading of 2026. -/
def now : Int := 63918720000000000000

def key (n : UInt8) : Bytes := List.replicate 32 n

/-- One key twice, a second apart. -/
theorem keeps_ten_minutes :
    Keeps tenMinutes 250000 [(key 1, now), (key 1, now + 1000000000)] :=
  (keeps_iff (by decide) (by decide)).mpr (.inl (by decide)) _ (by decide)

/-- The set of 146 years takes a key twice at one time. -/
theorem forgets_at_once : ¬ ∀ (ttl : Duration) (max : Int), 0 < ttl.ns → 1 ≤ max →
    ∀ calls, calls.Pairwise (fun c c' => c.2 ≤ c'.2) → Keeps ttl max calls := by
  intro all
  have keeps := all long 250000 (by decide) (by decide) [(key 1, now), (key 1, now)] (by simp)
  exact not_keeps_of_wraps (by decide) (by decide) (key 1) now keeps

end Sample

end Shyake.Go.Ttlset
