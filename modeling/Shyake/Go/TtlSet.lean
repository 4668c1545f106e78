import Shyake.Go.Std

/-!
# The replay sets (`internal/ttlset/ttlset.go`)

A set of two generations. `Remembers` says why a key is not new: it is in one of
the generations and no time within `ttl` of its first `Add` makes that generation
go. It survives every `Add`, at whatever time and of whatever key, unless that `Add`
comes more than `ttl` after the key was accepted.
-/

namespace Shyake.Go

structure TtlSet where
  /-- A `time.Duration`. -/
  ttl : Nat
  max : Nat
  cur : List Bytes
  prev : List Bytes
  /-- `none` is the zero time. -/
  rotatedAt : Option Time

namespace TtlSet

def new (ttl maxPerGeneration : Nat) : TtlSet := ⟨ttl, maxPerGeneration, [], [], none⟩

/-- The rotation at the start of `Add`. -/
def rotate (s : TtlSet) (now : Time) : TtlSet :=
  let rotatedAt := s.rotatedAt.getD now
  let elapsed := now.sub rotatedAt
  if elapsed ≥ 2 * s.ttl then { s with prev := [], cur := [], rotatedAt := some now }
  else if elapsed ≥ s.ttl ∨ s.cur.length ≥ s.max then
    { s with prev := s.cur, cur := [], rotatedAt := some now }
  else { s with rotatedAt := some rotatedAt }

/-- Record `k` and report whether it was new. -/
def add (s : TtlSet) (k : Bytes) (now : Time) : Bool × TtlSet :=
  let s := s.rotate now
  if k ∈ s.cur then (false, s)
  else if k ∈ s.prev then (false, s)
  else (true, { s with cur := k :: s.cur })

/-- The key accepted at `at₀` is still in a generation, or there has been an `Add` later than
`at₀ + ttl` by the time `clock`. -/
def Remembers (s : TtlSet) (k : Bytes) (at₀ clock : Time) : Prop :=
  (∃ r, s.rotatedAt = some r ∧
    (k ∈ s.cur ∧ at₀.ns < r.ns + s.ttl ∨ k ∈ s.prev ∧ at₀.ns < r.ns)) ∨
  at₀.ns + s.ttl < clock.ns

theorem rotate_ttl (s : TtlSet) (now : Time) : (s.rotate now).ttl = s.ttl := by
  unfold rotate
  dsimp only
  split_ifs <;> rfl

theorem rotate_max (s : TtlSet) (now : Time) : (s.rotate now).max = s.max := by
  unfold rotate
  dsimp only
  split_ifs <;> rfl

theorem add_ttl (s : TtlSet) (k : Bytes) (now : Time) : (s.add k now).2.ttl = s.ttl := by
  unfold add
  dsimp only
  split_ifs <;> exact rotate_ttl s now

theorem add_max (s : TtlSet) (k : Bytes) (now : Time) : (s.add k now).2.max = s.max := by
  unfold add
  dsimp only
  split_ifs <;> exact rotate_max s now

/-- After `Add`, the rotation time is set and `now` is within the current generation. -/
theorem rotate_rotatedAt (s : TtlSet) (now : Time) (pos : 0 < s.ttl) :
    ∃ r, (s.rotate now).rotatedAt = some r ∧ now.ns < r.ns + s.ttl := by
  unfold rotate
  dsimp only
  split_ifs with long due
  · exact ⟨now, rfl, by omega⟩
  · exact ⟨now, rfl, by omega⟩
  · refine ⟨_, rfl, ?_⟩
    simp only [Time.sub, not_or] at due
    omega

variable {s : TtlSet} {k : Bytes} {at₀ clock now : Time}

theorem Remembers.later {clock' : Time} (h : s.Remembers k at₀ clock) (le : clock ≤ clock') :
    s.Remembers k at₀ clock' :=
  h.imp_right fun gone => Nat.lt_of_lt_of_le gone le

/-- A rotation that is due keeps the promise. -/
theorem Remembers.rotate (h : s.Remembers k at₀ clock) (room : s.cur.length < s.max)
    (le : now ≤ clock) : (s.rotate now).Remembers k at₀ clock := by
  obtain ⟨r, hr, inSet⟩ | gone := h
  · have le : now.ns ≤ clock.ns := le
    unfold Remembers
    rw [rotate_ttl]
    unfold TtlSet.rotate
    simp only [hr, Option.getD_some, Time.sub]
    split_ifs with long due
    · -- both generations go: `now` is two ttl past the rotation
      right
      rcases inSet with ⟨-, lt⟩ | ⟨-, lt⟩ <;> omega
    · have due : ((now.ns : Int) - r.ns ≥ s.ttl) := due.resolve_right (by omega)
      rcases inSet with ⟨mem, lt⟩ | ⟨-, lt⟩
      · exact .inl ⟨now, rfl, .inr ⟨mem, by omega⟩⟩
      · exact .inr (by omega)
    · exact .inl ⟨r, rfl, inSet⟩
  · exact .inr (by rwa [rotate_ttl])

/-- `Add` keeps what the set remembers. -/
theorem Remembers.add {k' : Bytes} (h : s.Remembers k at₀ clock) (room : s.cur.length < s.max)
    (le : now ≤ clock) : (s.add k' now).2.Remembers k at₀ clock := by
  have h := h.rotate room le
  unfold TtlSet.add
  dsimp only
  split_ifs
  · exact h
  · exact h
  · exact h.imp_left fun ⟨r, hr, inSet⟩ =>
      ⟨r, hr, inSet.imp_left fun ⟨mem, lt⟩ => ⟨List.mem_cons_of_mem _ mem, lt⟩⟩

/-- A remembered key is not new, unless an `Add` has come too late. -/
theorem Remembers.refused (h : s.Remembers k at₀ clock) (room : s.cur.length < s.max)
    (le : now ≤ clock) (new : (s.add k now).1 = true) : at₀.ns + s.ttl < clock.ns := by
  obtain ⟨r, -, inSet⟩ | gone := h.rotate room le
  · unfold TtlSet.add at new
    dsimp only at new
    split_ifs at new with inCur inPrev
    rcases inSet with ⟨mem, -⟩ | ⟨mem, -⟩
    · exact absurd mem inCur
    · exact absurd mem inPrev
  · rwa [rotate_ttl] at gone

/-- A rotation adds nothing. -/
theorem mem_rotate {x : Bytes} (h : x ∈ (s.rotate now).cur ∨ x ∈ (s.rotate now).prev) :
    x ∈ s.cur ∨ x ∈ s.prev := by
  unfold TtlSet.rotate at h
  dsimp only at h
  split_ifs at h
  · simp at h
  · exact .inl (by simpa using h)
  · exact h

theorem mem_add {k' x : Bytes} (h : x ∈ (s.add k' now).2.cur ∨ x ∈ (s.add k' now).2.prev) :
    x = k' ∨ x ∈ s.cur ∨ x ∈ s.prev := by
  unfold TtlSet.add at h
  dsimp only at h
  split_ifs at h
  · exact .inr (mem_rotate h)
  · exact .inr (mem_rotate h)
  · rcases h with h | h
    · rcases List.mem_cons.mp h with rfl | h
      · exact .inl rfl
      · exact .inr (mem_rotate (.inl h))
    · exact .inr (mem_rotate (.inr h))

/-- A key in neither generation is new. -/
theorem add_of_notMem (cur : k ∉ s.cur) (prev : k ∉ s.prev) : (s.add k now).1 = true := by
  have away (h : k ∈ (s.rotate now).cur ∨ k ∈ (s.rotate now).prev) : False :=
    (mem_rotate h).elim cur prev
  unfold TtlSet.add
  dsimp only
  rw [if_neg fun h => away (.inl h), if_neg fun h => away (.inr h)]

/-- Keys added one after another. -/
def addAll (s : TtlSet) (l : List (Bytes × Time)) : TtlSet :=
  l.foldl (fun s p => (s.add p.1 p.2).2) s

theorem mem_addAll {l : List (Bytes × Time)} {x : Bytes}
    (h : x ∈ (s.addAll l).cur ∨ x ∈ (s.addAll l).prev) :
    x ∈ l.map Prod.fst ∨ x ∈ s.cur ∨ x ∈ s.prev := by
  induction l generalizing s with
  | nil => exact .inr h
  | cons p l ih =>
    rcases ih h with rest | first
    · exact .inl (List.mem_cons_of_mem _ rest)
    · rcases mem_add first with rfl | old
      · exact .inl List.mem_cons_self
      · exact .inr old

/-- A key that has not been added to a new set is new. -/
theorem addAll_add {ttl max : Nat} {l : List (Bytes × Time)} (h : k ∉ l.map Prod.fst) :
    (((new ttl max).addAll l).add k now).1 = true := by
  have away {x : Bytes} (h : x ∈ ((new ttl max).addAll l).cur ∨ x ∈ ((new ttl max).addAll l).prev) :
      x ∈ l.map Prod.fst := (mem_addAll h).resolve_right (by simp [new])
  exact add_of_notMem (fun cur => h (away (.inl cur))) (fun prev => h (away (.inr prev)))

/-- The last rotation was at the time of some `Add`. -/
theorem rotatedAt_add {r : Time} (h : (s.add k now).2.rotatedAt = some r) :
    r = now ∨ s.rotatedAt = some r := by
  have rotated : (s.add k now).2.rotatedAt = (s.rotate now).rotatedAt := by
    unfold add
    dsimp only
    split_ifs <;> rfl
  rw [rotated] at h
  unfold TtlSet.rotate at h
  dsimp only at h
  split_ifs at h
  · exact .inl (Option.some.inj h).symm
  · exact .inl (Option.some.inj h).symm
  · cases at_ : s.rotatedAt with
    | none =>
      rw [at_] at h
      exact .inl (Option.some.inj h).symm
    | some r' =>
      rw [at_] at h
      exact .inr h

/-- Every `Add` leaves a time of rotation. -/
theorem add_rotatedAt (s : TtlSet) (k : Bytes) (now : Time) :
    ∃ r, (s.add k now).2.rotatedAt = some r := by
  unfold add rotate
  dsimp only
  split_ifs <;> exact ⟨_, rfl⟩

theorem addAll_ttl (s : TtlSet) (l : List (Bytes × Time)) : (s.addAll l).ttl = s.ttl := by
  induction l generalizing s with
  | nil => rfl
  | cons p l ih => exact (ih _).trans (add_ttl s p.1 p.2)

/-- An `Add` two ttl after the last rotation finds nothing. -/
theorem add_of_stale {r : Time} (at_ : s.rotatedAt = some r) (stale : r.ns + 2 * s.ttl ≤ now.ns) :
    (s.add k now).1 = true := by
  have empty : s.rotate now = { s with prev := [], cur := [], rotatedAt := some now } := by
    unfold TtlSet.rotate
    simp only [at_, Option.getD_some, Time.sub]
    exact if_pos (by omega)
  unfold TtlSet.add
  rw [empty]
  rfl

theorem rotatedAt_addAll {l : List (Bytes × Time)} {r : Time}
    (h : (s.addAll l).rotatedAt = some r) : (∃ p ∈ l, r = p.2) ∨ s.rotatedAt = some r := by
  induction l generalizing s with
  | nil => exact .inr h
  | cons p l ih =>
    rcases ih h with ⟨p', mem, same⟩ | first
    · exact .inl ⟨p', List.mem_cons_of_mem _ mem, same⟩
    · rcases rotatedAt_add first with same | old
      · exact .inl ⟨p, List.mem_cons_self, same⟩
      · exact .inr old

/-- After twice the ttl without an `Add`, every key is new. -/
theorem addAll_stale {ttl max : Nat} {l : List (Bytes × Time)}
    (stale : ∀ p ∈ l, p.2.ns + 2 * ttl ≤ now.ns) :
    (((new ttl max).addAll l).add k now).1 = true := by
  rcases List.eq_nil_or_concat l with rfl | ⟨l', p, rfl⟩
  · exact add_of_notMem List.not_mem_nil List.not_mem_nil
  · rw [List.concat_eq_append] at stale ⊢
    have last : (new ttl max).addAll (l' ++ [p]) = (((new ttl max).addAll l').add p.1 p.2).2 := by
      unfold addAll
      rw [List.foldl_append]
      rfl
    obtain ⟨r, at_⟩ : ∃ r, ((new ttl max).addAll (l' ++ [p])).rotatedAt = some r := by
      rw [last]
      exact add_rotatedAt _ _ _
    have ttl_eq : ((new ttl max).addAll (l' ++ [p])).ttl = ttl := addAll_ttl _ _
    refine add_of_stale at_ ?_
    rw [ttl_eq]
    rcases rotatedAt_addAll at_ with ⟨p', mem, rfl⟩ | none
    · exact stale p' mem
    · cases none

/-- An `Add` within the ttl of the last rotation. -/
theorem add_keep {r : Time} (at_ : s.rotatedAt = some r) (early : now.sub r < s.ttl)
    (room : s.cur.length < s.max) (cur : k ∉ s.cur) (prev : k ∉ s.prev) :
    (s.add k now).2 = { s with cur := k :: s.cur } := by
  have pos : 0 ≤ (s.ttl : Int) := Int.natCast_nonneg _
  have same : s.rotate now = s := by
    unfold TtlSet.rotate
    simp only [at_, Option.getD_some]
    rw [if_neg (by omega), if_neg (by omega), ← at_]
  unfold TtlSet.add
  simp only [same]
  rw [if_neg cur, if_neg prev]

/-- An `Add` that comes when a rotation is due. -/
theorem add_due {r : Time} (at_ : s.rotatedAt = some r)
    (due : s.ttl ≤ now.sub r ∧ now.sub r < 2 * s.ttl) (cur : k ∉ s.cur) :
    s.add k now = (true, { s with prev := s.cur, cur := [k], rotatedAt := some now }) := by
  have rotated : s.rotate now = { s with prev := s.cur, cur := [], rotatedAt := some now } := by
    unfold TtlSet.rotate
    simp only [at_, Option.getD_some]
    rw [if_neg (by omega), if_pos (.inl due.1)]
  unfold TtlSet.add
  simp only [rotated]
  rw [if_neg List.not_mem_nil, if_neg cur]

/-- Two rotations forget a key, and they can come within an instant more than the ttl of its
`Add`. -/
theorem forgotten {ttl max : Nat} {a b k : Bytes} (ka : k ≠ a) (bk : b ≠ k) (ba : b ≠ a)
    (room : 2 < max) {t₀ t₁ t₂ t₃ : Time} (first : t₁.sub t₀ < ttl)
    (second : ttl ≤ t₂.sub t₀ ∧ t₂.sub t₀ < 2 * ttl) (third : ttl ≤ t₃.sub t₂ ∧ t₃.sub t₂ < 2 * ttl) :
    (((new ttl max).addAll [(a, t₀), (k, t₁), (b, t₂)]).add k t₃).1 = true := by
  have s₁ : ((new ttl max).add a t₀).2 = ⟨ttl, max, [a], [], some t₀⟩ := by
    have elapsed : t₀.sub t₀ = 0 := Int.sub_self _
    have pos : 0 < (ttl : Int) := by omega
    have same : (new ttl max).rotate t₀ = { new ttl max with rotatedAt := some t₀ } := by
      unfold rotate new
      simp only [Option.getD_none, elapsed, List.length_nil]
      rw [if_neg (by omega), if_neg (by omega)]
    unfold TtlSet.add
    simp only [same]
    rfl
  have s₂ : (TtlSet.add ⟨ttl, max, [a], [], some t₀⟩ k t₁).2 = ⟨ttl, max, [k, a], [], some t₀⟩ :=
    add_keep rfl first (by simp; omega) (by simpa using ka) List.not_mem_nil
  have s₃ : (TtlSet.add ⟨ttl, max, [k, a], [], some t₀⟩ b t₂).2 = ⟨ttl, max, [b], [k, a], some t₂⟩ := by
    rw [add_due rfl second (by simp [bk, ba])]
  show (TtlSet.add ((((new ttl max).add a t₀).2.add k t₁).2.add b t₂).2 k t₃).1 = true
  rw [s₁, s₂, s₃, add_due rfl third (by simpa using bk.symm)]

theorem length_cur_add (s : TtlSet) (k : Bytes) (now : Time) :
    (s.add k now).2.cur.length ≤ s.cur.length + 1 := by
  have le : (s.rotate now).cur.length ≤ s.cur.length := by
    unfold rotate
    dsimp only
    split_ifs
    · exact Nat.zero_le _
    · exact Nat.zero_le _
    · exact Nat.le_refl _
  unfold add
  dsimp only
  split_ifs
  · exact Nat.le_succ_of_le le
  · exact Nat.le_succ_of_le le
  · exact Nat.succ_le_succ le

/-- A key that was new is remembered from then on. -/
theorem remembers_add (pos : 0 < s.ttl) (new : (s.add k now).1 = true) :
    (s.add k now).2.Remembers k now clock := by
  obtain ⟨r, hr, lt⟩ := rotate_rotatedAt s now pos
  unfold TtlSet.add at new ⊢
  dsimp only at new ⊢
  split_ifs at new with inCur inPrev
  rw [if_neg inCur, if_neg inPrev]
  refine .inl ⟨r, hr, .inl ⟨List.mem_cons_self, ?_⟩⟩
  rwa [rotate_ttl]

end TtlSet

end Shyake.Go
