import Shyake.Go.Std

/-!
# Runes and their bytes

`DecodeRuneInString` reads one of four shapes, or one byte that is no rune. What holds of
every rune, whatever loop reads it, follows from these.
-/

namespace Shyake.Go

/-- A byte after the first of a rune. -/
def trails (c : UInt8) : Prop := 0x80 ≤ c ∧ c ≤ 0xbf

/-- What the first two bytes of a rune have to be like. -/
theorem trails_of_first {c lo hi : UInt8} {n : Nat} (lead : first c = some (n, lo, hi)) :
    0x80 ≤ lo ∧ hi ≤ 0xbf ∧ (n = 2 ∧ 0xc2 ≤ c ∧ c ≤ 0xdf ∨
      n = 3 ∧ 0xe0 ≤ c ∧ c ≤ 0xef ∧ (c = 0xe0 → 0xa0 ≤ lo) ∨
      n = 4 ∧ 0xf0 ≤ c ∧ c ≤ 0xf4 ∧ (c = 0xf0 → 0x90 ≤ lo) ∧ (c = 0xf4 → hi ≤ 0x8f)) := by
  unfold first at lead
  split_ifs at lead with two e0 ed three f0 f4 four
  all_goals
    obtain ⟨rfl, rfl, rfl⟩ := Prod.mk.inj (Option.some.inj lead) |>.imp id Prod.mk.inj
    refine ⟨by decide, by decide, ?_⟩
  · exact .inl ⟨rfl, two⟩
  · exact .inr (.inl ⟨rfl, by rw [e0]; decide, by rw [e0]; decide, fun _ => by decide⟩)
  · exact .inr (.inl ⟨rfl, by rw [ed]; decide, by rw [ed]; decide, fun h => absurd h e0⟩)
  · exact .inr (.inl ⟨rfl, UInt8.le_trans (by decide) three.1, three.2, fun h => absurd h e0⟩)
  · exact .inr (.inr ⟨rfl, by rw [f0]; decide, by rw [f0]; decide, fun _ => by decide,
      fun h => absurd (f0.symm.trans h) (by decide)⟩)
  · exact .inr (.inr ⟨rfl, by rw [f4]; decide, by rw [f4]; decide, fun h => absurd h f0,
      fun _ => by decide⟩)
  · exact .inr (.inr ⟨rfl, UInt8.le_trans (by decide) four.1, UInt8.le_trans four.2 (by decide),
      fun h => absurd h f0, fun h => absurd h f4⟩)

/-- The encodings that `DecodeRuneInString` reads, and what it reads of them. -/
theorem decodeRune_cases {c : UInt8} (cs : Bytes) (high : ¬ c < 0x80) :
    decodeRune (c :: cs) = (0xfffd, 1) ∨
    (∃ x rest, cs = x :: rest ∧ 0xc2 ≤ c ∧ c ≤ 0xdf ∧ trails x ∧
      decodeRune (c :: cs) = ((c.toNat - 0xc0) * 64 + x.toNat % 64, 2)) ∨
    (∃ x y rest, cs = x :: y :: rest ∧ 0xe0 ≤ c ∧ c ≤ 0xef ∧ (c = 0xe0 → 0xa0 ≤ x) ∧
      trails x ∧ trails y ∧ decodeRune (c :: cs) =
        ((c.toNat - 0xe0) * 4096 + x.toNat % 64 * 64 + y.toNat % 64, 3)) ∨
    ∃ x y z rest, cs = x :: y :: z :: rest ∧ 0xf0 ≤ c ∧ c ≤ 0xf4 ∧ (c = 0xf0 → 0x90 ≤ x) ∧
      (c = 0xf4 → x ≤ 0x8f) ∧ trails x ∧ trails y ∧ trails z ∧ decodeRune (c :: cs) =
      ((c.toNat - 0xf0) * 262144 + x.toNat % 64 * 4096 + y.toNat % 64 * 64 + z.toNat % 64, 4) := by
  have cons {lo hi : UInt8} {cs : Bytes} (ok : ¬ within lo hi cs = false) :
      ∃ x rest, cs = x :: rest ∧ lo ≤ x ∧ x ≤ hi := by
    cases cs with
    | nil => exact absurd rfl ok
    | cons x rest =>
      simp only [within, Bool.not_eq_false, Bool.and_eq_true, decide_eq_true_eq] at ok
      exact ⟨x, rest, rfl, ok⟩
  simp only [decodeRune, high, if_false]
  cases lead : first c with
  | none => exact .inl rfl
  | some entry =>
    obtain ⟨n, lo, hi⟩ := entry
    obtain ⟨low, top, shape⟩ := trails_of_first lead
    dsimp only
    by_cases second : within lo hi cs = false
    · exact .inl (if_pos second)
    obtain ⟨x, cs, rfl, lx, xh⟩ := cons second
    have tx : trails x := ⟨UInt8.le_trans low lx, UInt8.le_trans xh top⟩
    rw [if_neg second]
    rcases shape with ⟨rfl, range⟩ | ⟨rfl, from_, until_, tight⟩ | ⟨rfl, from_, until_, tight, last⟩
    · exact .inr (.inl ⟨x, cs, rfl, range.1, range.2, tx, rfl⟩)
    · rw [if_neg (by decide)]
      by_cases third : within 0x80 0xbf ((x :: cs).drop 1) = false
      · exact .inl (if_pos third)
      obtain ⟨y, cs, rfl, ty⟩ := cons third
      rw [if_neg third]
      exact .inr (.inr (.inl ⟨x, y, cs, rfl, from_, until_,
        fun h => UInt8.le_trans (tight h) lx, tx, ty, rfl⟩))
    · rw [if_neg (by decide)]
      by_cases third : within 0x80 0xbf ((x :: cs).drop 1) = false
      · exact .inl (if_pos third)
      obtain ⟨y, cs, rfl, ty⟩ := cons third
      rw [if_neg third, if_neg (by decide)]
      by_cases fourth : within 0x80 0xbf ((x :: y :: cs).drop 2) = false
      · exact .inl (if_pos fourth)
      obtain ⟨z, cs, rfl, tz⟩ := cons fourth
      rw [if_neg fourth]
      exact .inr (.inr (.inr ⟨x, y, z, cs, rfl, from_, until_,
        fun h => UInt8.le_trans (tight h) lx, fun h => UInt8.le_trans xh (last h), tx, ty, tz, rfl⟩))

theorem trails_of_rune {c : UInt8} (cs : Bytes) (high : ¬ c < 0x80) :
    ∀ x ∈ cs.take ((decodeRune (c :: cs)).2 - 1), trails x := by
  rcases decodeRune_cases cs high with eq | ⟨x, cs, rfl, -, -, tx, eq⟩ |
    ⟨x, y, cs, rfl, -, -, -, tx, ty, eq⟩ | ⟨x, y, z, cs, rfl, -, -, -, -, tx, ty, tz, eq⟩ <;> rw [eq]
  · simp
  · simpa using tx
  · simp [tx, ty]
  · simp [tx, ty, tz]

theorem size_of_rune {c : UInt8} (cs : Bytes) (high : ¬ c < 0x80) :
    ∃ n, (decodeRune (c :: cs)).2 = n + 1 := by
  rcases decodeRune_cases cs high with eq | ⟨x, cs, rfl, -, -, -, eq⟩ |
    ⟨x, y, cs, rfl, -, -, -, -, -, eq⟩ | ⟨x, y, z, cs, rfl, -, -, -, -, -, -, -, eq⟩ <;> rw [eq] <;>
    exact ⟨_, rfl⟩

/-- The bytes after the first of a rune are no ASCII. -/
theorem decodeRune_skips (c : UInt8) (cs : Bytes) :
    ∀ x ∈ cs.take ((decodeRune (c :: cs)).2 - 1), 0x80 ≤ x := by
  by_cases ascii : c < 0x80
  · have one : decodeRune (c :: cs) = (c.toNat, 1) := if_pos ascii
    rw [one]
    simp
  · exact fun x mem => (trails_of_rune cs ascii x mem).1

/-- No rune is past the last code point. -/
theorem decodeRune_lt (s : Bytes) : (decodeRune s).1 < 0x110000 := by
  cases s with
  | nil => decide
  | cons c cs =>
    by_cases ascii : c < 0x80
    · have one : decodeRune (c :: cs) = (c.toNat, 1) := if_pos ascii
      rw [one]
      exact Nat.lt_trans c.toNat_lt (by decide)
    rcases decodeRune_cases cs ascii with eq | ⟨x, cs, rfl, low, top, tx, eq⟩ |
      ⟨x, y, cs, rfl, low, top, tight, tx, ty, eq⟩ |
      ⟨x, y, z, cs, rfl, low, top, tight, last, tx, ty, tz, eq⟩ <;> rw [eq]
    · decide
    · have := c.toNat_lt
      dsimp only
      omega
    · have := c.toNat_lt
      dsimp only
      omega
    · simp only [trails, UInt8.le_iff_toNat_le, UInt8.reduceToNat, ← UInt8.toNat_inj] at top last tx
      dsimp only
      omega

end Shyake.Go
