import Shyake.Go.Federation
import Shyake.Lib.JsonText

/-!
# The text of a body

An answer's body is bytes. The Go server reads a byte that fits nowhere as a code point of its own;
`json()` of the Worker takes what is cut short as one, and leaves out a byte order mark. Of
well-formed UTF-8 both read what was written.
-/

namespace Shyake.Alike.Relayed

open Lib.JsonText (Text)

/-! ## The decoder of the Worker -/

namespace CfWorker

/-- The code point at the front and its size. What is cut short counts as one. -/
def decodePoint : Bytes → Nat × Nat
  | [] => (0xfffd, 0)
  | c :: cs =>
    if c < 0x80 then (c.toNat, 1)
    else match Go.first c with
      | none => (0xfffd, 1)
      | some (n, lo, hi) =>
        if Go.within lo hi cs = false then (0xfffd, 1)
        else if n = 2 then ((c.toNat - 0xc0) * 64 + (cs.getD 0 0).toNat % 64, 2)
        else if Go.within 0x80 0xbf (cs.drop 1) = false then (0xfffd, 2)
        else if n = 3 then
          ((c.toNat - 0xe0) * 4096 + (cs.getD 0 0).toNat % 64 * 64 + (cs.getD 1 0).toNat % 64, 3)
        else if Go.within 0x80 0xbf (cs.drop 2) = false then (0xfffd, 3)
        else ((c.toNat - 0xf0) * 262144 + (cs.getD 0 0).toNat % 64 * 4096 +
          (cs.getD 1 0).toNat % 64 * 64 + (cs.getD 2 0).toNat % 64, 4)

def pointsFrom : Nat → Bytes → Text
  | _, [] => []
  | n + 1, _ :: cs => pointsFrom n cs
  | 0, c :: cs => let (r, n) := decodePoint (c :: cs); r :: pointsFrom (n - 1) cs

/-- The text of a body, without a byte order mark. -/
def decodeText (body : Bytes) : Text :=
  match pointsFrom 0 body with
  | [] => []
  | c :: cs => if c = 0xfeff then cs else c :: cs

end CfWorker

/-! ## Code points as bytes -/

section Scalars

open Go (decodeRune runesFrom first within)
open Go.Server (encodeRune)

def Scalar (c : Nat) : Prop := c < 0xd800 ∨ 0xe000 ≤ c ∧ c < 0x110000

theorem toNat_byte {n : Nat} (h : n < 256) : (UInt8.ofNat n).toNat = n :=
  UInt8.toNat_ofNat_of_lt' h

theorem ascii_byte {n : Nat} (h : n < 256) : UInt8.ofNat n < 0x80 ↔ n < 0x80 := by
  rw [UInt8.lt_iff_toNat_lt, toNat_byte h]
  rfl

theorem within_byte {n : Nat} {lo hi : UInt8} (low : lo.toNat ≤ n) (high : n ≤ hi.toNat)
    (s : Bytes) : within lo hi (UInt8.ofNat n :: s) = true := by
  have byte : n < 256 := lt_of_le_of_lt high hi.toNat_lt
  simp only [within, Bool.and_eq_true, decide_eq_true_eq]
  rw [UInt8.le_iff_toNat_le, UInt8.le_iff_toNat_le, toNat_byte byte]
  exact ⟨low, high⟩

/-- What the first byte says of the others. -/
theorem first_two {n : Nat} (low : 0xc2 ≤ n) (high : n ≤ 0xdf) :
    first (UInt8.ofNat n) = some (2, 0x80, 0xbf) := by
  have all : ∀ i : Fin 30, first (UInt8.ofNat (0xc2 + i)) = some (2, 0x80, 0xbf) := by decide
  simpa [Nat.add_sub_cancel' low] using all ⟨n - 0xc2, by omega⟩

theorem first_three {n : Nat} (low : 0xe0 ≤ n) (high : n ≤ 0xef) :
    first (UInt8.ofNat n) =
      some (3, if n = 0xe0 then 0xa0 else 0x80, if n = 0xed then 0x9f else 0xbf) := by
  have all : ∀ i : Fin 16, first (UInt8.ofNat (0xe0 + i)) =
      some (3, if 0xe0 + i.val = 0xe0 then 0xa0 else 0x80,
        if 0xe0 + i.val = 0xed then 0x9f else 0xbf) := by decide
  simpa only [Nat.add_sub_cancel' low] using all ⟨n - 0xe0, by omega⟩

theorem first_four {n : Nat} (low : 0xf0 ≤ n) (high : n ≤ 0xf4) :
    first (UInt8.ofNat n) =
      some (4, if n = 0xf0 then 0x90 else 0x80, if n = 0xf4 then 0x8f else 0xbf) := by
  have all : ∀ i : Fin 5, first (UInt8.ofNat (0xf0 + i)) =
      some (4, if 0xf0 + i.val = 0xf0 then 0x90 else 0x80,
        if 0xf0 + i.val = 0xf4 then 0x8f else 0xbf) := by decide
  simpa only [Nat.add_sub_cancel' low] using all ⟨n - 0xf0, by omega⟩

variable {b c d e lo hi : UInt8} {s : Bytes}

theorem decodeRune_two (high : ¬ b < 0x80) (lead : first b = some (2, lo, hi))
    (second : within lo hi (c :: s) = true) :
    decodeRune (b :: c :: s) = ((b.toNat - 0xc0) * 64 + c.toNat % 64, 2) := by
  simp [decodeRune, high, lead, second]

theorem decodeRune_three (high : ¬ b < 0x80) (lead : first b = some (3, lo, hi))
    (second : within lo hi (c :: d :: s) = true) (third : within 0x80 0xbf (d :: s) = true) :
    decodeRune (b :: c :: d :: s) =
      ((b.toNat - 0xe0) * 4096 + c.toNat % 64 * 64 + d.toNat % 64, 3) := by
  simp [decodeRune, high, lead, second, third]

theorem decodeRune_four (high : ¬ b < 0x80) (lead : first b = some (4, lo, hi))
    (second : within lo hi (c :: d :: e :: s) = true)
    (third : within 0x80 0xbf (d :: e :: s) = true) (fourth : within 0x80 0xbf (e :: s) = true) :
    decodeRune (b :: c :: d :: e :: s) =
      ((b.toNat - 0xf0) * 262144 + c.toNat % 64 * 4096 + d.toNat % 64 * 64 + e.toNat % 64, 4) := by
  simp [decodeRune, high, lead, second, third, fourth]

/-- A rune is read back from its bytes. -/
theorem decodeRune_encodeRune {r : Nat} (h : Scalar r) (s : Bytes) :
    decodeRune (encodeRune r ++ s) = (r, (encodeRune r).length) := by
  unfold encodeRune
  split
  · rename_i ascii
    have low : UInt8.ofNat r < 0x80 := (ascii_byte (by omega)).2 ascii
    simp only [List.cons_append, decodeRune, if_pos low, List.length_singleton]
    rw [toNat_byte (by omega)]
  rename_i notASCII
  split
  · have lead : first (UInt8.ofNat (0xc0 + r / 64)) = _ := first_two (by omega) (by omega)
    have high : ¬ UInt8.ofNat (0xc0 + r / 64) < 0x80 := by
      rw [ascii_byte (by omega)]
      omega
    refine (decodeRune_two high lead (within_byte ?_ ?_ s)).trans ?_
    · change 128 ≤ _
      omega
    · change _ ≤ 191
      omega
    · rw [toNat_byte (by omega), toNat_byte (by omega)]
      simp only [List.length_cons, List.length_nil, Prod.mk.injEq, and_true]
      omega
  split
  · have lead : first (UInt8.ofNat (0xe0 + r / 4096)) = _ := first_three (by omega) (by omega)
    have high : ¬ UInt8.ofNat (0xe0 + r / 4096) < 0x80 := by
      rw [ascii_byte (by omega)]
      omega
    refine (decodeRune_three high lead (within_byte ?_ ?_ _) (within_byte ?_ ?_ s)).trans ?_
    · split
      · change 160 ≤ _
        omega
      · change 128 ≤ _
        omega
    · split
      · change _ ≤ 159
        unfold Scalar at h
        omega
      · change _ ≤ 191
        omega
    · change 128 ≤ _
      omega
    · change _ ≤ 191
      omega
    · rw [toNat_byte (by omega), toNat_byte (by omega), toNat_byte (by omega)]
      simp only [List.length_cons, List.length_nil, Prod.mk.injEq, and_true]
      omega
  · have bound : r < 0x110000 := by unfold Scalar at h; omega
    have lead : first (UInt8.ofNat (0xf0 + r / 262144)) = _ := first_four (by omega) (by omega)
    have high : ¬ UInt8.ofNat (0xf0 + r / 262144) < 0x80 := by
      rw [ascii_byte (by omega)]
      omega
    refine (decodeRune_four high lead (within_byte ?_ ?_ _) (within_byte ?_ ?_ _)
      (within_byte ?_ ?_ s)).trans ?_
    · split
      · change 144 ≤ _
        omega
      · change 128 ≤ _
        omega
    · split
      · change _ ≤ 143
        omega
      · change _ ≤ 191
        omega
    · change 128 ≤ _
      omega
    · change _ ≤ 191
      omega
    · change 128 ≤ _
      omega
    · change _ ≤ 191
      omega
    · rw [toNat_byte (by omega), toNat_byte (by omega), toNat_byte (by omega),
        toNat_byte (by omega)]
      simp only [List.length_cons, List.length_nil, Prod.mk.injEq, and_true]
      omega

theorem encodeRune_length (r : Nat) : 0 < (encodeRune r).length := by
  unfold encodeRune
  split
  · exact Nat.one_pos
  split
  · exact Nat.two_pos
  split <;> exact Nat.succ_pos _

/-- The loop of a decoder: the code point at the front, and on behind it. -/
structure Loop (decode : Bytes → Nat × Nat) (points : Nat → Bytes → Text) : Prop where
  done : ∀ n, points n [] = []
  skip : ∀ n c cs, points (n + 1) (c :: cs) = points n cs
  next : ∀ c cs, points 0 (c :: cs) =
    (decode (c :: cs)).1 :: points ((decode (c :: cs)).2 - 1) cs

variable {decode : Bytes → Nat × Nat} {points : Nat → Bytes → Text}

theorem Loop.drop (loop : Loop decode points) (n : Nat) (s : Bytes) :
    points n s = points 0 (s.drop n) := by
  induction s generalizing n with
  | nil => rw [List.drop_nil, loop.done, loop.done]
  | cons c s ih =>
    cases n with
    | zero => rfl
    | succ n => rw [loop.skip, List.drop_succ_cons, ih n]

/-- Well-formed UTF-8 is read back. -/
theorem Loop.encode (loop : Loop decode points)
    (exact : ∀ r s, Scalar r → decode (encodeRune r ++ s) = (r, (encodeRune r).length))
    {text : Text} (h : ∀ c ∈ text, Scalar c) : points 0 (text.flatMap encodeRune) = text := by
  induction text with
  | nil => exact loop.done 0
  | cons r text ih =>
    obtain ⟨scalar, rest⟩ := List.forall_mem_cons.mp h
    have front := exact r (text.flatMap encodeRune) scalar
    have size := encodeRune_length r
    rw [List.flatMap_cons]
    cases shape : encodeRune r with
    | nil => rw [shape] at size; cases size
    | cons b t =>
      rw [shape, List.cons_append] at front
      rw [List.cons_append, loop.next, front, loop.drop]
      simp only [List.length_cons, Nat.add_sub_cancel]
      rw [List.drop_left, ih rest]

theorem runesFrom_encode {text : Text} (h : ∀ c ∈ text, Scalar c) :
    runesFrom 0 (text.flatMap encodeRune) = text :=
  Loop.encode ⟨fun n => by cases n <;> rfl, fun _ _ _ => rfl, fun _ _ => rfl⟩
    (fun _ s h => decodeRune_encodeRune h s) h

end Scalars

/-! ## The decoder of the Worker, on what is well-formed -/

namespace CfWorker

/-- An encoding of more than one byte is read alike. -/
theorem decodePoint_of_size {s : Bytes} (h : 1 < (Go.decodeRune s).2) :
    decodePoint s = Go.decodeRune s := by
  cases s with
  | nil => cases h
  | cons c s =>
    by_cases ascii : c < 0x80
    · simp only [Go.decodeRune, decodePoint, if_pos ascii]
    cases lead : Go.first c with
    | none =>
      simp only [Go.decodeRune, if_neg ascii, lead] at h
      exact absurd h (lt_irrefl 1)
    | some bounds =>
      obtain ⟨n, lo, hi⟩ := bounds
      simp only [Go.decodeRune, if_neg ascii, lead] at h
      simp only [Go.decodeRune, decodePoint, if_neg ascii, lead]
      split_ifs at h ⊢ <;> first | rfl | exact absurd h (lt_irrefl 1)

theorem decodePoint_encodeRune {r : Nat} (h : Scalar r) (s : Bytes) :
    decodePoint (Go.Server.encodeRune r ++ s) = (r, (Go.Server.encodeRune r).length) := by
  have go := decodeRune_encodeRune h s
  by_cases ascii : r < 0x80
  · have low : UInt8.ofNat r < 0x80 := (ascii_byte (by omega)).2 ascii
    simp only [Go.Server.encodeRune, if_pos ascii, List.cons_append, decodePoint, if_pos low,
      List.length_singleton]
    rw [toNat_byte (by omega)]
  · rw [← go]
    refine decodePoint_of_size ?_
    rw [go]
    simp only [Go.Server.encodeRune, if_neg ascii]
    split <;> simp
    split <;> simp

theorem pointsFrom_encode {text : Text} (h : ∀ c ∈ text, Scalar c) :
    pointsFrom 0 (text.flatMap Go.Server.encodeRune) = text :=
  Loop.encode ⟨fun n => by cases n <;> rfl, fun _ _ _ => rfl, fun _ _ => rfl⟩
    (fun _ s h => decodePoint_encodeRune h s) h

/-- A mark is all that is taken off. -/
theorem decodeText_encode {text : Text} (h : ∀ c ∈ text, Scalar c)
    (unmarked : text.head? ≠ some 0xfeff) :
    decodeText (text.flatMap Go.Server.encodeRune) = text := by
  unfold decodeText
  rw [pointsFrom_encode h]
  cases text with
  | nil => rfl
  | cons c text =>
    have other : c ≠ 0xfeff := fun same => unmarked (congrArg some same)
    simp only [if_neg other]

end CfWorker

end Shyake.Alike.Relayed
