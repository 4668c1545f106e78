import Mathlib.Algebra.Ring.Nat
import Shyake.Lib.Bytes

/-!
# Well-formed UTF-8

A byte string is well-formed when it is the encoding of a list of characters. It can be cut exactly
where the byte after the cut does not continue a character, so the longest part within a limit is
found by walking back from the limit over continuation bytes.
-/

namespace Shyake.Utf8

/-- `(c & 0xC0) == 0x80`. -/
def continuation (c : UInt8) : Bool := c &&& 0xC0 == 0x80

def encode (cs : List Char) : Bytes := cs.flatMap String.utf8EncodeChar

def WellFormed (s : Bytes) : Prop := ∃ cs, s = encode cs

@[simp] theorem encode_nil : encode [] = [] := rfl

@[simp] theorem encode_cons (c : Char) (cs : List Char) :
    encode (c :: cs) = String.utf8EncodeChar c ++ encode cs := rfl

theorem WellFormed.append {s t : Bytes} (hs : WellFormed s) (ht : WellFormed t) :
    WellFormed (s ++ t) := by
  obtain ⟨cs, rfl⟩ := hs
  obtain ⟨ds, rfl⟩ := ht
  exact ⟨cs ++ ds, List.flatMap_append.symm⟩

theorem forall_byte {p : UInt8 → Prop} (h : ∀ n < 256, p (UInt8.ofNat n)) (c : UInt8) :
    p c := by
  have := h c.toNat c.toNat_lt
  simpa using this

/-- A character is one byte that does not continue a character, and some that do. -/
theorem encodeChar_shape (c : Char) : ∃ b t, String.utf8EncodeChar c = b :: t ∧
    continuation b = false ∧ ∀ x ∈ t, continuation x = true := by
  have follows : ∀ x : UInt8, continuation (x &&& 0x3f ||| 0x80) = true :=
    forall_byte (by decide +kernel)
  have leads : ∀ x : UInt8, continuation (x &&& 0x1f ||| 0xc0) = false ∧
      continuation (x &&& 0x0f ||| 0xe0) = false ∧ continuation (x &&& 0x07 ||| 0xf0) = false :=
    forall_byte (by decide +kernel)
  have ascii : ∀ x : UInt8, x ≤ 0x7f → continuation x = false := forall_byte (by decide +kernel)
  rw [String.utf8EncodeChar_eq_utf8EncodeCharFast]
  unfold String.utf8EncodeCharFast
  extract_lets v
  split
  · rename_i small
    refine ⟨_, _, rfl, ascii _ ?_, by simp⟩
    rw [UInt32.le_iff_toNat_le] at small
    rw [UInt8.le_iff_toNat_le, UInt32.toNat_toUInt8]
    exact le_trans (Nat.mod_le _ _) small
  · split
    · exact ⟨_, _, rfl, (leads _).1, by simp [follows]⟩
    · split
      · exact ⟨_, _, rfl, (leads _).2.1, by simp [follows]⟩
      · exact ⟨_, _, rfl, (leads _).2.2, by simp [follows]⟩

/-- The first byte of a character says how many follow. -/
theorem encodeChar_lead (c : Char) : ∃ b t, String.utf8EncodeChar c = b :: t ∧
    (∀ x ∈ t, continuation x = true) ∧
    (t.length = 0 ∧ b < 0x80 ∨ t.length = 1 ∧ 0xC2 ≤ b ∧ b < 0xE0 ∨
      t.length = 2 ∧ 0xE0 ≤ b ∧ b < 0xF0 ∨ t.length = 3 ∧ 0xF0 ≤ b ∧ b < 0xF8) := by
  have follows : ∀ x : UInt8, continuation (x &&& 0x3f ||| 0x80) = true :=
    forall_byte (by decide +kernel)
  have two : ∀ x : UInt8, x &&& 0x1f ||| 0xc0 < 0xe0 ∧
      (2 ≤ x → x < 32 → 0xc2 ≤ x &&& 0x1f ||| 0xc0) := forall_byte (by decide +kernel)
  have three : ∀ x : UInt8, 0xe0 ≤ x &&& 0x0f ||| 0xe0 ∧ x &&& 0x0f ||| 0xe0 < 0xf0 :=
    forall_byte (by decide +kernel)
  have four : ∀ x : UInt8, 0xf0 ≤ x &&& 0x07 ||| 0xf0 ∧ x &&& 0x07 ||| 0xf0 < 0xf8 :=
    forall_byte (by decide +kernel)
  rw [String.utf8EncodeChar_eq_utf8EncodeCharFast]
  unfold String.utf8EncodeCharFast
  extract_lets v
  split
  · rename_i small
    refine ⟨_, _, rfl, by simp, .inl ⟨rfl, ?_⟩⟩
    rw [UInt32.le_iff_toNat_le] at small
    rw [UInt8.lt_iff_toNat_lt, UInt32.toNat_toUInt8]
    exact lt_of_le_of_lt (Nat.mod_le _ _) (lt_of_le_of_lt small (by decide))
  rename_i large
  split
  · rename_i small
    rw [UInt32.le_iff_toNat_le] at small large
    have low : 128 ≤ v.toNat := Nat.lt_of_not_le large
    have high : v.toNat ≤ 2047 := small
    have lead : (v >>> 6).toUInt8.toNat = v.toNat / 64 := by
      rw [UInt32.toNat_toUInt8, UInt32.toNat_shiftRight]
      change v.toNat >>> 6 % 256 = _
      rw [Nat.shiftRight_eq_div_pow]
      omega
    refine ⟨_, _, rfl, by simp [follows], .inr (.inl ⟨rfl, (two _).2 ?_ ?_, (two _).1⟩)⟩
    · rw [UInt8.le_iff_toNat_le, lead]
      change 2 ≤ _
      omega
    · rw [UInt8.lt_iff_toNat_lt, lead]
      change _ < 32
      omega
  · split
    · exact ⟨_, _, rfl, by simp [follows], .inr (.inr (.inl ⟨rfl, three _⟩))⟩
    · exact ⟨_, _, rfl, by simp [follows], .inr (.inr (.inr ⟨rfl, four _⟩))⟩

theorem toNat_shiftRight_toUInt8 (v : UInt32) (k : UInt32) :
    (v >>> k).toUInt8.toNat = v.toNat / 2 ^ (k.toNat % 32) % 256 := by
  rw [UInt32.toNat_toUInt8, UInt32.toNat_shiftRight, Nat.shiftRight_eq_div_pow]

/-- A character is in its shortest form: after a first byte that gives nothing, the second one
gives what the shorter form has no room for. -/
theorem encodeChar_shortest (c : Char) {x : UInt8} {t : Bytes} :
    (String.utf8EncodeChar c = 0xE0 :: x :: t → 0xA0 ≤ x) ∧
    (String.utf8EncodeChar c = 0xF0 :: x :: t → 0x90 ≤ x) := by
  have two : ∀ x : UInt8, x &&& 0x1f ||| 0xc0 ≠ 0xe0 ∧ x &&& 0x1f ||| 0xc0 ≠ 0xf0 :=
    forall_byte (by decide +kernel)
  have three : ∀ x : UInt8, x &&& 0x0f ||| 0xe0 ≠ 0xf0 ∧
      (x < 16 → x &&& 0x0f ||| 0xe0 = 0xe0 → x = 0) := forall_byte (by decide +kernel)
  have four : ∀ x : UInt8, x &&& 0x07 ||| 0xf0 ≠ 0xe0 ∧
      (x < 8 → x &&& 0x07 ||| 0xf0 = 0xf0 → x = 0) := forall_byte (by decide +kernel)
  have follows : ∀ x : UInt8, x < 64 → (32 ≤ x → 0xa0 ≤ x &&& 0x3f ||| 0x80) ∧
      (16 ≤ x → 0x90 ≤ x &&& 0x3f ||| 0x80) := forall_byte (by decide +kernel)
  have bound : c.val.toNat < 0x110000 := by
    rcases c.valid with low | high
    · exact Nat.lt_trans low (by decide)
    · exact high.2
  rw [String.utf8EncodeChar_eq_utf8EncodeCharFast]
  unfold String.utf8EncodeCharFast
  extract_lets v
  change v.toNat < 0x110000 at bound
  simp only [UInt32.le_iff_toNat_le]
  split_ifs with small middle large
  · simp
  · simp [two]
  · refine ⟨fun shape => ?_, by simp [three]⟩
    simp only [List.cons.injEq] at shape
    obtain ⟨lead, rfl, -⟩ := shape
    have top : (v >>> 12).toUInt8.toNat = v.toNat / 4096 % 256 := toNat_shiftRight_toUInt8 v 12
    have next : (v >>> 6).toUInt8.toNat = v.toNat / 64 % 256 := toNat_shiftRight_toUInt8 v 6
    change ¬ v.toNat ≤ 2047 at middle
    change v.toNat ≤ 65535 at large
    have nothing := (three (v >>> 12).toUInt8).2
      (UInt8.lt_iff_toNat_lt.mpr (by rw [top]; change _ < 16; omega)) lead
    rw [← UInt8.toNat_inj, top] at nothing
    change _ = 0 at nothing
    refine (follows _ (UInt8.lt_iff_toNat_lt.mpr ?_)).1 (UInt8.le_iff_toNat_le.mpr ?_)
    · rw [next]
      change _ < 64
      omega
    · rw [next]
      change 32 ≤ _
      omega
  · refine ⟨by simp [four], fun shape => ?_⟩
    simp only [List.cons.injEq] at shape
    obtain ⟨lead, rfl, -⟩ := shape
    have top : (v >>> 18).toUInt8.toNat = v.toNat / 262144 % 256 := toNat_shiftRight_toUInt8 v 18
    have next : (v >>> 12).toUInt8.toNat = v.toNat / 4096 % 256 := toNat_shiftRight_toUInt8 v 12
    change ¬ v.toNat ≤ 65535 at large
    have nothing := (four (v >>> 18).toUInt8).2
      (UInt8.lt_iff_toNat_lt.mpr (by rw [top]; change _ < 8; omega)) lead
    rw [← UInt8.toNat_inj, top] at nothing
    change _ = 0 at nothing
    refine (follows _ (UInt8.lt_iff_toNat_lt.mpr ?_)).2 (UInt8.le_iff_toNat_le.mpr ?_)
    · rw [next]
      change _ < 64
      omega
    · rw [next]
      change 16 ≤ _
      omega

/-- No character's encoding starts another's. -/
theorem encodeChar_append_inj {c d : Char} {s t : Bytes}
    (h : String.utf8EncodeChar c ++ s = String.utf8EncodeChar d ++ t) : c = d ∧ s = t := by
  have decode : ∀ (e : Char) (u : Bytes),
      ByteArray.utf8DecodeChar? (String.utf8EncodeChar e ++ u).toByteArray 0 = some e := by
    intro e u
    rw [List.toByteArray_append]
    exact ByteArray.utf8DecodeChar?_utf8EncodeChar_append
  have same : c = d := by
    have hc := decode c s
    rw [h, decode d t] at hc
    exact (Option.some.inj hc).symm
  subst same
  exact ⟨rfl, List.append_cancel_left h⟩

/-- What is left of a well-formed string without a well-formed front is well-formed. -/
theorem WellFormed.of_append {s t : Bytes} (hs : WellFormed s) (h : WellFormed (s ++ t)) :
    WellFormed t := by
  obtain ⟨cs, rfl⟩ := hs
  obtain ⟨ds, h⟩ := h
  induction cs generalizing ds with
  | nil => exact ⟨ds, h⟩
  | cons c cs ih =>
    cases ds with
    | nil =>
      obtain ⟨b, u, shape, -⟩ := encodeChar_shape c
      simp [shape] at h
    | cons d ds =>
      simp only [encode_cons, List.append_assoc] at h
      exact ih ds (encodeChar_append_inj h).2

theorem WellFormed.head {b : UInt8} {t : Bytes} (h : WellFormed (b :: t)) :
    continuation b = false := by
  obtain ⟨cs, h⟩ := h
  cases cs with
  | nil => cases h
  | cons c cs =>
    obtain ⟨b', u, shape, first, -⟩ := encodeChar_shape c
    rw [encode_cons, shape] at h
    cases h
    exact first

/-- A cut before a byte that does not continue a character. -/
theorem WellFormed.take {s : Bytes} (h : WellFormed s) {n : Nat}
    (cut : ∀ c, s[n]? = some c → continuation c = false) : WellFormed (s.take n) := by
  obtain ⟨cs, rfl⟩ := h
  induction cs generalizing n with
  | nil => exact ⟨[], by simp⟩
  | cons c cs ih =>
    obtain ⟨b, u, shape, -, follow⟩ := encodeChar_shape c
    rcases Nat.eq_zero_or_pos n with rfl | pos
    · exact ⟨[], by simp⟩
    by_cases inside : n < (String.utf8EncodeChar c).length
    · -- within the character, whose other bytes all continue it
      obtain ⟨m, rfl⟩ : ∃ m, n = m + 1 := ⟨n - 1, by omega⟩
      have bound : m < u.length := by
        rw [shape, List.length_cons] at inside
        omega
      have here : (encode (c :: cs))[m + 1]? = some u[m] := by
        simp [shape, List.getElem?_append_left bound]
      have := cut _ here
      rw [follow _ (List.getElem_mem _)] at this
      cases this
    · rw [encode_cons, List.take_append, List.take_of_length_le (by omega)]
      refine WellFormed.append ⟨[c], by simp⟩ (ih fun x hx => cut x ?_)
      rw [encode_cons, List.getElem?_append_right (by omega)]
      exact hx

/-- A well-formed string falls into two before every byte that does not continue a character. -/
theorem WellFormed.cut {s t : Bytes} {c : UInt8} (h : WellFormed (s ++ c :: t))
    (first : continuation c = false) : WellFormed s ∧ WellFormed (c :: t) := by
  have front := h.take (show ∀ d, (s ++ c :: t)[s.length]? = some d → continuation d = false by simp [first])
  rw [List.take_left] at front
  exact ⟨front, front.of_append h⟩

theorem continuation_ascii {c : UInt8} (small : c < 0x80) : continuation c = false := by
  have table : ∀ n : Fin 128, continuation (UInt8.ofNat n) = false := by decide
  simpa using table ⟨c.toNat, UInt8.lt_iff_toNat_lt.mp small⟩

theorem wellFormed_ascii {c : UInt8} (small : c < 0x80) : WellFormed [c] := by
  have table : ∀ n : Fin 128, encode [Char.ofNat n] = [UInt8.ofNat n] := by decide
  have here := table ⟨c.toNat, UInt8.lt_iff_toNat_lt.mp small⟩
  exact ⟨[Char.ofNat c.toNat], by simpa using here.symm⟩

theorem WellFormed.tail {c : UInt8} {t : Bytes} (h : WellFormed (c :: t)) (small : c < 0x80) :
    WellFormed t :=
  (wellFormed_ascii small).of_append h

/-- Of the well-formed fronts of a well-formed string, those within `limit` bytes are no longer than
`n`, when every byte after `n` and up to `limit` continues a character. -/
theorem length_le_of_front {s p : Bytes} {n limit : Nat} (h : WellFormed s) (hp : WellFormed p)
    (front : p <+: s) (fits : p.length ≤ limit)
    (between : ∀ i, n < i → i ≤ limit → ∀ c, s[i]? = some c → continuation c = true)
    (short : n ≤ s.length) (whole : s.length ≤ limit → n = s.length) : p.length ≤ n := by
  obtain ⟨t, rfl⟩ := front
  by_contra longer
  have rest := hp.of_append h
  cases t with
  | nil =>
    simp only [List.append_nil] at whole short
    exact longer (by rw [whole fits])
  | cons b t =>
    have := between p.length (by omega) fits b (by simp)
    rw [rest.head] at this
    cases this

end Shyake.Utf8
