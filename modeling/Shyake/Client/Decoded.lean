import Shyake.Client.Base64

/-!
# What `base64_decode` reports

`EVP_DecodeBlock` trims the text by its own rules and writes three bytes for every four
characters; `base64_decode` takes off what the end of its own, differently trimmed text
says. The two agree on texts that are padded as usual, and on no others.
-/

namespace Shyake.Client

open Go.Protocol (b64Value)

/-- A digit of one of the two alphabets. -/
def isDigit64 (c : UInt8) : Bool := (b64Value (standard c)).isSome

/-- A text encodes the whole bytes in its digits, of six bits each. -/
def encodedLength (b64 : Bytes) : Nat := 6 * b64.countP isDigit64 / 8

/-- What is reported is the number of bytes the text encodes, and no more than were written. -/
def ReportsRight (b64 out : Bytes) (len : Int) : Prop :=
  0 ≤ len ∧ len ≤ out.length ∧ len = encodedLength b64

/-- Padded as usual, by one or two "=" at the end and nowhere else; or not padded at the end, with as
many "=" before it as the length asks for. -/
inductive WellPadded (text : Bytes) : Prop where
  | one (s : Bytes) (made : text = s ++ [61]) (bare : (61 : UInt8) ∉ s)
  | two (s : Bytes) (made : text = s ++ [61, 61]) (bare : (61 : UInt8) ∉ s)
  | other (last : text.getLast? ≠ some 61) (inside : text.count 61 =
      if text.length % 4 = 2 then 2 else if text.length % 4 = 3 then 1 else 0)

/-- The characters that `EVP_DecodeBlock` decodes, of a text whose length it takes as an `int`. -/
def lookedAt (text : Bytes) : Nat :=
  (text.take (toInt text.length).toNat).countP fun c => isDigit64 c || c == 61

/-- The texts that are reported right. From 2³¹ bytes on a part of the text is not looked at. -/
def ReportedRight (b64 : Bytes) : Prop :=
  if (strip b64).length < 2 ^ 31 then WellPadded (strip b64)
  else encodedLength b64 + padding (strip b64) = 6 * lookedAt (strip b64) / 8

theorem padding_le (text : Bytes) : padding text ≤ 2 := by
  unfold padding
  split
  · omega
  · omega
  split
  · omega
  split <;> omega

/-- The padding that is counted is the padding that is there. -/
theorem wellPadded_iff {text : Bytes} : WellPadded text ↔ text.count 61 = padding text := by
  rw [← text.reverse_reverse]
  generalize text.reverse = back
  unfold padding
  rw [List.count_reverse, List.reverse_reverse, List.length_reverse]
  constructor
  · rintro (⟨s, made, bare⟩ | ⟨s, made, bare⟩ | ⟨last, inside⟩)
    · have made : back = 61 :: s.reverse := by
        rw [← List.reverse_reverse back, made]
        simp
      have absent : (61 : UInt8) ∉ s.reverse := by simpa using bare
      rw [made, List.count_cons_self, List.count_eq_zero.mpr absent]
      split
      · rename_i rest same
        exact absurd (show (61 : UInt8) ∈ s.reverse by
          rw [(List.cons.inj same).2]
          exact List.mem_cons_self) absent
      · rfl
      · rename_i other
        exact absurd rfl (other _)
    · have made : back = 61 :: 61 :: s.reverse := by
        rw [← List.reverse_reverse back, made]
        simp
      have absent : (61 : UInt8) ∉ s.reverse := by simpa using bare
      rw [made, List.count_cons_self, List.count_cons_self, List.count_eq_zero.mpr absent]
      rfl
    · rw [List.getLast?_reverse] at last
      rw [List.count_reverse, List.length_reverse] at inside
      split
      · exact absurd rfl last
      · exact absurd rfl last
      · exact inside
  · intro same
    split at same
    · rename_i rest
      simp only [List.count_cons_self] at same
      exact .two rest.reverse (by simp) (by
        rw [List.mem_reverse]
        exact List.count_eq_zero.mp (by omega))
    · rename_i rest other
      simp only [List.count_cons_self] at same
      exact .one rest.reverse (by simp) (by
        rw [List.mem_reverse]
        exact List.count_eq_zero.mp (by omega))
    · rename_i other more
      refine .other ?_ (by rw [List.count_reverse, List.length_reverse, same])
      rw [List.getLast?_reverse]
      cases back with
      | nil => exact nofun
      | cons c cs =>
        intro first
        cases first
        exact more cs rfl

/-! ## What is decoded -/

theorem length_decodeQuanta {core out : Bytes} (h : decodeQuanta core = some out) :
    core.length % 4 = 0 ∧ out.length = 3 * core.length / 4 ∧
      ∀ c ∈ core, (asciiToBin c).isSome = true := by
  induction core using decodeQuanta.induct generalizing out with
  | case1 =>
    cases h
    exact ⟨rfl, rfl, List.forall_mem_nil _⟩
  | case2 a b c d rest ih =>
    simp only [decodeQuanta, Option.bind_eq_bind, Option.bind_eq_some_iff, Option.some.injEq] at h
    obtain ⟨va, ha, vb, hb, vc, hc, vd, hd, tail, ht, rfl⟩ := h
    obtain ⟨whole, length, values⟩ := ih ht
    refine ⟨?_, ?_, ?_⟩
    · simp only [List.length_cons]
      omega
    · simp only [List.length_cons, length]
      omega
    · simp only [List.mem_cons]
      rintro x (rfl | rfl | rfl | rfl | mem)
      · rw [ha]
        rfl
      · rw [hb]
        rfl
      · rw [hc]
        rfl
      · rw [hd]
        rfl
      · exact values x mem
  | case3 core empty quantum =>
    rw [decodeQuanta.eq_3 core empty quantum] at h
    cases h

/-- The white space around what is decoded, where "-" is an end as well. -/
def isAround (c : UInt8) : Prop := c = 32 ∨ c = 9 ∨ c = 10 ∨ c = 13 ∨ c = 45

theorem stripBack_spec (s : Bytes) : ∃ pre, s = pre ++ stripBack s ∧ ∀ c ∈ pre, isAround c := by
  induction s with
  | nil => exact ⟨[], rfl, nofun⟩
  | cons c cs ih =>
    unfold stripBack
    split
    · rename_i around
      obtain ⟨pre, made, all⟩ := ih
      refine ⟨c :: pre, congrArg (c :: ·) made, ?_⟩
      simp only [List.mem_cons]
      rintro x (rfl | mem)
      · exact around.2
      · exact all x mem
    · exact ⟨[], rfl, nofun⟩

/-- What `EVP_DecodeBlock` decodes, between the white space. -/
theorem decodeBlock_spec {f out : Bytes} (h : decodeBlock f = some out) :
    ∃ pre core post, f = pre ++ core ++ post ∧ (∀ c ∈ pre, c = 32 ∨ c = 9) ∧
      (∀ c ∈ post, isAround c) ∧ decodeQuanta core = some out := by
  have front : ∀ c ∈ f.takeWhile (fun c => c == 32 || c == 9), c = 32 ∨ c = 9 := by
    intro c mem
    simpa using List.mem_takeWhile_imp mem
  obtain ⟨post, made, all⟩ := stripBack_spec (f.dropWhile fun c => c == 32 || c == 9).reverse
  refine ⟨f.takeWhile fun c => c == 32 || c == 9, _, post.reverse, ?_, front, ?_, h⟩
  · have back := congrArg List.reverse made
    rw [List.reverse_reverse, List.reverse_append] at back
    rw [List.append_assoc, ← back, List.takeWhile_append_dropWhile]
  · intro c mem
    exact all c (List.mem_reverse.mp mem)

/-- A character of a text in the standard alphabet that is decoded, and not only skipped. -/
def isDecoded (c : UInt8) : Bool := (asciiToBin c).isSome

theorem isDecoded_of_around {c : UInt8} (h : isAround c) : isDecoded c = false := by
  rcases h with rfl | rfl | rfl | rfl | rfl <;> rfl

theorem length_decodeBlock {f out : Bytes} (h : decodeBlock f = some out) :
    f.countP isDecoded % 4 = 0 ∧ out.length = 3 * f.countP isDecoded / 4 := by
  obtain ⟨pre, core, post, rfl, front, back, decoded⟩ := decodeBlock_spec h
  obtain ⟨whole, length, values⟩ := length_decodeQuanta decoded
  have none_ : ∀ {s : Bytes}, (∀ c ∈ s, isAround c) → s.countP isDecoded = 0 := by
    intro s all
    rw [List.countP_eq_zero]
    intro c mem
    rw [isDecoded_of_around (all c mem)]
    exact Bool.false_ne_true
  have all : core.countP isDecoded = core.length := List.countP_eq_length.mpr values
  have pre_ : ∀ c ∈ pre, isAround c := by
    intro c mem
    rcases front c mem with rfl | rfl
    · exact .inl rfl
    · exact .inr (.inl rfl)
  rw [List.countP_append, List.countP_append, none_ pre_, none_ back, all]
  simp only [Nat.zero_add, Nat.add_zero]
  exact ⟨whole, length⟩

private theorem standard_table : ∀ n : Fin 256,
    isDecoded (standard (UInt8.ofNat n)) = (isDigit64 (UInt8.ofNat n) || UInt8.ofNat n == 61) ∧
      ¬ (isDigit64 (UInt8.ofNat n) = true ∧ UInt8.ofNat n = 61) := by
  decide +kernel

theorem isDecoded_standard (c : UInt8) : isDecoded (standard c) = (isDigit64 c || c == 61) := by
  have table := (standard_table ⟨c.toNat, c.toNat_lt⟩).1
  simpa only [UInt8.ofNat_toNat] using table

theorem not_digit_and_pad (c : UInt8) : ¬ (isDigit64 c = true ∧ c = 61) := by
  have table := (standard_table ⟨c.toNat, c.toNat_lt⟩).2
  simpa only [UInt8.ofNat_toNat] using table

/-- What is decoded is digits and padding. -/
theorem countP_decoded (s : Bytes) :
    s.countP (fun c => isDigit64 c || c == 61) = s.countP isDigit64 + s.count 61 := by
  induction s with
  | nil => rfl
  | cons c cs ih =>
    have apart := not_digit_and_pad c
    rw [List.countP_cons, List.countP_cons, List.count_cons, ih]
    by_cases digit : isDigit64 c = true
    · have other : ¬ c = 61 := fun same => apart ⟨digit, same⟩
      simp only [digit, Bool.true_or, if_true, beq_iff_eq, other, if_false]
      omega
    · simp only [Bool.not_eq_true] at digit
      simp only [digit, Bool.false_or, Bool.false_eq_true, if_false]
      omega

/-- Nothing that `strip` removes is a digit. -/
theorem countP_strip (s : Bytes) : (strip s).countP isDigit64 = s.countP isDigit64 := by
  induction s using List.reverseRecOn with
  | nil => rfl
  | append_singleton s c ih =>
    unfold strip at ih ⊢
    rw [List.rdropWhile_concat]
    split
    · rename_i space
      have none_ : isDigit64 c = false := by
        simp only [Bool.or_eq_true, beq_iff_eq] at space
        rcases space with (rfl | rfl) | rfl <;> rfl
      rw [ih, List.countP_append, List.countP_cons, none_]
      rfl
    · rfl

theorem encodedLength_strip (b64 : Bytes) : encodedLength (strip b64) = encodedLength b64 := by
  unfold encodedLength
  rw [countP_strip]

theorem countP_standard (s : Bytes) (n : Nat) : ((s.map standard).take n).countP isDecoded =
    (s.take n).countP fun c => isDigit64 c || c == 61 := by
  rw [← List.map_take, List.countP_map]
  refine List.countP_congr fun c _ => ?_
  rw [Function.comp_apply, isDecoded_standard]

/-- The buffer of `base64_decode`, and what it takes off. -/
theorem base64Decode_spec {b64 out : Bytes} {len : Int} (h : base64Decode b64 = some (out, len)) :
    lookedAt (strip b64) % 4 = 0 ∧ out.length = 3 * lookedAt (strip b64) / 4 ∧
      len = out.length - padding (strip b64) := by
  unfold base64Decode at h
  dsimp only at h
  split at h
  · cases h
  obtain ⟨out', decoded, same⟩ := Option.map_eq_some_iff.mp h
  obtain ⟨rfl, rfl⟩ := Prod.mk.inj same
  have counted := length_decodeBlock decoded
  rw [countP_standard] at counted
  exact ⟨counted.1, counted.2, rfl⟩

/-- **`base64_decode` reports the right length** exactly for texts padded as usual. -/
theorem reportsRight_iff {b64 out : Bytes} {len : Int} (h : base64Decode b64 = some (out, len)) :
    ReportsRight b64 out len ↔ ReportedRight b64 := by
  obtain ⟨whole, length, rfl⟩ := base64Decode_spec h
  have few := padding_le (strip b64)
  unfold ReportsRight ReportedRight
  split
  · rename_i small
    have all : lookedAt (strip b64) = (strip b64).countP isDigit64 + (strip b64).count 61 := by
      unfold lookedAt
      rw [toInt_of_small small, Int.toNat_natCast, List.take_length, countP_decoded]
    rw [wellPadded_iff, ← encodedLength_strip]
    unfold encodedLength
    clear small h
    omega
  · rename_i large
    clear large h
    omega

/-- Encoding and decoding give the data back. -/
def RoundTrips (data : Bytes) : Prop :=
  ∃ b64 out, base64Encode data = some b64 ∧ base64Decode b64 = some (out, (data.length : Int)) ∧
    out.take data.length = data

theorem roundTrips_iff (data : Bytes) : RoundTrips data ↔ data.length ≤ maxLength := by
  constructor
  · rintro ⟨b64, out, encoded, decoded, -⟩
    by_contra large
    obtain ⟨n, few, rfl⟩ := base64Encode_of_large (not_le.mp large) encoded
    have short : (data.take n).length ≤ maxLength := by
      rw [List.length_take]
      omega
    rw [base64Decode_encodeBlock short] at decoded
    have length := (Prod.mk.inj (Option.some.inj decoded)).2
    rw [List.length_take] at length
    omega
  · intro small
    exact ⟨_, _, base64Encode_of_small small, base64Decode_encodeBlock small, List.take_left⟩

/-- **What `base64_decode` reports**, for every text, and which data comes back from its own
encoding. -/
theorem base64_lengths (b64 data : Bytes) :
    (∀ out len, base64Decode b64 = some (out, len) →
      (ReportsRight b64 out len ↔ ReportedRight b64)) ∧
    (RoundTrips data ↔ data.length ≤ maxLength) :=
  ⟨fun _ _ decoded => reportsRight_iff decoded, roundTrips_iff data⟩

/-- Two tabs are decoded to nothing, and reported with a length below zero. -/
theorem two_tabs : base64Decode [9, 9] = some ([], -2) ∧ ¬ ReportsRight [9, 9] [] (-2) := by
  refine ⟨by decide, fun right => ?_⟩
  have positive := right.1
  omega

/-- The same text, for the theorem. -/
theorem base64_lengths_tabs : ReportsRight [9, 9] [] (-2) ↔ ReportedRight [9, 9] :=
  (base64_lengths [9, 9] []).1 [] (-2) (by decide)

end Shyake.Client
