import Shyake.Go.Protocol.Identity

/-!
# Stored forms are canonical (`internal/protocol/address.go`)

Two spellings that `ParseBlockTarget` accepts have one stored form exactly when they name
the same thing, and a stored form reads back as the address it is the form of.

What two spellings of a domain have to share is settled by `strings.ToLower`: it lowers
the ASCII letters, and it takes two signs outside ASCII for letters of it.
-/

namespace Shyake.Go.Protocol

/-! ## Letter case -/

/-- Lower case in ASCII. -/
def asciiLower (s : Bytes) : Bytes := s.map fun c => if isUpper c then c + 32 else c

/-- The dotted capital I and the Kelvin sign as the ASCII letters they lower like. -/
def asciiLetters : Bytes → Bytes
  | 0xc4 :: 0xb0 :: s => 73 :: asciiLetters s
  | 0xe2 :: 0x84 :: 0xaa :: s => 75 :: asciiLetters s
  | c :: s => c :: asciiLetters s
  | [] => []

theorem decodeRune_dotted (s : Bytes) : decodeRune (0xc4 :: 0xb0 :: s) = (0x130, 2) := by
  simp [decodeRune, first, within]

theorem decodeRune_kelvin (s : Bytes) : decodeRune (0xe2 :: 0x84 :: 0xaa :: s) = (0x212a, 3) := by
  simp [decodeRune, first, within]

/-- The encoding of the dotted capital I. -/
theorem dotted_of_rune {c : UInt8} {cs : Bytes} (high : ¬ c < 0x80)
    (rune : (decodeRune (c :: cs)).1 = 0x130) : ∃ rest, c :: cs = 0xc4 :: 0xb0 :: rest := by
  rcases decodeRune_cases cs high with eq | ⟨x, cs, rfl, low, top, tx, eq⟩ |
    ⟨x, y, cs, rfl, low, top, tight, tx, ty, eq⟩ |
    ⟨x, y, z, cs, rfl, low, top, tight, last, tx, ty, tz, eq⟩ <;> rw [eq] at rune
  · exact absurd rune (by decide)
  · simp only [trails, UInt8.le_iff_toNat_le, UInt8.reduceToNat] at rune low top tx
    refine ⟨cs, ?_⟩
    rw [show c = 0xc4 from UInt8.toNat_inj.mp (by simp; omega),
      show x = 0xb0 from UInt8.toNat_inj.mp (by simp; omega)]
  · simp only [trails, UInt8.le_iff_toNat_le, UInt8.reduceToNat, ← UInt8.toNat_inj]
      at rune low top tight tx ty
    omega
  · simp only [trails, UInt8.le_iff_toNat_le, UInt8.reduceToNat, ← UInt8.toNat_inj]
      at rune low top tight tx ty tz
    omega

/-- The encoding of the Kelvin sign. -/
theorem kelvin_of_rune {c : UInt8} {cs : Bytes} (high : ¬ c < 0x80)
    (rune : (decodeRune (c :: cs)).1 = 0x212a) :
    ∃ rest, c :: cs = 0xe2 :: 0x84 :: 0xaa :: rest := by
  rcases decodeRune_cases cs high with eq | ⟨x, cs, rfl, low, top, tx, eq⟩ |
    ⟨x, y, cs, rfl, low, top, tight, tx, ty, eq⟩ |
    ⟨x, y, z, cs, rfl, low, top, tight, last, tx, ty, tz, eq⟩ <;> rw [eq] at rune
  · exact absurd rune (by decide)
  · simp only [trails, UInt8.le_iff_toNat_le, UInt8.reduceToNat] at rune low top tx
    omega
  · simp only [trails, UInt8.le_iff_toNat_le, UInt8.reduceToNat] at rune low top tx ty
    refine ⟨cs, ?_⟩
    rw [show c = 0xe2 from UInt8.toNat_inj.mp (by simp; omega),
      show x = 0x84 from UInt8.toNat_inj.mp (by simp; omega),
      show y = 0xaa from UInt8.toNat_inj.mp (by simp; omega)]
  · simp only [trails, UInt8.le_iff_toNat_le, UInt8.reduceToNat, ← UInt8.toNat_inj]
      at rune low top tight tx ty tz
    omega

/-- Any other byte stays. -/
theorem asciiLetters_cons {c : UInt8} {s : Bytes} (dotted : ∀ r, c :: s ≠ 0xc4 :: 0xb0 :: r)
    (kelvin : ∀ r, c :: s ≠ 0xe2 :: 0x84 :: 0xaa :: r) :
    asciiLetters (c :: s) = c :: asciiLetters s := by
  rw [asciiLetters]
  · intro r head tail
    exact dotted r (by rw [head, tail])
  · intro r head tail
    exact kelvin r (by rw [head, tail])

theorem asciiLetters_trails {a : Bytes} (b : Bytes) (ha : ∀ x ∈ a, trails x) :
    asciiLetters (a ++ b) = a ++ asciiLetters b := by
  induction a with
  | nil => rfl
  | cons x a ih =>
    have here := (ha x List.mem_cons_self).2
    rw [List.cons_append, asciiLetters_cons, ih fun y mem => ha y (List.mem_cons_of_mem _ mem)]
    · rfl
    · rintro r same
      obtain ⟨rfl, -⟩ := List.cons.inj same
      exact absurd here (by decide)
    · rintro r same
      obtain ⟨rfl, -⟩ := List.cons.inj same
      exact absurd here (by decide)

theorem not_upper_of_high {c : UInt8} (high : ¬ c < 0x80) : ¬ isUpper c = true := by
  simp only [isUpper, Bool.and_eq_true, decide_eq_true_eq, UInt8.le_iff_toNat_le,
    UInt8.lt_iff_toNat_lt, UInt8.reduceToNat] at high ⊢
  omega

theorem high_of_trails {c : UInt8} (h : trails c) : ¬ c < 0x80 := UInt8.not_lt.mpr h.1

theorem asciiLower_high {a : Bytes} (b : Bytes) (ha : ∀ x ∈ a, ¬ x < 0x80) :
    asciiLower (a ++ b) = a ++ asciiLower b := by
  induction a with
  | nil => rfl
  | cons x a ih =>
    have here := not_upper_of_high (ha x List.mem_cons_self)
    show (if isUpper x then x + 32 else x) :: asciiLower (a ++ b) = x :: (a ++ asciiLower b)
    rw [if_neg here, ih fun y mem => ha y (List.mem_cons_of_mem _ mem)]

/-- The loop of `ToLower`, inside a rune or before one. -/
theorem toLowerFrom_eq (s : Bytes) (n : Nat) (skipped : ∀ x ∈ s.take n, trails x) :
    toLowerFrom n s = asciiLower (asciiLetters (s.drop n)) := by
  induction s generalizing n with
  | nil => cases n <;> rfl
  | cons c s ih =>
    cases n with
    | succ n => exact ih n fun x mem => skipped x (List.mem_cons_of_mem _ mem)
    | zero =>
      by_cases ascii : c < 0x80
      · have stays : asciiLetters (c :: s) = c :: asciiLetters s := by
          refine asciiLetters_cons ?_ ?_
          all_goals
            rintro r same
            obtain ⟨rfl, -⟩ := List.cons.inj same
            exact absurd ascii (by decide)
        rw [List.drop_zero, stays, toLowerFrom, if_pos ascii, ih 0 (by simp)]
        rfl
      · have tail := ih ((decodeRune (c :: s)).2 - 1) (trails_of_rune s ascii)
        rw [List.drop_zero, toLowerFrom, if_neg ascii]
        dsimp only
        rw [tail]
        by_cases dotted : (decodeRune (c :: s)).1 = 0x130
        · obtain ⟨r, same⟩ := dotted_of_rune ascii dotted
          obtain ⟨rfl, rfl⟩ := List.cons.inj same
          rw [decodeRune_dotted]
          rfl
        · by_cases kelvin : (decodeRune (c :: s)).1 = 0x212a
          · obtain ⟨r, same⟩ := kelvin_of_rune ascii kelvin
            obtain ⟨rfl, rfl⟩ := List.cons.inj same
            rw [decodeRune_kelvin]
            rfl
          · have none : lowerToASCII (decodeRune (c :: s)).1 = none := by
              rw [lowerToASCII, if_neg dotted, if_neg kelvin]
            have stays : asciiLetters (c :: s) = c :: asciiLetters s := by
              refine asciiLetters_cons ?_ ?_
              · intro r same
                exact dotted (by rw [same, decodeRune_dotted])
              · intro r same
                exact kelvin (by rw [same, decodeRune_kelvin])
            -- the bytes of the rune stay as they are
            obtain ⟨n, size⟩ : ∃ n, (decodeRune (c :: s)).2 = n + 1 := size_of_rune s ascii
            have trail := trails_of_rune s ascii
            rw [size, Nat.add_sub_cancel] at trail ⊢
            rw [none, stays]
            dsimp only
            rw [← List.take_append_drop n s, asciiLetters_trails _ trail,
              List.take_append_drop n s, ← List.cons_append, List.take_succ_cons]
            refine (asciiLower_high _ fun x mem => ?_).symm
            rcases List.mem_cons.mp mem with rfl | mem
            · exact ascii
            · exact high_of_trails (trail x mem)

/-- **What `strings.ToLower` lowers**: the ASCII letters, and two signs as if they were such. -/
theorem toLower_eq (s : Bytes) : toLower s = asciiLower (asciiLetters s) :=
  toLowerFrom_eq s 0 (by simp)

/-- A spelling in ASCII has no sign to take for a letter. -/
theorem asciiLetters_ascii {s : Bytes} (ascii : ∀ c ∈ s, c < 0x80) : asciiLetters s = s := by
  induction s with
  | nil => rfl
  | cons c s ih =>
    have here := ascii c List.mem_cons_self
    rw [asciiLetters_cons, ih fun x mem => ascii x (List.mem_cons_of_mem _ mem)]
    all_goals
      rintro r same
      obtain ⟨rfl, -⟩ := List.cons.inj same
      exact absurd here (by decide)

/-! ## Spellings of one thing -/

/-- A dotted string without "@", which is a domain. -/
def Bare (s : Bytes) : Prop := (64 : UInt8) ∉ s ∧ (46 : UInt8) ∈ s

/-- Two spellings of one thing on the instance `d`, where `same` tells whether two domains are
one: of a user, who is on `d` when no domain is named, or of a domain. -/
def SameIdentity (same : Bytes → Bytes → Prop) (d s t : Bytes) : Prop :=
  Bare s ∧ Bare t ∧ same s t ∨
  ¬ Bare s ∧ ¬ Bare t ∧ (Bytes.cut 64 s).1 = (Bytes.cut 64 t).1 ∧
    same ((Bytes.cut 64 s).2.getD d) ((Bytes.cut 64 t).2.getD d)

/-- Equal up to ASCII letter case. -/
def SameASCII (x y : Bytes) : Prop := asciiLower x = asciiLower y

/-- Equal up to letter case, the dotted capital I and the Kelvin sign being letters too. -/
def SameLetters (x y : Bytes) : Prop := SameASCII (asciiLetters x) (asciiLetters y)

theorem sameLetters_iff {x y : Bytes} : SameLetters x y ↔ toLower x = toLower y := by
  rw [toLower_eq, toLower_eq]
  rfl

section

variable {d s t : Bytes} {a b : Address}

theorem bare_iff : (!s.contains 64 && s.contains 46) = true ↔ Bare s := by
  simp [Bare]

theorem identity_of_bare (parsed : parseBlockTarget s d = .ok a) (bare : Bare s) :
    a.identity = .domain (toLower s) := by
  unfold parseBlockTarget at parsed
  rw [if_pos (bare_iff.mpr bare)] at parsed
  split at parsed
  · cases parsed
    rfl
  · cases parsed

theorem identity_of_user (parsed : parseBlockTarget s d = .ok a) (bare : ¬ Bare s) :
    a.identity = .user (Bytes.cut 64 s).1 (toLower ((Bytes.cut 64 s).2.getD d)) := by
  unfold parseBlockTarget at parsed
  rw [if_neg fun h => bare (bare_iff.mp h)] at parsed
  obtain ⟨user, name, -, at_⟩ := parseAddress_ok parsed
  rw [name] at user
  refine a.identity_of_user user name ?_
  rcases at_ with ⟨none, host⟩ | ⟨q, some, host⟩
  · rw [none, host]
    rfl
  · rw [some, host]
    rfl

/-- What is spelled by two strings, and whether it is the same. -/
theorem identity_eq_iff (hs : parseBlockTarget s d = .ok a) (ht : parseBlockTarget t d = .ok b) :
    a.identity = b.identity ↔ SameIdentity SameLetters d s t := by
  unfold SameIdentity
  simp only [sameLetters_iff]
  by_cases bs : Bare s
  · by_cases bt : Bare t
    · simp [identity_of_bare hs bs, identity_of_bare ht bt, bs, bt]
    · simp [identity_of_bare hs bs, identity_of_user ht bt, bs, bt]
  · by_cases bt : Bare t
    · simp [identity_of_user hs bs, identity_of_bare ht bt, bs, bt]
    · simp [identity_of_user hs bs, identity_of_user ht bt, bs, bt]

theorem stored_eq_text_of_parse (parsed : parseBlockTarget s d = .ok a) :
    a.stored = a.identity.text d :=
  Address.stored_eq_text (own_of_parseBlockTarget parsed)

/-- Addresses that name one thing are one. -/
theorem Address.eq_of_identity (own : a.own = (a.domain == toLower d))
    (own' : b.own = (b.domain == toLower d)) (same : a.identity = b.identity) : a = b := by
  have parts : a.localName = b.localName ∧ a.domain = b.domain := by
    unfold Address.identity at same
    split_ifs at same with empty empty' empty'
    · exact ⟨empty.trans empty'.symm, Identity.domain.inj same⟩
    · exact Identity.user.inj same
  obtain ⟨name, domain⟩ := parts
  rw [domain, ← own'] at own
  cases a
  cases b
  simp_all

/-- A stored form is the form of the address that it reads back as. -/
theorem parse_stored (parsed : parseBlockTarget s d = .ok a) :
    parseBlockTarget a.stored d = .ok a := by
  obtain ⟨b, read, same⟩ := parseBlockTarget_text ⟨s, a, parsed, rfl⟩
  rw [stored_eq_text_of_parse parsed, read]
  exact congrArg _ (Address.eq_of_identity (own_of_parseBlockTarget read)
    (own_of_parseBlockTarget parsed) same)

/-- **Stored forms are canonical**: two accepted spellings share one exactly when they spell the
same thing, and it reads back as the address. -/
theorem stored_canonical (hs : parseBlockTarget s d = .ok a) (ht : parseBlockTarget t d = .ok b) :
    (a.stored = b.stored ↔ SameIdentity SameLetters d s t) ∧
      parseBlockTarget a.stored d = .ok a := by
  refine ⟨?_, parse_stored hs⟩
  rw [← identity_eq_iff hs ht, stored_eq_text_of_parse hs, stored_eq_text_of_parse ht]
  exact ⟨text_injective ⟨s, a, hs, rfl⟩ ⟨t, b, ht, rfl⟩, congrArg _⟩

end

namespace Sample

def own : Bytes := utf8 "mail.example.org"

/-- A remote user, spelled with capitals in the domain, and the local one of that name. -/
theorem alice_stored :
    ∃ a b, parseBlockTarget (utf8 "alice@OK.Example:8443") own = .ok a ∧
      parseBlockTarget (utf8 "alice") own = .ok b ∧
      (a.stored = b.stored ↔
        SameIdentity SameLetters own (utf8 "alice@OK.Example:8443") (utf8 "alice")) ∧
      parseBlockTarget a.stored own = .ok a :=
  ⟨_, _, rfl, rfl, stored_canonical rfl rfl⟩

/-- With the Kelvin sign for a "k" the domain is another one up to ASCII letter case. -/
theorem kelvin_stored : ¬ ∀ d, validDomain d = true → ∀ s t a b,
    parseBlockTarget s d = .ok a → parseBlockTarget t d = .ok b →
    ((a.stored = b.stored ↔ SameIdentity SameASCII d s t) ∧
      parseBlockTarget a.stored d = .ok a) := by
  intro all
  obtain ⟨canonical, -⟩ := all own (by decide +kernel) (utf8 "alice@o\u212a.example")
    (utf8 "alice@ok.example") _ _ rfl rfl
  rcases canonical.mp (by decide +kernel) with ⟨-, bare, -⟩ | ⟨-, -, -, same⟩
  · exact absurd bare.1 (by decide +kernel)
  · exact absurd same (by unfold SameASCII; decide +kernel)

end Sample

end Shyake.Go.Protocol
