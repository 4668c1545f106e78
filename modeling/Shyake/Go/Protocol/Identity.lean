import Shyake.Go.Protocol.Address
import Shyake.Go.Runes

/-!
# What addresses name

An `Identity` is what an address is for: a user of an instance, or an instance.
`text` is its stored form. Every text of something a block target can name reads
back as what it is the text of, so no two such identities share one.
-/

namespace Shyake.Go.Protocol

/-- A domain is in lower case. -/
inductive Identity where
  | user (name domain : Bytes)
  | domain (domain : Bytes)
  deriving DecidableEq

def Address.identity (a : Address) : Identity :=
  if a.localName = [] then .domain a.domain else .user a.localName a.domain

/-- The stored form, on the instance `d`. -/
def Identity.text (d : Bytes) : Identity → Bytes
  | .user name q => if q = toLower d then name else name ++ 64 :: q
  | .domain q => q

/-! ## Lower case -/

/-- What `toLower` leaves as it is. -/
def plain (c : UInt8) : Bool := c < 0x80 && !isUpper c

theorem toLower_plain {s : Bytes} (h : ∀ c ∈ s, plain c = true) : toLower s = s := by
  unfold toLower
  induction s with
  | nil => rfl
  | cons c cs ih =>
    have here := h c List.mem_cons_self
    simp only [plain, Bool.and_eq_true, decide_eq_true_eq, Bool.not_eq_true'] at here
    simp only [toLowerFrom, here, if_true, Bool.false_eq_true, if_false]
    rw [ih fun c mem => h c (List.mem_cons_of_mem _ mem)]

/-- A byte that `toLower` leaves as it is stays. -/
theorem mem_toLowerFrom {c : UInt8} (h : plain c = true) (s : Bytes) (n : Nat)
    (skipped : ∀ x ∈ s.take n, 0x80 ≤ x) (mem : c ∈ s) : c ∈ toLowerFrom n s := by
  simp only [plain, Bool.and_eq_true, decide_eq_true_eq, Bool.not_eq_true'] at h
  induction s generalizing n with
  | nil => cases mem
  | cons x xs ih =>
    cases n with
    | succ n =>
      have high := skipped x List.mem_cons_self
      have ne : c ≠ x := by
        rintro rfl
        exact absurd h.1 (UInt8.not_lt.mpr high)
      exact ih n (fun y hy => skipped y (List.mem_cons_of_mem _ hy))
        ((List.mem_cons.mp mem).resolve_left ne)
    | zero =>
      unfold toLowerFrom
      split
      · rcases List.mem_cons.mp mem with rfl | rest
        · simp [h.2]
        · exact List.mem_cons_of_mem _ (ih 0 (by simp) rest)
      · rename_i high
        have rest : c ∈ xs := by
          rcases List.mem_cons.mp mem with rfl | rest
          · exact absurd h.1 high
          · exact rest
        have later := ih _ (decodeRune_skips x xs) rest
        dsimp only
        split
        · exact List.mem_cons_of_mem _ later
        · exact List.mem_append_right _ later

theorem mem_toLower {c : UInt8} (h : plain c = true) {s : Bytes} (mem : c ∈ s) :
    c ∈ toLower s :=
  mem_toLowerFrom h s 0 (by simp) mem

/-! ## Domains -/

/-- A byte of a text is a separator or in some part. -/
theorem mem_split (sep : UInt8) {c : UInt8} {s : Bytes} (mem : c ∈ s) :
    c = sep ∨ ∃ part ∈ Bytes.split sep s, c ∈ part := by
  unfold Bytes.split
  induction s with
  | nil => cases mem
  | cons x xs ih =>
    rw [List.splitOn_cons_eq_if_modifyHead]
    rcases List.mem_cons.mp mem with rfl | rest
    · split
      · rename_i same
        exact .inl (beq_iff_eq.mp same)
      · obtain ⟨first, others, parts⟩ := List.exists_cons_of_ne_nil (List.splitOn_ne_nil sep xs)
        refine .inr ⟨c :: first, ?_, List.mem_cons_self⟩
        rw [parts]
        exact List.mem_cons_self
    · rcases ih rest with same | ⟨part, mem, here⟩
      · exact .inl same
      · split
        · exact .inr ⟨part, List.mem_cons_of_mem _ mem, here⟩
        · obtain ⟨first, others, parts⟩ := List.exists_cons_of_ne_nil (List.splitOn_ne_nil sep xs)
          rw [parts] at mem ⊢
          rcases List.mem_cons.mp mem with rfl | other
          · exact .inr ⟨x :: part, List.mem_cons_self, List.mem_cons_of_mem _ here⟩
          · exact .inr ⟨part, List.mem_cons_of_mem _ other, here⟩

/-- What `ValidDomain` lets pass. -/
def domainByte (c : UInt8) : Bool := isLower c || isDigit c || c == 45 || c == 46 || c == 58

theorem chars_of_validLabel {label : Bytes} (h : validLabel label = true) :
    ∀ c ∈ label, domainByte c = true := by
  unfold validLabel at h
  split at h
  · cases h
  intro c mem
  have := List.all_eq_true.mp h c mem
  simp only [Bool.or_eq_true] at this
  simp only [domainByte, Bool.or_eq_true]
  tauto

theorem chars_of_validDomain {d : Bytes} (h : validDomain d = true) :
    ∀ c ∈ d, domainByte c = true := by
  obtain ⟨-, made⟩ := Bytes.cut_spec 58 d
  unfold validDomain at h
  dsimp only at h
  split_ifs at h with portBad hostBad
  have host : ∀ c ∈ (Bytes.cut 58 d).1, domainByte c = true := by
    intro c mem
    rcases mem_split 46 mem with rfl | ⟨label, hl, here⟩
    · decide
    · exact chars_of_validLabel (List.all_eq_true.mp h label hl) c here
  rcases made with ⟨-, same⟩ | ⟨port, here, same⟩
  · rwa [← same] at host
  · rw [here] at portBad
    simp only [Bool.not_eq_true', Bool.not_eq_false, Bool.and_eq_true, List.all_eq_true] at portBad
    intro c mem
    rw [same] at mem
    rcases List.mem_append.mp mem with inHost | rest
    · exact host c inHost
    · rcases List.mem_cons.mp rest with rfl | inPort
      · decide
      · simp [domainByte, portBad.2 c inPort]

/-- A domain is in lower case and holds no "@". -/
theorem plain_of_validDomain {d : Bytes} (h : validDomain d = true) :
    ∀ c ∈ d, plain c = true ∧ c ≠ 64 := by
  have all : ∀ c : UInt8, domainByte c = true → plain c = true ∧ c ≠ 64 := by
    intro c h
    simp only [domainByte, plain, isLower, isUpper, isDigit, Bool.or_eq_true, Bool.and_eq_true,
      decide_eq_true_eq, beq_iff_eq, Bool.not_eq_true', Bool.and_eq_false_iff,
      decide_eq_false_iff_not, UInt8.le_iff_toNat_le, UInt8.lt_iff_toNat_lt, ← UInt8.toNat_inj,
      ne_eq, UInt8.reduceToNat] at h ⊢
    omega
  exact fun c mem => all c (chars_of_validDomain h c mem)

theorem toLower_of_validDomain {d : Bytes} (h : validDomain d = true) : toLower d = d :=
  toLower_plain fun c mem => (plain_of_validDomain h c mem).1

theorem at_notMem_of_validDomain {d : Bytes} (h : validDomain d = true) : (64 : UInt8) ∉ d :=
  fun mem => (plain_of_validDomain h 64 mem).2 rfl

/-! ## Reading a text back -/

section

variable {d t : Bytes} {a : Address}

theorem Address.stored_eq_text (h : a.own = (a.domain == toLower d)) :
    a.stored = a.identity.text d := by
  unfold Address.stored Address.identity
  by_cases bare : a.localName = []
  · simp [bare, Identity.text]
  · simp [bare, Identity.text, h]

/-- What `ParseBlockTarget` makes of a string. -/
theorem parseBlockTarget_ok (h : parseBlockTarget t d = .ok a) :
    ((64 : UInt8) ∉ t ∧ (46 : UInt8) ∈ t ∧ a.localName = [] ∧ a.domain = toLower t ∧
        validDomain (toLower t) = true ∧ a.own = (a.domain == toLower d)) ∨
      parseAddress t d = .ok a := by
  unfold parseBlockTarget at h
  split at h
  · rename_i dotted
    simp only [Bool.and_eq_true, Bool.not_eq_true', List.contains_iff_mem] at dotted
    split at h
    · rename_i host
      cases h
      exact .inl ⟨by simpa using dotted.1, by simpa using dotted.2, rfl, rfl, host, rfl⟩
    · cases h
  · exact .inr h

/-- A string that `ParseAddress` accepts is no bare domain. -/
theorem parseBlockTarget_of_parseAddress (h : parseAddress t d = .ok a) :
    parseBlockTarget t d = .ok a := by
  unfold parseBlockTarget
  rw [if_neg, h]
  intro dotted
  simp only [Bool.and_eq_true, Bool.not_eq_true', List.contains_iff_mem] at dotted
  have bare : (64 : UInt8) ∉ t := by simpa using dotted.1
  obtain ⟨user, name, -⟩ := parseAddress_ok h
  rw [name, Bytes.cut_eq_none bare] at user
  exact notMem_of_validUsername (c := 46) user (by decide) (by simpa using dotted.2)

theorem own_of_parseBlockTarget (h : parseBlockTarget t d = .ok a) :
    a.own = (a.domain == toLower d) := by
  rcases parseBlockTarget_ok h with ⟨-, -, -, -, -, own⟩ | user
  · exact own
  · exact (parseAddress_ok user).2.2.1

theorem ne_nil_of_validUsername {s : Bytes} (h : validUsername s = true) : s ≠ [] :=
  fun e => absurd (e ▸ h) (by decide)

/-- Something a target can name. -/
def Identity.Target (d : Bytes) (i : Identity) : Prop :=
  ∃ t a, parseBlockTarget t d = .ok a ∧ a.identity = i

theorem domain_of_target {q : Bytes} (h : (Identity.domain q).Target d) :
    validDomain q = true ∧ (46 : UInt8) ∈ q := by
  obtain ⟨t, a, parsed, same⟩ := h
  rcases parseBlockTarget_ok parsed with ⟨-, dotted, bare, lower, valid, -⟩ | user
  · rw [Address.identity, if_pos bare] at same
    obtain rfl := Identity.domain.inj same
    rw [lower]
    exact ⟨valid, mem_toLower (by decide) dotted⟩
  · have nonempty := ne_nil_of_validUsername (parseAddress_ok user).1
    rw [Address.identity, if_neg nonempty] at same
    cases same

theorem user_of_target {n q : Bytes} (h : (Identity.user n q).Target d) :
    validUsername n = true ∧ (q = toLower d ∨ validDomain q = true) := by
  obtain ⟨t, a, parsed, same⟩ := h
  rcases parseBlockTarget_ok parsed with ⟨-, -, bare, -⟩ | user
  · rw [Address.identity, if_pos bare] at same
    cases same
  · obtain ⟨valid, -, own, -⟩ := parseAddress_ok user
    rw [Address.identity, if_neg (ne_nil_of_validUsername valid)] at same
    obtain ⟨rfl, rfl⟩ := Identity.user.inj same
    refine ⟨valid, ?_⟩
    by_cases same : a.domain = toLower d
    · exact .inl same
    · refine .inr (a.hosted (.inl ?_))
      rw [own, beq_eq_false_iff_ne]
      exact same

theorem parseAddress_bare {n : Bytes} (user : validUsername n = true) (d : Bytes) :
    ∃ a, parseAddress n d = .ok a ∧ a.localName = n ∧ a.domain = toLower d := by
  have cut := Bytes.cut_eq_none (at_notMem_of_validUsername user)
  unfold parseAddress
  rw [dif_pos (by rw [cut]; exact user)]
  split
  · exact ⟨_, rfl, congrArg Prod.fst cut, rfl⟩
  · rename_i some
    rw [cut] at some
    cases some

theorem parseAddress_at {n q : Bytes} (user : validUsername n = true)
    (valid : validDomain (toLower q) = true) (d : Bytes) :
    ∃ a, parseAddress (n ++ 64 :: q) d = .ok a ∧ a.localName = n ∧ a.domain = toLower q := by
  have cut := Bytes.cut_append (at_notMem_of_validUsername user) q
  unfold parseAddress
  rw [dif_pos (by rw [cut]; exact user)]
  split
  · rename_i none
    rw [cut] at none
    cases none
  · rename_i q' some
    rw [cut] at some
    obtain rfl := Option.some.inj some
    rw [dif_pos valid]
    exact ⟨_, rfl, congrArg Prod.fst cut, rfl⟩

theorem Address.identity_of_user (a : Address) {n q : Bytes} (user : validUsername n = true)
    (name : a.localName = n) (domain : a.domain = q) : a.identity = .user n q := by
  have nonempty : a.localName ≠ [] := by
    rw [name]
    exact ne_nil_of_validUsername user
  rw [Address.identity, if_neg nonempty, name, domain]

/-- **A text reads back** as what it is the text of. -/
theorem parseBlockTarget_text {i : Identity} (target : i.Target d) :
    ∃ a, parseBlockTarget (i.text d) d = .ok a ∧ a.identity = i := by
  cases i with
  | domain q =>
    obtain ⟨valid, dotted⟩ := domain_of_target target
    have bare : (64 : UInt8) ∉ q := at_notMem_of_validDomain valid
    have lower := toLower_of_validDomain valid
    refine ⟨⟨[], q, q == toLower d, .inl rfl, fun _ => valid⟩, ?_, rfl⟩
    unfold Identity.text parseBlockTarget
    simp only [lower, valid]
    simp [bare, dotted]
  | user n q =>
    obtain ⟨user, hosted⟩ := user_of_target target
    have bare : (64 : UInt8) ∉ n := at_notMem_of_validUsername user
    by_cases own : q = toLower d
    · obtain ⟨a, parsed, name, domain⟩ := parseAddress_bare user d
      refine ⟨a, ?_, a.identity_of_user user name (domain.trans own.symm)⟩
      simp only [Identity.text, own, if_true]
      exact parseBlockTarget_of_parseAddress parsed
    · have valid := hosted.resolve_left own
      have lower := toLower_of_validDomain valid
      obtain ⟨a, parsed, name, domain⟩ := parseAddress_at user (lower.symm ▸ valid) d
      refine ⟨a, ?_, a.identity_of_user user name (domain.trans lower)⟩
      simp only [Identity.text, own, if_false]
      exact parseBlockTarget_of_parseAddress parsed

/-- No two things a target can name share a text. -/
theorem text_injective {i j : Identity} (hi : i.Target d) (hj : j.Target d)
    (same : i.text d = j.text d) : i = j := by
  obtain ⟨a, parsed, rfl⟩ := parseBlockTarget_text hi
  obtain ⟨b, parsed', rfl⟩ := parseBlockTarget_text hj
  rw [same, parsed'] at parsed
  rw [Except.ok.inj parsed]

/-- A spelling of a target that is the text of something is the text of the target. -/
theorem identity_of_raw (h : parseBlockTarget t d = .ok a) {i : Identity} (hi : i.Target d)
    (raw : i.text d = t) : a.identity = i := by
  obtain ⟨b, parsed, rfl⟩ := parseBlockTarget_text hi
  rw [raw, h] at parsed
  rw [Except.ok.inj parsed]

/-- What has the text of a domain: the domain, or the local user of that name. -/
theorem text_eq_domain {q : Bytes} (valid : validDomain q = true) {i : Identity}
    (same : i.text d = q) : i = .domain q ∨ i = .user q (toLower d) := by
  cases i with
  | domain p => exact .inl (congrArg _ same)
  | user n p =>
    by_cases own : p = toLower d
    · simp only [Identity.text, own, if_true] at same
      exact .inr (by rw [own, same])
    · simp only [Identity.text, own, if_false] at same
      refine absurd ?_ (at_notMem_of_validDomain valid)
      rw [← same]
      simp

end

end Shyake.Go.Protocol
