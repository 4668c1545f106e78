import Shyake.Go.Std

/-!
# Addresses (`internal/protocol/address.go`)

Only the parse functions make an `Address`, and an `Address` carries what they
checked. `Stored` is the form the database keeps: the lemmas at the end say which
stored forms name a local user, which is what the store's rows are told apart by.
-/

namespace Shyake.Go.Protocol

/-- The loop of `ValidUsername`. -/
def usernameLoop : Bool → Bytes → Bool
  | letter, [] => letter
  | letter, c :: cs =>
    if isLower c || isUpper c then usernameLoop true cs
    else if isDigit c || c == 95 then usernameLoop letter cs
    else false

def validUsername (s : Bytes) : Bool :=
  if s.length < 4 || s.length > 16 then false else usernameLoop false s

def isReserved (name : Bytes) (reserved : List Bytes) : Bool :=
  reserved.any fun r => equalFold name r

/-- What `ValidDomain` asks of one label. -/
def validLabel (label : Bytes) : Bool :=
  if label.length == 0 || label.length > 63 || label.head? == some 45 ||
      label.getLast? == some 45 then false
  else label.all fun c => isLower c || isDigit c || c == 45

def validDomain (d : Bytes) : Bool :=
  let (host, port) := Bytes.cut 58 d
  let portOk := match port with
    | none => true
    | some port => !(port.length == 0 || port.length > 5) && port.all isDigit
  if !portOk then false
  else if host.length == 0 || host.length > 253 then false
  else (Bytes.split 46 host).all validLabel

/-- A user on some instance, or a whole instance when `localName` is empty. -/
structure Address where
  localName : Bytes
  domain : Bytes
  own : Bool
  named : localName = [] ∨ validUsername localName = true
  hosted : own = false ∨ localName = [] → validDomain domain = true

inductive AddressError where
  | badUsername
  | badDomain
  deriving DecidableEq

/-- "user" (this instance) or "user@domain". -/
def parseAddress (s instanceDomain : Bytes) : Except AddressError Address :=
  if user : validUsername (Bytes.cut 64 s).1 = true then
    match (Bytes.cut 64 s).2 with
    | none => .ok ⟨(Bytes.cut 64 s).1, toLower instanceDomain, true, .inr user, fun h =>
        h.elim nofun fun empty => absurd (empty ▸ user) (by decide)⟩
    | some d =>
      if host : validDomain (toLower d) = true then
        .ok ⟨(Bytes.cut 64 s).1, toLower d, toLower d == toLower instanceDomain, .inr user,
          fun _ => host⟩
      else .error .badDomain
  else .error .badUsername

/-- Also a bare domain: a dotted string without "@". -/
def parseBlockTarget (s instanceDomain : Bytes) : Except AddressError Address :=
  if !s.contains 64 && s.contains 46 then
    if host : validDomain (toLower s) = true then
      .ok ⟨[], toLower s, toLower s == toLower instanceDomain, .inl rfl, fun _ => host⟩
    else .error .badDomain
  else parseAddress s instanceDomain

namespace Address

/-- The database form. -/
def stored (a : Address) : Bytes :=
  if a.localName == [] then a.domain
  else if a.own then a.localName
  else a.localName ++ 64 :: a.domain

def isLocal (a : Address) : Bool := a.own

end Address

/-! ## What the checks say -/

theorem usernameLoop_eq (letter : Bool) (s : Bytes) :
    usernameLoop letter s = true ↔
      (∀ c ∈ s, isLower c = true ∨ isUpper c = true ∨ isDigit c = true ∨ c = 95) ∧
        (letter = true ∨ ∃ c ∈ s, isLower c = true ∨ isUpper c = true) := by
  induction s generalizing letter with
  | nil => simp [usernameLoop]
  | cons c cs ih =>
    unfold usernameLoop
    split
    · rename_i letterHere
      rw [ih]
      rcases Bool.or_eq_true_iff.mp letterHere with here | here <;> simp [here]
    · rename_i noLetter
      simp only [Bool.or_eq_true, not_or, Bool.not_eq_true] at noLetter
      split
      · rename_i other
        rw [ih]
        rcases Bool.or_eq_true_iff.mp other with here | here
        · simp [noLetter, here]
        · have under : isLower 95 = false ∧ isUpper 95 = false := by decide
          simp [under, beq_iff_eq.mp here]
      · rename_i other
        simp only [Bool.or_eq_true, beq_iff_eq, not_or, Bool.not_eq_true] at other
        simp [noLetter, other]

theorem usernameLoop_of_valid {s : Bytes} (h : validUsername s = true) :
    usernameLoop false s = true := by
  unfold validUsername at h
  split at h
  · cases h
  · exact h

theorem chars_of_validUsername {s : Bytes} (h : validUsername s = true) :
    ∀ c ∈ s, isLower c = true ∨ isUpper c = true ∨ isDigit c = true ∨ c = 95 :=
  ((usernameLoop_eq _ _).mp (usernameLoop_of_valid h)).1

theorem letter_of_validUsername {s : Bytes} (h : validUsername s = true) :
    ∃ c ∈ s, isLower c = true ∨ isUpper c = true := by
  rcases ((usernameLoop_eq _ _).mp (usernameLoop_of_valid h)).2 with impossible | letter
  · cases impossible
  · exact letter

/-- A byte that is no letter, no digit and no underscore is not in a username. -/
theorem notMem_of_validUsername {s : Bytes} (h : validUsername s = true) {c : UInt8}
    (hc : (isLower c || isUpper c || isDigit c || c == 95) = false) : c ∉ s := by
  intro mem
  have := chars_of_validUsername h c mem
  simp only [Bool.or_eq_false_iff, beq_eq_false_iff_ne] at hc
  obtain ⟨⟨⟨lower, upper⟩, digit⟩, underscore⟩ := hc
  simp [lower, upper, digit, underscore] at this

theorem at_notMem_of_validUsername {s : Bytes} (h : validUsername s = true) : (64 : UInt8) ∉ s :=
  notMem_of_validUsername h (by decide)

/-- What `ParseAddress` makes of a string. -/
theorem parseAddress_ok {s d : Bytes} {a : Address} (h : parseAddress s d = .ok a) :
    validUsername a.localName = true ∧ a.localName = (Bytes.cut 64 s).1 ∧
      a.own = (a.domain == toLower d) ∧
      ((Bytes.cut 64 s).2 = none ∧ a.domain = toLower d ∨
        ∃ q, (Bytes.cut 64 s).2 = some q ∧ a.domain = toLower q) := by
  unfold parseAddress at h
  split at h
  · rename_i user
    split at h
    · rename_i none
      cases h
      exact ⟨user, rfl, by simp, .inl ⟨none, rfl⟩⟩
    · rename_i q some
      split at h
      · cases h
        exact ⟨user, rfl, rfl, .inr ⟨q, some, rfl⟩⟩
      · cases h
  · cases h

/-- The stored form of a local user is the bare username. -/
theorem stored_of_own {s d : Bytes} {a : Address} (h : parseAddress s d = .ok a)
    (own : a.own = true) : a.stored = a.localName := by
  have user := (parseAddress_ok h).1
  have ne : a.localName ≠ [] := fun e => absurd (e ▸ user) (by decide)
  simp [Address.stored, ne, own]

/-- The stored form of a remote user holds an "@". -/
theorem at_mem_stored_of_remote {s d : Bytes} {a : Address} (h : parseAddress s d = .ok a)
    (own : a.own = false) : (64 : UInt8) ∈ a.stored := by
  have user := (parseAddress_ok h).1
  have ne : a.localName ≠ [] := fun e => absurd (e ▸ user) (by decide)
  simp [Address.stored, ne, own]

/-- A stored form that is a username is that of a local user. -/
theorem own_of_stored {s d : Bytes} {a : Address} (h : parseAddress s d = .ok a)
    (user : validUsername a.stored = true) : a.own = true := by
  cases own : a.own with
  | true => rfl
  | false => exact absurd (at_mem_stored_of_remote h own) (at_notMem_of_validUsername user)

end Shyake.Go.Protocol
