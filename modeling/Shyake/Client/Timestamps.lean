import Mathlib.Data.List.Forall2
import Shyake.Client.Readers

/-!
# The time of a mail (`mail.c`)

The instance keeps a time in 64 bits and sends it as a JSON number. The readers take the
`valueint` of that number, which is an `int`; only the readers of drafts take its double.
-/

namespace Shyake.Client

open CJson (INT_MAX INT_MIN)

/-- `parse_number`, of a number whose double is that integer. -/
def Json.parseNumber (number : Int) : Json :=
  if number ≥ INT_MAX then .number INT_MAX
  else if number ≤ INT_MIN then .number INT_MIN
  else .number number

/-- A time up to `INT_MAX` is read as it is. -/
theorem valueint_parseNumber {n : Int} (past : 0 ≤ n) :
    (Json.parseNumber n).valueint = min n INT_MAX := by
  unfold Json.parseNumber
  by_cases late : n ≥ INT_MAX
  · rw [if_pos late]
    exact (min_eq_right late).symm
  · rw [if_neg late, if_neg (by unfold INT_MIN; omega)]
    exact (min_eq_left (Int.not_le.mp late).le).symm

namespace Calls

/-- The instance sends this mail with that time, which a double holds. -/
structure Stamped (json : Json) (n : Int) : Prop where
  past : 0 ≤ n
  small : n ≤ 2 ^ 53
  field : json.getObjectItem (utf8 "timestamp") = some (.parseNumber n)

/-- What is to be said of the times that a reader gives to mails: each is the time that was sent
exactly when an `int` holds it, and a later mail has a later time exactly when the earlier one has
less than the greatest `int`. -/
structure Times (mails : List Json) (times : List Int) : Prop where
  length : times.length = mails.length
  same : ∀ (i : Nat) json n, mails[i]? = some json → Stamped json n →
    (times[i]? = some n ↔ n ≤ INT_MAX)
  order : ∀ (i j : Nat) json json' n n' t t', mails[i]? = some json → mails[j]? = some json' →
    Stamped json n → Stamped json' n' → n < n' → times[i]? = some t → times[j]? = some t' →
    (t < t' ↔ n < INT_MAX)

/-- The time of one mail, as the readers take it. -/
def Shown (json : Json) (time : Int) : Prop := ∀ n, Stamped json n → time = min n INT_MAX

theorem shown_valueint {json item : Json} (here : json.getObjectItem (utf8 "timestamp") = some item) :
    Shown json item.valueint := by
  intro n stamped
  have same := Option.some.inj (here.symm.trans stamped.field)
  rw [same, valueint_parseNumber stamped.past]

theorem times_of_shown {mails : List Json} {times : List Int}
    (shown : List.Forall₂ Shown mails times) : Times mails times := by
  have at_ {i : Nat} {json : Json} {n : Int} (here : mails[i]? = some json)
      (stamped : Stamped json n) : times[i]? = some (min n INT_MAX) := by
    obtain ⟨lt, rfl⟩ := List.getElem?_eq_some_iff.mp here
    have lt' := shown.length_eq ▸ lt
    rw [List.getElem?_eq_getElem lt', ← (shown.get lt lt') n stamped]
    rfl
  refine ⟨shown.length_eq.symm, ?_, ?_⟩
  · intro i json n here stamped
    rw [at_ here stamped, Option.some_inj]
    omega
  · intro i j json json' n n' t t' here here' stamped stamped' later shown shown'
    obtain rfl := Option.some.inj ((at_ here stamped).symm.trans shown)
    obtain rfl := Option.some.inj ((at_ here' stamped').symm.trans shown')
    omega

variable (aead : Aead)

/-! ## The readers -/

theorem valueint_returns (json : Json) (name : Bytes) :
    (valueint json name).Returns fun n =>
      ∃ item, json.getObjectItem name = some item ∧ n = item.valueint := by
  unfold valueint
  cases json.getObjectItem name with
  | none => exact Empty.rec
  | some item => exact ⟨item, rfl, rfl⟩

theorem takeMail_shown (username : Bytes) (ksk : Option Bytes) (sized bodied : Bool) (json : Json) :
    (takeMail aead username ksk sized bodied json).Returns fun t => Shown json t.timestamp := by
  unfold takeMail
  refine .after _ fun snd => .after _ fun rcp => (valueint_returns json _).bind ?_
  rintro ts ⟨item, here, rfl⟩
  refine .after _ fun sz => .after _ fun snd => .after _ fun encKey => .after _ fun encSub =>
    .after _ fun encBdy => .after _ fun sym => ?_
  exact .after _ fun rcp => shown_valueint here

theorem mailEntry_shown (isSent : Bool) (ksk : Option Bytes) (item : Json) :
    (mailEntry aead isSent ksk item).Returns fun e => Shown item e.timestamp := by
  unfold mailEntry
  refine .after _ fun id => .after _ fun party => .after _ fun sz =>
    (valueint_returns item _).bind ?_
  rintro ts ⟨field, here, rfl⟩
  refine .after _ fun encKey => .after _ fun encSub => .after _ fun sym => ?_
  exact .after _ fun id => .after _ fun party => shown_valueint here

theorem mailEntries_shown (isSent : Bool) (ksk : Option Bytes) (items : List Json) :
    (mailEntries aead isSent ksk items).Returns fun entries =>
      List.Forall₂ Shown items (entries.map MailEntry.timestamp) := by
  induction items with
  | nil => exact .nil
  | cons item items ih =>
    exact (mailEntry_shown aead isSent ksk item).bind fun e first =>
      ih.bind fun entries others => .cons first others

theorem savedEntries_shown (username : Bytes) (ksk : Option Bytes) (dir : List SavedFile) :
    (savedEntries aead username ksk dir).Returns fun entries =>
      List.Forall₂ Shown (dir.filterMap SavedFile.json) (entries.map SavedEntry.timestamp) := by
  induction dir with
  | nil => exact .nil
  | cons file dir ih =>
    unfold savedEntries
    rw [List.filterMap_cons]
    cases file.json with
    | none => exact ih
    | some json =>
      exact (takeMail_shown aead username ksk true false json).bind fun t first =>
        ih.bind fun entries others => .cons first others

section

variable (kdf : Kdf) (keyAead : Bytes → Aead) (kem : Kem) (sig : Sig) (coins : Bytes)

/-- A reader that follows no NULL ends, with one of the results that it may have. -/
theorem ends_with {Q : α → Prop} {p : Routine α} (quiet : p.Asks NoFault) (returns : p.Returns Q) :
    ∃ a, p.result (liboqs kem sig coins) = some a ∧ Q a := by
  have answered : p.Asks fun c => (liboqs kem sig coins c).isSome := by
    refine quiet.mono fun c fine => ?_
    cases c with
    | decaps ct sk => rfl
    | sign message sk => rfl
    | fault => exact absurd rfl fine
  obtain ⟨a, ends⟩ := Option.isSome_iff_exists.mp answered.isSome_result
  exact ⟨a, ends, returns.of_result ends⟩

/-- What is made of a mail that was taken. -/
theorem detail_ends {username : Bytes} {ksk : Option Bytes} {sized bodied : Bool} {json : Json}
    (fields : MailFields username ksk sized bodied json) {detail : Taken → MailDetail}
    (kept : ∀ t, (detail t).timestamp = t.timestamp) :
    ∃ d, (takeMail aead username ksk sized bodied json >>= fun t =>
        (.ret (some (detail t)) : Routine _)).result (liboqs kem sig coins) = some (some d) ∧
      Times [json] [d.timestamp] := by
  obtain ⟨t, ends, shown⟩ := ends_with kem sig coins ((takeMail_returns aead).mpr fields)
    (takeMail_shown aead username ksk sized bodied json)
  refine ⟨detail t, ?_, times_of_shown (.cons ?_ .nil)⟩
  · rw [Lib.Prog.result_bind, ends]
    rfl
  · rw [kept]
    exact shown

end

namespace Sample

open Client.Sample (alice tagAead plainKdf xorKem oneSig)

def sentAt (n : Int) : Json :=
  .object [(utf8 "sender", .string (utf8 "bob")), (utf8 "recipient", .string (utf8 "alice")),
    (utf8 "timestamp", .parseNumber n), (utf8 "size", .number 5),
    (utf8 "enc_subject", .string (utf8 "AAAA")), (utf8 "enc_key_recipient", .string (utf8 "AAAA"))]

theorem stamped_sentAt {n : Int} (past : 0 ≤ n) (small : n ≤ 2 ^ 53) : Stamped (sentAt n) n where
  past := past
  small := small
  field := rfl

/-- Two saved copies, of one second after another in the year 2038. -/
def saved2038 : List SavedFile :=
  [⟨utf8 "m1.json", some (sentAt 2147483648)⟩, ⟨utf8 "m2.json", some (sentAt 2147483649)⟩]

theorem mailFields_sentAt (n : Int) :
    MailFields alice.username (loadKsk plainKdf (fun _ => tagAead) alice fun _ => none).toOption
      true false (sentAt n) where
  sender := ⟨.string (utf8 "bob"), rfl, fun _ => rfl⟩
  recipient := ⟨.string (utf8 "alice"), rfl, fun _ => rfl⟩
  timestamp := ⟨.parseNumber n, rfl, False.elim⟩
  size _ := ⟨.number 5, rfl, False.elim⟩
  encKey := ⟨.string (utf8 "AAAA"), rfl, fun _ => rfl⟩
  encSubject := ⟨.string (utf8 "AAAA"), rfl, False.elim⟩
  encBody := nofun

end Sample

end Calls

end Shyake.Client
