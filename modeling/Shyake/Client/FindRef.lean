import Mathlib.Data.List.Forall2
import Shyake.Client.Mail
import Shyake.Go.Api.Account
import Shyake.Go.Protocol.Unambiguous

/-!
# Finding the mail that a reply answers (`shyake_find_ref`)

The reference of a mail is looked for in the inbox, then among the sent mail, then
among the saved copies. Against a Go instance, whose `sig_hash` column is unique, the
search in the two boxes finds the user's own row of that mail while there is one.
-/

namespace Shyake.Client

open CJson
open Go (MailJSON Db MailRow)
open Go.Server (toJSON)

variable (kem : Kem) (aead : Aead)

/-- The list that `shyake_check` makes of the items in the answer. `none` is a request that failed,
or an item that lacks a field. -/
def shyakeCheck (isSent : Bool) (ksk : Option Bytes) (answer : Option (List Object)) :
    Option (List MailEntry) := do
  let items ← answer
  items.mapM (mailEntry kem aead isSent ksk)

/-- `find_ref_in_box`. -/
def findRefInBox (list : Option (List MailEntry)) (ref : Bytes) : Option Bytes := do
  let list ← list
  let e ← list.find? fun e => e.ref == some ref
  some e.mailId

/-- A file in the directory of saved mail, with the JSON in it if it can be read and parsed. -/
structure SavedFile where
  name : Bytes
  json : Option Object

/-- The mail ID in the name of a saved copy. -/
def savedId (name : Bytes) : Option Bytes :=
  if 5 < name.length ∧ name.drop (name.length - 5) = utf8 ".json" then
    some (name.take (name.length - 5))
  else none

/-- `find_ref_in_saved`, over the entries of the directory in the order of `readdir`. -/
def findRefInSaved (dir : List SavedFile) (ref : Bytes) : Option Bytes :=
  dir.findSome? fun file => do
    let id ← savedId file.name
    let json ← file.json
    if jsonRef json = some ref then some id else none

/-- `shyake_find_ref`, with an instance configured: the mail ID and `*saved`. A directory that
cannot be opened is empty. -/
def shyakeFindRef (ksk : Option Bytes) (inbox sent : Option (List Object)) (dir : List SavedFile)
    (ref : Bytes) : Option Bytes × Bool :=
  if !isRef ref then (none, false)
  else
    match findRefInBox (shyakeCheck kem aead false ksk inbox) ref with
    | some id => (some id, false)
    | none =>
      match findRefInBox (shyakeCheck kem aead true ksk sent) ref with
      | some id => (some id, false)
      | none =>
        match findRefInSaved dir ref with
        | some id => (some id, true)
        | none => (none, false)

/-! ## Saved copies -/

/-- The id of a saved copy whose signature has this reference. -/
def SavedCopy (dir : List SavedFile) (ref id : Bytes) : Prop :=
  ∃ file ∈ dir, savedId file.name = some id ∧ ∃ json, file.json = some json ∧
    jsonRef json = some ref

theorem findRefInSaved_some {dir : List SavedFile} {ref id : Bytes}
    (found : findRefInSaved dir ref = some id) : SavedCopy dir ref id := by
  obtain ⟨file, mem, here⟩ := List.exists_of_findSome?_eq_some found
  obtain ⟨id', name, here⟩ := Option.bind_eq_some_iff.mp here
  obtain ⟨json, content, here⟩ := Option.bind_eq_some_iff.mp here
  split at here
  · rename_i same
    cases here
    exact ⟨file, mem, name, json, content, same⟩
  · cases here

theorem findRefInSaved_none {dir : List SavedFile} {ref : Bytes}
    (none : findRefInSaved dir ref = none) (id : Bytes) : ¬ SavedCopy dir ref id := by
  rintro ⟨file, mem, name, json, content, same⟩
  have here := List.findSome?_eq_none_iff.mp none file mem
  rw [name, content] at here
  simp only [Option.bind_eq_bind, Option.bind_some, same, if_true] at here
  cases here

/-! ## Listings of a Go instance -/

/-- An item of the JSON shows this mail of a listing. -/
structure ItemShows (m : MailJSON) (item : Object) : Prop where
  id : getString item (utf8 "mail_id") = some m.id
  ref : getString item (utf8 "sig_hash") = some m.sigHash
  sender : (getString item (utf8 "sender")).isSome
  recipient : (getString item (utf8 "recipient")).isSome
  size : (getObjectItem item (utf8 "size")).isSome
  timestamp : (getObjectItem item (utf8 "timestamp")).isSome
  keySender : (getString item (utf8 "enc_key_sender")).isSome
  keyRecipient : (getString item (utf8 "enc_key_recipient")).isSome
  subject : (getObjectItem item (utf8 "enc_subject")).isSome

/-- The items show the listing of a user's box. -/
def Listing (db : Db) (username : Bytes) (sent : Bool) (items : List Object) : Prop :=
  List.Forall₂ ItemShows ((db.listMail username sent).map fun m => toJSON m false) items

theorem openKey_isSome (ksk encKey : Option Bytes) (there : encKey.isSome) :
    (openKey kem ksk encKey).isSome := by
  obtain ⟨k, rfl⟩ := Option.isSome_iff_exists.mp there
  cases ksk <;> rfl

/-- An item that shows a mail becomes an entry with its id and reference. -/
theorem mailEntry_of_shows {m : MailJSON} {item : Object} (shows : ItemShows m item)
    (isSent : Bool) (ksk : Option Bytes) : ∃ e, mailEntry kem aead isSent ksk item = some e ∧
      e.mailId = m.id ∧ e.ref = (some m.sigHash).filter isRef := by
  have party : (getString item (if isSent then utf8 "recipient" else utf8 "sender")).isSome := by
    cases isSent with
    | true => exact shows.recipient
    | false => exact shows.sender
  have key : (getString item (keyField isSent)).isSome := by
    cases isSent with
    | true => exact shows.keySender
    | false => exact shows.keyRecipient
  obtain ⟨party, hparty⟩ := Option.isSome_iff_exists.mp party
  obtain ⟨sz, hsz⟩ := Option.isSome_iff_exists.mp shows.size
  obtain ⟨ts, hts⟩ := Option.isSome_iff_exists.mp shows.timestamp
  obtain ⟨encSub, hsub⟩ := Option.isSome_iff_exists.mp shows.subject
  obtain ⟨k, hkey⟩ := Option.isSome_iff_exists.mp key
  obtain ⟨encKey, here, value⟩ := Option.bind_eq_some_iff.mp hkey
  obtain ⟨sym, hsym⟩ := Option.isSome_iff_exists.mp
    (openKey_isSome kem ksk encKey.valuestring (by rw [value]; rfl))
  unfold mailEntry
  simp only [shows.id, hparty, hsz, hts, here, hsub, hsym, shows.ref, Option.bind_eq_bind,
    Option.bind_some]
  exact ⟨_, rfl, rfl, rfl⟩

/-- A listing becomes a list of entries, one for each mail. -/
theorem shyakeCheck_of_shows {list : List MailJSON} {items : List Object}
    (shows : List.Forall₂ ItemShows list items) (isSent : Bool) (ksk : Option Bytes) :
    ∃ entries, shyakeCheck kem aead isSent ksk (some items) = some entries ∧
      List.Forall₂ (fun m e => e.mailId = m.id ∧ e.ref = (some m.sigHash).filter isRef) list
        entries := by
  induction shows with
  | nil => exact ⟨[], rfl, .nil⟩
  | @cons m item list items first _ ih =>
    obtain ⟨e, made, fields⟩ := mailEntry_of_shows kem aead first isSent ksk
    obtain ⟨entries, rest, all⟩ := ih
    refine ⟨e :: entries, ?_, .cons fields all⟩
    have rest : items.mapM (mailEntry kem aead isSent ksk) = some entries := rest
    unfold shyakeCheck
    simp only [Option.bind_eq_bind, Option.bind_some, List.mapM_cons, made, rest]
    rfl

/-- The user's boxes hold the mail that names the user. -/
def inBox (username : Bytes) (sent : Bool) (r : MailRow) : Prop :=
  (if sent then r.mail.sender else r.mail.recipient) = username

theorem mem_listMail {db : Db} {username : Bytes} {sent : Bool} {m : Go.Mail} :
    m ∈ db.listMail username sent ↔ ∃ r ∈ db.mail, inBox username sent r ∧ Db.listed r = m := by
  unfold Db.listMail inBox
  simp only [List.mem_map, List.mem_mergeSort, List.mem_filter]
  cases sent <;> simp [and_assoc]

theorem isRef_hexEncode_sigHash (signature : Bytes) :
    isRef (Go.hexEncode (Go.sigHash signature)) = true := by
  have digit : ∀ c : UInt8, (utf8 "0123456789abcdef").contains (Go.hexDigit (c >>> 4)) = true ∧
      (utf8 "0123456789abcdef").contains (Go.hexDigit (c &&& 15)) = true := by
    intro c
    have table : ∀ n : Fin 256,
        (utf8 "0123456789abcdef").contains (Go.hexDigit (UInt8.ofNat n >>> 4)) = true ∧
        (utf8 "0123456789abcdef").contains (Go.hexDigit (UInt8.ofNat n &&& 15)) = true := by
      decide +kernel
    simpa using table ⟨c.toNat, c.toNat_lt⟩
  have length : (Go.hexEncode (Go.sigHash signature)).length = 64 := by
    unfold Go.sigHash
    rw [Go.length_hexEncode, Lib.length_sha256]
  unfold isRef
  rw [length]
  refine Bool.and_eq_true_iff.mpr ⟨rfl, List.all_eq_true.mpr fun c mem => ?_⟩
  obtain ⟨b, -, here⟩ := List.mem_flatMap.mp mem
  rcases List.mem_cons.mp here with rfl | here
  · exact (digit b).1
  · obtain rfl := List.mem_singleton.mp here
    exact (digit b).2

theorem exists_of_forall₂ {α β : Type} {R : α → β → Prop} {l₁ : List α} {l₂ : List β}
    (h : List.Forall₂ R l₁ l₂) {b : β} (mem : b ∈ l₂) : ∃ a ∈ l₁, R a b := by
  induction h with
  | nil => cases mem
  | @cons a b' l₁ l₂ here _ ih =>
    rcases List.mem_cons.mp mem with rfl | rest
    · exact ⟨a, List.mem_cons_self, here⟩
    · obtain ⟨a', mem', there⟩ := ih rest
      exact ⟨a', List.mem_cons_of_mem _ mem', there⟩

section box

variable {kem aead} {db : Db} {username : Bytes} {sent : Bool} {items : List Object}
  {ksk : Option Bytes} {entries : List MailEntry}

/-- An entry with a reference is of a row with that hash. -/
theorem row_of_entry (lists : List.Forall₂
      (fun m e => e.mailId = m.id ∧ e.ref = (some m.sigHash).filter isRef)
      ((db.listMail username sent).map fun m => toJSON m false) entries)
    {e : MailEntry} (mem : e ∈ entries) {ref : Bytes} (has : e.ref = some ref) :
    ∃ r ∈ db.mail, inBox username sent r ∧ e.mailId = r.mail.id ∧
      Go.hexEncode r.sigHash = ref := by
  obtain ⟨m, hm, id, shown⟩ := exists_of_forall₂ lists mem
  obtain ⟨listed, hlisted, rfl⟩ := List.mem_map.mp hm
  obtain ⟨r, hr, box, rfl⟩ := mem_listMail.mp hlisted
  refine ⟨r, hr, box, id, ?_⟩
  rw [has] at shown
  exact (Option.filter_eq_some_iff.mp shown.symm).1 |> Option.some.inj

/-- A row of the box has its entry. -/
theorem entry_of_row (lists : List.Forall₂
      (fun m e => e.mailId = m.id ∧ e.ref = (some m.sigHash).filter isRef)
      ((db.listMail username sent).map fun m => toJSON m false) entries)
    {r : MailRow} (hr : r ∈ db.mail) (box : inBox username sent r) {signature : Bytes}
    (hash : r.sigHash = Go.sigHash signature) :
    ∃ e ∈ entries, e.ref = some (Go.hexEncode (Go.sigHash signature)) := by
  have there := List.mem_map_of_mem (f := fun m => toJSON m false)
    (mem_listMail.mpr ⟨r, hr, box, rfl⟩)
  have back : List.Forall₂ (flip fun (m : MailJSON) (e : MailEntry) =>
      e.mailId = m.id ∧ e.ref = (some m.sigHash).filter isRef) entries
      ((db.listMail username sent).map fun m => toJSON m false) :=
    List.Forall₂.flip lists
  obtain ⟨e, mem, -, shown⟩ := exists_of_forall₂ back there
  refine ⟨e, mem, shown.trans ?_⟩
  rw [← hash]
  exact Option.filter_eq_some_iff.mpr ⟨rfl, hash ▸ isRef_hexEncode_sigHash signature⟩

/-- The mail with a reference is found in the box it is in. -/
theorem findRefInBox_of_row (lists : Listing db username sent items) {r : MailRow}
    (hr : r ∈ db.mail) (box : inBox username sent r) {signature : Bytes}
    (hash : r.sigHash = Go.sigHash signature) :
    findRefInBox (shyakeCheck kem aead sent ksk (some items))
      (Go.hexEncode (Go.sigHash signature)) = some r.mail.id := by
  obtain ⟨entries, made, fields⟩ := shyakeCheck_of_shows kem aead lists sent ksk
  obtain ⟨e, mem, has⟩ := entry_of_row fields hr box hash
  obtain ⟨e', found⟩ : ∃ e', entries.find? (fun e =>
      e.ref == some (Go.hexEncode (Go.sigHash signature))) = some e' := by
    rw [← Option.isSome_iff_exists, List.find?_isSome]
    exact ⟨e, mem, beq_iff_eq.mpr has⟩
  have has' : e'.ref = some (Go.hexEncode (Go.sigHash signature)) := by
    simpa using List.find?_some found
  obtain ⟨r', hr', -, id, same⟩ := row_of_entry fields (List.mem_of_find?_eq_some found) has'
  have one : r' = r :=
    Db.row_unique hr' hr ((Go.Protocol.hexEncode_injective same).trans hash.symm)
  unfold findRefInBox
  rw [made]
  simp only [Option.bind_eq_bind, Option.bind_some, found, id, one]

/-- And where no mail has it, none is found. -/
theorem findRefInBox_none (lists : Listing db username sent items) {signature : Bytes}
    (absent : ∀ r ∈ db.mail, inBox username sent r → r.sigHash ≠ Go.sigHash signature) :
    findRefInBox (shyakeCheck kem aead sent ksk (some items))
      (Go.hexEncode (Go.sigHash signature)) = none := by
  obtain ⟨entries, made, fields⟩ := shyakeCheck_of_shows kem aead lists sent ksk
  have missing : entries.find? (fun e =>
      e.ref == some (Go.hexEncode (Go.sigHash signature))) = none := by
    refine List.find?_eq_none.mpr fun e mem has => ?_
    obtain ⟨r, hr, box, -, same⟩ := row_of_entry fields mem (beq_iff_eq.mp has)
    exact absent r hr box (Go.Protocol.hexEncode_injective same)
  unfold findRefInBox
  rw [made]
  simp only [Option.bind_eq_bind, Option.bind_some, missing, Option.bind_none]

end box

/-! ## The search -/

/-- What `shyake_find_ref` does for a user of a Go instance with the reference of `m`, which is the
user's mail: `inboxes` and `sents` are the states at the two listings. -/
structure FindsOwn (m : Go.Mail) : Prop where
  /-- While its row exists, the user gets its id. -/
  stored : ∀ (inboxes sents : Db) (username : Bytes) (ksk : Option Bytes) (inbox sent : List Object)
    (dir : List SavedFile), (m.sender = username ∨ m.recipient = username) →
    (⟨m, Go.sigHash m.signature⟩ : MailRow) ∈ inboxes.mail →
    (⟨m, Go.sigHash m.signature⟩ : MailRow) ∈ sents.mail →
    Listing inboxes username false inbox → Listing sents username true sent →
    shyakeFindRef kem aead ksk (some inbox) (some sent) dir (sigRef m.signature) =
      (some m.id, false)
  /-- Without a row of that hash, the user gets the id of a saved copy, or NULL if there is none. -/
  saved : ∀ (inboxes sents : Db) (username : Bytes) (ksk : Option Bytes) (inbox sent : List Object)
    (dir : List SavedFile), (∀ r ∈ inboxes.mail, r.sigHash ≠ Go.sigHash m.signature) →
    (∀ r ∈ sents.mail, r.sigHash ≠ Go.sigHash m.signature) →
    Listing inboxes username false inbox → Listing sents username true sent →
    (∃ id, SavedCopy dir (sigRef m.signature) id ∧
      shyakeFindRef kem aead ksk (some inbox) (some sent) dir (sigRef m.signature) =
        (some id, true)) ∨
    (∀ id, ¬ SavedCopy dir (sigRef m.signature) id) ∧
      shyakeFindRef kem aead ksk (some inbox) (some sent) dir (sigRef m.signature) = (none, false)

theorem findsOwn (m : Go.Mail) : FindsOwn kem aead m where
  stored := by
    intro inboxes sents username ksk inbox sent dir party hi hs listsInbox listsSent
    have ref : isRef (sigRef m.signature) = true := isRef_hexEncode_sigHash m.signature
    unfold shyakeFindRef
    rw [ref]
    by_cases mine : m.recipient = username
    · have found : findRefInBox (shyakeCheck kem aead false ksk (some inbox))
          (sigRef m.signature) = some m.id := findRefInBox_of_row listsInbox hi mine rfl
      simp only [found, Bool.not_true, Bool.false_eq_true, if_false]
    · have absent : findRefInBox (shyakeCheck kem aead false ksk (some inbox))
          (sigRef m.signature) = none := by
        refine findRefInBox_none listsInbox fun r hr box same => mine ?_
        rw [Db.row_unique hr hi same] at box
        exact box
      have found : findRefInBox (shyakeCheck kem aead true ksk (some sent))
          (sigRef m.signature) = some m.id :=
        findRefInBox_of_row listsSent hs (party.resolve_right mine) rfl
      simp only [absent, found, Bool.not_true, Bool.false_eq_true, if_false]
  saved := by
    intro inboxes sents username ksk inbox sent dir hi hs listsInbox listsSent
    have ref : isRef (sigRef m.signature) = true := isRef_hexEncode_sigHash m.signature
    have absent : findRefInBox (shyakeCheck kem aead false ksk (some inbox))
        (sigRef m.signature) = none := findRefInBox_none listsInbox fun r hr _ => hi r hr
    have absent' : findRefInBox (shyakeCheck kem aead true ksk (some sent))
        (sigRef m.signature) = none := findRefInBox_none listsSent fun r hr _ => hs r hr
    unfold shyakeFindRef
    simp only [ref, absent, absent', Bool.not_true, Bool.false_eq_true, if_false]
    cases found : findRefInSaved dir (sigRef m.signature) with
    | none => exact .inr ⟨findRefInSaved_none found, rfl⟩
    | some id => exact .inl ⟨id, findRefInSaved_some found, rfl⟩

end Shyake.Client
