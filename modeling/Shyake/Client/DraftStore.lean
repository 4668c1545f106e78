import Mathlib.Data.List.Nodup
import Shyake.Client.Cli.Text
import Shyake.Client.SaveDraft

/-!
# Several programs at one drafts directory

The steps in which `cli_save_draft` touches the directory, in any order with those of other saves
and with deletions. A new draft is given the id behind the highest that was seen, or the next one for
which the file could be made; an edit reads the old draft, cuts its file to nothing and writes.
-/

namespace Shyake.Client

variable (kdf : Kdf) (keyAead : Bytes → Aead) (kem : Kem) (aead : Aead) (printG : Int → Bytes)
  (parser : JsonParser) (ctx : Ctx)

/-! ## The directory -/

/-- The directory `drafts/`. A name leads to an inode, and a program that has the file open goes on
writing to the inode when the name is gone. -/
structure DraftDir where
  names : List (Bytes × Nat)
  content : Nat → Bytes
  /-- The inode of the file that is made next. -/
  next : Nat

namespace DraftDir

def empty : DraftDir := ⟨[], fun _ => [], 0⟩

/-- The inode of a name. -/
def inode (d : DraftDir) (name : Bytes) : Option Nat :=
  (d.names.find? fun file => file.1 == name).map Prod.snd

/-- `open` with `O_CREAT | O_EXCL`, of a name that is not there. -/
def create (d : DraftDir) (name : Bytes) : DraftDir :=
  { names := d.names ++ [(name, d.next)], content := Function.update d.content d.next [],
    next := d.next + 1 }

/-- `open` with `O_TRUNC`. -/
def truncate (d : DraftDir) (inode : Nat) : DraftDir :=
  { d with content := Function.update d.content inode [] }

/-- `fputs` and `fclose`: the bytes from the start of the file on. -/
def write (d : DraftDir) (inode : Nat) (text : Bytes) : DraftDir :=
  { d with content := Function.update d.content inode (text ++ (d.content inode).drop text.length) }

def unlink (d : DraftDir) (name : Bytes) : DraftDir :=
  { d with names := d.names.filter fun file => file.1 != name }

/-- What a file holds. -/
def read (d : DraftDir) (name : Bytes) : Option Bytes := (d.inode name).map d.content

/-- The files, those of the drafts among them. -/
def files (d : DraftDir) (keys : Files) : Files := fun path =>
  if (ctx.configDir ++ utf8 "/drafts/").isPrefixOf path then
    d.read (path.drop (ctx.configDir ++ utf8 "/drafts/").length)
  else keys path

variable {d : DraftDir} {name other : Bytes} {n : Nat}

theorem mem_of_inode (here : d.inode name = some n) : (name, n) ∈ d.names := by
  obtain ⟨file, found, rfl⟩ := Option.map_eq_some_iff.mp here
  have same := List.find?_some (p := fun file : Bytes × Nat => file.1 == name) found
  rw [← eq_of_beq same]
  exact List.mem_of_find?_eq_some found

theorem inode_of_mem (distinct : (d.names.map Prod.fst).Nodup) (mem : (name, n) ∈ d.names) :
    d.inode name = some n := by
  cases found : d.inode name with
  | none =>
    have no := List.find?_eq_none.mp (Option.map_eq_none_iff.mp found) (name, n) mem
    exact absurd (beq_self_eq_true name) no
  | some m =>
    have same := List.inj_on_of_nodup_map distinct (mem_of_inode found) mem rfl
    rw [(Prod.mk.inj same).2]

@[simp] theorem inode_create_self (fresh : d.inode name = none) :
    (d.create name).inode name = some d.next := by
  have no := Option.map_eq_none_iff.mp fresh
  unfold inode create
  rw [List.find?_append, no]
  simp

@[simp] theorem inode_create_ne (ne : other ≠ name) : (d.create name).inode other = d.inode other := by
  unfold inode create
  rw [List.find?_append]
  simp [ne.symm]

theorem inode_unlink_ne (ne : other ≠ name) : (d.unlink name).inode other = d.inode other := by
  unfold inode unlink
  rw [List.find?_filter]
  congr 2
  funext file
  by_cases same : file.1 = other
  · simp [same, ne]
  · simp [same]

theorem inode_unlink_self : (d.unlink name).inode name = none := by
  unfold inode unlink
  rw [List.find?_filter, Option.map_eq_none_iff, List.find?_eq_none]
  intro file _
  simp

end DraftDir

/-! ## Ids -/

def draftName (id : Bytes) : Bytes := id ++ utf8 ".json"

theorem draftName_injective : Function.Injective draftName := fun _ _ same =>
  List.append_cancel_right same

/-- `numeric_draft_id`: `<digits>.json`, or -1. -/
def numericDraftId (name : Bytes) : Int :=
  let nl := name.length
  if nl ≤ 5 ∨ name.drop (nl - 5) ≠ utf8 ".json" then -1
  else if (name.take (nl - 5)).all isDigit = false then -1
  else strtol name

/-- `max_draft_id`. -/
def maxDraftId (d : DraftDir) : Int :=
  d.names.foldl (fun max_id file =>
    let id := numericDraftId file.1
    if id > max_id then id else max_id) 0

theorem isDigit_formatInt (n : Nat) : ∀ c ∈ Go.formatInt n, isDigit c = true := by
  intro c mem
  obtain ⟨digit, here, rfl⟩ := List.mem_map.mp mem
  have char : digit.isDigit = true := Nat.isDigit_of_mem_toDigits (by decide) (by decide) here
  simp only [Char.isDigit, Bool.and_eq_true, decide_eq_true_eq] at char
  have lower : 48 ≤ digit.toNat := char.1
  have upper : digit.toNat ≤ 57 := char.2
  unfold isDigit
  simp only [Bool.and_eq_true, decide_eq_true_eq, UInt8.le_iff_toNat_le, UInt8.toNat_ofNat']
  constructor
  · exact show 48 ≤ _ by omega
  · exact show _ ≤ 57 by omega

theorem foldl_formatInt (n : Nat) :
    (Go.formatInt n).foldl (fun n c => 10 * n + (c.toNat - 48)) 0 = n := by
  have digits : ∀ c ∈ Nat.toDigits 10 n, c.isDigit = true :=
    fun _ => Nat.isDigit_of_mem_toDigits (by decide) (by decide)
  have step : ∀ (l : List Char) (start : Nat), (∀ c ∈ l, c.isDigit = true) →
      (l.map fun c => UInt8.ofNat c.toNat).foldl (fun n c => 10 * n + (c.toNat - 48)) start =
        Nat.ofDigitChars 10 l start := by
    intro l
    induction l with
    | nil => exact fun start _ => Nat.ofDigitChars_nil.symm
    | cons c l ih =>
      intro start all
      have char := all c List.mem_cons_self
      simp only [Char.isDigit, Bool.and_eq_true, decide_eq_true_eq] at char
      have upper : c.toNat ≤ 57 := char.2
      have byte : (UInt8.ofNat c.toNat).toNat = c.toNat := by
        rw [UInt8.toNat_ofNat']
        omega
      rw [List.map_cons, List.foldl_cons, Nat.ofDigitChars_cons, byte,
        ih _ fun c mem => all c (List.mem_cons_of_mem _ mem)]
      rfl
  exact (step _ 0 digits).trans Nat.ofDigitChars_ten_toDigits

theorem length_formatInt {n : Nat} (small : n < 2 ^ 63) : (Go.formatInt n).length ≤ 19 := by
  have short := (Nat.length_toDigits_le_iff (b := 10) (n := n) (k := 19) (by decide) (by decide)).mpr
    (by omega)
  exact (List.length_map _).trans_le short

theorem formatInt_ne_nil (n : Nat) : Go.formatInt n ≠ [] := by
  intro none
  exact Nat.toDigits_ne_nil (List.map_eq_nil_iff.mp none)

theorem snprintf_formatInt {n : Nat} (small : n < 2 ^ 63) :
    snprintf 32 (Go.formatInt n) = Go.formatInt n := by
  have short := length_formatInt small
  exact List.take_of_length_le (by omega)

/-- A number is read off the name of its draft. -/
theorem strtol_append {n : Nat} (small : n < 2 ^ 63) {rest : Bytes}
    (stop : ∀ c, rest.head? = some c → isDigit c = false) : strtol (Go.formatInt n ++ rest) = n := by
  have taken : (Go.formatInt n ++ rest).takeWhile isDigit = Go.formatInt n := by
    rw [List.takeWhile_append_of_pos (isDigit_formatInt n)]
    cases rest with
    | nil => rw [List.takeWhile_nil, List.append_nil]
    | cons c rest => rw [List.takeWhile_cons_of_neg (by simp [stop c rfl]), List.append_nil]
  cases digits : Go.formatInt n with
  | nil => exact absurd digits (formatInt_ne_nil n)
  | cons first more =>
    have digit : isDigit first = true := isDigit_formatInt n first (by rw [digits]; exact List.mem_cons_self)
    have value := foldl_formatInt n
    rw [digits] at taken value
    have solid : isspace first = false := by
      simp only [isDigit, Bool.and_eq_true, decide_eq_true_eq, UInt8.le_iff_toNat_le] at digit
      simp only [isspace, Bool.or_eq_false_iff, Bool.and_eq_false_iff, decide_eq_false_iff_not,
        UInt8.le_iff_toNat_le, beq_eq_false_iff_ne, ne_eq, ← UInt8.toNat_inj]
      have lower : 48 ≤ first.toNat := digit.1
      constructor
      · exact .inr (by show ¬ _ ≤ 13; omega)
      · exact show ¬ _ = 32 by omega
    have skipped : (first :: more ++ rest).dropWhile isspace = first :: more ++ rest :=
      List.dropWhile_cons_of_neg (by simp [solid])
    unfold strtol
    rw [skipped]
    dsimp only
    split
    · rename_i minus
      cases (List.cons.inj minus).1
      cases digit
    · rename_i plus
      cases (List.cons.inj plus).1
      cases digit
    · rw [taken, value]
      omega

theorem numericDraftId_draftName {n : Nat} (small : n < 2 ^ 63) :
    numericDraftId (draftName (Go.formatInt n)) = n := by
  have five : (utf8 ".json").length = 5 := by decide
  have filled := List.length_pos_of_ne_nil (formatInt_ne_nil n)
  have front : (draftName (Go.formatInt n)).length - 5 = (Go.formatInt n).length := by
    unfold draftName
    rw [List.length_append, five, Nat.add_sub_cancel]
  have long : 5 < (draftName (Go.formatInt n)).length := by omega
  have back : (draftName (Go.formatInt n)).drop (Go.formatInt n).length = utf8 ".json" :=
    List.drop_left
  have digits : (draftName (Go.formatInt n)).take (Go.formatInt n).length = Go.formatInt n :=
    List.take_left
  have all : (Go.formatInt n).all isDigit = true := List.all_eq_true.mpr (isDigit_formatInt n)
  unfold numericDraftId
  dsimp only
  rw [front, back, digits, if_neg (by rw [not_or]; exact ⟨by omega, fun ne => ne rfl⟩),
    if_neg (by rw [all]; decide)]
  exact strtol_append small (by rintro c ⟨⟩; rfl)

theorem maxDraftId_bounds (d : DraftDir) :
    0 ≤ maxDraftId d ∧ ∀ file ∈ d.names, numericDraftId file.1 ≤ maxDraftId d := by
  have bound : ∀ (names : List (Bytes × Nat)) (start : Int),
      let max_id := names.foldl (fun max_id file =>
        let id := numericDraftId file.1
        if id > max_id then id else max_id) start
      start ≤ max_id ∧ ∀ file ∈ names, numericDraftId file.1 ≤ max_id := by
    intro names
    induction names with
    | nil => exact fun start => ⟨le_refl _, nofun⟩
    | cons file names ih =>
      intro start
      obtain ⟨above, rest⟩ := ih (if numericDraftId file.1 > start then numericDraftId file.1 else start)
      constructor
      · apply le_trans _ above
        split <;> omega
      · intro other mem
        rcases List.mem_cons.mp mem with rfl | mem
        · apply le_trans _ above
          split <;> omega
        · exact rest other mem
  exact bound d.names 0

/-! ## Listing -/

/-- A `shyake_saved_entry`. -/
structure DraftEntry where
  mailId : Bytes
  sender : Bytes
  recipient : Bytes
  subject : Bytes
  timestamp : Int
  created : Int
  size : Int

/-- The body of the second loop of `cli_list_drafts`. -/
def listEntry (ksk username : Bytes) (name raw : Bytes) : Option DraftEntry := do
  let json ← parser.parse raw
  let jkey ← json.getString (utf8 "enc_key")
  let field (enc : Bytes) : Bytes := ((kemDecapsulateKey kem jkey ksk).bind fun sym =>
    decryptField aead sym (json.getString enc)).getD (utf8 "(decryption failed)")
  some
    { mailId := snprintf 32 (Go.formatInt (numericDraftId name))
      sender := if username ≠ [] then username else utf8 "(me)"
      recipient := field (utf8 "enc_recipient")
      subject := field (utf8 "enc_subject")
      timestamp := jsonDouble parser raw json (utf8 "modified")
      created := jsonDouble parser raw json (utf8 "created")
      size := ((json.getObjectItem (utf8 "size")).map Json.valueint).getD 0 }

/-- `cli_list_drafts`, with the text in `drafts_error` for a NULL. -/
def cliListDrafts (lastError username : Bytes) (keys : Files) (d : DraftDir) :
    Except Bytes (List DraftEntry) :=
  let drafts := d.names.filter fun file => numericDraftId file.1 ≥ 0
  if drafts = [] then .ok []
  else
    match Calls.loadKsk kdf keyAead ctx keys with
    | .error e =>
      let e := e.getD lastError
      .error (draftsSetError (if e ≠ [] then e else utf8 "Cannot unlock the secret key."))
    | .ok ksk =>
      let entries := drafts.filterMap fun file =>
        listEntry kem aead parser ksk username file.1 (d.content file.2)
      .ok (entries.mergeSort fun a b => strtol a.mailId ≤ strtol b.mailId)

/-! ## Saves -/

/-- What `cli_save_draft` is called with, and what it draws. -/
structure SaveJob where
  calls : DraftCalls
  recipient : Option CString
  subject : Option CString
  replyRef : Option CString
  body : Bytes

/-- A save that is not done. -/
inductive Saver where
  /-- A new draft: so many ids from `first` on were taken. `scanned` inodes were made before its scan. -/
  | trying (job : SaveJob) (sealed : SealedDraft) (scanned : Nat) (first : Int) (tries : Nat)
  /-- An edit that has read when the draft was created. -/
  | opening (job : SaveJob) (sealed : SealedDraft) (draftId : Bytes) (created : Int)
  /-- The file is open, and empty when nobody else writes to it. -/
  | writing (job : SaveJob) (sealed : SealedDraft) (new : Bool) (draftId : Bytes) (created : Int)
      (inode : Nat)

/-- The directory and the saves that go on, by the program that runs each. -/
structure DraftWorld where
  dir : DraftDir
  savers : Nat → Option Saver

namespace DraftWorld

def start : DraftWorld := ⟨.empty, fun _ => none⟩

def set (w : DraftWorld) (pid : Nat) (saver : Option Saver) : DraftWorld :=
  { w with savers := Function.update w.savers pid saver }

theorem savers_set (w : DraftWorld) (pid : Nat) (saver : Option Saver) :
    (w.set pid saver).savers = Function.update w.savers pid saver := rfl

end DraftWorld

/-- What a step is to the outside. -/
inductive DraftEvent where
  | internal
  /-- A new draft is to be saved. -/
  | scanned (job : SaveJob)
  /-- A draft is to be saved over. -/
  | reading (draftId : Bytes) (job : SaveJob)
  /-- The file of a new draft is made, or that of a draft cut to nothing. -/
  | opened (draftId : Bytes)
  /-- A new draft is saved, and the id returned. -/
  | saved (draftId : Bytes) (job : SaveJob)
  | edited (draftId : Bytes) (job : SaveJob)
  | deleted (draftId : Bytes)
  /-- A save returns an error. -/
  | failed
  /-- A save does not return: the JSON could not be printed. -/
  | crashed (draftId : Bytes)

/-- An id that is a name in the directory, and that no path is cut off for. -/
def PlainId (draftId : Bytes) : Prop := 47 ∉ draftId ∧ draftId.length ≤ 100

/-- The fields, sealed to the user's own key. -/
def sealJob (keys : Files) (job : SaveJob) : Option SealedDraft :=
  (shyakeSelfencBegin kem ctx keys job.calls).bind fun (symKey, encKey) =>
    sealDraft aead job.calls symKey encKey job.recipient job.subject job.replyRef job.body

/-- The JSON of a save. -/
def jobObj (draftId : Bytes) (created : Int) (job : SaveJob) (sealed : SealedDraft) : CJson.Object :=
  draftObj (snprintf 32 draftId) created job.calls.now job.body.length sealed

open CJson (printUnformatted)

/-- One step of a save, or a deletion. Writes succeed. -/
inductive DraftStep (keys : Files) : DraftWorld → DraftEvent → DraftWorld → Prop
  /-- A save of a new draft is sealed and scans the directory. -/
  | scan {w : DraftWorld} {pid : Nat} {job : SaveJob} {sealed : SealedDraft}
      (idle : w.savers pid = none) (body : job.body ≠ [])
      (made : sealJob kem aead ctx keys job = some sealed) :
      DraftStep keys w (.scanned job)
        (w.set pid (some (.trying job sealed w.dir.next (maxDraftId w.dir + 1) 0)))
  /-- `EEXIST`. -/
  | taken {w : DraftWorld} {pid : Nat} {job : SaveJob} {sealed : SealedDraft} {scanned : Nat} {first : Int}
      {tries : Nat} (saver : w.savers pid = some (.trying job sealed scanned first tries))
      (more : tries < 100)
      (there : (w.dir.inode (draftName (Go.formatInt (first + tries)))).isSome) :
      DraftStep keys w .internal (w.set pid (some (.trying job sealed scanned first (tries + 1))))
  | create {w : DraftWorld} {pid : Nat} {job : SaveJob} {sealed : SealedDraft} {scanned : Nat}
      {first : Int} {tries : Nat} (saver : w.savers pid = some (.trying job sealed scanned first tries))
      (more : tries < 100)
      (fresh : w.dir.inode (draftName (Go.formatInt (first + tries))) = none) :
      DraftStep keys w (.opened (Go.formatInt (first + tries)))
        { dir := w.dir.create (draftName (Go.formatInt (first + tries)))
          savers := Function.update w.savers pid (some (.writing job sealed true
            (Go.formatInt (first + tries)) job.calls.now w.dir.next)) }
  /-- A hundred ids were taken. -/
  | exhausted {w : DraftWorld} {pid : Nat} {job : SaveJob} {sealed : SealedDraft} {scanned : Nat}
      {first : Int} (saver : w.savers pid = some (.trying job sealed scanned first 100)) :
      DraftStep keys w .failed (w.set pid none)
  /-- An edit reads the draft and is sealed. -/
  | readOld {w : DraftWorld} {pid : Nat} {job : SaveJob} {sealed : SealedDraft} {draftId : Bytes}
      {created : Int} (idle : w.savers pid = none) (body : job.body ≠ []) (plain : PlainId draftId)
      (old : draftCreated parser ctx.configDir (w.dir.files ctx keys) job.calls (some draftId) =
        some created)
      (made : sealJob kem aead ctx keys job = some sealed) :
      DraftStep keys w (.reading draftId job)
        (w.set pid (some (.opening job sealed draftId created)))
  | cut {w : DraftWorld} {pid : Nat} {job : SaveJob} {sealed : SealedDraft} {draftId : Bytes}
      {created : Int} {inode : Nat} (saver : w.savers pid = some (.opening job sealed draftId created))
      (there : w.dir.inode (draftName draftId) = some inode) :
      DraftStep keys w (.opened draftId)
        { dir := w.dir.truncate inode
          savers := Function.update w.savers pid
            (some (.writing job sealed false draftId created inode)) }
  /-- The draft is gone, or something before the `open` fails. -/
  | giveUp {w : DraftWorld} {pid : Nat} {saver : Saver} (here : w.savers pid = some saver)
      (closed : ∀ job sealed new draftId created inode,
        saver ≠ .writing job sealed new draftId created inode) :
      DraftStep keys w .failed (w.set pid none)
  | write {w : DraftWorld} {pid : Nat} {job : SaveJob} {sealed : SealedDraft} {new : Bool}
      {draftId : Bytes} {created : Int} {inode : Nat} {payload : Bytes}
      (saver : w.savers pid = some (.writing job sealed new draftId created inode))
      (printed : printUnformatted printG (jobObj draftId created job sealed) = some payload) :
      DraftStep keys w (if new then .saved (snprintf 32 draftId) job else .edited draftId job)
        { dir := w.dir.write inode payload, savers := Function.update w.savers pid none }
  | crash {w : DraftWorld} {pid : Nat} {job : SaveJob} {sealed : SealedDraft} {new : Bool}
      {draftId : Bytes} {created : Int} {inode : Nat}
      (saver : w.savers pid = some (.writing job sealed new draftId created inode))
      (printed : printUnformatted printG (jobObj draftId created job sealed) = none) :
      DraftStep keys w (.crashed draftId) (w.set pid none)
  /-- `cli_delete_draft`. -/
  | delete {w : DraftWorld} {draftId : Bytes} (plain : PlainId draftId)
      (there : (w.dir.inode (draftName draftId)).isSome) :
      DraftStep keys w (.deleted draftId) { w with dir := w.dir.unlink (draftName draftId) }

end Shyake.Client
