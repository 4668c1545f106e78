import Shyake.Client.Calls
import Shyake.Client.Json

/-!
# Reading mail of any JSON (`mail.c`)

The readers of a listing, of one mail and of the saved copies, over whatever
`cJSON_Parse` gives. They return exactly when each field that they read is there, and
is a string where they need one.
-/

namespace Shyake.Client

namespace Calls

/-! ## Fields -/

/-- `cJSON_GetObjectItem(json, name)->valuestring`. -/
def valuestring (json : Json) (name : Bytes) : Routine (Option Bytes) := do
  let item ← deref (json.getObjectItem name)
  .ret item.valuestring

/-- `cJSON_GetObjectItem(json, name)->valueint`. -/
def valueint (json : Json) (name : Bytes) : Routine Int := do
  let item ← deref (json.getObjectItem name)
  .ret item.valueint

variable (aead : Aead)

/-- `json_ref`. -/
def jsonRef (json : Json) : Option Bytes := (json.getString (utf8 "signature")).map sigRef

/-- `open_reply_ref`. -/
def openReplyRef (sym : Bytes) (json : Json) : Option Bytes := do
  let e ← json.getString (utf8 "enc_reply_to")
  let ref ← decryptFromB64 aead sym e
  if isRef ref then some ref else none

/-- `sym`: NULL without a secret key. `base64_decode` reads its text, whatever it points to. -/
def openKey (ksk encKey : Option Bytes) : Routine (Option Bytes) :=
  match ksk with
  | none => .ret none
  | some ksk => do
    let encKey ← deref encKey
    kemDecapsulateKey encKey ksk

/-! ## One mail -/

/-- What the readers take from a mail. -/
structure Taken where
  sender : Bytes
  recipient : Bytes
  timestamp : Int
  size : Int
  subject : Option Bytes
  body : Option Bytes
  replyRef : Option Bytes

/-- What only some of the readers do. -/
def optional (wanted : Bool) (read : Routine α) (otherwise : α) : Routine α :=
  if wanted then read else .ret otherwise

/-- The part that the readers have in common; not all of them read the size and the body. -/
def takeMail (username : Bytes) (ksk : Option Bytes) (sized bodied : Bool) (json : Json) :
    Routine Taken := do
  let snd ← valuestring json (utf8 "sender")
  let rcp ← valuestring json (utf8 "recipient")
  let ts ← valueint json (utf8 "timestamp")
  let sz ← optional sized (valueint json (utf8 "size")) 0
  -- `strcmp` reads the sender
  let snd ← deref snd
  let encKey ← valuestring json (keyField (username == snd))
  let encSub ← valuestring json (utf8 "enc_subject")
  let encBdy ← optional bodied (valuestring json (utf8 "enc_body")) none
  let sym ← openKey ksk encKey
  -- `strdup` reads the recipient
  let rcp ← deref rcp
  .ret
    { sender := snd, recipient := rcp, timestamp := ts, size := sz,
      subject := openText aead sym encSub, body := openText aead sym encBdy,
      replyRef := sym.bind fun sym => openReplyRef aead sym json }

/-! ## Answers of the instance -/

/-- What comes of a request. -/
inductive Reply where
  | noAnswer
  /-- The JSON of the body, unless `cJSON_Parse` fails. -/
  | answer (code : Nat) (json : Option Json)

/-- The JSON of a 200. -/
def Reply.json : Reply → Option Json
  | .noAnswer => none
  | .answer code json => if code = 200 then json else none

variable (kdf : Kdf) (keyAead : Bytes → Aead)

/-- What a context and its files have to do with a reader, and what comes of its request. -/
structure Reading where
  ctx : Ctx
  files : Files
  now : Int
  pow : Bytes
  reply : Reply

/-- `ksk`, or NULL. -/
def Reading.ksk (r : Reading) : Option Bytes := (loadKsk kdf keyAead r.ctx r.files).toOption

/-- A signed GET, of whose answer only the JSON of a 200 is read. -/
def Reading.request (r : Reading) (endpoint : Bytes) (read : Json → Routine (Option α)) :
    Routine (Option α) := do
  match ← createSignedHeadersBody kdf keyAead r.now r.pow r.ctx r.files (utf8 "GET") endpoint none with
  | none => .ret none
  | some _ =>
    match r.reply.json with
    | none => .ret none
    | some json => read json

/-- `shyake_fetch`. -/
def shyakeFetch (r : Reading) (mailId : Bytes) : Routine (Option MailDetail) :=
  r.request kdf keyAead (snprintf 128 (utf8 "/api/mail/" ++ mailId)) fun json => do
    let t ← takeMail aead r.ctx.username (r.ksk kdf keyAead) false true json
    .ret (some
      { mailId, sender := t.sender, recipient := t.recipient, subject := t.subject, body := t.body,
        timestamp := t.timestamp, size := 0, ref := jsonRef json, replyRef := t.replyRef })

/-- `shyake_check_one`. -/
def shyakeCheckOne (r : Reading) (mailId : Bytes) : Routine (Option MailDetail) :=
  r.request kdf keyAead (snprintf 128 (utf8 "/api/mail/" ++ mailId)) fun json => do
    let t ← takeMail aead r.ctx.username (r.ksk kdf keyAead) true false json
    .ret (some
      { mailId, sender := t.sender, recipient := t.recipient, subject := t.subject, body := none,
        timestamp := t.timestamp, size := t.size, ref := jsonRef json, replyRef := t.replyRef })

/-- The entry that `shyake_check` makes of one item of the list. -/
def mailEntry (isSent : Bool) (ksk : Option Bytes) (item : Json) : Routine MailEntry := do
  let id ← valuestring item (utf8 "mail_id")
  let party ← valuestring item (if isSent then utf8 "recipient" else utf8 "sender")
  let sz ← valueint item (utf8 "size")
  let ts ← valueint item (utf8 "timestamp")
  let encKey ← valuestring item (keyField isSent)
  let encSub ← valuestring item (utf8 "enc_subject")
  let sym ← openKey ksk encKey
  let id ← deref id
  let party ← deref party
  .ret
    { mailId := id, party, subject := (openText aead sym encSub).getD decryptionFailed, size := sz,
      timestamp := ts, isSent, ref := (item.getString (utf8 "sig_hash")).filter isRef }

/-- The loop over the items. -/
def mailEntries (isSent : Bool) (ksk : Option Bytes) : List Json → Routine (List MailEntry)
  | [] => .ret []
  | item :: items => do
    let entry ← mailEntry aead isSent ksk item
    let entries ← mailEntries isSent ksk items
    .ret (entry :: entries)

/-- `shyake_check`. The size of the array is an `int`. -/
def shyakeCheck (r : Reading) (type : Bytes) : Routine (Option (List MailEntry)) :=
  r.request kdf keyAead (snprintf 128 (utf8 "/api/mail?type=" ++ type)) fun json =>
    match (json.getObjectItem (utf8 "mail")).bind Json.items? with
    | none => .ret none
    | some items => do
      let count := (toInt items.length).toNat
      let entries ← mailEntries aead (type == utf8 "sent") (r.ksk kdf keyAead) (items.take count)
      .ret (some entries)

/-! ## Saved copies -/

/-- A file in the directory of saved mail: its JSON, unless it cannot be opened or parsed. -/
structure SavedFile where
  name : Bytes
  json : Option Json

/-- `parse_saved_json`, of the file of that mail; `none` when it cannot be opened, `some none` when
`cJSON_Parse` fails. -/
def parseSavedJson (ctx : Ctx) (files : Files) (mailId : Bytes) (saved : Option (Option Json))
    (decryptBody : Bool) : Routine (Option MailDetail) :=
  match saved with
  | some (some json) => do
    let ksk := (loadKsk kdf keyAead ctx files).toOption
    let t ← takeMail aead ctx.username ksk true true json
    .ret (some
      { mailId, sender := t.sender, recipient := t.recipient, subject := t.subject,
        body := if decryptBody then t.body else none, timestamp := t.timestamp, size := t.size,
        ref := jsonRef json, replyRef := t.replyRef })
  | _ => .ret none

def shyakeReadSaved (ctx : Ctx) (files : Files) (mailId : Bytes) (saved : Option (Option Json)) :
    Routine (Option MailDetail) :=
  parseSavedJson aead kdf keyAead ctx files mailId saved true

def shyakeCheckSavedOne (ctx : Ctx) (files : Files) (mailId : Bytes)
    (saved : Option (Option Json)) : Routine (Option MailDetail) :=
  parseSavedJson aead kdf keyAead ctx files mailId saved false

/-- The second loop of `shyake_list_saved`, over the entries whose names end in `.json`. An id is
cut to the 255 bytes of its buffer. -/
def savedEntries (username : Bytes) (ksk : Option Bytes) :
    List SavedFile → Routine (List SavedEntry)
  | [] => .ret []
  | file :: dir =>
    match file.json with
    | none => savedEntries username ksk dir
    | some json => do
      let t ← takeMail aead username ksk true false json
      let entries ← savedEntries username ksk dir
      .ret
        ({ mailId := (file.name.take (file.name.length - 5)).take 255, sender := t.sender,
           recipient := t.recipient, subject := t.subject.getD decryptionFailed,
           timestamp := t.timestamp, size := t.size } :: entries)

/-- Whether a name ends in `.json`, with something before it. -/
def isJsonName (name : Bytes) : Bool :=
  5 < name.length && name.drop (name.length - 5) == utf8 ".json"

/-- `shyake_list_saved`, of the entries that `readdir` gives, or none when there is no directory. -/
def shyakeListSaved (ctx : Ctx) (files : Files) (dir : Option (List SavedFile)) :
    Routine (Option (List SavedEntry)) :=
  match dir with
  | none => .ret none
  | some dir =>
    let dir := dir.filter fun file => isJsonName file.name
    if dir = [] then .ret (some [])
    else do
      let entries ← savedEntries aead ctx.username (loadKsk kdf keyAead ctx files).toOption dir
      .ret (some entries)

/-! ## When a reader returns -/

/-- Anything but a fault is answered. -/
theorem answered (c : Call) (h : NoFault c) : Nonempty c.Answer := by
  cases c with
  | decaps ct sk => exact ⟨none⟩
  | sign message sk => exact ⟨[]⟩
  | fault => exact absurd rfl h

theorem asks_valuestring {json : Json} {name : Bytes} {f : Option Bytes → Routine α} :
    (valuestring json name >>= f).Asks NoFault ↔
      ∃ item, json.getObjectItem name = some item ∧ (f item.valuestring).Asks NoFault := by
  unfold valuestring
  rw [Lib.Prog.bind_assoc]
  exact asks_deref

theorem asks_valueint {json : Json} {name : Bytes} {f : Int → Routine α} :
    (valueint json name >>= f).Asks NoFault ↔
      ∃ item, json.getObjectItem name = some item ∧ (f item.valueint).Asks NoFault := by
  unfold valueint
  rw [Lib.Prog.bind_assoc]
  exact asks_deref

theorem asks_kemDecapsulateKey {encKeyB64 mySk : Bytes} {P : Prop} {f : Option Bytes → Routine α}
    (same : ∀ sym, (f sym).Asks NoFault ↔ P) :
    (kemDecapsulateKey encKeyB64 mySk >>= f).Asks NoFault ↔ P := by
  exact Lib.Prog.asks_bind_iff (kemDecapsulateKey_asks (fun _ => nofun) encKeyB64) answered same

/-- The wrapped key is read if there is a secret key. -/
theorem asks_openKey {ksk encKey : Option Bytes} {P : Prop} {f : Option Bytes → Routine α}
    (same : ∀ sym, (f sym).Asks NoFault ↔ P) :
    (openKey ksk encKey >>= f).Asks NoFault ↔ (ksk.isSome → encKey.isSome) ∧ P := by
  cases ksk with
  | none => exact (same none).trans (and_iff_right nofun).symm
  | some ksk =>
    unfold openKey
    dsimp only
    rw [Lib.Prog.bind_assoc, asks_deref]
    simp only [asks_kemDecapsulateKey same, exists_and_right, Option.isSome_some, true_implies,
      Option.isSome_iff_exists]

/-- A field that is there, and is a string if it is needed as one. -/
def Field (json : Json) (needed : Prop) (name : Bytes) : Prop :=
  ∃ item, json.getObjectItem name = some item ∧ (needed → item.valuestring.isSome)

/-- The fields that a reader of one mail needs. The wrapped key is read if there is a secret key. -/
structure MailFields (username : Bytes) (ksk : Option Bytes) (sized bodied : Bool) (json : Json) :
    Prop where
  sender : Field json True (utf8 "sender")
  recipient : Field json True (utf8 "recipient")
  timestamp : Field json False (utf8 "timestamp")
  size : sized → Field json False (utf8 "size")
  encKey : Field json ksk.isSome (keyField (json.getString (utf8 "sender") == some username))
  encSubject : Field json False (utf8 "enc_subject")
  encBody : bodied → Field json False (utf8 "enc_body")

/-- A field whose text decides nothing of what is asked later. -/
theorem asks_text {json : Json} {name : Bytes} {f : Option Bytes → Routine α} {P : Prop}
    (same : ∀ text, (f text).Asks NoFault ↔ P) :
    (valuestring json name >>= f).Asks NoFault ↔ Field json False name ∧ P := by
  unfold Field
  simp only [asks_valuestring, same, exists_and_right, false_implies, and_true]

theorem asks_number {json : Json} {name : Bytes} {f : Int → Routine α} {P : Prop}
    (same : ∀ n, (f n).Asks NoFault ↔ P) :
    (valueint json name >>= f).Asks NoFault ↔ Field json False name ∧ P := by
  unfold Field
  simp only [asks_valueint, same, exists_and_right, false_implies, and_true]

/-- A field that only some of the readers read. -/
theorem asks_optional {wanted : Bool} {read : Routine α} {d : α} {f : α → Routine β} {P Q : Prop}
    (same : ∀ a, (f a).Asks NoFault ↔ P) (here : (read >>= f).Asks NoFault ↔ Q ∧ P) :
    (optional wanted read d >>= f).Asks NoFault ↔ (wanted → Q) ∧ P := by
  unfold optional
  cases wanted with
  | false => exact (same d).trans (and_iff_right nofun).symm
  | true =>
    rw [if_pos rfl, here]
    simp only [true_implies]

/-- Which key is taken, with the sender still behind its pointer. -/
theorem mine_eq {json : Json} {username s : Bytes}
    (name : json.getString (utf8 "sender") = some s) :
    (json.getString (utf8 "sender") == some username) = (username == s) := by
  rw [name, Bool.eq_iff_iff, beq_iff_eq, beq_iff_eq, Option.some_inj]
  exact eq_comm

theorem takeMail_returns {username : Bytes} {ksk : Option Bytes} {sized bodied : Bool}
    {json : Json} : (takeMail aead username ksk sized bodied json).Asks NoFault ↔
      MailFields username ksk sized bodied json := by
  -- what is asked once the sender is known
  have rest (snd : Bytes) (rcp : Option Bytes)
      (f : Option Bytes → Option Bytes → Option Bytes → Bytes → Taken) :
      (valuestring json (keyField (username == snd)) >>= fun encKey =>
        valuestring json (utf8 "enc_subject") >>= fun encSub =>
        optional bodied (valuestring json (utf8 "enc_body")) none >>= fun encBdy =>
        openKey ksk encKey >>= fun sym => deref rcp >>= fun rcp =>
          (.ret (f encSub encBdy sym rcp) : Routine Taken)).Asks NoFault ↔
      ∃ encKey, json.getObjectItem (keyField (username == snd)) = some encKey ∧
        Field json False (utf8 "enc_subject") ∧ (bodied → Field json False (utf8 "enc_body")) ∧
        (ksk.isSome → encKey.valuestring.isSome) ∧ rcp.isSome := by
    rw [asks_valuestring]
    refine exists_congr fun encKey => and_congr_right fun _ => asks_text fun encSub => ?_
    have behind (encBdy : Option Bytes) : (openKey ksk encKey.valuestring >>= fun sym =>
        deref rcp >>= fun rcp => (.ret (f encSub encBdy sym rcp) : Routine Taken)).Asks NoFault ↔
        (ksk.isSome → encKey.valuestring.isSome) ∧ rcp.isSome :=
      asks_openKey fun sym => by
        rw [asks_deref, Option.isSome_iff_exists]
        exact exists_congr fun _ => and_iff_left trivial
    exact asks_optional behind (asks_text behind)
  have all : (takeMail aead username ksk sized bodied json).Asks NoFault ↔
      ∃ snd, json.getObjectItem (utf8 "sender") = some snd ∧
        ∃ rcp, json.getObjectItem (utf8 "recipient") = some rcp ∧
          Field json False (utf8 "timestamp") ∧ (sized → Field json False (utf8 "size")) ∧
          ∃ s, snd.valuestring = some s ∧
            ∃ encKey, json.getObjectItem (keyField (username == s)) = some encKey ∧
              Field json False (utf8 "enc_subject") ∧
              (bodied → Field json False (utf8 "enc_body")) ∧
              (ksk.isSome → encKey.valuestring.isSome) ∧ rcp.valuestring.isSome := by
    unfold takeMail
    rw [asks_valuestring]
    refine exists_congr fun snd => and_congr_right fun _ => ?_
    rw [asks_valuestring]
    refine exists_congr fun rcp => and_congr_right fun _ => ?_
    refine asks_number fun ts => asks_optional (fun sz => ?_) (asks_number fun sz => ?_)
    all_goals
      rw [asks_deref]
      exact exists_congr fun s => and_congr_right fun _ => rest s _ _
  rw [all]
  constructor
  · rintro ⟨snd, sender, rcp, recipient, timestamp, size, s, text, encKey, here, encSubject, encBody,
      wrapped, text'⟩
    have name : json.getString (utf8 "sender") = some s := by
      unfold Json.getString
      rw [sender, Option.bind_some, text]
    refine ⟨⟨snd, sender, fun _ => ?_⟩, ⟨rcp, recipient, fun _ => text'⟩, timestamp, size,
      ⟨encKey, ?_, wrapped⟩, encSubject, encBody⟩
    · rw [text]
      rfl
    · rw [mine_eq name]
      exact here
  · rintro ⟨⟨snd, sender, text⟩, ⟨rcp, recipient, text'⟩, timestamp, size, ⟨encKey, here, wrapped⟩,
      encSubject, encBody⟩
    obtain ⟨s, text⟩ := Option.isSome_iff_exists.mp (text trivial)
    have name : json.getString (utf8 "sender") = some s := by
      unfold Json.getString
      rw [sender, Option.bind_some, text]
    rw [mine_eq name] at here
    exact ⟨snd, sender, rcp, recipient, timestamp, size, s, text, encKey, here, encSubject, encBody,
      wrapped, text' trivial⟩

/-- The fields that an item of a listing needs. -/
structure ItemFields (isSent : Bool) (ksk : Option Bytes) (item : Json) : Prop where
  mailId : Field item True (utf8 "mail_id")
  party : Field item True (if isSent then utf8 "recipient" else utf8 "sender")
  size : Field item False (utf8 "size")
  timestamp : Field item False (utf8 "timestamp")
  encKey : Field item ksk.isSome (keyField isSent)
  encSubject : Field item False (utf8 "enc_subject")

theorem mailEntry_returns {isSent : Bool} {ksk : Option Bytes} {item : Json} :
    (mailEntry aead isSent ksk item).Asks NoFault ↔ ItemFields isSent ksk item := by
  have all : (mailEntry aead isSent ksk item).Asks NoFault ↔
      ∃ id, item.getObjectItem (utf8 "mail_id") = some id ∧
        ∃ party, item.getObjectItem (if isSent then utf8 "recipient" else utf8 "sender") =
            some party ∧
          Field item False (utf8 "size") ∧ Field item False (utf8 "timestamp") ∧
          ∃ encKey, item.getObjectItem (keyField isSent) = some encKey ∧
            Field item False (utf8 "enc_subject") ∧
            (ksk.isSome → encKey.valuestring.isSome) ∧ id.valuestring.isSome ∧
            party.valuestring.isSome := by
    unfold mailEntry
    rw [asks_valuestring]
    refine exists_congr fun id => and_congr_right fun _ => ?_
    rw [asks_valuestring]
    refine exists_congr fun party => and_congr_right fun _ => ?_
    refine asks_number fun sz => asks_number fun ts => ?_
    rw [asks_valuestring]
    refine exists_congr fun encKey => and_congr_right fun _ => asks_text fun encSub =>
      asks_openKey fun sym => ?_
    rw [asks_deref, Option.isSome_iff_exists, ← exists_and_right]
    refine exists_congr fun id => and_congr_right fun _ => ?_
    rw [asks_deref, Option.isSome_iff_exists]
    exact exists_congr fun _ => and_iff_left trivial
  rw [all]
  constructor
  · rintro ⟨id, hi, party, hp, size, timestamp, encKey, hk, encSubject, wrapped, text, text'⟩
    exact ⟨⟨id, hi, fun _ => text⟩, ⟨party, hp, fun _ => text'⟩, size, timestamp,
      ⟨encKey, hk, wrapped⟩, encSubject⟩
  · rintro ⟨⟨id, hi, text⟩, ⟨party, hp, text'⟩, size, timestamp, ⟨encKey, hk, wrapped⟩, encSubject⟩
    exact ⟨id, hi, party, hp, size, timestamp, encKey, hk, encSubject, wrapped, text trivial,
      text' trivial⟩

/-- A step of a loop that asks nothing more in the end. -/
theorem asks_bind_ret {p : Routine α} {f : α → β} :
    (p >>= fun a => .ret (f a)).Asks NoFault ↔ p.Asks NoFault :=
  ⟨Lib.Prog.Asks.left, fun h => h.bind fun _ => trivial⟩

/-- One round of such a loop. -/
theorem asks_round {p : Routine α} {q : Routine β} {f : α → β → γ} :
    (p >>= fun a => q >>= fun b => .ret (f a b)).Asks NoFault ↔ p.Asks NoFault ∧ q.Asks NoFault := by
  constructor
  · intro h
    have quiet := Lib.Prog.Asks.left h
    exact ⟨quiet, (Lib.Prog.asks_bind_iff quiet answered fun _ => asks_bind_ret).mp h⟩
  · rintro ⟨first, others⟩
    exact first.bind fun _ => asks_bind_ret.mpr others

theorem mailEntries_returns {isSent : Bool} {ksk : Option Bytes} (items : List Json) :
    (mailEntries aead isSent ksk items).Asks NoFault ↔
      ∀ item ∈ items, ItemFields isSent ksk item := by
  induction items with
  | nil => exact iff_of_true trivial nofun
  | cons item items ih =>
    unfold mailEntries
    rw [List.forall_mem_cons, ← ih, ← mailEntry_returns aead]
    exact asks_round

theorem savedEntries_returns {username : Bytes} {ksk : Option Bytes} (dir : List SavedFile) :
    (savedEntries aead username ksk dir).Asks NoFault ↔
      ∀ file ∈ dir, ∀ json, file.json = some json → MailFields username ksk true false json := by
  induction dir with
  | nil => exact iff_of_true trivial nofun
  | cons file dir ih =>
    unfold savedEntries
    rw [List.forall_mem_cons, ← ih]
    cases file.json with
    | none => exact (and_iff_right nofun).symm
    | some json =>
      simp only [Option.some.injEq, forall_eq', ← takeMail_returns aead]
      exact asks_round

/-- The JSON that a reader of the instance's answer reads. -/
def Reading.Answered (r : Reading) (json : Json) : Prop :=
  (∃ ssk, loadSsk kdf keyAead r.ctx r.files = .ok ssk) ∧ r.reply.json = some json

theorem request_returns {r : Reading} {endpoint : Bytes} {read : Json → Routine (Option α)} :
    (r.request kdf keyAead endpoint read).Asks NoFault ↔
      ∀ json, r.Answered kdf keyAead json → (read json).Asks NoFault := by
  unfold Reading.request Reading.Answered createSignedHeadersBody
  cases loadSsk kdf keyAead r.ctx r.files with
  | error text =>
    refine iff_of_true trivial ?_
    rintro json ⟨⟨ssk, no⟩, -⟩
    cases no
  | ok ssk =>
    cases r.reply.json with
    | none =>
      refine iff_of_true ⟨nofun, fun _ => trivial⟩ ?_
      rintro json ⟨-, no⟩
      cases no
    | some json =>
      constructor
      · rintro h json' ⟨-, same⟩
        cases same
        exact h.2 []
      · intro h
        exact ⟨nofun, fun _ => h json ⟨⟨ssk, rfl⟩, rfl⟩⟩

/-! ## The readers of flat objects -/

section

variable (kem : Kem) (sig : Sig) (coins : Bytes)

theorem valuestring_result (json : Json) (name : Bytes) :
    (valuestring json name).result (liboqs kem sig coins) =
      (json.getObjectItem name).map Json.valuestring := by
  unfold valuestring
  rw [Lib.Prog.result_bind, result_deref rfl]
  exact Option.map_eq_bind.symm

theorem valueint_result (json : Json) (name : Bytes) :
    (valueint json name).result (liboqs kem sig coins) =
      (json.getObjectItem name).map Json.valueint := by
  unfold valueint
  rw [Lib.Prog.result_bind, result_deref rfl]
  exact Option.map_eq_bind.symm

theorem openKey_result (ksk encKey : Option Bytes) :
    (openKey ksk encKey).result (liboqs kem sig coins) = Client.openKey kem ksk encKey := by
  cases ksk with
  | none => rfl
  | some ksk =>
    unfold openKey
    dsimp only
    rw [Lib.Prog.result_bind, result_deref rfl]
    cases encKey with
    | none => rfl
    | some encKey =>
      unfold Client.openKey
      dsimp only
      rw [Option.bind_some, kemDecapsulateKey_result]

/-- What is taken from a mail is what the readers of its flat object take. -/
theorem takeMail_result (username : Bytes) (ksk : Option Bytes) (sized bodied : Bool) (json : Json) :
    (takeMail aead username ksk sized bodied json).result (liboqs kem sig coins) =
      (openJson kem aead username ksk json.flat).bind fun o =>
        (if sized then (CJson.getObjectItem json.flat (utf8 "size")).map CJson.Item.valueint
          else some 0).bind fun sz =>
        (if bodied then
            (CJson.getObjectItem json.flat (utf8 "enc_body")).map CJson.Item.valuestring
          else some none).bind fun bdy =>
        some
          { sender := o.sender, recipient := o.recipient, timestamp := o.timestamp, size := sz,
            subject := o.subject, body := openText aead o.sym bdy, replyRef := o.replyRef } := by
  have optional_ {α : Type} (wanted : Bool) (read : Routine α) (d : α) :
      (optional wanted read d).result (liboqs kem sig coins) =
        if wanted then read.result (liboqs kem sig coins) else some d := by
    unfold optional
    split <;> rfl
  have deref_ {α : Type} (o : Option α) : (deref o).result (liboqs kem sig coins) = o :=
    result_deref rfl o
  have replyRef (sym : Bytes) :
      Client.openReplyRef aead sym json.flat = openReplyRef aead sym json := by
    unfold Client.openReplyRef openReplyRef
    rw [Json.getString_flat]
  unfold takeMail openJson
  simp only [Lib.Prog.result_bind, valuestring_result, valueint_result, optional_, openKey_result,
    deref_, Lib.Prog.result_ret, Json.getString_flat, Json.valuestring_flat, Json.valueint_flat,
    replyRef, Option.bind_eq_bind]
  generalize (if sized then (json.getObjectItem (utf8 "size")).map Json.valueint else some 0) = size
  generalize (if bodied then (json.getObjectItem (utf8 "enc_body")).map Json.valuestring
    else some none) = body
  unfold Json.getString
  -- each field in turn: where it is missing, there is nothing on either side
  cases size with
  | none => simp
  | some size =>
  cases body with
  | none => simp
  | some body =>
  cases json.getObjectItem (utf8 "sender") with
  | none => rfl
  | some snd =>
  cases json.getObjectItem (utf8 "recipient") with
  | none => simp
  | some rcp =>
  rcases json.lookup_flat (utf8 "timestamp") with ⟨here, here'⟩ | ⟨ts, ts', here, here', -, number⟩
  · simp [here, here']
  rw [here, here']
  simp only [Option.map_some, Option.bind_some]
  cases snd.valuestring with
  | none => simp
  | some s =>
  simp only [Option.bind_some]
  rcases json.lookup_flat (keyField (username == s)) with
    ⟨here, here'⟩ | ⟨key, key', here, here', wrapped, -⟩
  · simp [here, here']
  rw [here, here', Option.map_some, Option.bind_some]
  rcases json.lookup_flat (utf8 "enc_subject") with
    ⟨here, here'⟩ | ⟨sub, sub', here, here', text, -⟩
  · simp [here, here']
  simp only [here, here', Option.map_some, Option.bind_some, number, wrapped, text]
  cases rcp.valuestring with
  | none => simp
  | some r =>
  cases Client.openKey kem ksk key.valuestring with
  | none => simp
  | some sym => rfl

theorem jsonRef_flat (json : Json) : Client.jsonRef json.flat = jsonRef json := by
  unfold Client.jsonRef jsonRef
  rw [Json.getString_flat]

/-- A request that is signed and answered comes to what is read of its answer. -/
theorem request_result {r : Reading} {json : Json} (answered : r.Answered kdf keyAead json)
    (endpoint : Bytes) (read : Json → Routine (Option α)) :
    (r.request kdf keyAead endpoint read).result (liboqs kem sig coins) =
      (read json).result (liboqs kem sig coins) := by
  obtain ⟨⟨ssk, loaded⟩, reply⟩ := answered
  unfold Reading.request createSignedHeadersBody
  rw [loaded, reply]
  rfl

theorem shyakeFetch_result {r : Reading} {json : Json} (answered : r.Answered kdf keyAead json)
    (mailId : Bytes) :
    (shyakeFetch aead kdf keyAead r mailId).result (liboqs kem sig coins) =
      (Client.shyakeFetch kem aead r.ctx.username (r.ksk kdf keyAead) mailId json.flat).map some := by
  unfold shyakeFetch Client.shyakeFetch
  rw [request_result kdf keyAead kem sig coins answered, Lib.Prog.result_bind, takeMail_result]
  simp only [Bool.false_eq_true, if_false, if_true, Option.bind_some, jsonRef_flat,
    Option.bind_eq_bind]
  cases openJson kem aead r.ctx.username (r.ksk kdf keyAead) json.flat with
  | none => rfl
  | some o =>
    cases CJson.getObjectItem json.flat (utf8 "enc_body") with
    | none => rfl
    | some encBdy => rfl

theorem shyakeCheckOne_result {r : Reading} {json : Json} (answered : r.Answered kdf keyAead json)
    (mailId : Bytes) :
    (shyakeCheckOne aead kdf keyAead r mailId).result (liboqs kem sig coins) =
      (Client.shyakeCheckOne kem aead r.ctx.username (r.ksk kdf keyAead) mailId json.flat).map
        some := by
  unfold shyakeCheckOne Client.shyakeCheckOne
  rw [request_result kdf keyAead kem sig coins answered, Lib.Prog.result_bind, takeMail_result]
  simp only [Bool.false_eq_true, if_false, if_true, Option.bind_some, jsonRef_flat,
    Option.bind_eq_bind]
  cases openJson kem aead r.ctx.username (r.ksk kdf keyAead) json.flat with
  | none => rfl
  | some o =>
    cases CJson.getObjectItem json.flat (utf8 "size") with
    | none => rfl
    | some sz => rfl

theorem parseSavedJson_result (ctx : Ctx) (files : Files) (mailId : Bytes) (json : Json)
    (decryptBody : Bool) :
    (parseSavedJson aead kdf keyAead ctx files mailId (some (some json)) decryptBody).result
        (liboqs kem sig coins) =
      (Client.parseSavedJson kem aead ctx.username (loadKsk kdf keyAead ctx files).toOption mailId
        json.flat decryptBody).map some := by
  unfold parseSavedJson Client.parseSavedJson
  dsimp only
  rw [Lib.Prog.result_bind, takeMail_result]
  simp only [if_true, jsonRef_flat, Option.bind_eq_bind]
  cases openJson kem aead ctx.username (loadKsk kdf keyAead ctx files).toOption json.flat with
  | none => rfl
  | some o =>
    cases CJson.getObjectItem json.flat (utf8 "size") with
    | none => rfl
    | some sz =>
      cases CJson.getObjectItem json.flat (utf8 "enc_body") with
      | none => rfl
      | some encBdy => rfl

end

/-! ## Malformed JSON -/

namespace Sample

end Sample

end Calls

end Shyake.Client
