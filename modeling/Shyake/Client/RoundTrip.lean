import Shyake.Client.Mail

/-!
# What was sealed is read back

A mail's JSON carries the sealed fields unchanged, whatever else is in it, and every
reader gets the subject, the body and the reply reference back out of them, as long as
the text was encrypted as a whole.
-/

namespace Shyake.Client

open CJson

variable (kem : Kem) (aead : Aead)

/-! ## The fields of a mail -/

theorem cstr_base64Encode {data b64 : Bytes} (h : base64Encode data = some b64) :
    cstr b64 = b64 := by
  obtain ⟨n, rfl⟩ := base64Encode_eq h
  refine cstr_of_nulFree fun nul => ?_
  rcases encoded_of_mem nul with digit | pad
  · cases digit
  · cases pad

theorem cstr_encryptToB64 {key nonce pt b64 : Bytes}
    (h : encryptToB64 aead key nonce pt = some b64) : cstr b64 = b64 := by
  unfold encryptToB64 at h
  split at h
  · cases h
  · obtain ⟨_, _, h⟩ := Option.bind_eq_some_iff.mp h
    exact cstr_base64Encode h

theorem cstr_kemEncapsulateKey {coins pk sym b64 : Bytes}
    (h : kemEncapsulateKey kem coins pk sym = some b64) : cstr b64 = b64 := by
  unfold kemEncapsulateKey at h
  split at h
  · cases h
  · obtain ⟨_, _, h⟩ := Option.bind_eq_some_iff.mp h
    exact cstr_base64Encode h

/-- The string of a field, when the field is there at all. -/
def shownString (json : Object) (name : Bytes) : Option (Option Bytes) :=
  (getObjectItem json name).map Item.valuestring

section root

variable (m : Sealed) (sender recipient fp_hex timestamp : Bytes) (body_len : Nat)
  (sig_b64 pow : Bytes)

theorem shown_encKeySender :
    shownString (rootObj m sender recipient fp_hex timestamp body_len sig_b64 pow)
      (utf8 "enc_key_sender") = some (some (cstr m.encKeySender)) := by
  obtain ⟨_, encBody, encReplyTo, _, _⟩ := m
  cases encBody <;> cases encReplyTo <;> rfl

theorem shown_encKeyRecipient :
    shownString (rootObj m sender recipient fp_hex timestamp body_len sig_b64 pow)
      (utf8 "enc_key_recipient") = some (some (cstr m.encKeyRecipient)) := by
  obtain ⟨_, encBody, encReplyTo, _, _⟩ := m
  cases encBody <;> cases encReplyTo <;> rfl

theorem shown_encSubject :
    shownString (rootObj m sender recipient fp_hex timestamp body_len sig_b64 pow)
      (utf8 "enc_subject") = some (some (cstr (m.encSubject.getD []))) := by
  obtain ⟨_, encBody, encReplyTo, _, _⟩ := m
  cases encBody <;> cases encReplyTo <;> rfl

theorem shown_encBody :
    shownString (rootObj m sender recipient fp_hex timestamp body_len sig_b64 pow)
      (utf8 "enc_body") = m.encBody.map fun b => some (cstr b) := by
  obtain ⟨_, encBody, encReplyTo, _, _⟩ := m
  cases encBody <;> cases encReplyTo <;> rfl

theorem shown_encReplyTo :
    shownString (rootObj m sender recipient fp_hex timestamp body_len sig_b64 pow)
      (utf8 "enc_reply_to") = m.encReplyTo.map fun r => some (cstr r) := by
  obtain ⟨_, encBody, encReplyTo, _, _⟩ := m
  cases encBody <;> cases encReplyTo <;> rfl

end root

/-! ## What is sealed -/

/-- What a sealed mail `m` is made of. -/
structure Sealing (draws : Draws) (recipPk myKpk : Bytes) (replyRef : Option Bytes)
    (subject body : Bytes) (m : Sealed) : Prop where
  subject : m.encSubject = encryptToB64 aead draws.symKey draws.nonceSubject subject
  body : m.encBody = encryptToB64 aead draws.symKey draws.nonceBody body
  reply : m.encReplyTo = replyRef.bind (encryptToB64 aead draws.symKey draws.nonceReply)
  replies : replyRef.isSome → m.encReplyTo.isSome
  recipient : kemEncapsulateKey kem draws.coinsRecipient recipPk draws.symKey =
    some m.encKeyRecipient
  sender : kemEncapsulateKey kem draws.coinsSender myKpk draws.symKey = some m.encKeySender

theorem sealing {draws : Draws} {recipPk myKpk subject body : Bytes} {replyRef : Option Bytes}
    {m : Sealed} (h : sealMail kem aead draws recipPk myKpk replyRef subject body = some m) :
    Sealing kem aead draws recipPk myKpk replyRef subject body m := by
  obtain ⟨encKeyRecipient, recipient, h⟩ := Option.bind_eq_some_iff.mp h
  obtain ⟨encKeySender, sender, h⟩ := Option.bind_eq_some_iff.mp h
  split at h
  · cases h
  · rename_i replies
    cases h
    refine ⟨rfl, rfl, rfl, fun some => ?_, recipient, sender⟩
    by_contra none
    exact replies ⟨some, by simpa using none⟩

/-- A mail is built of a sealed one, and only with a reference that is one. -/
theorem built_eq {draws : Draws} {recipPk myKpk subject body sender recipient fp_hex timestamp
    sig_b64 pow : Bytes} {replyRef : Option Bytes} {root : Object}
    (h : buildMail kem aead draws recipPk myKpk replyRef subject body sender recipient fp_hex
      timestamp sig_b64 pow = some root) :
    (∀ r, replyRef = some r → isRef r = true) ∧ ∃ m,
      Sealing kem aead draws recipPk myKpk replyRef subject body m ∧
      root = rootObj m sender recipient fp_hex timestamp body.length sig_b64 pow := by
  unfold buildMail at h
  split at h
  · cases h
  · rename_i ok
    obtain ⟨m, made, h⟩ := Option.bind_eq_some_iff.mp h
    refine ⟨fun r some => ?_, m, sealing kem aead made, (Option.some.inj h).symm⟩
    subst some
    simpa using ok

/-! ## Opening -/

/-- `json` shows these fields as `root` has them, and has the other fields that a reader needs. The
names in it are `snd` and `rcp`, which the server may have written otherwise. -/
structure Shows (fields : List Bytes) (json root : Object) (snd rcp : Bytes) : Prop where
  same : ∀ name ∈ fields, shownString json name = shownString root name
  sender : getString json (utf8 "sender") = some snd
  recipient : getString json (utf8 "recipient") = some rcp
  timestamp : (getObjectItem json (utf8 "timestamp")).isSome
  size : (getObjectItem json (utf8 "size")).isSome

/-- The sealed fields of an answer to `GET /api/mail/{id}`. -/
def fullFields : List Bytes :=
  [utf8 "enc_key_sender", utf8 "enc_key_recipient", utf8 "enc_subject", utf8 "enc_body",
    utf8 "enc_reply_to"]

/-- Those of an item of a list. -/
def listFields : List Bytes :=
  [utf8 "enc_key_sender", utf8 "enc_key_recipient", utf8 "enc_subject"]

/-- The user is a party of the mail, and holds that party's key. -/
structure Reader (recipPk myKpk username snd rcp ksk : Bytes) : Prop where
  party : username = snd ∨ username = rcp
  sends : username = snd → kem.Matches myKpk ksk
  receives : username = rcp → kem.Matches recipPk ksk

theorem getObjectItem_of_shown {json : Object} {name s : Bytes}
    (h : shownString json name = some (some s)) :
    ∃ item, getObjectItem json name = some item ∧ item.valuestring = some s := by
  obtain ⟨item, here, value⟩ := Option.map_eq_some_iff.mp h
  exact ⟨item, here, value⟩

theorem getString_eq (json : Object) (name : Bytes) :
    getString json name = (shownString json name).join := by
  unfold getString shownString
  cases getObjectItem json name <;> rfl

/-- A text comes back exactly if it was encrypted as a whole. -/
theorem decryptFromB64_iff (key : Bytes) {nonce pt : Bytes} (drawn : nonce.length = 12)
    (text : pt ≠ []) (nul : NulFree pt) :
    decryptFromB64 aead key ((encryptToB64 aead key nonce pt).getD []) = some pt ↔
      pt.length ≤ maxText := by
  constructor
  · intro opened
    by_contra large
    cases encrypted : encryptToB64 aead key nonce pt with
    | none =>
      rw [encrypted, Option.getD_none] at opened
      unfold decryptFromB64 at opened
      rw [if_pos rfl] at opened
      cases opened
    | some b64 =>
      rw [encrypted, Option.getD_some] at opened
      have cut := decryptFromB64_cut aead drawn (by omega) encrypted opened
      exact absurd cut (lt_irrefl _)
  · intro small
    obtain ⟨b64, encrypted, opened⟩ := decryptFromB64_encrypted aead key drawn text small
    rw [encrypted, Option.getD_some, opened, cstr_of_nulFree nul]

/-- A reference is no longer than 64 characters, and none of them is NUL. -/
theorem isRef_spec {r : Bytes} (h : isRef r = true) : r.length = 64 ∧ NulFree r := by
  unfold isRef at h
  simp only [Bool.and_eq_true, beq_iff_eq, List.all_eq_true] at h
  exact ⟨h.1, fun nul => absurd (h.2 0 nul) (by decide)⟩

section shown

variable {kem aead} {draws : Draws} {recipPk myKpk subject body : Bytes} {replyRef : Option Bytes}
  {m : Sealed} {fields : List Bytes} {json : Object} {snd rcp : Bytes}
  {sender recipient fp_hex timestamp sig_b64 pow : Bytes}

/-- Either wrapped key opens with the secret key of its holder. -/
theorem key_shown (made : Sealing kem aead draws recipPk myKpk replyRef subject body m)
    (shows : Shows fields json
      (rootObj m sender recipient fp_hex timestamp body.length sig_b64 pow) snd rcp)
    (mine : Bool) (there : keyField mine ∈ fields) {ksk : Bytes}
    (pair : kem.Matches (if mine then myKpk else recipPk) ksk) :
    ∃ item, getObjectItem json (keyField mine) = some item ∧
      openKey kem (some ksk) item.valuestring = some (some draws.symKey) := by
  have same := shows.same _ there
  cases mine with
  | true =>
    rw [show keyField true = utf8 "enc_key_sender" from rfl, shown_encKeySender,
      cstr_kemEncapsulateKey kem made.sender] at same
    obtain ⟨item, here, value⟩ := getObjectItem_of_shown same
    refine ⟨item, here, ?_⟩
    rw [value]
    exact congrArg some (kemDecapsulateKey_encapsulated kem pair draws.length_symKey made.sender)
  | false =>
    rw [show keyField false = utf8 "enc_key_recipient" from rfl, shown_encKeyRecipient,
      cstr_kemEncapsulateKey kem made.recipient] at same
    obtain ⟨item, here, value⟩ := getObjectItem_of_shown same
    refine ⟨item, here, ?_⟩
    rw [value]
    exact congrArg some
      (kemDecapsulateKey_encapsulated kem pair draws.length_symKey made.recipient)

theorem subject_shown (made : Sealing kem aead draws recipPk myKpk replyRef subject body m)
    (shows : Shows fields json
      (rootObj m sender recipient fp_hex timestamp body.length sig_b64 pow) snd rcp)
    (there : utf8 "enc_subject" ∈ fields) :
    ∃ item, getObjectItem json (utf8 "enc_subject") = some item ∧
      item.valuestring =
        some ((encryptToB64 aead draws.symKey draws.nonceSubject subject).getD []) := by
  have same := shows.same _ there
  rw [shown_encSubject, made.subject] at same
  obtain ⟨item, here, value⟩ := getObjectItem_of_shown same
  refine ⟨item, here, value.trans ?_⟩
  cases encrypted : encryptToB64 aead draws.symKey draws.nonceSubject subject with
  | none => rfl
  | some b64 =>
    rw [Option.getD_some, cstr_encryptToB64 aead encrypted]

/-- The reference of a reply is opened, and there is none without one. -/
theorem reply_shown (made : Sealing kem aead draws recipPk myKpk replyRef subject body m)
    (ok : ∀ r, replyRef = some r → isRef r = true)
    (shows : Shows fields json
      (rootObj m sender recipient fp_hex timestamp body.length sig_b64 pow) snd rcp)
    (there : utf8 "enc_reply_to" ∈ fields) :
    openReplyRef aead draws.symKey json = replyRef := by
  have same := shows.same _ there
  rw [shown_encReplyTo, made.reply] at same
  have value := getString_eq json (utf8 "enc_reply_to")
  rw [same] at value
  unfold openReplyRef
  rw [value]
  cases replyRef with
  | none => rfl
  | some r =>
    obtain ⟨length, nul⟩ := isRef_spec (ok r rfl)
    have text : r ≠ [] := by
      rintro rfl
      cases length
    obtain ⟨b64, encrypted, opened⟩ := decryptFromB64_encrypted aead draws.symKey
      draws.length_nonceReply text (by rw [length]; decide)
    rw [Option.bind_some, encrypted, Option.map_some, Option.join_some,
      cstr_encryptToB64 aead encrypted]
    simp only [Option.bind_eq_bind, Option.bind_some, opened, cstr_of_nulFree nul, ok r rfl,
      if_true]

/-- The reader's key is the one behind the field that is chosen by the names. -/
theorem Reader.pair {username ksk : Bytes} (reader : Reader kem recipPk myKpk username snd rcp ksk) :
    kem.Matches (if username == snd then myKpk else recipPk) ksk := by
  by_cases mine : username = snd
  · rw [if_pos (beq_iff_eq.mpr mine)]
    exact reader.sends mine
  · rw [if_neg (by simpa using mine)]
    exact reader.receives (reader.party.resolve_left mine)

theorem openJson_shown (made : Sealing kem aead draws recipPk myKpk replyRef subject body m)
    (ok : ∀ r, replyRef = some r → isRef r = true)
    (shows : Shows fullFields json
      (rootObj m sender recipient fp_hex timestamp body.length sig_b64 pow) snd rcp)
    {username ksk : Bytes} (reader : Reader kem recipPk myKpk username snd rcp ksk) :
    ∃ ts, openJson kem aead username (some ksk) json =
      some ⟨snd, rcp, ts, some draws.symKey, decryptFromB64 aead draws.symKey
        ((encryptToB64 aead draws.symKey draws.nonceSubject subject).getD []), replyRef⟩ := by
  have there : keyField (username == snd) ∈ fullFields := by
    cases username == snd <;> decide
  obtain ⟨ts, hts⟩ := Option.isSome_iff_exists.mp shows.timestamp
  obtain ⟨encKey, hkey, sym⟩ := key_shown made shows (username == snd) there reader.pair
  obtain ⟨encSub, hsub, text⟩ := subject_shown made shows (by decide)
  have reply := reply_shown made ok shows (by decide)
  refine ⟨ts.valueint, ?_⟩
  unfold openJson
  simp only [shows.sender, shows.recipient, hts, hkey, sym, hsub, text, reply, openText,
    Option.bind_eq_bind, Option.bind_some]

end shown

/-! ## Every reader -/

/-- What each reader makes of the mail: `full` is the answer with the body, which is also what a
saved copy holds, and `entry` is its item in a list. -/
structure ReadBack (username ksk mailId : Bytes) (full entry : Object)
    (snd rcp : Bytes) (replyRef : Option Bytes) (subject body : Bytes) : Prop where
  fetch : ∃ d, shyakeFetch kem aead username (some ksk) mailId full = some d ∧
    d.subject = some subject ∧ d.body = some body ∧ d.replyRef = replyRef
  checkOne : ∃ d, shyakeCheckOne kem aead username (some ksk) mailId full = some d ∧
    d.subject = some subject ∧ d.replyRef = replyRef
  listed : ∀ isSent, username = (if isSent then snd else rcp) →
    ∃ e, mailEntry kem aead isSent (some ksk) entry = some e ∧ e.subject = subject
  readSaved : ∃ d, shyakeReadSaved kem aead username (some ksk) mailId full = some d ∧
    d.subject = some subject ∧ d.body = some body ∧ d.replyRef = replyRef
  checkSaved : ∃ d, shyakeCheckSavedOne kem aead username (some ksk) mailId full = some d ∧
    d.subject = some subject ∧ d.replyRef = replyRef
  listSaved : ∃ e, savedEntry kem aead username (some ksk) mailId full = some e ∧
    e.subject = subject

section readers

variable {kem aead} {draws : Draws} {recipPk myKpk subject body : Bytes} {replyRef : Option Bytes}
  {m : Sealed} {full entry : Object} {snd rcp : Bytes}
  {sender recipient fp_hex timestamp sig_b64 pow : Bytes} {username ksk : Bytes}

/-- A body that was encrypted at all is there, and one that was not is not. -/
theorem body_shown (made : Sealing kem aead draws recipPk myKpk replyRef subject body m)
    (shows : Shows fullFields full
      (rootObj m sender recipient fp_hex timestamp body.length sig_b64 pow) snd rcp) :
    shownString full (utf8 "enc_body") =
      (encryptToB64 aead draws.symKey draws.nonceBody body).map some := by
  rw [shows.same _ (by decide), shown_encBody, made.body]
  cases encrypted : encryptToB64 aead draws.symKey draws.nonceBody body with
  | none => rfl
  | some b64 => rw [Option.map_some, Option.map_some, cstr_encryptToB64 aead encrypted]

/-- A fetched mail has its subject and body only if both were encrypted as a whole. -/
theorem small_of_fetch (made : Sealing kem aead draws recipPk myKpk replyRef subject body m)
    (ok : ∀ r, replyRef = some r → isRef r = true)
    (shows : Shows fullFields full
      (rootObj m sender recipient fp_hex timestamp body.length sig_b64 pow) snd rcp)
    (reader : Reader kem recipPk myKpk username snd rcp ksk)
    (hs : subject ≠ []) (hb : body ≠ []) (ns : NulFree subject) (nb : NulFree body)
    {mailId : Bytes} {d : MailDetail}
    (fetched : shyakeFetch kem aead username (some ksk) mailId full = some d)
    (hsubject : d.subject = some subject) (hbody : d.body = some body) :
    subject.length ≤ maxText ∧ body.length ≤ maxText := by
  obtain ⟨ts, opened⟩ := openJson_shown made ok shows reader
  have there := body_shown made shows
  unfold shyakeFetch at fetched
  rw [opened, Option.bind_eq_bind, Option.bind_some] at fetched
  obtain ⟨encBdy, here, fetched⟩ := Option.bind_eq_some_iff.mp fetched
  cases fetched
  refine ⟨(decryptFromB64_iff aead _ draws.length_nonceSubject hs ns).mp hsubject, ?_⟩
  unfold shownString at there
  rw [here, Option.map_some] at there
  obtain ⟨b64, encrypted, value⟩ := Option.map_eq_some_iff.mp there.symm
  simp only [← value, openText, Option.bind_eq_bind, Option.bind_some] at hbody
  refine (decryptFromB64_iff aead draws.symKey draws.length_nonceBody hb nb).mp ?_
  rw [encrypted, Option.getD_some]
  exact hbody

theorem readBack_of_small (made : Sealing kem aead draws recipPk myKpk replyRef subject body m)
    (ok : ∀ r, replyRef = some r → isRef r = true)
    (shows : Shows fullFields full
      (rootObj m sender recipient fp_hex timestamp body.length sig_b64 pow) snd rcp)
    (lists : Shows listFields entry
      (rootObj m sender recipient fp_hex timestamp body.length sig_b64 pow) snd rcp)
    (numbered : (getString entry (utf8 "mail_id")).isSome)
    (reader : Reader kem recipPk myKpk username snd rcp ksk)
    (hs : subject ≠ []) (hb : body ≠ []) (ns : NulFree subject) (nb : NulFree body)
    (small : subject.length ≤ maxText ∧ body.length ≤ maxText) (mailId : Bytes) :
    ReadBack kem aead username ksk mailId full entry snd rcp replyRef subject body := by
  obtain ⟨ts, opened⟩ := openJson_shown made ok shows reader
  rw [(decryptFromB64_iff aead _ draws.length_nonceSubject hs ns).mpr small.1] at opened
  obtain ⟨sz, hsz⟩ := Option.isSome_iff_exists.mp shows.size
  obtain ⟨b64, encrypted, decrypted⟩ := decryptFromB64_encrypted aead draws.symKey
    draws.length_nonceBody hb small.2
  rw [cstr_of_nulFree nb] at decrypted
  have there := body_shown made shows
  rw [encrypted, Option.map_some] at there
  obtain ⟨encBdy, here, value⟩ := getObjectItem_of_shown there
  have bdy : openText aead (some draws.symKey) encBdy.valuestring = some body := by
    rw [value]
    exact decrypted
  constructor
  case fetch =>
    unfold shyakeFetch
    rw [opened, Option.bind_eq_bind, Option.bind_some, here]
    exact ⟨_, rfl, rfl, bdy, rfl⟩
  case checkOne =>
    unfold shyakeCheckOne
    rw [opened, Option.bind_eq_bind, Option.bind_some, hsz]
    exact ⟨_, rfl, rfl, rfl⟩
  case listed =>
    intro isSent box
    have pair : kem.Matches (if isSent then myKpk else recipPk) ksk := by
      cases isSent with
      | true => exact reader.sends box
      | false => exact reader.receives box
    have field : keyField isSent ∈ listFields := by
      cases isSent <;> decide
    obtain ⟨id, hid⟩ := Option.isSome_iff_exists.mp numbered
    obtain ⟨party, hparty⟩ : ∃ party,
        getString entry (if isSent then utf8 "recipient" else utf8 "sender") = some party := by
      cases isSent with
      | true => exact ⟨rcp, lists.recipient⟩
      | false => exact ⟨snd, lists.sender⟩
    obtain ⟨size, hsize⟩ := Option.isSome_iff_exists.mp lists.size
    obtain ⟨time, htime⟩ := Option.isSome_iff_exists.mp lists.timestamp
    obtain ⟨encKey, hkey, sym⟩ := key_shown made lists isSent field pair
    obtain ⟨encSub, hsub, text⟩ := subject_shown made lists (by decide)
    have sub : openText aead (some draws.symKey) encSub.valuestring = some subject := by
      rw [text]
      exact (decryptFromB64_iff aead _ draws.length_nonceSubject hs ns).mpr small.1
    unfold mailEntry
    simp only [hid, hparty, hsize, htime, hkey, hsub, sym, sub, Option.bind_eq_bind,
      Option.bind_some, Option.getD_some]
    exact ⟨_, rfl, rfl⟩
  case readSaved =>
    unfold shyakeReadSaved parseSavedJson
    rw [opened, Option.bind_eq_bind, Option.bind_some, hsz, here]
    exact ⟨_, rfl, rfl, bdy, rfl⟩
  case checkSaved =>
    unfold shyakeCheckSavedOne parseSavedJson
    rw [opened, Option.bind_eq_bind, Option.bind_some, hsz, here]
    exact ⟨_, rfl, rfl, rfl⟩
  case listSaved =>
    unfold savedEntry
    rw [opened, Option.bind_eq_bind, Option.bind_some, hsz]
    exact ⟨_, rfl, rfl⟩

end readers

/-- The mail that `send_mail` builds is read back by both parties, in every reader and with the
subject, the body and the reference that were sent, if and only if both texts were short enough to
be encrypted as a whole. -/
theorem mail_round_trip {draws : Draws} {recipPk myKpk subject body sender recipient fp_hex
    timestamp sig_b64 pow : Bytes} {replyRef : Option Bytes} {root : Object}
    (built : buildMail kem aead draws recipPk myKpk replyRef subject body sender recipient fp_hex
      timestamp sig_b64 pow = some root)
    (hs : subject ≠ []) (hb : body ≠ []) (ns : NulFree subject) (nb : NulFree body)
    {full entry : Object} {snd rcp : Bytes} (shows : Shows fullFields full root snd rcp)
    (lists : Shows listFields entry root snd rcp)
    (numbered : (getString entry (utf8 "mail_id")).isSome)
    {username ksk : Bytes} (reader : Reader kem recipPk myKpk username snd rcp ksk)
    (mailId : Bytes) :
    ReadBack kem aead username ksk mailId full entry snd rcp replyRef subject body ↔
      subject.length ≤ maxText ∧ body.length ≤ maxText := by
  obtain ⟨ok, m, made, rfl⟩ := built_eq kem aead built
  constructor
  · intro back
    obtain ⟨d, fetched, hsubject, hbody, -⟩ := back.fetch
    exact small_of_fetch made ok shows reader hs hb ns nb fetched hsubject hbody
  · intro small
    exact readBack_of_small made ok shows lists numbered reader hs hb ns nb small mailId

/-- A mail is built whatever its texts are, with KEM keys of the right length. -/
theorem sealMail_isSome (draws : Draws) {recipPk myKpk : Bytes}
    (hr : recipPk.length = lengthPublicKey) (hm : myKpk.length = lengthPublicKey)
    (drawnRecipient : (kem.encaps draws.coinsRecipient recipPk).isSome)
    (drawnSender : (kem.encaps draws.coinsSender myKpk).isSome) (subject body : Bytes) :
    (sealMail kem aead draws recipPk myKpk none subject body).isSome := by
  obtain ⟨r, recipient⟩ := Option.isSome_iff_exists.mp
    (kemEncapsulateKey_isSome kem hr draws.length_symKey drawnRecipient)
  obtain ⟨s, sender⟩ := Option.isSome_iff_exists.mp
    (kemEncapsulateKey_isSome kem hm draws.length_symKey drawnSender)
  unfold sealMail
  rw [recipient, sender]
  rfl

/-! ## Alice writes to bobby -/

namespace Sample

/-- Two KEM keys; the secret key of a pair is taken to be as the public one. -/
def keyOf (c : UInt8) : Bytes := List.replicate lengthPublicKey c

def draws : Draws where
  symKey := List.replicate 32 7
  nonceSubject := List.replicate 12 1
  nonceBody := List.replicate 12 2
  nonceReply := List.replicate 12 3
  coinsRecipient := List.replicate 32 4
  coinsSender := List.replicate 32 5
  length_symKey := rfl
  length_nonceSubject := rfl
  length_nonceBody := rfl
  length_nonceReply := rfl

def subject : Bytes := utf8 "hi"

def sealedMail (body : Bytes) : Option Sealed :=
  sealMail xorKem tagAead draws (keyOf 66) (keyOf 65) none subject body

theorem sealedMail_isSome (body : Bytes) : (sealedMail body).isSome :=
  sealMail_isSome xorKem tagAead draws List.length_replicate List.length_replicate rfl rfl
    subject body

def mail (body : Bytes) : Sealed := (sealedMail body).get (sealedMail_isSome body)

def posted (body : Bytes) : Object :=
  rootObj (mail body) (utf8 "alice") (utf8 "bobby") (utf8 "f1") (utf8 "1749513600") body.length
    (utf8 "c2ln") (utf8 "1:20:250610:alice::one:6e7368")

/-- What the server answers: with the body, or as an item of a list. -/
def answer (m : Sealed) (full : Bool) : Object :=
  let o := createObject
  let o := addStringToObject o (utf8 "mail_id") (utf8 "m1")
  let o := addStringToObject o (utf8 "sender") (utf8 "alice")
  let o := addStringToObject o (utf8 "recipient") (utf8 "bobby")
  let o := addStringToObject o (utf8 "enc_key_sender") m.encKeySender
  let o := addStringToObject o (utf8 "enc_key_recipient") m.encKeyRecipient
  let o := addStringToObject o (utf8 "enc_subject") (m.encSubject.getD [])
  let o := if full then addStringOrNull o (utf8 "enc_body") m.encBody else o
  let o := addNumberToObject o (utf8 "size") 5
  addNumberToObject o (utf8 "timestamp") 1749513600

theorem built_posted (body : Bytes) :
    buildMail xorKem tagAead draws (keyOf 66) (keyOf 65) none subject body (utf8 "alice")
      (utf8 "bobby") (utf8 "f1") (utf8 "1749513600") (utf8 "c2ln")
      (utf8 "1:20:250610:alice::one:6e7368") = some (posted body) := by
  have made : sealMail xorKem tagAead draws (keyOf 66) (keyOf 65) none subject body =
      some (mail body) := (Option.some_get (sealedMail_isSome body)).symm
  unfold buildMail
  rw [made]
  rfl

theorem reply_none (body : Bytes) : (mail body).encReplyTo = none :=
  (sealing xorKem tagAead (Option.some_get (sealedMail_isSome body)).symm).reply

/-- The answer shows what was posted. -/
theorem answer_shows (body : Bytes) : Shows fullFields (answer (mail body) true) (posted body)
    (utf8 "alice") (utf8 "bobby") := by
  have reply := reply_none body
  unfold posted
  generalize mail body = m at reply
  obtain ⟨_, encBody, encReplyTo, _, _⟩ := m
  cases reply
  refine ⟨?_, by cases encBody <;> rfl, by cases encBody <;> rfl, by cases encBody <;> rfl,
    by cases encBody <;> rfl⟩
  intro name mem
  simp only [fullFields, List.mem_cons, List.not_mem_nil, or_false] at mem
  rcases mem with rfl | rfl | rfl | rfl | rfl <;> cases encBody <;> rfl

theorem item_shows (body : Bytes) : Shows listFields (answer (mail body) false) (posted body)
    (utf8 "alice") (utf8 "bobby") := by
  have reply := reply_none body
  unfold posted
  generalize mail body = m at reply
  obtain ⟨_, encBody, encReplyTo, _, _⟩ := m
  cases reply
  refine ⟨?_, rfl, rfl, rfl, rfl⟩
  intro name mem
  simp only [listFields, List.mem_cons, List.not_mem_nil, or_false] at mem
  rcases mem with rfl | rfl | rfl <;> cases encBody <;> rfl

theorem bobby_reads : Reader xorKem (keyOf 66) (keyOf 65) (utf8 "bobby") (utf8 "alice")
    (utf8 "bobby") (keyOf 66) where
  party := .inr rfl
  sends same := absurd same (by decide)
  receives _ := rfl

/-- Bobby reads a short mail. -/
theorem mail_round_trip_short :
    ReadBack xorKem tagAead (utf8 "bobby") (keyOf 66) (utf8 "m1")
        (answer (mail (utf8 "hello")) true) (answer (mail (utf8 "hello")) false) (utf8 "alice")
        (utf8 "bobby") none subject (utf8 "hello") :=
  (mail_round_trip xorKem tagAead (built_posted (utf8 "hello")) (by decide) (by decide) (by decide)
    (by decide) (answer_shows _) (item_shows _) rfl bobby_reads (utf8 "m1")).mpr
    ⟨by decide, by decide⟩

/-- One byte more than is encrypted as a whole. -/
def longBody : Bytes := List.replicate (maxText + 1) 97

theorem nulFree_longBody : NulFree longBody := by
  intro nul
  have same := List.eq_of_mem_replicate nul
  cases same

theorem longBody_ne_nil : longBody ≠ [] := by
  intro none
  have length : longBody.length = maxText + 1 := List.length_replicate
  rw [none] at length
  cases length

/-- Bobby does not read a body of 1610612706 bytes: the mail that is posted has none. -/
theorem long_body_lost :
    buildMail xorKem tagAead draws (keyOf 66) (keyOf 65) none subject longBody (utf8 "alice")
        (utf8 "bobby") (utf8 "f1") (utf8 "1749513600") (utf8 "c2ln")
        (utf8 "1:20:250610:alice::one:6e7368") = some (posted longBody) ∧
      subject ≠ [] ∧ longBody ≠ [] ∧ NulFree subject ∧ NulFree longBody ∧
      Shows fullFields (answer (mail longBody) true) (posted longBody) (utf8 "alice")
        (utf8 "bobby") ∧
      Shows listFields (answer (mail longBody) false) (posted longBody) (utf8 "alice")
        (utf8 "bobby") ∧
      Reader xorKem (keyOf 66) (keyOf 65) (utf8 "bobby") (utf8 "alice") (utf8 "bobby")
        (keyOf 66) ∧
      ¬ ∃ d, shyakeFetch xorKem tagAead (utf8 "bobby") (some (keyOf 66)) (utf8 "m1")
          (answer (mail longBody) true) = some d ∧
        d.subject = some subject ∧ d.body = some longBody := by
  refine ⟨built_posted longBody, by decide, longBody_ne_nil, by decide, nulFree_longBody,
    answer_shows longBody, item_shows longBody, bobby_reads, ?_⟩
  rintro ⟨d, fetched, hsubject, hbody⟩
  obtain ⟨ok, m, made, same⟩ := built_eq xorKem tagAead (built_posted longBody)
  have shows := answer_shows longBody
  rw [same] at shows
  have small := small_of_fetch made ok shows bobby_reads (by decide) longBody_ne_nil (by decide)
    nulFree_longBody fetched hsubject hbody
  have length : longBody.length = maxText + 1 := List.length_replicate
  omega

end Sample

end Shyake.Client
