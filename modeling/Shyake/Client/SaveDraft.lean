import Shyake.Client.Drafts
import Shyake.Client.RoundTrip

/-!
# Saving over a draft

The file of a draft is cut to nothing before its new JSON is written. So the old draft is
kept only by a save that does not come that far, and the new one is there only if nothing
fails behind it.
-/

namespace Shyake.Client

open CJson (Object printUnformatted)

variable (kdf : Kdf) (keyAead : Bytes → Aead) (kem : Kem) (aead : Aead) (printG : Int → Bytes)
  (parser : JsonParser)

/-! ## All or nothing -/

/-- What is read of a draft is what was saved. -/
structure NewContent (recipient subject replyRef : Option CString) (body : Bytes) (d : Draft) :
    Prop where
  recipient : d.recipient = some ((recipient.map (·.1)).getD [])
  subject : d.subject = some ((subject.map (·.1)).getD [])
  body : d.body = some body
  replyRef : d.replyRef = replyRef.map (·.1)

/-- What a save over a draft has to do with it. -/
structure Saving where
  ctx : Ctx
  lastError : Bytes
  username : Bytes
  calls : DraftCalls
  recipient : Option CString
  subject : Option CString
  replyRef : Option CString
  body : Bytes
  draftId : Bytes
  files : Files

namespace Saving

variable (s : Saving)

def path : Bytes := draftPath s.ctx.configDir s.draftId

/-- What is returned, and the files then. -/
def save : Option SavedDraft × Files :=
  cliSaveDraft kem aead printG parser s.ctx s.calls s.recipient s.subject s.replyRef s.body
    (some s.draftId) s.files

/-- The draft, as it is read of these files. -/
def readOf (files : Files) : Except Bytes Draft :=
  cliReadDraft kdf keyAead kem aead parser s.ctx s.lastError s.username s.draftId files

/-- Either the new content is read afterwards, or the save ends in an error and the old is. -/
def AllOrNothing : Prop :=
  ∃ r, (s.save kem aead printG parser).1 = some r ∧
    if r.err = .OK then ∃ d, s.readOf kdf keyAead kem aead parser (s.save kem aead printG parser).2 = .ok d ∧
      NewContent s.recipient s.subject s.replyRef s.body d
    else s.readOf kdf keyAead kem aead parser (s.save kem aead printG parser).2 =
      s.readOf kdf keyAead kem aead parser s.files

/-- Nothing fails up to the `open`, which cuts the file to nothing. -/
structure Cuts (created : Int) (symKey : {b : Bytes // b.length = 32}) (encKey : Bytes)
    (sealed : SealedDraft) : Prop where
  body : s.body ≠ []
  dir : s.calls.dir = true
  created : draftCreated parser s.ctx.configDir s.files s.calls (some s.draftId) = some created
  key : shyakeSelfencBegin kem s.ctx s.files s.calls = some (symKey, encKey)
  fields : sealDraft aead s.calls symKey encKey s.recipient s.subject s.replyRef s.body = some sealed
  opened : (s.files s.path).isSome ∧ s.calls.opens = true

/-- The new JSON. -/
def root (created : Int) (sealed : SealedDraft) : Object :=
  draftObj (snprintf 32 s.draftId) created s.calls.now s.body.length sealed

/-- The texts are such as come back. -/
structure Readable : Prop where
  nul : NulFree s.body
  body : s.body.length ≤ maxText
  recipient : ∀ text ∈ s.recipient, text.1.length ≤ maxText
  subject : ∀ text ∈ s.subject, text.1.length ≤ maxText
  replyRef : ∀ text ∈ s.replyRef, text.1.length ≤ maxText

/-- Nothing fails behind the `open`, either. -/
structure Written (created : Int) (sealed : SealedDraft) : Prop where
  fdopen : s.calls.fdopen = true
  printed : ∃ text, printUnformatted printG (s.root created sealed) = some text ∧
    text.length ≤ s.calls.written
  readable : s.Readable

variable {s}

/-- What becomes of a save that cuts the file. -/
theorem save_of_cuts {created : Int} {symKey : {b : Bytes // b.length = 32}} {encKey : Bytes}
    {sealed : SealedDraft} (cuts : s.Cuts kem aead parser created symKey encKey sealed) :
    s.save kem aead printG parser =
      if s.calls.fdopen = false then (some ⟨.ERR, [], none⟩, Function.update s.files s.path (some []))
      else
        match printUnformatted printG (s.root created sealed) with
        | none => (none, Function.update s.files s.path (some []))
        | some payload => (some ⟨.OK, [], some (snprintf 32 s.draftId)⟩,
            Function.update s.files s.path (some (payload.take s.calls.written))) := by
  have opened : openDraft s.ctx.configDir s.files s.calls (some s.draftId) =
      some (snprintf 32 s.draftId, s.path) := if_pos cuts.opened
  unfold save cliSaveDraft
  rw [if_neg cuts.body, if_neg (by rw [cuts.dir]; decide), cuts.created]
  dsimp only
  rw [cuts.key]
  dsimp only
  rw [cuts.fields]
  dsimp only
  rw [opened]
  dsimp only
  split
  · rfl
  · unfold root
    cases printUnformatted printG (draftObj (snprintf 32 s.draftId) created s.calls.now s.body.length
      sealed) with
    | none => rfl
    | some payload =>
      dsimp only
      rw [Function.update_idem]

/-- Any other one leaves the files, and ends in an error. -/
theorem save_of_not_cuts (not : ∀ created symKey encKey sealed,
      ¬ s.Cuts kem aead parser created symKey encKey sealed) :
    ∃ r, s.save kem aead printG parser = (some r, s.files) ∧ r.err ≠ .OK := by
  unfold save cliSaveDraft
  by_cases body : s.body = []
  · rw [if_pos body]
    exact ⟨_, rfl, nofun⟩
  rw [if_neg body]
  by_cases dir : s.calls.dir = false
  · rw [if_pos dir]
    exact ⟨_, rfl, nofun⟩
  rw [if_neg dir]
  cases created : draftCreated parser s.ctx.configDir s.files s.calls (some s.draftId) with
  | none => exact ⟨_, rfl, nofun⟩
  | some created' =>
  dsimp only
  cases key : shyakeSelfencBegin kem s.ctx s.files s.calls with
  | none => exact ⟨_, rfl, nofun⟩
  | some keys =>
  obtain ⟨symKey, encKey⟩ := keys
  dsimp only
  cases fields : sealDraft aead s.calls symKey encKey s.recipient s.subject s.replyRef s.body with
  | none => exact ⟨_, rfl, nofun⟩
  | some sealed =>
  have closed : ¬ ((s.files s.path).isSome ∧ s.calls.opens = true) := fun opened =>
    not created' symKey encKey sealed ⟨body, by simpa using dir, created, key, fields, opened⟩
  have shut : openDraft s.ctx.configDir s.files s.calls (some s.draftId) = none := if_neg closed
  dsimp only
  rw [shut]
  exact ⟨_, rfl, nofun⟩

/-! ## What is read of the files that a save leaves -/

/-- A draft is no key file: the names differ, or where they are cut off, the lengths. -/
theorem path_ne_key : s.ctx.path (utf8 "kem_sk.bin") ≠ s.path := by
  intro same
  have lengthName : (47 :: utf8 "kem_sk.bin").length = 11 := by decide
  have lengthDrafts : (utf8 "/drafts/").length = 8 := by decide
  have lengthJson : (utf8 ".json").length = 5 := by decide
  unfold Ctx.path Saving.path draftPath snprintf at same
  by_cases short : s.ctx.configDir.length ≤ 509
  · have at_ := congrArg (·[s.ctx.configDir.length + 1]?) same
    rw [List.getElem?_take_of_lt (by omega), List.getElem?_take_of_lt (by omega),
      List.getElem?_append_right (by omega), List.append_assoc, List.append_assoc,
      List.getElem?_append_right (by omega), Nat.add_sub_cancel_left,
      List.getElem?_append_left (by omega)] at at_
    exact absurd at_ (by decide)
  · have lengths := congrArg List.length same
    simp only [List.length_take, List.length_append, lengthName, lengthDrafts, lengthJson] at lengths
    omega

/-- The secret key is where it was. -/
theorem loadKsk_update (content : Option Bytes) :
    Calls.loadKsk kdf keyAead s.ctx (Function.update s.files s.path content) =
      Calls.loadKsk kdf keyAead s.ctx s.files := by
  unfold Calls.loadKsk loadSkDecrypted
  rw [Function.update_of_ne path_ne_key]

/-- A draft that is read has been read with a secret key. -/
theorem loadKsk_of_read {old : Draft}
    (readable : s.readOf kdf keyAead kem aead parser s.files = .ok old) :
    ∃ ksk, Calls.loadKsk kdf keyAead s.ctx s.files = .ok ksk := by
  unfold readOf cliReadDraft parseDraftJson at readable
  split at readable
  · cases readable
  split at readable
  · cases readable
  split at readable
  · split at readable
    · cases readable
    · rename_i ksk loaded
      exact ⟨ksk, loaded⟩
  · cases readable

/-- What is no JSON is no draft. -/
theorem readOf_corrupt {content : Bytes} (corrupt : parser.parse content = none) (d : Draft) :
    s.readOf kdf keyAead kem aead parser (Function.update s.files s.path (some content)) ≠ .ok d := by
  intro read
  unfold readOf cliReadDraft parseDraftJson at read
  rw [show draftPath s.ctx.configDir s.draftId = s.path from rfl, Function.update_self] at read
  dsimp only at read
  rw [corrupt] at read
  cases read

/-- A part of the new JSON is read as nothing. -/
theorem readOf_part {created : Int} {sealed : SealedDraft} {text : Bytes}
    (parses : ParsesBack parser printG (s.root created sealed))
    (printed : printUnformatted printG (s.root created sealed) = some text) {n : Nat}
    (part : n < text.length) (d : Draft) :
    s.readOf kdf keyAead kem aead parser (Function.update s.files s.path (some (text.take n))) ≠
      .ok d :=
  readOf_corrupt kdf keyAead kem aead parser (parses.part text printed n part) d

end Saving

/-! ## The fields of the new JSON -/

section

variable {id : Bytes} {created now : Int} {body_len : Nat} {sealed : SealedDraft}

theorem draft_encKey : (Json.ofObject (draftObj id created now body_len sealed)).getString
    (utf8 "enc_key") = some (cstr (cstr sealed.encKey)) := by
  obtain ⟨_, _, _, _, encReplyTo⟩ := sealed
  cases encReplyTo <;> rfl

theorem draft_encRecipient : (Json.ofObject (draftObj id created now body_len sealed)).getString
    (utf8 "enc_recipient") = some (cstr (cstr (sealed.encRecipient.getD []))) := by
  obtain ⟨_, _, _, _, encReplyTo⟩ := sealed
  cases encReplyTo <;> rfl

theorem draft_encSubject : (Json.ofObject (draftObj id created now body_len sealed)).getString
    (utf8 "enc_subject") = some (cstr (cstr (sealed.encSubject.getD []))) := by
  obtain ⟨_, _, _, _, encReplyTo⟩ := sealed
  cases encReplyTo <;> rfl

theorem draft_encBody : (Json.ofObject (draftObj id created now body_len sealed)).getString
    (utf8 "enc_body") = some (cstr (cstr sealed.encBody)) := by
  obtain ⟨_, _, _, _, encReplyTo⟩ := sealed
  cases encReplyTo <;> rfl

theorem draft_encReplyTo : (Json.ofObject (draftObj id created now body_len sealed)).getString
    (utf8 "enc_reply_to") = sealed.encReplyTo.map fun r => cstr (cstr r) := by
  obtain ⟨_, _, _, _, encReplyTo⟩ := sealed
  cases encReplyTo <;> rfl

end

/-- What `shyake_selfenc_begin` gives is wrapped for the public key that is there. -/
theorem shyakeSelfencBegin_iff {kem : Kem} {ctx : Ctx} {files : Files} {calls : DraftCalls}
    {symKey : {b : Bytes // b.length = 32}} {encKey : Bytes} :
    shyakeSelfencBegin kem ctx files calls = some (symKey, encKey) ↔
      ∃ kpk coins, files (ctx.path (utf8 "kem_pk.bin")) = some kpk ∧ calls.symKey = some symKey ∧
        calls.coins = some coins ∧ kemEncapsulateKey kem coins kpk symKey = some encKey := by
  unfold shyakeSelfencBegin
  constructor
  · intro h
    obtain ⟨kpk, here, h⟩ := Option.bind_eq_some_iff.mp h
    obtain ⟨symKey', drawn, h⟩ := Option.bind_eq_some_iff.mp h
    obtain ⟨coins, drawn', h⟩ := Option.bind_eq_some_iff.mp h
    obtain ⟨encKey', wrapped, h⟩ := Option.bind_eq_some_iff.mp h
    cases h
    exact ⟨kpk, coins, here, drawn, drawn', wrapped⟩
  · rintro ⟨kpk, coins, here, drawn, drawn', wrapped⟩
    simp only [here, drawn, drawn', wrapped, Option.bind_eq_bind, Option.bind_some]

/-! ## Sealed texts -/

/-- How a text stands in a draft: sealed, or not at all when there is none. -/
def SealsText (symKey : Bytes) (text enc : Option Bytes) : Prop :=
  text.getD [] = [] ∧ enc = none ∨
    ∃ pt nonce b64, text = some pt ∧ pt ≠ [] ∧ nonce.length = 12 ∧
      encryptToB64 aead symKey nonce pt = some b64 ∧ enc = some b64

theorem shyakeSealB64_eq {symKey pt b64 : Bytes} {nonce : Random 12}
    (h : shyakeSealB64 aead symKey nonce pt = some b64) :
    ∃ n : Bytes, n.length = 12 ∧ pt ≠ [] ∧ encryptToB64 aead symKey n pt = some b64 := by
  obtain ⟨n, -, h⟩ := Option.bind_eq_some_iff.mp h
  refine ⟨n, n.2, ?_, h⟩
  rintro rfl
  cases h

/-- What is sealed of a draft. -/
structure SealedOf (symKey encKey : Bytes) (recipient subject replyRef : Option CString) (body : Bytes)
    (sealed : SealedDraft) : Prop where
  key : sealed.encKey = encKey
  sealsRecipient : SealsText aead symKey (recipient.map (·.1)) sealed.encRecipient
  sealsSubject : SealsText aead symKey (subject.map (·.1)) sealed.encSubject
  sealsBody : ∃ nonce, nonce.length = 12 ∧ body ≠ [] ∧
    encryptToB64 aead symKey nonce body = some sealed.encBody
  sealsReply : SealsText aead symKey (replyRef.map (·.1)) sealed.encReplyTo
  reply : replyRef.isSome → sealed.encReplyTo.isSome

/-- A text that is not left out, or is empty. -/
theorem sealsText_filled {symKey : Bytes} {nonce : Random 12} {text : Option CString}
    (there : ¬ ((text.filter (·.1 ≠ [])).isSome ∧
      ((text.filter (·.1 ≠ [])).bind fun s => shyakeSealB64 aead symKey nonce s.1).isNone)) :
    SealsText aead symKey (text.map (·.1))
      ((text.filter (·.1 ≠ [])).bind fun s => shyakeSealB64 aead symKey nonce s.1) := by
  cases text with
  | none => exact .inl ⟨rfl, rfl⟩
  | some t =>
    by_cases empty : t.1 = []
    · rw [Option.filter_some, if_neg (by simpa using empty)]
      exact .inl ⟨empty, rfl⟩
    · rw [Option.filter_some, if_pos (by simpa using empty)] at there ⊢
      cases encrypted : shyakeSealB64 aead symKey nonce t.1 with
      | none =>
        rw [Option.bind_some, encrypted] at there
        exact absurd ⟨rfl, rfl⟩ there
      | some b64 =>
        obtain ⟨n, length, text, here⟩ := shyakeSealB64_eq aead encrypted
        exact .inr ⟨t.1, n, b64, rfl, text, length, here, encrypted⟩

theorem sealedOf {calls : DraftCalls} {symKey encKey : Bytes}
    {recipient subject replyRef : Option CString} {body : Bytes} {sealed : SealedDraft}
    (h : sealDraft aead calls symKey encKey recipient subject replyRef body = some sealed) :
    SealedOf aead symKey encKey recipient subject replyRef body sealed := by
  unfold sealDraft at h
  cases encrypted : shyakeSealB64 aead symKey calls.nonceBody body with
  | none =>
    rw [encrypted] at h
    cases h
  | some encBdy =>
    rw [encrypted] at h
    dsimp only at h
    split at h
    · cases h
    rename_i there
    cases h
    rw [not_or, not_or] at there
    obtain ⟨n, length, text, here⟩ := shyakeSealB64_eq aead encrypted
    refine ⟨rfl, sealsText_filled aead there.1, sealsText_filled aead there.2.1, ⟨n, length, text, here⟩,
      ?_, fun some => ?_⟩
    · cases replyRef with
      | none => exact .inl ⟨rfl, rfl⟩
      | some r =>
        cases sealed : shyakeSealB64 aead symKey calls.nonceReply r.1 with
        | none =>
          rw [Option.bind_some, sealed] at there
          exact absurd ⟨rfl, rfl⟩ there.2.2
        | some b64 =>
          obtain ⟨n, length, text, here⟩ := shyakeSealB64_eq aead sealed
          exact .inr ⟨r.1, n, b64, rfl, text, length, here, sealed⟩
    · by_contra no
      exact there.2.2 ⟨some, by simpa using no⟩

section

variable {aead} {symKey : Bytes} {text enc : Option Bytes}

/-- What is sealed of a text is no JSON escape. -/
theorem SealsText.cstr (h : SealsText aead symKey text enc) :
    Client.cstr (Client.cstr (enc.getD [])) = enc.getD [] := by
  rcases h with ⟨-, rfl⟩ | ⟨pt, nonce, b64, -, -, -, encrypted, rfl⟩
  · rfl
  · rw [Option.getD_some, cstr_encryptToB64 aead encrypted, cstr_encryptToB64 aead encrypted]

/-- A text that is short enough comes back. -/
theorem SealsText.opened (h : SealsText aead symKey text enc) (nul : ∀ pt ∈ text, NulFree pt)
    (small : ∀ pt ∈ text, pt.length ≤ maxText) :
    decryptField aead symKey (some (enc.getD [])) = some (text.getD []) := by
  rcases h with ⟨empty, rfl⟩ | ⟨pt, nonce, b64, rfl, text, drawn, encrypted, rfl⟩
  · rw [empty]
    rfl
  · obtain ⟨b64', encrypted', opened⟩ :=
      decryptFromB64_encrypted aead symKey drawn text (small pt rfl)
    cases encrypted.symm.trans encrypted'
    have nonempty : b64 ≠ [] := by
      rintro rfl
      unfold decryptFromB64 at opened
      rw [if_pos rfl] at opened
      cases opened
    unfold decryptField
    rw [Option.getD_some, Option.filter_some, if_pos (by simpa using nonempty), Option.getD_some]
    dsimp only
    rw [opened, cstr_of_nulFree (nul pt rfl)]

/-- And only such a text does, under any key. -/
theorem SealsText.small (h : SealsText aead symKey text enc) {key : Bytes}
    (opened : decryptField aead key (some (enc.getD [])) = some (text.getD [])) :
    ∀ pt ∈ text, pt.length ≤ maxText := by
  rintro pt ⟨⟩
  rcases h with ⟨empty, -⟩ | ⟨pt', nonce, b64, ⟨⟩, text, drawn, encrypted, rfl⟩
  · rw [show pt = [] from empty]
    exact Nat.zero_le _
  · by_contra large
    unfold decryptField at opened
    rw [Option.getD_some, Option.getD_some, Option.filter_some] at opened
    split at opened
    · rename_i none
      exact text (Option.some.inj opened).symm
    · rename_i enc' some
      split at some
      · cases some
        have cut := decryptFromB64_cut aead drawn (by omega) encrypted opened
        exact absurd cut (lt_irrefl _)
      · cases some

end

/-! ## The draft that is read -/

/-- What is read of a draft under a symmetric key. -/
structure ReadAs (sym : Bytes) (sealed : SealedDraft) (d : Draft) : Prop where
  recipient : d.recipient = decryptField aead sym (some (sealed.encRecipient.getD []))
  subject : d.subject = decryptField aead sym (some (sealed.encSubject.getD []))
  body : d.body = decryptFromB64 aead sym sealed.encBody
  replyRef : d.replyRef = (sealed.encReplyTo.filter (· ≠ [])).bind (decryptFromB64 aead sym)

namespace Saving

variable {s : Saving} {created : Int} {symKey encKey ksk : Bytes} {sealed : SealedDraft} {text : Bytes}

/-- A new draft is read with the key that its secret key unwraps, if its body and its reference can
be. -/
theorem readOf_new
    (made : SealedOf aead symKey encKey s.recipient s.subject s.replyRef s.body sealed)
    (wrapped : Client.cstr encKey = encKey)
    (parses : parser.parse text = some (.ofObject (s.root created sealed)))
    (loaded : Calls.loadKsk kdf keyAead s.ctx s.files = .ok ksk) :
    (∀ d, s.readOf kdf keyAead kem aead parser (Function.update s.files s.path (some text)) = .ok d →
      ∃ sym, kemDecapsulateKey kem encKey ksk = some sym ∧ ReadAs aead sym sealed d) ∧
    ∀ sym, kemDecapsulateKey kem encKey ksk = some sym →
      (decryptFromB64 aead sym sealed.encBody).isSome →
      ((sealed.encReplyTo.filter (· ≠ [])).isSome →
        ((sealed.encReplyTo.filter (· ≠ [])).bind (decryptFromB64 aead sym)).isSome) →
      ∃ d, s.readOf kdf keyAead kem aead parser (Function.update s.files s.path (some text)) = .ok d ∧
        ReadAs aead sym sealed d := by
  obtain ⟨nonce, -, -, encrypted⟩ := made.sealsBody
  have body := cstr_encryptToB64 aead encrypted
  have reply : (sealed.encReplyTo.map fun r => cstr (cstr r)) = sealed.encReplyTo := by
    rcases made.sealsReply with ⟨-, none⟩ | ⟨pt, n, b64, -, -, -, encrypted, some⟩
    · rw [none]
      rfl
    · rw [some, Option.map_some, cstr_encryptToB64 aead encrypted, cstr_encryptToB64 aead encrypted]
  unfold readOf cliReadDraft parseDraftJson
  rw [show draftPath s.ctx.configDir s.draftId = s.path from rfl, Function.update_self]
  dsimp only
  rw [parses]
  unfold root
  dsimp only
  rw [draft_encKey, draft_encBody, draft_encReplyTo, draft_encRecipient, draft_encSubject, reply, body,
    body, made.key, wrapped, wrapped, made.sealsRecipient.cstr, made.sealsSubject.cstr]
  dsimp only
  rw [loadKsk_update, loaded]
  dsimp only
  cases unwrapped : kemDecapsulateKey kem encKey ksk with
  | none => exact ⟨nofun, nofun⟩
  | some sym =>
    simp only [Option.elim_some, if_true, true_and]
    constructor
    · intro d read
      split at read
      · cases read
      · cases read
        exact ⟨sym, rfl, rfl, rfl, rfl, rfl⟩
    · rintro _ ⟨⟩ opensBody opensReply
      refine ⟨_, if_neg ?_, rfl, rfl, rfl, rfl⟩
      rintro (none | ⟨there, none⟩)
      · rw [Option.isNone_iff_eq_none.mp none] at opensBody
        cases opensBody
      · have opens := opensReply there
        rw [Option.isNone_iff_eq_none.mp none] at opens
        cases opens

/-- A decrypted text is a C string. -/
theorem nulFree_decrypted {key b64 pt : Bytes} (h : decryptFromB64 aead key b64 = some pt) :
    NulFree pt := by
  unfold decryptFromB64 at h
  split at h
  · cases h
  obtain ⟨⟨packed, packedLen⟩, -, h⟩ := Option.bind_eq_some_iff.mp h
  dsimp only at h
  split at h
  · cases h
  obtain ⟨whole, -, rfl⟩ := Option.map_eq_some_iff.mp h
  intro nul
  have char := List.mem_takeWhile_imp nul
  simp at char

/-- Only a draft of texts that can be read is read as what was saved. -/
theorem readable_of_new {sym : Bytes} {d : Draft}
    (made : SealedOf aead symKey encKey s.recipient s.subject s.replyRef s.body sealed)
    (read : ReadAs aead sym sealed d) (new : NewContent s.recipient s.subject s.replyRef s.body d) :
    s.Readable := by
  obtain ⟨nonce, drawn, text, encrypted⟩ := made.sealsBody
  have body := read.body.symm.trans new.body
  refine ⟨nulFree_decrypted aead body, ?_, fun t ht => ?_, fun t ht => ?_, fun t ht => ?_⟩
  · by_contra large
    exact absurd (decryptFromB64_cut aead drawn (by omega) encrypted body) (lt_irrefl _)
  · exact made.sealsRecipient.small (read.recipient.symm.trans new.recipient) t.1
      (Option.mem_map_of_mem _ ht)
  · exact made.sealsSubject.small (read.subject.symm.trans new.subject) t.1 (Option.mem_map_of_mem _ ht)
  · by_contra large
    have reply := read.replyRef.symm.trans new.replyRef
    rcases made.sealsReply with ⟨-, none⟩ | ⟨pt, n, b64, here, text, drawn, encrypted, some⟩
    · have there := made.reply (by rw [Option.mem_def.mp ht]; rfl)
      rw [none] at there
      cases there
    · rw [some, here, Option.filter_some] at reply
      cases (Option.mem_map_of_mem (·.1) ht).symm.trans here
      split at reply
      · exact absurd (decryptFromB64_cut aead drawn (by omega) encrypted reply) (lt_irrefl _)
      · cases reply

/-- Texts that can be read are read. -/
theorem new_of_readable {sym : Bytes}
    (made : SealedOf aead sym encKey s.recipient s.subject s.replyRef s.body sealed)
    (readable : s.Readable) :
    (decryptFromB64 aead sym sealed.encBody).isSome ∧
    ((sealed.encReplyTo.filter (· ≠ [])).isSome →
      ((sealed.encReplyTo.filter (· ≠ [])).bind (decryptFromB64 aead sym)).isSome) ∧
    ∀ d, ReadAs aead sym sealed d → NewContent s.recipient s.subject s.replyRef s.body d := by
  obtain ⟨nonce, drawn, text, encrypted⟩ := made.sealsBody
  obtain ⟨b64, encrypted', opened⟩ := decryptFromB64_encrypted aead sym drawn text readable.body
  rw [cstr_of_nulFree readable.nul] at opened
  cases encrypted.symm.trans encrypted'
  have reply : (sealed.encReplyTo.filter (· ≠ [])).bind (decryptFromB64 aead sym) =
      s.replyRef.map (·.1) := by
    rcases made.sealsReply with ⟨empty, none⟩ | ⟨pt, n, b64, here, text, drawn, encrypted, some⟩
    · rw [none]
      cases there : s.replyRef with
      | none => rfl
      | some r =>
        have sealed := made.reply (by rw [there]; rfl)
        rw [none] at sealed
        cases sealed
    · obtain ⟨r, hr, rfl⟩ := Option.map_eq_some_iff.mp here
      obtain ⟨b64', encrypted', opened⟩ :=
        decryptFromB64_encrypted aead sym drawn text (readable.replyRef r hr)
      cases encrypted.symm.trans encrypted'
      have nonempty : b64 ≠ [] := by
        rintro rfl
        unfold decryptFromB64 at opened
        rw [if_pos rfl] at opened
        cases opened
      rw [some, here, Option.filter_some, if_pos (by simpa using nonempty), Option.bind_some, opened,
        cstr_of_nulFree r.2]
  refine ⟨by rw [opened]; rfl, fun there => ?_, fun d read => ⟨?_, ?_, ?_, ?_⟩⟩
  · rw [reply]
    cases here : s.replyRef with
    | some r => rfl
    | none =>
      rcases made.sealsReply with ⟨-, none⟩ | ⟨pt, n, b64, some, -⟩
      · rw [none] at there
        cases there
      · rw [here] at some
        cases some
  · rw [read.recipient]
    refine made.sealsRecipient.opened ?_ ?_
    · rintro pt mem
      obtain ⟨t, -, rfl⟩ := Option.map_eq_some_iff.mp mem
      exact t.2
    · rintro pt mem
      obtain ⟨t, ht, rfl⟩ := Option.map_eq_some_iff.mp mem
      exact readable.recipient t ht
  · rw [read.subject]
    refine made.sealsSubject.opened ?_ ?_
    · rintro pt mem
      obtain ⟨t, -, rfl⟩ := Option.map_eq_some_iff.mp mem
      exact t.2
    · rintro pt mem
      obtain ⟨t, ht, rfl⟩ := Option.map_eq_some_iff.mp mem
      exact readable.subject t ht
  · rw [read.body, opened]
  · rw [read.replyRef, reply]

/-- **Saving over a draft is all or nothing** exactly if a save that comes to the `open` fails at
nothing behind it, and its texts are such as can be read. -/
theorem save_all_or_nothing {old : Draft}
    (readable : s.readOf kdf keyAead kem aead parser s.files = .ok old)
    (own : ∀ kpk ksk, s.files (s.ctx.path (utf8 "kem_pk.bin")) = some kpk →
      Calls.loadKsk kdf keyAead s.ctx s.files = .ok ksk → kem.Matches kpk ksk)
    (parses : ∀ created symKey encKey sealed, s.Cuts kem aead parser created symKey encKey sealed →
      ParsesBack parser printG (s.root created sealed)) :
    s.AllOrNothing kdf keyAead kem aead printG parser ↔
      ∀ created symKey encKey sealed, s.Cuts kem aead parser created symKey encKey sealed →
        s.Written printG created sealed := by
  obtain ⟨ksk, loaded⟩ := loadKsk_of_read kdf keyAead kem aead parser readable
  constructor
  · rintro ⟨r, returned, outcome⟩ created symKey encKey sealed cuts
    have made := sealedOf aead cuts.fields
    obtain ⟨kpk, coins, -, -, -, wrapped⟩ := shyakeSelfencBegin_iff.mp cuts.key
    rw [save_of_cuts kem aead printG parser cuts] at returned outcome
    by_cases fdopen : s.calls.fdopen = false
    · rw [if_pos fdopen] at returned outcome
      cases returned
      rw [if_neg (by decide), readable] at outcome
      exact absurd outcome (readOf_corrupt kdf keyAead kem aead parser
        (parses created symKey encKey sealed cuts).nothing old)
    rw [if_neg fdopen] at returned outcome
    cases printed : printUnformatted printG (s.root created sealed) with
    | none =>
      rw [printed] at returned
      cases returned
    | some text =>
      rw [printed] at returned outcome
      cases returned
      rw [if_pos rfl] at outcome
      obtain ⟨d, read, new⟩ := outcome
      have whole : text.length ≤ s.calls.written := by
        by_contra part
        exact readOf_part kdf keyAead kem aead printG parser (parses created symKey encKey sealed cuts)
          printed (by omega) d read
      dsimp only at read
      rw [List.take_of_length_le whole] at read
      obtain ⟨sym, -, readAs⟩ := (readOf_new kdf keyAead kem aead parser made
        (cstr_kemEncapsulateKey kem wrapped)
        ((parses created symKey encKey sealed cuts).whole text printed) loaded).1 d read
      exact ⟨by simpa using fdopen, ⟨text, printed, whole⟩, readable_of_new aead made readAs new⟩
  · intro written
    by_cases any : ∃ created symKey encKey sealed, s.Cuts kem aead parser created symKey encKey sealed
    · obtain ⟨created, symKey, encKey, sealed, cuts⟩ := any
      obtain ⟨fdopen, ⟨text, printed, whole⟩, texts⟩ := written created symKey encKey sealed cuts
      have made := sealedOf aead cuts.fields
      obtain ⟨kpk, coins, here, -, -, wrapped⟩ := shyakeSelfencBegin_iff.mp cuts.key
      have unwrapped : kemDecapsulateKey kem encKey ksk = some symKey.1 :=
        kemDecapsulateKey_encapsulated kem (own kpk ksk here loaded) symKey.2 wrapped
      obtain ⟨opensBody, opensReply, new⟩ := new_of_readable aead made texts
      obtain ⟨d, read, readAs⟩ := (readOf_new kdf keyAead kem aead parser made
        (cstr_kemEncapsulateKey kem wrapped)
        ((parses created symKey encKey sealed cuts).whole text printed) loaded).2 symKey unwrapped
        opensBody opensReply
      unfold AllOrNothing
      rw [save_of_cuts kem aead printG parser cuts, if_neg (by rw [fdopen]; decide), printed]
      dsimp only
      rw [List.take_of_length_le whole]
      refine ⟨_, rfl, ?_⟩
      rw [if_pos rfl]
      exact ⟨d, read, new d readAs⟩
    · push Not at any
      obtain ⟨r, left, failed⟩ := save_of_not_cuts kem aead printG parser any
      unfold AllOrNothing
      rw [left]
      refine ⟨r, rfl, ?_⟩
      rw [if_neg failed]

end Saving

/-! ## A sample -/

/-- A print is not empty, and fits in the printer's buffer. -/
theorem printed_bounds {o : Object} {text : Bytes} (printed : printUnformatted printG o = some text) :
    text ≠ [] ∧ (text.length : Int) ≤ CJson.INT_MAX := by
  unfold printUnformatted at printed
  obtain ⟨start, -, printed⟩ := Option.bind_eq_some_iff.mp printed
  obtain ⟨members, -, printed⟩ := Option.bind_eq_some_iff.mp printed
  unfold CJson.put at printed
  split at printed
  · rename_i room
    cases printed
    unfold CJson.ensure at room
    simp only [Bool.and_eq_true, decide_eq_true_eq] at room
    refine ⟨List.append_ne_nil_of_right_ne_nil _ (List.cons_ne_nil _ _), ?_⟩
    rw [List.length_append, List.length_singleton]
    omega
  · cases printed

theorem draftCreated_now {parser : JsonParser} {configDir draftId raw : Bytes} {files : Files}
    {calls : DraftCalls} (read : calls.read = true)
    (here : files (draftPath configDir draftId) = some raw)
    (same : parser.valuedouble raw (utf8 "created") = calls.now) :
    draftCreated parser configDir files calls (some draftId) = some calls.now := by
  unfold draftCreated
  dsimp only
  rw [if_pos read, here]
  dsimp only
  rw [same, ite_self]

/-- The fields do not depend on how many bytes are written. -/
theorem sealDraft_written (calls : DraftCalls) (written : Nat) {symKey encKey : Bytes}
    {recipient subject replyRef : Option CString} {body : Bytes} :
    sealDraft aead calls symKey encKey recipient subject replyRef body =
      sealDraft aead { calls with written } symKey encKey recipient subject replyRef body := rfl

/-- A draft that is saved over was created now, or when the old JSON says. -/
theorem draftCreated_eq {parser : JsonParser} {configDir : Bytes} {files : Files} {calls : DraftCalls}
    {draftId : Option Bytes} {created : Int}
    (h : draftCreated parser configDir files calls draftId = some created) :
    created = calls.now ∨ ∃ raw, created = parser.valuedouble raw (utf8 "created") := by
  unfold draftCreated at h
  split at h
  · exact .inl (Option.some.inj h).symm
  split at h
  · cases h
  · split at h
    · exact .inr ⟨_, (Option.some.inj h).symm⟩
    · exact .inl (Option.some.inj h).symm

namespace Sample

def drawn12 : Random 12 := some ⟨List.replicate 12 0, List.length_replicate⟩

def noteKey : {b : Bytes // b.length = 32} := ⟨List.replicate 32 1, List.length_replicate⟩

/-- All goes well up to the writing. -/
def draftCalls : DraftCalls where
  dir := true
  now := 1749513600
  read := true
  symKey := some noteKey
  coins := some []
  nonceRecipient := drawn12
  nonceSubject := drawn12
  nonceReply := drawn12
  nonceBody := drawn12
  maxId := 1
  opens := true
  fdopen := true
  written := 0

def toBob : CString := ⟨utf8 "bob", by decide⟩
def noteSubject : CString := ⟨utf8 "hi", by decide⟩

def sealedNote : Option SealedDraft :=
  (kemEncapsulateKey xorKem [] kemPair.pk noteKey).bind fun encKey =>
    sealDraft tagAead draftCalls noteKey encKey (some toBob) (some noteSubject) none
      (utf8 "hello")

def noteObj (sealed : SealedDraft) : Object :=
  draftObj (utf8 "1") 1749513600 1749513600 5 sealed

/-- The file of the note. -/
def noteText : Option Bytes := sealedNote.bind fun sealed => printUnformatted Go.formatInt (noteObj sealed)

theorem noteText_isSome : noteText.isSome := by decide +kernel

/-- It knows the note, of which it takes the two times for equal. -/
def noteParser : JsonParser where
  parse text := if some text = noteText then sealedNote.map fun sealed => .ofObject (noteObj sealed)
    else none
  valuedouble _ _ := 1749513600

/-- The note is saved over itself, and so many bytes of it are written. -/
def note (written : Nat) : Saving where
  ctx := alice
  lastError := []
  username := utf8 "alice"
  calls := { draftCalls with written }
  recipient := some toBob
  subject := some noteSubject
  replyRef := none
  body := utf8 "hello"
  draftId := utf8 "1"
  files := Function.update (Function.update (Function.update (fun _ => none)
    (alice.path (utf8 "kem_pk.bin")) (some kemPair.pk)) (alice.path (utf8 "kem_sk.bin"))
    (some kemPair.sk)) (draftPath alice.configDir (utf8 "1")) noteText

theorem note_text : ∃ sealed text, sealedNote = some sealed ∧ noteText = some text ∧
    printUnformatted Go.formatInt (noteObj sealed) = some text := by
  obtain ⟨text, here⟩ := Option.isSome_iff_exists.mp noteText_isSome
  obtain ⟨sealed, made, printed⟩ := Option.bind_eq_some_iff.mp here
  exact ⟨sealed, text, made, here, printed⟩

theorem note_pk (written : Nat) :
    (note written).files (alice.path (utf8 "kem_pk.bin")) = some kemPair.pk := by
  have short : alice.configDir.length ≤ 505 := by decide
  unfold note
  dsimp only
  rw [Function.update_of_ne (by decide), Function.update_of_ne (path_ne short (by decide)),
    Function.update_self]

theorem note_sk (written : Nat) :
    Calls.loadKsk plainKdf (fun _ => tagAead) alice (note written).files = .ok kemPair.sk := by
  have raw : kemPair.sk.take 4 ≠ SK_MAGIC := by decide
  have here : (note written).files (alice.path (utf8 "kem_sk.bin")) = some kemPair.sk := by
    unfold note
    dsimp only
    rw [Function.update_of_ne (by decide), Function.update_self]
  unfold Calls.loadKsk loadSkDecrypted
  rw [here]
  exact openSk_raw _ _ raw _

/-- What is cut is the note. -/
theorem note_of_cuts {written : Nat} {created : Int} {symKey : {b : Bytes // b.length = 32}}
    {encKey : Bytes} {sealed : SealedDraft}
    (cuts : (note written).Cuts xorKem tagAead noteParser created symKey encKey sealed) :
    sealedNote = some sealed ∧ created = 1749513600 := by
  obtain ⟨kpk, coins, here, drawn, drawn', wrapped⟩ := shyakeSelfencBegin_iff.mp cuts.key
  obtain rfl := Option.some.inj ((note_pk written).symm.trans here)
  obtain rfl := Option.some.inj drawn
  obtain rfl := Option.some.inj drawn'
  have fields := (sealDraft_written tagAead draftCalls written).trans cuts.fields
  refine ⟨Option.bind_eq_some_iff.mpr ⟨encKey, wrapped, fields⟩, ?_⟩
  rcases draftCreated_eq cuts.created with now | ⟨raw, double⟩
  · exact now
  · exact double

/-- The parser takes the note and nothing shorter. -/
theorem note_parses {written : Nat} {created : Int} {symKey : {b : Bytes // b.length = 32}}
    {encKey : Bytes} {sealed : SealedDraft}
    (cuts : (note written).Cuts xorKem tagAead noteParser created symKey encKey sealed) :
    ParsesBack noteParser Go.formatInt ((note written).root created sealed) := by
  obtain ⟨made, rfl⟩ := note_of_cuts cuts
  obtain ⟨sealed', text, made', here, printed⟩ := note_text
  obtain rfl := Option.some.inj (made.symm.trans made')
  have only {other : Bytes} (ne : other ≠ text) : noteParser.parse other = none := by
    unfold noteParser
    dsimp only
    rw [here, if_neg (by simpa using ne)]
  have bounds := printed_bounds Go.formatInt printed
  refine ⟨only bounds.1.symm, fun text' printed' => ?_, fun text' printed' n part => only ?_⟩
  · obtain rfl := Option.some.inj (printed.symm.trans printed')
    unfold noteParser
    dsimp only
    rw [here, if_pos rfl, made]
    rfl
  · obtain rfl := Option.some.inj (printed.symm.trans printed')
    intro same
    have length := congrArg List.length same
    rw [List.length_take] at length
    omega

theorem note_file (written : Nat) : (note written).files (note written).path = noteText := by
  unfold note Saving.path
  dsimp only
  rw [Function.update_self]

theorem note_cuts (written : Nat) : ∃ encKey sealed,
    (note written).Cuts xorKem tagAead noteParser 1749513600 noteKey encKey sealed ∧
      sealedNote = some sealed := by
  obtain ⟨sealed, text, made, here, -⟩ := note_text
  obtain ⟨encKey, wrapped, fields⟩ := Option.bind_eq_some_iff.mp made
  have file := (note_file written).trans here
  refine ⟨encKey, sealed, ⟨?_, rfl, ?_, ?_, ?_, ?_, rfl⟩, made⟩
  · exact show utf8 "hello" ≠ [] by decide
  · exact draftCreated_now rfl file rfl
  · exact shyakeSelfencBegin_iff.mpr ⟨kemPair.pk, [], note_pk written, rfl, rfl, wrapped⟩
  · exact (sealDraft_written tagAead draftCalls written).symm.trans fields
  · rw [file]
    rfl

theorem note_readable (written : Nat) : (note written).Readable where
  nul := show NulFree (utf8 "hello") by decide
  body := show (utf8 "hello").length ≤ maxText by decide
  recipient := by
    rintro _ ⟨⟩
    exact show (utf8 "bob").length ≤ maxText by decide
  subject := by
    rintro _ ⟨⟩
    exact show (utf8 "hi").length ≤ maxText by decide
  replyRef := nofun

theorem note_own (written : Nat) {kpk ksk : Bytes}
    (here : (note written).files (alice.path (utf8 "kem_pk.bin")) = some kpk)
    (loaded : Calls.loadKsk plainKdf (fun _ => tagAead) alice (note written).files = .ok ksk) :
    xorKem.Matches kpk ksk := by
  cases (note_pk written).symm.trans here
  cases (note_sk written).symm.trans loaded
  exact kemPair.pair

/-- The note can be read before it is saved. -/
theorem note_read (written : Nat) : ∃ d, (note written).readOf plainKdf (fun _ => tagAead) xorKem tagAead
    noteParser (note written).files = .ok d := by
  obtain ⟨encKey, sealed, cuts, made'⟩ := note_cuts written
  obtain ⟨sealed', text, made'', here, printed⟩ := note_text
  obtain rfl := Option.some.inj (made'.symm.trans made'')
  have made := sealedOf tagAead cuts.fields
  obtain ⟨kpk, coins, pk, -, -, wrapped⟩ := shyakeSelfencBegin_iff.mp cuts.key
  obtain ⟨opensBody, opensReply, -⟩ :=
    Saving.new_of_readable tagAead made (note_readable written)
  have unwrapped := kemDecapsulateKey_encapsulated xorKem (note_own written pk (note_sk written)) noteKey.2
    wrapped
  have same : Function.update (note written).files (note written).path (some text) =
      (note written).files := by
    unfold note Saving.path
    dsimp only
    rw [Function.update_idem, here]
  obtain ⟨d, read, -⟩ := (Saving.readOf_new plainKdf (fun _ => tagAead) xorKem tagAead noteParser made
    (cstr_kemEncapsulateKey xorKem wrapped) ((note_parses cuts).whole text printed)
    (note_sk written)).2 noteKey unwrapped opensBody opensReply
  rw [same] at read
  exact ⟨d, read⟩

/-- All of the note is written. -/
theorem save_all_or_nothing_note : (note 2147483647).AllOrNothing plainKdf (fun _ => tagAead) xorKem
    tagAead Go.formatInt noteParser := by
  obtain ⟨old, read⟩ := note_read 2147483647
  refine (Saving.save_all_or_nothing plainKdf (fun _ => tagAead) xorKem tagAead Go.formatInt noteParser
    read (fun _ _ => note_own 2147483647) fun _ _ _ _ => note_parses).mpr fun _ _ _ sealed cuts => ?_
  obtain ⟨made, rfl⟩ := note_of_cuts cuts
  obtain ⟨sealed', text, made', here, printed⟩ := note_text
  obtain rfl := Option.some.inj (made.symm.trans made')
  have fits := (printed_bounds Go.formatInt printed).2
  refine ⟨rfl, ⟨text, printed, ?_⟩, note_readable _⟩
  change text.length ≤ 2147483647
  unfold CJson.INT_MAX at fits
  omega

/-- **A full disk takes both drafts**: nothing can be written, the save returns `SHYAKE_OK`, and the
old note is gone. -/
theorem full_disk : (∃ d, (note 0).readOf plainKdf (fun _ => tagAead) xorKem tagAead noteParser
      (note 0).files = .ok d) ∧
    ¬ (note 0).AllOrNothing plainKdf (fun _ => tagAead) xorKem tagAead Go.formatInt noteParser := by
  refine ⟨note_read 0, ?_⟩
  rintro ⟨r, returned, outcome⟩
  obtain ⟨encKey, sealed, cuts, made⟩ := note_cuts 0
  obtain ⟨sealed', text, made', here, printed⟩ := note_text
  obtain rfl := Option.some.inj (made.symm.trans made')
  have root : printUnformatted Go.formatInt ((note 0).root 1749513600 sealed) = some text := printed
  have saved := Saving.save_of_cuts xorKem tagAead Go.formatInt noteParser cuts
  rw [if_neg (show ¬ (note 0).calls.fdopen = false from nofun), root] at saved
  rw [saved] at returned outcome
  cases returned
  rw [if_pos rfl] at outcome
  obtain ⟨d, read, -⟩ := outcome
  exact Saving.readOf_part plainKdf (fun _ => tagAead) xorKem tagAead Go.formatInt noteParser
    (note_parses cuts) root (List.length_pos_of_ne_nil (printed_bounds Go.formatInt printed).1) d read

end Sample

end Shyake.Client
