import Shyake.Client.Cli.Commands

/-!
# What is left of a mail that is not sent

A text that is given away at once, by `send` or by `reply` with a file or a pipe, is in a new draft
afterwards exactly if it came as far as the server and is such as a draft can hold.
-/

namespace Shyake.Client

open CJson (printUnformatted PrintsShort HoldsShort)

variable {kdf : Kdf} {keyAead : Bytes → Aead} {kem : Kem} {aead : Aead} {printG : Int → Bytes}
  {round : ℚ → ℚ} {cli : Cli}

/-! ## Reading a draft -/

/-- What is read of a draft is opened with the key that its secret key unwraps. -/
theorem readAs_of_ok {parser : JsonParser} {ctx : Ctx} {lastError username draftId raw : Bytes}
    {files : Files} {id : Bytes} {created now : Int} {len : Nat} {symKey encKey : Bytes}
    {recipient subject replyRef : Option CString} {body : Bytes} {sealed : SealedDraft} {d : Draft}
    (here : files (draftPath ctx.configDir draftId) = some raw)
    (parses : parser.parse raw = some (.ofObject (draftObj id created now len sealed)))
    (made : SealedOf aead symKey encKey recipient subject replyRef body sealed)
    (wrapped : Client.cstr encKey = encKey)
    (read : cliReadDraft kdf keyAead kem aead parser ctx lastError username draftId files = .ok d) :
    ∃ ksk sym, Calls.loadKsk kdf keyAead ctx files = .ok ksk ∧
      kemDecapsulateKey kem encKey ksk = some sym ∧ ReadAs aead sym sealed d := by
  obtain ⟨nonce, -, -, encrypted⟩ := made.sealsBody
  have body := cstr_encryptToB64 aead encrypted
  have reply : (sealed.encReplyTo.map fun r => Client.cstr (Client.cstr r)) = sealed.encReplyTo := by
    rcases made.sealsReply with ⟨-, none⟩ | ⟨pt, n, b64, -, -, -, encrypted, some⟩
    · rw [none]
      rfl
    · rw [some, Option.map_some, cstr_encryptToB64 aead encrypted, cstr_encryptToB64 aead encrypted]
  unfold cliReadDraft parseDraftJson at read
  rw [here] at read
  dsimp only at read
  rw [parses] at read
  dsimp only at read
  rw [draft_encKey, draft_encBody, draft_encReplyTo, draft_encRecipient,
    draft_encSubject, reply, body, body, made.key, wrapped, wrapped, made.sealsRecipient.cstr,
    made.sealsSubject.cstr] at read
  dsimp only at read
  split at read
  · cases read
  · rename_i ksk loaded
    cases unwrapped : kemDecapsulateKey kem encKey ksk with
    | none =>
      rw [unwrapped] at read
      cases read
    | some sym =>
      rw [unwrapped] at read
      simp only [Option.elim_some, if_true, true_and] at read
      split at read
      · cases read
      · cases read
        exact ⟨ksk, sym, loaded, unwrapped, rfl, rfl, rfl, rfl⟩

/-! ## Saving a new draft -/

/-- What a user wants to have sent. -/
structure Intended where
  recipient : CString
  subject : CString
  replyRef : Option CString
  body : Bytes

/-- The recipient, the subject and the reference can be sealed and opened again, and the body is no
larger than any disk. -/
structure Intended.Short (mail : Intended) : Prop where
  recipient : mail.recipient.1.length ≤ maxText
  subject : mail.subject.1.length ≤ maxText
  replyRef : ∀ ref ∈ mail.replyRef, ref.1 ≠ [] ∧ ref.1.length ≤ maxText
  body : mail.body.length < 10 ^ 15

/-- A body that a draft can hold. -/
structure Holdable (body : Bytes) : Prop where
  nonempty : body ≠ []
  nul : NulFree body
  small : body.length ≤ maxText

variable (kem aead printG cli) in
/-- All that a new draft needs is there: the directory, the public key, what is random, a free number,
and room for the JSON. -/
structure Stores (calls : DraftCalls) (files : Files) (mail : Intended) : Prop where
  dir : calls.dir = true
  now : calls.now.natAbs < 10 ^ 15
  key : (shyakeSelfencBegin kem (cli.ctx []) files calls).isSome
  nonces : calls.nonceRecipient.isSome ∧ calls.nonceSubject.isSome ∧ calls.nonceReply.isSome ∧
    calls.nonceBody.isSome
  free : (openDraft cli.configDir files calls none).isSome
  fdopen : calls.fdopen = true
  written : ∀ symKey encKey sealed id path,
    shyakeSelfencBegin kem (cli.ctx []) files calls = some (symKey, encKey) →
    sealDraft aead calls symKey encKey (some mail.recipient) (some mail.subject) mail.replyRef mail.body =
      some sealed →
    openDraft cli.configDir files calls none = some (id, path) →
    ∃ text, printUnformatted printG (draftObj id calls.now calls.now mail.body.length sealed) = some text ∧
      text.length ≤ calls.written

variable (aead) in
theorem shyakeSealB64_isSome (symKey : Bytes) {pt : Bytes} {nonce : Random 12} (drawn : nonce.isSome)
    (text : pt ≠ []) (small : pt.length ≤ maxText) : (shyakeSealB64 aead symKey nonce pt).isSome := by
  obtain ⟨n, rfl⟩ := Option.isSome_iff_exists.mp drawn
  obtain ⟨b64, encrypted, -⟩ := decryptFromB64_encrypted aead symKey n.2 text small
  unfold shyakeSealB64
  rw [Option.bind_some, encrypted]
  rfl

/-- A text that is there and short is sealed, unless it is empty. -/
theorem filled_sealed {symKey : Bytes} {nonce : Random 12} {text : CString} (drawn : nonce.isSome)
    (small : text.1.length ≤ maxText) : ¬ (((some text).filter (·.1 ≠ [])).isSome ∧
      (((some text).filter (·.1 ≠ [])).bind fun s => shyakeSealB64 aead symKey nonce s.1).isNone) := by
  rintro ⟨there, none⟩
  rw [Option.filter_some] at there none
  split at there
  · rename_i filled
    rw [if_pos filled, Option.bind_some] at none
    have sealed := shyakeSealB64_isSome aead symKey drawn (by simpa using filled) small
    rw [Option.isNone_iff_eq_none.mp none] at sealed
    cases sealed
  · cases there

section

variable {calls : DraftCalls} {files : Files} {mail : Intended}

theorem Stores.sealed (stores : Stores kem aead printG cli calls files mail) (short : mail.Short)
    (holdable : Holdable mail.body) (symKey encKey : Bytes) :
    ∃ sealed, sealDraft aead calls symKey encKey (some mail.recipient) (some mail.subject) mail.replyRef
      mail.body = some sealed := by
  obtain ⟨drawnRecipient, drawnSubject, drawnReply, drawnBody⟩ := stores.nonces
  obtain ⟨b64, body⟩ := Option.isSome_iff_exists.mp
    (shyakeSealB64_isSome aead symKey drawnBody holdable.nonempty holdable.small)
  have reply : ¬ (mail.replyRef.isSome ∧
      (mail.replyRef.bind fun s => shyakeSealB64 aead symKey calls.nonceReply s.1).isNone) := by
    rintro ⟨there, none⟩
    obtain ⟨ref, here⟩ := Option.isSome_iff_exists.mp there
    obtain ⟨filled, small⟩ := short.replyRef ref here
    have sealed := shyakeSealB64_isSome aead symKey drawnReply filled small
    rw [here, Option.bind_some] at none
    rw [Option.isNone_iff_eq_none.mp none] at sealed
    cases sealed
  unfold sealDraft
  rw [body]
  exact ⟨_, if_neg (not_or.mpr ⟨filled_sealed drawnRecipient short.recipient,
    not_or.mpr ⟨filled_sealed drawnSubject short.subject, reply⟩⟩)⟩

variable (round) in
/-- What a new draft is saved as. -/
theorem Stores.saves (stores : Stores kem aead printG cli calls files mail) (short : mail.Short)
    (holdable : Holdable mail.body) (passphrase : Bytes) :
    ∃ symKey encKey sealed id path text,
      shyakeSelfencBegin kem (cli.ctx []) files calls = some (symKey, encKey) ∧
      sealDraft aead calls symKey encKey (some mail.recipient) (some mail.subject) mail.replyRef
        mail.body = some sealed ∧
      openDraft cli.configDir files calls none = some (id, path) ∧
      printUnformatted printG (draftObj id calls.now calls.now mail.body.length sealed) = some text ∧
      cliSaveDraft kem aead printG (CJson.parser round) (cli.ctx passphrase) calls (some mail.recipient)
        (some mail.subject) mail.replyRef mail.body none files =
          (some ⟨.OK, [], some id⟩, Function.update files path (some text)) := by
  obtain ⟨⟨symKey, encKey⟩, key⟩ := Option.isSome_iff_exists.mp stores.key
  obtain ⟨sealed, fields⟩ := stores.sealed short holdable symKey encKey
  obtain ⟨⟨id, path⟩, opened⟩ := Option.isSome_iff_exists.mp stores.free
  obtain ⟨text, printed, whole⟩ := stores.written symKey encKey sealed id path key fields opened
  refine ⟨symKey, encKey, sealed, id, path, text, key, fields, opened, printed, ?_⟩
  unfold cliSaveDraft
  rw [if_neg holdable.nonempty, if_neg (by rw [stores.dir]; decide),
    show draftCreated (CJson.parser round) (cli.ctx passphrase).configDir files calls none =
      some calls.now from rfl]
  dsimp only
  rw [show shyakeSelfencBegin kem (cli.ctx passphrase) files calls = some (symKey, encKey) from key]
  dsimp only
  rw [fields]
  dsimp only
  rw [show openDraft (cli.ctx passphrase).configDir files calls none = some (id, path) from opened]
  dsimp only
  rw [if_neg (by rw [stores.fdopen]; decide), printed]
  dsimp only
  rw [Function.update_idem, List.take_of_length_le whole]

end

/-! ## What is kept -/

variable (kdf keyAead kem aead round cli) in
/-- There is a draft that was not there before, and it is read as the mail. -/
def InNewDraft (passphrase : Bytes) (mail : Intended) (before after : Files) : Prop :=
  ∃ draftId d, before (draftPath cli.configDir draftId) = none ∧
    cliReadDraft kdf keyAead kem aead (CJson.parser round) (cli.ctx passphrase) []
      (cli.cfg.username.getD []) draftId after = .ok d ∧
    NewContent (some mail.recipient) (some mail.subject) mail.replyRef mail.body d

/-- No draft is new in the same files. -/
theorem not_inNewDraft_of_same {passphrase : Bytes} {mail : Intended} {files : Files} :
    ¬ InNewDraft kdf keyAead kem aead round cli passphrase mail files files := by
  rintro ⟨draftId, d, none, read, -⟩
  unfold cliReadDraft parseDraftJson at read
  rw [show files (draftPath (cli.ctx passphrase).configDir draftId) = Option.none from none] at read
  cases read

section

variable {calls : CommandCalls} {files : Files} {mail : Intended} {ksk passphrase : Bytes}

/-- Only a body that a draft can hold is kept by a rescue. -/
theorem holdable_of_kept (prints : PrintsShort printG) (holds : HoldsShort round) (short : mail.Short)
    (now : calls.draft.now.natAbs < 10 ^ 15) {asked : Bytes} {answered : Option Answered}
    (kept : InNewDraft kdf keyAead kem aead round cli passphrase mail files
      (rescueDraft kem aead printG (CJson.parser round) cli calls asked answered mail.recipient mail.subject
        mail.replyRef mail.body files).files) : Holdable mail.body := by
  obtain ⟨draftId, d, none, read, new⟩ := kept
  cases saved : cliSaveDraft kem aead printG (CJson.parser round) (cli.ctx asked) calls.draft
    (some mail.recipient) (some mail.subject) mail.replyRef mail.body Option.none files with
  | mk r files' =>
  have left : (rescueDraft kem aead printG (CJson.parser round) cli calls asked answered mail.recipient
      mail.subject mail.replyRef mail.body files).files = files' := by
    unfold rescueDraft
    rw [saved]
  rw [left] at read
  have here : (cli.ctx passphrase).configDir = cli.configDir := rfl
  -- the draft is read of the file that is written
  have at_ {path content : Bytes} (new : files' = Function.update files path (some content)) :
      files' (draftPath (cli.ctx passphrase).configDir draftId) = some content := by
    by_cases same : draftPath cli.configDir draftId = path
    · rw [new, here, same, Function.update_self]
    · unfold cliReadDraft parseDraftJson at read
      rw [new, here, Function.update_of_ne same, none] at read
      cases read
  rcases cliSaveDraft_cases saved with ⟨-, rfl | ⟨id, path, -, empty⟩⟩ | ⟨created, symKey, encKey, sealed, id,
    path, text, times, key, fields, opened, printed, -, written⟩
  · exact (not_inNewDraft_of_same ⟨draftId, d, none, read, new⟩).elim
  · unfold cliReadDraft parseDraftJson at read
    rw [at_ empty] at read
    cases read
  · obtain rfl : created = calls.draft.now := (Option.some.inj times).symm
    obtain ⟨kpk, coins, -, -, -, wrapped⟩ := shyakeSelfencBegin_iff.mp key
    have made := sealedOf aead fields
    have back := CJson.parser_parsesBack prints holds draftObj_ne_nil
      (short_draftObj id sealed now now short.body)
    have whole : text.take calls.draft.written = text := by
      rcases Nat.lt_or_ge calls.draft.written text.length with cut | whole
      · unfold cliReadDraft parseDraftJson at read
        rw [at_ written] at read
        dsimp only at read
        rw [back.part text printed _ cut] at read
        cases read
      · exact List.take_of_length_le whole
    obtain ⟨_, sym, -, -, readAs⟩ := readAs_of_ok (at_ written)
      (by rw [whole]; exact back.whole text printed) made (cstr_kemEncapsulateKey kem wrapped) read
    let s : Saving := ⟨cli.ctx passphrase, [], [], calls.draft, some mail.recipient, some mail.subject,
      mail.replyRef, mail.body, draftId, files⟩
    have readable : s.Readable := Saving.readable_of_new aead made readAs new
    obtain ⟨nonce, -, text, -⟩ := made.sealsBody
    exact ⟨text, readable.nul, readable.body⟩

/-- And it is, when nothing fails. -/
theorem kept_of_holdable (prints : PrintsShort printG) (holds : HoldsShort round) (short : mail.Short)
    (stores : Stores kem aead printG cli calls.draft files mail)
    (loaded : Calls.loadKsk kdf keyAead (cli.ctx passphrase) files = .ok ksk)
    (own : ∀ kpk, files ((cli.ctx []).path (utf8 "kem_pk.bin")) = some kpk → kem.Matches kpk ksk)
    (holdable : Holdable mail.body) (asked : Bytes) (answered : Option Answered) :
    InNewDraft kdf keyAead kem aead round cli passphrase mail files
      (rescueDraft kem aead printG (CJson.parser round) cli calls asked answered mail.recipient mail.subject
        mail.replyRef mail.body files).files := by
  obtain ⟨symKey, encKey, sealed, id, path, text, key, fields, opened, printed, saved⟩ :=
    stores.saves round short holdable asked
  obtain ⟨kpk, coins, here, -, -, wrapped⟩ := shyakeSelfencBegin_iff.mp key
  obtain ⟨n, -, -, rfl, rfl, none⟩ := newDraft_spec opened
  let s : Saving := ⟨cli.ctx passphrase, [], cli.cfg.username.getD [], calls.draft, some mail.recipient,
    some mail.subject, mail.replyRef, mail.body, Go.formatInt n, files⟩
  have readable : s.Readable := by
    refine ⟨holdable.nul, holdable.small, ?_, ?_, fun ref mem => (short.replyRef ref mem).2⟩
    · rintro _ ⟨⟩
      exact short.recipient
    · rintro _ ⟨⟩
      exact short.subject
  obtain ⟨d, read, new, -⟩ := Saving.read_whole kdf keyAead kem aead prints holds readable loaded
    (kemDecapsulateKey_encapsulated kem (own kpk here) symKey.2 wrapped)
    (cstr_kemEncapsulateKey kem wrapped) (sealedOf aead fields) stores.now stores.now printed
  have left : (rescueDraft kem aead printG (CJson.parser round) cli calls asked answered mail.recipient
      mail.subject mail.replyRef mail.body files).files =
        Function.update files (draftPath cli.configDir (Go.formatInt n)) (some text) := by
    unfold rescueDraft
    rw [saved]
  exact ⟨Go.formatInt n, d, none, by rw [left]; exact read, new⟩

end

/-! ## Commands that give a text away at once -/

/-- What a command is to give away of a text that could be read. -/
def Command.intended (username : Bytes) : Command → Option Intended
  | sendFile (some recipient) subject (some text) =>
    some ⟨recipient, (sendText subject text).1, none, (sendText subject text).2⟩
  | reply (some orig) subject (.direct (some body)) => do
    let ref ← orig.ref
    let subject ← subject.or (orig.subject.bind fun s => (replySubject s.1).map toCString)
    some ⟨shyakeReplyRecipient username orig, subject, some ref, body⟩
  | _ => none

/-- The subject is let through: of a mail in any case, of a reply as far as it is given. -/
def Command.SubjectFine : Command → Prop
  | sendFile _ subject text => ∀ t ∈ text, subjectProblem (some (sendText subject t).1.1) = none
  | reply _ subject _ => ∀ s ∈ subject, subjectProblem (some s.1) = none
  | _ => True

variable (cli) in
/-- It comes as far as the server, which does not take the text. -/
def Command.Refused (command : Command) (calls : CommandCalls) : Prop :=
  command.SubjectFine ∧ cli.configured = true ∧ calls.prompt.isSome ∧ calls.sent ≠ .OK

variable (kem aead printG round cli) in
/-- What a rescue of the mail leaves, whatever else it is given. -/
def Rescued (calls : CommandCalls) (mail : Intended) (files left : Files) : Prop :=
  ∃ asked answered, left = (rescueDraft kem aead printG (CJson.parser round) cli calls asked answered
    mail.recipient mail.subject mail.replyRef mail.body files).files

section

variable {calls : CommandCalls} {files : Files} {mail : Intended}

theorem sendFile_left {recipient subject : Option CString} {text : Option Bytes}
    (intended : (Command.sendFile recipient subject text).intended (cli.cfg.username.getD []) = some mail) :
    let left := (sendFile kem aead printG (CJson.parser round) cli calls recipient subject text files).files
    (Command.sendFile recipient subject text).Refused cli calls ∧
        Rescued kem aead printG round cli calls mail files left ∨
      ¬ (Command.sendFile recipient subject text).Refused cli calls ∧ left = files := by
  cases recipient with
  | none => cases intended
  | some recipient =>
  cases text with
  | none => cases intended
  | some text =>
  cases intended
  unfold sendFile
  dsimp only
  split
  · rename_i problem
    refine .inr ⟨fun refused => ?_, rfl⟩
    rw [refused.1 text rfl] at problem
    cases problem
  rename_i fine
  split
  · rename_i missing
    refine .inr ⟨fun refused => ?_, rfl⟩
    rw [refused.2.1] at missing
    cases missing
  rename_i configured
  cases prompt : calls.prompt with
  | none =>
    refine .inr ⟨fun refused => ?_, rfl⟩
    have asked := refused.2.2.1
    rw [prompt] at asked
    cases asked
  | some passphrase =>
  dsimp only
  split
  · rename_i sent
    exact .inr ⟨fun refused => refused.2.2.2 sent, rfl⟩
  · rename_i refused
    refine .inl ⟨⟨?_, by simpa using configured, by rw [prompt]; rfl, refused⟩, passphrase, none, rfl⟩
    rintro _ ⟨⟩
    simpa using fine

theorem reply_left {orig : Option Answered} {subject : Option CString} {text : ReplyText}
    (intended : (Command.reply orig subject text).intended (cli.cfg.username.getD []) = some mail) :
    let left := (reply kdf keyAead kem aead printG (CJson.parser round) cli calls orig subject text
      files).files
    (Command.reply orig subject text).Refused cli calls ∧
        Rescued kem aead printG round cli calls mail files left ∨
      ¬ (Command.reply orig subject text).Refused cli calls ∧ left = files := by
  cases orig with
  | none => cases intended
  | some orig =>
  rcases text with draftId | (_ | body) | _
  · cases intended
  · cases intended
  · obtain ⟨ref, here, intended⟩ := Option.bind_eq_some_iff.mp intended
    obtain ⟨sub, subject_, intended⟩ := Option.bind_eq_some_iff.mp intended
    cases intended
    unfold reply
    split
    · rename_i problem
      refine .inr ⟨fun refused => ?_, rfl⟩
      obtain ⟨s, rfl, there⟩ := (Option.any_eq_true _ _).mp problem
      rw [refused.1 s rfl] at there
      cases there
    rename_i fine
    split
    · rename_i missing
      refine .inr ⟨fun refused => ?_, rfl⟩
      rw [refused.2.1] at missing
      cases missing
    rename_i configured
    cases prompt : calls.prompt with
    | none =>
      refine .inr ⟨fun refused => ?_, rfl⟩
      have asked := refused.2.2.1
      rw [prompt] at asked
      cases asked
    | some passphrase =>
    dsimp only
    rw [here]
    dsimp only
    rw [subject_]
    unfold replyDirect
    dsimp only
    split
    · rename_i sent
      exact .inr ⟨fun refused => refused.2.2.2 sent, rfl⟩
    · rename_i refused
      refine .inl ⟨⟨fun s given => ?_, by simpa using configured, by rw [prompt]; rfl, refused⟩, passphrase,
        some orig, rfl⟩
      by_contra problem
      refine fine ((Option.any_eq_true _ _).mpr ⟨s, given, ?_⟩)
      exact Option.isSome_iff_ne_none.mpr problem
  · cases intended

end

variable (kdf keyAead kem aead printG round) in
theorem Command.left {command : Command} (calls : CommandCalls) (files : Files) {mail : Intended}
    (intended : command.intended (cli.cfg.username.getD []) = some mail) :
    let left := (command.run kdf keyAead kem aead printG (CJson.parser round) cli calls files).files
    command.Refused cli calls ∧ Rescued kem aead printG round cli calls mail files left ∨
      ¬ command.Refused cli calls ∧ left = files := by
  cases command with
  | sendFile recipient subject text => exact sendFile_left intended
  | reply orig subject text => exact reply_left intended
  | sendDraft recipient subject draftId => cases intended
  | composeNew => cases intended
  | composeDraft draftId shown => cases intended

/-- **What becomes of a text that is not sent**: `send` and `reply` have it in a new draft afterwards
exactly if the subject was let through, the configuration is there, a passphrase was given, the server
did not take it, and the body is not empty, has no NUL, and is no longer than a draft can hold. -/
theorem kept_iff (prints : PrintsShort printG) (holds : HoldsShort round) {command : Command}
    {calls : CommandCalls} {files : Files} {mail : Intended} {ksk passphrase : Bytes}
    (intended : command.intended (cli.cfg.username.getD []) = some mail) (short : mail.Short)
    (stores : Stores kem aead printG cli calls.draft files mail)
    (loaded : Calls.loadKsk kdf keyAead (cli.ctx passphrase) files = .ok ksk)
    (own : ∀ kpk, files ((cli.ctx []).path (utf8 "kem_pk.bin")) = some kpk → kem.Matches kpk ksk) :
    let left := (command.run kdf keyAead kem aead printG (CJson.parser round) cli calls files).files
    (InNewDraft kdf keyAead kem aead round cli passphrase mail files left ↔
      command.Refused cli calls ∧ Holdable mail.body) ∧
    (¬ command.Refused cli calls → left = files) := by
  rcases Command.left kdf keyAead kem aead printG round calls files intended with
    ⟨refused, asked, answered, left⟩ | ⟨not, left⟩
  · dsimp only
    rw [left]
    refine ⟨⟨fun kept => ⟨refused, holdable_of_kept prints holds short stores.now kept⟩,
      fun both => ?_⟩, fun not => (not refused).elim⟩
    exact kept_of_holdable prints holds short stores loaded own both.2 asked answered
  · dsimp only
    rw [left]
    exact ⟨⟨fun kept => (not_inNewDraft_of_same kept).elim, fun both => (not both.1).elim⟩, fun _ => rfl⟩

namespace Sample

/-- Alice's two KEM keys, and no drafts. -/
def aliceKem : Files :=
  Function.update (Function.update (fun _ => none) (alice.path (utf8 "kem_pk.bin")) (some kemPair.pk))
    (alice.path (utf8 "kem_sk.bin")) (some kemPair.sk)

def aliceCli : Cli where
  configDir := alice.configDir
  cfg := { AppConfig.initial with
    instanceUrl := some (utf8 "https://mail.example.org"), username := some (utf8 "alice") }

/-- What Bob has sent her. -/
def fromBob : Answered := ⟨toBob, ⟨utf8 "alice", by decide⟩, none, none, some ⟨utf8 "5d41", by decide⟩⟩

def helloCommand : Command := .reply (some fromBob) (some noteSubject) (.direct (some (utf8 "hello")))

def hello : Intended := ⟨toBob, noteSubject, fromBob.ref, utf8 "hello"⟩

/-- There is no way to the server. -/
def offline : CommandCalls where
  prompt := some []
  lastError := []
  draft := { draftCalls with maxId := 0, written := 4096 }
  sent := .ERR_NETWORK
  yes := false
  unlinks := true
  editor := []
  temp _ := false
  launch _ _ := ⟨0, none⟩
  date := []

theorem hello_intended : helloCommand.intended (aliceCli.cfg.username.getD []) = some hello := by
  have other : ¬ toBob.1 = utf8 "alice" := by decide
  have recipient : shyakeReplyRecipient (utf8 "alice") fromBob = toBob := if_neg other
  show some (Intended.mk (shyakeReplyRecipient (utf8 "alice") fromBob) noteSubject fromBob.ref
    (utf8 "hello")) = some hello
  rw [recipient]
  rfl

/-- The JSON of the draft. -/
def helloText : Option Bytes :=
  (kemEncapsulateKey xorKem [] kemPair.pk noteKey).bind fun encKey =>
    (sealDraft tagAead offline.draft noteKey encKey (some toBob) (some noteSubject) fromBob.ref
      (utf8 "hello")).bind fun sealed =>
      printUnformatted Go.formatInt (draftObj (utf8 "1") 1749513600 1749513600 5 sealed)

theorem helloText_short : helloText.any (fun text => text.length ≤ 4096) = true := by decide +kernel

theorem aliceKem_pk : aliceKem (alice.path (utf8 "kem_pk.bin")) = some kemPair.pk := by
  unfold aliceKem
  rw [Function.update_of_ne (by decide), Function.update_self]

theorem aliceKem_file : aliceKem (alice.path (utf8 "kem_sk.bin")) = some kemPair.sk :=
  Function.update_self ..

theorem aliceKem_sk : Calls.loadKsk plainKdf (fun _ => tagAead) (aliceCli.ctx []) aliceKem = .ok kemPair.sk := by
  have raw : kemPair.sk.take 4 ≠ SK_MAGIC := by decide
  unfold Calls.loadKsk loadSkDecrypted
  rw [show aliceKem ((aliceCli.ctx []).path (utf8 "kem_sk.bin")) = some kemPair.sk from aliceKem_file]
  exact openSk_raw _ _ raw _

theorem aliceKem_own : ∀ kpk, aliceKem ((aliceCli.ctx []).path (utf8 "kem_pk.bin")) = some kpk →
    xorKem.Matches kpk kemPair.sk := by
  intro kpk here
  cases aliceKem_pk.symm.trans here
  exact kemPair.pair

theorem hello_stores : Stores xorKem tagAead Go.formatInt aliceCli offline.draft aliceKem hello := by
  obtain ⟨text, here, fits⟩ := (Option.any_eq_true _ _).mp helloText_short
  obtain ⟨encKey, wrapped, here⟩ := Option.bind_eq_some_iff.mp here
  obtain ⟨sealed, fields, printed⟩ := Option.bind_eq_some_iff.mp here
  have key : shyakeSelfencBegin xorKem (aliceCli.ctx []) aliceKem offline.draft = some (noteKey, encKey) :=
    shyakeSelfencBegin_iff.mpr ⟨kemPair.pk, [], aliceKem_pk, rfl, rfl, wrapped⟩
  have none : aliceKem (draftPath alice.configDir (utf8 "1")) = Option.none := by
    unfold aliceKem
    rw [Function.update_of_ne (by decide), Function.update_of_ne (by decide)]
  have opened : openDraft aliceCli.configDir aliceKem offline.draft Option.none =
      some (utf8 "1", draftPath alice.configDir (utf8 "1")) := by
    have one : Go.formatInt (offline.draft.maxId + 1) = utf8 "1" := by decide
    unfold openDraft
    dsimp only
    unfold newDraft
    dsimp only
    rw [one, show aliceKem (draftPath aliceCli.configDir (utf8 "1")) = Option.none from none]
    rfl
  refine ⟨rfl, by decide, by rw [key]; rfl, ⟨rfl, rfl, rfl, rfl⟩, by rw [opened]; rfl, rfl, ?_⟩
  intro symKey encKey' sealed' id path key' fields' opened'
  cases key.symm.trans key'
  cases opened.symm.trans opened'
  cases fields.symm.trans fields'
  exact ⟨text, printed, of_decide_eq_true fits⟩

theorem hello_short : hello.Short := by
  refine ⟨by decide, by decide, ?_, by decide⟩
  rintro _ ⟨⟩
  exact ⟨by decide, by decide⟩

/-- A reply for which there is no way to the server is in a draft. -/
theorem hello_kept : InNewDraft plainKdf (fun _ => tagAead) xorKem tagAead id aliceCli [] hello aliceKem
    (helloCommand.run plainKdf (fun _ => tagAead) xorKem tagAead Go.formatInt (CJson.parser id) aliceCli offline
      aliceKem).files :=
  (kept_iff prints_formatInt holds_id hello_intended hello_short hello_stores aliceKem_sk aliceKem_own).1.mpr
    ⟨⟨by rintro _ ⟨⟩; decide, rfl, rfl, nofun⟩, ⟨by decide, by decide, by decide⟩⟩

end Sample

end Shyake.Client
