import Shyake.Client.Cli.Config
import Shyake.Client.Cli.Compose
import Shyake.Client.Cli.Subject
import Shyake.Client.Rotations

/-!
# Sending, replying and composing (`main.c`)

The commands that write drafts and send them. What the network, the user and the disk do with a command
is given. Beside the files that it leaves, a command says which drafts it has written for which mail and
what it has given to `shyake_send` and `shyake_send_reply`.
-/

namespace Shyake.Client

/-- What is read of the mail that a reply answers. -/
structure Answered where
  sender : CString
  recipient : CString
  subject : Option CString
  body : Option CString
  ref : Option CString

/-- `shyake_reply_recipient`. -/
def shyakeReplyRecipient (username : Bytes) (d : Answered) : CString :=
  if d.sender.1 = username then d.recipient else d.sender

/-- What is given to `shyake_send`, or with a reference to `shyake_send_reply`. -/
structure Transmission where
  recipient : Bytes
  replyRef : Option Bytes
  subject : Bytes
  body : Bytes

inductive Done where
  /-- The file of a draft is written, as a reply to a mail or as no reply. -/
  | writes (path : Bytes) (answered : Option Answered)
  /-- It is written again, as the reply that it is. -/
  | edits (path : Bytes)
  /-- A mail is given away, out of the file of a draft or not. -/
  | sends (path : Option Bytes) (mail : Transmission)

/-- How a command ends. -/
structure Outcome where
  /-- `EXIT_SUCCESS`. -/
  success : Bool
  done : List Done
  files : Files

def Outcome.failure (files : Files) : Outcome := ⟨false, [], files⟩

/-- One thing after the other, the second out of the files of the first. -/
def Outcome.andThen (first : Outcome) (next : Files → Outcome) : Outcome :=
  let second := next first.files
  ⟨second.success, first.done ++ second.done, second.files⟩

/-- The configuration of the commands. -/
structure Cli where
  configDir : Bytes
  cfg : AppConfig

/-- The context, unlocked with a passphrase. -/
def Cli.ctx (cli : Cli) (passphrase : Bytes) : Ctx where
  configDir := cli.configDir
  username := cli.cfg.username.getD []
  passphrase := passphrase
  newPassphrase := []

/-- INSTANCE and USERNAME are there. -/
def Cli.configured (cli : Cli) : Bool := cli.cfg.instanceUrl.isSome && cli.cfg.username.isSome

/-- What the calls of a command come to. -/
structure CommandCalls where
  /-- What `prompt_passphrase` sets; `none` when it fails. -/
  prompt : Option Bytes
  /-- What the context holds of the last error, when a draft is read. -/
  lastError : Bytes
  draft : DraftCalls
  sent : ShyakeErr
  /-- `ask_yes`. -/
  yes : Bool
  unlinks : Bool
  editor : Bytes
  temp : Bytes → Bool
  launch : Bytes → Option Bytes → Edited
  /-- `cli_format_timestamp`. -/
  date : Bytes

variable (kdf : Kdf) (keyAead : Bytes → Aead) (kem : Kem) (aead : Aead) (printG : Int → Bytes)
  (parser : JsonParser) (cli : Cli) (calls : CommandCalls)

/-! ## Saving -/

/-- Whether `cli_save_draft` returns `SHYAKE_OK`. -/
def isSaved (r : Option SavedDraft) : Bool := r.any fun r => r.err == .OK

/-- That a draft has been written, if it has. -/
def written (as : Bytes → Done) (target : Option Bytes) (files : Files) (r : Option SavedDraft) :
    List Done :=
  match openDraft cli.configDir files calls.draft target with
  | some (_, path) => if isSaved r then [as path] else []
  | none => []

/-- `rescue_draft`, for the text of a mail or of an answer. -/
def rescueDraft (passphrase : Bytes) (answered : Option Answered) (recipient subject : CString)
    (replyRef : Option CString) (body : Bytes) (files : Files) : Outcome :=
  let (r, files') := cliSaveDraft kem aead printG parser (cli.ctx passphrase) calls.draft (some recipient)
    (some subject) replyRef body none files
  ⟨false, written cli calls (.writes · answered) none files r, files'⟩

/-- `cli_delete_draft` after a mail is sent. -/
def deleteSent (draftId : Bytes) (files : Files) : Files :=
  if calls.sent = .OK then (cliDeleteDraft cli.configDir draftId calls.unlinks files).2 else files

/-- `offer_reply_send`. -/
def offerReplySend (passphrase : Bytes) (draftId recipient : Bytes) (files : Files) : Outcome :=
  if calls.yes = false then ⟨true, [], files⟩
  else
    match cliReadDraft kdf keyAead kem aead parser (cli.ctx passphrase) calls.lastError
        (cli.cfg.username.getD []) draftId files with
    | .error _ => .failure files
    | .ok d =>
      match d.body, d.replyRef with
      | some body, some replyRef =>
        if (subjectProblem d.subject).isSome then .failure files
        else ⟨calls.sent == .OK, [.sends (some (draftPath cli.configDir draftId))
          ⟨recipient, some replyRef, d.subject.getD [], body⟩], deleteSent cli calls draftId files⟩
      | _, _ => .failure files

/-! ## send -/

/-- `send -d`. -/
def sendDraft (recipient subject : Option CString) (draftId : Bytes) (files : Files) : Outcome :=
  if cli.configured = false then .failure files
  else
    match calls.prompt with
    | none => .failure files
    | some passphrase =>
      match cliReadDraft kdf keyAead kem aead parser (cli.ctx passphrase) calls.lastError
          (cli.cfg.username.getD []) draftId files with
      | .error _ => .failure files
      | .ok d =>
        match d.body with
        | none => .failure files
        | some body =>
          -- a reply goes where its draft says
          if d.replyRef.isSome ∧ recipient.any (fun r => d.recipient.any (· ≠ r.1)) then .failure files
          else
            let recipient := (recipient.map (·.1)).or (d.recipient.filter (· ≠ []))
            let subject := (subject.map (·.1)).or (d.subject.filter (· ≠ []))
            match recipient, subject with
            | some recipient, some subject =>
              if subject.length > 128 then .failure files
              else ⟨calls.sent == .OK, [.sends (some (draftPath cli.configDir draftId))
                ⟨recipient, d.replyRef, subject, body⟩], deleteSent cli calls draftId files⟩
            | _, _ => .failure files

/-- The subject that is cut from the first line of a text, and the rest. -/
def extractSubject (text : Bytes) : CString × Bytes :=
  let line := text.takeWhile (· ≠ 10)
  let line := if line.getLast? = some 13 then line.dropLast else line
  (toCString line, (text.dropWhile (· ≠ 10)).drop 1)

/-- What is sent of what is read: its subject, and its body. -/
def sendText (subject : Option CString) (text : Bytes) : CString × Bytes :=
  match subject with
  | some subject => (subject, text)
  | none => extractSubject text

/-- `send`, of the text of a file or of standard input, if it can be read. -/
def sendFile (recipient : Option CString) (subject : Option CString) (text : Option Bytes)
    (files : Files) : Outcome :=
  match recipient, text with
  | some recipient, some text =>
    let (subject, body) := sendText subject text
    if (subjectProblem (some subject.1)).isSome then .failure files
    else if cli.configured = false then .failure files
    else
      match calls.prompt with
      | none => .failure files
      | some passphrase =>
        let mail := .sends none ⟨recipient.1, none, subject.1, body⟩
        if calls.sent = .OK then ⟨true, [mail], files⟩
        else
          -- what the user wrote is kept
          Outcome.andThen ⟨false, [mail], files⟩
            (rescueDraft kem aead printG parser cli calls passphrase none recipient subject none body)
  | _, _ => .failure files

/-! ## reply -/

/-- `reply -d`: a stored draft is turned into the reply. -/
def replyDraft (passphrase : Bytes) (orig : Answered) (recipient ref : CString) (subject : Option CString)
    (draftId : Bytes) (files : Files) : Outcome :=
  match cliReadDraft kdf keyAead kem aead parser (cli.ctx passphrase) calls.lastError
      (cli.cfg.username.getD []) draftId files with
  | .error _ => .failure files
  | .ok d =>
    match d.body with
    | none => .failure files
    | some body =>
      let sub := if (d.subject.filter (· ≠ [])).isSome ∧ (subjectProblem d.subject).isNone then
        d.subject.map toCString else subject
      let (r, files') := cliSaveDraft kem aead printG parser (cli.ctx passphrase) calls.draft
        (some recipient) sub (some ref) body (some draftId) files
      if isSaved r then
        Outcome.andThen ⟨true, written cli calls (.writes · (some orig)) (some draftId) files r, files'⟩
          (offerReplySend kdf keyAead kem aead parser cli calls passphrase draftId recipient.1)
      else .failure files'

/-- `reply` with a text from a file or a pipe, which is sent at once. -/
def replyDirect (passphrase : Bytes) (orig : Answered) (recipient ref : CString) (subject : Option CString)
    (body : Bytes) (files : Files) : Outcome :=
  match subject with
  | none => .failure files
  | some subject =>
    let mail := .sends none ⟨recipient.1, some ref.1, subject.1, body⟩
    if calls.sent = .OK then ⟨true, [mail], files⟩
    else
      Outcome.andThen ⟨false, [mail], files⟩
        (rescueDraft kem aead printG parser cli calls passphrase (some orig) recipient subject (some ref) body)

def Answered.shown (d : Answered) : MailShown where
  sender := d.sender.1
  recipient := d.recipient.1
  subject := d.subject.map (·.1)
  body := d.body.map (·.1)

/-- What `edit_draft` returns of a template, beside the mail that is answered. -/
def edit (initial : Bytes) (orig : Option Answered) : Option Bytes :=
  (editDraft calls.editor calls.temp calls.launch initial
    (orig.map fun orig => formatOriginal orig.shown calls.date)).bind (·.text)

/-- `save_edited_draft`, with the id of a new draft. -/
def saveEdited (passphrase : Bytes) (as : Bytes → Done) (replyRef : Option CString)
    (replyTo target : Option Bytes) (buf : Bytes) (files : Files) : Outcome × Option Bytes :=
  match saveEditedDraft kem aead printG parser (cli.ctx passphrase) calls.draft buf replyRef replyTo target
      files with
  | .error _ => (.failure files, none)
  | .ok (r, files') =>
    (⟨isSaved r, written cli calls as target files r, files'⟩,
      if isSaved r then r.bind (·.outId) else none)

/-- `reply` in the editor. -/
def replyEdited (passphrase : Bytes) (orig : Answered) (recipient ref : CString) (subject : Option CString)
    (files : Files) : Outcome :=
  match edit calls (replyTemplate ((subject.map (·.1)).getD [])) (some orig) with
  | none => .failure files
  | some buf =>
    let (saved, newId) := saveEdited kem aead printG parser cli calls passphrase (.writes · (some orig))
      (some ref) (some recipient.1) none buf files
    match newId with
    | none => saved
    | some newId =>
      saved.andThen (offerReplySend kdf keyAead kem aead parser cli calls passphrase newId recipient.1)

/-- Where the text of a reply is. -/
inductive ReplyText where
  /-- In the draft of `-d`. -/
  | draft (draftId : Bytes)
  /-- In a file or a pipe, `none` when it cannot be read. -/
  | direct (body : Option Bytes)
  | editor

/-- `reply`, to a mail that is fetched or not. -/
def reply (orig : Option Answered) (subject : Option CString) (text : ReplyText) (files : Files) :
    Outcome :=
  if subject.any (fun s => (subjectProblem (some s.1)).isSome) then .failure files
  else if cli.configured = false then .failure files
  else
    match text, calls.prompt, orig with
    | .direct none, _, _ => .failure files
    | text, some passphrase, some orig =>
      match orig.ref with
      | none => .failure files
      | some ref =>
        let recipient := shyakeReplyRecipient (cli.cfg.username.getD []) orig
        let subject := subject.or (orig.subject.bind fun s => (replySubject s.1).map toCString)
        match text with
        | .draft draftId =>
          replyDraft kdf keyAead kem aead printG parser cli calls passphrase orig recipient ref subject
            draftId files
        | .direct body =>
          replyDirect kem aead printG parser cli calls passphrase orig recipient ref subject
            (body.getD []) files
        | .editor =>
          replyEdited kdf keyAead kem aead printG parser cli calls passphrase orig recipient ref subject
            files
    | _, _, _ => .failure files

/-! ## compose -/

/-- `compose`, of a new draft. Nothing is asked for. -/
def composeNew (files : Files) : Outcome :=
  match edit calls (utf8 "To: \nSubject: \n---\n") none with
  | none => .failure files
  | some buf => (saveEdited kem aead printG parser cli calls [] (.writes · none) none none none buf files).1

/-- `compose <id>`. A reply keeps its recipient and its reference; beside it is the mail that it
answers, if that is found. -/
def composeDraft (draftId : Bytes) (shown : Option Answered) (files : Files) : Outcome :=
  match calls.prompt with
  | none => .failure files
  | some passphrase =>
    match cliReadDraft kdf keyAead kem aead parser (cli.ctx passphrase) calls.lastError
        (cli.cfg.username.getD []) draftId files with
    | .error _ => .failure files
    | .ok d =>
      match d.body with
      | none => .failure files
      | some body =>
        let recipient := d.recipient.getD []
        let sub := d.subject.getD []
        match d.replyRef with
        | some replyRef =>
          match edit calls (replyDraftTemplate recipient sub body) shown with
          | none => .failure files
          | some buf => (saveEdited kem aead printG parser cli calls passphrase .edits
              (some (toCString replyRef)) (some recipient) (some draftId) buf files).1
        | none =>
          match edit calls (composeTemplate recipient sub body) none with
          | none => .failure files
          | some buf => (saveEdited kem aead printG parser cli calls passphrase (.writes · none) none none
              (some draftId) buf files).1

/-! ## Runs -/

inductive Command where
  | sendDraft (recipient subject : Option CString) (draftId : Bytes)
  | sendFile (recipient subject : Option CString) (text : Option Bytes)
  | reply (orig : Option Answered) (subject : Option CString) (text : ReplyText)
  | composeNew
  | composeDraft (draftId : Bytes) (shown : Option Answered)

def Command.run (calls : CommandCalls) (files : Files) : Command → Outcome
  | sendDraft recipient subject draftId =>
    Client.sendDraft kdf keyAead kem aead parser cli calls recipient subject draftId files
  | sendFile recipient subject text =>
    Client.sendFile kem aead printG parser cli calls recipient subject text files
  | reply orig subject text =>
    Client.reply kdf keyAead kem aead printG parser cli calls orig subject text files
  | composeNew => Client.composeNew kem aead printG parser cli calls files
  | composeDraft draftId shown =>
    Client.composeDraft kdf keyAead kem aead printG parser cli calls draftId shown files

/-- One command after the other: what is done, and the files then. -/
def runCommands : List (Command × CommandCalls) → Files → List Done × Files
  | [], files => ([], files)
  | (command, calls) :: rest, files =>
    let first := command.run kdf keyAead kem aead printG parser cli calls files
    let (done, files) := runCommands rest first.files
    (first.done ++ done, files)

end Shyake.Client
