import Shyake.Client.DraftBytes
import Shyake.Client.Readers

/-!
# Drafts across rotations

A draft is sealed to the key that is there when it is saved. `shyake_rotate` puts another in its place
and seals nothing anew, so that a draft can be read for as long as no rotation succeeds, and cannot be
from the first one that does.
-/

namespace Shyake.Client

open CJson (printUnformatted PrintsShort HoldsShort)

variable (kdf : Kdf) (keyAead : Bytes → Aead) (kem : Kem) (aead : Aead) (sig : Sig) (printG : Int → Bytes)
  (parser : JsonParser)

/-! ## shyake_save_mail, cli_delete_draft -/

/-- The file of a saved mail. -/
def savedPath (configDir mailId : Bytes) : Bytes :=
  snprintf 640 (configDir ++ utf8 "/saved/" ++ mailId ++ utf8 ".json")

/-- What the calls of `shyake_save_mail` come to. -/
structure SaveMailCalls where
  /-- The directory is there, or can be made. -/
  dir : Bool
  curl : Bool
  signing : Signing
  /-- The HTTP code and the body, or `none` when there is no answer. -/
  answer : Option (Nat × Bytes)
  opens : Bool
  /-- How many bytes `fputs` writes before it stops. -/
  written : Nat

def shyakeSaveMail (ctx : Ctx) (calls : SaveMailCalls) (mailId : Bytes) (files : Files) :
    ShyakeErr × Files :=
  if calls.dir = false then (.ERR, files)
  else if calls.curl = false then (.ERR, files)
  else
    let endpoint := snprintf 128 (utf8 "/api/mail/" ++ mailId)
    match createSignedHeadersBody kdf keyAead sig calls.signing ctx files (utf8 "GET") endpoint none with
    | none => (.ERR, files)
    | some _ =>
      match calls.answer with
      | none => (.ERR_NETWORK, files)
      | some (code, data) =>
        if code = 200 then
          if calls.opens then
            (.OK, Function.update files (savedPath ctx.configDir mailId)
              (some ((Client.cstr data).take calls.written)))
          else (.ERR, files)
        else (if code = 404 then .ERR_NOT_FOUND else .ERR_HTTP, files)

/-- `cli_delete_draft`, where `unlinks` says whether a file that is there can be taken out. -/
def cliDeleteDraft (configDir draftId : Bytes) (unlinks : Bool) (files : Files) : ShyakeErr × Files :=
  let path := draftPath configDir draftId
  if (files path).isNone then (.ERR_NOT_FOUND, files)
  else if unlinks then (.OK, Function.update files path none)
  else (.ERR, files)

/-! ## The files of a user -/

/-- Whose files they are. -/
structure Holder where
  configDir : Bytes
  username : Bytes

/-- The files, and the passphrase that the secret keys are stored under. -/
structure Local where
  files : Files
  passphrase : Bytes

def Holder.ctx (o : Holder) (l : Local) (newPassphrase : Bytes) : Ctx where
  configDir := o.configDir
  username := o.username
  passphrase := l.passphrase
  newPassphrase := newPassphrase

inductive LocalItem where
  | draft (draftId : Bytes)
  | saved (mailId : Bytes)

def LocalItem.path (configDir : Bytes) : LocalItem → Bytes
  | draft draftId => draftPath configDir draftId
  | saved mailId => savedPath configDir mailId

/-- What `cli_read_draft` makes of a draft, and `shyake_read_saved` of a saved mail. -/
def LocalItem.content (o : Holder) (l : Local) :
    LocalItem → Except Bytes Draft ⊕ Routine (Option MailDetail)
  | draft draftId =>
    .inl (cliReadDraft kdf keyAead kem aead parser (o.ctx l []) [] o.username draftId l.files)
  | saved mailId =>
    .inr (Calls.shyakeReadSaved aead kdf keyAead (o.ctx l []) l.files mailId
      ((l.files (savedPath o.configDir mailId)).map parser.parse))

/-! ## What changes them -/

/-- A save is of a new draft, or over one that is edited. -/
inductive LocalEvent where
  | saveDraft (calls : DraftCalls) (recipient subject replyRef : Option CString) (body : Bytes)
      (draftId : Option Bytes)
  | deleteDraft (draftId : Bytes) (unlinks : Bool)
  | saveMail (calls : SaveMailCalls) (mailId : Bytes)
  | rotate (calls : RotateCalls kem sig) (newPassphrase : Bytes)

variable {kem sig} in
/-- The event goes by. The user unlocks new keys with the new passphrase. -/
def LocalEvent.run (o : Holder) (l : Local) : LocalEvent kem sig → Local
  | saveDraft calls recipient subject replyRef body draftId =>
    { l with files := (cliSaveDraft kem aead printG parser (o.ctx l []) calls recipient subject replyRef
        body draftId l.files).2 }
  | deleteDraft draftId unlinks =>
    { l with files := (cliDeleteDraft o.configDir draftId unlinks l.files).2 }
  | saveMail calls mailId =>
    { l with files := (shyakeSaveMail kdf keyAead sig (o.ctx l []) calls mailId l.files).2 }
  | rotate calls newPassphrase =>
    match shyakeRotate kdf keyAead kem sig printG (o.ctx l newPassphrase) calls l.files with
    | (.OK, files) => ⟨files, newPassphrase⟩
    | (_, files) => { l with files }

variable {kem sig} in
/-- The rotation succeeds. -/
def LocalEvent.Rotates (o : Holder) (l : Local) : LocalEvent kem sig → Prop
  | rotate calls newPassphrase =>
    (shyakeRotate kdf keyAead kem sig printG (o.ctx l newPassphrase) calls l.files).1 = .OK
  | _ => False

variable {kem sig} in
/-- A file that may be written: that of the draft or the mail, or one that is not there. -/
def LocalEvent.Writes (o : Holder) (l : Local) (path : Bytes) : LocalEvent kem sig → Prop
  | saveDraft _ _ _ _ _ (some draftId) => path = draftPath o.configDir draftId
  | saveDraft _ _ _ _ _ none => l.files path = none ∧ ∃ draftId, path = draftPath o.configDir draftId
  | deleteDraft draftId _ => path = draftPath o.configDir draftId
  | saveMail _ mailId => path = savedPath o.configDir mailId
  | rotate _ _ => False

variable {kem sig} in
/-- One event after the other. -/
def runLocal (o : Holder) (l : Local) (events : List (LocalEvent kem sig)) : Local :=
  events.foldl (fun l e => e.run kdf keyAead aead printG parser o l) l

variable {kem sig} in
/-- Of every event, where it goes by. -/
def Throughout (o : Holder) (p : Local → LocalEvent kem sig → Prop) :
    Local → List (LocalEvent kem sig) → Prop
  | _, [] => True
  | l, e :: events => p l e ∧ Throughout o p (e.run kdf keyAead aead printG parser o l) events

/-! ## Paths -/

/-- A file of the directory is none of a directory in it: the names differ, or where they are cut off,
the lengths. -/
theorem path_ne_sub (ctx : Ctx) {c d : UInt8} (apart : c ≠ d) (name : Bytes) {rest : Bytes}
    (filled : rest ≠ []) :
    ctx.path (c :: name) ≠ snprintf 640 (ctx.configDir ++ 47 :: d :: rest) := by
  intro same
  have more := List.length_pos_of_ne_nil filled
  unfold Ctx.path snprintf at same
  by_cases short : ctx.configDir.length ≤ 509
  · have at_ := congrArg (·[ctx.configDir.length + 1]?) same
    rw [List.getElem?_take_of_lt (by omega), List.getElem?_take_of_lt (by omega),
      List.getElem?_append_right (by omega), List.getElem?_append_right (by omega),
      Nat.add_sub_cancel_left] at at_
    exact apart (Option.some.inj at_)
  · have lengths := congrArg List.length same
    simp only [List.length_take, List.length_append, List.length_cons] at lengths
    omega

theorem draftPath_eq (configDir id : Bytes) : draftPath configDir id =
    snprintf 640 (configDir ++ 47 :: 100 :: (utf8 "rafts/" ++ id ++ utf8 ".json")) := by
  have name : utf8 "/drafts/" = 47 :: 100 :: utf8 "rafts/" := by decide
  simp [draftPath, name]

theorem savedPath_eq (configDir id : Bytes) : savedPath configDir id =
    snprintf 640 (configDir ++ 47 :: 115 :: (utf8 "aved/" ++ id ++ utf8 ".json")) := by
  have name : utf8 "/saved/" = 47 :: 115 :: utf8 "aved/" := by decide
  simp [savedPath, name]

/-- The KEM keys are no draft and no saved mail. -/
theorem LocalItem.path_ne_kem (ctx : Ctx) (name : Bytes) (item : LocalItem) :
    ctx.path (107 :: name) ≠ item.path ctx.configDir := by
  have filled : utf8 ".json" ≠ [] := by decide
  cases item with
  | draft id =>
    rw [LocalItem.path, draftPath_eq]
    exact path_ne_sub ctx (by decide) name (List.append_ne_nil_of_right_ne_nil _ filled)
  | saved mailId =>
    rw [LocalItem.path, savedPath_eq]
    exact path_ne_sub ctx (by decide) name (List.append_ne_nil_of_right_ne_nil _ filled)

/-! ## One event -/

/-- The number of a new draft is one of a hundred, and its file is not there. -/
theorem newDraft_spec {configDir : Bytes} {files : Files} {opens : Bool} {tries : Nat} {id : Int}
    {shown path : Bytes} (h : newDraft configDir files opens tries id = some (shown, path)) :
    ∃ n : Int, id ≤ n ∧ n < id + tries ∧ shown = snprintf 32 (Go.formatInt n) ∧
      path = draftPath configDir (Go.formatInt n) ∧ files path = none := by
  induction tries generalizing id with
  | zero => cases h
  | succ tries ih =>
    unfold newDraft at h
    dsimp only at h
    split at h
    · obtain ⟨n, above, below, rest⟩ := ih h
      exact ⟨n, by omega, by omega, rest⟩
    · rename_i absent
      split at h
      · cases h
        exact ⟨id, le_refl id, by omega, rfl, rfl, by simpa using absent⟩
      · cases h

section

variable {kem aead printG parser} {ctx : Ctx} {calls : DraftCalls}
  {recipient subject replyRef : Option CString} {body : Bytes} {target : Option Bytes} {files : Files}

/-- A save leaves the files, or cuts the one that it opens, or writes as much of the JSON there as it
can. Only then does it return `SHYAKE_OK`. -/
theorem cliSaveDraft_cases {r : Option SavedDraft} {files' : Files}
    (saved : cliSaveDraft kem aead printG parser ctx calls recipient subject replyRef body target files =
      (r, files')) :
    (∀ d ∈ r, d.err ≠ .OK) ∧ (files' = files ∨ ∃ id path,
      openDraft ctx.configDir files calls target = some (id, path) ∧
        files' = Function.update files path (some [])) ∨
    ∃ created symKey encKey sealed id path text,
      draftCreated parser ctx.configDir files calls target = some created ∧
      shyakeSelfencBegin kem ctx files calls = some (symKey, encKey) ∧
      sealDraft aead calls symKey encKey recipient subject replyRef body = some sealed ∧
      openDraft ctx.configDir files calls target = some (id, path) ∧
      printUnformatted printG (draftObj id created calls.now body.length sealed) = some text ∧
      r = some ⟨.OK, [], some id⟩ ∧
      files' = Function.update files path (some (text.take calls.written)) := by
  unfold cliSaveDraft at saved
  split at saved
  · cases saved
    exact .inl ⟨by rintro _ ⟨⟩; exact nofun, .inl rfl⟩
  split at saved
  · cases saved
    exact .inl ⟨by rintro _ ⟨⟩; exact nofun, .inl rfl⟩
  cases times : draftCreated parser ctx.configDir files calls target with
  | none =>
    rw [times] at saved
    cases saved
    exact .inl ⟨by rintro _ ⟨⟩; exact nofun, .inl rfl⟩
  | some created =>
  rw [times] at saved
  dsimp only at saved
  cases key : shyakeSelfencBegin kem ctx files calls with
  | none =>
    rw [key] at saved
    cases saved
    exact .inl ⟨by rintro _ ⟨⟩; exact nofun, .inl rfl⟩
  | some keys =>
  obtain ⟨symKey, encKey⟩ := keys
  rw [key] at saved
  dsimp only at saved
  cases fields : sealDraft aead calls symKey encKey recipient subject replyRef body with
  | none =>
    rw [fields] at saved
    cases saved
    exact .inl ⟨by rintro _ ⟨⟩; exact nofun, .inl rfl⟩
  | some sealed =>
  rw [fields] at saved
  dsimp only at saved
  cases opened : openDraft ctx.configDir files calls target with
  | none =>
    rw [opened] at saved
    cases saved
    exact .inl ⟨by rintro _ ⟨⟩; exact nofun, .inl rfl⟩
  | some file =>
  obtain ⟨id, path⟩ := file
  rw [opened] at saved
  dsimp only at saved
  split at saved
  · cases saved
    exact .inl ⟨by rintro _ ⟨⟩; exact nofun, .inr ⟨id, path, rfl, rfl⟩⟩
  cases printed : printUnformatted printG (draftObj id created calls.now body.length sealed) with
  | none =>
    rw [printed] at saved
    cases saved
    exact .inl ⟨nofun, .inr ⟨id, path, rfl, rfl⟩⟩
  | some text =>
    rw [printed] at saved
    dsimp only at saved
    cases saved
    exact .inr ⟨created, symKey, encKey, sealed, id, path, text, rfl, rfl, fields, rfl, printed, rfl,
      Function.update_idem ..⟩

/-- A save writes no file but the one that it opens. -/
theorem cliSaveDraft_frame {p : Bytes}
    (other : ∀ id, openDraft ctx.configDir files calls target ≠ some (id, p)) :
    (cliSaveDraft kem aead printG parser ctx calls recipient subject replyRef body target files).2 p =
      files p := by
  cases saved : cliSaveDraft kem aead printG parser ctx calls recipient subject replyRef body target
    files with
  | mk r files' =>
  have apart {id path : Bytes} (opened : openDraft ctx.configDir files calls target = some (id, path)) :
      p ≠ path := by
    rintro rfl
    exact other id opened
  rcases cliSaveDraft_cases saved with ⟨-, rfl | ⟨id, path, opened, rfl⟩⟩ | ⟨_, _, _, _, id, path, _, _, _, _,
    opened, _, _, rfl⟩
  · rfl
  · exact Function.update_of_ne (apart opened) _ _
  · exact Function.update_of_ne (apart opened) _ _

end

theorem shyakeSaveMail_frame {ctx : Ctx} {calls : SaveMailCalls} {mailId p : Bytes} {files : Files}
    (other : p ≠ savedPath ctx.configDir mailId) :
    (shyakeSaveMail kdf keyAead sig ctx calls mailId files).2 p = files p := by
  unfold shyakeSaveMail
  split
  · rfl
  split
  · rfl
  dsimp only
  split
  · rfl
  split
  · rfl
  split
  · split
    · exact Function.update_of_ne other _ _
    · rfl
  · rfl

theorem cliDeleteDraft_frame {configDir draftId p : Bytes} {unlinks : Bool} {files : Files}
    (other : p ≠ draftPath configDir draftId) :
    (cliDeleteDraft configDir draftId unlinks files).2 p = files p := by
  unfold cliDeleteDraft
  dsimp only
  split
  · rfl
  split
  · exact Function.update_of_ne other _ _
  · rfl

variable {kem sig}

/-- A rotation that fails leaves the files. -/
theorem shyakeRotate_failed {ctx : Ctx} {calls : RotateCalls kem sig} {files : Files}
    (failed : (shyakeRotate kdf keyAead kem sig printG ctx calls files).1 ≠ .OK) :
    (shyakeRotate kdf keyAead kem sig printG ctx calls files).2 = files := by
  generalize run : shyakeRotate kdf keyAead kem sig printG ctx calls files = r at *
  obtain ⟨err, files'⟩ := r
  unfold shyakeRotate at run
  split at run
  · cases run
    rfl
  split at run
  · cases run
    rfl
  dsimp only at run
  split at run
  · cases run
    rfl
  split at run
  · cases run
    rfl
  split at run
  · cases run
    exact absurd rfl failed
  · cases run
    rfl

variable {kdf keyAead aead printG parser} {o : Holder} {l : Local}

variable (aead parser) in
/-- What is not written is kept. -/
theorem LocalEvent.run_frame {e : LocalEvent kem sig} (quiet : ¬ e.Rotates kdf keyAead printG o l) :
    (e.run kdf keyAead aead printG parser o l).passphrase = l.passphrase ∧
      ∀ p, ¬ e.Writes o l p → (e.run kdf keyAead aead printG parser o l).files p = l.files p := by
  cases e with
  | saveDraft calls recipient subject replyRef body draftId =>
    refine ⟨rfl, fun p other => cliSaveDraft_frame fun id opened => other ?_⟩
    cases draftId with
    | some draftId =>
      unfold openDraft at opened
      dsimp only at opened
      split at opened
      · cases opened
        rfl
      · cases opened
    | none =>
      obtain ⟨n, -, -, -, path, absent⟩ := newDraft_spec opened
      exact ⟨absent, _, path⟩
  | deleteDraft draftId unlinks => exact ⟨rfl, fun _ other => cliDeleteDraft_frame other⟩
  | saveMail calls mailId => exact ⟨rfl, fun _ other => shyakeSaveMail_frame kdf keyAead sig other⟩
  | rotate calls newPassphrase =>
    have files := shyakeRotate_failed kdf keyAead printG quiet
    have failed : (shyakeRotate kdf keyAead kem sig printG (o.ctx l newPassphrase) calls l.files).1 ≠ .OK :=
      quiet
    unfold LocalEvent.run
    dsimp only
    generalize shyakeRotate kdf keyAead kem sig printG (o.ctx l newPassphrase) calls l.files = r at *
    obtain ⟨err, files'⟩ := r
    obtain rfl : files' = l.files := files
    cases err with
    | OK => exact absurd rfl failed
    | _ => exact ⟨rfl, fun _ _ => rfl⟩

theorem kemName : utf8 "kem_sk.bin" = 107 :: utf8 "em_sk.bin" ∧
    utf8 "kem_pk.bin" = 107 :: utf8 "em_pk.bin" := by decide

/-- No save writes the KEM keys that are there. -/
theorem LocalEvent.not_writes_kem (e : LocalEvent kem sig) (ctx : Ctx) (dir : ctx.configDir = o.configDir)
    (name : Bytes) : ¬ e.Writes o l (ctx.path (107 :: name)) := by
  have draft (id : Bytes) : ctx.path (107 :: name) ≠ draftPath o.configDir id := by
    rw [← dir]
    exact (LocalItem.draft id).path_ne_kem ctx name
  have saved (id : Bytes) : ctx.path (107 :: name) ≠ savedPath o.configDir id := by
    rw [← dir]
    exact (LocalItem.saved id).path_ne_kem ctx name
  intro writes
  cases e with
  | saveDraft calls recipient subject replyRef body draftId =>
    cases draftId with
    | some draftId => exact draft draftId writes
    | none =>
      obtain ⟨-, id, path⟩ := writes
      exact draft id path
  | deleteDraft draftId unlinks => exact draft draftId writes
  | saveMail calls mailId => exact saved mailId writes
  | rotate calls newPassphrase => exact writes

/-- What is read of an item depends on its own file, the secret key and the passphrase. -/
theorem LocalItem.content_congr {l' : Local} (item : LocalItem) (passphrase : l'.passphrase = l.passphrase)
    (file : l'.files (item.path o.configDir) = l.files (item.path o.configDir))
    (key : l'.files ((o.ctx l []).path (utf8 "kem_sk.bin")) =
      l.files ((o.ctx l []).path (utf8 "kem_sk.bin"))) :
    item.content kdf keyAead kem aead parser o l' = item.content kdf keyAead kem aead parser o l := by
  have ctx : o.ctx l' [] = o.ctx l [] := by
    unfold Holder.ctx
    rw [passphrase]
  have loaded : Calls.loadKsk kdf keyAead (o.ctx l []) l'.files =
      Calls.loadKsk kdf keyAead (o.ctx l []) l.files := by
    unfold Calls.loadKsk loadSkDecrypted
    rw [key]
  cases item with
  | draft id =>
    have here : l'.files (draftPath (o.ctx l []).configDir id) =
        l.files (draftPath (o.ctx l []).configDir id) := file
    unfold LocalItem.content cliReadDraft parseDraftJson
    dsimp only
    rw [ctx, here, loaded]
  | saved mailId =>
    have here : l'.files (savedPath o.configDir mailId) = l.files (savedPath o.configDir mailId) := file
    unfold LocalItem.content Calls.shyakeReadSaved Calls.parseSavedJson
    dsimp only
    rw [ctx, here, loaded]

theorem LocalEvent.run_content {e : LocalEvent kem sig} {item : LocalItem}
    (other : ¬ e.Writes o l (item.path o.configDir)) (quiet : ¬ e.Rotates kdf keyAead printG o l) :
    item.content kdf keyAead kem aead parser o (e.run kdf keyAead aead printG parser o l) =
      item.content kdf keyAead kem aead parser o l := by
  obtain ⟨passphrase, kept⟩ := LocalEvent.run_frame aead parser quiet
  refine item.content_congr passphrase (kept _ other) (kept _ ?_)
  rw [kemName.1]
  exact e.not_writes_kem (o.ctx l []) rfl _

/-- An item that is not written is read as before, up to the next rotation. -/
theorem content_of_untouched {item : LocalItem} {events : List (LocalEvent kem sig)}
    (others : Throughout kdf keyAead aead printG parser o
      (fun l e => ¬ e.Writes o l (item.path o.configDir)) l events)
    (quiet : Throughout kdf keyAead aead printG parser o
      (fun l e => ¬ e.Rotates kdf keyAead printG o l) l events) :
    item.content kdf keyAead kem aead parser o (runLocal kdf keyAead aead printG parser o l events) =
      item.content kdf keyAead kem aead parser o l := by
  induction events generalizing l with
  | nil => rfl
  | cons e events ih => exact (ih others.2 quiet.2).trans (LocalEvent.run_content others.1 quiet.1)

/-! ## A rotation that succeeds -/

variable (kdf keyAead printG) in
/-- A rotation that succeeds writes all its files, and the new passphrase opens them. -/
def RotatesWhole (o : Holder) (l : Local) (e : LocalEvent kem sig) : Prop :=
  ∀ calls newPassphrase k s, e = .rotate calls newPassphrase →
    Confirmed kdf keyAead printG (o.ctx l newPassphrase) calls l.files k s →
    Saved (o.ctx l newPassphrase) calls ∧ o.configDir.length ≤ 505 ∧
      Unlocks kdf keyAead newPassphrase newPassphrase k.sk calls.kemSk ∧
      Unlocks kdf keyAead newPassphrase newPassphrase s.sk calls.sigSk

theorem saveKeys_draft {ctx : Ctx} {calls : RotateCalls kem sig} (saved : Saved ctx calls)
    (k : KemPair kem) (s : SigPair sig) (files : Files) (draftId : Bytes) :
    saveKeys kdf keyAead ctx calls k s files (draftPath ctx.configDir draftId) =
      files (draftPath ctx.configDir draftId) := by
  obtain ⟨kemFile, sigFile, made, -⟩ := saveKeys_saved kdf keyAead saved k s files
  have kemPk : utf8 "kem_pk.bin" = 107 :: utf8 "em_pk.bin" := by decide
  have kemSk : utf8 "kem_sk.bin" = 107 :: utf8 "em_sk.bin" := by decide
  have sigPk : utf8 "sig_pk.bin" = 115 :: utf8 "ig_pk.bin" := by decide
  have sigSk : utf8 "sig_sk.bin" = 115 :: utf8 "ig_sk.bin" := by decide
  have filled : utf8 ".json" ≠ [] := by decide
  have apart {c : UInt8} (name : Bytes) (other : c ≠ 100) :
      draftPath ctx.configDir draftId ≠ ctx.path (c :: name) := by
    rw [draftPath_eq]
    exact (path_ne_sub ctx other name (List.append_ne_nil_of_right_ne_nil _ filled)).symm
  rw [made, sigSk, Function.update_of_ne (apart _ (by decide)), sigPk,
    Function.update_of_ne (apart _ (by decide)), kemSk, Function.update_of_ne (apart _ (by decide)),
    kemPk, Function.update_of_ne (apart _ (by decide))]

variable (aead parser) in
/-- What a rotation that succeeds does: there are new keys, which the user goes on with, and the drafts
are what they were. -/
theorem LocalEvent.run_rotates {e : LocalEvent kem sig} (rotates : e.Rotates kdf keyAead printG o l)
    (whole : RotatesWhole kdf keyAead printG o l e) :
    ∃ calls newPassphrase k s, e = .rotate calls newPassphrase ∧ calls.pairs = some (k, s) ∧
      GoesOn kdf keyAead (o.ctx (e.run kdf keyAead aead printG parser o l) newPassphrase) calls k s
        (e.run kdf keyAead aead printG parser o l).files ∧
      ∀ draftId, (e.run kdf keyAead aead printG parser o l).files (draftPath o.configDir draftId) =
        l.files (draftPath o.configDir draftId) := by
  cases e with
  | rotate calls newPassphrase =>
    generalize returned : shyakeRotate kdf keyAead kem sig printG (o.ctx l newPassphrase) calls l.files = r
    obtain ⟨err, files'⟩ := r
    have ok : err = .OK := by
      unfold LocalEvent.Rotates at rotates
      dsimp only at rotates
      rw [returned] at rotates
      exact rotates
    subst ok
    have run : (LocalEvent.rotate calls newPassphrase).run kdf keyAead aead printG parser o l =
        ⟨files', newPassphrase⟩ := by
      unfold LocalEvent.run
      dsimp only
      rw [returned]
    cases pairs : calls.pairs with
    | none =>
      unfold shyakeRotate at returned
      rw [pairs] at returned
      cases returned
    | some keys =>
      obtain ⟨k, s⟩ := keys
      obtain ⟨confirmed, rfl⟩ := (shyakeRotate_ok kdf keyAead printG pairs).mp returned
      obtain ⟨saved, short, unlocksKem, unlocksSig⟩ := whole calls newPassphrase k s rfl confirmed
      rw [run]
      refine ⟨calls, newPassphrase, k, s, rfl, pairs, ?_, saveKeys_draft saved k s l.files⟩
      have again : Saved (o.ctx ⟨saveKeys kdf keyAead (o.ctx l newPassphrase) calls k s l.files,
          newPassphrase⟩ newPassphrase) calls := ⟨saved.kemPk, saved.kemSk, saved.sigPk, saved.sigSk⟩
      exact goesOn_of_saved kdf keyAead again short unlocksKem unlocksSig
  | _ => exact absurd rotates id

/-! ## The keys -/

variable (kdf keyAead kem) in
/-- The two KEM keys can be loaded, and are a pair. -/
def OwnKeys (o : Holder) (l : Local) : Prop :=
  ∃ kpk ksk, l.files ((o.ctx l []).path (utf8 "kem_pk.bin")) = some kpk ∧
    Calls.loadKsk kdf keyAead (o.ctx l []) l.files = .ok ksk ∧ kem.Matches kpk ksk

variable (aead parser) in
/-- The keys are where they were, unless a rotation succeeds. -/
theorem LocalEvent.run_keys {e : LocalEvent kem sig} (quiet : ¬ e.Rotates kdf keyAead printG o l) :
    (e.run kdf keyAead aead printG parser o l).files ((o.ctx l []).path (utf8 "kem_pk.bin")) =
      l.files ((o.ctx l []).path (utf8 "kem_pk.bin")) ∧
    Calls.loadKsk kdf keyAead (o.ctx (e.run kdf keyAead aead printG parser o l) [])
      (e.run kdf keyAead aead printG parser o l).files =
      Calls.loadKsk kdf keyAead (o.ctx l []) l.files := by
  obtain ⟨passphrase, kept⟩ := LocalEvent.run_frame aead parser quiet
  have ctx : o.ctx (e.run kdf keyAead aead printG parser o l) [] = o.ctx l [] := by
    unfold Holder.ctx
    rw [passphrase]
  have pk := kept _ (e.not_writes_kem (o.ctx l []) rfl (utf8 "em_pk.bin"))
  have sk := kept _ (e.not_writes_kem (o.ctx l []) rfl (utf8 "em_sk.bin"))
  rw [← kemName.2] at pk
  rw [← kemName.1] at sk
  refine ⟨pk, ?_⟩
  rw [ctx]
  unfold Calls.loadKsk loadSkDecrypted
  rw [sk]

/-- The keys go on being a pair. -/
theorem LocalEvent.run_ownKeys {e : LocalEvent kem sig} (own : OwnKeys kdf keyAead kem o l)
    (whole : RotatesWhole kdf keyAead printG o l e) :
    OwnKeys kdf keyAead kem o (e.run kdf keyAead aead printG parser o l) := by
  by_cases rotates : e.Rotates kdf keyAead printG o l
  · obtain ⟨calls, newPassphrase, k, s, -, -, goes, -⟩ :=
      LocalEvent.run_rotates aead parser rotates whole
    exact ⟨k.pk, k.sk, goes.kemPk, goes.loadKem, k.pair⟩
  · obtain ⟨kpk, ksk, here, loaded, pair⟩ := own
    obtain ⟨pk, load⟩ := LocalEvent.run_keys aead parser rotates
    exact ⟨kpk, ksk, pk.trans here, load.trans loaded, pair⟩

theorem runLocal_ownKeys {events : List (LocalEvent kem sig)} (own : OwnKeys kdf keyAead kem o l)
    (whole : Throughout kdf keyAead aead printG parser o (RotatesWhole kdf keyAead printG o) l events) :
    OwnKeys kdf keyAead kem o (runLocal kdf keyAead aead printG parser o l events) := by
  induction events generalizing l with
  | nil => exact own
  | cons e events ih => exact ih (LocalEvent.run_ownKeys own whole.1) whole.2

/-! ## The key of a draft -/

variable (kem aead) in
/-- The secret key does not open what is sealed there. -/
def Shut (encKey encBody ksk : Bytes) : Prop :=
  ∀ sym, Client.kemDecapsulateKey kem encKey ksk = some sym → decryptFromB64 aead sym encBody = none

variable (aead) in
/-- New keys are drawn that do not open what is sealed there. -/
def LocalEvent.Fresh (encKey encBody : Bytes) : LocalEvent kem sig → Prop
  | rotate calls _ => ∀ k s, calls.pairs = some (k, s) → Shut kem aead encKey encBody k.sk
  | _ => True

variable (kdf keyAead kem aead) in
/-- What is sealed there cannot be opened any more. -/
def Locked (o : Holder) (encKey encBody : Bytes) (l : Local) : Prop :=
  ∃ ksk, Calls.loadKsk kdf keyAead (o.ctx l []) l.files = .ok ksk ∧ Shut kem aead encKey encBody ksk

variable {encKey encBody : Bytes}

theorem LocalEvent.run_locked {e : LocalEvent kem sig}
    (locked : Locked kdf keyAead kem aead o encKey encBody l ∨ e.Rotates kdf keyAead printG o l)
    (whole : RotatesWhole kdf keyAead printG o l e) (fresh : e.Fresh aead encKey encBody) :
    Locked kdf keyAead kem aead o encKey encBody (e.run kdf keyAead aead printG parser o l) := by
  by_cases rotates : e.Rotates kdf keyAead printG o l
  · obtain ⟨calls, newPassphrase, k, s, rfl, pairs, goes, -⟩ :=
      LocalEvent.run_rotates aead parser rotates whole
    exact ⟨k.sk, goes.loadKem, fresh k s pairs⟩
  · obtain ⟨ksk, loaded, shut⟩ := locked.resolve_right rotates
    exact ⟨ksk, (LocalEvent.run_keys aead parser rotates).2.trans loaded, shut⟩

/-- A draft that is not written is the same file, whatever rotates. -/
theorem LocalEvent.run_draft {e : LocalEvent kem sig} {draftId : Bytes}
    (other : ¬ e.Writes o l (draftPath o.configDir draftId))
    (whole : RotatesWhole kdf keyAead printG o l e) :
    (e.run kdf keyAead aead printG parser o l).files (draftPath o.configDir draftId) =
      l.files (draftPath o.configDir draftId) := by
  by_cases rotates : e.Rotates kdf keyAead printG o l
  · obtain ⟨-, -, -, -, -, -, -, drafts⟩ := LocalEvent.run_rotates aead parser rotates whole
    exact drafts draftId
  · exact (LocalEvent.run_frame aead parser rotates).2 _ other

/-- From the first rotation on, it cannot be opened, and is the same file. -/
theorem runLocal_locked {events : List (LocalEvent kem sig)} {draftId : Bytes}
    (others : Throughout kdf keyAead aead printG parser o
      (fun l e => ¬ e.Writes o l (draftPath o.configDir draftId)) l events)
    (rotations : Throughout kdf keyAead aead printG parser o
      (fun l e => RotatesWhole kdf keyAead printG o l e ∧ e.Fresh aead encKey encBody) l events)
    (once : Locked kdf keyAead kem aead o encKey encBody l ∨ ¬ Throughout kdf keyAead aead printG parser o
      (fun l e => ¬ e.Rotates kdf keyAead printG o l) l events) :
    Locked kdf keyAead kem aead o encKey encBody (runLocal kdf keyAead aead printG parser o l events) ∧
      (runLocal kdf keyAead aead printG parser o l events).files (draftPath o.configDir draftId) =
        l.files (draftPath o.configDir draftId) := by
  induction events generalizing l with
  | nil => exact ⟨once.resolve_right (not_not_intro trivial), rfl⟩
  | cons e events ih =>
    obtain ⟨other, others⟩ := others
    obtain ⟨⟨whole, fresh⟩, rotations⟩ := rotations
    have next : Locked kdf keyAead kem aead o encKey encBody (e.run kdf keyAead aead printG parser o l) ∨
        ¬ Throughout kdf keyAead aead printG parser o (fun l e => ¬ e.Rotates kdf keyAead printG o l)
          (e.run kdf keyAead aead printG parser o l) events := by
      by_cases rotates : e.Rotates kdf keyAead printG o l
      · exact .inl (LocalEvent.run_locked (.inr rotates) whole fresh)
      · exact once.imp (fun locked => LocalEvent.run_locked (.inl locked) whole fresh)
          fun rotated quiet => rotated ⟨rotates, quiet⟩
    obtain ⟨locked, same⟩ := ih others rotations next
    exact ⟨locked, same.trans (LocalEvent.run_draft other whole)⟩

/-! ## A draft that is saved -/

/-- The draft that is saved: that which is edited, or that of a number that is returned. The numbers
of the directory are not at their end. -/
def Names (calls : DraftCalls) (shown draftId : Bytes) : Option Bytes → Prop
  | some target => target = draftId
  | none => shown = draftId ∧ 0 ≤ calls.maxId ∧ calls.maxId + 101 ≤ 2 ^ 63

theorem openDraft_names {configDir : Bytes} {files : Files} {calls : DraftCalls} {target : Option Bytes}
    {shown draftId path : Bytes} (names : Names calls shown draftId target)
    (opened : openDraft configDir files calls target = some (shown, path)) :
    shown = snprintf 32 draftId ∧ path = draftPath configDir draftId := by
  cases target with
  | some target =>
    obtain rfl : target = draftId := names
    unfold openDraft at opened
    dsimp only at opened
    split at opened
    · cases opened
      exact ⟨rfl, rfl⟩
    · cases opened
  | none =>
    obtain ⟨rfl, front, room⟩ := names
    obtain ⟨n, above, below, number, file, -⟩ := newDraft_spec opened
    lift n to ℕ using by omega
    rw [snprintf_formatInt (by omega)] at number
    rw [number, snprintf_formatInt (by omega)]
    exact ⟨rfl, file⟩

/-- A key that does not open the body reads no draft. -/
theorem Saving.read_shut {s : Saving} {created : Int} {symKey encKey' ksk : Bytes} {sealed : SealedDraft}
    {text : Bytes} (made : SealedOf aead symKey encKey' s.recipient s.subject s.replyRef s.body sealed)
    (wrapped : Client.cstr encKey' = encKey')
    (parses : parser.parse text = some (.ofObject (s.root created sealed)))
    (loaded : Calls.loadKsk kdf keyAead s.ctx s.files = .ok ksk)
    (shut : Shut kem aead encKey' sealed.encBody ksk) :
    s.readOf kdf keyAead kem aead parser (Function.update s.files s.path (some text)) =
      .error (draftsSetError (utf8 "Cannot decrypt draft " ++ s.draftId ++ utf8 ".")) := by
  obtain ⟨nonce, -, -, encrypted⟩ := made.sealsBody
  have body := cstr_encryptToB64 aead encrypted
  unfold readOf cliReadDraft parseDraftJson
  rw [show draftPath s.ctx.configDir s.draftId = s.path from rfl, Function.update_self]
  dsimp only
  rw [parses]
  unfold root
  dsimp only
  rw [draft_encKey, draft_encBody, body, body, made.key, wrapped, wrapped]
  dsimp only
  rw [loadKsk_update, loaded]
  dsimp only
  cases unwrapped : Client.kemDecapsulateKey kem encKey' ksk with
  | none => rfl
  | some sym =>
    rw [Option.elim_some, shut sym unwrapped]
    exact if_pos (.inl ⟨rfl, rfl⟩)

section

variable {round : ℚ → ℚ} {calls : DraftCalls} {recipient subject replyRef : Option CString}
  {body shown draftId : Bytes} {target : Option Bytes} {files' : Files}
  {symKey : {b : Bytes // b.length = 32}} {sealed : SealedDraft}

/-- **A draft can be read until the next rotation.** At any time it is saved whole; then come any saves
of others, and rotations. If none of these succeeds, it is read as it was saved. If one does, it cannot
be decrypted, however many follow. -/
theorem draft_until_rotation (start : Local) (before events : List (LocalEvent kem sig))
    (prints : PrintsShort printG) (holds : HoldsShort round) (own : OwnKeys kdf keyAead kem o start)
    (wholeBefore : Throughout kdf keyAead aead printG (CJson.parser round) o
      (RotatesWhole kdf keyAead printG o) start before)
    (reached : runLocal kdf keyAead aead printG (CJson.parser round) o start before = l)
    (key : shyakeSelfencBegin kem (o.ctx l []) l.files calls = some (symKey, encKey))
    (fields : sealDraft aead calls symKey encKey recipient subject replyRef body = some sealed)
    (saved : cliSaveDraft kem aead printG (CJson.parser round) (o.ctx l []) calls recipient subject
      replyRef body target l.files = (some ⟨.OK, [], some shown⟩, files'))
    (names : Names calls shown draftId target) (whole : CJson.INT_MAX ≤ calls.written)
    (readable : Saving.Readable ⟨o.ctx l [], [], o.username, calls, recipient, subject, replyRef, body,
      draftId, l.files⟩)
    (nowShort : calls.now.natAbs < 10 ^ 15)
    (createdShort : ∀ created, draftCreated (CJson.parser round) o.configDir l.files calls target =
      some created → created.natAbs < 10 ^ 15)
    (others : Throughout kdf keyAead aead printG (CJson.parser round) o
      (fun l e => ¬ e.Writes o l (draftPath o.configDir draftId)) ⟨files', l.passphrase⟩ events)
    (rotations : Throughout kdf keyAead aead printG (CJson.parser round) o
      (fun l e => RotatesWhole kdf keyAead printG o l e ∧ e.Fresh aead encKey sealed.encBody)
      ⟨files', l.passphrase⟩ events) :
    let after := runLocal kdf keyAead aead printG (CJson.parser round) o ⟨files', l.passphrase⟩ events
    let quiet := Throughout kdf keyAead aead printG (CJson.parser round) o
      (fun l e => ¬ e.Rotates kdf keyAead printG o l) ⟨files', l.passphrase⟩ events
    let read := cliReadDraft kdf keyAead kem aead (CJson.parser round) (o.ctx after []) [] o.username
      draftId after.files
    (quiet → ∃ d, read = .ok d ∧ NewContent recipient subject replyRef body d ∧
      d.timestamp = calls.now ∧ d.size = body.length) ∧
    (¬ quiet → read = .error (draftsSetError (utf8 "Cannot decrypt draft " ++ draftId ++ utf8 "."))) := by
  intro after quiet read
  -- the draft, as it would be read of any files that it is whole in
  obtain ⟨created, path, text, times, opened, printed, made⟩ : ∃ created path text,
      draftCreated (CJson.parser round) o.configDir l.files calls target = some created ∧
      openDraft o.configDir l.files calls target = some (shown, path) ∧
      printUnformatted printG (draftObj shown created calls.now body.length sealed) = some text ∧
      files' = Function.update l.files path (some (text.take calls.written)) := by
    rcases cliSaveDraft_cases saved with ⟨failed, -⟩ | ⟨created, symKey', encKey', sealed', id, path, text,
      times, key', fields', opened, printed, returned, made⟩
    · exact absurd rfl (failed _ rfl)
    · cases returned
      cases key.symm.trans key'
      cases fields.symm.trans fields'
      exact ⟨created, path, text, times, opened, printed, made⟩
  obtain ⟨shownId, pathId⟩ := openDraft_names names opened
  subst pathId
  have fits : text.take calls.written = text :=
    List.take_of_length_le (by have := (printed_bounds printG printed).2; omega)
  rw [fits] at made
  rw [shownId] at printed
  have there : files' (draftPath o.configDir draftId) = some text := by
    rw [made]
    exact Function.update_self ..
  obtain ⟨kpk, coins, here, -, -, sealedKey⟩ := shyakeSelfencBegin_iff.mp key
  have wrapped := cstr_kemEncapsulateKey kem sealedKey
  have sealedOf := sealedOf aead fields
  let at_ (l' : Local) : Saving := ⟨o.ctx l' [], [], o.username, calls, recipient, subject, replyRef, body,
    draftId, l'.files⟩
  have unchanged (l' : Local) (file : l'.files (draftPath o.configDir draftId) = some text) :
      Function.update (at_ l').files (at_ l').path (some text) = l'.files :=
    Function.update_eq_self_iff.mpr file.symm
  constructor
  · intro none
    -- read at once, with the key that it was sealed to
    let save : LocalEvent kem sig := .saveDraft calls recipient subject replyRef body target
    have event : save.run kdf keyAead aead printG (CJson.parser round) o l = ⟨files', l.passphrase⟩ := by
      dsimp only [save, LocalEvent.run]
      rw [saved]
    have still : ¬ save.Rotates kdf keyAead printG o l := id
    have ownNow := runLocal_ownKeys own wholeBefore
    rw [reached] at ownNow
    obtain ⟨kpk', ksk, here', loaded, pair⟩ := ownNow
    obtain rfl := Option.some.inj (here.symm.trans here')
    have unwrapped := kemDecapsulateKey_encapsulated kem pair symKey.2 sealedKey
    have load := (LocalEvent.run_keys aead (CJson.parser round) still).2
    rw [event] at load
    obtain ⟨d, atOnce, new, -, modified, size⟩ := Saving.read_whole (s := at_ ⟨files', l.passphrase⟩) kdf
      keyAead kem aead prints holds ⟨readable.nul, readable.body, readable.recipient, readable.subject,
        readable.replyRef⟩ (load.trans loaded) unwrapped wrapped sealedOf (createdShort created times)
      nowShort printed
    rw [unchanged ⟨files', l.passphrase⟩ there] at atOnce
    have kept := @content_of_untouched _ _ _ _ _ _ _ _ _ (.draft draftId) _ others none
    exact ⟨d, (Sum.inl.inj kept).trans atOnce, new, modified, size⟩
  · intro rotated
    obtain ⟨⟨ksk, loaded, shut⟩, same⟩ := runLocal_locked others rotations (.inr rotated)
    have parses := (Saving.root_parsesBack (s := at_ after) sealed prints holds (createdShort created times)
      nowShort (Nat.lt_of_le_of_lt readable.body (by decide))).whole text printed
    have error := Saving.read_shut (s := at_ after) sealedOf wrapped parses loaded shut
    rw [unchanged after (same.trans there)] at error
    exact error

end

namespace Sample

def owner : Holder := ⟨alice.configDir, alice.username⟩

/-- What is in the note's directory, and a key to sign with. -/
def home : Local where
  files := Function.update (note 0).files (alice.path (utf8 "sig_sk.bin")) (some oldKey)
  passphrase := []

def wholeCalls : DraftCalls := { draftCalls with written := 2147483647 }

def otherPair : KemPair xorKem where
  pk := List.replicate 1184 9
  sk := List.replicate 2400 9
  length_pk := List.length_replicate
  length_sk := List.length_replicate
  pair := show fit 32 (List.replicate 1184 9) = fit 32 (List.replicate 2400 9) by decide

def rotateCalls : RotateCalls xorKem oneSig where
  pairs := some (otherPair, sigPair)
  curl := true
  signing := ⟨1749513600, [], []⟩
  answer := some 200
  kemPk := .whole
  kemSk := ⟨none, none, .whole⟩
  sigPk := .whole
  sigSk := ⟨none, none, .whole⟩

theorem note_shut : (sealedNote.bind fun sealed =>
    (kemDecapsulateKey xorKem sealed.encKey otherPair.sk).bind fun sym =>
      decryptFromB64 tagAead sym sealed.encBody) = none := by decide +kernel

theorem home_file {name : Bytes} (front : name.take 5 ≠ (utf8 "sig_sk.bin").take 5) :
    home.files (alice.path name) = (note 0).files (alice.path name) :=
  Function.update_of_ne (path_ne (by decide) front) _ _

theorem home_ksk : Calls.loadKsk plainKdf (fun _ => tagAead) alice home.files = .ok kemPair.sk := by
  have load := note_sk 0
  unfold Calls.loadKsk loadSkDecrypted at load ⊢
  rw [home_file (by decide)]
  exact load

theorem home_note : home.files (draftPath alice.configDir (utf8 "1")) = noteText := by
  have apart : draftPath alice.configDir (utf8 "1") ≠ alice.path (utf8 "sig_sk.bin") := by decide
  unfold home
  dsimp only
  rw [Function.update_of_ne apart]
  exact note_file 0

theorem home_sk : home.files (alice.path (utf8 "sig_sk.bin")) = some oldKey := by
  unfold home
  dsimp only
  rw [Function.update_self]

/-- The note again, out of these files. -/
def homeNote : Saving where
  ctx := owner.ctx home []
  lastError := []
  username := owner.username
  calls := wholeCalls
  recipient := some toBob
  subject := some noteSubject
  replyRef := none
  body := utf8 "hello"
  draftId := utf8 "1"
  files := home.files

theorem homeNote_path : homeNote.path = draftPath alice.configDir (utf8 "1") := by
  unfold Saving.path homeNote owner Holder.ctx
  rfl

/-- The note is saved over itself. -/
theorem home_saved : ∃ encKey sealed files',
    shyakeSelfencBegin xorKem (owner.ctx home []) home.files wholeCalls = some (noteKey, encKey) ∧
    sealDraft tagAead wholeCalls noteKey encKey (some toBob) (some noteSubject) none (utf8 "hello") =
      some sealed ∧
    sealedNote = some sealed ∧ sealed.encKey = encKey ∧
    draftCreated (CJson.parser id) owner.configDir home.files wholeCalls (some (utf8 "1")) =
      some 1749513600 ∧
    cliSaveDraft xorKem tagAead Go.formatInt (CJson.parser id) (owner.ctx home []) wholeCalls (some toBob)
      (some noteSubject) none (utf8 "hello") (some (utf8 "1")) home.files =
        (some ⟨.OK, [], some (utf8 "1")⟩, files') ∧
    files' (alice.path (utf8 "sig_sk.bin")) = some oldKey := by
  obtain ⟨encKey, sealed, cuts, made⟩ := note_cuts_parsed 0
  obtain ⟨sealed', text, made', here, printed⟩ := note_text
  obtain rfl := Option.some.inj (made.symm.trans made')
  obtain ⟨kpk, coins, pk, drawn, drawn', wrapped⟩ := shyakeSelfencBegin_iff.mp cuts.key
  have file := home_note.trans here
  have pkHere : home.files (alice.path (utf8 "kem_pk.bin")) = some kpk :=
    (home_file (by decide)).trans pk
  have key : shyakeSelfencBegin xorKem (owner.ctx home []) home.files wholeCalls = some (noteKey, encKey) :=
    shyakeSelfencBegin_iff.mpr ⟨kpk, coins, pkHere, drawn, drawn', wrapped⟩
  have created : draftCreated (CJson.parser id) owner.configDir home.files wholeCalls
      (some (utf8 "1")) = some 1749513600 :=
    Saving.draftCreated_whole prints_formatInt holds_id rfl file (by decide) (by decide) (by decide) printed
  have fields : sealDraft tagAead wholeCalls noteKey encKey (some toBob) (some noteSubject) none
      (utf8 "hello") = some sealed := cuts.fields
  have there : (homeNote.files homeNote.path).isSome := by
    rw [homeNote_path, show homeNote.files = home.files from rfl, file]
    rfl
  have now : homeNote.Cuts xorKem tagAead (CJson.parser id) 1749513600 noteKey encKey sealed :=
    ⟨cuts.body, rfl, created, key, fields, there, rfl⟩
  have saved := Saving.save_of_cuts xorKem tagAead Go.formatInt (CJson.parser id) now
  rw [if_neg (show ¬ homeNote.calls.fdopen = false by decide), homeNote_path,
    show printUnformatted Go.formatInt (homeNote.root 1749513600 sealed) = some text from printed] at saved
  refine ⟨encKey, sealed, _, key, fields, made, (sealedOf tagAead fields).key, created, saved, ?_⟩
  have apart : alice.path (utf8 "sig_sk.bin") ≠ draftPath alice.configDir (utf8 "1") := by decide
  exact (Function.update_of_ne apart _ _).trans home_sk

/-- The note is read back, and is lost once the keys are rotated. -/
theorem draft_until_rotation_note : ∃ l : Local,
    (∃ d, cliReadDraft plainKdf (fun _ => tagAead) xorKem tagAead (CJson.parser id) (owner.ctx l []) []
      owner.username (utf8 "1") l.files = .ok d ∧ d.body = some (utf8 "hello")) ∧
    let after := (LocalEvent.rotate rotateCalls []).run plainKdf (fun _ => tagAead) tagAead Go.formatInt
      (CJson.parser id) owner l
    cliReadDraft plainKdf (fun _ => tagAead) xorKem tagAead (CJson.parser id) (owner.ctx after []) []
      owner.username (utf8 "1") after.files =
        .error (draftsSetError (utf8 "Cannot decrypt draft 1.")) := by
  obtain ⟨encKey, sealed, files', key, fields, made, same, created, saved, sk⟩ := home_saved
  have own : OwnKeys plainKdf (fun _ => tagAead) xorKem owner home :=
    ⟨kemPair.pk, kemPair.sk, (home_file (by decide)).trans (note_pk 0), home_ksk, kemPair.pair⟩
  have readable : Saving.Readable ⟨owner.ctx home [], [], owner.username, wholeCalls, some toBob,
      some noteSubject, none, utf8 "hello", utf8 "1", home.files⟩ :=
    have note := note_readable 0
    ⟨note.nul, note.body, note.recipient, note.subject, note.replyRef⟩
  have short : ∀ c, draftCreated (CJson.parser id) owner.configDir home.files wholeCalls
      (some (utf8 "1")) = some c → c.natAbs < 10 ^ 15 := by
    intro c at_
    obtain rfl := Option.some.inj (created.symm.trans at_)
    decide
  have confirmed : Confirmed plainKdf (fun _ => tagAead) Go.formatInt (owner.ctx ⟨files', []⟩ [])
      rotateCalls files' otherPair sigPair := by
    refine ⟨rfl, rfl, ?_, .inl rfl⟩
    unfold createSignedHeadersBody
    rw [show loadSkDecrypted plainKdf (fun _ => tagAead) (owner.ctx ⟨files', []⟩ []).passphrase
      ((owner.ctx ⟨files', []⟩ []).path (utf8 "sig_sk.bin")) files' = .ok oldKey from load_old sk]
    rfl
  have rotates : (LocalEvent.rotate rotateCalls []).Rotates plainKdf (fun _ => tagAead) Go.formatInt owner
      ⟨files', []⟩ :=
    congrArg Prod.fst ((shyakeRotate_ok _ _ Go.formatInt confirmed.pairs).mpr ⟨confirmed, rfl⟩)
  have whole : RotatesWhole plainKdf (fun _ => tagAead) Go.formatInt owner ⟨files', []⟩
      (LocalEvent.rotate rotateCalls []) := by
    intro calls newPassphrase k s event confirmed'
    cases event
    cases confirmed'.pairs
    exact ⟨⟨rfl, ⟨fun some => absurd rfl some, rfl⟩, rfl, ⟨fun some => absurd rfl some, rfl⟩⟩, by decide,
      show List.take 4 (List.replicate 2400 9) ≠ SK_MAGIC by decide,
      show List.take 4 (List.replicate 4032 8) ≠ SK_MAGIC by decide⟩
  have fresh : (LocalEvent.rotate rotateCalls [] : LocalEvent xorKem oneSig).Fresh tagAead encKey
      sealed.encBody := by
    intro k s pairs sym unwrapped
    cases pairs
    have shut := note_shut
    rw [made, Option.bind_some, same, unwrapped, Option.bind_some] at shut
    exact shut
  have run (events : List (LocalEvent xorKem oneSig)) := draft_until_rotation home [] events
    prints_formatInt holds_id own trivial rfl key fields saved rfl (by decide) readable (by decide) short
  refine ⟨⟨files', []⟩, ?_, ?_⟩
  · obtain ⟨d, read, new, -⟩ := (run [] trivial trivial).1 trivial
    exact ⟨d, read, new.body⟩
  · exact (run [.rotate rotateCalls []] ⟨id, trivial⟩ ⟨⟨whole, fresh⟩, trivial⟩).2
      fun quiet => quiet.1 rotates

end Sample

end Shyake.Client
