import Shyake.Client.DraftRuns

/-!
# What is found in the drafts directory

Reading and listing find the store, and with that its laws hold in every careful run. Of two edits
that race for one draft, the second may forget when it was created.
-/

namespace Shyake.Client

open CJson (printUnformatted)

variable (kdf : Kdf) (keyAead : Bytes → Aead) (kem : Kem) (aead : Aead) (printG : Int → Bytes)
  (parser : JsonParser) (ctx : Ctx) (keys : Files)

/-! ## Reading -/

theorem cliReadDraft_created {lastError username draftId raw : Bytes} {files : Files} {json : Json}
    {d : Draft} (read : cliReadDraft kdf keyAead kem aead parser ctx lastError username draftId files =
      .ok d) (here : files (draftPath ctx.configDir draftId) = some raw)
    (parses : parser.parse raw = some json) :
    d.created = jsonDouble parser raw json (utf8 "created") := by
  unfold cliReadDraft parseDraftJson at read
  rw [here] at read
  dsimp only at read
  rw [parses] at read
  dsimp only at read
  split at read
  · split at read
    · cases read
    · rename_i ksk loaded
      rcases decapsulated : kemDecapsulateKey kem _ ksk with _ | sym
      · rw [decapsulated] at read
        cases read
      · rw [decapsulated] at read
        simp only [Option.elim_some, if_true, true_and] at read
        split at read
        · cases read
        · cases read
          rfl
  · cases read

/-- A draft that a file holds is read. -/
theorem DraftContent.In.read {kem : Kem} {aead : Aead} {parser : JsonParser} {ctx : Ctx} {keys : Files}
    {content : DraftContent} {draftId raw : Bytes}
    (holds : content.In kem aead parser ctx keys draftId raw) {d : DraftDir} {ksk : Bytes}
    (short : ctx.configDir.length ≤ 500) (plain : draftId.length ≤ 100)
    (loaded : Calls.loadKsk kdf keyAead ctx keys = .ok ksk)
    (own : ∀ kpk, keys (ctx.path (utf8 "kem_pk.bin")) = some kpk → kem.Matches kpk ksk)
    (here : d.read (draftName draftId) = some raw) (lastError username : Bytes) :
    ∃ found, cliReadDraft kdf keyAead kem aead parser ctx lastError username draftId
        (d.files ctx keys) = .ok found ∧
      NewContent content.job.recipient content.job.subject content.job.replyRef content.job.body found ∧
      found.created = content.created := by
  obtain ⟨sealed, ready, parses, time⟩ := holds
  obtain ⟨⟨symKey, encKey⟩, begun, fields⟩ := Option.bind_eq_some_iff.mp ready.made
  obtain ⟨kpk, coins, pk, -, -, wrapped⟩ := shyakeSelfencBegin_iff.mp begun
  have made := sealedOf aead fields
  let saving : Saving :=
    ⟨ctx, lastError, username, content.job.calls, content.job.recipient, content.job.subject,
      content.job.replyRef, content.job.body, draftId, d.files ctx keys⟩
  have file : saving.files saving.path = some raw := (files_draft keys d short plain).trans here
  have unchanged : Function.update saving.files saving.path (some raw) = saving.files := by
    rw [← file]
    exact Function.update_eq_self _ _
  have fits := ready.fits
  obtain ⟨opensBody, opensReply, new⟩ := Saving.new_of_readable (s := saving) aead made
    ⟨fits.nul, fits.body, fits.recipient, fits.subject, fits.replyRef⟩
  have unwrapped := kemDecapsulateKey_encapsulated kem (own kpk pk) symKey.2 wrapped
  obtain ⟨found, read, readAs⟩ := (Saving.readOf_new (s := saving) kdf keyAead kem aead parser made
    (cstr_kemEncapsulateKey kem wrapped) parses
    ((loadKsk_files kdf keyAead keys d short).trans loaded)).2 symKey unwrapped opensBody opensReply
  rw [unchanged] at read
  refine ⟨found, read, new found readAs, ?_⟩
  rw [cliReadDraft_created kdf keyAead kem aead parser ctx read file parses]
  unfold jsonDouble jobObj
  rw [if_pos draft_created]
  exact time

/-! ## The list -/

theorem listEntry_mailId {ksk username name raw : Bytes} {entry : DraftEntry}
    (listed : listEntry kem aead parser ksk username name raw = some entry) :
    entry.mailId = snprintf 32 (Go.formatInt (numericDraftId name)) := by
  obtain ⟨json, -, listed⟩ := Option.bind_eq_some_iff.mp listed
  obtain ⟨jkey, -, listed⟩ := Option.bind_eq_some_iff.mp listed
  cases listed
  rfl

/-- What is no JSON is left out. -/
theorem listEntry_corrupt {ksk username name raw : Bytes} (corrupt : parser.parse raw = none) :
    listEntry kem aead parser ksk username name raw = none := by
  unfold listEntry
  rw [corrupt]
  rfl

theorem DraftContent.In.listed {kem : Kem} {aead : Aead} {parser : JsonParser} {ctx : Ctx} {keys : Files}
    {content : DraftContent} {draftId raw : Bytes}
    (holds : content.In kem aead parser ctx keys draftId raw) (ksk username name : Bytes) :
    (listEntry kem aead parser ksk username name raw).isSome := by
  obtain ⟨sealed, -, parses, -⟩ := holds
  unfold listEntry jobObj at *
  simp only [parses, draft_encKey, Option.bind_eq_bind, Option.bind_some, Option.isSome_some]

/-- Each file that can be read is listed once, under its id. -/
theorem DraftInv.list {kem : Kem} {aead : Aead} {parser : JsonParser} {ctx : Ctx} {keys : Files}
    {origin : Nat → Nat} {w : DraftWorld} {s : DraftMap} {ksk : Bytes}
    (inv : DraftInv kem aead parser ctx keys origin w s)
    (loaded : Calls.loadKsk kdf keyAead ctx keys = .ok ksk) (corrupt : parser.parse [] = none)
    (lastError username : Bytes) :
    ∃ entries, cliListDrafts kdf keyAead kem aead parser ctx lastError username keys w.dir = .ok entries ∧
      (entries.map DraftEntry.mailId).Nodup ∧
      ∀ draftId, ¬ w.Open false draftId →
        (draftId ∈ entries.map DraftEntry.mailId ↔ (s draftId).isSome) := by
  have number : ∀ file ∈ w.dir.names, numericDraftId file.1 = origin file.2 ∧
      snprintf 32 (Go.formatInt (numericDraftId file.1)) = Go.formatInt (origin file.2) ∧
      file.1 = draftName (Go.formatInt (origin file.2)) := by
    intro file mem
    obtain ⟨-, -, small, name⟩ := inv.numbered.named file mem
    have id := numericDraftId_draftName small
    rw [← name] at id
    refine ⟨id, ?_, name⟩
    rw [id]
    exact snprintf_formatInt small
  have all : w.dir.names.filter (fun file => numericDraftId file.1 ≥ 0) = w.dir.names := by
    apply List.filter_eq_self.mpr
    intro file mem
    rw [(number file mem).1]
    exact decide_eq_true (Int.natCast_nonneg _)
  unfold cliListDrafts
  dsimp only
  rw [all]
  by_cases none : w.dir.names = []
  · rw [if_pos none]
    refine ⟨[], rfl, List.nodup_nil, fun draftId _ => ?_⟩
    constructor
    · intro mem
      cases mem
    · intro there
      obtain ⟨content, there⟩ := Option.isSome_iff_exists.mp there
      obtain ⟨-, inode, here, -⟩ := inv.stored draftId content there
      have mem := DraftDir.mem_of_inode here
      rw [none] at mem
      cases mem
  rw [if_neg none, loaded]
  dsimp only
  refine ⟨_, rfl, ?_, fun draftId shut => ?_⟩
  · apply (((List.mergeSort_perm _ _).map DraftEntry.mailId).nodup_iff).mpr
    apply List.pairwise_map.mpr
    apply List.pairwise_filterMap.mpr
    apply (List.pairwise_map.mp inv.numbered.distinct).imp_of_mem
    intro file other mem memOther ne entry listed entry' listed' same
    rw [listEntry_mailId kem aead parser listed, listEntry_mailId kem aead parser listed',
      (number file mem).2.1, (number other memOther).2.1] at same
    apply ne
    rw [(number file mem).2.2, (number other memOther).2.2, same]
  · rw [((List.mergeSort_perm _ _).map DraftEntry.mailId).mem_iff, List.mem_map]
    constructor
    · rintro ⟨entry, mem, rfl⟩
      obtain ⟨file, mem, listed⟩ := List.mem_filterMap.mp mem
      have id := (listEntry_mailId kem aead parser listed).trans (number file mem).2.1
      have here := DraftDir.inode_of_mem inv.numbered.distinct mem
      rw [(number file mem).2.2, ← id] at here
      by_contra unsaved
      rw [(inv.unsaved _ _ here (by simpa using unsaved)).1,
        listEntry_corrupt kem aead parser corrupt] at listed
      cases listed
    · intro there
      obtain ⟨content, there⟩ := Option.isSome_iff_exists.mp there
      obtain ⟨-, inode, here, holds⟩ := inv.stored draftId content there
      have mem := DraftDir.mem_of_inode here
      obtain ⟨entry, listed⟩ := Option.isSome_iff_exists.mp
        ((holds shut).listed ksk username (draftName draftId))
      refine ⟨entry, List.mem_filterMap.mpr ⟨_, mem, listed⟩, ?_⟩
      rw [listEntry_mailId kem aead parser listed, (number _ mem).2.1]
      exact (inv.numbered.of_inode here).2.2.2.symm

/-! ## The laws -/

/-- A step changes the file of the draft that its event names, and no other. -/
theorem DraftInv.frame {kem : Kem} {aead : Aead} {printG : Int → Bytes} {parser : JsonParser} {ctx : Ctx}
    {keys : Files} {origin : Nat → Nat} {w w' : DraftWorld} {s : DraftMap} {e : DraftEvent}
    (inv : DraftInv kem aead parser ctx keys origin w s)
    (taken : DraftStep kem aead printG parser ctx keys w e w') {draftId : Bytes}
    (other : e.changes ≠ some draftId) :
    w'.dir.read (draftName draftId) = w.dir.read (draftName draftId) := by
  have ne {changed : Bytes} (changes : e.changes = some changed) : draftId ≠ changed := by
    rintro rfl
    exact other changes
  cases taken with
  | scan | taken | exhausted | readOld | giveUp | crash => rfl
  | create => exact (SameBut.create inv.numbered).read (ne rfl)
  | cut saver there => exact (SameBut.update inv.numbered there []).read (ne rfl)
  | @write pid job sealed new changed created inode payload saver printed =>
    obtain ⟨-, there, -, -⟩ := inv.fine pid _ saver
    have id := inv.numbered.snprintf_eq there
    apply (SameBut.update inv.numbered there _).read
    apply ne
    cases new with
    | true =>
      rw [if_pos rfl, id]
      rfl
    | false => rfl
  | delete => exact SameBut.unlink.read (ne rfl)

/-- The seals do not depend on the time. -/
theorem sealJob_now {kem : Kem} {aead : Aead} {ctx : Ctx} {keys : Files} (job : SaveJob) (now : Int) :
    sealJob kem aead ctx keys { job with calls := { job.calls with now } } =
      sealJob kem aead ctx keys job := rfl

namespace Sample

def noteKeys : Files := (note 0).files

def noteJob : SaveJob := ⟨draftCalls, some toBob, some noteSubject, none, utf8 "hello"⟩

/-- The note again, a second later. -/
def laterJob : SaveJob := { noteJob with calls := { noteJob.calls with now := 1749513601 } }

/-- What is written for it when the old time is lost. -/
def laterText : Option Bytes := sealedNote.bind fun sealed =>
  printUnformatted Go.formatInt (jobObj (utf8 "1") 1749513601 laterJob sealed)

theorem laterText_apart : laterText ≠ noteText ∧ laterText.isSome := by decide +kernel

/-- It knows both. -/
def raceParser : JsonParser where
  parse text :=
    if some text = noteText then
      sealedNote.map fun sealed => .ofObject (jobObj (utf8 "1") 1749513600 noteJob sealed)
    else if some text = laterText then
      sealedNote.map fun sealed => .ofObject (jobObj (utf8 "1") 1749513601 laterJob sealed)
    else none
  valuedouble text _ := if some text = laterText then 1749513601 else 1749513600

/-- The two texts of the note. -/
structure RaceTexts (sealed : SealedDraft) (text later : Bytes) : Prop where
  made : sealJob xorKem tagAead alice noteKeys noteJob = some sealed
  printed : printUnformatted Go.formatInt (jobObj (utf8 "1") 1749513600 noteJob sealed) = some text
  printedLater :
    printUnformatted Go.formatInt (jobObj (utf8 "1") 1749513601 laterJob sealed) = some later
  parses : raceParser.parse text = some (.ofObject (jobObj (utf8 "1") 1749513600 noteJob sealed))
  parsesLater :
    raceParser.parse later = some (.ofObject (jobObj (utf8 "1") 1749513601 laterJob sealed))
  time : raceParser.valuedouble text (utf8 "created") = 1749513600
  timeLater : raceParser.valuedouble later (utf8 "created") = 1749513601
  corrupt : raceParser.parse [] = none

theorem raceTexts : ∃ sealed text later, RaceTexts sealed text later := by
  obtain ⟨encKey, sealed, cuts, made⟩ := note_cuts 0
  obtain ⟨sealed', text, made', here, printed⟩ := note_text
  obtain rfl := Option.some.inj (made.symm.trans made')
  obtain ⟨apart, there⟩ := laterText_apart
  obtain ⟨later, hereLater⟩ := Option.isSome_iff_exists.mp there
  obtain ⟨sealed', made', printedLater⟩ := Option.bind_eq_some_iff.mp hereLater
  obtain rfl := Option.some.inj (made.symm.trans made')
  rw [here, hereLater] at apart
  refine ⟨sealed, text, later, ?_, printed, printedLater, ?_, ?_, ?_, ?_, ?_⟩
  · exact Option.bind_eq_some_iff.mpr ⟨_, cuts.key, cuts.fields⟩
  · unfold raceParser
    dsimp only
    rw [here, if_pos rfl, made]
    rfl
  · unfold raceParser
    dsimp only
    rw [here, if_neg apart, hereLater, if_pos rfl, made]
    rfl
  · unfold raceParser
    dsimp only
    rw [hereLater, if_neg apart.symm]
  · unfold raceParser
    dsimp only
    rw [hereLater, if_pos rfl]
  · have filled := (printed_bounds Go.formatInt printed).1
    have filledLater := (printed_bounds Go.formatInt printedLater).1
    unfold raceParser
    dsimp only
    rw [here, hereLater, if_neg (by simpa using filled.symm), if_neg (by simpa using filledLater.symm)]

def raceDir (content : Bytes) : DraftDir :=
  ⟨[(draftName (utf8 "1"), 0)], Function.update (fun _ => []) 0 content, 1⟩

theorem write_raceDir (text : Bytes) : (raceDir []).write 0 text = raceDir text := by
  unfold raceDir DraftDir.write
  dsimp only
  rw [Function.update_idem, Function.update_self, List.drop_nil, List.append_nil]

theorem truncate_raceDir (text : Bytes) : (raceDir text).truncate 0 = raceDir [] := by
  unfold raceDir DraftDir.truncate
  dsimp only
  rw [Function.update_idem]

/-- Two programs. -/
def raceSavers (a b : Option Saver) : Nat → Option Saver
  | 0 => a
  | 1 => b
  | _ => none

@[simp] theorem update_raceSavers_zero (a b c : Option Saver) :
    Function.update (raceSavers a b) 0 c = raceSavers c b := by
  funext pid
  rcases pid with _ | _ | pid <;> rfl

@[simp] theorem update_raceSavers_one (a b c : Option Saver) :
    Function.update (raceSavers a b) 1 c = raceSavers a c := by
  funext pid
  rcases pid with _ | _ | pid <;> rfl

def raceWorld (content : Bytes) (a b : Option Saver) : DraftWorld := ⟨raceDir content, raceSavers a b⟩

theorem noteJob_fits : noteJob.Fits where
  nul := (note_readable 0).nul
  body := (note_readable 0).body
  recipient := (note_readable 0).recipient
  subject := (note_readable 0).subject
  replyRef := nofun
  now := by decide

theorem laterJob_fits : laterJob.Fits := { noteJob_fits with now := by decide }

/-- What the two programs are at. -/
inductive Racing (sealed : SealedDraft) : Option Saver → Prop
  | idle : Racing sealed none
  | opening (job : SaveJob) (draftId : Bytes) (created : Int) :
    Racing sealed (some (.opening job sealed draftId created))
  | note (new : Bool) : Racing sealed (some (.writing noteJob sealed new (utf8 "1") 1749513600 0))
  | later : Racing sealed (some (.writing laterJob sealed false (utf8 "1") 1749513601 0))

theorem promised_race {sealed : SealedDraft} {text later content : Bytes}
    (texts : RaceTexts sealed text later) {a b : Option Saver} {e : DraftEvent}
    (first : Racing sealed a) (second : Racing sealed b)
    (fits : ∀ job, e.starts = some job → job.Fits) (prints : ∀ draftId, e ≠ .crashed draftId) :
    Promised Go.formatInt raceParser (raceWorld content a b) e := by
  have all : ∀ pid, Racing sealed (raceSavers a b pid)
    | 0 => first
    | 1 => second
    | _ + 2 => .idle
  refine ⟨fits, ?_, prints, ?_⟩
  · intro pid job sealed' scanned start tries here
    have racing := all pid
    rw [show raceSavers a b pid = _ from here] at racing
    cases racing
  · intro pid job sealed' new draftId created inode here written printed
    have racing := all pid
    rw [show raceSavers a b pid = _ from here] at racing
    cases racing with
    | note =>
      obtain rfl := Option.some.inj (texts.printed.symm.trans printed)
      exact ⟨texts.parses, fun _ => texts.time⟩
    | later =>
      obtain rfl := Option.some.inj (texts.printedLater.symm.trans printed)
      exact ⟨texts.parsesLater, fun _ => texts.timeLater⟩

section

variable {sealed : SealedDraft} {text later content : Bytes} {savers : Nat → Option Saver} {pid : Nat}
  {job : SaveJob} {new : Bool} {created : Int}

theorem race_write
    (saver : savers pid = some (.writing job sealed new (utf8 "1") created 0))
    (printed : printUnformatted Go.formatInt (jobObj (utf8 "1") created job sealed) = some text) :
    DraftStep xorKem tagAead Go.formatInt raceParser alice noteKeys ⟨raceDir [], savers⟩
      (if new then .saved (utf8 "1") job else .edited (utf8 "1") job)
      ⟨raceDir text, Function.update savers pid none⟩ := by
  have id : snprintf 32 (utf8 "1") = utf8 "1" := by decide
  have step := @DraftStep.write xorKem tagAead Go.formatInt raceParser alice noteKeys
    ⟨raceDir [], savers⟩ pid job sealed new (utf8 "1") created 0 text saver printed
  rw [id] at step
  dsimp only at step
  rw [write_raceDir] at step
  exact step

theorem race_cut (saver : savers pid = some (.opening job sealed (utf8 "1") created)) :
    DraftStep xorKem tagAead Go.formatInt raceParser alice noteKeys ⟨raceDir content, savers⟩
      (.opened (utf8 "1"))
      ⟨raceDir [], Function.update savers pid
        (some (.writing job sealed false (utf8 "1") created 0))⟩ := by
  have there : (raceDir content).inode (draftName (utf8 "1")) = some 0 := rfl
  have step := @DraftStep.cut xorKem tagAead Go.formatInt raceParser alice noteKeys
    ⟨raceDir content, savers⟩ pid job sealed (utf8 "1") created 0 saver there
  dsimp only at step
  rw [truncate_raceDir] at step
  exact step

theorem race_read (idle : savers pid = none) (body : job.body ≠ [])
    (old : draftCreated raceParser alice.configDir ((raceDir content).files alice noteKeys) job.calls
      (some (utf8 "1")) = some created)
    (made : sealJob xorKem tagAead alice noteKeys job = some sealed) :
    DraftStep xorKem tagAead Go.formatInt raceParser alice noteKeys ⟨raceDir content, savers⟩
      (.reading (utf8 "1") job)
      ⟨raceDir content, Function.update savers pid
        (some (.opening job sealed (utf8 "1") created))⟩ := by
  have plain : PlainId (utf8 "1") := ⟨by decide, by decide⟩
  exact @DraftStep.readOld xorKem tagAead Go.formatInt raceParser alice noteKeys
    ⟨raceDir content, savers⟩ pid job sealed (utf8 "1") created idle body plain old made

theorem raceDir_file (content : Bytes) : (raceDir content).files alice noteKeys
    (draftPath alice.configDir (utf8 "1")) = some content := by
  have here : (raceDir content).content 0 = content := by
    unfold raceDir
    dsimp only
    rw [Function.update_self]
  have read : (raceDir content).files alice noteKeys (draftPath alice.configDir (utf8 "1")) =
      (raceDir content).read (draftName (utf8 "1")) := files_draft _ _ (by decide) (by decide)
  exact read.trans (congrArg some here)

end

/-- The note is saved. -/
theorem note_saved {sealed : SealedDraft} {text later : Bytes} (texts : RaceTexts sealed text later) :
    DraftRun xorKem tagAead Go.formatInt raceParser alice noteKeys (Careful Go.formatInt raceParser)
      (raceWorld text none none)
      [.scanned noteJob, .opened (utf8 "1"), .saved (utf8 "1") noteJob] := by
  have start : DraftWorld.start = ⟨.empty, raceSavers none none⟩ := by
    unfold DraftWorld.start
    congr
    funext pid
    rcases pid with _ | _ | pid <;> rfl
  have search (pid : Nat) (saver : Saver) (here : raceSavers (some (.trying noteJob sealed 0 1 0)) none
      pid = some saver) : saver = .trying noteJob sealed 0 1 0 := by
    rcases pid with _ | _ | pid
    · exact (Option.some.inj here).symm
    · cases here
    · cases here
  have scan : DraftStep xorKem tagAead Go.formatInt raceParser alice noteKeys
      ⟨.empty, raceSavers none none⟩ (.scanned noteJob)
      ⟨.empty, Function.update (raceSavers none none) 0 (some (.trying noteJob sealed 0 1 0))⟩ :=
    @DraftStep.scan xorKem tagAead Go.formatInt raceParser alice noteKeys
      ⟨.empty, raceSavers none none⟩ 0 noteJob sealed rfl (by decide) texts.made
  have create := @DraftStep.create xorKem tagAead Go.formatInt raceParser alice noteKeys
      ⟨.empty, raceSavers (some (.trying noteJob sealed 0 1 0)) none⟩ 0 noteJob sealed 0 1 0 rfl
      (by decide) rfl
  have one : Go.formatInt (1 + ((0 : Nat) : Int)) = utf8 "1" := by decide
  have write := @race_write sealed text
    (raceSavers (some (.writing noteJob sealed true (utf8 "1") 1749513600 0)) none) 0 noteJob true
    1749513600 rfl texts.printed
  rw [update_raceSavers_zero] at scan write
  rw [one] at create
  dsimp only at create
  rw [update_raceSavers_zero] at create
  rw [if_pos rfl] at write
  rw [← start] at scan
  have mayScan : Careful Go.formatInt raceParser .start (.scanned noteJob) := by
    refine ⟨⟨?_, ?_, ?_, ?_⟩, ?_, ?_⟩
    · rintro _ ⟨⟩
      exact noteJob_fits
    · rintro _ _ _ _ _ _ ⟨⟩
    · rintro _ ⟨⟩
    · rintro _ _ _ _ _ _ _ ⟨⟩
    · rintro _ ⟨⟩
    · rintro _ ⟨⟩
  have mayCreate : Careful Go.formatInt raceParser
      ⟨.empty, raceSavers (some (.trying noteJob sealed 0 1 0)) none⟩ (.opened (utf8 "1")) := by
    refine ⟨⟨?_, ?_, ?_, ?_⟩, ?_, ?_⟩
    · rintro _ ⟨⟩
    · intro pid _ _ _ _ _ here
      cases search pid _ here
      exact ⟨show 0 < 100 by decide, by decide⟩
    · rintro _ ⟨⟩
    · intro pid _ _ _ _ _ _ here
      cases search pid _ here
    · rintro _ ⟨⟩ new ⟨pid, _, _, _, _, here⟩
      cases search pid _ here
    · rintro _ ⟨⟩
  have mayWrite : Careful Go.formatInt raceParser
      (raceWorld [] (some (.writing noteJob sealed true (utf8 "1") 1749513600 0)) none)
      (.saved (utf8 "1") noteJob) := by
    refine ⟨promised_race texts (.note true) .idle ?_ ?_, ?_, ?_⟩
    · rintro _ ⟨⟩
    · rintro _ ⟨⟩
    · rintro _ ⟨⟩
    · rintro _ ⟨⟩
  exact ((DraftRun.start.step mayScan scan).step mayCreate create).step mayWrite write

theorem noteKeys_own : ∀ kpk, noteKeys (alice.path (utf8 "kem_pk.bin")) = some kpk →
    xorKem.Matches kpk kemPair.sk := fun _ here => note_own 0 here (note_sk 0)

/-- The note is saved, and then saved over by two programs, the second of which reads it while the
first has its file open. -/
def raceLog : List DraftEvent :=
  [.scanned noteJob, .opened (utf8 "1"), .saved (utf8 "1") noteJob, .reading (utf8 "1") noteJob,
    .opened (utf8 "1"), .reading (utf8 "1") laterJob, .edited (utf8 "1") noteJob,
    .opened (utf8 "1"), .edited (utf8 "1") laterJob]

theorem race {sealed : SealedDraft} {text later : Bytes} (texts : RaceTexts sealed text later) :
    DraftRun xorKem tagAead Go.formatInt raceParser alice noteKeys (Promised Go.formatInt raceParser)
      (raceWorld later none none) raceLog := by
  have old : draftCreated raceParser alice.configDir ((raceDir text).files alice noteKeys)
      noteJob.calls (some (utf8 "1")) = some 1749513600 :=
    draftCreated_now rfl (raceDir_file text) texts.time
  have lost : draftCreated raceParser alice.configDir ((raceDir []).files alice noteKeys)
      laterJob.calls (some (utf8 "1")) = some 1749513601 := by
    unfold draftCreated
    dsimp only
    rw [raceDir_file, if_pos (show laterJob.calls.read = true from rfl)]
    dsimp only
    rw [texts.corrupt]
    rfl
  have madeLater := (sealJob_now noteJob 1749513601).trans texts.made
  have read := @race_read sealed text (raceSavers none none) 0 noteJob 1749513600 rfl (by decide) old
    texts.made
  have cut := @race_cut sealed text
    (raceSavers (some (.opening noteJob sealed (utf8 "1") 1749513600)) none) 0 noteJob 1749513600 rfl
  have readLater := @race_read sealed []
    (raceSavers (some (.writing noteJob sealed false (utf8 "1") 1749513600 0)) none) 1 laterJob 1749513601
    rfl (by decide) lost madeLater
  have write := @race_write sealed text
    (raceSavers (some (.writing noteJob sealed false (utf8 "1") 1749513600 0))
      (some (.opening laterJob sealed (utf8 "1") 1749513601))) 0 noteJob false 1749513600 rfl
    texts.printed
  have cutLater := @race_cut sealed text
    (raceSavers none (some (.opening laterJob sealed (utf8 "1") 1749513601))) 1 laterJob 1749513601 rfl
  have writeLater := @race_write sealed later
    (raceSavers none (some (.writing laterJob sealed false (utf8 "1") 1749513601 0))) 1 laterJob false
    1749513601 rfl texts.printedLater
  rw [update_raceSavers_zero] at read cut write
  rw [update_raceSavers_one] at readLater cutLater writeLater
  rw [if_neg Bool.false_ne_true] at write writeLater
  have saved := (note_saved texts).mono fun _ _ may => may.toPromised
  refine (((((saved.step ?_ read).step ?_ cut).step ?_ readLater).step ?_ write).step ?_
    cutLater).step ?_ writeLater
  · refine promised_race texts .idle .idle ?_ ?_
    · rintro _ ⟨⟩
      exact noteJob_fits
    · rintro _ ⟨⟩
  · refine promised_race texts (.opening _ _ _) .idle ?_ ?_ <;> rintro _ ⟨⟩
  · refine promised_race texts (.note false) .idle ?_ ?_
    · rintro _ ⟨⟩
      exact laterJob_fits
    · rintro _ ⟨⟩
  · refine promised_race texts (.note false) (.opening _ _ _) ?_ ?_ <;> rintro _ ⟨⟩
  · refine promised_race texts .idle (.opening _ _ _) ?_ ?_ <;> rintro _ ⟨⟩
  · refine promised_race texts .idle .later ?_ ?_ <;> rintro _ ⟨⟩

end Sample

end Shyake.Client
