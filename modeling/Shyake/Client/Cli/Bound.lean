import Shyake.Client.Cli.Rescue

/-!
# A reply goes where its draft says

A draft that is written as a reply keeps whom it goes to and which mail it answers, whatever is edited
in it and whatever `-t` says, until it is sent or written for another mail.
-/

namespace Shyake.Client

open CJson (printUnformatted PrintsShort HoldsShort)
open Lines (lines)

/-! ## What a draft is bound to -/

/-- Of the draft at a path, what is done to the mail that it answers. -/
def Done.bind (path : Bytes) (answered : Option Answered) : Done → Option Answered
  | writes p now => if p = path then now else answered
  | edits _ | sends _ _ => answered

/-- The mail that the draft at a path answers, after all that is done. -/
def binding (path : Bytes) (done : List Done) : Option Answered :=
  done.foldl (Done.bind path) none

theorem binding_snoc (path : Bytes) (done : List Done) (d : Done) :
    binding path (done ++ [d]) = d.bind path (binding path done) := by
  rw [binding, List.foldl_append]
  rfl

/-- The texts of a mail can be sealed and opened again. -/
def Answered.Short (d : Answered) : Prop :=
  d.sender.1.length ≤ maxText ∧ d.recipient.1.length ≤ maxText ∧ ∀ ref ∈ d.ref, ref.1.length ≤ maxText

/-- A draft goes to whom the mail is answered, with its reference; or it has none. -/
def Agrees (username : Bytes) (recipient replyRef : Option CString) : Option Answered → Prop
  | none => replyRef = none
  | some orig => orig.Short ∧ recipient = some (shyakeReplyRecipient username orig) ∧
      replyRef = orig.ref ∧ orig.ref.isSome

/-! ## What the files of the drafts hold -/

/-- The JSON of a draft that is sealed to a public key. -/
structure MadeDraft (kem : Kem) (aead : Aead) (printG : Int → Bytes) (kpk : Bytes) where
  recipient : Option CString
  subject : Option CString
  replyRef : Option CString
  body : Bytes
  id : Bytes
  created : Int
  now : Int
  symKey : {b : Bytes // b.length = 32}
  coins : Bytes
  encKey : Bytes
  sealed : SealedDraft
  text : Bytes
  wrapped : kemEncapsulateKey kem coins kpk symKey = some encKey
  made : SealedOf aead symKey encKey recipient subject replyRef body sealed
  createdShort : created.natAbs < 10 ^ 15
  nowShort : now.natAbs < 10 ^ 15
  lenShort : body.length < 10 ^ 15
  printed : printUnformatted printG (draftObj id created now body.length sealed) = some text

variable {kdf : Kdf} {keyAead : Bytes → Aead} {kem : Kem} {aead : Aead} {printG : Int → Bytes}
  {round : ℚ → ℚ} {cli : Cli} {kpk : Bytes}

variable (kdf keyAead kem aead printG cli kpk) in
/-- The public key has not changed, the secret key is its own, and every draft is one that was saved,
as far as it was written, and agrees with what is done. -/
structure Faithful (done : List Done) (files : Files) : Prop where
  pk : ∀ pk, files ((cli.ctx []).path (utf8 "kem_pk.bin")) = some pk → pk = kpk
  own : ∀ passphrase ksk, Calls.loadKsk kdf keyAead (cli.ctx passphrase) files = .ok ksk →
    kem.Matches kpk ksk
  drafts : ∀ draftId content, files (draftPath cli.configDir draftId) = some content → content = [] ∨
    ∃ (m : MadeDraft kem aead printG kpk) (n : Nat), content = m.text.take n ∧
      Agrees (cli.cfg.username.getD []) m.recipient m.replyRef
        (binding (draftPath cli.configDir draftId) done)

namespace MadeDraft

variable (m : MadeDraft kem aead printG kpk)

theorem parsesBack (prints : PrintsShort printG) (holds : HoldsShort round) :
    ParsesBack (CJson.parser round) printG (draftObj m.id m.created m.now m.body.length m.sealed) :=
  CJson.parser_parsesBack prints holds draftObj_ne_nil
    (short_draftObj m.id m.sealed m.createdShort m.nowShort m.lenShort)

/-- What is parsed of a part of it is all of it. -/
theorem parse_take (prints : PrintsShort printG) (holds : HoldsShort round) (n : Nat) {json : Json}
    (parsed : (CJson.parser round).parse (m.text.take n) = some json) :
    m.text.take n = m.text ∧ json = .ofObject (draftObj m.id m.created m.now m.body.length m.sealed) := by
  rcases Nat.lt_or_ge n m.text.length with cut | whole
  · rw [(m.parsesBack prints holds).part m.text m.printed n cut] at parsed
    cases parsed
  · rw [List.take_of_length_le whole, (m.parsesBack prints holds).whole m.text m.printed] at parsed
    exact ⟨List.take_of_length_le whole, (Option.some.inj parsed).symm⟩

end MadeDraft

/-! ## Reading -/

/-- A reference that is short enough comes back, and none does not. -/
theorem SealedOf.replyRef_opened {symKey encKey body : Bytes} {recipient subject replyRef : Option CString}
    {sealed : SealedDraft} (made : SealedOf aead symKey encKey recipient subject replyRef body sealed)
    (small : ∀ ref ∈ replyRef, ref.1.length ≤ maxText) :
    (sealed.encReplyTo.filter (· ≠ [])).bind (decryptFromB64 aead symKey) = replyRef.map (·.1) := by
  rcases made.sealsReply with ⟨-, none⟩ | ⟨pt, n, b64, here, text, drawn, encrypted, some⟩
  · rw [none]
    cases replyRef with
    | none => rfl
    | some ref =>
      have sealed := made.reply rfl
      rw [none] at sealed
      cases sealed
  · obtain ⟨ref, rfl, rfl⟩ := Option.map_eq_some_iff.mp here
    obtain ⟨b64', encrypted', opened⟩ := decryptFromB64_encrypted aead symKey drawn text (small ref rfl)
    cases encrypted.symm.trans encrypted'
    have nonempty : b64 ≠ [] := by
      rintro rfl
      unfold decryptFromB64 at opened
      rw [if_pos rfl] at opened
      cases opened
    rw [some, Option.filter_some, if_pos (by simpa using nonempty), Option.bind_some, opened,
      cstr_of_nulFree ref.2, Option.map_some]

/-- A draft that is read is what it was made of. -/
theorem Faithful.read (prints : PrintsShort printG) (holds : HoldsShort round) {done : List Done}
    {files : Files} (inv : Faithful kdf keyAead kem aead printG cli kpk done files)
    {passphrase lastError username draftId : Bytes} {d : Draft}
    (read : cliReadDraft kdf keyAead kem aead (CJson.parser round) (cli.ctx passphrase) lastError username
      draftId files = .ok d) :
    ∃ m : MadeDraft kem aead printG kpk, ReadAs aead m.symKey m.sealed d ∧
      files (draftPath cli.configDir draftId) = some m.text ∧
      Agrees (cli.cfg.username.getD []) m.recipient m.replyRef
        (binding (draftPath cli.configDir draftId) done) := by
  cases here : files (draftPath cli.configDir draftId) with
  | none =>
    unfold cliReadDraft parseDraftJson at read
    rw [show files (draftPath (cli.ctx passphrase).configDir draftId) = none from here] at read
    cases read
  | some raw =>
    cases parsed : (CJson.parser round).parse raw with
    | none =>
      unfold cliReadDraft parseDraftJson at read
      rw [show files (draftPath (cli.ctx passphrase).configDir draftId) = some raw from here] at read
      dsimp only at read
      rw [parsed] at read
      cases read
    | some json =>
      rcases inv.drafts draftId raw here with rfl | ⟨m, n, rfl, agrees⟩
      · cases parsed
      · obtain ⟨whole, rfl⟩ := m.parse_take prints holds n parsed
        have wrapped := cstr_kemEncapsulateKey kem m.wrapped
        obtain ⟨ksk, sym, loaded, unwrapped, readAs⟩ := readAs_of_ok here parsed m.made wrapped read
        have same := kemDecapsulateKey_encapsulated kem (inv.own _ _ loaded) m.symKey.2 m.wrapped
        obtain rfl := Option.some.inj (same.symm.trans unwrapped)
        exact ⟨m, readAs, congrArg some whole, agrees⟩

/-- What the draft of a reply is read as, and that of another mail. -/
def Bound (username : Bytes) (d : Draft) : Option Answered → Prop
  | none => d.replyRef = none
  | some orig => d.recipient = some (shyakeReplyRecipient username orig).1 ∧
      ∃ ref, orig.ref = some ref ∧ d.replyRef = some ref.1

theorem bound_of_agrees {m : MadeDraft kem aead printG kpk} {username : Bytes} {d : Draft}
    {answered : Option Answered} (readAs : ReadAs aead m.symKey m.sealed d)
    (agrees : Agrees username m.recipient m.replyRef answered) : Bound username d answered := by
  have reply (small : ∀ ref ∈ m.replyRef, ref.1.length ≤ maxText) : d.replyRef = m.replyRef.map (·.1) :=
    readAs.replyRef.trans (m.made.replyRef_opened small)
  cases answered with
  | none =>
    have none : m.replyRef = none := agrees
    have opened := reply (by rw [none]; exact nofun)
    rw [none] at opened
    exact opened
  | some orig =>
    obtain ⟨short, recipient, replyRef, there⟩ := agrees
    obtain ⟨ref, here⟩ := Option.isSome_iff_exists.mp there
    have opened := reply (by rw [replyRef]; exact short.2.2)
    rw [replyRef, here] at opened
    refine ⟨?_, ref, here, opened⟩
    rw [readAs.recipient, m.made.sealsRecipient.opened, recipient]
    · rfl
    · rintro pt mem
      obtain ⟨text, -, rfl⟩ := Option.map_eq_some_iff.mp mem
      exact text.2
    · rw [recipient]
      rintro _ ⟨⟩
      unfold shyakeReplyRecipient
      split
      · exact short.2.1
      · exact short.1

/-- The body that is read is not longer than what was saved. -/
theorem MadeDraft.length_body (m : MadeDraft kem aead printG kpk) {d : Draft} {body : Bytes}
    (readAs : ReadAs aead m.symKey m.sealed d) (here : d.body = some body) : body.length < 10 ^ 15 := by
  have opened := readAs.body.symm.trans here
  obtain ⟨nonce, drawn, text, encrypted⟩ := m.made.sealsBody
  have short := m.lenShort
  rcases Nat.lt_or_ge maxText m.body.length with large | small
  · exact (decryptFromB64_cut aead drawn large encrypted opened).trans short
  · obtain ⟨b64, encrypted', opened'⟩ := decryptFromB64_encrypted aead m.symKey drawn text small
    cases encrypted.symm.trans encrypted'
    obtain rfl := Option.some.inj (opened'.symm.trans opened)
    exact Nat.lt_of_le_of_lt (List.takeWhile_prefix _).length_le short

/-! ## Saving and deleting -/

theorem openDraft_path {configDir : Bytes} {files : Files} {calls : DraftCalls} {target : Option Bytes}
    {id path : Bytes} (opened : openDraft configDir files calls target = some (id, path)) :
    ∃ draftId, path = draftPath configDir draftId := by
  cases target with
  | some draftId =>
    unfold openDraft at opened
    dsimp only at opened
    split at opened
    · cases opened
      exact ⟨draftId, rfl⟩
    · cases opened
  | none =>
    obtain ⟨n, -, -, -, path, -⟩ := newDraft_spec opened
    exact ⟨_, path⟩

/-- What is done at one path leaves the others' bindings, and what is at the path is what it says. -/
theorem Faithful.update {done done' : List Done} {files : Files}
    (inv : Faithful kdf keyAead kem aead printG cli kpk done files) {path : Bytes}
    {content : Option Bytes} (at_ : ∃ draftId, path = draftPath cli.configDir draftId)
    (others : ∀ p, p ≠ path → binding p done' = binding p done)
    (new : ∀ text, content = some text → text = [] ∨
      ∃ (m : MadeDraft kem aead printG kpk) (n : Nat), text = m.text.take n ∧
        Agrees (cli.cfg.username.getD []) m.recipient m.replyRef (binding path done')) :
    Faithful kdf keyAead kem aead printG cli kpk done' (Function.update files path content) := by
  obtain ⟨draftId, rfl⟩ := at_
  have apart (ctx : Ctx) (dir : ctx.configDir = cli.configDir) (name : Bytes) :
      ctx.path (107 :: name) ≠ draftPath cli.configDir draftId := by
    rw [← dir]
    exact (LocalItem.draft draftId).path_ne_kem ctx name
  refine ⟨fun pk here => inv.pk pk ?_, fun passphrase ksk loaded => inv.own passphrase ksk ?_, ?_⟩
  · rw [kemName.2] at here ⊢
    rwa [Function.update_of_ne (apart (cli.ctx []) rfl _)] at here
  · unfold Calls.loadKsk loadSkDecrypted at loaded ⊢
    rw [kemName.1] at loaded ⊢
    rwa [Function.update_of_ne (apart (cli.ctx passphrase) rfl _)] at loaded
  · intro other text here
    by_cases same : draftPath cli.configDir other = draftPath cli.configDir draftId
    · rw [same, Function.update_self] at here
      rw [same]
      exact new text here
    · rw [Function.update_of_ne same] at here
      rw [others _ same]
      exact inv.drafts other text here

/-- A draft that is deleted binds nothing. -/
theorem Faithful.delete {done : List Done} {files : Files}
    (inv : Faithful kdf keyAead kem aead printG cli kpk done files) (draftId : Bytes) (unlinks : Bool) :
    Faithful kdf keyAead kem aead printG cli kpk done
      (cliDeleteDraft cli.configDir draftId unlinks files).2 := by
  unfold cliDeleteDraft
  dsimp only
  split
  · exact inv
  split
  · exact inv.update ⟨draftId, rfl⟩ (fun _ _ => rfl) nofun
  · exact inv

/-- The time at which a draft was created is taken from a draft, or is now. -/
theorem Faithful.created (prints : PrintsShort printG) (holds : HoldsShort round) {done : List Done}
    {files : Files} (inv : Faithful kdf keyAead kem aead printG cli kpk done files) {calls : DraftCalls}
    {target : Option Bytes} {created : Int} (nowShort : calls.now.natAbs < 10 ^ 15)
    (times : draftCreated (CJson.parser round) cli.configDir files calls target = some created) :
    created.natAbs < 10 ^ 15 := by
  cases target with
  | none =>
    cases times
    exact nowShort
  | some draftId =>
    have old := times
    unfold draftCreated at times
    dsimp only at times
    split at times
    · cases times
    rename_i raw read
    split at read
    · rename_i reads
      cases parsed : (CJson.parser round).parse raw with
      | none =>
        rw [parsed] at times
        cases times
        exact nowShort
      | some json =>
        rcases inv.drafts draftId raw read with rfl | ⟨m, n, rfl, -⟩
        · cases parsed
        · obtain ⟨whole, -⟩ := m.parse_take prints holds n parsed
          rw [whole] at read
          have same := Saving.draftCreated_whole prints holds reads read m.createdShort m.nowShort
            m.lenShort m.printed
          cases old.symm.trans same
          exact m.createdShort
    · cases read

theorem isSaved_eq_false {r : Option SavedDraft} (h : ∀ d ∈ r, d.err ≠ .OK) : isSaved r = false := by
  cases r with
  | none => rfl
  | some d =>
    unfold isSaved
    rw [Option.any_some]
    exact beq_false_of_ne (h d rfl)

/-- What says of a path how its draft is written says nothing of the others. -/
def OfItsPath (as : Bytes → Done) : Prop :=
  ∀ path p answered, p ≠ path → (as path).bind p answered = answered

/-- A save leaves drafts that agree with what is done, if what it says agrees with what it writes. -/
theorem Faithful.save (prints : PrintsShort printG) (holds : HoldsShort round) {done : List Done}
    {files : Files} (inv : Faithful kdf keyAead kem aead printG cli kpk done files)
    {calls : CommandCalls} {passphrase body : Bytes} {recipient subject replyRef : Option CString}
    {target : Option Bytes} {r : Option SavedDraft} {files' : Files} {as : Bytes → Done} (only : OfItsPath as)
    (nowShort : calls.draft.now.natAbs < 10 ^ 15) (lenShort : body.length < 10 ^ 15)
    (agrees : ∀ id path, openDraft cli.configDir files calls.draft target = some (id, path) →
      Agrees (cli.cfg.username.getD []) recipient replyRef ((as path).bind path (binding path done)))
    (saved : cliSaveDraft kem aead printG (CJson.parser round) (cli.ctx passphrase) calls.draft recipient
      subject replyRef body target files = (r, files')) :
    Faithful kdf keyAead kem aead printG cli kpk (done ++ written cli calls as target files r) files' := by
  rcases cliSaveDraft_cases saved with ⟨failed, kept⟩ | ⟨created, symKey, encKey, sealed, id, path, text,
    times, key, fields, opened, printed, rfl, rfl⟩
  · have nothing : written cli calls as target files r = [] := by
      unfold written
      rw [isSaved_eq_false failed]
      split <;> rfl
    rw [nothing, List.append_nil]
    rcases kept with rfl | ⟨id, path, opened, rfl⟩
    · exact inv
    · exact inv.update (openDraft_path opened) (fun _ _ => rfl) fun _ same => .inl (Option.some.inj same).symm
  · have one : written cli calls as target files (some ⟨.OK, [], some id⟩) = [as path] := by
      unfold written
      rw [show openDraft cli.configDir files calls.draft target = some (id, path) from opened]
      rfl
    obtain ⟨kpk', coins, here, -, -, wrapped⟩ := shyakeSelfencBegin_iff.mp key
    obtain rfl := inv.pk kpk' here
    rw [one]
    refine inv.update (openDraft_path opened) (fun p other => ?_) fun _ same => .inr ?_
    · rw [binding_snoc]
      exact only path p _ other
    · obtain rfl := Option.some.inj same
      rw [binding_snoc]
      exact ⟨⟨recipient, subject, replyRef, body, id, created, calls.draft.now, symKey, coins, encKey, sealed,
        text, wrapped, sealedOf aead fields, inv.created prints holds nowShort times, nowShort, lenShort,
        printed⟩, calls.draft.written, rfl, agrees id path opened⟩

theorem ofItsPath_writes (answered : Option Answered) : OfItsPath (.writes · answered) :=
  fun _ _ _ other => if_neg fun same => other same.symm

theorem ofItsPath_edits : OfItsPath .edits := fun _ _ _ _ => rfl

/-! ## Commands -/

/-- What is given away out of a draft goes to whom the draft is bound to, with its reference; out of a
draft that is no reply it goes without one. -/
def Carried (username : Bytes) (mail : Transmission) : Option Answered → Prop
  | none => mail.replyRef = none
  | some orig => mail.recipient = (shyakeReplyRecipient username orig).1 ∧
      ∃ ref, orig.ref = some ref ∧ mail.replyRef = some ref.1

/-- Whatever is given away out of a draft, is as the draft is bound by then. -/
def Rightly (username : Bytes) : (before done : List Done) → Prop
  | _, [] => True
  | before, d :: done => (∀ path mail, d = .sends (some path) mail →
      Carried username mail (binding path before)) ∧ Rightly username (before ++ [d]) done

theorem rightly_append {username : Bytes} {before first second : List Done} :
    Rightly username before (first ++ second) ↔
      Rightly username before first ∧ Rightly username (before ++ first) second := by
  induction first generalizing before with
  | nil => simp [Rightly]
  | cons d first ih => simp [Rightly, ih, and_assoc]

variable (kdf keyAead kem aead printG cli kpk) in
/-- A command gives away drafts as they are bound, and leaves them faithful. -/
structure Outcome.Keeps (before : List Done) (out : Outcome) : Prop where
  rightly : Rightly (cli.cfg.username.getD []) before out.done
  faithful : Faithful kdf keyAead kem aead printG cli kpk (before ++ out.done) out.files

variable {before : List Done} {files : Files}

theorem Outcome.keeps_silent (inv : Faithful kdf keyAead kem aead printG cli kpk before files)
    (success : Bool) : Outcome.Keeps kdf keyAead kem aead printG cli kpk before ⟨success, [], files⟩ :=
  ⟨trivial, by rwa [List.append_nil]⟩

theorem Outcome.Keeps.andThen {first : Outcome} {next : Files → Outcome}
    (kept : Outcome.Keeps kdf keyAead kem aead printG cli kpk before first)
    (then_ : Outcome.Keeps kdf keyAead kem aead printG cli kpk (before ++ first.done) (next first.files)) :
    Outcome.Keeps kdf keyAead kem aead printG cli kpk before (first.andThen next) :=
  ⟨rightly_append.mpr ⟨kept.rightly, then_.rightly⟩, by
    rw [Outcome.andThen, ← List.append_assoc]
    exact then_.faithful⟩

/-- A mail that is given away changes no draft. -/
theorem Faithful.sends (inv : Faithful kdf keyAead kem aead printG cli kpk before files)
    (path : Option Bytes) (mail : Transmission) :
    Faithful kdf keyAead kem aead printG cli kpk (before ++ [.sends path mail]) files := by
  refine ⟨inv.pk, inv.own, fun draftId content here => ?_⟩
  rw [binding_snoc]
  exact inv.drafts draftId content here

theorem keeps_direct (inv : Faithful kdf keyAead kem aead printG cli kpk before files) (success : Bool)
    (mail : Transmission) : Outcome.Keeps kdf keyAead kem aead printG cli kpk before
      ⟨success, [.sends none mail], files⟩ :=
  ⟨⟨nofun, trivial⟩, inv.sends none mail⟩

theorem keeps_sends (inv : Faithful kdf keyAead kem aead printG cli kpk before files)
    (calls : CommandCalls) {draftId : Bytes} {mail : Transmission} (success : Bool)
    (carried : Carried (cli.cfg.username.getD []) mail (binding (draftPath cli.configDir draftId) before)) :
    Outcome.Keeps kdf keyAead kem aead printG cli kpk before
      ⟨success, [.sends (some (draftPath cli.configDir draftId)) mail],
        deleteSent cli calls draftId files⟩ := by
  refine ⟨⟨?_, trivial⟩, ?_⟩
  · rintro _ _ ⟨⟩
    exact carried
  · unfold deleteSent
    have sends := inv.sends (some (draftPath cli.configDir draftId)) mail
    split
    · exact sends.delete draftId calls.unlinks
    · exact sends

/-- A command that writes a draft, if no more. -/
theorem keeps_save (prints : PrintsShort printG) (holds : HoldsShort round)
    (inv : Faithful kdf keyAead kem aead printG cli kpk before files)
    {calls : CommandCalls} {passphrase body : Bytes} {recipient subject replyRef : Option CString}
    {target : Option Bytes} {r : Option SavedDraft} {files' : Files} {as : Bytes → Done} (success : Bool)
    (only : ∀ path, ∃ answered, as path = .writes path answered ∨ as path = .edits path)
    (ofItsPath : OfItsPath as)
    (nowShort : calls.draft.now.natAbs < 10 ^ 15) (lenShort : body.length < 10 ^ 15)
    (agrees : ∀ id path, openDraft cli.configDir files calls.draft target = some (id, path) →
      Agrees (cli.cfg.username.getD []) recipient replyRef ((as path).bind path (binding path before)))
    (saved : cliSaveDraft kem aead printG (CJson.parser round) (cli.ctx passphrase) calls.draft recipient
      subject replyRef body target files = (r, files')) :
    Outcome.Keeps kdf keyAead kem aead printG cli kpk before
      ⟨success, written cli calls as target files r, files'⟩ := by
  refine ⟨?_, inv.save prints holds ofItsPath nowShort lenShort agrees saved⟩
  unfold written
  split
  · rename_i id path opened
    split
    · refine ⟨fun _ _ sends => ?_, trivial⟩
      obtain ⟨answered, writes | edits⟩ := only path
      · cases writes.symm.trans sends
      · cases edits.symm.trans sends
    · trivial
  · trivial

/-! ## Offering, sending -/

theorem keeps_offerReplySend (prints : PrintsShort printG) (holds : HoldsShort round)
    (inv : Faithful kdf keyAead kem aead printG cli kpk before files) (calls : CommandCalls)
    (passphrase : Bytes) {draftId : Bytes} {orig : Answered}
    (bound : binding (draftPath cli.configDir draftId) before = some orig) :
    Outcome.Keeps kdf keyAead kem aead printG cli kpk before
      (offerReplySend kdf keyAead kem aead (CJson.parser round) cli calls passphrase draftId
        (shyakeReplyRecipient (cli.cfg.username.getD []) orig).1 files) := by
  unfold offerReplySend
  split
  · exact Outcome.keeps_silent inv true
  split
  · exact Outcome.keeps_silent inv false
  rename_i d read
  obtain ⟨m, readAs, -, agrees⟩ := inv.read prints holds read
  have carries := bound_of_agrees readAs agrees
  rw [bound] at carries
  obtain ⟨-, ref, here, there⟩ := carries
  split
  · rename_i body replyRef _ some
    split
    · exact Outcome.keeps_silent inv false
    · refine keeps_sends inv calls _ ?_
      rw [bound]
      exact ⟨rfl, ref, here, some.symm.trans there⟩
  · exact Outcome.keeps_silent inv false

theorem keeps_sendDraft (prints : PrintsShort printG) (holds : HoldsShort round)
    (inv : Faithful kdf keyAead kem aead printG cli kpk before files) (calls : CommandCalls)
    (recipient subject : Option CString) (draftId : Bytes) :
    Outcome.Keeps kdf keyAead kem aead printG cli kpk before
      (sendDraft kdf keyAead kem aead (CJson.parser round) cli calls recipient subject draftId files) := by
  unfold sendDraft
  split
  · exact Outcome.keeps_silent inv false
  split
  · exact Outcome.keeps_silent inv false
  split
  · exact Outcome.keeps_silent inv false
  rename_i d read
  obtain ⟨m, readAs, -, agrees⟩ := inv.read prints holds read
  have carries := bound_of_agrees readAs agrees
  split
  · exact Outcome.keeps_silent inv false
  split
  · exact Outcome.keeps_silent inv false
  rename_i body _ goes
  dsimp only
  split
  · rename_i receiver _ receives _
    split
    · exact Outcome.keeps_silent inv false
    refine keeps_sends inv calls _ ?_
    cases bound : binding (draftPath cli.configDir draftId) before with
    | none =>
      rw [bound] at carries
      exact carries
    | some orig =>
      rw [bound] at carries
      obtain ⟨bindsTo, ref, here, there⟩ := carries
      refine ⟨?_, ref, here, there⟩
      rw [bindsTo] at receives goes
      cases recipient with
      | none =>
        -- the draft's own recipient
        rw [Option.map_none, Option.none_or] at receives
        exact (Option.some.inj (Option.filter_eq_some_iff.mp receives).1).symm
      | some r =>
        cases receives
        by_contra other
        exact goes ⟨by rw [there]; rfl, by simpa using fun same => other same.symm⟩
  · exact Outcome.keeps_silent inv false

/-! ## Writing -/

/-- What is usual of a command's surroundings: the time has at most fifteen digits, there is room for
another draft's number, and the editor's text is no larger than any disk. -/
structure CommandCalls.Usual (calls : CommandCalls) : Prop where
  now : calls.draft.now.natAbs < 10 ^ 15
  ids : 0 ≤ calls.draft.maxId ∧ calls.draft.maxId + 101 ≤ 2 ^ 63
  edited : ∀ full orig text, (calls.launch full orig).text = some text → text.length < 10 ^ 15

/-- The texts are no larger than any disk, and what is answered can be sealed. -/
def Command.Usual : Command → Prop
  | sendFile _ _ text => ∀ t ∈ text, t.length < 10 ^ 15
  | reply orig _ text => (∀ d ∈ orig, d.Short) ∧ ∀ body, text = .direct (some body) → body.length < 10 ^ 15
  | _ => True

theorem length_afterLines {ls : List Bytes} {rest : Bytes} (h : afterLines ls = some rest) :
    rest.length ≤ ls.flatten.length := by
  induction ls with
  | nil => cases h
  | cons line ls ih =>
    unfold afterLines at h
    rw [List.flatten_cons, List.length_append]
    split at h
    · cases h
      omega
    · have := ih h
      omega

theorem length_edit {calls : CommandCalls} (usual : calls.Usual) {initial buf : Bytes}
    {orig : Option Answered} (h : edit calls initial orig = some buf) : buf.length < 10 ^ 15 := by
  obtain ⟨edited, h, here⟩ := Option.bind_eq_some_iff.mp h
  unfold editDraft at h
  extract_lets vim split aborted goesOn at h
  obtain ⟨full, h⟩ : ∃ full, goesOn full = some edited := by
    split at h
    · split at h
      · exact ⟨initial, h⟩
      · obtain ⟨full, -, h⟩ := Option.bind_eq_some_iff.mp h
        exact ⟨full, h⟩
    · exact ⟨initial, h⟩
  dsimp only [goesOn] at h
  generalize (if split = true then orig.map fun orig => formatOriginal orig.shown calls.date
    else none) = beside at h
  split at h
  · cases h
    cases here
  split at h
  · cases h
    cases here
  split at h
  · cases h
    cases here
  rename_i text filtered
  obtain ⟨read, -⟩ := Option.filter_eq_some_iff.mp filtered
  obtain ⟨raw, there, rfl⟩ := Option.map_eq_some_iff.mp read
  have small : (Client.cstr raw).length < 10 ^ 15 :=
    Nat.lt_of_le_of_lt (List.takeWhile_prefix _).length_le (usual.edited _ _ raw there)
  have last {text : Bytes} {warning : Bytes} (part : text.length < 10 ^ 15)
      (h : (if text = [] then some ⟨none, warning ++ aborted⟩ else some ⟨some text, warning⟩) =
        some edited) : buf.length < 10 ^ 15 := by
    split at h
    · cases h
      cases here
    · cases h
      cases here
      exact part
  split at h
  · cases after : afterScissors (Client.cstr raw) with
    | some rest =>
      rw [after] at h
      have part := length_afterLines after
      rw [Lines.flatten_lines] at part
      exact last (Nat.lt_of_le_of_lt part small) h
    | none =>
      rw [after] at h
      exact last small h
  · exact last small h

theorem length_parsed {ls : List Bytes} {recipient subject : Option Bytes} {c : Compose}
    (h : parseComposeLines recipient subject ls = some c) : c.body.length ≤ ls.flatten.length := by
  induction ls generalizing recipient subject with
  | nil => cases h
  | cons line ls ih =>
    unfold parseComposeLines at h
    dsimp only at h
    rw [List.flatten_cons, List.length_append]
    split at h
    · cases h
      dsimp only
      omega
    split at h
    · have := ih h
      omega
    split at h
    · have := ih h
      omega
    · have := ih h
      omega

/-- The recipient of a reply is kept, and the body is of the text. -/
theorem editedDraft_spec {buf warnings : Bytes} {replyTo : Option Bytes} {text : DraftText}
    (h : editedDraft buf replyTo = .ok (text, warnings)) :
    text.body.length ≤ buf.length ∧ ∀ r, replyTo = some r → text.recipient = some r := by
  unfold editedDraft at h
  cases parsed : parseComposeBuffer buf with
  | none =>
    rw [parsed] at h
    cases h
  | some c =>
    have part := length_parsed parsed
    rw [Lines.flatten_lines] at part
    have dropped := (List.dropWhile_suffix (l := c.body) fun c : UInt8 => c == 10 || c == 13).length_le
    rw [parsed] at h
    dsimp only at h
    split at h
    · cases h
    · cases replyTo with
      | none =>
        cases h
        exact ⟨dropped.trans part, nofun⟩
      | some r =>
        cases h
        exact ⟨dropped.trans part, fun _ same => same⟩

theorem length_sendText (subject : Option CString) (text : Bytes) :
    (sendText subject text).2.length ≤ text.length := by
  cases subject with
  | some subject => exact Nat.le_refl _
  | none =>
    unfold sendText extractSubject
    dsimp only
    rw [List.length_drop]
    exact (Nat.sub_le _ _).trans (List.dropWhile_suffix _).length_le

theorem toCString_self (s : CString) : toCString s.1 = s := Subtype.ext (cstr_of_nulFree s.2)

theorem written_of_failed {calls : CommandCalls} {as : Bytes → Done} {target : Option Bytes}
    {r : Option SavedDraft} (failed : isSaved r = false) : written cli calls as target files r = [] := by
  unfold written
  rw [failed]
  split <;> rfl

theorem written_of_saved {calls : CommandCalls} {as : Bytes → Done} {target : Option Bytes}
    {r : Option SavedDraft} {id path : Bytes}
    (opened : openDraft cli.configDir files calls.draft target = some (id, path))
    (saved : isSaved r = true) : written cli calls as target files r = [as path] := by
  unfold written
  rw [opened]
  exact if_pos saved

section

variable (prints : PrintsShort printG) (holds : HoldsShort round)
  (inv : Faithful kdf keyAead kem aead printG cli kpk before files) {calls : CommandCalls}
  (usual : calls.Usual)

include prints holds inv usual

theorem keeps_rescueDraft (passphrase : Bytes) {answered : Option Answered} {recipient : CString}
    (subject : CString) {replyRef : Option CString} {body : Bytes} (lenShort : body.length < 10 ^ 15)
    (agrees : Agrees (cli.cfg.username.getD []) (some recipient) replyRef answered) :
    Outcome.Keeps kdf keyAead kem aead printG cli kpk before
      (rescueDraft kem aead printG (CJson.parser round) cli calls passphrase answered recipient subject
        replyRef body files) := by
  unfold rescueDraft
  refine keeps_save prints holds inv false (fun _ => ⟨answered, .inl rfl⟩) (ofItsPath_writes answered)
    usual.now lenShort (fun _ path _ => ?_) rfl
  rw [show (Done.writes path answered).bind path (binding path before) = answered from if_pos rfl]
  exact agrees

/-- What an edited draft is saved as, and that a new one is bound by its number. -/
theorem keeps_saveEdited (passphrase : Bytes) (as : Bytes → Done) (replyRef : Option CString)
    (replyTo target : Option Bytes) {buf : Bytes} (small : buf.length < 10 ^ 15)
    (only : ∀ path, ∃ answered, as path = .writes path answered ∨ as path = .edits path)
    (ofItsPath : OfItsPath as)
    (agrees : ∀ id path recipient, openDraft cli.configDir files calls.draft target = some (id, path) →
      (∀ r, replyTo = some r → recipient = some (toCString r)) →
      Agrees (cli.cfg.username.getD []) recipient replyRef ((as path).bind path (binding path before))) :
    let (out, newId) := saveEdited kem aead printG (CJson.parser round) cli calls passphrase as replyRef
      replyTo target buf files
    Outcome.Keeps kdf keyAead kem aead printG cli kpk before out ∧
      ∀ id, newId = some id → target = none → out.done = [as (draftPath cli.configDir id)] := by
  unfold saveEdited saveEditedDraft
  cases edited : editedDraft buf replyTo with
  | error text => exact ⟨Outcome.keeps_silent inv false, nofun⟩
  | ok found =>
    obtain ⟨text, warnings⟩ := found
    obtain ⟨shorter, keeps⟩ := editedDraft_spec edited
    dsimp only [Except.map]
    cases saved : cliSaveDraft kem aead printG (CJson.parser round) (cli.ctx passphrase) calls.draft
      (text.recipient.map toCString) (text.subject.map toCString) replyRef text.body target files with
    | mk r files' =>
    refine ⟨keeps_save prints holds inv _ only ofItsPath usual.now (Nat.lt_of_le_of_lt shorter small)
      (fun id path opened => agrees id path _ opened fun r same => by rw [keeps r same]; rfl) saved, ?_⟩
    rintro id new rfl
    rcases cliSaveDraft_cases saved with ⟨failed, -⟩ | ⟨_, _, _, _, shown, path, _, -, -, -, opened, -, rfl, -⟩
    · rw [isSaved_eq_false failed] at new
      cases new
    · cases new
      have names : Names calls.draft id id none := ⟨rfl, usual.ids⟩
      obtain ⟨-, rfl⟩ := openDraft_names names opened
      exact written_of_saved opened rfl

theorem keeps_sendFile (recipient subject : Option CString) (text : Option Bytes)
    (small : ∀ t ∈ text, t.length < 10 ^ 15) :
    Outcome.Keeps kdf keyAead kem aead printG cli kpk before
      (sendFile kem aead printG (CJson.parser round) cli calls recipient subject text files) := by
  unfold sendFile
  split
  · rename_i to_ text
    have part := Nat.lt_of_le_of_lt (length_sendText subject text) (small text rfl)
    dsimp only
    split
    · exact Outcome.keeps_silent inv false
    split
    · exact Outcome.keeps_silent inv false
    split
    · exact Outcome.keeps_silent inv false
    split
    · exact keeps_direct inv true _
    · exact (keeps_direct inv false _).andThen
        (keeps_rescueDraft prints holds (inv.sends none _) usual _ _ part rfl)
  · exact Outcome.keeps_silent inv false

variable {orig : Answered} {ref : CString} (short : orig.Short) (here : orig.ref = some ref)

include short here

theorem keeps_replyDirect (passphrase : Bytes) (subject : Option CString) {body : Bytes}
    (small : body.length < 10 ^ 15) :
    Outcome.Keeps kdf keyAead kem aead printG cli kpk before
      (replyDirect kem aead printG (CJson.parser round) cli calls passphrase orig
        (shyakeReplyRecipient (cli.cfg.username.getD []) orig) ref subject body files) := by
  unfold replyDirect
  split
  · exact Outcome.keeps_silent inv false
  dsimp only
  split
  · exact keeps_direct inv true _
  · exact (keeps_direct inv false _).andThen (keeps_rescueDraft prints holds (inv.sends none _) usual _ _
      small ⟨short, rfl, here.symm, by rw [here]; rfl⟩)

theorem keeps_replyDraft (passphrase : Bytes) (subject : Option CString) (draftId : Bytes) :
    Outcome.Keeps kdf keyAead kem aead printG cli kpk before
      (replyDraft kdf keyAead kem aead printG (CJson.parser round) cli calls passphrase orig
        (shyakeReplyRecipient (cli.cfg.username.getD []) orig) ref subject draftId files) := by
  unfold replyDraft
  split
  · exact Outcome.keeps_silent inv false
  rename_i d read
  obtain ⟨m, readAs, -, -⟩ := inv.read prints holds read
  split
  · exact Outcome.keeps_silent inv false
  rename_i body there
  dsimp only
  generalize (if (d.subject.filter (· ≠ [])).isSome ∧ (subjectProblem d.subject).isNone then
    d.subject.map toCString else subject) = sub
  cases saved : cliSaveDraft kem aead printG (CJson.parser round) (cli.ctx passphrase) calls.draft
    (some (shyakeReplyRecipient (cli.cfg.username.getD []) orig)) sub (some ref) body (some draftId) files with
  | mk r files' =>
  have kept (success : Bool) := keeps_save prints holds inv success (fun _ => ⟨some orig, .inl rfl⟩)
    (ofItsPath_writes (some orig)) usual.now (m.length_body readAs there) (fun _ path _ => by
      rw [show (Done.writes path (some orig)).bind path (binding path before) = some orig from if_pos rfl]
      exact ⟨short, rfl, here.symm, by rw [here]; rfl⟩) saved
  split
  · rename_i ok
    refine (kept true).andThen (keeps_offerReplySend prints holds (kept true).faithful calls passphrase ?_)
    -- the draft is bound to the mail now
    rcases cliSaveDraft_cases saved with ⟨failed, -⟩ | ⟨_, _, _, _, id, path, _, -, -, -, opened, -, rfl, -⟩
    · rw [isSaved_eq_false failed] at ok
      cases ok
    · have names : Names calls.draft id draftId (some draftId) := rfl
      obtain ⟨-, rfl⟩ := openDraft_names names opened
      rw [written_of_saved opened rfl, binding_snoc]
      exact if_pos rfl
  · rename_i failed
    have silent := kept false
    rw [written_of_failed (by simpa using failed)] at silent
    exact silent

theorem keeps_replyEdited (passphrase : Bytes) (subject : Option CString) :
    Outcome.Keeps kdf keyAead kem aead printG cli kpk before
      (replyEdited kdf keyAead kem aead printG (CJson.parser round) cli calls passphrase orig
        (shyakeReplyRecipient (cli.cfg.username.getD []) orig) ref subject files) := by
  unfold replyEdited
  split
  · exact Outcome.keeps_silent inv false
  rename_i buf edited
  have bound (path : Bytes) : (Done.writes path (some orig)).bind path (binding path before) = some orig :=
    if_pos rfl
  have saves := keeps_saveEdited prints holds inv usual passphrase (.writes · (some orig)) (some ref)
    (some (shyakeReplyRecipient (cli.cfg.username.getD []) orig).1) none
    (length_edit usual edited) (fun _ => ⟨some orig, .inl rfl⟩) (ofItsPath_writes (some orig))
    fun _ path recipient _ keeps => by
      rw [bound path, keeps _ rfl, toCString_self]
      exact ⟨short, rfl, here.symm, by rw [here]; rfl⟩
  dsimp only at saves ⊢
  obtain ⟨kept, new⟩ := saves
  split
  · exact kept
  · rename_i id some
    refine kept.andThen (keeps_offerReplySend prints holds kept.faithful calls passphrase ?_)
    rw [new id some rfl, binding_snoc]
    exact if_pos rfl

end

section

variable (prints : PrintsShort printG) (holds : HoldsShort round)
  (inv : Faithful kdf keyAead kem aead printG cli kpk before files) {calls : CommandCalls}
  (usual : calls.Usual)

include prints holds inv usual

theorem keeps_reply {orig : Option Answered} (subject : Option CString) {text : ReplyText}
    (short : ∀ d ∈ orig, d.Short) (small : ∀ body, text = .direct (some body) → body.length < 10 ^ 15) :
    Outcome.Keeps kdf keyAead kem aead printG cli kpk before
      (reply kdf keyAead kem aead printG (CJson.parser round) cli calls orig subject text files) := by
  unfold reply
  split
  · exact Outcome.keeps_silent inv false
  split
  · exact Outcome.keeps_silent inv false
  split
  · exact Outcome.keeps_silent inv false
  · rename_i passphrase orig unread _
    split
    · exact Outcome.keeps_silent inv false
    rename_i ref here
    dsimp only
    have short := short orig rfl
    split
    · exact keeps_replyDraft prints holds inv usual short here _ _ _
    · rename_i body
      cases body with
      | none => exact (unread rfl).elim
      | some body => exact keeps_replyDirect prints holds inv usual short here _ _ (small body rfl)
    · exact keeps_replyEdited prints holds inv usual short here _ _
  · exact Outcome.keeps_silent inv false

/-- A draft that is written as no reply is bound to no mail. -/
theorem keeps_plain (passphrase : Bytes) (target : Option Bytes) {buf : Bytes}
    (small : buf.length < 10 ^ 15) :
    Outcome.Keeps kdf keyAead kem aead printG cli kpk before
      (saveEdited kem aead printG (CJson.parser round) cli calls passphrase (.writes · none) none none
        target buf files).1 :=
  (keeps_saveEdited prints holds inv usual passphrase (.writes · none) none none target small
    (fun _ => ⟨none, .inl rfl⟩) (ofItsPath_writes none) fun _ path _ _ _ => by
      rw [show (Done.writes path none).bind path (binding path before) = none from if_pos rfl]
      rfl).1

theorem keeps_composeNew : Outcome.Keeps kdf keyAead kem aead printG cli kpk before
    (composeNew kem aead printG (CJson.parser round) cli calls files) := by
  unfold composeNew
  split
  · exact Outcome.keeps_silent inv false
  · rename_i buf edited
    exact keeps_plain prints holds inv usual [] none (length_edit usual edited)

theorem keeps_composeDraft (draftId : Bytes) (shown : Option Answered) :
    Outcome.Keeps kdf keyAead kem aead printG cli kpk before
      (composeDraft kdf keyAead kem aead printG (CJson.parser round) cli calls draftId shown files) := by
  unfold composeDraft
  split
  · exact Outcome.keeps_silent inv false
  rename_i passphrase _
  split
  · exact Outcome.keeps_silent inv false
  rename_i d read
  obtain ⟨m, readAs, -, agrees⟩ := inv.read prints holds read
  have carries := bound_of_agrees readAs agrees
  split
  · exact Outcome.keeps_silent inv false
  dsimp only
  split
  · rename_i replyRef there
    split
    · exact Outcome.keeps_silent inv false
    rename_i buf edited
    refine (keeps_saveEdited prints holds inv usual passphrase .edits (some (toCString replyRef))
      (some (d.recipient.getD [])) (some draftId) (length_edit usual edited)
      (fun _ => ⟨none, .inr rfl⟩) ofItsPath_edits fun id path recipient opened keeps => ?_).1
    -- it is bound already, as it was read
    have names : Names calls.draft id draftId (some draftId) := rfl
    obtain ⟨-, rfl⟩ := openDraft_names names opened
    show Agrees _ _ _ (binding _ before)
    cases bound : binding (draftPath cli.configDir draftId) before with
    | none =>
      rw [bound] at carries
      cases there.symm.trans carries
    | some orig =>
      rw [bound] at carries agrees
      obtain ⟨bindsTo, ref, here, some⟩ := carries
      obtain rfl := Option.some.inj (there.symm.trans some)
      rw [keeps _ rfl, bindsTo, Option.getD_some, toCString_self, toCString_self]
      exact ⟨agrees.1, rfl, here.symm, by rw [here]; rfl⟩
  · split
    · exact Outcome.keeps_silent inv false
    · rename_i buf edited
      exact keeps_plain prints holds inv usual passphrase (some draftId) (length_edit usual edited)

end

/-- Every command keeps the drafts faithful. -/
theorem Command.run_keeps (prints : PrintsShort printG) (holds : HoldsShort round)
    (inv : Faithful kdf keyAead kem aead printG cli kpk before files) {command : Command}
    {calls : CommandCalls} (usual : command.Usual) (around : calls.Usual) :
    Outcome.Keeps kdf keyAead kem aead printG cli kpk before
      (command.run kdf keyAead kem aead printG (CJson.parser round) cli calls files) := by
  cases command with
  | sendDraft recipient subject draftId =>
    exact keeps_sendDraft prints holds inv calls recipient subject draftId
  | sendFile recipient subject text =>
    exact keeps_sendFile prints holds inv around recipient subject text usual
  | reply orig subject text => exact keeps_reply prints holds inv around subject usual.1 usual.2
  | composeNew => exact keeps_composeNew prints holds inv around
  | composeDraft draftId shown => exact keeps_composeDraft prints holds inv around draftId shown

/-- Whatever the commands are, what they give away out of a draft is as the draft is bound by then. -/
theorem runCommands_keeps (prints : PrintsShort printG) (holds : HoldsShort round)
    {commands : List (Command × CommandCalls)} (usual : ∀ c ∈ commands, c.1.Usual ∧ c.2.Usual)
    (inv : Faithful kdf keyAead kem aead printG cli kpk before files) :
    Rightly (cli.cfg.username.getD []) before
      (runCommands kdf keyAead kem aead printG (CJson.parser round) cli commands files).1 := by
  induction commands generalizing before files with
  | nil => trivial
  | cons first rest ih =>
    obtain ⟨command, calls⟩ := first
    have here := usual _ List.mem_cons_self
    have kept := Command.run_keeps prints holds inv here.1 here.2
    exact rightly_append.mpr ⟨kept.rightly,
      ih (fun c mem => usual c (List.mem_cons_of_mem _ mem)) kept.faithful⟩

/-- **A reply goes where its draft says**: whatever a user has sent, answered, composed and edited, what
goes out of the file of a draft goes to the other party of the mail for which the draft was last
written, with that mail's reference; out of a draft that was last written for no mail, it goes without
a reference. -/
theorem sends_as_bound (prints : PrintsShort printG) (holds : HoldsShort round) {files : Files}
    (pk : files ((cli.ctx []).path (utf8 "kem_pk.bin")) = some kpk)
    (own : ∀ passphrase ksk, Calls.loadKsk kdf keyAead (cli.ctx passphrase) files = .ok ksk →
      kem.Matches kpk ksk)
    (clean : ∀ draftId, files (draftPath cli.configDir draftId) = none)
    {commands : List (Command × CommandCalls)} (usual : ∀ c ∈ commands, c.1.Usual ∧ c.2.Usual)
    {before after : List Done} {path : Bytes} {mail : Transmission}
    (done : (runCommands kdf keyAead kem aead printG (CJson.parser round) cli commands files).1 =
      before ++ .sends (some path) mail :: after) :
    Carried (cli.cfg.username.getD []) mail (binding path before) := by
  have start : Faithful kdf keyAead kem aead printG cli kpk [] files := by
    refine ⟨fun pk' here => Option.some.inj (here.symm.trans pk), own, fun draftId content here => ?_⟩
    cases (clean draftId).symm.trans here
  have rightly := runCommands_keeps prints holds usual start
  rw [done] at rightly
  exact (rightly_append.mp rightly).2.1 path mail rfl

/-- A draft that is read is sent as it is. -/
theorem sendDraft_read {parser : JsonParser} {files : Files} (calls : CommandCalls)
    {passphrase draftId recipient subject body : Bytes} {d : Draft} (configured : cli.configured = true)
    (prompt : calls.prompt = some passphrase)
    (read : cliReadDraft kdf keyAead kem aead parser (cli.ctx passphrase) calls.lastError
      (cli.cfg.username.getD []) draftId files = .ok d) (hasBody : d.body = some body)
    (goesTo : d.recipient = some recipient) (filled : recipient ≠ []) (hasSubject : d.subject = some subject)
    (named : subject ≠ []) (small : subject.length ≤ 128) :
    (sendDraft kdf keyAead kem aead parser cli calls none none draftId files).done =
      [.sends (some (draftPath cli.configDir draftId)) ⟨recipient, d.replyRef, subject, body⟩] := by
  unfold sendDraft
  rw [if_neg (by rw [configured]; decide), prompt]
  dsimp only
  rw [read]
  dsimp only
  rw [hasBody, goesTo, hasSubject, Option.filter_some, Option.filter_some]
  dsimp only
  rw [if_neg (by simp), if_pos (by simpa using filled), if_pos (by simpa using named)]
  dsimp only [Option.map, Option.or]
  rw [if_neg (by omega)]

namespace Sample

/-- The way to the server is there again. -/
def online : CommandCalls := { offline with sent := .OK }

/-- What Alice could not answer is sent out of its draft. -/
theorem hello_sent : ∃ draftId before path mail,
    (runCommands plainKdf (fun _ => tagAead) xorKem tagAead Go.formatInt (CJson.parser id) aliceCli
      [(helloCommand, offline), (.sendDraft none none draftId, online)] aliceKem).1 =
        before ++ .sends (some path) mail :: [] ∧
    mail.replyRef = some (utf8 "5d41") ∧ Carried (utf8 "alice") mail (binding path before) := by
  have refused : helloCommand.Refused aliceCli offline := ⟨by rintro _ ⟨⟩; decide, rfl, rfl, nofun⟩
  have kept : InNewDraft plainKdf (fun _ => tagAead) xorKem tagAead id aliceCli [] hello aliceKem
      (helloCommand.run plainKdf (fun _ => tagAead) xorKem tagAead Go.formatInt (CJson.parser id) aliceCli
        offline aliceKem).files := by
    rcases Command.left plainKdf (fun _ => tagAead) xorKem tagAead Go.formatInt id offline aliceKem
      hello_intended with ⟨-, asked, answered, left⟩ | ⟨not, -⟩
    · rw [left]
      exact kept_of_holdable prints_formatInt holds_id hello_short hello_stores aliceKem_sk aliceKem_own
        ⟨by decide, by decide, by decide⟩ asked answered
    · exact (not refused).elim
  generalize first : helloCommand.run plainKdf (fun _ => tagAead) xorKem tagAead Go.formatInt
    (CJson.parser id) aliceCli offline aliceKem = out at kept
  obtain ⟨draftId, d, -, read, new⟩ := kept
  have sent : (Client.sendDraft plainKdf (fun _ => tagAead) xorKem tagAead (CJson.parser id) aliceCli online
      none none draftId out.files).done = [.sends (some (draftPath aliceCli.configDir draftId))
        ⟨utf8 "bob", some (utf8 "5d41"), utf8 "hi", utf8 "hello"⟩] := by
    have done := sendDraft_read online rfl rfl read new.body new.recipient (by decide) new.subject
      (by decide) (by decide)
    rw [new.replyRef] at done
    exact done
  have run : (runCommands plainKdf (fun _ => tagAead) xorKem tagAead Go.formatInt (CJson.parser id) aliceCli
      [(helloCommand, offline), (.sendDraft none none draftId, online)] aliceKem).1 =
        out.done ++ .sends (some (draftPath aliceCli.configDir draftId))
          ⟨utf8 "bob", some (utf8 "5d41"), utf8 "hi", utf8 "hello"⟩ :: [] := by
    unfold runCommands runCommands runCommands
    dsimp only
    rw [first]
    unfold Command.run
    dsimp only
    rw [sent]
    rfl
  have own : ∀ passphrase ksk,
      Calls.loadKsk plainKdf (fun _ => tagAead) (aliceCli.ctx passphrase) aliceKem = .ok ksk →
        xorKem.Matches kemPair.pk ksk := by
    intro passphrase ksk loaded
    unfold Calls.loadKsk loadSkDecrypted at loaded
    rw [show aliceKem ((aliceCli.ctx passphrase).path (utf8 "kem_sk.bin")) = some kemPair.sk from aliceKem_file]
      at loaded
    cases (openSk_raw plainKdf _ (show kemPair.sk.take 4 ≠ SK_MAGIC by decide) _).symm.trans loaded
    exact kemPair.pair
  have clean (draftId : Bytes) : aliceKem (draftPath aliceCli.configDir draftId) = none := by
    have apart (name : Bytes) : draftPath alice.configDir draftId ≠ alice.path (107 :: name) :=
      ((LocalItem.draft draftId).path_ne_kem alice name).symm
    unfold aliceKem
    rw [kemName.1, kemName.2]
    exact (Function.update_of_ne (apart _) _ _).trans (Function.update_of_ne (apart _) _ _)
  have room : offline.Usual ∧ online.Usual :=
    ⟨⟨by decide, by decide, nofun⟩, ⟨by decide, by decide, nofun⟩⟩
  have short : fromBob.Short := by
    refine ⟨by decide, by decide, ?_⟩
    rintro _ ⟨⟩
    decide
  have usual : ∀ c ∈ [(helloCommand, offline), (.sendDraft none none draftId, online)],
      c.1.Usual ∧ c.2.Usual := by
    rintro c (_ | ⟨_, _ | ⟨_, ⟨⟩⟩⟩)
    · refine ⟨⟨?_, ?_⟩, room.1⟩
      · rintro _ ⟨⟩
        exact short
      · rintro _ ⟨⟩
        decide
    · exact ⟨trivial, room.2⟩
  exact ⟨draftId, out.done, _, _, run, rfl,
    sends_as_bound prints_formatInt holds_id aliceKem_pk own clean usual run⟩

end Sample

end Shyake.Client
