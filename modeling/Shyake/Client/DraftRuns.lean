import Mathlib.Order.Interval.Finset.Nat
import Shyake.Client.DraftStore

/-!
# The drafts directory as a store

What the drafts are after some steps, by the events alone, and what the programs find in the
directory then. They find the same as long as no two saves are at the open file of one draft: an edit
that reads the old draft while another has cut its file to nothing forgets when the draft was
created.
-/

namespace Shyake.Client

open CJson (printUnformatted)

variable (kdf : Kdf) (keyAead : Bytes → Aead) (kem : Kem) (aead : Aead) (printG : Int → Bytes)
  (parser : JsonParser) (ctx : Ctx) (keys : Files)

/-! ## The store -/

/-- A draft: the save that it is from, and when the first one was. -/
structure DraftContent where
  job : SaveJob
  created : Int

/-- The drafts. -/
abbrev DraftMap := Bytes → Option DraftContent

def DraftMap.apply (s : DraftMap) : DraftEvent → DraftMap
  | .saved draftId job => Function.update s draftId (some ⟨job, job.calls.now⟩)
  | .edited draftId job =>
    Function.update s draftId ((s draftId).map fun old => ⟨job, old.created⟩)
  | .deleted draftId => Function.update s draftId none
  | _ => s

/-- The drafts after some events. -/
def storeOf (log : List DraftEvent) : DraftMap := log.foldl DraftMap.apply fun _ => none

theorem storeOf_append (log : List DraftEvent) (e : DraftEvent) :
    storeOf (log ++ [e]) = (storeOf log).apply e := by
  unfold storeOf
  rw [List.foldl_append, List.foldl_cons, List.foldl_nil]

namespace DraftEvent

/-- The save that begins. -/
def starts : DraftEvent → Option SaveJob
  | .scanned job | .reading _ job => some job
  | _ => none

/-- The draft that a save reads or opens. -/
def takes : DraftEvent → Option Bytes
  | .reading draftId _ | .opened draftId => some draftId
  | _ => none

/-- The draft whose file is another afterwards. -/
def changes : DraftEvent → Option Bytes
  | .opened draftId | .saved draftId _ | .edited draftId _ | .deleted draftId => some draftId
  | _ => none

end DraftEvent

/-- The draft that a save has chosen. -/
def Saver.on : Saver → Option Bytes
  | .trying .. => none
  | .opening _ _ draftId _ | .writing _ _ _ draftId _ _ => some draftId

/-- A save has the file of the draft open. -/
def DraftWorld.Open (w : DraftWorld) (new : Bool) (draftId : Bytes) : Prop :=
  ∃ pid job sealed created inode,
    w.savers pid = some (.writing job sealed new draftId created inode)

/-- What the programs find in the directory is the store. -/
structure DraftLaws (w : DraftWorld) (log : List DraftEvent) : Prop where
  /-- An id that is returned for a new draft was no draft's. -/
  fresh : ∀ before draftId job after, log = before ++ .saved draftId job :: after →
    storeOf before draftId = none
  /-- No save of a new draft runs out of ids. -/
  found : ∀ pid job sealed scanned first tries,
    w.savers pid = some (.trying job sealed scanned first tries) → tries < 100
  /-- A step leaves the files of the other drafts. -/
  frame : ∀ e w', DraftStep kem aead printG parser ctx keys w e w' → ∀ draftId,
    e.changes ≠ some draftId → w'.dir.read (draftName draftId) = w.dir.read (draftName draftId)
  /-- A draft is read as it was saved last, up to the next edit or deletion. -/
  read : ∀ draftId content, storeOf log draftId = some content → ¬ w.Open false draftId →
    ∀ lastError username, ∃ d,
      cliReadDraft kdf keyAead kem aead parser ctx lastError username draftId (w.dir.files ctx keys) =
        .ok d ∧
      NewContent content.job.recipient content.job.subject content.job.replyRef content.job.body d ∧
      d.created = content.created
  /-- Each draft is listed once. -/
  list : ∀ lastError username, ∃ entries,
    cliListDrafts kdf keyAead kem aead parser ctx lastError username keys w.dir = .ok entries ∧
    (entries.map DraftEntry.mailId).Nodup ∧
    ∀ draftId, ¬ w.Open false draftId →
      (draftId ∈ entries.map DraftEntry.mailId ↔ (storeOf log draftId).isSome)

/-! ## Runs -/

/-- The directory and the programs after some steps from the empty directory. -/
inductive DraftRun (allowed : DraftWorld → DraftEvent → Prop) : DraftWorld → List DraftEvent → Prop
  | start : DraftRun allowed .start []
  | step {w w' : DraftWorld} {log : List DraftEvent} {e : DraftEvent} (run : DraftRun allowed w log)
      (may : allowed w e) (taken : DraftStep kem aead printG parser ctx keys w e w') :
      DraftRun allowed w' (log ++ [e])

theorem DraftRun.mono {kem : Kem} {aead : Aead} {printG : Int → Bytes} {parser : JsonParser} {ctx : Ctx}
    {keys : Files} {allowed more : DraftWorld → DraftEvent → Prop} {w : DraftWorld}
    {log : List DraftEvent} (less : ∀ w e, allowed w e → more w e)
    (run : DraftRun kem aead printG parser ctx keys allowed w log) :
    DraftRun kem aead printG parser ctx keys more w log := by
  induction run with
  | start => exact .start
  | step run may taken ih => exact .step ih (less _ _ may) taken

/-- Texts that can be read when they are sealed, saved at a time that a `double` holds. -/
structure SaveJob.Fits (job : SaveJob) : Prop where
  nul : NulFree job.body
  body : job.body.length ≤ maxText
  recipient : ∀ text ∈ job.recipient, text.1.length ≤ maxText
  subject : ∀ text ∈ job.subject, text.1.length ≤ maxText
  replyRef : ∀ text ∈ job.replyRef, text.1.length ≤ maxText
  now : 0 ≤ job.calls.now ∧ job.calls.now ≤ 2 ^ 53

/-- What is promised of a step: of the save that begins, of the number of others that find an id
while one is looking for it, and of `cJSON`. -/
structure Promised (w : DraftWorld) (e : DraftEvent) : Prop where
  fits : ∀ job, e.starts = some job → job.Fits
  few : ∀ pid job sealed scanned first tries,
    w.savers pid = some (.trying job sealed scanned first tries) →
    w.dir.next < scanned + 100 ∧ first + 100 < 2 ^ 63
  prints : ∀ draftId, e ≠ .crashed draftId
  parses : ∀ pid job sealed new draftId created inode,
    w.savers pid = some (.writing job sealed new draftId created inode) →
    ∀ text, printUnformatted printG (jobObj draftId created job sealed) = some text →
      parser.parse text = some (.ofObject (jobObj draftId created job sealed)) ∧
      (0 ≤ created ∧ created ≤ 2 ^ 53 → parser.valuedouble text (utf8 "created") = created)

/-- And no draft is read or opened by a save while another has its file open, or deleted while a save
is at it. -/
structure Careful (w : DraftWorld) (e : DraftEvent) : Prop extends Promised printG parser w e where
  shut : ∀ draftId, e.takes = some draftId → ∀ new, ¬ w.Open new draftId
  left : ∀ draftId, e = .deleted draftId → ∀ pid saver, w.savers pid = some saver →
    saver.on ≠ some draftId

/-! ## The invariant -/

section

/-- Each file is named by the number that its inode was made for. -/
structure Numbered (origin : Nat → Nat) (d : DraftDir) : Prop where
  distinct : (d.names.map Prod.fst).Nodup
  named : ∀ file ∈ d.names, file.2 < d.next ∧ 1 ≤ origin file.2 ∧ origin file.2 < 2 ^ 63 ∧
    file.1 = draftName (Go.formatInt (origin file.2))

/-- What a save knows that looks for an id: the files behind `first` were made since its scan, and one
of each id that it has tried. -/
structure Scanned (origin : Nat → Nat) (d : DraftDir) (scanned : Nat) (first : Int) (tries : Nat) :
    Prop where
  made : scanned ≤ d.next
  positive : 1 ≤ first
  later : ∀ file ∈ d.names, first ≤ origin file.2 → scanned ≤ file.2
  seen : ∀ j < tries, ∃ inode, scanned ≤ inode ∧ inode < d.next ∧ (origin inode : Int) = first + j
  less : tries < 100

/-- A save that is sealed. -/
structure SaveJob.Ready (job : SaveJob) (sealed : SealedDraft) : Prop where
  made : sealJob kem aead ctx keys job = some sealed
  fits : job.Fits

/-- What holds of a save that is not done. -/
def Saver.Fine (origin : Nat → Nat) (d : DraftDir) (s : DraftMap) : Saver → Prop
  | .trying job sealed scanned first tries =>
    job.Ready kem aead ctx keys sealed ∧ Scanned origin d scanned first tries
  | .opening job sealed draftId created =>
    job.Ready kem aead ctx keys sealed ∧ (s draftId).map DraftContent.created = some created
  | .writing job sealed new draftId created inode =>
    job.Ready kem aead ctx keys sealed ∧ d.inode (draftName draftId) = some inode ∧
      d.content inode = [] ∧
      if new then s draftId = none ∧ created = job.calls.now
      else (s draftId).map DraftContent.created = some created

/-- The file holds the draft. -/
def DraftContent.In (content : DraftContent) (draftId raw : Bytes) : Prop :=
  ∃ sealed, content.job.Ready kem aead ctx keys sealed ∧
    parser.parse raw = some (.ofObject (jobObj draftId content.created content.job sealed)) ∧
    parser.valuedouble raw (utf8 "created") = content.created

/-- The files hold the drafts of the store, but for those that are just written. -/
structure DraftInv (origin : Nat → Nat) (w : DraftWorld) (s : DraftMap) : Prop where
  numbered : Numbered origin w.dir
  stored : ∀ draftId content, s draftId = some content →
    (0 ≤ content.created ∧ content.created ≤ 2 ^ 53) ∧
    ∃ inode, w.dir.inode (draftName draftId) = some inode ∧
      (¬ w.Open false draftId → content.In kem aead parser ctx keys draftId (w.dir.content inode))
  unsaved : ∀ draftId inode, w.dir.inode (draftName draftId) = some inode → s draftId = none →
    w.dir.content inode = [] ∧ w.Open true draftId
  fine : ∀ pid saver, w.savers pid = some saver → saver.Fine kem aead ctx keys origin w.dir s
  alone : ∀ pid pid' job job' sealed sealed' new new' draftId created created' inode inode',
    w.savers pid = some (.writing job sealed new draftId created inode) →
    w.savers pid' = some (.writing job' sealed' new' draftId created' inode') → pid = pid'

end

/-! ## The files of the drafts -/

namespace Numbered

variable {origin : Nat → Nat} {d : DraftDir} {draftId other name : Bytes} {inode : Nat}

theorem of_inode (numbered : Numbered origin d) (here : d.inode (draftName draftId) = some inode) :
    inode < d.next ∧ 1 ≤ origin inode ∧ origin inode < 2 ^ 63 ∧
      draftId = Go.formatInt (origin inode) := by
  obtain ⟨older, positive, small, name⟩ := numbered.named _ (DraftDir.mem_of_inode here)
  exact ⟨older, positive, small, draftName_injective name⟩

/-- Its id is not cut off. -/
theorem snprintf_eq (numbered : Numbered origin d) (here : d.inode (draftName draftId) = some inode) :
    snprintf 32 draftId = draftId := by
  obtain ⟨-, -, small, number⟩ := numbered.of_inode here
  rw [number]
  exact snprintf_formatInt small

/-- Two drafts have two files. -/
theorem inode_ne (numbered : Numbered origin d) (ne : other ≠ draftId) {n m : Nat}
    (here : d.inode (draftName draftId) = some n) (there : d.inode (draftName other) = some m) :
    m ≠ n := by
  rintro rfl
  exact ne ((numbered.of_inode there).2.2.2.trans (numbered.of_inode here).2.2.2.symm)

/-- What is there of an id is its number. -/
theorem origin_eq (numbered : Numbered origin d) {n : Nat}
    (here : d.inode (draftName (Go.formatInt n)) = some inode) : origin inode = n := by
  have same := Go.formatInt_injective (numbered.of_inode here).2.2.2
  omega

end Numbered

/-- The directory has changed at the file of one draft alone. -/
structure SameBut (draftId : Bytes) (d d' : DraftDir) : Prop where
  inode : ∀ other ≠ draftId, d'.inode (draftName other) = d.inode (draftName other)
  content : ∀ other ≠ draftId, ∀ inode, d.inode (draftName other) = some inode →
    d'.content inode = d.content inode
  next : d.next ≤ d'.next
  names : ∀ file ∈ d'.names, file ∈ d.names ∨ d.next ≤ file.2

namespace SameBut

variable {origin : Nat → Nat} {d : DraftDir} {draftId : Bytes} {inode : Nat}

theorem read {d' : DraftDir} (same : SameBut draftId d d') {other : Bytes} (ne : other ≠ draftId) :
    d'.read (draftName other) = d.read (draftName other) := by
  unfold DraftDir.read
  rw [same.inode other ne]
  cases here : d.inode (draftName other) with
  | none => rfl
  | some inode => exact congrArg some (same.content other ne inode here)

theorem create (numbered : Numbered origin d) :
    SameBut draftId d (d.create (draftName draftId)) where
  inode _ ne := DraftDir.inode_create_ne fun same => ne (draftName_injective same)
  content other _ inode here := by
    have older := (numbered.of_inode here).1
    exact Function.update_of_ne (by omega) _ _
  next := Nat.le_succ _
  names file mem := by
    rcases List.mem_append.mp mem with mem | mem
    · exact .inl mem
    · rw [List.mem_singleton.mp mem]
      exact .inr (le_refl _)

/-- Another text in the file. -/
theorem update (numbered : Numbered origin d) (here : d.inode (draftName draftId) = some inode)
    (text : Bytes) :
    SameBut draftId d { d with content := Function.update d.content inode text } where
  inode _ _ := rfl
  content _ ne _ there := Function.update_of_ne (numbered.inode_ne ne here there) _ _
  next := le_refl _
  names _ := .inl

theorem unlink : SameBut draftId d (d.unlink (draftName draftId)) where
  inode _ ne := DraftDir.inode_unlink_ne fun same => ne (draftName_injective same)
  content _ _ _ _ := rfl
  next := le_refl _
  names _ mem := .inl (List.mem_of_mem_filter mem)

end SameBut

theorem Numbered.create {origin : Nat → Nat} {d : DraftDir} {n : Nat} (numbered : Numbered origin d)
    (positive : 1 ≤ n) (small : n < 2 ^ 63) (fresh : d.inode (draftName (Go.formatInt n)) = none) :
    Numbered (Function.update origin d.next n) (d.create (draftName (Go.formatInt n))) where
  distinct := by
    unfold DraftDir.create
    rw [List.map_append, List.nodup_append]
    refine ⟨numbered.distinct, List.nodup_singleton _, ?_⟩
    rintro _ mem _ new rfl
    obtain ⟨file, mem, same⟩ := List.mem_map.mp mem
    have here := DraftDir.inode_of_mem numbered.distinct mem
    rw [same, List.mem_singleton.mp new, fresh] at here
    cases here
  named file mem := by
    rcases List.mem_append.mp mem with mem | mem
    · obtain ⟨older, rest⟩ := numbered.named file mem
      rw [Function.update_of_ne (by omega)]
      exact ⟨Nat.lt_succ_of_lt older, rest⟩
    · rw [List.mem_singleton.mp mem]
      dsimp only
      rw [Function.update_self]
      exact ⟨Nat.lt_succ_self _, positive, small, rfl⟩

theorem Numbered.unlink {origin : Nat → Nat} {d : DraftDir} {name : Bytes}
    (numbered : Numbered origin d) : Numbered origin (d.unlink name) where
  distinct := numbered.distinct.sublist (List.filter_sublist.map _)
  named file mem := numbered.named file (List.mem_of_mem_filter mem)

/-! ## The search for an id -/

namespace Scanned

variable {origin origin' : Nat → Nat} {d d' : DraftDir} {scanned tries : Nat} {first : Int}

/-- A file was made for each id that was tried. -/
theorem tries_le (seen : ∀ j < tries, ∃ inode, scanned ≤ inode ∧ inode < d.next ∧
    (origin inode : Int) = first + j) : tries ≤ d.next - scanned := by
  choose! inode low high same using seen
  have into : Set.MapsTo inode (Finset.range tries) (Finset.Ico scanned d.next) := fun j mem =>
    Finset.mem_coe.mpr (Finset.mem_Ico.mpr
      ⟨low j (Finset.mem_range.mp mem), high j (Finset.mem_range.mp mem)⟩)
  have injective : Set.InjOn inode (Finset.range tries) := by
    intro j memJ k memK equal
    have ofJ := same j (Finset.mem_range.mp memJ)
    have ofK := same k (Finset.mem_range.mp memK)
    rw [equal] at ofJ
    omega
  have fits := Finset.card_le_card_of_injOn inode into injective
  rwa [Finset.card_range, Nat.card_Ico] at fits

/-- What others do does not matter. -/
theorem mono (h : Scanned origin d scanned first tries) {draftId : Bytes} (same : SameBut draftId d d')
    (numbered : Numbered origin d) (older : ∀ n < d.next, origin' n = origin n) :
    Scanned origin' d' scanned first tries where
  made := h.made.trans same.next
  positive := h.positive
  later file mem behind := by
    rcases same.names file mem with mem | new
    · rw [older _ (numbered.named file mem).1] at behind
      exact h.later file mem behind
    · exact h.made.trans new
  seen j less := by
    obtain ⟨inode, low, high, number⟩ := h.seen j less
    refine ⟨inode, low, high.trans_le same.next, ?_⟩
    rw [older inode high]
    exact number
  less := h.less

theorem scan (numbered : Numbered origin d) : Scanned origin d d.next (maxDraftId d + 1) 0 where
  made := le_refl _
  positive := by
    have bound := (maxDraftId_bounds d).1
    omega
  later file mem behind := by
    obtain ⟨-, -, small, name⟩ := numbered.named file mem
    have bound := (maxDraftId_bounds d).2 file mem
    rw [name, numericDraftId_draftName small] at bound
    omega
  seen := nofun
  less := by decide

/-- The next id is taken. -/
theorem taken (h : Scanned origin d scanned first tries) (numbered : Numbered origin d)
    (few : d.next < scanned + 100)
    (there : (d.inode (draftName (Go.formatInt (first + tries)))).isSome) :
    Scanned origin d scanned first (tries + 1) := by
  have seen : ∀ j < tries + 1, ∃ inode, scanned ≤ inode ∧ inode < d.next ∧
      (origin inode : Int) = first + j := by
    intro j less
    by_cases last : j = tries
    · subst last
      obtain ⟨inode, here⟩ := Option.isSome_iff_exists.mp there
      have positive := h.positive
      obtain ⟨n, number⟩ := Int.eq_ofNat_of_zero_le (show 0 ≤ first + j by omega)
      rw [number] at here
      have origin := numbered.origin_eq here
      have mem := DraftDir.mem_of_inode here
      refine ⟨inode, h.later _ mem ?_, (numbered.named _ mem).1, ?_⟩
      · dsimp only
        omega
      · omega
    · exact h.seen j (by omega)
  have bound := tries_le seen
  exact ⟨h.made, h.positive, h.later, seen, by omega⟩

end Scanned

/-! ## What a step keeps -/

section

variable {kem : Kem} {aead : Aead} {parser : JsonParser} {ctx : Ctx} {keys : Files}
variable {origin origin' : Nat → Nat} {w w' : DraftWorld} {s s' : DraftMap}

/-- A save at another draft, or one that has yet to open the file, does not mind. -/
theorem Saver.Fine.mono {saver : Saver} {d d' : DraftDir} {draftId : Bytes}
    (fine : saver.Fine kem aead ctx keys origin d s) (same : SameBut draftId d d')
    (numbered : Numbered origin d) (older : ∀ n < d.next, origin' n = origin n)
    (store : ∀ other ≠ draftId, s' other = s other)
    (opening : saver.on = some draftId → (∃ job sealed created,
      saver = .opening job sealed draftId created) ∧
      (s' draftId).map DraftContent.created = (s draftId).map DraftContent.created) :
    saver.Fine kem aead ctx keys origin' d' s' := by
  cases saver with
  | trying job sealed scanned first tries => exact ⟨fine.1, fine.2.mono same numbered older⟩
  | opening job sealed other created =>
    refine ⟨fine.1, ?_⟩
    by_cases here : other = draftId
    · subst here
      exact (opening rfl).2.trans fine.2
    · rw [store other here]
      exact fine.2
  | writing job sealed new other created inode =>
    obtain ⟨ready, there, empty, entry⟩ := fine
    by_cases here : other = draftId
    · subst here
      obtain ⟨⟨_, _, _, closed⟩, -⟩ := opening rfl
      cases closed
    · refine ⟨ready, (same.inode other here).trans there, ?_, ?_⟩
      · rw [same.content other here inode there]
        exact empty
      · rw [store other here]
        exact entry

/-- A step at the file of one draft, by one program or none. -/
theorem DraftInv.touch (by_ : Option Nat) (draftId : Bytes)
    (inv : DraftInv kem aead parser ctx keys origin w s)
    (numbered : Numbered origin' w'.dir) (same : SameBut draftId w.dir w'.dir)
    (older : ∀ n < w.dir.next, origin' n = origin n)
    (store : ∀ other ≠ draftId, s' other = s other)
    (others : ∀ pid, by_ ≠ some pid → w'.savers pid = w.savers pid)
    (before : ∀ pid saver, by_ = some pid → w.savers pid = some saver →
      saver.on = none ∨ saver.on = some draftId)
    (after : ∀ pid saver, by_ = some pid → w'.savers pid = some saver →
      saver.on = some draftId ∧ saver.Fine kem aead ctx keys origin' w'.dir s')
    (opening : ∀ pid saver, by_ ≠ some pid → w.savers pid = some saver → saver.on = some draftId →
      (∃ job sealed created, saver = .opening job sealed draftId created) ∧
      (s' draftId).map DraftContent.created = (s draftId).map DraftContent.created)
    (stored : ∀ content, s' draftId = some content →
      (0 ≤ content.created ∧ content.created ≤ 2 ^ 53) ∧
      ∃ inode, w'.dir.inode (draftName draftId) = some inode ∧
        (¬ w'.Open false draftId →
          content.In kem aead parser ctx keys draftId (w'.dir.content inode)))
    (unsaved : ∀ inode, w'.dir.inode (draftName draftId) = some inode → s' draftId = none →
      w'.dir.content inode = [] ∧ w'.Open true draftId) :
    DraftInv kem aead parser ctx keys origin' w' s' where
  numbered := numbered
  stored other content here := by
    by_cases at_ : other = draftId
    · subst at_
      exact stored content here
    rw [store other at_] at here
    obtain ⟨times, inode, there, holds⟩ := inv.stored other content here
    refine ⟨times, inode, (same.inode other at_).trans there, fun shut => ?_⟩
    rw [same.content other at_ inode there]
    apply holds
    rintro ⟨pid, job, sealed, created, inode', here⟩
    have else_ : by_ ≠ some pid := fun mine => by
      rcases before pid _ mine here with no | no
      · cases no
      · exact at_ (Option.some.inj no)
    exact shut ⟨pid, job, sealed, created, inode', (others pid else_).trans here⟩
  unsaved other inode there none := by
    by_cases at_ : other = draftId
    · subst at_
      exact unsaved inode there none
    rw [store other at_] at none
    rw [same.inode other at_] at there
    obtain ⟨empty, pid, job, sealed, created, inode', here⟩ := inv.unsaved other inode there none
    refine ⟨(same.content other at_ inode there).trans empty, pid, job, sealed, created, inode', ?_⟩
    rw [others pid fun mine => ?_]
    · exact here
    rcases before pid _ mine here with no | no
    · cases no
    · exact at_ (Option.some.inj no)
  fine pid saver here := by
    by_cases mine : by_ = some pid
    · exact (after pid saver mine here).2
    rw [others pid mine] at here
    exact (inv.fine pid saver here).mono same inv.numbered older store (opening pid saver mine here)
  alone pid pid' job job' sealed sealed' new new' other created created' inode inode' here here' := by
    -- nobody but the program itself has the file of this draft open
    have only : ∀ p q {job job' sealed sealed' new new' created created' inode inode'},
        by_ = some p → by_ ≠ some q →
        w'.savers p = some (.writing job sealed new other created inode) →
        w'.savers q ≠ some (.writing job' sealed' new' other created' inode') := by
      intro p q job job' sealed sealed' new new' created created' inode inode' mine else_ here here'
      have at_ := Option.some.inj (after p _ mine here).1
      rw [others q else_] at here'
      obtain ⟨⟨_, _, _, closed⟩, -⟩ := opening q _ else_ here' (congrArg some at_)
      cases closed
    by_cases mine : by_ = some pid
    · by_cases mine' : by_ = some pid'
      · exact Option.some.inj (mine.symm.trans mine')
      · exact absurd here' (only pid pid' mine mine' here)
    · by_cases mine' : by_ = some pid'
      · exact absurd here (only pid' pid mine' mine here')
      · rw [others pid mine] at here
        rw [others pid' mine'] at here'
        exact inv.alone _ _ _ _ _ _ _ _ _ _ _ _ _ here here'

/-- A step of a program that has no file open, and of no consequence to the directory. -/
theorem DraftInv.set {pid : Nat} {next : Option Saver}
    (inv : DraftInv kem aead parser ctx keys origin w s)
    (closed : ∀ job sealed new draftId created inode,
      w.savers pid ≠ some (.writing job sealed new draftId created inode))
    (stays : ∀ job sealed new draftId created inode,
      next ≠ some (.writing job sealed new draftId created inode))
    (fine : ∀ saver, next = some saver → saver.Fine kem aead ctx keys origin w.dir s) :
    DraftInv kem aead parser ctx keys origin (w.set pid next) s := by
  have writing {p : Nat} {job : SaveJob} {sealed : SealedDraft} {new : Bool} {draftId : Bytes}
      {created : Int} {inode : Nat} : (w.set pid next).savers p =
        some (.writing job sealed new draftId created inode) ↔
      w.savers p = some (.writing job sealed new draftId created inode) := by
    rw [DraftWorld.savers_set]
    by_cases mine : p = pid
    · subst mine
      rw [Function.update_self]
      exact ⟨fun here => absurd here (stays _ _ _ _ _ _), fun here => absurd here (closed _ _ _ _ _ _)⟩
    · rw [Function.update_of_ne mine]
  have opens {new : Bool} {draftId : Bytes} : (w.set pid next).Open new draftId ↔ w.Open new draftId := by
    unfold DraftWorld.Open
    simp only [writing]
  refine ⟨inv.numbered, ?_, ?_, ?_, ?_⟩
  · intro draftId content here
    rw [opens]
    exact inv.stored draftId content here
  · intro draftId inode there none
    rw [opens]
    exact inv.unsaved draftId inode there none
  · intro p saver here
    by_cases mine : p = pid
    · subst mine
      rw [DraftWorld.savers_set, Function.update_self] at here
      exact fine saver here
    · rw [DraftWorld.savers_set, Function.update_of_ne mine] at here
      exact inv.fine p saver here
  · intro p p' job job' sealed sealed' new new' draftId created created' inode inode' here here'
    exact inv.alone _ _ _ _ _ _ _ _ _ _ _ _ _ (writing.mp here) (writing.mp here')

end

/-! ## The files as the programs see them -/

section

variable {ctx}

theorem draftPath_short {draftId : Bytes} (short : ctx.configDir.length ≤ 500)
    (plain : draftId.length ≤ 100) :
    draftPath ctx.configDir draftId = ctx.configDir ++ utf8 "/drafts/" ++ draftName draftId := by
  have lengthDrafts : (utf8 "/drafts/").length = 8 := by decide
  have lengthJson : (utf8 ".json").length = 5 := by decide
  unfold draftPath snprintf draftName
  rw [List.append_assoc _ draftId]
  apply List.take_of_length_le
  simp only [List.length_append, lengthDrafts, lengthJson]
  omega

theorem files_draft (d : DraftDir) {draftId : Bytes} (short : ctx.configDir.length ≤ 500)
    (plain : draftId.length ≤ 100) :
    d.files ctx keys (draftPath ctx.configDir draftId) = d.read (draftName draftId) := by
  unfold DraftDir.files
  rw [draftPath_short short plain, if_pos, List.drop_left]
  exact List.isPrefixOf_iff_prefix.mpr (List.prefix_append _ _)

/-- The key files are no drafts. -/
theorem files_key (d : DraftDir) (short : ctx.configDir.length ≤ 500) :
    d.files ctx keys (ctx.path (utf8 "kem_sk.bin")) = keys (ctx.path (utf8 "kem_sk.bin")) := by
  apply if_neg
  intro front
  obtain ⟨rest, same⟩ := List.isPrefixOf_iff_prefix.mp front
  have at_ := congrArg (·[ctx.configDir.length + 1]?) same
  unfold Ctx.path snprintf at at_
  rw [List.append_assoc, List.getElem?_append_right (by omega), Nat.add_sub_cancel_left,
    List.getElem?_append_left (by decide), List.getElem?_take_of_lt (by omega),
    List.getElem?_append_right (by omega), Nat.add_sub_cancel_left] at at_
  exact absurd at_ (by decide)

theorem loadKsk_files (d : DraftDir) (short : ctx.configDir.length ≤ 500) :
    Calls.loadKsk kdf keyAead ctx (d.files ctx keys) = Calls.loadKsk kdf keyAead ctx keys := by
  unfold Calls.loadKsk loadSkDecrypted
  rw [files_key keys d short]

end

/-! ## What is found of a draft -/

theorem draft_created {id : Bytes} {created now : Int} {body_len : Nat} {sealed : SealedDraft} :
    ((Json.ofObject (draftObj id created now body_len sealed)).getObjectItem
      (utf8 "created")).isSome := by
  obtain ⟨_, _, _, _, encReplyTo⟩ := sealed
  cases encReplyTo <;> rfl

namespace DraftContent

variable {kem aead parser ctx keys}
variable {content : DraftContent} {draftId raw : Bytes}

/-- An edit keeps the time. -/
theorem In.draftCreated_eq (holds : content.In kem aead parser ctx keys draftId raw) {files : Files}
    {calls : DraftCalls} {created : Int}
    (here : files (draftPath ctx.configDir draftId) = some raw)
    (old : draftCreated parser ctx.configDir files calls (some draftId) = some created) :
    created = content.created := by
  obtain ⟨sealed, -, parses, time⟩ := holds
  unfold draftCreated at old
  dsimp only at old
  rw [here] at old
  split at old
  · cases old
  · rename_i raw' read
    split at read
    · cases read
      rw [parses, Option.bind_some] at old
      rw [if_pos (by unfold jobObj; exact draft_created), time] at old
      exact (Option.some.inj old).symm
    · cases read

end DraftContent

/-! ## The steps at a file -/

namespace DraftInv

variable {kem aead printG parser ctx keys}
variable {origin : Nat → Nat} {w : DraftWorld} {s : DraftMap} {pid : Nat} {job : SaveJob}
  {sealed : SealedDraft} {draftId : Bytes} {created : Int} {inode : Nat}

/-- Nobody is at a draft that has no file. -/
theorem nobody (inv : DraftInv kem aead parser ctx keys origin w s)
    (none : w.dir.inode (draftName draftId) = none) :
    s draftId = Option.none ∧
      ∀ pid saver, w.savers pid = some saver → saver.on ≠ some draftId := by
  have unsaved : s draftId = Option.none := by
    cases there : s draftId with
    | none => rfl
    | some content =>
      obtain ⟨-, inode, here, -⟩ := inv.stored draftId content there
      cases none.symm.trans here
  refine ⟨unsaved, fun pid saver here at_ => ?_⟩
  have fine := inv.fine pid saver here
  cases saver with
  | trying => cases at_
  | opening job sealed other created =>
    cases at_
    have there := fine.2
    rw [unsaved] at there
    cases there
  | writing job sealed new other created inode =>
    cases at_
    cases none.symm.trans fine.2.1

theorem create {scanned tries : Nat} {first : Int}
    (inv : DraftInv kem aead parser ctx keys origin w s)
    (saver : w.savers pid = some (.trying job sealed scanned first tries))
    (small : first + tries < 2 ^ 63)
    (fresh : w.dir.inode (draftName (Go.formatInt (first + tries))) = none) :
    ∃ origin', DraftInv kem aead parser ctx keys origin'
      { dir := w.dir.create (draftName (Go.formatInt (first + tries)))
        savers := Function.update w.savers pid (some (.writing job sealed true
          (Go.formatInt (first + tries)) job.calls.now w.dir.next)) } s := by
  obtain ⟨ready, search⟩ := inv.fine pid _ saver
  obtain ⟨unsaved, nobody⟩ := inv.nobody fresh
  have positive := search.positive
  obtain ⟨n, number⟩ := Int.eq_ofNat_of_zero_le (show 0 ≤ first + tries by omega)
  have made := DraftDir.inode_create_self fresh
  have numbered := inv.numbered.create (n := n) (by omega) (by omega) (by rw [number] at fresh; exact fresh)
  rw [← show first + tries = (n : Int) from number] at numbered
  refine ⟨Function.update origin w.dir.next n, inv.touch (some pid) _ numbered
    (.create inv.numbered) ?_ (fun _ _ => rfl) ?_ ?_ ?_ ?_ ?_ ?_⟩
  · exact fun m older => Function.update_of_ne (by omega) _ _
  · exact fun other ne => Function.update_of_ne (fun same => ne (congrArg some same.symm)) _ _
  · rintro _ _ ⟨⟩ here
    cases saver.symm.trans here
    exact .inl rfl
  · rintro _ _ ⟨⟩ here
    dsimp only at here
    rw [Function.update_self] at here
    cases here
    exact ⟨rfl, ready, made, Function.update_self _ _ _, if_pos rfl ▸ ⟨unsaved, rfl⟩⟩
  · exact fun other saver _ here at_ => absurd at_ (nobody other saver here)
  · intro content there
    cases unsaved.symm.trans there
  · intro inode here _
    cases made.symm.trans here
    exact ⟨Function.update_self _ _ _, pid, job, sealed, job.calls.now, w.dir.next,
      Function.update_self _ _ _⟩

theorem cut (inv : DraftInv kem aead parser ctx keys origin w s)
    (saver : w.savers pid = some (.opening job sealed draftId created))
    (there : w.dir.inode (draftName draftId) = some inode) (shut : ∀ new, ¬ w.Open new draftId) :
    DraftInv kem aead parser ctx keys origin
      { dir := w.dir.truncate inode
        savers := Function.update w.savers pid
          (some (.writing job sealed false draftId created inode)) } s := by
  obtain ⟨ready, old⟩ := inv.fine pid _ saver
  refine inv.touch (some pid) draftId ⟨inv.numbered.distinct, inv.numbered.named⟩
    (.update inv.numbered there []) (fun _ _ => rfl) (fun _ _ => rfl) ?_ ?_ ?_ ?_ ?_ ?_
  · exact fun other ne => Function.update_of_ne (fun same => ne (congrArg some same.symm)) _ _
  · rintro _ _ ⟨⟩ here
    cases saver.symm.trans here
    exact .inr rfl
  · rintro _ _ ⟨⟩ here
    dsimp only at here
    rw [Function.update_self] at here
    cases here
    exact ⟨rfl, ready, there, Function.update_self _ _ _, old⟩
  · intro other saver' _ here at_
    refine ⟨?_, rfl⟩
    cases saver' with
    | trying => cases at_
    | opening job' sealed' _ created' =>
      cases at_
      exact ⟨job', sealed', created', rfl⟩
    | writing job' sealed' new _ created' inode' =>
      cases at_
      exact absurd ⟨other, job', sealed', created', inode', here⟩ (shut new)
  · intro content entry
    refine ⟨(inv.stored draftId content entry).1, inode, there, fun closed => absurd ?_ closed⟩
    exact ⟨pid, job, sealed, created, inode, Function.update_self _ _ _⟩
  · intro _ _ none
    rw [none] at old
    cases old

/-- What a save writes is the draft from then on. -/
theorem write {new : Bool} {payload : Bytes} (inv : DraftInv kem aead parser ctx keys origin w s)
    (saver : w.savers pid = some (.writing job sealed new draftId created inode))
    (parses : parser.parse payload = some (.ofObject (jobObj draftId created job sealed)) ∧
      (0 ≤ created ∧ created ≤ 2 ^ 53 → parser.valuedouble payload (utf8 "created") = created)) :
    DraftInv kem aead parser ctx keys origin
      { dir := w.dir.write inode payload, savers := Function.update w.savers pid none }
      (Function.update s draftId (some ⟨job, created⟩)) := by
  obtain ⟨ready, there, empty, entry⟩ := inv.fine pid _ saver
  have text : payload ++ (w.dir.content inode).drop payload.length = payload := by
    rw [empty, List.drop_nil, List.append_nil]
  have times : 0 ≤ created ∧ created ≤ 2 ^ 53 := by
    cases new with
    | true =>
      rw [(show _ ∧ _ from entry).2]
      exact ready.fits.now
    | false =>
      obtain ⟨content, here, rfl⟩ := Option.map_eq_some_iff.mp entry
      exact (inv.stored draftId content here).1
  refine inv.touch (some pid) draftId ⟨inv.numbered.distinct, inv.numbered.named⟩
    (.update inv.numbered there _) (fun _ _ => rfl) (fun _ ne => Function.update_of_ne ne _ _)
    ?_ ?_ ?_ ?_ ?_ ?_
  · exact fun other ne => Function.update_of_ne (fun same => ne (congrArg some same.symm)) _ _
  · rintro _ _ ⟨⟩ here
    cases saver.symm.trans here
    exact .inr rfl
  · rintro _ _ ⟨⟩ here
    dsimp only at here
    rw [Function.update_self] at here
    cases here
  · intro other saver' else_ here at_
    have fine := inv.fine other saver' here
    cases saver' with
    | trying => cases at_
    | opening job' sealed' _ created' =>
      cases at_
      refine ⟨⟨job', sealed', created', rfl⟩, ?_⟩
      have old := fine.2
      rw [Function.update_self]
      cases new with
      | true =>
        rw [(show _ ∧ _ from entry).1] at old
        cases old
      | false => exact (show _ = some created from entry).symm
    | writing job' sealed' new' _ created' inode' =>
      cases at_
      have same := inv.alone pid other job job' sealed sealed' new new' draftId created created' inode
        inode' saver here
      exact absurd (congrArg some same) else_
  · intro content here
    rw [Function.update_self] at here
    cases here
    refine ⟨times, inode, there, fun _ => ⟨sealed, ready, ?_⟩⟩
    have written : (w.dir.write inode payload).content inode = payload :=
      (Function.update_self _ _ _).trans text
    dsimp only
    rw [written]
    exact ⟨parses.1, parses.2 times⟩
  · intro _ _ none
    rw [Function.update_self] at none
    cases none

theorem delete (inv : DraftInv kem aead parser ctx keys origin w s)
    (left : ∀ pid saver, w.savers pid = some saver → saver.on ≠ some draftId) :
    DraftInv kem aead parser ctx keys origin { w with dir := w.dir.unlink (draftName draftId) }
      (Function.update s draftId none) := by
  have gone : (w.dir.unlink (draftName draftId)).inode (draftName draftId) = none :=
    DraftDir.inode_unlink_self
  refine inv.touch none draftId inv.numbered.unlink .unlink (fun _ _ => rfl)
    (fun _ ne => Function.update_of_ne ne _ _) (fun _ _ => rfl) (fun _ _ no => nomatch no)
    (fun _ _ no => nomatch no) ?_ ?_ ?_
  · exact fun pid saver _ here at_ => absurd at_ (left pid saver here)
  · intro content here
    rw [Function.update_self] at here
    cases here
  · intro inode here
    cases gone.symm.trans here

/-- An edit that reads while nobody has the file open finds the draft. -/
theorem readOld (inv : DraftInv kem aead parser ctx keys origin w s)
    (short : ctx.configDir.length ≤ 500) (plain : PlainId draftId)
    (old : draftCreated parser ctx.configDir (w.dir.files ctx keys) job.calls (some draftId) =
      some created) (shut : ∀ new, ¬ w.Open new draftId) :
    (s draftId).map DraftContent.created = some created := by
  have file := files_draft keys w.dir short plain.2
  cases here : w.dir.inode (draftName draftId) with
  | none =>
    unfold DraftDir.read at file
    rw [here] at file
    unfold draftCreated at old
    dsimp only at old
    rw [file, Option.map_none, ite_self] at old
    cases old
  | some inode =>
    unfold DraftDir.read at file
    rw [here] at file
    cases there : s draftId with
    | none => exact absurd (inv.unsaved draftId inode here there).2 (shut true)
    | some content =>
      obtain ⟨-, inode', here', holds⟩ := inv.stored draftId content there
      cases here.symm.trans here'
      exact congrArg some ((holds (shut false)).draftCreated_eq file old).symm

/-- **One careful step** does to the files what its event does to the store. -/
theorem step {w' : DraftWorld} {e : DraftEvent}
    (inv : DraftInv kem aead parser ctx keys origin w s) (short : ctx.configDir.length ≤ 500)
    (may : Careful printG parser w e) (taken : DraftStep kem aead printG parser ctx keys w e w') :
    (∃ origin', DraftInv kem aead parser ctx keys origin' w' (s.apply e)) ∧
      ∀ draftId job, e = .saved draftId job → s draftId = none := by
  cases taken with
  | scan idle body made =>
    refine ⟨⟨origin, inv.set ?_ ?_ ?_⟩, ?_⟩
    · intro _ _ _ _ _ _ here
      cases idle.symm.trans here
    · rintro _ _ _ _ _ _ ⟨⟩
    · rintro _ ⟨⟩
      exact ⟨⟨made, may.fits _ rfl⟩, .scan inv.numbered⟩
    · rintro _ _ ⟨⟩
  | taken saver more there =>
    have fine := inv.fine _ _ saver
    refine ⟨⟨origin, inv.set ?_ ?_ ?_⟩, ?_⟩
    · intro _ _ _ _ _ _ here
      cases saver.symm.trans here
    · rintro _ _ _ _ _ _ ⟨⟩
    · rintro _ ⟨⟩
      exact ⟨fine.1, fine.2.taken inv.numbered (may.few _ _ _ _ _ _ saver).1 there⟩
    · rintro _ _ ⟨⟩
  | create saver more fresh =>
    have bound := (may.few _ _ _ _ _ _ saver).2
    refine ⟨inv.create saver (by omega) fresh, ?_⟩
    rintro _ _ ⟨⟩
  | exhausted saver =>
    refine ⟨⟨origin, inv.set ?_ ?_ ?_⟩, ?_⟩
    · intro _ _ _ _ _ _ here
      cases saver.symm.trans here
    · rintro _ _ _ _ _ _ ⟨⟩
    · rintro _ ⟨⟩
    · rintro _ _ ⟨⟩
  | readOld idle body plain old made =>
    refine ⟨⟨origin, inv.set ?_ ?_ ?_⟩, ?_⟩
    · intro _ _ _ _ _ _ here
      cases idle.symm.trans here
    · rintro _ _ _ _ _ _ ⟨⟩
    · rintro _ ⟨⟩
      exact ⟨⟨made, may.fits _ rfl⟩, inv.readOld short plain old (may.shut _ rfl)⟩
    · rintro _ _ ⟨⟩
  | cut saver there =>
    refine ⟨⟨origin, inv.cut saver there (may.shut _ rfl)⟩, ?_⟩
    rintro _ _ ⟨⟩
  | giveUp here closed =>
    refine ⟨⟨origin, inv.set ?_ ?_ ?_⟩, ?_⟩
    · intro job sealed new draftId created inode there
      cases here.symm.trans there
      exact closed _ _ _ _ _ _ rfl
    · rintro _ _ _ _ _ _ ⟨⟩
    · rintro _ ⟨⟩
    · rintro _ _ ⟨⟩
  | @write pid job sealed new draftId created inode payload saver printed =>
    have after := inv.write saver (may.parses _ _ _ _ _ _ _ saver payload printed)
    obtain ⟨-, there, -, entry⟩ := inv.fine pid _ saver
    have id := inv.numbered.snprintf_eq there
    cases new with
    | true =>
      obtain ⟨unsaved, rfl⟩ := show _ ∧ _ from entry
      rw [if_pos rfl, id]
      refine ⟨⟨origin, after⟩, ?_⟩
      rintro _ _ ⟨⟩
      exact unsaved
    | false =>
      obtain ⟨content, here, rfl⟩ := Option.map_eq_some_iff.mp (show _ = some created from entry)
      rw [if_neg Bool.false_ne_true]
      refine ⟨⟨origin, ?_⟩, ?_⟩
      · unfold DraftMap.apply
        dsimp only
        rw [here]
        exact after
      · rintro _ _ ⟨⟩
  | crash saver printed => exact absurd rfl (may.prints _)
  | delete plain there =>
    refine ⟨⟨origin, inv.delete (may.left _ rfl)⟩, ?_⟩
    rintro _ _ ⟨⟩

end DraftInv

/-- In a careful run the files hold the store, and each new draft gets an id of its own. -/
theorem DraftRun.inv {kem : Kem} {aead : Aead} {printG : Int → Bytes} {parser : JsonParser} {ctx : Ctx}
    {keys : Files} {w : DraftWorld} {log : List DraftEvent} (short : ctx.configDir.length ≤ 500)
    (run : DraftRun kem aead printG parser ctx keys (Careful printG parser) w log) :
    (∃ origin, DraftInv kem aead parser ctx keys origin w (storeOf log)) ∧
      ∀ before draftId job after, log = before ++ .saved draftId job :: after →
        storeOf before draftId = none := by
  induction run with
  | start =>
    refine ⟨⟨fun _ => 1, ⟨List.nodup_nil, ?_⟩, ?_, ?_, ?_, ?_⟩, ?_⟩
    · rintro _ ⟨⟩
    · rintro _ _ ⟨⟩
    · rintro _ _ ⟨⟩
    · rintro _ _ ⟨⟩
    · rintro _ _ _ _ _ _ _ _ _ _ _ _ _ ⟨⟩
    · intro before _ _ after split
      exact absurd split.symm (List.append_ne_nil_of_right_ne_nil _ (List.cons_ne_nil _ _))
  | @step w w' log e run may taken ih =>
    obtain ⟨⟨origin, inv⟩, fresh⟩ := ih
    obtain ⟨kept, unsaved⟩ := inv.step short may taken
    rw [storeOf_append]
    refine ⟨kept, fun before draftId job after split => ?_⟩
    rcases List.eq_nil_or_concat after with rfl | ⟨after, last, rfl⟩
    · obtain ⟨rfl, same⟩ := List.append_inj' split rfl
      exact unsaved draftId job (List.cons.inj same).1
    · have split' : log ++ [e] = (before ++ .saved draftId job :: after) ++ [last] := by
        rw [split, List.append_assoc, List.cons_append, List.concat_eq_append]
      exact fresh before draftId job after (List.append_inj' split' rfl).1

end Shyake.Client
