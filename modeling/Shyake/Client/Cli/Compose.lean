import Shyake.Client.Cli.Scissors
import Shyake.Client.Drafts

/-!
# The template of a draft (`parse_compose_buffer`, `save_edited_draft`)

A draft is edited as a text with a line for each of its headers, a separator and the body. What is in
a header is not looked at when the text is made, so a header of more than one line does not come
back as it was.
-/

namespace Shyake.Client

open Lines (lines chomp)

/-- What `parse_compose_buffer` finds. -/
structure Compose where
  recipient : Option Bytes
  subject : Option Bytes
  body : Bytes

/-- The loop of `parse_compose_buffer`. -/
def parseComposeLines (recipient subject : Option Bytes) : List Bytes → Option Compose
  | [] => none
  | line :: next =>
    let trimmed := trimWhitespace (chomp line)
    if trimmed = utf8 "---" then some ⟨recipient, subject, next.flatten⟩
    else if (utf8 "To:").isPrefixOf trimmed then
      parseComposeLines (some (trimWhitespace (trimmed.drop 3))) subject next
    else if (utf8 "Subject:").isPrefixOf trimmed then
      parseComposeLines recipient (some (trimWhitespace (trimmed.drop 8))) next
    else parseComposeLines recipient subject next

def parseComposeBuffer (buf : Bytes) : Option Compose := parseComposeLines none none (lines buf)

/-- What `save_edited_draft` gives to `cli_save_draft`. -/
structure DraftText where
  recipient : Option Bytes
  subject : Option Bytes
  body : Bytes
  deriving DecidableEq

/-- `save_edited_draft` as far as the draft is saved, with what it prints on the way; what it prints
when it fails. -/
def editedDraft (buf : Bytes) (replyTo : Option Bytes) : Except Bytes (DraftText × Bytes) :=
  match parseComposeBuffer buf with
  | none => .error (utf8 "Missing '---' separator. Draft aborted.\n")
  | some ⟨recipient, subject, body⟩ =>
    let body := body.dropWhile fun c => c == 10 || c == 13
    let hasContent := body.any fun c => !isspace c
    if hasContent = false then .error (utf8 "Draft aborted (empty body).\n")
    else
      let long := if (subject.getD []).length > 128 then
        utf8 "WARNING: The subject exceeds 128 bytes. Sending will fail.\n" else []
      match replyTo with
      | none => .ok (⟨recipient, subject, body⟩, long)
      | some replyTo =>
        let kept := if recipient.getD [] ≠ [] ∧ recipient ≠ some replyTo then
          utf8 "A reply keeps its recipient: " ++ replyTo ++ utf8 ".\n" else []
        .ok (⟨some replyTo, subject, body⟩, long ++ kept)

/-- The C string that a pointer into a buffer is. -/
def toCString (s : Bytes) : CString := ⟨cstr s, fun h => by simpa using List.mem_takeWhile_imp h⟩

/-- `save_edited_draft`. -/
def saveEditedDraft (kem : Kem) (aead : Aead) (printG : Int → Bytes) (parser : JsonParser) (ctx : Ctx)
    (calls : DraftCalls) (buf : Bytes) (replyRef : Option CString) (replyTo draftId : Option Bytes)
    (files : Files) : Except Bytes (Option SavedDraft × Files) :=
  (editedDraft buf replyTo).map fun (text, _) =>
    cliSaveDraft kem aead printG parser ctx calls (text.recipient.map toCString)
      (text.subject.map toCString) replyRef text.body draftId files

/-! ## The templates -/

/-- The template of a draft. -/
def composeTemplate (recipient sub body : Bytes) : Bytes :=
  snprintf (recipient.length + sub.length + body.length + 32)
    (utf8 "To: " ++ recipient ++ utf8 "\nSubject: " ++ sub ++ utf8 "\n---\n" ++ body)

/-- The template of the draft of a reply to `to`. -/
def replyDraftTemplate (recipient sub body : Bytes) : Bytes :=
  snprintf (recipient.length + sub.length + body.length + 32)
    (utf8 "Subject: " ++ sub ++ utf8 "\n---\n" ++ body)

/-- The template of a reply. -/
def replyTemplate (sub : Bytes) : Bytes :=
  snprintf (sub.length + 32) (utf8 "Subject: " ++ sub ++ utf8 "\n---\n\n")

/-- A template below its first line, in a buffer that is large enough. -/
theorem subjectLines_eq {size : Nat} (sub body : Bytes)
    (room : sub.length + body.length + 14 < size) :
    snprintf size (utf8 "Subject: " ++ sub ++ utf8 "\n---\n" ++ body) =
      (utf8 "Subject: " ++ sub) ++ 10 :: (utf8 "---" ++ 10 :: body) := by
  have dashes : utf8 "\n---\n" = 10 :: utf8 "---" ++ [10] := by decide
  have subject_ : (utf8 "Subject: ").length = 9 := by decide
  have dashes_ : (utf8 "---").length = 3 := by decide
  unfold snprintf
  rw [List.take_of_length_le]
  · simp [dashes]
  · simp only [dashes, List.length_append, List.length_cons, subject_, dashes_, List.length_nil]
    omega

theorem composeTemplate_eq (recipient sub body : Bytes) : composeTemplate recipient sub body =
    (utf8 "To: " ++ recipient) ++ 10 :: ((utf8 "Subject: " ++ sub) ++ 10 :: (utf8 "---" ++ 10 :: body)) := by
  have subject : utf8 "\nSubject: " = 10 :: utf8 "Subject: " := by decide
  have dashes : utf8 "\n---\n" = 10 :: utf8 "---" ++ [10] := by decide
  have to_ : (utf8 "To: ").length = 4 := by decide
  have subject_ : (utf8 "Subject: ").length = 9 := by decide
  have dashes_ : (utf8 "---").length = 3 := by decide
  unfold composeTemplate snprintf
  rw [List.take_of_length_le]
  · simp [subject, dashes]
  · simp only [subject, dashes, List.length_append, List.length_cons, to_, subject_, dashes_,
      List.length_nil]
    omega

theorem replyDraftTemplate_eq (recipient sub body : Bytes) : replyDraftTemplate recipient sub body =
    (utf8 "Subject: " ++ sub) ++ 10 :: (utf8 "---" ++ 10 :: body) :=
  subjectLines_eq sub body (by omega)

theorem replyTemplate_eq (sub body : Bytes) : replyTemplate sub ++ body =
    (utf8 "Subject: " ++ sub) ++ 10 :: (utf8 "---" ++ 10 :: (10 :: body)) := by
  have blank : utf8 "\n---\n\n" = utf8 "\n---\n" ++ [10] := by decide
  have lines : snprintf (sub.length + 32) _ = _ := subjectLines_eq sub [10] (by simp)
  unfold replyTemplate
  rw [blank, ← List.append_assoc, lines]
  simp

/-! ## Headers -/

/-- No newline in it, and nothing to trim at its ends. -/
def OneLine (s : Bytes) : Prop := 10 ∉ s ∧ Trimmed s

/-- What is found in a header is one line, whatever was put there. -/
theorem oneLine_of_parse {ls : List Bytes} {recipient subject : Option Bytes} {c : Compose}
    (h : parseComposeLines recipient subject ls = some c)
    (r : ∀ x, recipient = some x → OneLine x) (s : ∀ x, subject = some x → OneLine x) :
    (∀ x, c.recipient = some x → OneLine x) ∧ ∀ x, c.subject = some x → OneLine x := by
  have header : ∀ (line : Bytes) n x,
      some (trimWhitespace ((trimWhitespace (chomp line)).drop n)) = some x → OneLine x := by
    intro line n x hx
    cases hx
    refine ⟨fun mem => ?_, trimmed_trim _⟩
    exact Lines.newline_notMem_chomp line
      (trim_subset _ ((List.drop_suffix _ _).subset (trim_subset _ mem)))
  induction ls generalizing recipient subject with
  | nil => cases h
  | cons line next ih =>
    unfold parseComposeLines at h
    extract_lets trimmed at h
    split at h
    · cases h
      exact ⟨r, s⟩
    · split at h
      · exact ih h (header line 3) s
      · split at h
        · exact ih h r (header line 8)
        · exact ih h r s

private theorem dashes_eq : utf8 "---" = [45, 45, 45] := by decide
private theorem to_eq : utf8 "To:" = [84, 111, 58] := by decide
private theorem subject_eq : utf8 "Subject:" = [83, 117, 98, 106, 101, 99, 116, 58] := by decide

/-- The line of a recipient. -/
theorem parse_to {r : Bytes} (h : OneLine r) (recipient subject : Option Bytes) (s : Bytes) :
    parseComposeLines recipient subject (lines ((utf8 "To: " ++ r) ++ 10 :: s)) =
      parseComposeLines (some r) subject (lines s) := by
  have free : 10 ∉ utf8 "To: " ++ r := by
    rw [List.mem_append, not_or]
    exact ⟨by decide, h.1⟩
  have name : Trimmed (utf8 "To:") := by decide
  obtain ⟨rest, eq, found⟩ := trim_header (by decide) name h.2
  have eq : trimWhitespace (utf8 "To: " ++ r) = 84 :: 111 :: 58 :: rest := eq
  rw [Lines.lines_line free, parseComposeLines, Lines.chomp_line free, eq]
  rw [if_neg (by simp [dashes_eq]), if_pos (by simp [to_eq])]
  simp [found]

/-- The line of a subject. -/
theorem parse_subject {r : Bytes} (h : OneLine r) (recipient subject : Option Bytes) (s : Bytes) :
    parseComposeLines recipient subject (lines ((utf8 "Subject: " ++ r) ++ 10 :: s)) =
      parseComposeLines recipient (some r) (lines s) := by
  have free : 10 ∉ utf8 "Subject: " ++ r := by
    rw [List.mem_append, not_or]
    exact ⟨by decide, h.1⟩
  have name : Trimmed (utf8 "Subject:") := by decide
  obtain ⟨rest, eq, found⟩ := trim_header (by decide) name h.2
  have eq : trimWhitespace (utf8 "Subject: " ++ r) =
      83 :: 117 :: 98 :: 106 :: 101 :: 99 :: 116 :: 58 :: rest := eq
  rw [Lines.lines_line free, parseComposeLines, Lines.chomp_line free, eq]
  rw [if_neg (by simp [dashes_eq]), if_neg (by simp [to_eq]), if_pos (by simp [subject_eq])]
  simp [found]

/-- The separator. -/
theorem parse_separator (recipient subject : Option Bytes) (s : Bytes) :
    parseComposeLines recipient subject (lines (utf8 "---" ++ 10 :: s)) =
      some ⟨recipient, subject, s⟩ := by
  have free : 10 ∉ utf8 "---" := by decide
  have here : trimWhitespace (utf8 "---") = utf8 "---" := by decide
  rw [Lines.lines_line free, parseComposeLines, Lines.chomp_line free, here]
  simp [Lines.flatten_lines]

/-! ## What is stored -/

/-- It does not start with a newline or a carriage return. -/
def Inked (body : Bytes) : Prop := ∀ c, body.head? = some c → c ≠ 10 ∧ c ≠ 13

theorem dropWhile_of_inked {body : Bytes} (h : Inked body) :
    body.dropWhile (fun c => c == 10 || c == 13) = body := by
  cases body with
  | nil => rfl
  | cons c body =>
    obtain ⟨nl, cr⟩ := h c rfl
    exact List.dropWhile_cons_of_neg (by simp [nl, cr])

theorem inked_dropWhile (body : Bytes) :
    Inked (body.dropWhile fun c => c == 10 || c == 13) := by
  intro c hc
  have stop := List.head?_dropWhile_not (fun c : UInt8 => c == 10 || c == 13) body
  rw [hc] at stop
  simpa using stop

/-- What is given to `cli_save_draft`. -/
def storedText (buf : Bytes) (replyTo : Option Bytes) : Option DraftText :=
  (editedDraft buf replyTo).toOption.map Prod.fst

theorem storedText_of_parse {buf body : Bytes} {recipient subject : Option Bytes}
    (h : parseComposeBuffer buf = some ⟨recipient, subject, body⟩) (replyTo : Option Bytes)
    (content : (body.dropWhile fun c => c == 10 || c == 13).any (fun c => !isspace c) = true) :
    storedText buf replyTo = some ⟨replyTo.or recipient, subject,
      body.dropWhile fun c => c == 10 || c == 13⟩ := by
  unfold storedText editedDraft
  rw [h]
  dsimp only
  rw [content, if_neg (by simp)]
  cases replyTo <;> rfl

/-- What is stored is one line for each header, and a body that does not start with a newline. -/
theorem storedText_shape {buf : Bytes} {replyTo : Option Bytes} {text : DraftText}
    (h : storedText buf replyTo = some text) :
    (replyTo = none → ∀ x, text.recipient = some x → OneLine x) ∧
      (∀ x, text.subject = some x → OneLine x) ∧ Inked text.body := by
  unfold storedText editedDraft at h
  cases parsed : parseComposeBuffer buf with
  | none =>
    rw [parsed] at h
    cases h
  | some c =>
    have found := oneLine_of_parse parsed nofun nofun
    rw [parsed] at h
    dsimp only at h
    split at h
    · cases h
    · cases replyTo with
      | none =>
        cases h
        exact ⟨fun _ => found.1, found.2, inked_dropWhile _⟩
      | some r =>
        cases h
        exact ⟨nofun, found.2, inked_dropWhile _⟩

/-- A body with something in it keeps that. -/
theorem content_dropWhile {body : Bytes} (h : body.any (fun c => !isspace c) = true) :
    (body.dropWhile fun c => c == 10 || c == 13).any (fun c => !isspace c) = true := by
  obtain ⟨c, mem, ink⟩ := List.any_eq_true.mp h
  have kept : c ∈ body.dropWhile fun c => c == 10 || c == 13 := by
    rw [← List.takeWhile_append_dropWhile (p := fun c : UInt8 => c == 10 || c == 13) (l := body),
      List.mem_append] at mem
    rcases mem with front | rest
    · have nl := List.mem_takeWhile_imp front
      rcases Bool.or_eq_true_iff.mp nl with nl | nl
      · rw [beq_iff_eq.mp nl] at ink
        exact absurd ink (by decide)
      · rw [beq_iff_eq.mp nl] at ink
        exact absurd ink (by decide)
    · exact rest
  exact List.any_eq_true.mpr ⟨c, kept, ink⟩

/-- `save_edited_draft` saves what is stored. -/
theorem saveEditedDraft_of_stored {kem : Kem} {aead : Aead} {printG : Int → Bytes} {parser : JsonParser}
    {ctx : Ctx} {calls : DraftCalls} {buf : Bytes} {replyRef : Option CString}
    {replyTo draftId : Option Bytes} {files : Files} {text : DraftText}
    (h : storedText buf replyTo = some text) :
    saveEditedDraft kem aead printG parser ctx calls buf replyRef replyTo draftId files =
      .ok (cliSaveDraft kem aead printG parser ctx calls (text.recipient.map toCString)
        (text.subject.map toCString) replyRef text.body draftId files) := by
  unfold storedText at h
  unfold saveEditedDraft
  cases edited : editedDraft buf replyTo with
  | error e =>
    rw [edited] at h
    cases h
  | ok found =>
    rw [edited] at h
    cases h
    rfl

/-- A template comes back as the recipient, the subject and the body it was made of exactly when its
headers are one line each and the body does not start with a newline; the recipient of a reply comes
back whatever it is. -/
theorem templates_come_back (recipient sub : Bytes) {body : Bytes}
    (content : body.any (fun c => !isspace c) = true) :
    (storedText (composeTemplate recipient sub body) none = some ⟨some recipient, some sub, body⟩ ↔
        OneLine recipient ∧ OneLine sub ∧ Inked body) ∧
      (storedText (replyDraftTemplate recipient sub body) (some recipient) =
          some ⟨some recipient, some sub, body⟩ ↔ OneLine sub ∧ Inked body) ∧
      (storedText (replyTemplate sub ++ body) (some recipient) =
          some ⟨some recipient, some sub, body⟩ ↔ OneLine sub ∧ Inked body) := by
  have kept := content_dropWhile content
  refine ⟨⟨fun h => ?_, ?_⟩, ⟨fun h => ?_, ?_⟩, ⟨fun h => ?_, ?_⟩⟩
  · obtain ⟨to_, subject, ink⟩ := storedText_shape h
    exact ⟨to_ rfl _ rfl, subject _ rfl, ink⟩
  · rintro ⟨to_, subject, ink⟩
    have parsed : parseComposeBuffer (composeTemplate recipient sub body) =
        some ⟨some recipient, some sub, body⟩ := by
      rw [composeTemplate_eq]
      unfold parseComposeBuffer
      rw [parse_to to_, parse_subject subject, parse_separator]
    rw [storedText_of_parse parsed none kept, dropWhile_of_inked ink]
    rfl
  · obtain ⟨-, subject, ink⟩ := storedText_shape h
    exact ⟨subject _ rfl, ink⟩
  · rintro ⟨subject, ink⟩
    have parsed : parseComposeBuffer (replyDraftTemplate recipient sub body) =
        some ⟨none, some sub, body⟩ := by
      rw [replyDraftTemplate_eq]
      unfold parseComposeBuffer
      rw [parse_subject subject, parse_separator]
    rw [storedText_of_parse parsed (some recipient) kept, dropWhile_of_inked ink]
    rfl
  · obtain ⟨-, subject, ink⟩ := storedText_shape h
    exact ⟨subject _ rfl, ink⟩
  · rintro ⟨subject, ink⟩
    have parsed : parseComposeBuffer (replyTemplate sub ++ body) = some ⟨none, some sub, 10 :: body⟩ := by
      rw [replyTemplate_eq]
      unfold parseComposeBuffer
      rw [parse_subject subject, parse_separator]
    have front : (10 :: body).dropWhile (fun c => c == 10 || c == 13) = body :=
      (List.dropWhile_cons_of_pos rfl).trans (dropWhile_of_inked ink)
    rw [storedText_of_parse parsed (some recipient) (by rw [front, ← dropWhile_of_inked ink]; exact kept),
      front]
    rfl

namespace Sample

theorem greeting_comes_back :
    storedText (composeTemplate (utf8 "bobby") (utf8 "Hello") (utf8 "How are you?")) none =
      some ⟨some (utf8 "bobby"), some (utf8 "Hello"), utf8 "How are you?"⟩ :=
  have inked : Inked (utf8 "How are you?") := by
    intro c hc
    cases hc
    decide
  (templates_come_back (utf8 "bobby") (utf8 "Hello") (by decide)).1.mpr
    ⟨⟨by decide, by decide⟩, ⟨by decide, by decide⟩, inked⟩

/-- A subject that a draft can hold, and that can be sent, gives the draft to someone else. -/
theorem header_in_subject :
    NulFree (utf8 "Hello\nTo: mallory") ∧ Trimmed (utf8 "Hello\nTo: mallory") ∧
      subjectProblem (some (utf8 "Hello\nTo: mallory")) = none ∧
      storedText (composeTemplate (utf8 "bobby") (utf8 "Hello\nTo: mallory") (utf8 "How are you?"))
        none = some ⟨some (utf8 "mallory"), some (utf8 "Hello"), utf8 "How are you?"⟩ := by
  decide +kernel

end Sample

end Shyake.Client
