import Shyake.Client.CJson.ParsesBack

/-!
# What the file of a draft says, byte by byte

A save writes the JSON from its first byte on, and may stop anywhere. With the vendored parser, the
file is corrupt up to the last byte but one, and the whole draft from the last byte on.
-/

namespace Shyake.Client

open CJson (Object printUnformatted createNumber PrintsShort HoldsShort)

variable (kdf : Kdf) (keyAead : Bytes → Aead) (kem : Kem) (aead : Aead)

theorem short_createNumber {d : Int} (short : d.natAbs < 10 ^ 15) :
    (createNumber d).Short := by
  have made := CJson.createNumber_eq d
  rw [made]
  exact ⟨made, short⟩

/-- Every value of a draft is a string or a short number. -/
theorem short_draftObj (id : Bytes) {created now : Int} {body_len : Nat} (sealed : SealedDraft)
    (createdShort : created.natAbs < 10 ^ 15) (nowShort : now.natAbs < 10 ^ 15)
    (lenShort : body_len < 10 ^ 15) :
    ∀ item ∈ draftObj id created now body_len sealed, item.value.Short := by
  have one : (createNumber 1).Short := short_createNumber (by decide)
  have times := short_createNumber createdShort
  have times' := short_createNumber nowShort
  have size := short_createNumber (d := body_len) (by omega)
  have string : ∀ s : Bytes, (CJson.Value.string s).Short := fun _ => trivial
  obtain ⟨_, _, _, _, encReplyTo⟩ := sealed
  cases encReplyTo <;>
    simp [draftObj, CJson.createObject, CJson.addNumberToObject, CJson.addStringToObject,
      CJson.addStringOrNull, one, times, times', size, string]

theorem draftObj_ne_nil {id : Bytes} {created now : Int} {body_len : Nat} {sealed : SealedDraft} :
    draftObj id created now body_len sealed ≠ [] := by
  obtain ⟨_, _, _, _, encReplyTo⟩ := sealed
  cases encReplyTo <;> exact List.cons_ne_nil _ _

namespace Saving

variable {round : ℚ → ℚ} {printG : Int → Bytes} {s : Saving} {created : Int} {sealed : SealedDraft}
  {text : Bytes}

/-- The new JSON, as the vendored parser takes it. -/
theorem root_parsesBack (sealed : SealedDraft) (prints : PrintsShort printG) (holds : HoldsShort round)
    (createdShort : created.natAbs < 10 ^ 15) (nowShort : s.calls.now.natAbs < 10 ^ 15)
    (lenShort : s.body.length < 10 ^ 15) :
    ParsesBack (CJson.parser round) printG (s.root created sealed) :=
  CJson.parser_parsesBack prints holds draftObj_ne_nil (short_draftObj _ _ createdShort nowShort lenShort)

/-! ## The numbers of a draft -/

section Numbers

variable {id : Bytes} {now : Int} {body_len : Nat}

theorem node_created : (CJson.Node.object (CJson.Object.nodes
    (draftObj id created now body_len sealed))).getObjectItem (utf8 "created") =
      some (createNumber created).node := by
  obtain ⟨_, _, _, _, encReplyTo⟩ := sealed
  cases encReplyTo <;> rfl

theorem node_modified : (CJson.Node.object (CJson.Object.nodes
    (draftObj id created now body_len sealed))).getObjectItem (utf8 "modified") =
      some (createNumber now).node := by
  obtain ⟨_, _, _, _, encReplyTo⟩ := sealed
  cases encReplyTo <;> rfl

theorem json_created : ((Json.ofObject (draftObj id created now body_len sealed)).getObjectItem
    (utf8 "created")).isSome := by
  obtain ⟨_, _, _, _, encReplyTo⟩ := sealed
  cases encReplyTo <;> rfl

theorem json_modified : ((Json.ofObject (draftObj id created now body_len sealed)).getObjectItem
    (utf8 "modified")).isSome := by
  obtain ⟨_, _, _, _, encReplyTo⟩ := sealed
  cases encReplyTo <;> rfl

theorem json_size : ((Json.ofObject (draftObj id created now body_len sealed)).getObjectItem
    (utf8 "size")).map Json.valueint = some (CJson.Item.valueint ⟨utf8 "size", createNumber body_len⟩) := by
  obtain ⟨_, _, _, _, encReplyTo⟩ := sealed
  have number := CJson.createNumber_eq body_len
  unfold draftObj CJson.addNumberToObject
  rw [number]
  cases encReplyTo <;> rfl

theorem truncate_createNumber (d : Int) :
    CJson.truncate (createNumber d).node.valuedouble = d := by
  rw [CJson.createNumber_eq]
  exact CJson.truncate_intCast d

/-- The numbers come back with the JSON. -/
theorem jsonDouble_created {raw : Bytes} (parsed : CJson.parse round raw =
      .ok (.object (CJson.Object.nodes (draftObj id created now body_len sealed)))) :
    jsonDouble (CJson.parser round) raw (.ofObject (draftObj id created now body_len sealed))
      (utf8 "created") = created := by
  unfold jsonDouble
  rw [if_pos json_created]
  dsimp only [CJson.parser]
  rw [parsed]
  dsimp only
  rw [node_created]
  exact truncate_createNumber created

theorem jsonDouble_modified {raw : Bytes} (parsed : CJson.parse round raw =
      .ok (.object (CJson.Object.nodes (draftObj id created now body_len sealed)))) :
    jsonDouble (CJson.parser round) raw (.ofObject (draftObj id created now body_len sealed))
      (utf8 "modified") = now := by
  unfold jsonDouble
  rw [if_pos json_modified]
  dsimp only [CJson.parser]
  rw [parsed]
  dsimp only
  rw [node_modified]
  exact truncate_createNumber now

end Numbers

/-- A save over a whole draft keeps the time at which it was created. -/
theorem draftCreated_whole (prints : PrintsShort printG) (holds : HoldsShort round)
    {configDir draftId id : Bytes} {files : Files} {calls : DraftCalls} {now : Int} {body_len : Nat}
    (read : calls.read = true) (here : files (draftPath configDir draftId) = some text)
    (createdShort : created.natAbs < 10 ^ 15) (nowShort : now.natAbs < 10 ^ 15)
    (lenShort : body_len < 10 ^ 15)
    (printed : printUnformatted printG (draftObj id created now body_len sealed) = some text) :
    draftCreated (CJson.parser round) configDir files calls (some draftId) = some created := by
  have short := short_draftObj id sealed createdShort nowShort lenShort
  have ⟨parsed, _⟩ := CJson.parse_printUnformatted prints holds draftObj_ne_nil short printed
  have parses := (CJson.parser_parsesBack prints holds draftObj_ne_nil short).whole text printed
  have double := jsonDouble_created parsed
  unfold jsonDouble at double
  rw [if_pos json_created] at double
  unfold draftCreated
  dsimp only
  rw [if_pos read, here]
  dsimp only
  rw [parses, Option.bind_some, if_pos json_created, double]

/-- What a draft that is read has of its JSON. -/
theorem numbers_of_read {parser : JsonParser} {files : Files} {raw : Bytes} {json : Json} {d : Draft}
    (here : files s.path = some raw) (parses : parser.parse raw = some json)
    (read : s.readOf kdf keyAead kem aead parser files = .ok d) :
    d.created = jsonDouble parser raw json (utf8 "created") ∧
      d.timestamp = jsonDouble parser raw json (utf8 "modified") ∧
      d.size = ((json.getObjectItem (utf8 "size")).map Json.valueint).getD 0 := by
  unfold readOf cliReadDraft parseDraftJson at read
  rw [show draftPath s.ctx.configDir s.draftId = s.path from rfl, here] at read
  dsimp only at read
  rw [parses] at read
  dsimp only at read
  split at read
  · rename_i jkey jbdy _ _
    split at read
    · cases read
    · rename_i ksk loaded
      cases unwrapped : kemDecapsulateKey kem jkey ksk with
      | none =>
        rw [unwrapped] at read
        cases read
      | some sym =>
        rw [unwrapped] at read
        simp only [Option.elim_some, if_true, true_and] at read
        split at read
        · cases read
        · cases read
          exact ⟨rfl, rfl, rfl⟩
  · cases read

/-- A file with every byte is read as what was sealed in it. -/
theorem read_whole (prints : PrintsShort printG) (holds : HoldsShort round) (readable : s.Readable)
    {ksk symKey encKey : Bytes} (loaded : Calls.loadKsk kdf keyAead s.ctx s.files = .ok ksk)
    (unwrapped : kemDecapsulateKey kem encKey ksk = some symKey) (wrapped : Client.cstr encKey = encKey)
    (made : SealedOf aead symKey encKey s.recipient s.subject s.replyRef s.body sealed)
    (createdShort : created.natAbs < 10 ^ 15) (nowShort : s.calls.now.natAbs < 10 ^ 15)
    (printed : printUnformatted printG (s.root created sealed) = some text) :
    ∃ d, s.readOf kdf keyAead kem aead (CJson.parser round)
        (Function.update s.files s.path (some text)) = .ok d ∧
      NewContent s.recipient s.subject s.replyRef s.body d ∧
      d.created = created ∧ d.timestamp = s.calls.now ∧ d.size = s.body.length := by
  have lenShort : s.body.length < 10 ^ 15 :=
    Nat.lt_of_le_of_lt readable.body (by decide)
  have short := short_draftObj (snprintf 32 s.draftId) sealed createdShort nowShort lenShort
  have ⟨whole, _⟩ := CJson.parse_printUnformatted prints holds draftObj_ne_nil short printed
  obtain ⟨opensBody, opensReply, new⟩ := new_of_readable aead made readable
  have parses := (root_parsesBack sealed prints holds createdShort nowShort lenShort).whole text printed
  obtain ⟨d, read, readAs⟩ := (readOf_new kdf keyAead kem aead (CJson.parser round) made wrapped parses
    loaded).2 symKey unwrapped opensBody opensReply
  obtain ⟨atCreated, atModified, atSize⟩ := numbers_of_read kdf keyAead kem aead
    (Function.update_self ..) parses read
  refine ⟨d, read, new d readAs, ?_, ?_, ?_⟩
  · rw [atCreated]
    exact jsonDouble_created whole
  · rw [atModified]
    exact jsonDouble_modified whole
  · have small : s.body.length ≤ maxText := readable.body
    rw [atSize]
    unfold root
    rw [json_size, Option.getD_some, CJson.Item.valueint, createNumber]
    unfold maxText maxLength at small
    rw [if_neg (by unfold CJson.INT_MAX; omega), if_neg (by unfold CJson.INT_MIN; omega)]

/-- **A save that stops at any byte** leaves a file that is read as corrupt, or as the whole draft:
its texts, when it was created and when it was saved, and how long it is. -/
theorem read_of_written (prints : PrintsShort printG) (holds : HoldsShort round)
    (readable : s.Readable) {ksk : Bytes}
    (loaded : Calls.loadKsk kdf keyAead s.ctx s.files = .ok ksk)
    (own : ∀ kpk, s.files (s.ctx.path (utf8 "kem_pk.bin")) = some kpk → kem.Matches kpk ksk)
    {symKey : {b : Bytes // b.length = 32}} {encKey : Bytes}
    (cuts : s.Cuts kem aead (CJson.parser round) created symKey encKey sealed)
    (createdShort : created.natAbs < 10 ^ 15) (nowShort : s.calls.now.natAbs < 10 ^ 15)
    (printed : printUnformatted printG (s.root created sealed) = some text) (n : Nat) :
    if n < text.length then
      s.readOf kdf keyAead kem aead (CJson.parser round)
          (Function.update s.files s.path (some (text.take n))) =
        .error (draftsSetError (utf8 "Draft " ++ s.draftId ++ utf8 " is corrupt."))
    else ∃ d,
      s.readOf kdf keyAead kem aead (CJson.parser round)
          (Function.update s.files s.path (some (text.take n))) = .ok d ∧
        NewContent s.recipient s.subject s.replyRef s.body d ∧
        d.created = created ∧ d.timestamp = s.calls.now ∧ d.size = s.body.length := by
  have lenShort : s.body.length < 10 ^ 15 :=
    Nat.lt_of_le_of_lt readable.body (by decide)
  have short := short_draftObj (snprintf 32 s.draftId) sealed createdShort nowShort lenShort
  have ⟨_, part⟩ := CJson.parse_printUnformatted prints holds draftObj_ne_nil short printed
  split_ifs with cut
  · have corrupt : (CJson.parser round).parse (text.take n) = none := by
      dsimp only [CJson.parser]
      rw [part n cut]
    unfold readOf cliReadDraft parseDraftJson
    rw [show draftPath s.ctx.configDir s.draftId = s.path from rfl, Function.update_self]
    dsimp only
    rw [corrupt]
  · rw [List.take_of_length_le (Nat.le_of_not_lt cut)]
    obtain ⟨kpk, coins, here, -, -, wrapped⟩ := shyakeSelfencBegin_iff.mp cuts.key
    have unwrapped : kemDecapsulateKey kem encKey ksk = some symKey.1 :=
      kemDecapsulateKey_encapsulated kem (own kpk here) symKey.2 wrapped
    exact read_whole kdf keyAead kem aead prints holds readable loaded unwrapped
      (cstr_kemEncapsulateKey kem wrapped) (sealedOf aead cuts.fields) createdShort nowShort printed

end Saving

namespace Sample

theorem holds_id : HoldsShort id := fun _ _ => rfl

theorem prints_formatInt : PrintsShort Go.formatInt := fun _ _ => rfl

/-- The note is saved over itself, with the parser that the client has. -/
theorem note_cuts_parsed (written : Nat) : ∃ encKey sealed,
    (note written).Cuts xorKem tagAead (CJson.parser id) 1749513600 noteKey encKey sealed ∧
      sealedNote = some sealed := by
  obtain ⟨sealed, text, made, here, printed⟩ := note_text
  obtain ⟨encKey, sealed', cuts, made'⟩ := note_cuts written
  obtain rfl := Option.some.inj (made.symm.trans made')
  have created : draftCreated (CJson.parser id) alice.configDir (note written).files
      (note written).calls (some (note written).draftId) = some 1749513600 :=
    Saving.draftCreated_whole prints_formatInt holds_id rfl ((note_file written).trans here)
      (by decide) (by decide) (by decide) printed
  exact ⟨encKey, sealed, ⟨cuts.body, cuts.dir, created, cuts.key, cuts.fields, cuts.opened⟩, made⟩

theorem read_of_written_note : ∃ (text : Bytes) (d : Draft),
    (note 0).readOf plainKdf (fun _ => tagAead) xorKem tagAead (CJson.parser id)
      (Function.update (note 0).files (note 0).path (some (text.take text.length))) = .ok d ∧
    d.body = some (utf8 "hello") ∧ d.created = 1749513600 := by
  obtain ⟨encKey, sealed, cuts, made⟩ := note_cuts_parsed 0
  obtain ⟨sealed', text, made', here, printed⟩ := note_text
  obtain rfl := Option.some.inj (made.symm.trans made')
  have whole := Saving.read_of_written plainKdf (fun _ => tagAead) xorKem tagAead prints_formatInt
    holds_id (note_readable 0) (note_sk 0) (fun _ here => note_own 0 here (note_sk 0)) cuts (by decide)
    (by decide) printed text.length
  rw [if_neg (Nat.lt_irrefl _)] at whole
  obtain ⟨d, read, new, created, -⟩ := whole
  exact ⟨text, d, read, new.body, created⟩

end Sample

end Shyake.Client
