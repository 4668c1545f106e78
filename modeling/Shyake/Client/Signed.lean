import Shyake.Client.CJson

/-!
# What the client signs (`mail.c`, `libshyake.c`)

The client signs the unformatted print of a JSON object; the server rebuilds the
message with an escaper of its own. The two agree byte for byte.
-/

namespace Shyake.Client

open CJson
open Go.Protocol (quote mailMessage registerMessage JsonObj.field replyField)

/-- `signed_obj` of `send_mail`. -/
def signedObj (sender recipient fp_hex : Bytes) (enc_subject : Option Bytes) (enc_body : Bytes)
    (enc_reply_to : Option Bytes) (timestamp : Bytes) (body_len : Nat) : Object :=
  let o := createObject
  let o := addStringToObject o (utf8 "sender") sender
  let o := addStringToObject o (utf8 "recipient") recipient
  let o := addStringToObject o (utf8 "recipient_kem_fingerprint") fp_hex
  let o := addStringToObject o (utf8 "enc_subject") (enc_subject.getD [])
  let o := addStringToObject o (utf8 "enc_body") enc_body
  let o := match enc_reply_to with
    | some r => addStringToObject o (utf8 "enc_reply_to") r
    | none => o
  let o := addStringToObject o (utf8 "timestamp") timestamp
  addNumberToObject o (utf8 "size") body_len

/-- `root` of `shyake_register`, as it is when it is signed. -/
def registerObj (username kpk_b64 spk_b64 timestamp : Bytes) : Object :=
  let o := createObject
  let o := addStringToObject o (utf8 "username") username
  let o := addStringToObject o (utf8 "kem_pubkey") kpk_b64
  let o := addStringToObject o (utf8 "sig_pubkey") spk_b64
  addStringToObject o (utf8 "timestamp") timestamp

namespace CJson

variable (printG : Int → Bytes)

/-- A member's text once its value's text is known. -/
def itemText (name text : Bytes) : Bytes := quote name ++ [58] ++ text

theorem prints_item (name : Bytes) (value : Value) {text : Bytes}
    (h : Prints (printValue printG value) text) :
    Prints (fun out => do
      let out ← printStringPtr name out
      let out ← put [58] 1 out
      printValue printG value out) (itemText name text) := by
  have name := prints_string name
  have colon : Prints (put [58] 1) [58] := .put_ensured (by decide)
  have all := name.seq (colon.seq h)
  simpa only [itemText, List.append_assoc] using all

/-- The last member: no comma. -/
theorem prints_last (name : Bytes) (value : Value) {text : Bytes}
    (h : Prints (printValue printG value) text) :
    Prints (printMembers printG [⟨name, value⟩]) (itemText name text) := by
  have none : Prints (put [] 1) [] := .put_ensured (by decide)
  have all := (prints_item printG name value h).seq (none.seq .nothing)
  simpa only [printMembers, List.append_nil, bind_assoc, List.isEmpty_nil, if_true,
    List.length_nil, Nat.zero_add] using all

/-- A member with others behind it. -/
theorem prints_member (name : Bytes) (value : Value) {next : Item} {rest : List Item}
    {text more : Bytes} (h : Prints (printValue printG value) text)
    (later : Prints (printMembers printG (next :: rest)) more) :
    Prints (printMembers printG (⟨name, value⟩ :: next :: rest))
      (itemText name text ++ 44 :: more) := by
  have comma : Prints (put [44] 2) [44] := .put_ensured (by decide)
  have all := (prints_item printG name value h).seq (comma.seq later)
  simpa only [printMembers, bind_assoc, List.isEmpty_cons, Bool.false_eq_true, if_false,
    List.length_singleton, List.singleton_append] using all

theorem prints_object {object : Object} {text : Bytes}
    (h : Prints (printMembers printG object) text) :
    Prints (fun out => do
      let out ← put [123] 2 out
      let out ← printMembers printG object out
      put [125] 2 out) (123 :: text ++ [125]) := by
  have start : Prints (put [123] 2) [123] := .put_ensured (by decide)
  have finish : Prints (put [125] 2) [125] := .put_ensured (by decide)
  have all := start.seq (h.seq finish)
  simpa only [List.cons_append, List.nil_append] using all

end CJson

/-- What is signed is the message: nothing else is ever printed, and the message is printed
unless it does not fit in the printer's buffer. -/
def Signs (printed : Option Bytes) (message : Bytes) : Prop :=
  (∀ s, printed = some s → s = message) ∧
    ((message.length + 2 : Nat) ≤ INT_MAX → printed = some message)

theorem signs_of_prints {printG : Int → Bytes} {object : Object} {text : Bytes}
    (h : Prints (printMembers printG object) text) :
    Signs (printUnformatted printG object) (123 :: text ++ [125]) := by
  have whole := prints_object printG h
  constructor
  · intro s printed
    simpa using whole.only [] s printed
  · intro room
    exact whole.fits [] (by simpa using room)

theorem signs_register (printG : Int → Bytes) {username kpk_b64 spk_b64 timestamp : Bytes}
    (hu : NulFree username) (hk : NulFree kpk_b64) (hs : NulFree spk_b64)
    (ht : NulFree timestamp) :
    Signs (printUnformatted printG (registerObj username kpk_b64 spk_b64 timestamp))
      (registerMessage username kpk_b64 spk_b64 timestamp) := by
  have printed := signs_of_prints
    (prints_member printG (utf8 "username") (.string username) (prints_string _)
    (prints_member printG (utf8 "kem_pubkey") (.string kpk_b64) (prints_string _)
    (prints_member printG (utf8 "sig_pubkey") (.string spk_b64) (prints_string _)
    (prints_last printG (utf8 "timestamp") (.string timestamp) (prints_string _)))))
  have object : registerObj username kpk_b64 spk_b64 timestamp =
      [⟨utf8 "username", .string username⟩, ⟨utf8 "kem_pubkey", .string kpk_b64⟩,
        ⟨utf8 "sig_pubkey", .string spk_b64⟩, ⟨utf8 "timestamp", .string timestamp⟩] := by
    simp only [registerObj, addStringToObject, cstr_of_nulFree hu, cstr_of_nulFree hk,
      cstr_of_nulFree hs, cstr_of_nulFree ht]
    rfl
  rw [object, Go.Protocol.registerMessage_eq]
  simpa only [itemText, JsonObj.field, List.append_assoc, List.cons_append, List.nil_append]
    using printed

/-- Every field of a mail is one a C string can hold, and an `enc_reply_to` is not empty. -/
structure MailStrings (sender recipient fp_hex : Bytes) (enc_subject : Option Bytes)
    (enc_body : Bytes) (enc_reply_to : Option Bytes) (timestamp : Bytes) : Prop where
  sender : NulFree sender
  recipient : NulFree recipient
  fp_hex : NulFree fp_hex
  enc_subject : ∀ s ∈ enc_subject, NulFree s
  enc_body : NulFree enc_body
  enc_reply_to : ∀ r ∈ enc_reply_to, NulFree r ∧ r ≠ []
  timestamp : NulFree timestamp

theorem signs_mail (printG : Int → Bytes) {sender recipient fp_hex : Bytes}
    {enc_subject : Option Bytes} {enc_body : Bytes} {enc_reply_to : Option Bytes}
    {timestamp : Bytes} {body_len : Nat}
    (h : MailStrings sender recipient fp_hex enc_subject enc_body enc_reply_to timestamp)
    (small : body_len < 2 ^ 31) :
    Signs (printUnformatted printG
        (signedObj sender recipient fp_hex enc_subject enc_body enc_reply_to timestamp body_len))
      (mailMessage sender recipient fp_hex (enc_subject.getD []) enc_body (enc_reply_to.getD [])
        timestamp body_len) := by
  have subject : NulFree (enc_subject.getD []) := by
    cases enc_subject with
    | none => simp [NulFree]
    | some s => exact h.enc_subject s rfl
  -- the part from the timestamp on, then the optional field, then the rest
  have tail := prints_member printG (utf8 "timestamp") (.string timestamp)
    (prints_string _) (prints_last printG (utf8 "size") (createNumber body_len)
      (prints_number printG (by omega) (by unfold INT_MAX; omega)))
  have head : ∀ {next : Item} {rest : List Item} {text : Bytes},
      Prints (printMembers printG (next :: rest)) text → _ := fun {next rest text} later =>
    signs_of_prints
      (prints_member printG (utf8 "sender") (.string sender) (prints_string _)
      (prints_member printG (utf8 "recipient") (.string recipient) (prints_string _)
      (prints_member printG (utf8 "recipient_kem_fingerprint") (.string fp_hex)
        (prints_string _)
      (prints_member printG (utf8 "enc_subject") (.string (enc_subject.getD []))
        (prints_string _)
      (prints_member printG (utf8 "enc_body") (.string enc_body) (prints_string _)
        later)))))
  rw [Go.Protocol.mailMessage_eq]
  cases enc_reply_to with
  | none =>
    have printed := head tail
    simp only [signedObj, createObject, addStringToObject, addNumberToObject,
      cstr_of_nulFree h.sender, cstr_of_nulFree h.recipient, cstr_of_nulFree h.fp_hex, cstr_of_nulFree subject,
      cstr_of_nulFree h.enc_body, cstr_of_nulFree h.timestamp, List.nil_append,
      List.cons_append]
    simpa only [itemText, JsonObj.field, replyField, Option.getD_none, ne_eq, not_true_eq_false,
      if_false, List.append_assoc, List.cons_append, List.nil_append] using printed
  | some r =>
    obtain ⟨nulFree, ne⟩ := h.enc_reply_to r rfl
    have printed := head (prints_member printG (utf8 "enc_reply_to") (.string r)
      (prints_string _) tail)
    simp only [signedObj, createObject, addStringToObject, addNumberToObject,
      cstr_of_nulFree h.sender, cstr_of_nulFree h.recipient, cstr_of_nulFree h.fp_hex, cstr_of_nulFree subject,
      cstr_of_nulFree h.enc_body, cstr_of_nulFree h.timestamp, cstr_of_nulFree nulFree,
      List.nil_append, List.cons_append]
    simpa only [itemText, JsonObj.field, replyField, Option.getD_some, ne_eq, ne,
      not_false_eq_true, if_true, List.append_assoc, List.cons_append, List.nil_append]
      using printed

/-- **Client and server sign the same bytes**, for mail and for registration. -/
theorem client_signs_server_message (printG : Int → Bytes) :
    (∀ sender recipient fp_hex enc_subject enc_body enc_reply_to timestamp (body_len : Nat),
      MailStrings sender recipient fp_hex enc_subject enc_body enc_reply_to timestamp →
      body_len < 2 ^ 31 →
      Signs (printUnformatted printG
          (signedObj sender recipient fp_hex enc_subject enc_body enc_reply_to timestamp body_len))
        (mailMessage sender recipient fp_hex (enc_subject.getD []) enc_body
          (enc_reply_to.getD []) timestamp body_len)) ∧
    (∀ username kpk_b64 spk_b64 timestamp, NulFree username → NulFree kpk_b64 →
      NulFree spk_b64 → NulFree timestamp →
      Signs (printUnformatted printG (registerObj username kpk_b64 spk_b64 timestamp))
        (registerMessage username kpk_b64 spk_b64 timestamp)) :=
  ⟨fun _ _ _ _ _ _ _ _ strings small => signs_mail printG strings small,
    fun _ _ _ _ hu hk hs ht => signs_register printG hu hk hs ht⟩

/-- Quotes, a backslash, a control character and two-byte characters, in a reply and in a
registration. -/
theorem client_signs_server_message_escapes :
    Signs (printUnformatted (fun _ => [])
        (signedObj (utf8 "alice") (utf8 "bob\"") (utf8 "ab\\") (some [9, 31, 127]) (utf8 "é")
          (some (utf8 "r")) (utf8 "1700") 12))
      (mailMessage (utf8 "alice") (utf8 "bob\"") (utf8 "ab\\") [9, 31, 127] (utf8 "é")
        (utf8 "r") (utf8 "1700") 12) ∧
    Signs (printUnformatted (fun _ => [])
        (registerObj (utf8 "alice") (utf8 "k/") (utf8 "s+") (utf8 "1700")))
      (registerMessage (utf8 "alice") (utf8 "k/") (utf8 "s+") (utf8 "1700")) :=
  ⟨(client_signs_server_message _).1 _ _ _ _ _ _ _ _
      ⟨by decide, by decide, by decide, by decide, by decide, by decide, by decide⟩ (by decide),
    (client_signs_server_message _).2 _ _ _ _ (by decide) (by decide) (by decide) (by decide)⟩

end Shyake.Client
