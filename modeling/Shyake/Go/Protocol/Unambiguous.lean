import Shyake.Go.Protocol.Address
import Shyake.Go.Protocol.Signed

/-!
# Signed messages are unambiguous

Two messages that the server would verify under one key are told apart by their
bytes alone. Quoted fields are self-delimiting, so the JSON messages are read from
the left; a header message is read from the right, because its path may hold
colons and its other fields cannot.
-/

namespace Shyake.Go.Protocol

open Lib (SelfDelimiting)

/-- Every message the server verifies a signature over. A mail without `enc_reply_to` has an
empty `encReplyTo`. -/
inductive SignedMessage where
  | register (username kemPub sigPub timestamp : Bytes)
  | mail (sender recipient fingerprint encSubject encBody encReplyTo timestamp : Bytes) (size : Int)
  | header (method path username timestamp : Bytes)
  | headerBody (method path username timestamp body : Bytes)

namespace SignedMessage

def bytes : SignedMessage → Bytes
  | register username kemPub sigPub timestamp => registerMessage username kemPub sigPub timestamp
  | mail sender recipient fingerprint encSubject encBody encReplyTo timestamp size =>
    mailMessage sender recipient fingerprint encSubject encBody encReplyTo timestamp size
  | header method path username timestamp => headerMessage method path username timestamp
  | headerBody method path username timestamp body =>
    headerBodyMessage method path username timestamp body

/-- The methods of the header-authenticated routes. -/
def methods : List Bytes := [utf8 "GET", utf8 "POST", utf8 "DELETE"]

/-- What the server has checked of a message's fields before it verifies the signature. -/
def Checked : SignedMessage → Prop
  | register username _ _ timestamp =>
    validUsername username = true ∧ (parseInt timestamp).isSome = true
  | mail _ _ _ _ _ _ timestamp _ => (parseInt timestamp).isSome = true
  | header method _ username timestamp | headerBody method _ username timestamp _ =>
    method ∈ methods ∧ validUsername username = true ∧ (parseInt timestamp).isSome = true

/-- The same request: equal fields, and for a signed body equal digests. -/
def Same : SignedMessage → SignedMessage → Prop
  | headerBody method path username timestamp body,
      headerBody method' path' username' timestamp' body' =>
    method = method' ∧ path = path' ∧ username = username' ∧ timestamp = timestamp' ∧
      Lib.sha256 body = Lib.sha256 body'
  | m, m' => m = m'

end SignedMessage

/-! ## Quoted fields -/

/-- The value of a lowercase hex digit. -/
def hexValue (c : UInt8) : UInt8 := if isDigit c then c - 48 else c - 87

/-- Undo `escapeByte` at the front of a text. -/
def unescape : Bytes → Option (UInt8 × Bytes)
  | 92 :: 34 :: r => some (34, r)
  | 92 :: 92 :: r => some (92, r)
  | 92 :: 98 :: r => some (8, r)
  | 92 :: 102 :: r => some (12, r)
  | 92 :: 110 :: r => some (10, r)
  | 92 :: 114 :: r => some (13, r)
  | 92 :: 116 :: r => some (9, r)
  | 92 :: 117 :: 48 :: 48 :: h :: l :: r => some (hexValue h * 16 + hexValue l, r)
  | c :: r => some (c, r)
  | [] => none

private theorem hexValue_table : ∀ n : Fin 32,
    hexValue (hexDigit (UInt8.ofNat n >>> 4)) * 16 + hexValue (hexDigit (UInt8.ofNat n &&& 0xf)) =
      UInt8.ofNat n := by
  decide

theorem unescape_escapeByte (c : UInt8) (r : Bytes) :
    unescape (escapeByte c ++ r) = some (c, r) := by
  unfold escapeByte
  split_ifs with quote backslash _ _ _ _ _ control
  · subst c; rfl
  · subst c; rfl
  · subst c; rfl
  · subst c; rfl
  · subst c; rfl
  · subst c; rfl
  · subst c; rfl
  · have value := hexValue_table ⟨c.toNat, UInt8.lt_iff_toNat_lt.mp control⟩
    simp only [UInt8.ofNat_toNat] at value
    simp only [List.cons_append, List.nil_append, unescape, value]
  · simp only [List.cons_append, List.nil_append]
    unfold unescape
    split <;> simp_all

theorem selfDelimiting_escapeByte : SelfDelimiting escapeByte :=
  .of_decoder unescape unescape_escapeByte

/-- No escape starts with the closing quote. -/
theorem escapeByte_start (c : UInt8) : ∃ b l, escapeByte c = b :: l ∧ b ≠ 34 := by
  unfold escapeByte
  split_ifs with quote
  all_goals first
    | exact ⟨92, _, rfl, by decide⟩
    | exact ⟨c, [], rfl, quote⟩

theorem selfDelimiting_quote : SelfDelimiting quote :=
  (selfDelimiting_escapeByte.terminated escapeByte_start).const_append [34]

/-- Two texts that start with the same key: the values are equal and so is the rest. -/
theorem field_inj {sep : UInt8} {k v v' r r' : Bytes}
    (e : JsonObj.field sep k ++ quote v ++ r = JsonObj.field sep k ++ quote v' ++ r') :
    v = v' ∧ r = r' := by
  simp only [List.append_assoc, List.append_cancel_left_eq] at e
  exact selfDelimiting_quote e

theorem registerMessage_inj {u k s t u' k' s' t' : Bytes}
    (e : registerMessage u k s t = registerMessage u' k' s' t') :
    u = u' ∧ k = k' ∧ s = s' ∧ t = t' := by
  simp only [registerMessage_eq, ← List.append_assoc] at e
  simp only [List.append_assoc] at e
  simp only [← List.append_assoc (JsonObj.field _ _)] at e
  obtain ⟨hu, e⟩ := field_inj e
  obtain ⟨hk, e⟩ := field_inj e
  obtain ⟨hs, e⟩ := field_inj e
  obtain ⟨ht, -⟩ := field_inj e
  exact ⟨hu, hk, hs, ht⟩

/-- The optional field: it is there or not, and then its value is the same. -/
theorem replyField_inj {v v' r r' : Bytes}
    (e : replyField v ++ (JsonObj.field 44 (utf8 "timestamp") ++ r) =
      replyField v' ++ (JsonObj.field 44 (utf8 "timestamp") ++ r')) : v = v' ∧ r = r' := by
  -- the third byte of either field is the first letter of its key
  have clash : ∀ w s s' : Bytes, JsonObj.field 44 (utf8 "enc_reply_to") ++ quote w ++ s ≠
      JsonObj.field 44 (utf8 "timestamp") ++ s' := by
    intro w s s' e
    have := congrArg (·[2]?) e
    exact absurd this (by
      change some (101 : UInt8) ≠ some 116
      decide)
  unfold replyField at e
  split_ifs at e with reply reply' reply'
  · obtain ⟨hv, e⟩ := field_inj e
    exact ⟨hv, List.append_cancel_left e⟩
  · exact absurd e (clash _ _ _)
  · exact absurd e.symm (clash _ _ _)
  · simp only [ne_eq, not_not] at reply reply'
    exact ⟨by rw [reply, reply'], List.append_cancel_left e⟩

theorem mailMessage_inj {s r f j b p t s' r' f' j' b' p' t' : Bytes} {n n' : Int}
    (e : mailMessage s r f j b p t n = mailMessage s' r' f' j' b' p' t' n') :
    s = s' ∧ r = r' ∧ f = f' ∧ j = j' ∧ b = b' ∧ p = p' ∧ t = t' ∧ n = n' := by
  simp only [mailMessage_eq, ← List.append_assoc] at e
  simp only [List.append_assoc] at e
  simp only [← List.append_assoc (JsonObj.field _ _) (quote _)] at e
  obtain ⟨hs, e⟩ := field_inj e
  obtain ⟨hr, e⟩ := field_inj e
  obtain ⟨hf, e⟩ := field_inj e
  obtain ⟨hj, e⟩ := field_inj e
  obtain ⟨hb, e⟩ := field_inj e
  simp only [List.append_assoc] at e
  obtain ⟨hp, e⟩ := replyField_inj e
  obtain ⟨ht, e⟩ := selfDelimiting_quote e
  have e := List.append_cancel_right (List.append_cancel_left e)
  exact ⟨hs, hr, hf, hj, hb, hp, ht, formatInt_injective e⟩

/-! ## Header messages -/

theorem colon_notMem_of_parseInt {s : Bytes} (h : (parseInt s).isSome = true) :
    (58 : UInt8) ∉ s := by
  obtain ⟨t, ht⟩ := Option.isSome_iff_exists.mp h
  intro mem
  rcases chars_of_parseInt ht 58 mem with digit | plus | minus
  · exact absurd digit (by decide)
  · exact absurd plus (by decide)
  · exact absurd minus (by decide)

theorem colon_notMem_of_validUsername {s : Bytes} (h : validUsername s = true) :
    (58 : UInt8) ∉ s :=
  notMem_of_validUsername h (by decide)

theorem colon_notMem_of_method {m : Bytes} (h : m ∈ SignedMessage.methods) : (58 : UInt8) ∉ m := by
  revert m
  decide

theorem colon_notMem_hexEncode (b : Bytes) : (58 : UInt8) ∉ hexEncode b := by
  have digit : ∀ n : UInt8, hexDigit n ≠ 58 := by
    intro n e
    unfold hexDigit at e
    rw [List.getD_eq_getElem?_getD] at e
    by_cases lt : n.toNat < hexDigits.length
    · rw [List.getElem?_eq_getElem lt, Option.getD_some] at e
      have : (58 : UInt8) ∈ hexDigits := e ▸ List.getElem_mem lt
      exact absurd this (by decide)
    · rw [List.getElem?_eq_none (by omega)] at e
      exact absurd e (by decide)
  intro mem
  obtain ⟨c, -, hc⟩ := List.mem_flatMap.mp mem
  simp only [List.mem_cons, List.not_mem_nil, or_false] at hc
  rcases hc with e | e
  · exact digit _ e.symm
  · exact digit _ e.symm

/-- A username is no timestamp: it has a letter. -/
theorem parseInt_of_validUsername {s : Bytes} (h : validUsername s = true) :
    parseInt s = none := by
  rw [Option.eq_none_iff_forall_ne_some]
  intro t ht
  obtain ⟨c, mem, letter⟩ := letter_of_validUsername h
  have other := chars_of_parseInt ht c mem
  have apart : ∀ n : Fin 256, (isLower (UInt8.ofNat n) || isUpper (UInt8.ofNat n)) = true →
      (isDigit (UInt8.ofNat n) || UInt8.ofNat n == 43 || UInt8.ofNat n == 45) = false := by
    decide +kernel
  have := apart ⟨c.toNat, c.toNat_lt⟩
  simp only [UInt8.ofNat_toNat, Bool.or_eq_true, Bool.or_eq_false_iff, beq_eq_false_iff_ne] at this
  obtain ⟨⟨digit, plus⟩, minus⟩ := this letter
  simp [digit, plus, minus] at other

theorem headerMessage_inj {m p u t m' p' u' t' : Bytes} (hm : (58 : UInt8) ∉ m)
    (hm' : (58 : UInt8) ∉ m') (hu : (58 : UInt8) ∉ u) (hu' : (58 : UInt8) ∉ u')
    (ht : (58 : UInt8) ∉ t) (ht' : (58 : UInt8) ∉ t')
    (e : headerMessage m p u t = headerMessage m' p' u' t') :
    m = m' ∧ p = p' ∧ u = u' ∧ t = t' := by
  obtain ⟨e, time⟩ := Lib.append_sep_inj ht ht' e
  obtain ⟨e, user⟩ := Lib.append_sep_inj hu hu' e
  obtain ⟨method, path⟩ := Lib.sep_append_inj hm hm' e
  exact ⟨method, path, user, time⟩

/-- A header message and a header message with a digest: read from the right, the username of
one would be the timestamp of the other. -/
theorem header_ne_headerBody {m p u t m' p' u' t' b' : Bytes} (hu : validUsername u = true)
    (ht : (parseInt t).isSome = true) (ht' : (parseInt t').isSome = true) :
    headerMessage m p u t ≠ headerBodyMessage m' p' u' t' b' := by
  intro e
  simp only [headerBodyMessage, List.append_assoc, List.singleton_append] at e
  obtain ⟨e, -⟩ := Lib.append_sep_inj (colon_notMem_of_parseInt ht) (colon_notMem_hexEncode _) e
  obtain ⟨-, e⟩ := Lib.append_sep_inj (colon_notMem_of_validUsername hu)
    (colon_notMem_of_parseInt ht') e
  rw [← e, parseInt_of_validUsername hu] at ht'
  cases ht'

/-- The byte that two hexadecimal digits make, and what follows them. -/
def hexPair : Bytes → Option (UInt8 × Bytes)
  | h :: l :: r => some (hexValue h * 16 + hexValue l, r)
  | _ => none

theorem hexEncode_injective : Function.Injective hexEncode := by
  have decoded : SelfDelimiting fun c : UInt8 => [hexDigit (c >>> 4), hexDigit (c &&& 15)] := by
    refine .of_decoder hexPair ?_
    intro c r
    have table : ∀ n : Fin 256, hexValue (hexDigit (UInt8.ofNat n >>> 4)) * 16 +
        hexValue (hexDigit (UInt8.ofNat n &&& 15)) = UInt8.ofNat n := by decide +kernel
    have value := table ⟨c.toNat, c.toNat_lt⟩
    simp only [UInt8.ofNat_toNat] at value
    simp only [hexPair, List.cons_append, List.nil_append, value]
  intro a
  induction a with
  | nil =>
    intro b e
    cases b with
    | nil => rfl
    | cons c cs => cases e
  | cons c cs ih =>
    intro b e
    cases b with
    | nil => cases e
    | cons d ds =>
      obtain ⟨hc, e⟩ := decoded e
      rw [hc, ih e]

/-! ## Kinds -/

/-- The first bytes of each kind of message. -/
theorem registerMessage_head (u k s t : Bytes) :
    (registerMessage u k s t).take 3 = [123, 34, 117] := by
  rw [registerMessage_eq]
  rfl

theorem mailMessage_head (s r f j b p t : Bytes) (n : Int) :
    (mailMessage s r f j b p t n).take 3 = [123, 34, 115] := by
  rw [mailMessage_eq]
  rfl

theorem headerMessage_head {m : Bytes} (h : m ∈ SignedMessage.methods) (p u t r : Bytes) :
    (headerMessage m p u t ++ r).head? ≠ some 123 := by
  simp only [SignedMessage.methods, List.mem_cons, List.not_mem_nil, or_false] at h
  obtain rfl | rfl | rfl := h
  · exact fun e => absurd (Option.some.inj e) (by decide)
  · exact fun e => absurd (Option.some.inj e) (by decide)
  · exact fun e => absurd (Option.some.inj e) (by decide)

/-- A JSON message is no header message. -/
theorem json_ne_header {j : Bytes} {c : UInt8} (hj : j.take 3 = [123, 34, c]) {m : Bytes}
    (h : m ∈ SignedMessage.methods) {p u t r : Bytes} : j ≠ headerMessage m p u t ++ r := by
  intro e
  refine headerMessage_head h p u t r ?_
  rw [← e]
  match j, hj with
  | _ :: _, hj => exact congrArg some (List.cons.inj hj).1

theorem register_ne_mail {u k s t s' r' f' j' b' p' t' : Bytes} {n' : Int} :
    registerMessage u k s t ≠ mailMessage s' r' f' j' b' p' t' n' := by
  intro e
  have heads := registerMessage_head u k s t
  rw [e, mailMessage_head] at heads
  exact absurd heads (by decide)

/-- **Signed messages are unambiguous**: messages with equal bytes are of one kind and have
equal fields. -/
theorem signedMessage_unambiguous {x y : SignedMessage} (hx : x.Checked) (hy : y.Checked)
    (e : x.bytes = y.bytes) : x.Same y := by
  cases x with
  | register u k s t =>
    have json := registerMessage_head u k s t
    cases y with
    | register =>
      obtain ⟨rfl, rfl, rfl, rfl⟩ := registerMessage_inj e
      rfl
    | mail => exact absurd e register_ne_mail
    | header => exact absurd (e.trans (List.append_nil _).symm) (json_ne_header json hy.1)
    | headerBody => exact absurd (e.trans (List.append_assoc ..)) (json_ne_header json hy.1)
  | mail s r f j b p t n =>
    have json := mailMessage_head s r f j b p t n
    cases y with
    | register => exact absurd e.symm register_ne_mail
    | mail =>
      obtain ⟨rfl, rfl, rfl, rfl, rfl, rfl, rfl, rfl⟩ := mailMessage_inj e
      rfl
    | header => exact absurd (e.trans (List.append_nil _).symm) (json_ne_header json hy.1)
    | headerBody => exact absurd (e.trans (List.append_assoc ..)) (json_ne_header json hy.1)
  | header m p u t =>
    have noColon := colon_notMem_of_parseInt hx.2.2
    cases y with
    | register =>
      exact absurd (e.symm.trans (List.append_nil _).symm)
        (json_ne_header (registerMessage_head ..) hx.1)
    | mail =>
      exact absurd (e.symm.trans (List.append_nil _).symm)
        (json_ne_header (mailMessage_head ..) hx.1)
    | header m' p' u' t' =>
      obtain ⟨rfl, rfl, rfl, rfl⟩ := headerMessage_inj (colon_notMem_of_method hx.1)
        (colon_notMem_of_method hy.1) (colon_notMem_of_validUsername hx.2.1)
        (colon_notMem_of_validUsername hy.2.1) noColon (colon_notMem_of_parseInt hy.2.2) e
      rfl
    | headerBody => exact absurd e (header_ne_headerBody hx.2.1 hx.2.2 hy.2.2)
  | headerBody m p u t b =>
    have noColon := colon_notMem_of_parseInt hx.2.2
    cases y with
    | register =>
      exact absurd (e.symm.trans (List.append_assoc ..))
        (json_ne_header (registerMessage_head ..) hx.1)
    | mail =>
      exact absurd (e.symm.trans (List.append_assoc ..))
        (json_ne_header (mailMessage_head ..) hx.1)
    | header => exact absurd e.symm (header_ne_headerBody hy.2.1 hy.2.2 hx.2.2)
    | headerBody m' p' u' t' b' =>
      simp only [SignedMessage.bytes, headerBodyMessage, List.append_assoc,
        List.singleton_append] at e
      obtain ⟨e, digest⟩ := Lib.append_sep_inj (colon_notMem_hexEncode _)
        (colon_notMem_hexEncode _) e
      obtain ⟨rfl, rfl, rfl, rfl⟩ := headerMessage_inj (colon_notMem_of_method hx.1)
        (colon_notMem_of_method hy.1) (colon_notMem_of_validUsername hx.2.1)
        (colon_notMem_of_validUsername hy.2.1) noColon (colon_notMem_of_parseInt hy.2.2) e
      exact ⟨rfl, rfl, rfl, rfl, hexEncode_injective digest⟩

/-- A path with colons in it, read back from the bytes. -/
theorem signedMessage_unambiguous_colons :
    SignedMessage.Same (.header (utf8 "GET") (utf8 "/api/mail/a:b") (utf8 "alice") (utf8 "1700"))
      (.header (utf8 "GET") (utf8 "/api/mail/a:b") (utf8 "alice") (utf8 "1700")) :=
  signedMessage_unambiguous ⟨by decide, by decide, by decide⟩ ⟨by decide, by decide, by decide⟩ rfl

end Shyake.Go.Protocol
