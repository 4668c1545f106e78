import Shyake.Lib.PrefixCode
import Shyake.Lib.Sha
import Shyake.Go.Runes

/-!
# Signed messages (`internal/protocol/signed.go`)

Body-signed requests are verified against a compact JSON rebuild of some of their
fields, header-signed ones against fields joined by colons. `quote` says what the
server's escaper does on a whole string, byte by byte; `appendJSString` is the loop
of the source, and `appendJSString_eq` connects the two.
-/

namespace Shyake.Go.Protocol

/-! ## Quoting -/

/-- The bytes one byte of a string becomes inside quotes. -/
def escapeByte (c : UInt8) : Bytes :=
  if c = 34 then [92, 34]
  else if c = 92 then [92, 92]
  else if c = 8 then [92, 98]
  else if c = 12 then [92, 102]
  else if c = 10 then [92, 110]
  else if c = 13 then [92, 114]
  else if c = 9 then [92, 116]
  else if c < 0x20 then [92, 117, 48, 48, hexDigit (c >>> 4), hexDigit (c &&& 0xf)]
  else [c]

/-- A string in quotes. -/
def quote (s : Bytes) : Bytes := 34 :: (s.flatMap escapeByte ++ [34])

/-- The loop of `appendJSString`. The number counts the bytes of the current rune that are
still to be copied. -/
def jsStringLoop : Nat → Bytes → Bytes
  | _, [] => []
  | n + 1, c :: cs => c :: jsStringLoop n cs
  | 0, c :: cs =>
    if c ≥ 0x80 then c :: jsStringLoop ((decodeRune (c :: cs)).2 - 1) cs
    else escapeByte c ++ jsStringLoop 0 cs

def appendJSString (b s : Bytes) : Bytes := b ++ 34 :: (jsStringLoop 0 s ++ [34])

theorem escapeByte_of_le {c : UInt8} (h : 0x80 ≤ c) : escapeByte c = [c] := by
  have ge : 128 ≤ c.toNat := UInt8.le_iff_toNat_le.mp h
  unfold escapeByte
  iterate 7
    rw [if_neg (by rintro rfl; exact absurd ge (by decide))]
  rw [if_neg (by rw [UInt8.lt_iff_toNat_lt, show (0x20 : UInt8).toNat = 32 from rfl]; omega)]

/-- Copying runes whole is the same as copying their bytes one by one. -/
theorem jsStringLoop_eq (s : Bytes) (n : Nat) (h : ∀ b ∈ s.take n, 0x80 ≤ b) :
    jsStringLoop n s = s.flatMap escapeByte := by
  induction s generalizing n with
  | nil => cases n <;> rfl
  | cons c cs ih =>
    cases n with
    | zero =>
      unfold jsStringLoop
      split
      · rename_i high
        rw [List.flatMap_cons, escapeByte_of_le high, ih _ (decodeRune_skips c cs)]
        rfl
      · rw [List.flatMap_cons, ih 0 (by simp)]
    | succ n =>
      simp only [List.take_succ_cons, List.mem_cons, forall_eq_or_imp] at h
      rw [jsStringLoop, List.flatMap_cons, escapeByte_of_le h.1, ih n h.2]
      rfl

@[simp] theorem appendJSString_eq (b s : Bytes) : appendJSString b s = b ++ quote s := by
  rw [appendJSString, jsStringLoop_eq s 0 (by simp), quote]

theorem length_escapeByte_le (c : UInt8) : (escapeByte c).length ≤ 6 := by
  unfold escapeByte
  split_ifs <;> simp

/-- Quoting makes six bytes of one at most. -/
theorem length_quote_le (s : Bytes) : (quote s).length ≤ 6 * s.length + 2 := by
  have body : (s.flatMap escapeByte).length ≤ 6 * s.length := by
    induction s with
    | nil => exact Nat.le_refl 0
    | cons c cs ih =>
      have := length_escapeByte_le c
      rw [List.flatMap_cons, List.length_append, List.length_cons]
      omega
  unfold quote
  rw [List.length_cons, List.length_append, List.length_singleton]
  omega

/-! ## The messages -/

structure JsonObj where
  buf : Bytes

namespace JsonObj

def key (o : JsonObj) (k : Bytes) : JsonObj :=
  let buf := if o.buf.length == 0 then o.buf ++ [123] else o.buf ++ [44]
  ⟨appendJSString buf k ++ [58]⟩

def str (o : JsonObj) (k v : Bytes) : JsonObj := ⟨appendJSString (o.key k).buf v⟩

def num (o : JsonObj) (k : Bytes) (v : Int) : JsonObj := ⟨(o.key k).buf ++ formatInt v⟩

def done (o : JsonObj) : Bytes := o.buf ++ [125]

/-- The text before a value: `sep` is the brace or the comma. -/
def field (sep : UInt8) (k : Bytes) : Bytes := sep :: (quote k ++ [58])

theorem key_nil (k : Bytes) : (key ⟨[]⟩ k).buf = field 123 k := by
  simp [key, field]

theorem key_buf {o : JsonObj} (h : o.buf ≠ []) (k : Bytes) :
    (o.key k).buf = o.buf ++ field 44 k := by
  simp [key, field, h]

theorem str_nil (k v : Bytes) : (str ⟨[]⟩ k v).buf = field 123 k ++ quote v := by
  simp [str, key_nil]

theorem str_buf {o : JsonObj} (h : o.buf ≠ []) (k v : Bytes) :
    (o.str k v).buf = o.buf ++ (field 44 k ++ quote v) := by
  simp [str, key_buf h]

theorem num_buf {o : JsonObj} (h : o.buf ≠ []) (k : Bytes) (v : Int) :
    (o.num k v).buf = o.buf ++ (field 44 k ++ formatInt v) := by
  simp [num, key_buf h]

theorem length_key_le {o : JsonObj} {n : Nat} (h : o.buf.length ≤ n) (k : Bytes) :
    (o.key k).buf.length ≤ n + 6 * k.length + 4 := by
  have quoted := length_quote_le k
  unfold key
  simp only [appendJSString_eq, List.length_append, List.length_singleton]
  split <;> simp only [List.length_append, List.length_singleton] <;> omega

theorem length_str_le {o : JsonObj} {n : Nat} (h : o.buf.length ≤ n) (k v : Bytes) :
    (o.str k v).buf.length ≤ n + 6 * k.length + 6 * v.length + 6 := by
  have quoted := length_quote_le v
  have before := length_key_le h k
  unfold str
  simp only [appendJSString_eq, List.length_append]
  omega

theorem length_num_le {o : JsonObj} {n : Nat} (h : o.buf.length ≤ n) (k : Bytes) (v : Int) :
    (o.num k v).buf.length ≤ n + 6 * k.length + (formatInt v).length + 4 := by
  have before := length_key_le h k
  unfold num
  simp only [List.length_append]
  omega

theorem str_ne_nil (o : JsonObj) (k v : Bytes) : (o.str k v).buf ≠ [] := by
  simp [str, quote]

end JsonObj

/-- The signed subset of POST /api/register. -/
def registerMessage (username kemPub sigPub timestamp : Bytes) : Bytes :=
  let b : JsonObj := ⟨[]⟩
  let b := b.str (utf8 "username") username
  let b := b.str (utf8 "kem_pubkey") kemPub
  let b := b.str (utf8 "sig_pubkey") sigPub
  let b := b.str (utf8 "timestamp") timestamp
  b.done

/-- The signed subset of POST /api/mail. A mail that is no reply has an empty `encReplyTo`. -/
def mailMessage (sender recipient fingerprint encSubject encBody encReplyTo timestamp : Bytes)
    (size : Int) : Bytes :=
  let b : JsonObj := ⟨[]⟩
  let b := b.str (utf8 "sender") sender
  let b := b.str (utf8 "recipient") recipient
  let b := b.str (utf8 "recipient_kem_fingerprint") fingerprint
  let b := b.str (utf8 "enc_subject") encSubject
  let b := b.str (utf8 "enc_body") encBody
  let b := if encReplyTo ≠ [] then b.str (utf8 "enc_reply_to") encReplyTo else b
  let b := b.str (utf8 "timestamp") timestamp
  let b := b.num (utf8 "size") size
  b.done

def level : Nat := 3
def replyLevel : Nat := 3

/-- `METHOD:/path[?query]:username:timestamp`. -/
def headerMessage (method path username timestamp : Bytes) : Bytes :=
  method ++ 58 :: path ++ 58 :: username ++ 58 :: timestamp

/-- The header message, a colon, and the SHA-256 of the body in lowercase hex. -/
def headerBodyMessage (method path username timestamp body : Bytes) : Bytes :=
  (headerMessage method path username timestamp ++ [58]) ++ hexEncode (Lib.sha256 body)

open JsonObj in
/-- The register message, laid out. -/
theorem registerMessage_eq (username kemPub sigPub timestamp : Bytes) :
    registerMessage username kemPub sigPub timestamp =
      field 123 (utf8 "username") ++ quote username ++
      (field 44 (utf8 "kem_pubkey") ++ quote kemPub) ++
      (field 44 (utf8 "sig_pubkey") ++ quote sigPub) ++
      (field 44 (utf8 "timestamp") ++ quote timestamp) ++ [125] := by
  simp only [registerMessage, done, str_buf (str_ne_nil _ _ _), str_nil]

/-- What `mailMessage` writes for a reply reference. -/
def replyField (encReplyTo : Bytes) : Bytes :=
  if encReplyTo ≠ [] then JsonObj.field 44 (utf8 "enc_reply_to") ++ quote encReplyTo else []

open JsonObj in
/-- The mail message, laid out. -/
theorem mailMessage_eq (sender recipient fingerprint encSubject encBody encReplyTo
    timestamp : Bytes) (size : Int) :
    mailMessage sender recipient fingerprint encSubject encBody encReplyTo timestamp size =
      field 123 (utf8 "sender") ++ quote sender ++
      (field 44 (utf8 "recipient") ++ quote recipient) ++
      (field 44 (utf8 "recipient_kem_fingerprint") ++ quote fingerprint) ++
      (field 44 (utf8 "enc_subject") ++ quote encSubject) ++
      (field 44 (utf8 "enc_body") ++ quote encBody) ++
      replyField encReplyTo ++
      (field 44 (utf8 "timestamp") ++ quote timestamp) ++
      (field 44 (utf8 "size") ++ formatInt size) ++ [125] := by
  unfold mailMessage replyField
  by_cases reply : encReplyTo = []
  · simp only [reply, ne_eq, not_true_eq_false, if_false, done, num_buf (str_ne_nil _ _ _),
      str_buf (str_ne_nil _ _ _), str_nil, List.append_nil]
  · simp only [reply, ne_eq, not_false_eq_true, if_true, done, num_buf (str_ne_nil _ _ _),
      str_buf (str_ne_nil _ _ _), str_nil]

end Shyake.Go.Protocol
