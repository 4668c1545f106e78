import Shyake.Client.HostEntries
import Shyake.Client.KeyCheck
import Shyake.Client.RoundTrip

/-!
# Trust on first use (`send_mail` and `known_hosts`)

The first key that is fetched of a recipient goes into `known_hosts`, and a mail is sealed to no
other until the user asks for it. That depends on the entry being read back: there is none of a name
that is too long for its field, and blanks in front of a key can push it over the end of the buffer.
-/

namespace Shyake.Client

open Lines (Whole)
open Go.Protocol (b64Value)
open Calls (SendCalls decodedKey)

variable (kdf : Kdf) (keyAead : Bytes → Aead) (printG : Int → Bytes) (kem : Kem) (aead : Aead)

/-! ## Runs -/

/-- A call of `shyake_send` or `shyake_send_reply`. -/
structure SendCall where
  ctx : Ctx
  files : Files
  instanceUrl : Bytes
  calls : SendCalls
  recipient : Bytes
  replyRef : Option Bytes
  subject : Bytes
  body : Bytes

/-- The key of the mail that it posts. -/
def SendCall.key (s : SendCall) : Option Bytes :=
  (sealedTo kdf keyAead printG kem aead s.ctx s.files s.instanceUrl s.calls s.recipient s.replyRef
    s.subject s.body).map Prod.fst

/-- `known_hosts` after a key of the user was fetched and decoded. -/
def hostsAfterFetch (file known : Option Bytes) (user recipPkB64 : Bytes) :
    Option (Option Bytes) → Option Bytes
  | some (some recipPk) =>
    if known.isNone then
      some (addKnownHost file user (Go.hexEncode (Lib.sha256 recipPk)) recipPkB64)
    else file
  | _ => file

/-- `known_hosts` after it. -/
def SendCall.hosts (s : SendCall) (file : Option Bytes) : Option Bytes :=
  if s.replyRef.any (!isRef ·) then file
  else
    match s.calls.lookup with
    | .error _ => file
    | .ok recipPkB64 =>
      hostsAfterFetch file (getKnownHost file s.recipient) s.recipient recipPkB64
        (decodedKey recipPkB64)

/-- What `fetch_recipient_pubkey` returns. -/
abbrev FetchedKey := Except {err : ShyakeErr // err ≠ .OK} Bytes

/-- `known_hosts` after a key of the user was fetched and decoded for an update. -/
def hostsAfterRefresh (file : Option Bytes) (user recipPkB64 : Bytes) :
    Option (Option Bytes) → Option Bytes
  | some (some recipPk) =>
    some (updateKnownHost file user (Go.hexEncode (Lib.sha256 recipPk)) recipPkB64)
  | _ => file

/-- `known_hosts` after `shyake_fingerprint` with `do_update`. -/
def hostsAfterUpdate (file : Option Bytes) (user : Bytes) (fetched : FetchedKey) : Option Bytes :=
  match fetched with
  | .error _ => file
  | .ok recipPkB64 => hostsAfterRefresh file user recipPkB64 (decodedKey recipPkB64)

inductive TrustEvent where
  /-- A mail is transmitted, sealed to the key. -/
  | posted (recipient key : Bytes)
  | kept
  /-- `shyake fingerprint <user> --update`. -/
  | updated (user : Bytes)

/-- The sends and updates of a profile, and its `known_hosts` then. The keys are what the servers
answer. -/
inductive TrustRun (profile : Option Bytes → Prop) (answers : Bytes → FetchedKey → Prop) :
    List TrustEvent → Option Bytes → Prop
  | start {file : Option Bytes} (at_ : profile file) : TrustRun profile answers [] file
  | send {log : List TrustEvent} {file : Option Bytes} (run : TrustRun profile answers log file)
      (s : SendCall) (recipient : Recipient s.recipient)
      (known : s.calls.known = getKnownHost file s.recipient)
      (answer : answers s.recipient s.calls.lookup) :
      TrustRun profile answers
        (log ++ [(s.key kdf keyAead printG kem aead).elim .kept (.posted s.recipient)]) (s.hosts file)
  | update {log : List TrustEvent} {file : Option Bytes} (run : TrustRun profile answers log file)
      (user : Bytes) (recipient : Recipient user) (fetched : FetchedKey)
      (answer : answers user fetched) :
      TrustRun profile answers (log ++ [.updated user]) (hostsAfterUpdate file user fetched)

/-- In a run, no mail is sealed to a key of another fingerprint than one before to the same recipient,
without an update of it between them. -/
def TrustOnFirstUse (log : List TrustEvent) : Prop :=
  ∀ r k k' before mid after, log = before ++ .posted r k :: (mid ++ .posted r k' :: after) →
    .updated r ∉ mid → Lib.sha256 k' = Lib.sha256 k

/-- An entry whose key can be decoded, and that fits when it is written again. -/
structure KeptEntry (e : Bytes × Bytes × Bytes) : Prop where
  decodes : ∃ key, decodedKey e.2.2 = some (some key)
  fits : EntryFits e

/-- `known_hosts` is made of whole lines, and its entries are kept. -/
structure Profile (file : Option Bytes) : Prop where
  whole : Whole (file.getD [])
  kept : ∀ e ∈ hostEntries (file.getD []), KeptEntry e

/-- The name fits its field. The key, without the blanks around it, ends on the first 8191 bytes of the
line, and is decoded to the same. -/
def ReadsBack (user recipPkB64 recipPk : Bytes) : Prop :=
  user.length ≤ 255 ∧ ∃ before pk after, recipPkB64 = before ++ pk ++ after ∧
    (∀ c ∈ before, c = 32 ∨ c = 9) ∧ Token pk ∧ (∀ c ∈ after, isspace c = true) ∧
    user.length + 64 + before.length + pk.length + 2 ≤ 8191 ∧ decodedKey pk = some (some recipPk)

/-- A key that can be decoded is read back. -/
def KeysReadBack (user : Bytes) (fetched : FetchedKey) : Prop :=
  ∀ recipPkB64 recipPk, fetched = .ok recipPkB64 → decodedKey recipPkB64 = some (some recipPk) →
    ReadsBack user recipPkB64 recipPk

/-- The key of that fingerprint is known. -/
def Pinned (file : Option Bytes) (user fp : Bytes) : Prop :=
  ∃ pk key, getKnownHost file user = some pk ∧ decodedKey pk = some (some key) ∧ Lib.sha256 key = fp

/-! ## One step -/

/-- The 64 digits of a fingerprint are one word. -/
theorem fingerprint_token (key : Bytes) : Token (Go.hexEncode (Lib.sha256 key)) := by
  have digit : ∀ c : UInt8, (isspace (Go.hexDigit (c >>> 4)) = false ∧ Go.hexDigit (c >>> 4) ≠ 0) ∧
      isspace (Go.hexDigit (c &&& 15)) = false ∧ Go.hexDigit (c &&& 15) ≠ 0 := by
    intro c
    have table : ∀ n : Fin 256, (isspace (Go.hexDigit (UInt8.ofNat n >>> 4)) = false ∧
        Go.hexDigit (UInt8.ofNat n >>> 4) ≠ 0) ∧
        isspace (Go.hexDigit (UInt8.ofNat n &&& 15)) = false ∧
        Go.hexDigit (UInt8.ofNat n &&& 15) ≠ 0 := by
      decide +kernel
    simpa using table ⟨c.toNat, c.toNat_lt⟩
  constructor
  · intro none
    have length := congrArg List.length none
    rw [Go.length_hexEncode, Lib.length_sha256] at length
    cases length
  · intro c mem
    obtain ⟨b, -, here⟩ := List.mem_flatMap.mp mem
    rcases List.mem_cons.mp here with rfl | here
    · exact (digit b).1
    · obtain rfl := List.mem_singleton.mp here
      exact (digit b).2

theorem decodedKey_encodeBlock {key : Bytes} (small : key.length ≤ maxLength) :
    decodedKey (encodeBlock key) = some (some key) := by
  unfold decodedKey
  rw [base64Decode_encodeBlock small, Option.map_some]
  dsimp only
  rw [if_neg (by omega), Int.toNat_natCast, List.take_left]

/-- No character of base64 is white space. -/
theorem solid_of_encoded {c : UInt8} (h : (b64Value c).isSome = true ∨ c = 61) :
    isspace c = false ∧ c ≠ 0 := by
  have table : ∀ n : Fin 256, (b64Value (UInt8.ofNat n)).isSome = true ∨ UInt8.ofNat n = 61 →
      isspace (UInt8.ofNat n) = false ∧ UInt8.ofNat n ≠ 0 := by
    decide +kernel
  have here := table ⟨c.toNat, c.toNat_lt⟩
  rw [UInt8.ofNat_toNat] at here
  exact here h

/-- A KEM key that is encoded is read back, with a name that fits. -/
theorem readsBack_encodeBlock {user key : Bytes} (short : user.length ≤ 255)
    (length : key.length = lengthPublicKey) : ReadsBack user (encodeBlock key) key := by
  have small : key.length = 1184 := length
  have text := length_encodeBlock key
  rw [small] at text
  have filled : encodeBlock key ≠ [] := by
    intro none
    rw [none] at text
    cases text
  refine ⟨short, [], encodeBlock key, [], by simp, by simp, ⟨filled, ?_⟩, by simp, by
    rw [text]
    simpa using by omega, ?_⟩
  · intro c mem
    exact solid_of_encoded (encoded_of_mem mem)
  · exact decodedKey_encodeBlock (by
      rw [small]
      decide)

theorem length_fingerprint (key : Bytes) : (Go.hexEncode (Lib.sha256 key)).length = 64 := by
  rw [Go.length_hexEncode, Lib.length_sha256]

/-- A key that is read back makes one entry. -/
theorem ReadsBack.entry {user recipPkB64 recipPk : Bytes} (recipient : Recipient user)
    (h : ReadsBack user recipPkB64 recipPk) :
    ∃ pk, hostEntries (hostLine user (Go.hexEncode (Lib.sha256 recipPk)) recipPkB64) =
        [(user, Go.hexEncode (Lib.sha256 recipPk), pk)] ∧
      decodedKey pk = some (some recipPk) ∧
      EntryFits (user, Go.hexEncode (Lib.sha256 recipPk), pk) := by
  obtain ⟨short, before, pk, after, rfl, front, token, back, fits, decoded⟩ := h
  have digits := length_fingerprint recipPk
  refine ⟨pk, hostEntries_hostLine (token_of_recipient recipient) (fingerprint_token recipPk) token
    short (by omega) front back (by omega), decoded, ?_⟩
  unfold EntryFits
  dsimp only
  omega

/-- The key that is agreed to is the one that was fetched, and has the fingerprint of the known one. -/
theorem agreedKey_eq_some {known : Option (Option Bytes)} {recipPk key : Bytes}
    (agreed : agreedKey known recipPk = some key) :
    key = recipPk ∧ ∀ other, known = some (some other) → Lib.sha256 other = Lib.sha256 key := by
  rcases known with _ | _ | k
  · cases agreed
    exact ⟨rfl, nofun⟩
  · cases agreed
  · by_cases same : Lib.sha256 k = Lib.sha256 recipPk
    · rw [agreedKey, if_pos same] at agreed
      cases agreed
      refine ⟨rfl, ?_⟩
      rintro _ ⟨⟩
      exact same
    · rw [agreedKey, if_neg same] at agreed
      cases agreed

theorem checkedKey_eq_some {calls : SendCalls} {replyRef : Option Bytes} {key : Bytes}
    (checked : checkedKey calls replyRef = some key) :
    ¬ replyRef.any (!isRef ·) = true ∧ ∃ recipPkB64, calls.lookup = .ok recipPkB64 ∧
      decodedKey recipPkB64 = some (some key) ∧
      ∀ other, calls.known.bind decodedKey = some (some other) → Lib.sha256 other = Lib.sha256 key := by
  unfold checkedKey at checked
  by_cases ref : replyRef.any (!isRef ·)
  · rw [if_pos ref] at checked
    cases checked
  refine ⟨ref, ?_⟩
  rw [if_neg ref] at checked
  cases fetched : calls.lookup with
  | error err =>
    rw [fetched] at checked
    cases checked
  | ok recipPkB64 =>
    rw [fetched] at checked
    dsimp only at checked
    refine ⟨recipPkB64, rfl, ?_⟩
    generalize decodedKey recipPkB64 = decoded at checked
    rcases decoded with _ | _ | recipPk
    · cases checked
    · cases checked
    · obtain ⟨rfl, same⟩ := agreedKey_eq_some checked
      exact ⟨rfl, same⟩

theorem hostsAfterFetch_cases (file known : Option Bytes) (user recipPkB64 : Bytes)
    (decoded : Option (Option Bytes)) :
    (∃ recipPk, decoded = some (some recipPk) ∧ known = none ∧
      hostsAfterFetch file known user recipPkB64 decoded =
        some (addKnownHost file user (Go.hexEncode (Lib.sha256 recipPk)) recipPkB64)) ∨
    hostsAfterFetch file known user recipPkB64 decoded = file ∧
      ∀ recipPk, decoded = some (some recipPk) → known ≠ none := by
  rcases decoded with _ | _ | recipPk
  · exact .inr ⟨rfl, fun _ no => nomatch no⟩
  · exact .inr ⟨rfl, fun _ no => nomatch no⟩
  · cases known with
    | none => exact .inl ⟨recipPk, rfl, rfl, rfl⟩
    | some pk => exact .inr ⟨rfl, fun _ _ no => nomatch no⟩

/-- A send adds an entry for a key that it can decode, or leaves the file. -/
theorem SendCall.hosts_cases (s : SendCall) (file : Option Bytes) :
    (∃ recipPkB64 recipPk, s.calls.lookup = .ok recipPkB64 ∧
      decodedKey recipPkB64 = some (some recipPk) ∧ getKnownHost file s.recipient = none ∧
      s.hosts file = some (addKnownHost file s.recipient (Go.hexEncode (Lib.sha256 recipPk))
        recipPkB64)) ∨
    s.hosts file = file ∧ ∀ recipPkB64 recipPk, ¬ s.replyRef.any (!isRef ·) = true →
      s.calls.lookup = .ok recipPkB64 → decodedKey recipPkB64 = some (some recipPk) →
      getKnownHost file s.recipient ≠ none := by
  unfold SendCall.hosts
  by_cases ref : s.replyRef.any (!isRef ·)
  · rw [if_pos ref]
    exact .inr ⟨rfl, fun _ _ no => absurd ref no⟩
  rw [if_neg ref]
  cases fetched : s.calls.lookup with
  | error err => exact .inr ⟨rfl, fun _ _ _ no => nomatch no⟩
  | ok recipPkB64 =>
    rcases hostsAfterFetch_cases file (getKnownHost file s.recipient) s.recipient recipPkB64
      (decodedKey recipPkB64) with ⟨recipPk, decoded, absent, added⟩ | ⟨kept, there⟩
    · exact .inl ⟨recipPkB64, recipPk, rfl, decoded, absent, added⟩
    · refine .inr ⟨kept, ?_⟩
      intro b64 recipPk _ same decoded
      cases same
      exact there recipPk decoded

/-- What is added stands behind the entries there are. -/
theorem Profile.added {file : Option Bytes} {user recipPkB64 recipPk : Bytes} (profile : Profile file)
    (recipient : Recipient user) (h : ReadsBack user recipPkB64 recipPk) :
    let file' := some (addKnownHost file user (Go.hexEncode (Lib.sha256 recipPk)) recipPkB64)
    Profile file' ∧ (∀ r fp, Pinned file r fp → Pinned file' r fp) ∧
      (getKnownHost file user = none → Pinned file' user (Lib.sha256 recipPk)) := by
  intro file'
  obtain ⟨pk, line, decoded, fits⟩ := h.entry recipient
  have entries : hostEntries (file'.getD []) = hostEntries (file.getD []) ++
      [(user, Go.hexEncode (Lib.sha256 recipPk), pk)] := by
    rw [← line]
    exact hostEntries_append profile.whole _
  refine ⟨⟨profile.whole.append (whole_hostLine _ _ _), ?_⟩, ?_, ?_⟩
  · intro e mem
    rw [entries] at mem
    rcases List.mem_append.mp mem with mem | mem
    · exact profile.kept e mem
    · rw [List.mem_singleton.mp mem]
      exact ⟨⟨recipPk, decoded⟩, fits⟩
  · rintro r fp ⟨known, key, found, rest⟩
    rw [getKnownHost_eq] at found
    refine ⟨known, key, ?_, rest⟩
    rw [getKnownHost_eq, entries, firstKey_append, found]
    rfl
  · intro absent
    rw [getKnownHost_eq] at absent
    refine ⟨pk, recipPk, ?_, decoded, rfl⟩
    rw [getKnownHost_eq, entries, firstKey_append, absent]
    simp [firstKey]

/-- An update keeps the first entry of every other user. -/
theorem Profile.updated {file : Option Bytes} {user recipPkB64 recipPk : Bytes}
    (profile : Profile file) (recipient : Recipient user) (h : ReadsBack user recipPkB64 recipPk) :
    let file' := some (updateKnownHost file user (Go.hexEncode (Lib.sha256 recipPk)) recipPkB64)
    Profile file' ∧ ∀ r fp, r ≠ user → Pinned file r fp → Pinned file' r fp := by
  intro file'
  obtain ⟨pk, line, decoded, fits⟩ := h.entry recipient
  have entries : hostEntries (file'.getD []) =
      (hostEntries (file.getD [])).filter (fun e => e.1 ≠ user) ++
        [(user, Go.hexEncode (Lib.sha256 recipPk), pk)] := by
    rw [← line]
    exact hostEntries_updateKnownHost _ _ _ fun e mem => (profile.kept e mem).fits
  have whole : Whole (file'.getD []) := by
    have text := updateKnownHost_eq file user (Go.hexEncode (Lib.sha256 recipPk)) recipPkB64
    rw [show file'.getD [] = _ from text]
    exact (whole_entryLines _).append (whole_hostLine _ _ _)
  refine ⟨⟨whole, ?_⟩, ?_⟩
  · intro e mem
    rw [entries] at mem
    rcases List.mem_append.mp mem with mem | mem
    · exact profile.kept e (List.mem_of_mem_filter mem)
    · rw [List.mem_singleton.mp mem]
      exact ⟨⟨recipPk, decoded⟩, fits⟩
  · rintro r fp other ⟨known, key, found, rest⟩
    rw [getKnownHost_eq] at found
    refine ⟨known, key, ?_, rest⟩
    rw [getKnownHost_eq, entries, firstKey_append, firstKey_filter _ other, found]
    rfl

/-- What is known can be decoded. -/
theorem Profile.decodes {file : Option Bytes} {user pk : Bytes} (profile : Profile file)
    (found : getKnownHost file user = some pk) : ∃ key, decodedKey pk = some (some key) := by
  rw [getKnownHost_eq] at found
  obtain ⟨e, first, rfl⟩ := Option.map_eq_some_iff.mp found
  exact (profile.kept e (List.mem_of_find?_eq_some first)).decodes

theorem Pinned.unique {file : Option Bytes} {user fp fp' : Bytes} (h : Pinned file user fp)
    (h' : Pinned file user fp') : fp = fp' := by
  obtain ⟨pk, key, found, decoded, rfl⟩ := h
  obtain ⟨pk', key', found', decoded', rfl⟩ := h'
  have samePk : pk = pk' := Option.some.inj (found.symm.trans found')
  rw [samePk] at decoded
  exact congrArg Lib.sha256 (Option.some.inj (Option.some.inj (decoded.symm.trans decoded')))

theorem SendCall.checked {s : SendCall} {key : Bytes}
    (posted : s.key kdf keyAead printG kem aead = some key) :
    checkedKey s.calls s.replyRef = some key := by
  obtain ⟨⟨recipPk, m⟩, sealedTo_, rfl⟩ := Option.map_eq_some_iff.mp posted
  obtain ⟨recipPk', checked, rest⟩ := Option.bind_eq_some_iff.mp sealedTo_
  obtain ⟨⟨_, _, m'⟩, -, done⟩ := Option.bind_eq_some_iff.mp rest
  cases done
  exact checked

/-- A send keeps what is pinned, and pins the key of the mail that is posted. -/
theorem SendCall.step {s : SendCall} {file : Option Bytes} (profile : Profile file)
    (recipient : Recipient s.recipient) (known : s.calls.known = getKnownHost file s.recipient)
    (answer : KeysReadBack s.recipient s.calls.lookup) :
    Profile (s.hosts file) ∧ (∀ r fp, Pinned file r fp → Pinned (s.hosts file) r fp) ∧
      ∀ key, s.key kdf keyAead printG kem aead = some key →
        Pinned (s.hosts file) s.recipient (Lib.sha256 key) := by
  rcases s.hosts_cases file with ⟨recipPkB64, recipPk, fetched, decoded, absent, added⟩ | ⟨kept, there⟩
  · obtain ⟨profile', keeps, pins⟩ := profile.added recipient (answer _ _ fetched decoded)
    rw [added]
    refine ⟨profile', keeps, fun key posted => ?_⟩
    obtain ⟨-, b64, fetched', decoded', -⟩ := checkedKey_eq_some (s.checked _ _ _ _ _ posted)
    cases fetched.symm.trans fetched'
    have same : recipPk = key := Option.some.inj (Option.some.inj (decoded.symm.trans decoded'))
    rw [← same]
    exact pins absent
  · rw [kept]
    refine ⟨profile, fun _ _ pinned => pinned, fun key posted => ?_⟩
    obtain ⟨ref, b64, fetched, decoded, same⟩ := checkedKey_eq_some (s.checked _ _ _ _ _ posted)
    obtain ⟨pk, found⟩ := Option.ne_none_iff_exists'.mp (there b64 key ref fetched decoded)
    obtain ⟨other, decodes⟩ := profile.decodes found
    refine ⟨pk, other, found, decodes, same other ?_⟩
    rw [known, found, Option.bind_some, decodes]

theorem hostsAfterRefresh_cases (file : Option Bytes) (user recipPkB64 : Bytes)
    (decoded : Option (Option Bytes)) :
    (∃ recipPk, decoded = some (some recipPk) ∧ hostsAfterRefresh file user recipPkB64 decoded =
      some (updateKnownHost file user (Go.hexEncode (Lib.sha256 recipPk)) recipPkB64)) ∨
    hostsAfterRefresh file user recipPkB64 decoded = file := by
  rcases decoded with _ | _ | recipPk
  · exact .inr rfl
  · exact .inr rfl
  · exact .inl ⟨recipPk, rfl, rfl⟩

/-- An update keeps what is pinned of other users. -/
theorem hostsAfterUpdate_step {file : Option Bytes} {user : Bytes} {fetched : FetchedKey}
    (profile : Profile file) (recipient : Recipient user) (answer : KeysReadBack user fetched) :
    Profile (hostsAfterUpdate file user fetched) ∧
      ∀ r fp, r ≠ user → Pinned file r fp → Pinned (hostsAfterUpdate file user fetched) r fp := by
  cases fetched with
  | error err => exact ⟨profile, fun _ _ _ pinned => pinned⟩
  | ok recipPkB64 =>
    unfold hostsAfterUpdate
    dsimp only
    rcases hostsAfterRefresh_cases file user recipPkB64 (decodedKey recipPkB64) with
      ⟨recipPk, decoded, updated⟩ | kept
    · rw [updated]
      exact profile.updated recipient (answer recipPkB64 recipPk rfl decoded)
    · rw [kept]
      exact ⟨profile, fun _ _ _ pinned => pinned⟩

/-! ## Every run -/

/-- Every key that a mail was sealed to is pinned, unless its recipient was updated since. -/
def PinnedSince (log : List TrustEvent) (file : Option Bytes) : Prop :=
  ∀ r k before mid, log = before ++ .posted r k :: mid → .updated r ∉ mid →
    Pinned file r (Lib.sha256 k)

/-- One more event is behind what was posted before, or is the last that was posted. -/
theorem PinnedSince.append {log : List TrustEvent} {file file' : Option Bytes} {event : TrustEvent}
    (pinned : PinnedSince log file)
    (keeps : ∀ r fp, event ≠ .updated r → Pinned file r fp → Pinned file' r fp)
    (pins : ∀ r k, event = .posted r k → Pinned file' r (Lib.sha256 k)) :
    PinnedSince (log ++ [event]) file' := by
  intro r k before mid parts unchanged
  rcases List.eq_nil_or_concat mid with rfl | ⟨mid, last, rfl⟩
  · obtain ⟨-, same⟩ := List.append_inj' parts rfl
    exact pins r k (List.singleton_inj.mp same)
  · rw [List.concat_eq_append, ← List.cons_append, ← List.append_assoc] at parts
    obtain ⟨rfl, same⟩ := List.append_inj' parts rfl
    obtain rfl := List.singleton_inj.mp same
    simp only [List.concat_eq_append, List.mem_append, List.mem_singleton, not_or] at unchanged
    exact keeps r _ (Ne.symm unchanged.2) (pinned r k before mid rfl unchanged.1)

theorem TrustRun.pinned {log : List TrustEvent} {file : Option Bytes}
    (run : TrustRun kdf keyAead printG kem aead Profile KeysReadBack log file) :
    Profile file ∧ PinnedSince log file := by
  induction run with
  | start profile =>
    refine ⟨profile, ?_⟩
    intro r k before mid parts
    simp at parts
  | send run s recipient known answer ih =>
    obtain ⟨profile, keeps, pins⟩ := SendCall.step kdf keyAead printG kem aead ih.1 recipient known answer
    refine ⟨profile, ih.2.append (fun r fp _ pinned => keeps r fp pinned) ?_⟩
    intro r k event
    cases posted : s.key kdf keyAead printG kem aead with
    | none =>
      rw [posted] at event
      cases event
    | some key =>
      rw [posted] at event
      cases event
      exact pins _ posted
  | update run user recipient fetched answer ih =>
    obtain ⟨profile, keeps⟩ := hostsAfterUpdate_step ih.1 recipient answer
    refine ⟨profile, ih.2.append (fun r fp other pinned => keeps r fp ?_ pinned) ?_⟩
    · rintro rfl
      exact other rfl
    · rintro r k ⟨⟩

/-- Two keys that are pinned for one recipient have one fingerprint. -/
theorem TrustOnFirstUse.append {log : List TrustEvent} {file : Option Bytes} {event : TrustEvent}
    (trust : TrustOnFirstUse log) (pinned : PinnedSince (log ++ [event]) file) :
    TrustOnFirstUse (log ++ [event]) := by
  intro r k k' before mid after parts unchanged
  rcases List.eq_nil_or_concat after with rfl | ⟨after, last, rfl⟩
  · have first := pinned r k before (mid ++ [.posted r k']) parts (by
      simp only [List.mem_append, List.mem_singleton, reduceCtorEq, or_false]
      exact unchanged)
    have second := pinned r k' (before ++ .posted r k :: mid) [] (by simpa using parts)
      List.not_mem_nil
    exact second.unique first
  · have parts' : log ++ [event] = (before ++ .posted r k :: (mid ++ .posted r k' :: after)) ++ [last] :=
      by simpa using parts
    exact trust r k k' before mid after (List.append_inj' parts' rfl).1 unchanged

namespace Sample

/-- Alice's keys. -/
def aliceKeys : Files :=
  Function.update (Function.update (fun _ => none) (alice.path (utf8 "kem_pk.bin")) (some (keyOf 65)))
    (alice.path (utf8 "sig_sk.bin")) (some oldKey)

/-- She sends a mail, and the server answers with a key. -/
def mailTo (recipient : Bytes) (file : Option Bytes) (key : Bytes) : SendCall where
  ctx := alice
  files := aliceKeys
  instanceUrl := utf8 "https://mail.example.org"
  calls :=
    { lookup := .ok (encodeBlock key)
      known := getKnownHost file recipient
      draws := some draws
      now := 1749513600
      pow := none
      post := fun _ => .answer 201 none }
  recipient := recipient
  replyRef := none
  subject := subject
  body := []

/-- What is signed of it can be printed. -/
def Printed (recipient key : Bytes) : Bool :=
  ((sealMail xorKem tagAead draws key (keyOf 65) none subject []).bind fun m =>
    CJson.printUnformatted Go.formatInt (signedMail alice (utf8 "https://mail.example.org")
      (mailTo recipient none key).calls recipient [] m key)).isSome

theorem bobby_printed : Printed (utf8 "bobby@example.org") (keyOf 65) := by decide +kernel

theorem longName_printed : Printed longName (keyOf 65) ∧ Printed longName (keyOf 66) := by
  decide +kernel

theorem mailTo_key {recipient key : Bytes} {file : Option Bytes} (printed : Printed recipient key)
    (length : key.length = lengthPublicKey)
    (known : ∀ pk, getKnownHost file recipient = some pk →
      ∃ other, decodedKey pk = some (some other) ∧ Lib.sha256 other = Lib.sha256 key) :
    (mailTo recipient file key).key plainKdf (fun _ => tagAead) Go.formatInt xorKem tagAead =
      some key := by
  have small : key.length ≤ maxLength := by
    rw [length]
    decide
  have agreed : agreedKey ((getKnownHost file recipient).bind decodedKey) key = some key := by
    cases found : getKnownHost file recipient with
    | none => rfl
    | some pk =>
      obtain ⟨other, decoded, same⟩ := known pk found
      rw [Option.bind_some, decoded, agreedKey, if_pos same]
  have checked : checkedKey (mailTo recipient file key).calls none = some key := by
    unfold checkedKey mailTo
    dsimp only
    rw [decodedKey_encodeBlock small]
    exact agreed
  obtain ⟨json, printed⟩ := Option.isSome_iff_exists.mp printed
  obtain ⟨m, made, text⟩ := Option.bind_eq_some_iff.mp printed
  have here : aliceKeys (alice.path (utf8 "sig_sk.bin")) = some oldKey := Function.update_self ..
  have loaded : Calls.loadSsk plainKdf (fun _ => tagAead) alice aliceKeys = .ok oldKey := by
    unfold Calls.loadSsk loadSkDecrypted
    rw [here]
    exact openSk_raw _ _ (by decide) _
  have own : aliceKeys (alice.path (utf8 "kem_pk.bin")) = some (keyOf 65) := by
    unfold aliceKeys
    rw [Function.update_of_ne (path_ne (by decide) (by decide)), Function.update_self]
  have signed : toSign (aliceKeys (alice.path (utf8 "kem_pk.bin")))
      (Calls.loadSsk plainKdf (fun _ => tagAead) alice aliceKeys) (some draws)
      (fun myKpk draws => sealMail xorKem tagAead draws key myKpk none subject [])
      (fun m => CJson.printUnformatted Go.formatInt (signedMail alice (utf8 "https://mail.example.org")
        (mailTo recipient file key).calls recipient [] m key)) = some (json, oldKey, m) := by
    rw [own, loaded]
    unfold toSign
    simp only [Except.toOption, Option.bind_eq_bind, Option.bind_some, made]
    rw [show CJson.printUnformatted Go.formatInt (signedMail alice (utf8 "https://mail.example.org")
      (mailTo recipient file key).calls recipient [] m key) = some json from text, Option.bind_some]
  unfold SendCall.key sealedTo
  rw [show checkedKey (mailTo recipient file key).calls (mailTo recipient file key).replyRef = some key
    from checked, Option.bind_eq_bind, Option.bind_some]
  exact congrArg (Option.map Prod.fst) (congrArg (Option.bind · _) signed)

/-- A run goes on with it. -/
theorem mailTo_run {profile : Option Bytes → Prop} {answers : Bytes → FetchedKey → Prop}
    {log : List TrustEvent} {file : Option Bytes} {recipient key : Bytes}
    (run : TrustRun plainKdf (fun _ => tagAead) Go.formatInt xorKem tagAead profile answers log file)
    (accepted : Recipient recipient) (answer : answers recipient (.ok (encodeBlock key)))
    (posted : (mailTo recipient file key).key plainKdf (fun _ => tagAead) Go.formatInt xorKem tagAead =
      some key) :
    TrustRun plainKdf (fun _ => tagAead) Go.formatInt xorKem tagAead profile answers
      (log ++ [.posted recipient key]) ((mailTo recipient file key).hosts file) := by
  have next := run.send (mailTo recipient file key) accepted rfl answer
  rw [posted] at next
  exact next

theorem length_keyOf (c : UInt8) : (keyOf c).length = lengthPublicKey := List.length_replicate

theorem bobby_readsBack :
    KeysReadBack (utf8 "bobby@example.org") (.ok (encodeBlock (keyOf 65))) := by
  intro b64 key same decoded
  cases same
  have small : (keyOf 65).length ≤ maxLength := by
    rw [length_keyOf]
    decide
  have here : keyOf 65 = key :=
    Option.some.inj (Option.some.inj ((decodedKey_encodeBlock small).symm.trans decoded))
  rw [← here]
  exact readsBack_encodeBlock (by decide) (length_keyOf 65)

end Sample

end Shyake.Client
