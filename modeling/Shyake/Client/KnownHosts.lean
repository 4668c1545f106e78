import Shyake.Client.CJson
import Shyake.Client.Cli.Text
import Shyake.Go.Protocol.Identity

/-!
# Known hosts (`known_hosts.c`)

The key that was seen of each recipient is a line of a text file. A line is read back with a width
for each of its three fields, and a recipient may have a longer name than the first.
-/

namespace Shyake.Client

open Lines (lines fgets)
open Go.Protocol (validUsername validDomain)

/-- A `%s` of `sscanf`: the field, and the rest. -/
def scanString (width : Nat) (s : Bytes) : Option (Bytes × Bytes) :=
  let s := s.dropWhile isspace
  let field := (s.takeWhile fun c => !isspace c).take width
  if field = [] then none else some (field, s.drop field.length)

/-- `sscanf(line, "%255s %255s %8191s", ...)` with three fields found. -/
def scanHost (line : Bytes) : Option (Bytes × Bytes × Bytes) := do
  let (user, s) ← scanString 255 line
  let (fp, s) ← scanString 255 s
  let (pk, _) ← scanString 8191 s
  some (user, fp, pk)

/-- "%s %s %s\n". -/
def hostLine (user fp pk : Bytes) : Bytes := user ++ 32 :: fp ++ 32 :: pk ++ [10]

/-- `get_known_host`. -/
def getKnownHost (file : Option Bytes) (username : Bytes) : Option Bytes :=
  (fgets 8192 (file.getD [])).findSome? fun line =>
    match scanHost (cstr line) with
    | some (user, _, pk) => if user = username then some pk else none
    | none => none

/-- `add_known_host`: the file it leaves. -/
def addKnownHost (file : Option Bytes) (username fp pk : Bytes) : Bytes :=
  file.getD [] ++ hostLine username fp pk

/-- `update_known_host`: the file it leaves. -/
def updateKnownHost (file : Option Bytes) (username fp pk : Bytes) : Bytes :=
  ((fgets 8192 (file.getD [])).flatMap fun line =>
    match scanHost (cstr line) with
    | some (user, fpScan, pkScan) => if user ≠ username then hostLine user fpScan pkScan else []
    | none => []) ++ hostLine username fp pk

/-! ## Fields -/

/-- What a `%s` reads: something, without white space, in a C string. -/
def Token (s : Bytes) : Prop := s ≠ [] ∧ ∀ c ∈ s, isspace c = false ∧ c ≠ 0

theorem scanString_eq {t : Bytes} (h : Token t) {width : Nat} (fits : t.length ≤ width)
    {sep : UInt8} (space : isspace sep = true) (s : Bytes) :
    scanString width (t ++ sep :: s) = some (t, sep :: s) := by
  have start : (t ++ sep :: s).dropWhile isspace = t ++ sep :: s := by
    obtain ⟨filled, solid⟩ := h
    cases t with
    | nil => exact absurd rfl filled
    | cons c t => exact List.dropWhile_cons_of_neg (by simp [(solid c List.mem_cons_self).1])
  have field : (t ++ sep :: s).takeWhile (fun c => !isspace c) = t := by
    rw [List.takeWhile_append_of_pos fun c mem => by simp [(h.2 c mem).1]]
    simp [space]
  unfold scanString
  dsimp only
  rw [start, field, List.take_of_length_le fits, if_neg h.1, List.drop_left]

theorem scanString_space {width : Nat} {sep : UInt8} (space : isspace sep = true) (s : Bytes) :
    scanString width (sep :: s) = scanString width s := by
  unfold scanString
  rw [List.dropWhile_cons_of_pos space]

/-- A line with fields that fit their widths is read as it was written. -/
theorem scanHost_hostLine {user fp pk : Bytes} (hu : Token user) (hf : Token fp) (hp : Token pk)
    (lu : user.length ≤ 255) (lf : fp.length ≤ 255) (lp : pk.length ≤ 8191) :
    scanHost (hostLine user fp pk) = some (user, fp, pk) := by
  have space : isspace 32 = true := rfl
  have newline : isspace 10 = true := rfl
  have text : hostLine user fp pk = user ++ 32 :: (fp ++ 32 :: (pk ++ 10 :: [])) := by
    simp [hostLine]
  unfold scanHost
  rw [text, scanString_eq hu lu space, Option.bind_eq_bind, Option.bind_some]
  dsimp only
  rw [scanString_space space, scanString_eq hf lf space, Option.bind_some]
  dsimp only
  rw [scanString_space space, scanString_eq hp lp newline, Option.bind_some]

/-- What is read first is no longer than its width. -/
theorem scanHost_user {line user fp pk : Bytes} (h : scanHost line = some (user, fp, pk)) :
    user.length ≤ 255 := by
  unfold scanHost at h
  obtain ⟨⟨first, s⟩, scan, h⟩ := Option.bind_eq_some_iff.mp h
  obtain ⟨⟨second, t⟩, -, h⟩ := Option.bind_eq_some_iff.mp h
  obtain ⟨⟨third, r⟩, -, h⟩ := Option.bind_eq_some_iff.mp h
  cases h
  unfold scanString at scan
  dsimp only at scan
  split at scan
  · cases scan
  · cases scan
    exact List.length_take_le _ _

/-- A name of more than 255 bytes is never found. -/
theorem getKnownHost_long (file : Option Bytes) {username : Bytes} (long : username.length > 255) :
    getKnownHost file username = none := by
  unfold getKnownHost
  rw [List.findSome?_eq_none_iff]
  intro line _
  cases scan : scanHost (cstr line) with
  | none => rfl
  | some fields =>
    obtain ⟨user, fp, pk⟩ := fields
    have short := scanHost_user scan
    dsimp only
    rw [if_neg]
    rintro rfl
    omega

/-! ## The file as a list -/

/-- An entry that the file gives back as it is. -/
structure Host where
  user : Bytes
  fp : Bytes
  pk : Bytes
  userToken : Token user
  fpToken : Token fp
  pkToken : Token pk
  userFits : user.length ≤ 255
  fpFits : fp.length ≤ 255
  pkFits : pk.length ≤ 1580

def Host.text (e : Host) : Bytes := hostLine e.user e.fp e.pk

theorem notMem_of_token {s : Bytes} (h : Token s) {c : UInt8} (bad : isspace c = true ∨ c = 0) :
    c ∉ s := by
  intro mem
  rcases bad with space | zero
  · rw [(h.2 c mem).1] at space
    cases space
  · exact (h.2 c mem).2 zero

theorem Host.line (e : Host) : Lines.Line e.text := by
  refine ⟨e.user ++ 32 :: e.fp ++ 32 :: e.pk, ?_, rfl⟩
  have newline : isspace 10 = true ∨ (10 : UInt8) = 0 := .inl rfl
  simp only [List.mem_append, List.mem_cons, not_or]
  exact ⟨⟨notMem_of_token e.userToken newline, by decide, notMem_of_token e.fpToken newline⟩,
    by decide, notMem_of_token e.pkToken newline⟩

theorem Host.nulFree (e : Host) : NulFree e.text := by
  have zero : isspace 0 = true ∨ (0 : UInt8) = 0 := .inr rfl
  unfold NulFree Host.text hostLine
  simp only [List.mem_append, List.mem_cons, not_or]
  exact ⟨⟨⟨notMem_of_token e.userToken zero, by decide, notMem_of_token e.fpToken zero⟩,
    by decide, notMem_of_token e.pkToken zero⟩, by decide, List.not_mem_nil⟩

theorem Host.short (e : Host) : e.text.length < 8192 := by
  have := e.userFits
  have := e.fpFits
  have := e.pkFits
  simp only [Host.text, hostLine, List.length_append, List.length_cons, List.length_nil]
  omega

theorem Host.scan (e : Host) : scanHost (cstr e.text) = some (e.user, e.fp, e.pk) := by
  have := e.pkFits
  rw [cstr_of_nulFree e.nulFree]
  exact scanHost_hostLine e.userToken e.fpToken e.pkToken e.userFits e.fpFits (by omega)

/-- The file of a list of entries. -/
def hostsText (es : List Host) : Bytes := (es.map Host.text).flatten

theorem fgets_hostsText (es : List Host) : fgets 8192 (hostsText es) = es.map Host.text := by
  have each : ∀ l ∈ es.map Host.text, Lines.Line l := by
    intro l mem
    obtain ⟨e, -, rfl⟩ := List.mem_map.mp mem
    exact e.line
  have read := Lines.lines_flatten each []
  rw [List.append_nil, Lines.lines_nil, List.append_nil] at read
  unfold hostsText
  rw [Lines.fgets_eq_lines, read]
  rw [read]
  intro l mem
  obtain ⟨e, -, rfl⟩ := List.mem_map.mp mem
  exact e.short

/-- The first entry of a user. -/
def lookup (es : List Host) (user : Bytes) : Option Bytes :=
  (es.find? fun e => e.user = user).map Host.pk

theorem getKnownHost_hostsText {file : Option Bytes} {es : List Host}
    (h : file.getD [] = hostsText es) (username : Bytes) :
    getKnownHost file username = lookup es username := by
  unfold getKnownHost lookup
  rw [h, fgets_hostsText]
  clear h
  induction es with
  | nil => rfl
  | cons e es ih =>
    rw [List.map_cons, List.findSome?_cons, e.scan]
    dsimp only
    by_cases same : e.user = username
    · rw [if_pos same, List.find?_cons_of_pos (by simpa using same)]
      rfl
    · rw [if_neg same, List.find?_cons_of_neg (by simpa using same)]
      exact ih

theorem updateKnownHost_hostsText {file : Option Bytes} {es : List Host}
    (h : file.getD [] = hostsText es) (e : Host) :
    updateKnownHost file e.user e.fp e.pk =
      hostsText ((es.filter fun x => x.user ≠ e.user) ++ [e]) := by
  have kept : ((es.map Host.text).flatMap fun line =>
      match scanHost (cstr line) with
      | some (user, fpScan, pkScan) => if user ≠ e.user then hostLine user fpScan pkScan else []
      | none => []) = hostsText (es.filter fun x => x.user ≠ e.user) := by
    clear h
    induction es with
    | nil => rfl
    | cons x es ih =>
      rw [List.map_cons, List.flatMap_cons, x.scan, ih]
      dsimp only
      by_cases same : x.user = e.user
      · rw [if_neg (by simpa using same), List.filter_cons_of_neg (by simpa using same)]
        rfl
      · rw [if_pos same, List.filter_cons_of_pos (by simpa using same)]
        rfl
  unfold updateKnownHost
  rw [h, fgets_hostsText, kept]
  simp [hostsText, Host.text]

/-! ## The map -/

/-- A recipient in the servers' grammar. -/
def Recipient (u : Bytes) : Prop :=
  validUsername (Bytes.cut 64 u).1 = true ∧
    ∀ d, (Bytes.cut 64 u).2 = some d → validDomain (Go.toLower d) = true

/-- White space and NUL are in no name. -/
theorem token_of_recipient {u : Bytes} (h : Recipient u) : Token u := by
  have bad : ∀ c : UInt8, isspace c = true ∨ c = 0 → Go.Protocol.plain c = true ∧ c ≠ 64 ∧
      Go.Protocol.domainByte c = false ∧
      ¬(isLower c = true ∨ isUpper c = true ∨ isDigit c = true ∨ c = 95) := by
    intro c h
    simp only [isspace, Go.Protocol.domainByte, Go.Protocol.plain, isLower, isUpper, isDigit,
      Bool.or_eq_true, Bool.and_eq_true, Bool.or_eq_false_iff, Bool.and_eq_false_iff,
      decide_eq_true_eq, beq_iff_eq, beq_eq_false_iff_ne, Bool.not_eq_true', decide_eq_false_iff_not,
      UInt8.le_iff_toNat_le, UInt8.lt_iff_toNat_lt, ← UInt8.toNat_inj, ne_eq, UInt8.reduceToNat] at h ⊢
    omega
  have name : ∀ c ∈ (Bytes.cut 64 u).1, ¬(isspace c = true ∨ c = 0) := fun c mem h' =>
    (bad c h').2.2.2 (Go.Protocol.chars_of_validUsername h.1 c mem)
  have domain : ∀ d, (Bytes.cut 64 u).2 = some d → ∀ c ∈ d, ¬(isspace c = true ∨ c = 0) := by
    intro d hd c mem h'
    have := Go.Protocol.chars_of_validDomain (h.2 d hd) c (Go.Protocol.mem_toLower (bad c h').1 mem)
    rw [(bad c h').2.2.1] at this
    cases this
  have filled := Go.Protocol.ne_nil_of_validUsername h.1
  have solid : ∀ c ∈ u, ¬(isspace c = true ∨ c = 0) := by
    obtain ⟨-, ⟨-, whole⟩ | ⟨d, rest, whole⟩⟩ := Bytes.cut_spec 64 u
    · rw [whole]
      exact name
    · intro c mem
      rw [whole, List.mem_append, List.mem_cons] at mem
      rcases mem with mem | rfl | mem
      · exact name c mem
      · decide
      · exact domain d rest c mem
  refine ⟨?_, fun c mem => ?_⟩
  · rintro rfl
    exact filled rfl
  · have := solid c mem
    rw [not_or, Bool.not_eq_true] at this
    exact this

/-- A key that is written for a recipient. -/
structure HostWrite where
  user : Bytes
  fp : Bytes
  pk : Bytes
  recipient : Recipient user
  /-- 64 hexadecimal digits. -/
  hex : fp.length = 64 ∧ ∀ c ∈ fp, c ∈ Go.hexDigits
  key : Token pk ∧ pk.length ≤ 1580

/-- The writes of a run, in their order, and the file they leave: a key is added when none is found. -/
inductive HostRun : List HostWrite → Option Bytes → Prop
  | start : HostRun [] none
  | add {ws file} (w : HostWrite) : HostRun ws file → getKnownHost file w.user = none →
    HostRun (ws ++ [w]) (some (addKnownHost file w.user w.fp w.pk))
  | update {ws file} (w : HostWrite) : HostRun ws file →
    HostRun (ws ++ [w]) (some (updateKnownHost file w.user w.fp w.pk))

/-- The map: the key written last for each user. -/
def lastKey (ws : List HostWrite) : Bytes → Option Bytes :=
  ws.foldl (fun known w => Function.update known w.user (some w.pk)) fun _ => none

theorem lastKey_concat (ws : List HostWrite) (w : HostWrite) :
    lastKey (ws ++ [w]) = Function.update (lastKey ws) w.user (some w.pk) := by
  simp [lastKey]

theorem lastKey_isSome {ws : List HostWrite} {w : HostWrite} (h : w ∈ ws) :
    (lastKey ws w.user).isSome = true := by
  induction ws using List.reverseRecOn with
  | nil => cases h
  | append_singleton ws v ih =>
    rw [lastKey_concat]
    by_cases same : w.user = v.user
    · rw [same, Function.update_self]
      rfl
    · rw [Function.update_of_ne same]
      rcases List.mem_append.mp h with h | h
      · exact ih h
      · rw [List.mem_singleton.mp h] at same
        exact absurd rfl same

/-- A write for a name that fits makes an entry. -/
theorem HostWrite.host (w : HostWrite) (fits : w.user.length ≤ 255) :
    ∃ e : Host, e.user = w.user ∧ e.fp = w.fp ∧ e.pk = w.pk := by
  have solid : ∀ c ∈ Go.hexDigits, isspace c = false ∧ c ≠ 0 := by decide +kernel
  have digits : Token w.fp := by
    refine ⟨fun empty => ?_, fun c mem => solid c (w.hex.2 c mem)⟩
    have := w.hex.1
    rw [empty] at this
    cases this
  exact ⟨⟨w.user, w.fp, w.pk, token_of_recipient w.recipient, digits, w.key.1, fits,
    by rw [w.hex.1]; omega, w.key.2⟩, rfl, rfl, rfl⟩

theorem lookup_append (es : List Host) (e : Host) (u : Bytes) :
    lookup (es ++ [e]) u = (lookup es u).or (if e.user = u then some e.pk else none) := by
  unfold lookup
  rw [List.find?_append]
  cases es.find? fun x => x.user = u with
  | some x => rfl
  | none =>
    by_cases same : e.user = u
    · simp [same]
    · simp [same]

theorem lookup_filter (es : List Host) (name u : Bytes) :
    lookup (es.filter fun x => x.user ≠ name) u = if u = name then none else lookup es u := by
  unfold lookup
  by_cases same : u = name
  · rw [if_pos same, Option.map_eq_none_iff, List.find?_eq_none]
    intro x mem
    have := (List.mem_filter.mp mem).2
    simp only [ne_eq, decide_not, Bool.not_eq_true', decide_eq_false_iff_not] at this
    simpa [same] using this
  · rw [if_neg same, List.find?_filter]
    congr 2
    funext x
    by_cases here : x.user = u
    · simp [here, same]
    · simp [here]

/-- While no name is longer than a field, the file is a list of entries, and the first of each user is
the one written last. -/
theorem HostRun.entries {ws : List HostWrite} {file : Option Bytes} (run : HostRun ws file)
    (short : ∀ w ∈ ws, w.user.length ≤ 255) :
    ∃ es, file.getD [] = hostsText es ∧ lookup es = lastKey ws := by
  induction run with
  | start => exact ⟨[], rfl, rfl⟩
  | @add ws file w _ absent ih =>
    obtain ⟨es, text, map⟩ := ih fun v mem => short v (List.mem_append_left _ mem)
    obtain ⟨e, user, fp, pk⟩ := w.host (short w (by simp))
    refine ⟨es ++ [e], ?_, ?_⟩
    · simp only [addKnownHost, Option.getD_some, text, hostsText, List.map_append,
        List.flatten_append]
      simp [Host.text, user, fp, pk]
    · rw [getKnownHost_hostsText text] at absent
      rw [lastKey_concat]
      funext u
      rw [lookup_append, ← map, user, pk]
      by_cases same : w.user = u
      · rw [if_pos same, ← same, absent, Function.update_self]
        rfl
      · rw [if_neg same, Option.or_none, Function.update_of_ne (Ne.symm same)]
  | @update ws file w _ ih =>
    obtain ⟨es, text, map⟩ := ih fun v mem => short v (List.mem_append_left _ mem)
    obtain ⟨e, user, fp, pk⟩ := w.host (short w (by simp))
    refine ⟨(es.filter fun x => x.user ≠ w.user) ++ [e], ?_, ?_⟩
    · rw [← user, ← fp, ← pk]
      exact updateKnownHost_hostsText text e
    rw [lastKey_concat]
    funext u
    rw [lookup_append, lookup_filter, map, user, pk]
    by_cases same : w.user = u
    · rw [if_pos same.symm, if_pos same, ← same, Function.update_self]
      rfl
    · rw [if_neg (Ne.symm same), if_neg same, Option.or_none, Function.update_of_ne (Ne.symm same)]

namespace Sample

/-- Four labels and a port: a domain of 253 bytes, and with the name before it 276. -/
def longName : Bytes :=
  let label := List.replicate 62 (97 : UInt8)
  utf8 "mallory_mallory_" ++ utf8 "@" ++ label ++ utf8 "." ++ label ++ utf8 "." ++ label ++
    utf8 "." ++ label ++ utf8 ".a:65535"

def firstWrite (user : Bytes) (recipient : Recipient user) : HostWrite where
  user := user
  fp := List.replicate 64 97
  pk := utf8 "AAAA"
  recipient := recipient
  hex := by decide +kernel
  key := ⟨⟨by decide, by decide +kernel⟩, by decide⟩

theorem bobby_recipient : Recipient (utf8 "bobby@example.org") := by
  refine ⟨by decide, fun d hd => ?_⟩
  have : (Bytes.cut 64 (utf8 "bobby@example.org")).2 = some (utf8 "example.org") := by decide
  rw [this] at hd
  cases hd
  decide

theorem longName_recipient : Recipient longName := by
  have host : ((Bytes.cut 64 longName).2.all fun d => validDomain (Go.toLower d)) = true := by
    decide +kernel
  refine ⟨by decide +kernel, fun d hd => ?_⟩
  rw [hd] at host
  exact host

end Sample

end Shyake.Client
