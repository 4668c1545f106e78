import Shyake.Alike.RelayBody

/-!
# What a client hears of a relay

A mail for a user of another instance is posted there, and the client hears how that ended
(`internal/federation/relay.go`, `relayMail` of the Worker, SPEC §6.2). Both servers read the error
text of a refusal and pass on what can be printed of it.
-/

namespace Shyake.Alike.Relayed

open Lib.JsonText (Text Doc codes surrogate)

/-! ## Characters -/

/-- The general categories that a table of Unicode gives. -/
structure Categories where
  /-- Cf. -/
  format : Nat → Bool
  /-- Cn. -/
  unassigned : Nat → Bool
  format_ascii : ∀ c, 32 ≤ c → c < 127 → format c = false
  unassigned_ascii : ∀ c, 32 ≤ c → c < 127 → unassigned c = false

/-- Cc. -/
def control (c : Nat) : Bool := c < 32 || (127 ≤ c && c < 160)

/-- Co. -/
def privateUse (c : Nat) : Bool :=
  (0xe000 ≤ c && c ≤ 0xf8ff) || (0xf0000 ≤ c && c ≤ 0xffffd) || (0x100000 ≤ c && c ≤ 0x10fffd)

/-- `unicode.C`; Cs are the surrogates. -/
def Categories.unicodeC (u : Categories) (c : Nat) : Bool :=
  control c || u.format c || privateUse c || surrogate c

/-- `\p{C}`. -/
def Categories.other (u : Categories) (c : Nat) : Bool := u.unicodeC c || u.unassigned c

/-! ## Answers and outcomes -/

structure Response where
  status : Nat
  body : Bytes
  small : body.length ≤ Go.Server.responseLimit

/-- An answer to the post. A redirect that `fetch` follows leads to a response or to a failure. -/
inductive Answer where
  | final (r : Response)
  | redirect (r : Response) (moved : r.status ∈ [301, 302, 303, 307, 308])
    (led : Option Response)

inductive Outcome where
  /-- The mail is accepted, and stored here as well. -/
  | stored
  | failed (status : Nat) (error : Text)
  deriving DecidableEq

def unreachable : Outcome := .failed 502 (codes "Recipient instance unreachable")

def orRefused (text : Text) : Text := if text = [] then codes "Relay refused" else text

/-! ## The Go server -/

namespace GoServer

def maxNestingDepth : Nat := 10000

/-- `unquote`: a surrogate without its other half is `RuneError`. -/
def unquote (s : Text) : Text := s.map fun c => if surrogate c then 0xfffd else c

/-- The field `error` is set by a member of its name in any case, if the value is a string. -/
def namesError (name : Text) : Bool := (unquote name).map Go.foldRune = codes "error"

def setError (error : Text) (member : Text × Doc) : Text :=
  if namesError member.1 then
    match member.2 with
    | .string s => unquote s
    | _ => error
  else error

/-- `reply.Error` after `json.Unmarshal`. -/
def replyError (body : Bytes) : Text :=
  match Lib.JsonText.read (some maxNestingDepth) (Go.runesFrom 0 body) with
  | some (.object members) => members.foldl setError []
  | _ => []

def cleanRemoteText (u : Categories) (s : Text) : Text :=
  (s.filter fun r => !u.unicodeC r).take 200

/-- `postJSON` of a client that stops at a redirect. -/
def postJSON : Answer → Option (Nat × Bytes)
  | .final r => Go.Server.bounded (some (r.status, r.body))
  | .redirect r _ _ => Go.Server.bounded (some (r.status, r.body))

/-- `Server.relay`, of the answer to `Relay`. -/
def relay (u : Categories) (answer : Answer) : Outcome :=
  match postJSON answer with
  | none => unreachable
  | some (status, body) =>
    let text := cleanRemoteText u (replyError body)
    if status ≥ 200 ∧ status < 300 then .stored
    else if status ≥ 400 ∧ status < 500 ∧ status ≠ 408 ∧ status ≠ 429 then
      .failed status (orRefused text)
    else unreachable

end GoServer

/-! ## The Worker -/

namespace CfWorker

/-- `j?.error` where it is a string. Of members of one name the last counts. -/
def jsonError (body : Bytes) : Option Text :=
  match Lib.JsonText.read none (decodeText body) with
  | some (.object members) =>
    match (members.filter fun m => m.1 = codes "error").getLast? with
    | some (_, .string s) => some s
    | _ => none
  | _ => none

/-- `text`, empty at first. -/
def text (u : Categories) (body : Bytes) : Text :=
  match jsonError body with
  | some error => (error.filter fun c => !u.other c).take 200
  | none => []

def fetch : Answer → Option Response
  | .final r => some r
  | .redirect _ _ led => led

def relayMail (u : Categories) (answer : Answer) : Outcome :=
  match fetch answer with
  | none => unreachable
  | some resp =>
    if 200 ≤ resp.status ∧ resp.status < 300 then .stored
    else if resp.status < 400 ∨ resp.status ≥ 500 ∨ resp.status = 408 ∨ resp.status = 429 then
      unreachable
    else .failed resp.status (orRefused (text u resp.body))

end CfWorker

/-! ## The two readers of an error text -/

/-- The document has one member at most that the Go server takes for `error`, and it is named so.
A string there has no half of a surrogate pair. -/
def ErrorOnce (members : List (Text × Doc)) : Prop :=
  ∀ m ∈ members.filter fun m => GoServer.namesError m.1,
    (members.filter fun m => GoServer.namesError m.1) = [m] ∧ m.1 = codes "error" ∧
      ∀ s, m.2 = .string s → ∀ c ∈ s, surrogate c = false

/-- A text that neither server's reader refuses for a reason of its own. -/
structure Plain (text : Text) : Prop where
  scalars : ∀ c ∈ text, Scalar c
  unmarked : text.head? ≠ some 0xfeff
  shallow : Lib.JsonText.read (some GoServer.maxNestingDepth) text = Lib.JsonText.read none text
  once : ∀ members, Lib.JsonText.read none text = some (.object members) → ErrorOnce members

theorem unquote_eq {s : Text} (h : ∀ c ∈ s, surrogate c = false) : GoServer.unquote s = s := by
  unfold GoServer.unquote
  conv_rhs => rw [← List.map_id s]
  refine List.map_congr_left fun c mem => ?_
  simp [h c mem]

theorem foldl_setError (error : Text) (members : List (Text × Doc)) :
    members.foldl GoServer.setError error =
      (members.filter fun m => GoServer.namesError m.1).foldl GoServer.setError error := by
  rw [List.foldl_filter]
  congr 1
  funext error m
  unfold GoServer.setError
  split <;> rfl

theorem namesError_error : GoServer.namesError (codes "error") = true := by decide

/-- One member named `error` is the last one of this name. -/
theorem exact_filter {members : List (Text × Doc)} (once : ErrorOnce members) :
    (members.filter fun m => m.1 = codes "error") =
      members.filter fun m => GoServer.namesError m.1 := by
  refine List.filter_congr fun m mem => ?_
  by_cases named : GoServer.namesError m.1 = true
  · have exact := (once m (List.mem_filter.mpr ⟨mem, named⟩)).2.1
    rw [named, exact]
    simp
  · have other : m.1 ≠ codes "error" := by
      intro same
      rw [same] at named
      exact named namesError_error
    simp [other, named]

theorem readers_agree {text : Text} (plain : Plain text) :
    (CfWorker.jsonError (text.flatMap Go.Server.encodeRune)).getD [] =
      GoServer.replyError (text.flatMap Go.Server.encodeRune) := by
  unfold CfWorker.jsonError GoServer.replyError
  rw [CfWorker.decodeText_encode plain.scalars plain.unmarked, runesFrom_encode plain.scalars,
    plain.shallow]
  cases found : Lib.JsonText.read none text with
  | none => rfl
  | some d =>
    cases d with
    | object members =>
      have once := plain.once members found
      simp only
      rw [foldl_setError, exact_filter once]
      cases named : members.filter fun m => GoServer.namesError m.1 with
      | nil => rfl
      | cons m rest =>
        obtain ⟨alone, exact, whole⟩ := once m (by rw [named]; exact List.mem_cons_self)
        rw [named] at alone
        obtain ⟨name, value⟩ := m
        obtain ⟨-, rfl⟩ := List.cons.inj alone
        simp only at exact
        subst exact
        cases value with
        | string s =>
          simp [GoServer.setError, namesError_error, unquote_eq (whole s rfl)]
        | null | bool b | number t | array e | object m =>
          simp [GoServer.setError, namesError_error]
    | null | bool b | number t | string s | array e => rfl

/-! ## What reaches a client -/

def Accepted (status : Nat) : Prop := 200 ≤ status ∧ status < 300

/-- A refusal, but not for the time it took or the rate. -/
def Refused (status : Nat) : Prop :=
  400 ≤ status ∧ status < 500 ∧ status ≠ 408 ∧ status ≠ 429

instance (status : Nat) : Decidable (Accepted status) := by unfold Accepted; infer_instance

instance (status : Nat) : Decidable (Refused status) := by unfold Refused; infer_instance

/-- What both servers make of a status and a cleaned text. -/
def outcome (status : Nat) (text : Text) : Outcome :=
  if Accepted status then .stored
  else if Refused status then .failed status (orRefused text)
  else unreachable

theorem outcome_eq_iff {status : Nat} {s t : Text} :
    outcome status s = outcome status t ↔ (Refused status → orRefused s = orRefused t) := by
  by_cases accepted : Accepted status
  · have other : ¬ Refused status := by
      unfold Accepted at accepted
      unfold Refused
      omega
    simp [outcome, accepted, other]
  · by_cases refused : Refused status <;> simp [outcome, accepted, refused]

theorem outcome_unreachable_iff {status : Nat} {text : Text} :
    unreachable = outcome status text ↔ ¬ Accepted status ∧ ¬ Refused status := by
  by_cases accepted : Accepted status
  · simp [outcome, accepted, unreachable]
  · by_cases refused : Refused status
    · have other : status ≠ 502 := by
        unfold Refused at refused
        omega
      simp [outcome, accepted, refused, unreachable, Ne.symm other]
    · simp [outcome, accepted, refused]

theorem relay_final (u : Categories) (r : Response) : GoServer.relay u (.final r) =
    outcome r.status (GoServer.cleanRemoteText u (GoServer.replyError r.body)) := by
  have bounded : Go.Server.bounded (some (r.status, r.body)) = some (r.status, r.body) :=
    if_neg (Nat.not_lt.mpr r.small)
  simp only [GoServer.relay, GoServer.postJSON, bounded]
  rfl

theorem relay_redirect (u : Categories) {r : Response}
    (moved : r.status ∈ [301, 302, 303, 307, 308]) (led : Option Response) :
    GoServer.relay u (.redirect r moved led) = unreachable := by
  have bounded : Go.Server.bounded (some (r.status, r.body)) = some (r.status, r.body) :=
    if_neg (Nat.not_lt.mpr r.small)
  simp only [List.mem_cons, List.not_mem_nil, or_false] at moved
  simp only [GoServer.relay, GoServer.postJSON, bounded]
  rw [if_neg (by omega), if_neg (by omega)]

/-- The Worker looks for a failure before a refusal. -/
theorem worker_cases {α : Type} (status : Nat) (a b c : α) :
    (if 200 ≤ status ∧ status < 300 then a
      else if status < 400 ∨ status ≥ 500 ∨ status = 408 ∨ status = 429 then b else c) =
    if Accepted status then a else if Refused status then c else b := by
  by_cases accepted : Accepted status
  · rw [if_pos accepted]
    exact if_pos accepted
  rw [if_neg accepted]
  refine (if_neg accepted).trans ?_
  unfold Accepted at accepted
  by_cases refused : Refused status
  · rw [if_pos refused, if_neg (by unfold Refused at refused; omega)]
  · rw [if_neg refused, if_pos (by unfold Refused at refused; omega)]

theorem relayMail_eq (u : Categories) {answer : Answer} {r : Response}
    (fetched : CfWorker.fetch answer = some r) :
    CfWorker.relayMail u answer = outcome r.status (CfWorker.text u r.body) := by
  simp only [CfWorker.relayMail, fetched]
  exact worker_cases _ _ _ _

/-! ## Texts -/

variable {u : Categories}

theorem orRefused_eq {text : Text} (h : text ≠ []) : orRefused text = text := if_neg h

/-- ASCII without its control characters. -/
def Printable (text : Text) : Prop := ∀ c ∈ text, 32 ≤ c ∧ c < 127

theorem not_unicodeC_of_ascii {c : Nat} (h : 32 ≤ c ∧ c < 127) : u.unicodeC c = false := by
  have format := u.format_ascii c h.1 h.2
  have control : control c = false := by
    simp only [control, Bool.or_eq_false_iff, decide_eq_false_iff_not, Bool.and_eq_false_iff]
    omega
  have privateUse : privateUse c = false := by
    simp only [privateUse, Bool.or_eq_false_iff, decide_eq_false_iff_not, Bool.and_eq_false_iff]
    omega
  have surrogate : surrogate c = false := by
    simp only [Lib.JsonText.surrogate, Lib.JsonText.highSurrogate, Lib.JsonText.lowSurrogate,
      Bool.or_eq_false_iff, decide_eq_false_iff_not, Bool.and_eq_false_iff]
    omega
  simp [Categories.unicodeC, format, control, privateUse, surrogate]

theorem not_other_of_ascii {c : Nat} (h : 32 ≤ c ∧ c < 127) : u.other c = false := by
  simp [Categories.other, not_unicodeC_of_ascii h, u.unassigned_ascii c h.1 h.2]

/-- A text that both servers pass on as it is. -/
theorem clean_printable {hidden : Nat → Bool} {text : Text}
    (shown : ∀ c, 32 ≤ c ∧ c < 127 → hidden c = false) (h : Printable text)
    (short : text.length ≤ 200) : (text.filter fun c => !hidden c).take 200 = text := by
  rw [List.filter_eq_self.mpr fun c mem => by simp [shown c (h c mem)]]
  exact List.take_of_length_le short

theorem printable_refused : Printable (codes "Relay refused") := by
  unfold Printable
  decide

theorem printable_unreachable : Printable (codes "Recipient instance unreachable") := by
  unfold Printable
  decide

/-- A text that is fit for the client. -/
structure Fit (u : Categories) (text : Text) : Prop where
  bounded : text.length ≤ 200
  shown : ∀ c ∈ text, control c = false ∧ u.format c = false

theorem fit_printable {text : Text} (h : Printable text) (short : text.length ≤ 200) :
    Fit u text where
  bounded := short
  shown c mem := by
    have shown := not_unicodeC_of_ascii (u := u) (h c mem)
    simp only [Categories.unicodeC, Bool.or_eq_false_iff] at shown
    exact ⟨shown.1.1.1, shown.1.1.2⟩

theorem fit_clean (s : Text) {hidden : Nat → Bool}
    (hides : ∀ c, u.unicodeC c = true → hidden c = true) :
    Fit u ((s.filter fun c => !hidden c).take 200) where
  bounded := List.length_take_le _ _
  shown c mem := by
    have kept := (List.mem_filter.mp (List.mem_of_mem_take mem)).2
    have shown : u.unicodeC c = false := by
      by_contra other
      simp [hides c (by simpa using other)] at kept
    simp only [Categories.unicodeC, Bool.or_eq_false_iff] at shown
    exact ⟨shown.1.1.1, shown.1.1.2⟩

theorem Fit.orRefused {text : Text} (h : Fit u text) : Fit u (orRefused text) := by
  unfold Relayed.orRefused
  split
  · exact fit_printable printable_refused (by decide)
  · exact h

/-- The error of an outcome is fit for the client. -/
def FitError (u : Categories) : Outcome → Prop
  | .stored => True
  | .failed _ error => Fit u error

theorem fitError_outcome (status : Nat) {text : Text} (h : Fit u text) :
    FitError u (outcome status text) := by
  unfold outcome
  split
  · trivial
  split
  · exact h.orRefused
  · exact fit_printable printable_unreachable (by decide)

theorem fit_go (s : Text) : Fit u (GoServer.cleanRemoteText u s) := fit_clean s fun _ h => h

theorem fit_worker (body : Bytes) : Fit u (CfWorker.text u body) := by
  unfold CfWorker.text
  split
  · refine fit_clean _ fun c h => ?_
    simp [Categories.other, h]
  · exact ⟨Nat.zero_le _, by simp⟩

/-! ## The same report -/

/-- What can be shown of an error text, in either server's view. -/
def shown (u : Categories) (s : Text) : Text := (s.filter fun c => !u.other c).take 200

/-- The first characters that the Go server keeps. -/
theorem shown_of_assigned {s : Text}
    (assigned : ∀ c ∈ GoServer.cleanRemoteText u s, u.unassigned c = false) :
    shown u s = GoServer.cleanRemoteText u s := by
  unfold GoServer.cleanRemoteText at assigned ⊢
  have split : (s.filter fun c => !u.other c) =
      (s.filter fun c => !u.unicodeC c).filter fun c => !u.unassigned c := by
    rw [List.filter_filter]
    refine List.filter_congr fun c _ => ?_
    rw [Categories.other, Bool.not_or, Bool.and_comm]
  rw [shown, split]
  generalize (s.filter fun c => !u.unicodeC c) = kept at assigned
  generalize 200 = n at assigned
  induction kept generalizing n with
  | nil => rfl
  | cons c kept ih =>
    cases n with
    | zero => rfl
    | succ n =>
      obtain ⟨first, rest⟩ := List.forall_mem_cons.mp assigned
      rw [List.filter_cons_of_pos (by simp [first]), List.take_succ_cons, List.take_succ_cons,
        ih n rest]

theorem text_eq_shown (body : Bytes) :
    CfWorker.text u body = shown u ((CfWorker.jsonError body).getD []) := by
  unfold CfWorker.text shown
  cases CfWorker.jsonError body <;> rfl

/-- The two readers find the same to show, and of what the Go server keeps all is assigned. -/
structure ReadAlike (u : Categories) (body : Bytes) : Prop where
  assigned : ∀ c ∈ ((GoServer.replyError body).filter fun c => !u.unicodeC c).take 200,
    u.unassigned c = false
  shown : orRefused (shown u (GoServer.replyError body)) =
    orRefused (shown u ((CfWorker.jsonError body).getD []))

theorem readAlike_iff (body : Bytes) :
    ReadAlike u body ↔ orRefused (GoServer.cleanRemoteText u (GoServer.replyError body)) =
      orRefused (CfWorker.text u body) := by
  constructor
  · rintro ⟨assigned, same⟩
    rw [text_eq_shown, ← same, shown_of_assigned assigned]
  · intro same
    have assigned : ∀ c ∈ GoServer.cleanRemoteText u (GoServer.replyError body),
        u.unassigned c = false := by
      intro c mem
      rw [orRefused_eq (List.ne_nil_of_mem mem)] at same
      rw [same] at mem
      unfold orRefused at mem
      split at mem
      · obtain ⟨low, high⟩ := printable_refused c mem
        exact u.unassigned_ascii c low high
      · rw [text_eq_shown] at mem
        have kept := (List.mem_filter.mp (List.mem_of_mem_take mem)).2
        simp only [Categories.other, Bool.not_or, Bool.and_eq_true, Bool.not_eq_true'] at kept
        exact kept.2
    refine ⟨assigned, ?_⟩
    rw [shown_of_assigned assigned, same, text_eq_shown]

/-- A refusal is read alike; a redirect leads to a failure. -/
def Agree (u : Categories) : Answer → Prop
  | .final r => Refused r.status → ReadAlike u r.body
  | .redirect _ _ led => ∀ r ∈ led, ¬ Accepted r.status ∧ ¬ Refused r.status

theorem same_iff (answer : Answer) :
    GoServer.relay u answer = CfWorker.relayMail u answer ↔ Agree u answer := by
  cases answer with
  | final r =>
    rw [relay_final, relayMail_eq u (r := r) rfl, outcome_eq_iff]
    exact imp_congr_right fun _ => (readAlike_iff r.body).symm
  | redirect r moved led =>
    rw [relay_redirect]
    cases led with
    | none => simp [Agree, CfWorker.relayMail, CfWorker.fetch]
    | some last =>
      have worker : CfWorker.relayMail u (.redirect r moved (some last)) = _ := relayMail_eq u rfl
      rw [worker, outcome_unreachable_iff]
      simp [Agree]

/-- The text by which a client knows that it is blocked. -/
def blocked : Text := codes "Recipient has blocked this sender"

theorem printable_blocked : Printable blocked := by
  unfold Printable
  decide

/-- A refusal with this text reaches the client as it is. -/
structure PassesBlocked (u : Categories) (answer : Answer) : Prop where
  go : ∀ r, answer = .final r → Refused r.status → GoServer.replyError r.body = blocked →
    GoServer.relay u answer = .failed r.status blocked
  worker : ∀ r, CfWorker.fetch answer = some r → Refused r.status →
    CfWorker.jsonError r.body = some blocked →
    CfWorker.relayMail u answer = .failed r.status blocked

theorem outcome_refused {status : Nat} (h : Refused status) (text : Text) :
    outcome status text = .failed status (orRefused text) := by
  have other : ¬ Accepted status := by
    unfold Refused at h
    unfold Accepted
    omega
  rw [outcome, if_neg other, if_pos h]

theorem passesBlocked (u : Categories) (answer : Answer) : PassesBlocked u answer where
  go := by
    rintro r rfl refused read
    have kept : GoServer.cleanRemoteText u blocked = blocked :=
      clean_printable (fun c => not_unicodeC_of_ascii) printable_blocked (by decide)
    rw [relay_final, read, kept, outcome_refused refused, orRefused_eq (by decide)]
  worker := by
    intro r fetched refused read
    have kept : CfWorker.text u r.body = blocked := by
      unfold CfWorker.text
      rw [read]
      exact clean_printable (fun c => not_other_of_ascii) printable_blocked (by decide)
    rw [relayMail_eq u fetched, kept, outcome_refused refused, orRefused_eq (by decide)]

/-- Both servers report an answer alike, and well. -/
structure ReportedAlike (u : Categories) (answer : Answer) : Prop where
  same : GoServer.relay u answer = CfWorker.relayMail u answer
  go : FitError u (GoServer.relay u answer)
  worker : FitError u (CfWorker.relayMail u answer)
  blocked : PassesBlocked u answer

theorem fit_relay (u : Categories) (answer : Answer) : FitError u (GoServer.relay u answer) := by
  cases answer with
  | final r =>
    rw [relay_final]
    exact fitError_outcome _ (fit_go _)
  | redirect r moved led =>
    rw [relay_redirect]
    exact fit_printable printable_unreachable (by decide)

theorem fit_relayMail (u : Categories) (answer : Answer) :
    FitError u (CfWorker.relayMail u answer) := by
  cases fetched : CfWorker.fetch answer with
  | none =>
    rw [CfWorker.relayMail, fetched]
    exact fit_printable printable_unreachable (by decide)
  | some r =>
    rw [relayMail_eq u fetched]
    exact fitError_outcome _ (fit_worker _)

theorem reportedAlike_iff (answer : Answer) : ReportedAlike u answer ↔ Agree u answer :=
  ⟨fun h => (same_iff answer).mp h.same, fun h =>
    ⟨(same_iff answer).mpr h, fit_relay u answer, fit_relayMail u answer, passesBlocked u answer⟩⟩

/-- A relay is reported alike exactly where no redirect leads to an acceptance or a refusal and a
refusal is read alike. Of a plain body that is: no character that the Go server passes on is
unassigned. -/
theorem relayed_alike (u : Categories) (answer : Answer) :
    (ReportedAlike u answer ↔ Agree u answer) ∧
      ∀ r text, answer = .final r → r.body = text.flatMap Go.Server.encodeRune → Plain text →
        (ReportedAlike u answer ↔ (Refused r.status →
          ∀ c ∈ ((GoServer.replyError r.body).filter fun c => !u.unicodeC c).take 200,
            u.unassigned c = false)) := by
  refine ⟨reportedAlike_iff answer, ?_⟩
  rintro r text rfl body plain
  rw [reportedAlike_iff]
  refine imp_congr_right fun _ => ⟨fun h => h.assigned, fun assigned => ⟨assigned, ?_⟩⟩
  rw [body, readers_agree plain]

namespace Sample

/-- Cf, and some of Cn. -/
def unicode : Categories where
  format c := [(0xad, 0xad), (0x600, 0x605), (0x61c, 0x61c), (0x6dd, 0x6dd), (0x70f, 0x70f),
    (0x890, 0x891), (0x8e2, 0x8e2), (0x180e, 0x180e), (0x200b, 0x200f), (0x202a, 0x202e),
    (0x2060, 0x2064), (0x2066, 0x206f), (0xfeff, 0xfeff), (0xfff9, 0xfffb), (0x110bd, 0x110bd),
    (0x110cd, 0x110cd), (0x13430, 0x1343f), (0x1bca0, 0x1bca3), (0x1d173, 0x1d17a),
    (0xe0001, 0xe0001), (0xe0020, 0xe007f)].any fun r => r.1 ≤ c && c ≤ r.2
  unassigned c := [(0x378, 0x379), (0x380, 0x383), (0xfdd0, 0xfdef), (0xfffe, 0xffff)].any
    fun r => r.1 ≤ c && c ≤ r.2
  format_ascii c low high := by
    simp only [List.any_cons, List.any_nil, Bool.or_false, Bool.or_eq_false_iff,
      Bool.and_eq_false_iff, decide_eq_false_iff_not]
    omega
  unassigned_ascii c low high := by
    simp only [List.any_cons, List.any_nil, Bool.or_false, Bool.or_eq_false_iff,
      Bool.and_eq_false_iff, decide_eq_false_iff_not]
    omega

/-- A redirect to where the mail is taken. -/
def moved : Answer :=
  .redirect ⟨307, [], by decide⟩ (by decide)
    (some ⟨201, utf8 "\x7b\"message\":\"Mail sent\"\x7d", by decide⟩)

/-- A refusal whose text is a character that is not assigned. -/
def odd : Answer := .final ⟨403, utf8 "\x7b\"error\":\"\\u0378\"\x7d", by decide⟩

theorem not_reported_alike : ¬ ReportedAlike unicode moved ∧ ¬ ReportedAlike unicode odd := by
  constructor
  · intro h
    exact absurd h.same (by decide +kernel)
  · intro h
    exact absurd h.same (by decide +kernel)

def refusal : Text := codes "\x7b\"error\":\"Recipient has blocked this sender\"\x7d"

def blocking : Answer :=
  .final ⟨403, refusal.flatMap Go.Server.encodeRune, by decide⟩

theorem plain_refusal : Plain refusal where
  scalars := by unfold Scalar; decide
  unmarked := by decide
  shallow := rfl
  once := by
    intro members h
    have read : Lib.JsonText.read none refusal =
      some (.object [(codes "error", .string blocked)]) := rfl
    rw [read] at h
    cases h
    intro m mem
    obtain rfl : m = (codes "error", .string blocked) := by
      simpa using (List.mem_filter.mp mem).1
    refine ⟨rfl, rfl, ?_⟩
    rintro s ⟨⟩
    decide

theorem relayed_alike_blocked : ReportedAlike unicode blocking :=
  ((relayed_alike unicode blocking).2 _ refusal rfl rfl plain_refusal).mpr fun _ => by
    decide +kernel

end Sample

end Shyake.Alike.Relayed
