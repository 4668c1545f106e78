import Mathlib.Logic.Function.Basic
import Shyake.Lib.Bytes

/-!
# The releases that clients are offered

Both servers read the list of releases once and fill two channels (`internal/api/version.go`,
`GET /api/client/version` of the Worker). The Worker collects the digests of a release in a
plain object, where an assignment to `__proto__` makes no member.
-/

namespace Shyake.Alike

/-! ## Releases -/

/-- An asset of a release, as GitHub lists it; a digest may be null. -/
structure Asset where
  name : Bytes
  digest : Option Bytes

/-- `ghRelease`. -/
structure Release where
  tag : Bytes
  draft : Bool
  prerelease : Bool
  assets : List Asset

/-- A JSON object by its members. -/
abbrev Members (α : Type) := Bytes → Option α

/-- What the answer holds of a channel. -/
inductive Entry where
  | tag (text : Bytes)
  | digests (of : Members Bytes)

abbrev Payload := Members Entry

/-- The names of a channel's two members. -/
def channelName (pre : Bool) : Bytes := if pre then utf8 "pre_release" else utf8 "release"

def digestsName (pre : Bool) : Bytes :=
  if pre then utf8 "pre_release_digests" else utf8 "release_digests"

/-! ## The Go server -/

namespace GoServer

/-- `strings.CutPrefix`. -/
def cutPrefix (s p : Bytes) : Option Bytes :=
  if p.isPrefixOf s then some (s.drop p.length) else none

/-- A null digest is read as an empty one. -/
def digests (r : Release) : Members Bytes :=
  r.assets.foldl (fun out a =>
    match cutPrefix (a.digest.getD []) (utf8 "sha256:") with
    | some d => Function.update out a.name (some d)
    | none => out) fun _ => none

def hasClientAsset (r : Release) : Bool :=
  r.assets.any fun a => (utf8 "shyake-").isPrefixOf a.name &&
    !(utf8 "shyake-server-").isPrefixOf a.name && (utf8 ".tar.gz").isSuffixOf a.name

/-- The loop of `summarize`. -/
def summarizeLoop : List Release → Payload → Payload
  | [], payload => payload
  | r :: releases, payload =>
    if r.draft || !hasClientAsset r then summarizeLoop releases payload
    else
      let payload :=
        if !r.prerelease && (payload (utf8 "release")).isNone then
          Function.update (Function.update payload (utf8 "release") (some (.tag r.tag)))
            (utf8 "release_digests") (some (.digests (digests r)))
        else payload
      let payload :=
        if r.prerelease && (payload (utf8 "pre_release")).isNone then
          Function.update (Function.update payload (utf8 "pre_release") (some (.tag r.tag)))
            (utf8 "pre_release_digests") (some (.digests (digests r)))
        else payload
      if (payload (utf8 "release")).isSome && (payload (utf8 "pre_release")).isSome then payload
      else summarizeLoop releases payload

def summarize (releases : List Release) : Payload := summarizeLoop releases fun _ => none

end GoServer

/-! ## The Worker -/

namespace CfWorker

def proto : Bytes := utf8 "__proto__"

/-- `out[name] = value` of a string. The setter of `__proto__` takes no string. -/
def assign (out : Members Bytes) (name value : Bytes) : Members Bytes :=
  if name = proto then out else Function.update out name (some value)

def collectDigests (r : Release) (out : Members Bytes) : Members Bytes :=
  r.assets.foldl (fun out a =>
    match a.digest with
    | some digest =>
      if (utf8 "sha256:").isPrefixOf digest then assign out a.name (digest.drop 7) else out
    | none => out) out

def hasClientAsset (r : Release) : Bool :=
  r.assets.any fun a => (utf8 "shyake-").isPrefixOf a.name &&
    !(utf8 "shyake-server-").isPrefixOf a.name && (utf8 ".tar.gz").isSuffixOf a.name

/-- A string that is not null and not empty. -/
def truthy (text : Option Bytes) : Bool := text.any (· ≠ [])

/-- The variables of the loop. -/
structure Picked where
  release : Option Bytes
  preRelease : Option Bytes
  releaseDigests : Members Bytes
  preReleaseDigests : Members Bytes

def pick : List Release → Picked → Picked
  | [], p => p
  | r :: releases, p =>
    if r.draft || !hasClientAsset r then pick releases p
    else
      let p :=
        if !r.prerelease && !truthy p.release then
          { p with release := some r.tag, releaseDigests := collectDigests r p.releaseDigests }
        else p
      let p :=
        if r.prerelease && !truthy p.preRelease then
          { p with
            preRelease := some r.tag, preReleaseDigests := collectDigests r p.preReleaseDigests }
        else p
      if truthy p.release && truthy p.preRelease then p else pick releases p

def payload (p : Picked) : Payload :=
  let payload : Payload := fun _ => none
  let payload :=
    if truthy p.release then
      Function.update (Function.update payload (utf8 "release") (p.release.map .tag))
        (utf8 "release_digests") (some (.digests p.releaseDigests))
    else payload
  if truthy p.preRelease then
    Function.update (Function.update payload (utf8 "pre_release") (p.preRelease.map .tag))
      (utf8 "pre_release_digests") (some (.digests p.preReleaseDigests))
  else payload

/-- `GET /api/client/version`, of the releases that GitHub lists. -/
def clientVersion (releases : List Release) : Payload :=
  payload (pick releases ⟨none, none, fun _ => none, fun _ => none⟩)

end CfWorker

/-! ## What is to be offered -/

/-- A client build: `shyake-*.tar.gz`, but not `shyake-server-*`. -/
def Asset.IsClient (a : Asset) : Prop :=
  utf8 "shyake-" <+: a.name ∧ ¬ utf8 "shyake-server-" <+: a.name ∧ utf8 ".tar.gz" <:+ a.name

/-- A release that may be offered on a channel. -/
def Release.Offered (pre : Bool) (r : Release) : Prop :=
  r.draft = false ∧ r.prerelease = pre ∧ ∃ a ∈ r.assets, a.IsClient

/-- The first release of the list that may be offered on a channel. -/
def Newest (pre : Bool) (releases : List Release) (r : Release) : Prop :=
  ∃ before after, releases = before ++ r :: after ∧ r.Offered pre ∧ ∀ x ∈ before, ¬ x.Offered pre

/-- The digest of an asset is that SHA-256. -/
def Asset.Sha256 (a : Asset) (d : Bytes) : Prop := a.digest = some (utf8 "sha256:" ++ d)

/-- The digest of each name among the assets; of two assets of a name, the later one. -/
def Digests (r : Release) (of : Members Bytes) : Prop :=
  ∀ name d, of name = some d ↔
    ∃ before a after, r.assets = before ++ a :: after ∧ a.name = name ∧ a.Sha256 d ∧
      ∀ x ∈ after, x.name = name → ∀ d, ¬ x.Sha256 d

/-- What a channel's members are to be. -/
structure Channel (pre : Bool) (releases : List Release) (payload : Payload) : Prop where
  offered : ∀ r, Newest pre releases r → payload (channelName pre) = some (.tag r.tag) ∧
    ∃ of, payload (digestsName pre) = some (.digests of) ∧ Digests r of
  none : (¬ ∃ r, Newest pre releases r) →
    payload (channelName pre) = none ∧ payload (digestsName pre) = none

/-- The answer holds the two channels and nothing else. -/
structure Offers (releases : List Release) (payload : Payload) : Prop where
  channel : ∀ pre, Channel pre releases payload
  only : ∀ name, (∀ pre, name ≠ channelName pre ∧ name ≠ digestsName pre) → payload name = none

/-! ## The first release of a channel -/

/-- `Release.Offered`, as both loops test it. -/
def Release.offered (pre : Bool) (r : Release) : Bool :=
  !r.draft && r.prerelease == pre && GoServer.hasClientAsset r

theorem offered_iff {pre : Bool} {r : Release} : r.offered pre = true ↔ r.Offered pre := by
  have client (a : Asset) : ((utf8 "shyake-").isPrefixOf a.name &&
      !(utf8 "shyake-server-").isPrefixOf a.name && (utf8 ".tar.gz").isSuffixOf a.name) = true ↔
        a.IsClient := by
    unfold Asset.IsClient
    simp only [Bool.and_eq_true, Bool.not_eq_true', ← Bool.not_eq_true, List.isPrefixOf_iff_prefix,
      List.isSuffixOf_iff_suffix, and_assoc]
  unfold Release.offered Release.Offered GoServer.hasClientAsset
  simp only [Bool.and_eq_true, Bool.not_eq_true', beq_iff_eq, List.any_eq_true, client, and_assoc]

theorem newest_iff {pre : Bool} {releases : List Release} {r : Release} :
    releases.find? (Release.offered pre) = some r ↔ Newest pre releases r := by
  rw [List.find?_eq_some_iff_append]
  unfold Newest
  simp only [offered_iff, Bool.not_eq_true', ← Bool.not_eq_true]
  constructor
  · rintro ⟨here, before, after, made, none⟩
    exact ⟨before, after, made, here, none⟩
  · rintro ⟨before, after, made, here, none⟩
    exact ⟨here, before, after, made, none⟩

/-- What is answered of the two channels, with the digests as `D` makes them. -/
def rendered (D : Release → Members Bytes) (release preRelease : Option Release) : Payload :=
  fun name =>
    if name = utf8 "release" then release.map fun r => .tag r.tag
    else if name = utf8 "release_digests" then release.map fun r => .digests (D r)
    else if name = utf8 "pre_release" then preRelease.map fun r => .tag r.tag
    else if name = utf8 "pre_release_digests" then preRelease.map fun r => .digests (D r)
    else none

section

variable (D : Release → Members Bytes) (r : Release) (a b : Option Release)

theorem rendered_release : rendered D a b (utf8 "release") = a.map fun r => .tag r.tag := if_pos rfl

theorem rendered_releaseDigests :
    rendered D a b (utf8 "release_digests") = a.map fun r => .digests (D r) := by
  unfold rendered
  rw [if_neg (by decide), if_pos rfl]

theorem rendered_preRelease :
    rendered D a b (utf8 "pre_release") = b.map fun r => .tag r.tag := by
  unfold rendered
  rw [if_neg (by decide), if_neg (by decide), if_pos rfl]

theorem rendered_preReleaseDigests :
    rendered D a b (utf8 "pre_release_digests") = b.map fun r => .digests (D r) := by
  unfold rendered
  rw [if_neg (by decide), if_neg (by decide), if_neg (by decide), if_pos rfl]

theorem rendered_none : rendered D none none = fun _ => none := by
  funext name
  unfold rendered
  simp only [Option.map_none, ite_self]

/-- Setting the two members of the first channel. -/
theorem update_release :
    Function.update (Function.update (rendered D none b) (utf8 "release") (some (.tag r.tag)))
      (utf8 "release_digests") (some (.digests (D r))) = rendered D (some r) b := by
  funext name
  simp only [Function.update_apply, rendered]
  by_cases first : name = utf8 "release"
  · subst first
    rfl
  by_cases second : name = utf8 "release_digests"
  · subst second
    rfl
  · simp only [if_neg first, if_neg second]

/-- Setting the two members of the second channel. -/
theorem update_preRelease :
    Function.update (Function.update (rendered D a none) (utf8 "pre_release") (some (.tag r.tag)))
      (utf8 "pre_release_digests") (some (.digests (D r))) = rendered D a (some r) := by
  funext name
  simp only [Function.update_apply, rendered]
  by_cases third : name = utf8 "pre_release"
  · subst third
    rfl
  by_cases fourth : name = utf8 "pre_release_digests"
  · subst fourth
    rfl
  · simp only [if_neg third, if_neg fourth]

/-- A channel that is filled already stays as it is. -/
theorem fill_release :
    (if (rendered D a b (utf8 "release")).isNone then
        Function.update (Function.update (rendered D a b) (utf8 "release") (some (.tag r.tag)))
          (utf8 "release_digests") (some (.digests (D r)))
      else rendered D a b) = rendered D (a.or (some r)) b := by
  rw [rendered_release]
  cases a with
  | none => exact update_release D r b
  | some first => rfl

theorem fill_preRelease :
    (if (rendered D a b (utf8 "pre_release")).isNone then
        Function.update (Function.update (rendered D a b) (utf8 "pre_release") (some (.tag r.tag)))
          (utf8 "pre_release_digests") (some (.digests (D r)))
      else rendered D a b) = rendered D a (b.or (some r)) := by
  rw [rendered_preRelease]
  cases b with
  | none => exact update_preRelease D r a
  | some first => rfl

end

/-! ## Both loops -/

/-- A release that is passed over. -/
theorem find_of_passed {pre : Bool} {r : Release} {releases : List Release}
    (passed : (r.draft || !GoServer.hasClientAsset r) = true) :
    (r :: releases).find? (Release.offered pre) = releases.find? (Release.offered pre) := by
  refine List.find?_cons_of_neg ?_
  unfold Release.offered
  rcases Bool.or_eq_true_iff.mp passed with draft | none
  · simp [draft]
  · simpa using fun _ _ => by simpa using none

theorem offered_of_kept {r : Release} (kept : ¬ (r.draft || !GoServer.hasClientAsset r) = true)
    (pre : Bool) : r.offered pre = (r.prerelease == pre) := by
  simp only [Bool.or_eq_true, Bool.not_eq_true', not_or, Bool.not_eq_true, Bool.not_eq_false] at kept
  unfold Release.offered
  simp [kept.1, kept.2]

/-- The loop of the Go server fills what is still empty with the first release of each channel. -/
theorem summarizeLoop_eq (releases : List Release) (a b : Option Release) :
    GoServer.summarizeLoop releases (rendered GoServer.digests a b) =
      rendered GoServer.digests (a.or (releases.find? (Release.offered false)))
        (b.or (releases.find? (Release.offered true))) := by
  induction releases generalizing a b with
  | nil => simp [GoServer.summarizeLoop]
  | cons r releases ih =>
    unfold GoServer.summarizeLoop
    by_cases passed : (r.draft || !GoServer.hasClientAsset r) = true
    · rw [if_pos passed, ih, find_of_passed passed, find_of_passed passed]
    · rw [if_neg passed]
      have kept := offered_of_kept passed
      -- a release is of one channel, which it fills unless that is full
      cases channel : r.prerelease with
      | false =>
        rw [channel] at kept
        rw [List.find?_cons_of_pos (kept false), List.find?_cons_of_neg (by simp [kept true])]
        simp only [Bool.not_false, Bool.true_and, Bool.false_and, Bool.false_eq_true, if_false,
          fill_release]
        rw [rendered_release, rendered_preRelease, Option.isSome_map, Option.isSome_map, ih]
        cases a <;> cases b <;> rfl
      | true =>
        rw [channel] at kept
        rw [List.find?_cons_of_neg (by simp [kept false]), List.find?_cons_of_pos (kept true)]
        simp only [Bool.not_true, Bool.true_and, Bool.false_and, Bool.false_eq_true, if_false,
          fill_preRelease]
        rw [rendered_release, rendered_preRelease, Option.isSome_map, Option.isSome_map, ih]
        cases a <;> cases b <;> rfl

/-- The variables of the Worker's loop, with the releases that they are of. -/
def picked (a b : Option Release) : CfWorker.Picked where
  release := a.map Release.tag
  preRelease := b.map Release.tag
  releaseDigests := a.elim (fun _ => none) fun r => CfWorker.collectDigests r fun _ => none
  preReleaseDigests := b.elim (fun _ => none) fun r => CfWorker.collectDigests r fun _ => none

/-- A release with a tag. -/
def Tagged (r : Release) : Prop := r.tag ≠ []

section

variable {a b : Option Release} (r : Release)

theorem truthy_release (tagged : ∀ r ∈ a, Tagged r) :
    CfWorker.truthy (picked a b).release = a.isSome := by
  cases a with
  | none => rfl
  | some r => exact decide_eq_true (tagged r rfl)

theorem truthy_preRelease (tagged : ∀ r ∈ b, Tagged r) :
    CfWorker.truthy (picked a b).preRelease = b.isSome := by
  cases b with
  | none => rfl
  | some r => exact decide_eq_true (tagged r rfl)

theorem pick_release (tagged : ∀ r ∈ a, Tagged r) :
    (if !CfWorker.truthy (picked a b).release then
        { picked a b with
          release := some r.tag
          releaseDigests := CfWorker.collectDigests r (picked a b).releaseDigests }
      else picked a b) = picked (a.or (some r)) b := by
  rw [truthy_release tagged]
  cases a <;> rfl

theorem pick_preRelease (tagged : ∀ r ∈ b, Tagged r) :
    (if !CfWorker.truthy (picked a b).preRelease then
        { picked a b with
          preRelease := some r.tag
          preReleaseDigests := CfWorker.collectDigests r (picked a b).preReleaseDigests }
      else picked a b) = picked a (b.or (some r)) := by
  rw [truthy_preRelease tagged]
  cases b <;> rfl

end

theorem pick_eq (releases : List Release) (tagged : ∀ r ∈ releases, Tagged r)
    (a b : Option Release) (ha : ∀ r ∈ a, Tagged r) (hb : ∀ r ∈ b, Tagged r) :
    CfWorker.pick releases (picked a b) =
      picked (a.or (releases.find? (Release.offered false)))
        (b.or (releases.find? (Release.offered true))) := by
  induction releases generalizing a b with
  | nil => simp [CfWorker.pick]
  | cons r releases ih =>
    rw [List.forall_mem_cons] at tagged
    unfold CfWorker.pick
    by_cases passed : (r.draft || !CfWorker.hasClientAsset r) = true
    · rw [if_pos passed, ih tagged.2 a b ha hb, find_of_passed passed, find_of_passed passed]
    · rw [if_neg passed]
      have kept := offered_of_kept passed
      have full {o : Option Release} (ho : ∀ r ∈ o, Tagged r) : ∀ x ∈ o.or (some r), Tagged x := by
        cases o with
        | none =>
          rintro x ⟨⟩
          exact tagged.1
        | some first => exact ho
      cases channel : r.prerelease with
      | false =>
        rw [channel] at kept
        rw [List.find?_cons_of_pos (kept false), List.find?_cons_of_neg (by simp [kept true])]
        simp only [Bool.not_false, Bool.true_and, Bool.false_and, Bool.false_eq_true, if_false,
          pick_release r ha, truthy_release (full ha), truthy_preRelease hb]
        rw [ih tagged.2 _ _ (full ha) hb]
        cases a <;> cases b <;> rfl
      | true =>
        rw [channel] at kept
        rw [List.find?_cons_of_neg (by simp [kept false]), List.find?_cons_of_pos (kept true)]
        simp only [Bool.not_true, Bool.true_and, Bool.false_and, Bool.false_eq_true, if_false,
          pick_preRelease r hb, truthy_release ha, truthy_preRelease (full hb)]
        rw [ih tagged.2 _ _ ha (full hb)]
        cases a <;> cases b <;> rfl

theorem payload_picked {a b : Option Release} (ha : ∀ r ∈ a, Tagged r) (hb : ∀ r ∈ b, Tagged r) :
    CfWorker.payload (picked a b) =
      rendered (fun r => CfWorker.collectDigests r fun _ => none) a b := by
  unfold CfWorker.payload
  simp only [truthy_release ha, truthy_preRelease hb]
  rw [← rendered_none fun r => CfWorker.collectDigests r fun _ => none]
  have first : (if a.isSome then
        Function.update (Function.update
          (rendered (fun r => CfWorker.collectDigests r fun _ => none) none none)
          (utf8 "release") ((picked a b).release.map .tag))
          (utf8 "release_digests") (some (.digests (picked a b).releaseDigests))
      else rendered (fun r => CfWorker.collectDigests r fun _ => none) none none) =
      rendered (fun r => CfWorker.collectDigests r fun _ => none) a none := by
    cases a with
    | none => rfl
    | some r => exact update_release _ r none
  rw [first]
  cases b with
  | none => rfl
  | some r => exact update_preRelease _ r a

/-! ## Digests -/

/-- The SHA-256 of an asset. -/
def Asset.sha256 (a : Asset) : Option Bytes := GoServer.cutPrefix (a.digest.getD []) (utf8 "sha256:")

theorem sha256_iff {a : Asset} {d : Bytes} : a.sha256 = some d ↔ a.Sha256 d := by
  unfold Asset.sha256 Asset.Sha256 GoServer.cutPrefix
  cases a.digest with
  | none => exact iff_of_false nofun nofun
  | some digest =>
    rw [Option.getD_some, Option.some_inj]
    constructor
    · intro h
      split at h
      · rename_i pre
        obtain ⟨rest, rfl⟩ := List.isPrefixOf_iff_prefix.mp pre
        rw [List.drop_left, Option.some_inj] at h
        rw [h]
      · cases h
    · rintro rfl
      rw [if_pos (List.isPrefixOf_iff_prefix.mpr (List.prefix_append _ _)), List.drop_left]

/-- The SHA-256 of an asset of that name. -/
def Asset.sha256Of (name : Bytes) (a : Asset) : Option Bytes :=
  if a.name = name then a.sha256 else none

theorem sha256Of_iff {name d : Bytes} {a : Asset} :
    a.sha256Of name = some d ↔ a.name = name ∧ a.Sha256 d := by
  unfold Asset.sha256Of
  rw [← sha256_iff]
  split
  · rename_i same
    exact (and_iff_right same).symm
  · rename_i other
    exact iff_of_false nofun fun h => other h.1

theorem sha256Of_eq_none {name : Bytes} {a : Asset} :
    a.sha256Of name = none ↔ (a.name = name → ∀ d, ¬ a.Sha256 d) := by
  simp only [Option.eq_none_iff_forall_ne_some, ne_eq, sha256Of_iff, not_and]
  exact forall_comm

/-- The digest of a name: the last one. -/
def lastDigest (assets : List Asset) (name : Bytes) : Option Bytes :=
  assets.reverse.findSome? (Asset.sha256Of name)

theorem lastDigest_snoc (assets : List Asset) (a : Asset) (name : Bytes) :
    lastDigest (assets ++ [a]) name =
      if a.name = name then a.sha256.or (lastDigest assets name) else lastDigest assets name := by
  unfold lastDigest
  rw [List.reverse_append, List.reverse_singleton, List.singleton_append, List.findSome?_cons]
  by_cases same : a.name = name
  · have here : a.sha256Of name = a.sha256 := if_pos same
    rw [here, if_pos same]
    cases a.sha256 <;> rfl
  · have here : a.sha256Of name = none := if_neg same
    rw [here, if_neg same]

theorem goDigests_eq (r : Release) : GoServer.digests r = lastDigest r.assets := by
  unfold GoServer.digests
  induction r.assets using List.reverseRecOn with
  | nil => rfl
  | append_singleton assets a ih =>
    rw [List.foldl_append, ih]
    funext name
    rw [lastDigest_snoc]
    change (match a.sha256 with
      | some d => Function.update (lastDigest assets) a.name (some d)
      | none => lastDigest assets) name = _
    cases a.sha256 with
    | none => simp
    | some d =>
      dsimp only
      rw [Function.update_apply]
      simp [eq_comm]

/-- One round of `collectDigests`. -/
theorem collect_step (out : Members Bytes) (a : Asset) :
    (match a.digest with
      | some digest =>
        if (utf8 "sha256:").isPrefixOf digest then CfWorker.assign out a.name (digest.drop 7) else out
      | none => out) =
      match a.sha256 with
      | some d => CfWorker.assign out a.name d
      | none => out := by
  unfold Asset.sha256 GoServer.cutPrefix
  cases a.digest with
  | none => rfl
  | some digest =>
    rw [Option.getD_some]
    dsimp only
    by_cases pre : (utf8 "sha256:").isPrefixOf digest = true
    · rw [if_pos pre, if_pos pre]
      rfl
    · rw [if_neg pre, if_neg pre]

theorem collectDigests_eq (r : Release) :
    (CfWorker.collectDigests r fun _ => none) =
      fun name => if name = CfWorker.proto then none else lastDigest r.assets name := by
  unfold CfWorker.collectDigests
  induction r.assets using List.reverseRecOn with
  | nil =>
    funext name
    exact (ite_self none).symm
  | append_singleton assets a ih =>
    rw [List.foldl_append, ih]
    funext name
    rw [lastDigest_snoc, List.foldl_cons, List.foldl_nil, collect_step]
    cases a.sha256 with
    | none => simp
    | some d =>
      dsimp only
      unfold CfWorker.assign
      by_cases mine : a.name = CfWorker.proto
      · rw [if_pos mine]
        by_cases same : name = CfWorker.proto
        · rw [if_pos same, if_pos same]
        · rw [if_neg same, if_neg same, if_neg fun e => same (e.symm.trans mine)]
      · rw [if_neg mine, Function.update_apply]
        by_cases same : name = a.name
        · subst same
          rw [if_pos rfl, if_neg mine, if_pos rfl]
          rfl
        · rw [if_neg same, if_neg (Ne.symm same)]

/-- The digests are those of the specification. -/
theorem digests_lastDigest (r : Release) : Digests r (lastDigest r.assets) := by
  intro name d
  unfold lastDigest
  rw [List.findSome?_eq_some_iff]
  constructor
  · rintro ⟨after, a, before, made, here, none⟩
    obtain ⟨same, sha⟩ := sha256Of_iff.mp here
    refine ⟨before.reverse, a, after.reverse, ?_, same, sha, fun x mem => ?_⟩
    · rw [← List.reverse_reverse r.assets, made]
      simp
    · exact sha256Of_eq_none.mp (none x (List.mem_reverse.mp mem))
  · rintro ⟨before, a, after, made, same, sha, none⟩
    refine ⟨after.reverse, a, before.reverse, ?_, sha256Of_iff.mpr ⟨same, sha⟩, fun x mem => ?_⟩
    · rw [made]
      simp
    · exact sha256Of_eq_none.mpr (none x (List.mem_reverse.mp mem))

/-- Two answers of the same releases are the same if their digests are. -/
theorem rendered_inj {D E : Release → Members Bytes} {a b : Option Release} :
    rendered D a b = rendered E a b ↔ (∀ r ∈ a, D r = E r) ∧ ∀ r ∈ b, D r = E r := by
  constructor
  · intro same
    have first := congrFun same (utf8 "release_digests")
    have second := congrFun same (utf8 "pre_release_digests")
    rw [rendered_releaseDigests, rendered_releaseDigests] at first
    rw [rendered_preReleaseDigests, rendered_preReleaseDigests] at second
    constructor
    · rintro r ⟨⟩
      exact Entry.digests.inj (Option.some.inj first)
    · rintro r ⟨⟩
      exact Entry.digests.inj (Option.some.inj second)
  · rintro ⟨first, second⟩
    funext name
    unfold rendered
    rw [Option.map_congr fun r mem => congrArg Entry.digests (first r mem),
      Option.map_congr fun r mem => congrArg Entry.digests (second r mem)]

/-- No asset with a SHA-256 is called `__proto__`. -/
def NoProto (r : Release) : Prop := ∀ a ∈ r.assets, a.name = CfWorker.proto → ∀ d, ¬ a.Sha256 d

theorem lastDigest_eq_none {assets : List Asset} {name : Bytes} :
    lastDigest assets name = none ↔ ∀ a ∈ assets, a.name = name → ∀ d, ¬ a.Sha256 d := by
  unfold lastDigest
  simp only [List.findSome?_eq_none_iff, List.mem_reverse, sha256Of_eq_none]

theorem collectDigests_same {r : Release} :
    (CfWorker.collectDigests r fun _ => none) = GoServer.digests r ↔ NoProto r := by
  rw [collectDigests_eq, goDigests_eq]
  unfold NoProto
  rw [← lastDigest_eq_none]
  constructor
  · intro same
    have here := congrFun same CfWorker.proto
    rw [if_pos rfl] at here
    exact here.symm
  · intro none
    funext name
    split
    · rename_i same
      rw [same, none]
    · rfl

/-! ## Both servers -/

theorem summarize_eq (releases : List Release) :
    GoServer.summarize releases = rendered GoServer.digests (releases.find? (Release.offered false))
      (releases.find? (Release.offered true)) := by
  unfold GoServer.summarize
  rw [← rendered_none GoServer.digests, summarizeLoop_eq, Option.none_or, Option.none_or]

theorem clientVersion_eq {releases : List Release} (tagged : ∀ r ∈ releases, Tagged r) :
    CfWorker.clientVersion releases =
      rendered (fun r => CfWorker.collectDigests r fun _ => none)
        (releases.find? (Release.offered false)) (releases.find? (Release.offered true)) := by
  have found {pre : Bool} : ∀ r ∈ releases.find? (Release.offered pre), Tagged r :=
    fun r here => tagged r (List.mem_of_find?_eq_some here)
  unfold CfWorker.clientVersion
  change CfWorker.payload (CfWorker.pick releases (picked none none)) = _
  rw [pick_eq releases tagged none none nofun nofun, Option.none_or, Option.none_or,
    payload_picked found found]

theorem channel_rendered {releases : List Release} (pre : Bool) :
    Channel pre releases (rendered GoServer.digests (releases.find? (Release.offered false))
      (releases.find? (Release.offered true))) := by
  have names (a b : Option Release) :
      rendered GoServer.digests a b (channelName pre) = (if pre then b else a).map (fun r => .tag r.tag) ∧
      rendered GoServer.digests a b (digestsName pre) =
        (if pre then b else a).map fun r => .digests (GoServer.digests r) := by
    cases pre with
    | false => exact ⟨rendered_release _ a b, rendered_releaseDigests _ a b⟩
    | true => exact ⟨rendered_preRelease _ a b, rendered_preReleaseDigests _ a b⟩
  have chosen : (if pre then releases.find? (Release.offered true)
      else releases.find? (Release.offered false)) = releases.find? (Release.offered pre) := by
    cases pre <;> rfl
  obtain ⟨tag, digests⟩ := names (releases.find? (Release.offered false))
    (releases.find? (Release.offered true))
  rw [chosen] at tag digests
  constructor
  · intro r newest
    rw [newest_iff.mpr newest] at tag digests
    refine ⟨tag, _, digests, ?_⟩
    rw [goDigests_eq]
    exact digests_lastDigest r
  · intro nothing
    have nothing : releases.find? (Release.offered pre) = none := by
      rw [Option.eq_none_iff_forall_ne_some]
      exact fun r here => nothing ⟨r, newest_iff.mp here⟩
    rw [nothing] at tag digests
    exact ⟨tag, digests⟩

theorem offers_summarize (releases : List Release) : Offers releases (GoServer.summarize releases) := by
  rw [summarize_eq]
  refine ⟨channel_rendered, fun name other => ?_⟩
  obtain ⟨release, releaseDigests⟩ : name ≠ utf8 "release" ∧ name ≠ utf8 "release_digests" :=
    other false
  obtain ⟨preRelease, preReleaseDigests⟩ :
      name ≠ utf8 "pre_release" ∧ name ≠ utf8 "pre_release_digests" := other true
  unfold rendered
  rw [if_neg release, if_neg releaseDigests, if_neg preRelease, if_neg preReleaseDigests]

/-- **Both servers offer the same releases** as long as no release that is offered has an asset
called `__proto__` with a SHA-256: the Go server always answers with the first release of each
channel and its digests, and the Worker answers the same exactly then. -/
theorem same_releases (releases : List Release) (tagged : ∀ r ∈ releases, Tagged r) :
    Offers releases (GoServer.summarize releases) ∧
      (CfWorker.clientVersion releases = GoServer.summarize releases ↔
        ∀ pre r, Newest pre releases r → NoProto r) := by
  refine ⟨offers_summarize releases, ?_⟩
  rw [clientVersion_eq tagged, summarize_eq, rendered_inj]
  simp only [collectDigests_same, Option.mem_def, newest_iff]
  constructor
  · rintro ⟨release, preRelease⟩ pre
    cases pre with
    | false => exact release
    | true => exact preRelease
  · exact fun all => ⟨all false, all true⟩

namespace Sample

/-- A release whose second asset is called `__proto__`. -/
def protoRelease : Release where
  tag := utf8 "v0.3.0"
  draft := false
  prerelease := false
  assets := [⟨utf8 "shyake-linux-x86_64.tar.gz", some (utf8 "sha256:bb")⟩,
    ⟨utf8 "__proto__", some (utf8 "sha256:cc")⟩]

/-- **The Worker leaves out a digest** that the Go server answers. -/
theorem proto_left_out :
    (∀ r ∈ [protoRelease], Tagged r) ∧
      ¬ (Offers [protoRelease] (GoServer.summarize [protoRelease]) ∧
        CfWorker.clientVersion [protoRelease] = GoServer.summarize [protoRelease]) := by
  have tagged : ∀ r ∈ [protoRelease], Tagged r := by
    simp only [List.mem_singleton, forall_eq, Tagged]
    decide
  refine ⟨tagged, ?_⟩
  rintro ⟨-, same⟩
  have newest : [protoRelease].find? (Release.offered false) = some protoRelease :=
    List.find?_cons_of_pos (by decide)
  rw [clientVersion_eq tagged, summarize_eq, rendered_inj] at same
  have no := collectDigests_same.mp (same.1 protoRelease newest)
  exact no _ (List.mem_cons_of_mem _ List.mem_cons_self) rfl (utf8 "cc") rfl

/-- A release without such an asset. -/
def release : Release := { protoRelease with assets := protoRelease.assets.take 1 }

theorem same_releases_one : CfWorker.clientVersion [release] = GoServer.summarize [release] := by
  have tagged : ∀ r ∈ [release], Tagged r := by
    simp only [List.mem_singleton, forall_eq, Tagged]
    decide
  refine (same_releases [release] tagged).2.mpr fun pre r newest => ?_
  obtain ⟨before, after, made, -, -⟩ := newest
  have only : r ∈ [release] := by
    rw [made]
    exact List.mem_append_right _ List.mem_cons_self
  obtain rfl := List.mem_singleton.mp only
  intro a mem name
  obtain rfl := List.mem_singleton.mp mem
  exact absurd name (by decide)

end Sample

end Shyake.Alike
