import Shyake.Client.Cli.Text
import Shyake.Client.Json
import Shyake.Client.Pow

/-!
# Self-update (`update.c`)

The archive of a release is downloaded to `/tmp`, hashed there, unpacked there and its program
copied over the installed one. Each of these steps goes to a path of the shared directory anew,
and other users act on it in between. The directory is sticky: an entry can be removed by its
owner only.
-/

namespace Shyake.Client

open CJson (tolower)

/-! ## The latest version -/

structure CliVersionInfo where
  release : Option Bytes
  pre_release : Option Bytes
  release_digest : Option Bytes
  pre_release_digest : Option Bytes

inductive CliUpdateChannel where
  | STABLE
  | PREVIEW
  deriving DecidableEq

/-- `extract_digest`. -/
def extractDigest (json : Json) (key asset : Bytes) : Option Bytes :=
  ((json.getObjectItem key).bind (·.getString asset)).map fun v =>
    if (utf8 "sha256:").isPrefixOf v then v.drop 7 else v

/-- `cli_get_latest_version`, where `answer` is the status and the body of the response. -/
def cliGetLatestVersion (parse : Bytes → Option Json) (artifact : Bytes)
    (answer : Option (Nat × Bytes)) : Option CliVersionInfo :=
  match answer with
  | none => none
  | some (http_code, body) =>
    if http_code = 200 then
      (parse body).map fun json =>
        let asset := snprintf 64 (artifact ++ utf8 ".tar.gz")
        { release := json.getString (utf8 "release")
          pre_release := json.getString (utf8 "pre_release")
          release_digest := extractDigest json (utf8 "release_digests") asset
          pre_release_digest := extractDigest json (utf8 "pre_release_digests") asset }
    else none

/-- `parse_ver`: `maj`, `min`, `pat` and `has_pre`. -/
def parseVer (s : Bytes) : Int × Int × Int × Bool :=
  if s = [] then (0, 0, 0, false)
  else
    let p := if s.head? = some 118 then s.tail else s
    match p.dropWhile (· != 46) with
    | [] => (atoi p, 0, 0, false)
    | _ :: q =>
      match q.dropWhile (· != 46) with
      | [] => (atoi p, atoi q, 0, false)
      | _ :: r => (atoi p, atoi q, atoi r, r.contains 45)

/-- `cli_version_cmp`. -/
def cliVersionCmp (a b : Bytes) : Int :=
  let (a_maj, a_min, a_pat, a_pre) := parseVer a
  let (b_maj, b_min, b_pat, b_pre) := parseVer b
  if a_maj ≠ b_maj then a_maj - b_maj
  else if a_min ≠ b_min then a_min - b_min
  else if a_pat ≠ b_pat then a_pat - b_pat
  else if a_pre ≠ b_pre then if a_pre then -1 else 1
  else 0

/-! ## The shared directory -/

inductive Owner where
  | user
  | other
  deriving DecidableEq

/-- `shared`: not only its owner can write to it. -/
structure TmpFile where
  inode : Nat
  owner : Owner
  shared : Bool
  content : Bytes

/-- A directory, as far as its entry `shyake` goes. -/
structure TmpDir where
  owner : Owner
  shared : Bool
  shyake : Option TmpFile

inductive Entry where
  | file (f : TmpFile)
  | dir (d : TmpDir)

def Entry.owner : Entry → Owner
  | file f => f.owner
  | dir d => d.owner

/-- What is at `/tmp/<asset>` and at `/tmp/<artifact>`, and the next inode number. -/
structure Tmp where
  asset : Option Entry
  artifact : Option Entry
  inode : Nat

inductive Place where
  | asset
  | artifact
  deriving DecidableEq

def Tmp.get (t : Tmp) : Place → Option Entry
  | .asset => t.asset
  | .artifact => t.artifact

def Tmp.set (t : Tmp) (e : Option Entry) : Place → Tmp
  | .asset => { t with asset := e }
  | .artifact => { t with artifact := e }

/-- May this one write there. -/
def mayWrite (who owner : Owner) (shared : Bool) : Bool := who == owner || shared

/-- What another user does in the directory. -/
inductive Op where
  /-- A new file with this content. -/
  | createFile (p : Place) (shared : Bool) (content : Bytes)
  | mkdir (p : Place) (shared : Bool)
  | remove (p : Place)
  | write (p : Place) (content : Bytes)
  /-- The entry `shyake` of `/tmp/<artifact>` becomes a new file, or goes. -/
  | put (content : Option Bytes)
  | writeShyake (content : Bytes)

def Op.run (t : Tmp) : Op → Tmp
  | createFile p shared content =>
    if (t.get p).isNone then
      { t.set (some (.file ⟨t.inode, .other, shared, content⟩)) p with inode := t.inode + 1 }
    else t
  | mkdir p shared =>
    if (t.get p).isNone then t.set (some (.dir ⟨.other, shared, none⟩)) p else t
  | remove p =>
    match t.get p with
    | some e => if e.owner = .other then t.set none p else t
    | none => t
  | write p content =>
    match t.get p with
    | some (.file f) =>
      if mayWrite .other f.owner f.shared then t.set (some (.file { f with content := content })) p
      else t
    | _ => t
  | put content =>
    match t.artifact with
    | some (.dir d) =>
      if mayWrite .other d.owner d.shared then
        { t with
          artifact := some (.dir { d with shyake := content.map (⟨t.inode, .other, true, ·⟩) })
          inode := t.inode + 1 }
      else t
    | _ => t
  | writeShyake content =>
    match t.artifact with
    | some (.dir ⟨owner, shared, some f⟩) =>
      if mayWrite .other f.owner f.shared then
        { t with artifact := some (.dir ⟨owner, shared, some { f with content := content }⟩) }
      else t
    | _ => t

def interfere (t : Tmp) (ops : List Op) : Tmp := ops.foldl Op.run t

/-! ## The steps of the update -/

/-- `fopen(tmp_path, "wb")`, under a umask that leaves others no right to write. -/
def fopenWb (t : Tmp) : Option (Nat × Tmp) :=
  match t.asset with
  | none =>
    some (t.inode, { t with
      asset := some (.file ⟨t.inode, .user, false, []⟩)
      inode := t.inode + 1 })
  | some (.file f) =>
    if mayWrite .user f.owner f.shared then
      some (f.inode, { t with asset := some (.file { f with content := [] }) })
    else none
  | some (.dir _) => none

/-- A piece written at an offset of the file. -/
def overlay (content : Bytes) (offset : Nat) (piece : Bytes) : Bytes :=
  content.take offset ++ List.replicate (offset - content.length) 0 ++ piece ++
    content.drop (offset + piece.length)

/-- `fwrite` to the file that was opened. It may not be the one at the path any more. -/
def fwrite (t : Tmp) (handle offset : Nat) (piece : Bytes) : Tmp :=
  match t.asset with
  | some (.file f) =>
    if f.inode = handle then
      { t with asset := some (.file { f with content := overlay f.content offset piece }) }
    else t
  | _ => t

/-- The pieces of the download, each with what others do after it. -/
def fwriteAll (t : Tmp) (handle offset : Nat) : List (Bytes × List Op) → Tmp
  | [] => t
  | (piece, ops) :: pieces =>
    fwriteAll (interfere (fwrite t handle offset piece) ops) handle (offset + piece.length) pieces

/-- `read_file`. -/
def readFile (t : Tmp) : Option Bytes :=
  match t.asset with
  | some (.file f) => some f.content
  | _ => none

/-- The comparison of `verify_sha256`. -/
def MatchesDigest (expected_hex data : Bytes) : Prop :=
  expected_hex.length = 64 ∧
    expected_hex.map tolower = (Go.hexEncode (Lib.sha256 data)).map tolower

instance (expected_hex data : Bytes) : Decidable (MatchesDigest expected_hex data) :=
  inferInstanceAs (Decidable (_ ∧ _))

/-- The file of that name in what an archive holds. A later one replaces an earlier. -/
def member (files : List (Bytes × Bytes)) (name : Bytes) : Option Bytes :=
  (files.filter (·.1 = name)).getLast?.map (·.2)

/-- `<artifact>/shyake`. -/
def memberName (artifact : Bytes) : Bytes := artifact ++ utf8 "/shyake"

/-- What `tar` puts at `/tmp/<artifact>/shyake`. -/
def unpack (t : Tmp) (content : Option Bytes) : Option Tmp :=
  match content with
  | none => some t
  | some content =>
    let file : TmpFile := ⟨t.inode, .user, false, content⟩
    let put (d : TmpDir) : Tmp :=
      { t with artifact := some (.dir { d with shyake := some file }), inode := t.inode + 1 }
    match t.artifact with
    | none => some (put ⟨.user, false, none⟩)
    | some (.dir d) => if mayWrite .user d.owner d.shared then some (put d) else none
    | some (.file f) => if f.owner = .user then some (put ⟨.user, false, none⟩) else none

/-- `cp` ends, cannot open its target, or fails behind so many bytes. -/
inductive Cp where
  | whole
  | refused
  | cut (n : Nat)

/-- What the calls of one `cli_self_update` come to, and what others do before each. -/
structure UpdateCalls where
  curl : Bool
  beforeOpen : List Op
  pieces : List (Bytes × List Op)
  /-- `CURLE_OK` and 200. -/
  downloaded : Bool
  beforeHash : List Op
  /-- The path of the installed program is found, and fits into the command. -/
  selfPath : Bool
  beforeTar : List Op
  tar : Bool
  beforeCp : List Op
  cp : Cp
  chmod : Bool
  beforeRm : List Op
  rm : Bool

inductive Update where
  | failed
  | alreadyLatest
  | updated
  deriving DecidableEq

/-- What it returns. -/
def Update.ret : Update → Int
  | failed => -1
  | alreadyLatest => 0
  | updated => 0

variable (untar : Bytes → Option (List (Bytes × Bytes))) (artifact : Bytes)

/-- `rm -rf '/tmp/<artifact>'`. -/
def rmRf (t : Tmp) (calls : UpdateCalls) : Bool :=
  match t.artifact with
  | none => true
  | some e => decide (e.owner = .user) && calls.rm

/-- The chain of `extract_cmd`, and the installed program after it. -/
def install (calls : UpdateCalls) (t : Tmp) (binary : Bytes) : Update × Bytes :=
  let t := interfere t calls.beforeTar
  match (readFile t).bind untar with
  | none => (.failed, binary)
  | some files =>
    match unpack t (member files (memberName artifact)) with
    | none => (.failed, binary)
    | some t =>
      if calls.tar = false then (.failed, binary)
      else
        let t := interfere t calls.beforeCp
        match t.artifact with
        | some (.dir ⟨_, _, some f⟩) =>
          match calls.cp with
          | .refused => (.failed, binary)
          | .cut n => (.failed, f.content.take n)
          | .whole =>
            if calls.chmod ∧ rmRf (interfere t calls.beforeRm) calls then (.updated, f.content)
            else (.failed, f.content)
        | _ => (.failed, binary)

/-- `target`, with the digest announced for it. -/
def announced (info : CliVersionInfo) : CliUpdateChannel → Option Bytes × Option Bytes
  | .PREVIEW => (info.pre_release, info.pre_release_digest)
  | .STABLE => (info.release, info.release_digest)

/-- From `download_to_tmp` on. -/
def downloadAndInstall (calls : UpdateCalls) (digest : Bytes) (t : Tmp) (binary : Bytes) :
    Update × Bytes :=
  if calls.curl = false then (.failed, binary)
  else
    match fopenWb (interfere t calls.beforeOpen) with
    | none => (.failed, binary)
    | some (handle, t) =>
      let t := fwriteAll t handle 0 calls.pieces
      if calls.downloaded = false then (.failed, binary)
      else
        let t := interfere t calls.beforeHash
        match readFile t with
        | none => (.failed, binary)
        | some data =>
          if MatchesDigest digest data then
            if calls.selfPath = false then (.failed, binary)
            else install untar artifact calls t binary
          else (.failed, binary)

variable (parse : Bytes → Option Json)

/-- `cli_self_update`: how it ends, and the installed program then. -/
def cliSelfUpdate (answer : Option (Nat × Bytes)) (current_version : Option Bytes)
    (channel : CliUpdateChannel) (calls : UpdateCalls) (t : Tmp) (binary : Bytes) :
    Update × Bytes :=
  match cliGetLatestVersion parse artifact answer with
  | none => (.failed, binary)
  | some info =>
    match info.release, (announced info channel).1 with
    | some release, some target =>
      if channel = .PREVIEW ∧ cliVersionCmp target release ≤ 0 then (.failed, binary)
      else if current_version = some target then (.alreadyLatest, binary)
      else
        match (announced info channel).2 with
        | none => (.failed, binary)
        | some digest => downloadAndInstall untar artifact calls digest t binary
    | _, _ => (.failed, binary)

/-- The installed program is from an archive with the announced digest if it was replaced, and
otherwise it is the one from before. -/
structure InstallsVerified (answer : Option (Nat × Bytes)) (channel : CliUpdateChannel)
    (binary : Bytes) (ended : Update × Bytes) : Prop where
  updated : ended.1 = .updated → ∃ info digest archive files,
    cliGetLatestVersion parse artifact answer = some info ∧
    (announced info channel).2 = some digest ∧ MatchesDigest digest archive ∧
    untar archive = some files ∧ member files (memberName artifact) = some ended.2
  other : ended.1 ≠ .updated → ended.2 = binary

/-! ## What others cannot do -/

/-- An entry of the user that nobody else can write to or below. -/
def Private : Entry → Prop
  | .file f => f.owner = .user ∧ f.shared = false
  | .dir d => d.owner = .user ∧ d.shared = false ∧
    ∀ f ∈ d.shyake, f.owner = .user ∧ f.shared = false

/-- All that is at the two paths is private. -/
def Tmp.Closed (t : Tmp) : Prop := ∀ p, ∀ e ∈ t.get p, Private e

def Op.Creates : Op → Prop
  | createFile _ _ _ => True
  | mkdir _ _ => True
  | _ => False

section

variable {t : Tmp}

theorem not_mayWrite {f : TmpFile} (h : f.owner = .user ∧ f.shared = false) :
    mayWrite .other f.owner f.shared = false := by
  rw [h.1, h.2]
  rfl

/-- Behind closed paths others can do nothing but create what is not there. -/
theorem run_of_closed (closed : t.Closed) {o : Op} (quiet : ¬ o.Creates) : o.run t = t := by
  cases o with
  | createFile p shared content => exact absurd trivial quiet
  | mkdir p shared => exact absurd trivial quiet
  | remove p =>
    simp only [Op.run]
    split
    · rename_i e found
      have owner : e.owner = .user := by
        have mine := closed p e found
        cases e with
        | file f => exact mine.1
        | dir d => exact mine.1
      rw [owner, if_neg (by decide)]
    · rfl
  | write p content =>
    simp only [Op.run]
    split
    · rename_i f found
      rw [not_mayWrite (closed p _ found)]
      rfl
    · rfl
  | put content =>
    simp only [Op.run]
    split
    · rename_i d found
      obtain ⟨owner, shared, -⟩ := closed .artifact _ found
      rw [owner, shared]
      rfl
    · rfl
  | writeShyake content =>
    simp only [Op.run]
    split
    · rename_i owner shared f found
      rw [not_mayWrite ((closed .artifact _ found).2.2 f rfl)]
      rfl
    · rfl

theorem interfere_of_closed (closed : t.Closed) {ops : List Op} (quiet : ∀ o ∈ ops, ¬ o.Creates) :
    interfere t ops = t := by
  induction ops with
  | nil => rfl
  | cons o ops ih =>
    unfold interfere at ih ⊢
    rw [List.foldl_cons, run_of_closed closed (quiet o List.mem_cons_self)]
    exact ih fun o' mem => quiet o' (List.mem_cons_of_mem o mem)

/-- The download is in a file of the user, and `/tmp/<artifact>` is not there yet. -/
structure Downloading (t : Tmp) : Prop where
  asset : ∃ f, t.asset = some (.file f) ∧ f.owner = .user ∧ f.shared = false
  artifact : t.artifact = none

theorem Downloading.closed (h : Downloading t) : t.Closed := by
  obtain ⟨⟨f, asset, mine⟩, artifact⟩ := h
  intro p e found
  cases p with
  | asset =>
    obtain rfl := Option.some.inj (asset.symm.trans found)
    exact mine
  | artifact => exact absurd (artifact.symm.trans found) nofun

theorem Downloading.fopen (closed : t.Closed) (artifact : t.artifact = none) {handle : Nat}
    {t' : Tmp} (opened : fopenWb t = some (handle, t')) : Downloading t' := by
  unfold fopenWb at opened
  split at opened
  · obtain ⟨rfl, rfl⟩ := Prod.mk.inj (Option.some.inj opened)
    exact ⟨⟨_, rfl, rfl, rfl⟩, artifact⟩
  · rename_i f found
    obtain ⟨owner, shared⟩ := closed .asset _ found
    split at opened
    · obtain ⟨rfl, rfl⟩ := Prod.mk.inj (Option.some.inj opened)
      exact ⟨⟨_, rfl, owner, shared⟩, artifact⟩
    · cases opened
  · cases opened

theorem Downloading.fwrite (h : Downloading t) (handle offset : Nat) (piece : Bytes) :
    Downloading (fwrite t handle offset piece) := by
  obtain ⟨⟨f, asset, mine⟩, artifact⟩ := h
  unfold Client.fwrite
  rw [asset]
  dsimp only
  split
  · exact ⟨⟨_, rfl, mine⟩, artifact⟩
  · exact ⟨⟨f, asset, mine⟩, artifact⟩

theorem Downloading.fwriteAll (h : Downloading t) (handle offset : Nat)
    {pieces : List (Bytes × List Op)} (quiet : ∀ p ∈ pieces, ∀ o ∈ p.2, ¬ o.Creates) :
    Downloading (fwriteAll t handle offset pieces) := by
  induction pieces generalizing t offset with
  | nil => exact h
  | cons p pieces ih =>
    have written := h.fwrite handle offset p.1
    have same := interfere_of_closed written.closed (quiet p List.mem_cons_self)
    unfold Client.fwriteAll
    rw [same]
    exact ih written _ fun q mem => quiet q (List.mem_cons_of_mem p mem)

end

/-! ## Undisturbed updates -/

/-- Nothing of another user is at the two paths and nothing comes there, nothing of an earlier
update is left, and what begins to replace the program succeeds. -/
structure Undisturbed (calls : UpdateCalls) (t : Tmp) : Prop where
  closed : t.Closed
  artifact : t.artifact = none
  beforeOpen : ∀ o ∈ calls.beforeOpen, ¬ o.Creates
  pieces : ∀ p ∈ calls.pieces, ∀ o ∈ p.2, ¬ o.Creates
  beforeHash : ∀ o ∈ calls.beforeHash, ¬ o.Creates
  beforeTar : ∀ o ∈ calls.beforeTar, ¬ o.Creates
  beforeCp : ∀ o ∈ calls.beforeCp, ¬ o.Creates
  beforeRm : ∀ o ∈ calls.beforeRm, ¬ o.Creates
  cp : calls.cp = .refused ∨ calls.cp = .whole ∧ calls.chmod = true ∧ calls.rm = true

section

variable {calls : UpdateCalls} {t t₀ : Tmp} {binary : Bytes}

/-- Unpacking where nothing was leaves a directory of the user, or nothing. -/
theorem unpack_of_absent (down : Downloading t) (content : Option Bytes) :
    ∃ t', unpack t content = some t' ∧ t'.Closed ∧
      t'.artifact = content.map fun c => .dir ⟨.user, false, some ⟨t.inode, .user, false, c⟩⟩ := by
  unfold unpack
  cases content with
  | none => exact ⟨t, rfl, down.closed, down.artifact⟩
  | some c =>
    rw [down.artifact]
    refine ⟨_, rfl, fun p e found => ?_, rfl⟩
    cases p with
    | asset => exact down.closed .asset e found
    | artifact =>
      obtain rfl := Option.some.inj found
      refine ⟨rfl, rfl, ?_⟩
      rintro f ⟨⟩
      exact ⟨rfl, rfl⟩

/-- The chain installs the member of the archive that was hashed, or nothing. -/
theorem install_verified {data digest : Bytes} (h : Undisturbed calls t₀) (down : Downloading t)
    (data_read : readFile t = some data) (good : MatchesDigest digest data) :
    ((install untar artifact calls t binary).1 = .updated → ∃ archive files,
      MatchesDigest digest archive ∧ untar archive = some files ∧
        member files (memberName artifact) = some (install untar artifact calls t binary).2) ∧
    ((install untar artifact calls t binary).1 ≠ .updated →
      (install untar artifact calls t binary).2 = binary) := by
  unfold install
  rw [interfere_of_closed down.closed h.beforeTar]
  dsimp only
  rw [data_read, Option.bind_some]
  cases unpacked : untar data with
  | none => exact ⟨nofun, fun _ => rfl⟩
  | some files =>
    obtain ⟨t', there, closed, entry⟩ :=
      unpack_of_absent down (member files (memberName artifact))
    dsimp only
    rw [there]
    dsimp only
    by_cases tar : calls.tar = false
    · rw [if_pos tar]
      exact ⟨nofun, fun _ => rfl⟩
    rw [if_neg tar, interfere_of_closed closed h.beforeCp, entry]
    cases found : member files (memberName artifact) with
    | none => exact ⟨nofun, fun _ => rfl⟩
    | some content =>
      rw [found] at entry
      dsimp only [Option.map_some]
      rcases h.cp with refused | ⟨whole, chmod, rm⟩
      · rw [refused]
        exact ⟨nofun, fun _ => rfl⟩
      · have removed : rmRf (interfere t' calls.beforeRm) calls = true := by
          unfold rmRf
          rw [interfere_of_closed closed h.beforeRm, entry, rm]
          rfl
        rw [whole, removed, chmod]
        exact ⟨fun _ => ⟨data, files, good, unpacked, found⟩, fun other => absurd rfl other⟩

end

namespace Sample

def linux : Bytes := utf8 "shyake-linux-x86_64"

/-- The only archive there is: one byte, with a program of one byte in it. -/
def untarOne (archive : Bytes) : Option (List (Bytes × Bytes)) :=
  if archive = [1] then some [(memberName linux, [2])] else none

/-- The latest release, with the digest of that archive. -/
def parseLatest (_ : Bytes) : Option Json :=
  some (.object [(utf8 "release", .string (utf8 "v0.2.0")),
    (utf8 "release_digests", .object [(linux ++ utf8 ".tar.gz",
      .string (utf8 "4bf5122f344554c53bde2ebb8cd2b7e3d1600ad631c385a5d7cce23c7785459a"))])])

/-- Everything succeeds, and nobody else does anything. -/
def calm : UpdateCalls where
  curl := true
  beforeOpen := []
  pieces := [([1], [])]
  downloaded := true
  beforeHash := []
  selfPath := true
  beforeTar := []
  tar := true
  beforeCp := []
  cp := .whole
  chmod := true
  beforeRm := []
  rm := true

def emptyTmp : Tmp := ⟨none, none, 0⟩

/-- Another user has made the directory, swaps the program in it and takes the directory away. -/
def swapped : UpdateCalls :=
  { calm with
    beforeOpen := [.mkdir .artifact true]
    beforeCp := [.put (some [3])]
    beforeRm := [.remove .artifact] }

end Sample

end Shyake.Client
