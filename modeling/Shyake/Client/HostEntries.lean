import Shyake.Client.KnownHosts

/-!
# The entries of `known_hosts`

Whatever is in the file, it is read as a list of entries. While it ends with a line, what is added
comes behind them, and an update keeps those of other users, if their fields fit a line.
-/

namespace Shyake.Client

open Lines (fgets fgetsFrom Whole)

/-- The entries that are read, each a user, a fingerprint and a key. -/
def hostEntries (text : Bytes) : List (Bytes × Bytes × Bytes) :=
  (fgets 8192 text).filterMap fun line => scanHost (cstr line)

/-- The key of the first entry. -/
def firstKey (entries : List (Bytes × Bytes × Bytes)) (username : Bytes) : Option Bytes :=
  (entries.find? fun e => e.1 = username).map fun e => e.2.2

theorem getKnownHost_eq (file : Option Bytes) (username : Bytes) :
    getKnownHost file username = firstKey (hostEntries (file.getD [])) username := by
  unfold getKnownHost hostEntries
  induction fgets 8192 (file.getD []) with
  | nil => rfl
  | cons line lines ih =>
    rw [List.findSome?_cons, List.filterMap_cons]
    cases scanHost (cstr line) with
    | none => exact ih
    | some e =>
      dsimp only
      by_cases same : e.1 = username
      · rw [if_pos same, firstKey, List.find?_cons_of_pos (by simpa using same)]
        rfl
      · rw [if_neg same, firstKey, List.find?_cons_of_neg (by simpa using same)]
        exact ih

theorem hostEntries_append {s : Bytes} (h : Whole s) (t : Bytes) :
    hostEntries (s ++ t) = hostEntries s ++ hostEntries t := by
  unfold hostEntries
  rw [Lines.fgets_append h, List.filterMap_append]

theorem firstKey_append (es fs : List (Bytes × Bytes × Bytes)) (username : Bytes) :
    firstKey (es ++ fs) username = (firstKey es username).or (firstKey fs username) := by
  unfold firstKey
  rw [List.find?_append, Option.map_or]

theorem firstKey_filter (es : List (Bytes × Bytes × Bytes)) {name username : Bytes}
    (other : username ≠ name) :
    firstKey (es.filter fun e => e.1 ≠ name) username = firstKey es username := by
  unfold firstKey
  rw [List.find?_filter]
  congr 2
  funext e
  by_cases here : e.1 = username
  · simp [here, other]
  · simp [here]

/-! ## A line with blanks around its key -/

theorem scanString_blanks {width : Nat} {b : Bytes} (blank : ∀ c ∈ b, isspace c = true) (s : Bytes) :
    scanString width (b ++ s) = scanString width s := by
  induction b with
  | nil => rfl
  | cons c b ih =>
    rw [List.cons_append, scanString_space (blank c List.mem_cons_self)]
    exact ih fun d mem => blank d (List.mem_cons_of_mem c mem)

theorem scanString_last {t : Bytes} (h : Token t) {width : Nat} (fits : t.length ≤ width) {s : Bytes}
    (blank : ∀ c ∈ s, isspace c = true) : scanString width (t ++ s) = some (t, s) := by
  cases s with
  | cons sep s => exact scanString_eq h fits (blank sep List.mem_cons_self) s
  | nil =>
    have all : t.takeWhile (fun c => !isspace c) = t :=
      List.takeWhile_eq_self_iff.mpr fun c mem => by simp [(h.2 c mem).1]
    have start : t.dropWhile isspace = t := by
      obtain ⟨filled, solid⟩ := h
      cases t with
      | nil => exact absurd rfl filled
      | cons c t => exact List.dropWhile_cons_of_neg (by simp [(solid c List.mem_cons_self).1])
    unfold scanString
    dsimp only
    rw [List.append_nil, start, all, List.take_of_length_le fits, if_neg h.1, List.drop_length]

/-- There is nothing on a blank line. -/
theorem scanHost_blank {line : Bytes} (blank : ∀ c ∈ line, isspace c = true) :
    scanHost line = none := by
  have nothing : scanString 255 line = none := by
    rw [← List.append_nil line, scanString_blanks blank]
    rfl
  unfold scanHost
  rw [nothing]
  rfl

theorem blank_nulFree {b : Bytes} (blank : ∀ c ∈ b, isspace c = true) : NulFree b := by
  intro mem
  cases blank 0 mem

section

variable {user fp before pk after : Bytes} (hu : Token user) (hf : Token fp) (hp : Token pk)
  (lu : user.length ≤ 255) (lf : fp.length ≤ 255)

include hu hf hp lu lf

/-- The key may stand behind blanks, and have blanks behind it. -/
theorem scanHost_padded (lp : pk.length ≤ 8191) (front : ∀ c ∈ before, isspace c = true)
    (blank : ∀ c ∈ after, isspace c = true) :
    scanHost (user ++ 32 :: fp ++ 32 :: before ++ pk ++ after) = some (user, fp, pk) := by
  have space : isspace 32 = true := rfl
  have text : user ++ 32 :: fp ++ 32 :: before ++ pk ++ after =
      user ++ 32 :: (fp ++ 32 :: (before ++ (pk ++ after))) := by simp
  unfold scanHost
  rw [text, scanString_eq hu lu space, Option.bind_eq_bind, Option.bind_some]
  dsimp only
  rw [scanString_space space, scanString_eq hf lf space, Option.bind_some]
  dsimp only
  rw [scanString_space space, scanString_blanks front, scanString_last hp lp blank, Option.bind_some]

/-- If the key ends within the buffer, the line is read as one entry, and what else is read of it is
blank. -/
theorem hostEntries_hostLine (front : ∀ c ∈ before, c = 32 ∨ c = 9)
    (back : ∀ c ∈ after, isspace c = true)
    (fits : user.length + fp.length + before.length + pk.length + 2 ≤ 8191) :
    hostEntries (hostLine user fp (before ++ pk ++ after)) = [(user, fp, pk)] := by
  have newline : isspace 10 = true ∨ (10 : UInt8) = 0 := .inl rfl
  have zero : isspace 0 = true ∨ (0 : UInt8) = 0 := .inr rfl
  have frontBlank : ∀ c ∈ before, isspace c = true := by
    intro c mem
    rcases front c mem with rfl | rfl <;> rfl
  have noNewline : 10 ∉ user ++ 32 :: fp ++ 32 :: before ++ pk := by
    simp only [List.mem_append, List.mem_cons, not_or]
    refine ⟨⟨⟨notMem_of_token hu newline, by decide, notMem_of_token hf newline⟩, by decide, ?_⟩,
      notMem_of_token hp newline⟩
    intro mem
    rcases front 10 mem with no | no <;> cases no
  have length : (user ++ 32 :: fp ++ 32 :: before ++ pk).length ≤ 8191 := by
    simp only [List.length_append, List.length_cons]
    omega
  obtain ⟨s₁, s₂, parts, read⟩ := Lines.fgetsFrom_piece 8191 noNewline (by simp) length
    (after ++ [10])
  have blank : ∀ c ∈ s₁ ++ s₂, isspace c = true := by
    intro c mem
    rw [← parts] at mem
    rcases List.mem_append.mp mem with mem | mem
    · exact back c mem
    · rw [List.mem_singleton.mp mem]
      rfl
  have blank₁ : ∀ c ∈ s₁, isspace c = true := fun c mem => blank c (List.mem_append_left _ mem)
  have nulFree : NulFree (user ++ 32 :: fp ++ 32 :: before ++ pk ++ s₁) := by
    unfold NulFree
    simp only [List.mem_append, List.mem_cons, not_or]
    exact ⟨⟨⟨⟨notMem_of_token hu zero, by decide, notMem_of_token hf zero⟩, by decide,
      blank_nulFree frontBlank⟩, notMem_of_token hp zero⟩, blank_nulFree blank₁⟩
  have rest : ((fgetsFrom 8191 8191 s₂).filterMap fun line => scanHost (cstr line)) = [] := by
    rw [List.filterMap_eq_nil_iff]
    intro line mem
    apply scanHost_blank
    intro c here
    apply blank c
    apply List.mem_append_right
    rw [← Lines.flatten_fgetsFrom 8191 8191 s₂]
    exact List.mem_flatten.mpr ⟨line, mem, List.takeWhile_subset _ here⟩
  have text : hostLine user fp (before ++ pk ++ after) =
      user ++ 32 :: fp ++ 32 :: before ++ pk ++ (after ++ [10]) := by
    simp [hostLine]
  unfold hostEntries fgets
  rw [text, show 8192 - 1 = 8191 from rfl, read, List.filterMap_cons, cstr_of_nulFree nulFree,
    scanHost_padded hu hf hp lu lf (by omega) frontBlank blank₁, rest]

end

/-! ## An update -/

theorem scanString_token {width : Nat} {s t rest : Bytes} (nulFree : NulFree s)
    (h : scanString width s = some (t, rest)) : Token t ∧ t.length ≤ width ∧ NulFree rest := by
  have sub : ∀ c ∈ s.dropWhile isspace, c ∈ s := List.dropWhile_subset _
  unfold scanString at h
  dsimp only at h
  split at h
  · cases h
  · rename_i filled
    cases h
    refine ⟨⟨filled, fun c mem => ?_⟩, List.length_take_le _ _, fun mem => ?_⟩
    · have field := List.mem_of_mem_take mem
      have solid : ¬isspace c = true := by simpa using List.mem_takeWhile_imp field
      refine ⟨by simpa using solid, ?_⟩
      rintro rfl
      exact nulFree (sub 0 (List.takeWhile_subset _ field))
    · exact nulFree (sub 0 (List.mem_of_mem_drop mem))

/-- An entry whose fields are words, the first two of them not too long. -/
structure Words (e : Bytes × Bytes × Bytes) : Prop where
  user : Token e.1
  fp : Token e.2.1
  pk : Token e.2.2
  userFits : e.1.length ≤ 255
  fpFits : e.2.1.length ≤ 255

/-- With the blanks between them, the fields fit the buffer. -/
def EntryFits (e : Bytes × Bytes × Bytes) : Prop :=
  e.1.length + e.2.1.length + e.2.2.length + 2 ≤ 8191

theorem nulFree_cstr (s : Bytes) : NulFree (cstr s) := by
  intro mem
  have := List.mem_takeWhile_imp mem
  cases this

theorem words_of_mem {text : Bytes} {e : Bytes × Bytes × Bytes} (h : e ∈ hostEntries text) :
    Words e := by
  obtain ⟨line, -, scan⟩ := List.mem_filterMap.mp h
  unfold scanHost at scan
  obtain ⟨⟨user, s⟩, first, scan⟩ := Option.bind_eq_some_iff.mp scan
  obtain ⟨⟨fp, s'⟩, second, scan⟩ := Option.bind_eq_some_iff.mp scan
  obtain ⟨⟨pk, s''⟩, third, scan⟩ := Option.bind_eq_some_iff.mp scan
  cases scan
  obtain ⟨hu, lu, free⟩ := scanString_token (nulFree_cstr line) first
  obtain ⟨hf, lf, free'⟩ := scanString_token free second
  obtain ⟨hp, -, -⟩ := scanString_token free' third
  exact ⟨hu, hf, hp, lu, lf⟩

theorem whole_hostLine (user fp pk : Bytes) : Whole (hostLine user fp pk) := .inr ⟨_, rfl⟩

/-- The lines of the entries. -/
def entryLines (es : List (Bytes × Bytes × Bytes)) : Bytes :=
  es.flatMap fun e => hostLine e.1 e.2.1 e.2.2

theorem whole_entryLines (es : List (Bytes × Bytes × Bytes)) : Whole (entryLines es) := by
  induction es with
  | nil => exact .inl rfl
  | cons e es ih => exact (whole_hostLine _ _ _).append ih

/-- Entries that fit are read as they are written. -/
theorem hostEntries_entryLines {es : List (Bytes × Bytes × Bytes)} (words : ∀ e ∈ es, Words e)
    (fits : ∀ e ∈ es, EntryFits e) : hostEntries (entryLines es) = es := by
  induction es with
  | nil => rfl
  | cons e es ih =>
    obtain ⟨hu, hf, hp, lu, lf⟩ := words e List.mem_cons_self
    have fit : e.1.length + e.2.1.length + e.2.2.length + 2 ≤ 8191 := fits e List.mem_cons_self
    have line : hostEntries (hostLine e.1 e.2.1 ([] ++ e.2.2 ++ [])) = [(e.1, e.2.1, e.2.2)] :=
      hostEntries_hostLine hu hf hp lu lf (by simp) (by simp) (by simpa using fit)
    rw [List.nil_append, List.append_nil] at line
    rw [entryLines, List.flatMap_cons, hostEntries_append (whole_hostLine _ _ _), line]
    exact congrArg (e :: ·) (ih (fun x mem => words x (List.mem_cons_of_mem e mem))
      fun x mem => fits x (List.mem_cons_of_mem e mem))

/-- The entries of other users are written again, and the new one behind them. -/
theorem updateKnownHost_eq (file : Option Bytes) (username fp pk : Bytes) :
    updateKnownHost file username fp pk =
      entryLines ((hostEntries (file.getD [])).filter fun e => e.1 ≠ username) ++
        hostLine username fp pk := by
  unfold updateKnownHost hostEntries
  congr 1
  induction fgets 8192 (file.getD []) with
  | nil => rfl
  | cons line lines ih =>
    rw [List.flatMap_cons, List.filterMap_cons, ih]
    cases scanHost (cstr line) with
    | none => rfl
    | some e =>
      dsimp only
      by_cases same : e.1 = username
      · rw [if_neg (by simpa using same), List.filter_cons_of_neg (by simpa using same)]
        rfl
      · rw [if_pos same, List.filter_cons_of_pos (by simpa using same)]
        rfl

theorem hostEntries_updateKnownHost {file : Option Bytes} (username fp pk : Bytes)
    (fits : ∀ e ∈ hostEntries (file.getD []), EntryFits e) :
    hostEntries (updateKnownHost file username fp pk) =
      (hostEntries (file.getD [])).filter (fun e => e.1 ≠ username) ++
        hostEntries (hostLine username fp pk) := by
  rw [updateKnownHost_eq, hostEntries_append (whole_entryLines _),
    hostEntries_entryLines (fun e mem => words_of_mem (List.mem_of_mem_filter mem))
      fun e mem => fits e (List.mem_of_mem_filter mem)]

end Shyake.Client
