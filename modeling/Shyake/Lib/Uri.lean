import Shyake.Lib.Bytes

/-!
# URI syntax (RFC 3986)

`Uri.parse` takes a URI apart at its delimiters and checks each part against the grammar.
An authority with an IP literal is not parsed.
-/

namespace Shyake.Lib

namespace Uri

/-! ## Characters -/

/-- `unreserved`. -/
def unreserved (c : UInt8) : Bool :=
  isLower c || isUpper c || isDigit c || (utf8 "-._~").contains c

/-- `sub-delims`. -/
def subDelim (c : UInt8) : Bool := [33, 36, 38, 39, 40, 41, 42, 43, 44, 59, 61].contains c

/-- `HEXDIG`, in either case. -/
def hexdig (c : UInt8) : Bool := isDigit c || (97 ≤ c && c ≤ 102) || (65 ≤ c && c ≤ 70)

/-- Unreserved characters, delimiters of the components, some extra ones, and percent-encoded
bytes. -/
def encoded (extra : Bytes) : Bytes → Bool
  | [] => true
  | c :: s =>
    if c = 37 then
      match s with
      | h :: l :: s => hexdig h && hexdig l && encoded extra s
      | _ => false
    else (unreserved c || subDelim c || extra.contains c) && encoded extra s

/-- `scheme`. -/
def isScheme (s : Bytes) : Bool :=
  s.head?.any (fun c => isLower c || isUpper c) &&
    s.all fun c => isLower c || isUpper c || isDigit c || (utf8 "+-.").contains c

/-! ## Parts -/

structure Authority where
  userinfo : Option Bytes
  /-- A registered name or an IPv4 address. -/
  host : Bytes
  port : Option Bytes
  deriving DecidableEq

namespace Authority

def text (a : Authority) : Bytes :=
  (a.userinfo.elim [] (· ++ [64])) ++ a.host ++ a.port.elim [] (58 :: ·)

/-- A host with or without a port. -/
def parseHost (userinfo : Option Bytes) (text : Bytes) : Option Authority :=
  let (host, port) := Bytes.cut 58 text
  if encoded [] host && port.all (·.all isDigit) then some ⟨userinfo, host, port⟩ else none

/-- Neither a host nor a port holds an "@". -/
def parse (text : Bytes) : Option Authority :=
  match Bytes.cut 64 text with
  | (text, none) => parseHost none text
  | (userinfo, some text) => if encoded [58] userinfo then parseHost (some userinfo) text else none

end Authority

end Uri

structure Uri where
  scheme : Bytes
  authority : Option Uri.Authority
  path : Bytes
  query : Option Bytes
  fragment : Option Bytes
  deriving DecidableEq

namespace Uri

/-- `hier-part`: the authority and the path. -/
def parseHier : Bytes → Option (Option Authority × Bytes)
  | 47 :: 47 :: rest => do
    let authority ← Authority.parse (rest.takeWhile (· != 47))
    some (some authority, rest.dropWhile (· != 47))
  | path => some (none, path)

def parse (text : Bytes) : Option Uri :=
  let (text, fragment) := Bytes.cut 35 text
  let (text, query) := Bytes.cut 63 text
  match Bytes.cut 58 text with
  | (_, none) => none
  | (scheme, some hier) => do
    let (authority, path) ← parseHier hier
    if isScheme scheme && encoded (utf8 ":@/") path && query.all (encoded (utf8 ":@/?")) &&
        fragment.all (encoded (utf8 ":@/?")) then
      some ⟨scheme, authority, path, query, fragment⟩
    else none

/-! ## What is parsed -/

/-- What a check of every character says. -/
theorem forall_of_all {p : UInt8 → Prop} [DecidablePred p] {s : Bytes}
    (h : s.all (fun c => decide (p c)) = true) : ∀ c ∈ s, p c :=
  fun c mem => of_decide_eq_true (List.all_eq_true.mp h c mem)

/-- Characters that need no encoding. -/
theorem encoded_of_chars {extra s : Bytes}
    (chars : ∀ c ∈ s, c ≠ 37 ∧ (unreserved c || subDelim c || extra.contains c) = true) :
    encoded extra s = true := by
  induction s with
  | nil => rfl
  | cons c s ih =>
    obtain ⟨plain, here⟩ := chars c List.mem_cons_self
    unfold encoded
    rw [if_neg plain, here, ih fun x mem => chars x (List.mem_cons_of_mem _ mem)]
    rfl

theorem unreserved_of_hexdig {c : UInt8} (h : hexdig c = true) : unreserved c = true := by
  unfold hexdig at h
  unfold unreserved isLower isUpper
  simp only [Bool.or_eq_true, Bool.and_eq_true, decide_eq_true_eq, UInt8.le_iff_toNat_le] at h ⊢
  rcases h with (digit | ⟨low, high⟩) | ⟨low, high⟩
  · exact .inl (.inr digit)
  · exact .inl (.inl (.inl ⟨low, high.trans (by decide)⟩))
  · exact .inl (.inl (.inr ⟨low, high.trans (by decide)⟩))

theorem chars_of_encoded {extra s : Bytes} (h : encoded extra s = true) :
    ∀ c ∈ s, (unreserved c || subDelim c || extra.contains c || c == 37) = true := by
  fun_induction encoded extra s with
  | case1 => exact nofun
  | case2 h l s ih =>
    simp only [Bool.and_eq_true] at h
    obtain ⟨⟨high, low⟩, rest⟩ := h
    have hex {x : UInt8} (hx : hexdig x = true) :
        (unreserved x || subDelim x || extra.contains x || x == 37) = true := by
      rw [unreserved_of_hexdig hx]
      rfl
    intro c mem
    rcases List.mem_cons.mp mem with rfl | mem
    · simp
    rcases List.mem_cons.mp mem with rfl | mem
    · exact hex high
    rcases List.mem_cons.mp mem with rfl | mem
    · exact hex low
    · exact ih rest c mem
  | case3 => cases h
  | case4 c s plain ih =>
    simp only [Bool.and_eq_true] at h
    intro x mem
    rcases List.mem_cons.mp mem with rfl | mem
    · rw [h.1]
      rfl
    · exact ih h.2 x mem

theorem notMem_of_encoded {extra s : Bytes} (h : encoded extra s = true) {c : UInt8}
    (out : (unreserved c || subDelim c || extra.contains c || c == 37) = false) : c ∉ s :=
  fun mem => absurd (chars_of_encoded h c mem) (by rw [out]; exact Bool.false_ne_true)

namespace Authority

variable {t : Bytes} {a : Authority}

theorem parseHost_spec {userinfo : Option Bytes} (h : parseHost userinfo t = some a) :
    a.userinfo = userinfo ∧ encoded [] a.host = true ∧ a.port.all (·.all isDigit) = true ∧
      t = a.host ++ a.port.elim [] (58 :: ·) := by
  unfold parseHost at h
  dsimp only at h
  split at h
  · rename_i fine
    rw [Bool.and_eq_true] at fine
    cases h
    refine ⟨rfl, fine.1, fine.2, ?_⟩
    rcases (Bytes.cut_spec 58 t).2 with ⟨none, made⟩ | ⟨port, some, made⟩
    · rw [none, Option.elim_none, List.append_nil]
      exact made
    · rw [some, Option.elim_some]
      exact made
  · cases h

/-- Nothing is lost of an authority. -/
theorem parse_spec (h : parse t = some a) :
    a.text = t ∧ a.userinfo.all (encoded [58]) = true ∧ encoded [] a.host = true ∧
      a.port.all (·.all isDigit) = true := by
  unfold parse at h
  unfold text
  split at h
  · rename_i rest cut
    obtain ⟨user, host, port, made⟩ := parseHost_spec h
    have whole : t = rest := by
      rcases (Bytes.cut_spec 64 t).2 with ⟨-, made⟩ | ⟨_, some, -⟩
      · rw [cut] at made
        exact made
      · rw [cut] at some
        cases some
    rw [user, whole, made]
    exact ⟨rfl, rfl, host, port⟩
  · rename_i userinfo rest cut
    split at h
    · rename_i fine
      obtain ⟨user, host, port, made⟩ := parseHost_spec h
      have whole : t = userinfo ++ 64 :: rest := by
        rcases (Bytes.cut_spec 64 t).2 with ⟨none, -⟩ | ⟨_, some, made⟩
        · rw [cut] at none
          cases none
        · rw [cut] at some made
          cases some
          exact made
      rw [user, whole, made]
      refine ⟨?_, fine, host, port⟩
      simp
    · cases h

/-- An authority ends before a slash, a question mark or a hash. -/
theorem notMem_of_parse (h : parse t = some a) {c : UInt8} (ends : c ∈ utf8 "/?#") : c ∉ t := by
  obtain ⟨whole, user, host, port⟩ := parse_spec h
  have out : ∀ c ∈ utf8 "/?#", (unreserved c || subDelim c || [].contains c || c == 37) = false ∧
      (unreserved c || subDelim c || [58].contains c || c == 37) = false ∧ isDigit c = false ∧
      c ≠ 64 ∧ c ≠ 58 :=
    forall_of_all (by decide)
  obtain ⟨inHost, inUser, digit, at_, colon⟩ := out c ends
  rw [← whole]
  unfold text
  simp only [List.mem_append, not_or]
  refine ⟨⟨?_, notMem_of_encoded host inHost⟩, ?_⟩
  · cases here : a.userinfo with
    | none => exact List.not_mem_nil
    | some userinfo =>
      rw [here] at user
      simp only [Option.elim_some, List.mem_append, List.mem_singleton, not_or]
      exact ⟨notMem_of_encoded user inUser, at_⟩
  · cases here : a.port with
    | none => exact List.not_mem_nil
    | some digits =>
      rw [here] at port
      simp only [Option.elim_some, List.mem_cons, not_or]
      refine ⟨colon, fun mem => ?_⟩
      rw [List.all_eq_true.mp port c mem] at digit
      cases digit

end Authority

/-- A scheme, an authority and a path, put together. -/
theorem parse_absolute {scheme authority path : Bytes} {a : Authority}
    (named : isScheme scheme = true) (host : Authority.parse authority = some a)
    (chars : encoded (utf8 ":@/") (47 :: path) = true) :
    parse (scheme ++ utf8 "://" ++ authority ++ 47 :: path) =
      some ⟨scheme, some a, 47 :: path, none, none⟩ := by
  have inScheme (c : UInt8) (mem : c ∈ scheme) :
      (isLower c || isUpper c || isDigit c || (utf8 "+-.").contains c) = true := by
    unfold isScheme at named
    rw [Bool.and_eq_true] at named
    exact List.all_eq_true.mp named.2 c mem
  have notScheme {c : UInt8} (mem : c ∈ utf8 ":?#") : c ∉ scheme := by
    intro there
    have none : ∀ c ∈ utf8 ":?#",
        (isLower c || isUpper c || isDigit c || (utf8 "+-.").contains c) = false :=
      forall_of_all (by decide)
    have := inScheme c there
    rw [none c mem] at this
    cases this
  have notIn {c : UInt8} (mem : c ∈ utf8 "?#") :
      c ∉ scheme ++ utf8 "://" ++ authority ++ 47 :: path := by
    have classes : ∀ c ∈ utf8 "?#", c ∈ utf8 ":?#" ∧ c ∉ utf8 "://" ∧ c ∈ utf8 "/?#" ∧
        (unreserved c || subDelim c || (utf8 ":@/").contains c || c == 37) = false :=
      forall_of_all (by decide)
    obtain ⟨here, slashes, inAuthority, inPath⟩ := classes c mem
    simp only [List.mem_append, not_or]
    exact ⟨⟨⟨notScheme here, slashes⟩, Authority.notMem_of_parse host inAuthority⟩,
      notMem_of_encoded chars inPath⟩
  have hier : parseHier (utf8 "//" ++ authority ++ 47 :: path) = some (some a, 47 :: path) := by
    have stops : ∀ c ∈ authority, (c != 47) = true := by
      intro c mem
      rw [bne_iff_ne]
      rintro rfl
      exact Authority.notMem_of_parse host (by decide) mem
    have slashes : utf8 "//" ++ authority ++ 47 :: path = 47 :: 47 :: (authority ++ 47 :: path) :=
      List.append_assoc (utf8 "//") authority (47 :: path)
    rw [slashes, parseHier, List.takeWhile_append_of_pos stops, List.dropWhile_append_of_pos stops,
      List.takeWhile_cons_of_neg (by decide), List.append_nil, host]
    rfl
  have split : Bytes.cut 58 (scheme ++ utf8 "://" ++ authority ++ 47 :: path) =
      (scheme, some (utf8 "//" ++ authority ++ 47 :: path)) := by
    have text : scheme ++ utf8 "://" ++ authority ++ 47 :: path =
        scheme ++ 58 :: (utf8 "//" ++ authority ++ 47 :: path) := by
      have colon : utf8 "://" = 58 :: utf8 "//" := by decide
      rw [colon]
      simp
    rw [text, Bytes.cut_append (notScheme (by decide))]
  unfold parse
  rw [Bytes.cut_eq_none (notIn (by decide))]
  dsimp only
  rw [Bytes.cut_eq_none (notIn (by decide))]
  dsimp only
  rw [split]
  dsimp only
  rw [hier, Option.bind_eq_bind, Option.bind_some]
  dsimp only
  rw [named, chars]
  rfl

end Uri

end Shyake.Lib
