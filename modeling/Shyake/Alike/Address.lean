import Shyake.Go.Protocol.Identity
import Shyake.Worker.Accepting

/-!
# Addresses on both servers

The Go server validates a target and takes it apart; the Worker slices and lowers the
text. On what the Go server accepts, they come to the same stored form and the same
domain, so that a row one of them writes is found by the other.
-/

namespace Shyake.Alike

open Go (toLower toLowerFrom)
open Go.Protocol (Address parseBlockTarget parseAddress parseAddress_ok parseBlockTarget_ok)
open Worker (Lowering normalizeAddress addressDomain)

def ASCII (s : Bytes) : Prop := ∀ c ∈ s, c < 0x80

instance (s : Bytes) : Decidable (ASCII s) := inferInstanceAs (Decidable (∀ c ∈ s, c < 0x80))

/-- On an ASCII string, `toLowerCase` lowers the letters and nothing else. -/
def LowersASCII (lowering : Lowering) : Prop :=
  ∀ s, ASCII s → lowering.toLowerCase s = s.map fun c => if isUpper c then c + 32 else c

theorem toLower_ascii {s : Bytes} (h : ASCII s) :
    toLower s = s.map fun c => if isUpper c then c + 32 else c := by
  unfold toLower
  induction s with
  | nil => rfl
  | cons c cs ih =>
    have here := h c List.mem_cons_self
    simp only [toLowerFrom, here, if_true, List.map_cons]
    rw [ih fun x mem => h x (List.mem_cons_of_mem _ mem)]

theorem ASCII.of_cut {s q : Bytes} (h : ASCII s) (cut : (Bytes.cut 64 s).2 = some q) : ASCII q := by
  intro c mem
  rcases (Bytes.cut_spec 64 s).2 with ⟨none, -⟩ | ⟨t, some, made⟩
  · rw [none] at cut
    cases cut
  · obtain rfl : t = q := Option.some.inj (some.symm.trans cut)
    rw [made] at h
    exact h c (List.mem_append_right _ (List.mem_cons_of_mem _ mem))

section

variable {lowering : Lowering} {d t : Bytes} {a : Address}

/-- The two lower-case functions, on ASCII. -/
theorem toLowerCase_eq (ascii : LowersASCII lowering) {s : Bytes} (h : ASCII s) :
    lowering.toLowerCase s = toLower s := by
  rw [ascii s h, toLower_ascii h]

/-- A username, alone or before an "@". -/
theorem same_user (ascii : LowersASCII lowering) (domain : ASCII d) (text : ASCII t)
    (parsed : parseAddress t d = .ok a) :
    normalizeAddress lowering t d = a.stored ∧ addressDomain lowering t d = a.domain := by
  obtain ⟨user, name, own, at_⟩ := parseAddress_ok parsed
  have named : a.localName ≠ [] := Go.Protocol.ne_nil_of_validUsername user
  unfold normalizeAddress addressDomain
  rcases at_ with ⟨bare, home⟩ | ⟨q, rest, host⟩
  · have whole : (Bytes.cut 64 t).1 = t := by
      rcases (Bytes.cut_spec 64 t).2 with ⟨-, made⟩ | ⟨q, some, -⟩
      · exact made.symm
      · rw [bare] at some
        cases some
    have undotted : t.contains 46 = false := by
      have absent : (46 : UInt8) ∉ t := by
        rw [← whole, ← name]
        exact Go.Protocol.notMem_of_validUsername user (by decide)
      simpa using absent
    have cut : Bytes.cut 64 t = (t, none) := Prod.ext whole bare
    have here : a.own = true := by rw [own, home, beq_self_eq_true]
    rw [cut]
    dsimp only
    rw [undotted]
    refine ⟨?_, ?_⟩
    · rw [Go.Protocol.stored_of_own parsed here, name, whole]
      rfl
    · rw [home, ← toLowerCase_eq ascii domain]
      rfl
  · have cut : Bytes.cut 64 t = (a.localName, some q) := Prod.ext name.symm rest
    rw [cut]
    dsimp only
    rw [toLowerCase_eq ascii (text.of_cut rest), toLowerCase_eq ascii domain, ← host]
    refine ⟨?_, rfl⟩
    unfold Address.stored
    rw [own]
    simp [named]

/-- **Both servers normalise addresses alike**: on every ASCII target that the Go server accepts,
the Worker's stored form and domain are the Go server's. -/
theorem same_address (lowering : Lowering) (ascii : LowersASCII lowering) (d : Bytes)
    (domain : ASCII d) (t : Bytes) (text : ASCII t) (a : Address)
    (parsed : parseBlockTarget t d = .ok a) :
    normalizeAddress lowering t d = a.stored ∧ addressDomain lowering t d = a.domain := by
  rcases parseBlockTarget_ok parsed with ⟨bare, dotted, name, host, -, -⟩ | user
  · have dot : t.contains 46 = true := by simpa using dotted
    unfold normalizeAddress addressDomain
    rw [Bytes.cut_eq_none bare]
    dsimp only
    rw [dot, if_pos rfl, if_pos rfl, toLowerCase_eq ascii text, host]
    refine ⟨?_, rfl⟩
    unfold Address.stored
    rw [name, host]
    rfl
  · exact same_user ascii domain text user

end

namespace Sample

/-- A remote user, with capitals in the domain and a port. -/
theorem same_address_port : ∃ a : Address,
    parseBlockTarget (utf8 "Carol_1@Mail.Example:8443") (utf8 "a.example") = .ok a ∧
    normalizeAddress Worker.Sample.lowering (utf8 "Carol_1@Mail.Example:8443") (utf8 "a.example")
      = a.stored ∧
    addressDomain Worker.Sample.lowering (utf8 "Carol_1@Mail.Example:8443") (utf8 "a.example")
      = a.domain :=
  ⟨_, rfl, same_address Worker.Sample.lowering (fun _ _ => rfl) (utf8 "a.example")
    (by decide +kernel) (utf8 "Carol_1@Mail.Example:8443") (by decide +kernel) _ rfl⟩

end Sample

end Shyake.Alike
