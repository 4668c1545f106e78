import Shyake.Client.Rotate

/-!
# Secret key files that were changed (`load_sk_decrypted`)

With ideal primitives a changed file is refused, as long as it still has four bytes: what
is shorter is taken for a key that is stored as it is. For the same reason a key that
begins with the magic does not come back when it is stored without a passphrase.
-/

namespace Shyake.Client

section

variable {scrypt : Bytes → Bytes → Nat → Nat → Nat → Option Bytes}
  {encrypt : (header key nonce pt : Bytes) → Option (Bytes × Bytes)}
  {decrypt : (header key nonce ct mac : Bytes) → Option Bytes}
  {passphrase sk salt nonce content : Bytes}

variable (scrypt encrypt decrypt passphrase sk salt nonce) in
/-- The two primitives are ideal, and one key has been sealed: no other passphrase derives its key,
and nothing opens but what was sealed. -/
structure IdealSeal (key ct mac : Bytes) : Prop where
  derived : scrypt passphrase salt 65536 8 1 = some key
  sealed : encrypt (skHeader salt nonce) key nonce sk = some (ct, mac)
  length_mac : mac.length = 16
  opens : decrypt (skHeader salt nonce) key nonce ct mac = some sk
  only : ∀ header key' nonce' ct' mac', decrypt header key' nonce' ct' mac' ≠ none →
    header = skHeader salt nonce ∧ key' = key ∧ ct' = ct ∧ mac' = mac
  injective : ∀ passphrase' salt' N r p, scrypt passphrase' salt' N r p = some key →
    passphrase' = passphrase

/-- The reader returns NULL. -/
def Refuses (result : Except (Option Bytes) Bytes) : Prop := ∃ text, result = .error text

/-- What is opened is what was sealed. -/
theorem opened_of_ideal {key ct mac passphrase' content' : Bytes}
    (ideal : IdealSeal scrypt encrypt decrypt passphrase sk salt nonce key ct mac)
    (magic : content'.take 4 = SK_MAGIC) {sk' : Bytes}
    (opened : openSkWith scrypt decrypt passphrase' content' = .ok sk') :
    content' = skHeader salt nonce ++ ct ++ mac ∧ passphrase' = passphrase := by
  unfold openSkWith at opened
  rw [if_neg (not_not.mpr magic)] at opened
  split at opened
  · cases opened
  split at opened
  · cases opened
  rename_i long
  split at opened
  · cases opened
  dsimp only at opened
  split at opened
  · cases opened
  rename_i key' derived
  split at opened
  · cases opened
  rename_i decrypted
  obtain ⟨header, rfl, text, tag⟩ := ideal.only _ _ _ _ _ (by rw [decrypted]; exact nofun)
  refine ⟨?_, ideal.injective _ _ _ _ _ derived⟩
  rw [← header, ← text, ← tag]
  have whole : (content'.drop (62 + (content'.length - 62 - 16))).take 16 =
      content'.drop (62 + (content'.length - 62 - 16)) :=
    List.take_of_length_le (by rw [List.length_drop]; omega)
  rw [whole, List.append_assoc, ← List.drop_drop, List.take_append_drop, List.take_append_drop]

/-- A file shorter than the magic is taken for a key. -/
theorem open_short {passphrase' content' : Bytes} (short : content'.length < 4) :
    openSkWith scrypt decrypt passphrase' content' = .ok content' := by
  have magic : content'.take 4 ≠ SK_MAGIC := by
    intro same
    have length := congrArg List.length same
    rw [List.length_take, show SK_MAGIC.length = 4 from rfl] at length
    omega
  unfold openSkWith
  exact if_pos magic

/-- **A changed file, and another passphrase, are refused** exactly when four bytes are left of the
file. -/
theorem refuses_iff {key ct mac passphrase' content' : Bytes}
    (ideal : IdealSeal scrypt encrypt decrypt passphrase sk salt nonce key ct mac)
    (written : sealSkWith scrypt encrypt passphrase sk salt nonce = some content)
    (kept : content'.take 4 <+: SK_MAGIC) (other : content' ≠ content ∨ passphrase' ≠ passphrase) :
    Refuses (openSkWith scrypt decrypt passphrase' content') ↔ 4 ≤ content'.length := by
  have made : content = skHeader salt nonce ++ ct ++ mac := by
    unfold sealSkWith at written
    rw [ideal.derived, Option.bind_eq_bind, Option.bind_some, ideal.sealed] at written
    exact (Option.some.inj written).symm
  constructor
  · rintro ⟨text, refused⟩
    by_contra short
    rw [open_short (not_le.mp short)] at refused
    cases refused
  · intro long
    have magic : content'.take 4 = SK_MAGIC := by
      refine kept.eq_of_length ?_
      rw [List.length_take, show SK_MAGIC.length = 4 from rfl]
      omega
    cases opened : openSkWith scrypt decrypt passphrase' content' with
    | error text => exact ⟨text, rfl⟩
    | ok sk' =>
      obtain ⟨same, same'⟩ := opened_of_ideal ideal magic opened
      rcases other with other | other
      · exact absurd (same.trans made.symm) other
      · exact absurd same' other

end

/-- A key that is written under the context's passphrase is read back with it. -/
def ComesBack (kdf : Kdf) (aead : Bytes → Aead) (ctx : Ctx) (calls : SkCalls) (path sk : Bytes)
    (files : Files) : Prop :=
  let saved := saveSkEncrypted kdf aead calls path ctx.passphrase sk files
  saved.1 = 0 ∧ loadSkDecrypted kdf aead ctx.passphrase path saved.2 = .ok sk

theorem comesBack_iff {kdf : Kdf} {aead : Bytes → Aead} {ctx : Ctx} {calls : SkCalls} {sk : Bytes}
    (succeed : calls.Succeed ctx.passphrase) (fits : ctx.passphrase ≠ [] → sk.length < 2 ^ 31)
    (path : Bytes) (files : Files) :
    ComesBack kdf aead ctx calls path sk files ↔ ctx.passphrase ≠ [] ∨ sk.take 4 ≠ SK_MAGIC := by
  by_cases empty : ctx.passphrase = []
  · have saved : saveSkEncrypted kdf aead calls path ctx.passphrase sk files =
        (0, Function.update files path (some sk)) := by
      unfold saveSkEncrypted saveFile
      rw [if_pos empty, succeed.2]
    unfold ComesBack loadSkDecrypted
    simp only [saved, Function.update_self, true_and]
    constructor
    · intro opened
      exact .inr fun magic => openSk_magic kdf aead magic _ opened
    · rintro (set | raw)
      · exact absurd empty set
      · exact openSk_raw kdf aead raw _
  · obtain ⟨content, saved, -, opens⟩ :=
      saveSkEncrypted_succeed kdf aead succeed (fits empty) path files
    unfold ComesBack loadSkDecrypted
    simp only [saved, Function.update_self, true_and]
    refine iff_of_true ((opens _).mpr ?_) (.inl empty)
    unfold Unlocks
    rw [if_neg empty]
    exact .inl rfl

theorem snprintf_ne_nil {p : Bytes} : snprintf 512 p ≠ [] ↔ p ≠ [] := by
  unfold snprintf
  rw [not_iff_not, List.take_eq_nil_iff]
  exact or_iff_right (by decide)

namespace Sample

def passphrase : Bytes := utf8 "correct horse"

/-- A key that begins with the magic. -/
def magicKey : Bytes := SK_MAGIC ++ List.replicate 2396 7

theorem length_magicKey : magicKey.length = 2400 := by
  unfold magicKey
  rw [List.length_append, List.length_replicate]
  rfl

def salt : Bytes := List.replicate 32 1

def nonce : Bytes := List.replicate 12 2

/-- The derived key is the passphrase. -/
def idealScrypt (passphrase _salt : Bytes) (_N _r _p : Nat) : Option Bytes := some passphrase

def idealEncrypt (_header _key _nonce pt : Bytes) : Option (Bytes × Bytes) :=
  some (pt, List.replicate 16 3)

/-- It opens what was sealed, and nothing else. -/
def idealDecrypt (header key _nonce ct mac : Bytes) : Option Bytes :=
  if header = skHeader salt nonce ∧ key = passphrase ∧ ct = magicKey ∧ mac = List.replicate 16 3 then
    some magicKey
  else none

theorem ideal : IdealSeal idealScrypt idealEncrypt idealDecrypt
    (alice.setPassphrase passphrase).passphrase magicKey salt nonce passphrase magicKey
    (List.replicate 16 3) where
  derived := rfl
  sealed := rfl
  length_mac := List.length_replicate
  opens := by
    unfold idealDecrypt
    exact if_pos ⟨rfl, rfl, rfl, rfl⟩
  only header key nonce' ct mac opens := by
    unfold idealDecrypt at opens
    split at opens
    · assumption
    · exact absurd rfl opens
  injective p _ _ _ _ derived := Option.some.inj derived

def sealedKey : Bytes := skHeader salt nonce ++ magicKey ++ List.replicate 16 3

theorem length_sealedKey : 4 ≤ sealedKey.length := by
  unfold sealedKey
  rw [List.length_append, List.length_append, length_magicKey]
  omega

def calls : SkCalls := ⟨some ⟨salt, rfl⟩, some ⟨nonce, rfl⟩, .whole⟩

end Sample

end Shyake.Client
