import Mathlib.Algebra.Group.Even
import Mathlib.Logic.Relation
import Shyake.Client.Rotate

/-!
# Generating keys (`shyake_generate_keys` of `libshyake.c`)

A pair is made when its public file is not there. The secret one is not looked for, and
neither is the result of a write: so a directory holds pairs only as long as every run
ends what it begins.
-/

namespace Shyake.Client

variable (kdf : Kdf) (aead : Bytes → Aead)

/-! ## shyake_generate_keys -/

/-- What the calls for one pair come to. -/
structure PairCalls (Matches : Bytes → Bytes → Prop) (lengthPk lengthSk : Nat) where
  /-- Whether `stat` finds a file that is there. -/
  stat : Bool
  /-- `none` when liboqs fails. -/
  pair : Option (Pair Matches lengthPk lengthSk)
  pk : Write
  sk : SkCalls

variable {Matches : Bytes → Bytes → Prop} {lengthPk lengthSk : Nat}

/-- The part for one pair: what it returns, and the files after each of its writes. -/
def generatePair (pkName skName : Bytes) (ctx : Ctx) (calls : PairCalls Matches lengthPk lengthSk)
    (files : Files) : Int × List Files :=
  if calls.stat ∧ (files (ctx.path pkName)).isSome then (0, [])
  else
    match calls.pair with
    | none => (-1, [])
    | some k =>
      let files := (saveFile calls.pk (ctx.path pkName) k.pk files).2
      (0, [files,
        (saveSkEncrypted kdf aead calls.sk (ctx.path skName) ctx.passphrase k.sk files).2])

structure GenerateCalls (kem : Kem) (sig : Sig) where
  kem : PairCalls kem.Matches lengthPublicKey 2400
  sig : PairCalls sig.Matches 1952 4032

variable {kem : Kem} {sig : Sig}

/-- `shyake_generate_keys`. -/
def shyakeGenerateKeys (ctx : Ctx) (calls : GenerateCalls kem sig) (files : Files) :
    Int × List Files :=
  let (kemRet, kemStates) :=
    generatePair kdf aead (utf8 "kem_pk.bin") (utf8 "kem_sk.bin") ctx calls.kem files
  let (sigRet, sigStates) :=
    generatePair kdf aead (utf8 "sig_pk.bin") (utf8 "sig_sk.bin") ctx calls.sig
      (kemStates.getLastD files)
  (if kemRet = 0 then sigRet else kemRet, kemStates ++ sigStates)

/-! ## Runs -/

/-- What is done to the files of a directory. -/
inductive KeyAction (kem : Kem) (sig : Sig) where
  /-- A run of `shyake_generate_keys` that is stopped after so many writes, if it makes more. -/
  | init (ctx : Ctx) (calls : GenerateCalls kem sig) (writes : Nat)
  | rotate (ctx : Ctx) (calls : RotateCalls kem sig)

variable (printG : Int → Bytes)

/-- What it leaves. Of the rotations only those that succeed are looked at. -/
inductive Leaves (configDir : Bytes) (files : Files) : KeyAction kem sig → Files → Prop where
  | init (ctx : Ctx) (calls : GenerateCalls kem sig) (writes : Nat) (here : ctx.configDir = configDir) :
    Leaves configDir files (.init ctx calls writes)
      (((shyakeGenerateKeys kdf aead ctx calls files).2.take writes).getLastD files)
  | rotate {ctx : Ctx} {calls : RotateCalls kem sig} {files' : Files} (here : ctx.configDir = configDir)
      (returned : shyakeRotate kdf aead kem sig printG ctx calls files = (.OK, files')) :
    Leaves configDir files (.rotate ctx calls) files'

/-- If the pair is made, both writes succeed. -/
def PairCalls.Succeed (calls : PairCalls Matches lengthPk lengthSk) (pkName : Bytes) (ctx : Ctx)
    (files : Files) : Prop :=
  ¬ (calls.stat ∧ (files (ctx.path pkName)).isSome) → calls.pair.isSome →
    calls.pk = .whole ∧ calls.sk.Succeed ctx.passphrase

structure GenerateCalls.Succeed (calls : GenerateCalls kem sig) (ctx : Ctx) (files : Files) :
    Prop where
  kem : calls.kem.Succeed (utf8 "kem_pk.bin") ctx files
  sig : calls.sig.Succeed (utf8 "sig_pk.bin") ctx files

/-- Every write succeeds, and the process is not stopped between the two writes of a pair. -/
def KeyAction.Completes : KeyAction kem sig → Files → Prop
  | .init ctx calls writes, files => calls.Succeed ctx files ∧ Even writes
  | .rotate ctx calls, _ => Saved ctx calls

variable (kem sig) in
/-- A run of such actions. -/
def KeyRun (configDir : Bytes) (files files' : Files) : Prop :=
  Relation.ReflTransGen (fun files files' => ∃ action : KeyAction kem sig,
    Leaves kdf aead printG configDir files action files' ∧ action.Completes files) files files'

/-! ## Pairs -/

/-- A file of the directory. -/
def keyPath (configDir name : Bytes) : Bytes := snprintf 512 (configDir ++ 47 :: name)

/-- The two files hold a matching pair, the secret key under any passphrase. -/
def HoldsPair (Matches : Bytes → Bytes → Prop) (pkPath skPath : Bytes) (files : Files) : Prop :=
  ∃ pk sk passphrase content, files pkPath = some pk ∧ files skPath = some content ∧
    KeyFile kdf aead passphrase sk content ∧ Matches pk sk

variable (kem sig) in
structure HoldsPairs (configDir : Bytes) (files : Files) : Prop where
  kem : HoldsPair kdf aead kem.Matches (keyPath configDir (utf8 "kem_pk.bin"))
    (keyPath configDir (utf8 "kem_sk.bin")) files
  sig : HoldsPair kdf aead sig.Matches (keyPath configDir (utf8 "sig_pk.bin"))
    (keyPath configDir (utf8 "sig_sk.bin")) files

variable (kem sig) in
/-- What a run relies on: the secret key of every public one is there. -/
structure Paired (configDir : Bytes) (files : Files) : Prop where
  kem : (files (keyPath configDir (utf8 "kem_pk.bin"))).isSome →
    HoldsPair kdf aead kem.Matches (keyPath configDir (utf8 "kem_pk.bin"))
      (keyPath configDir (utf8 "kem_sk.bin")) files
  sig : (files (keyPath configDir (utf8 "sig_pk.bin"))).isSome →
    HoldsPair kdf aead sig.Matches (keyPath configDir (utf8 "sig_pk.bin"))
      (keyPath configDir (utf8 "sig_sk.bin")) files

theorem HoldsPairs.paired {configDir : Bytes} {files : Files}
    (h : HoldsPairs kdf aead kem sig configDir files) : Paired kdf aead kem sig configDir files :=
  ⟨fun _ => h.kem, fun _ => h.sig⟩

/-- Files that agree on a pair. -/
theorem HoldsPair.congr {pkPath skPath : Bytes} {files files' : Files}
    (h : HoldsPair kdf aead Matches pkPath skPath files) (samePk : files' pkPath = files pkPath)
    (sameSk : files' skPath = files skPath) : HoldsPair kdf aead Matches pkPath skPath files' := by
  obtain ⟨pk, sk, passphrase, content, herePk, hereSk, stored, pair⟩ := h
  exact ⟨pk, sk, passphrase, content, samePk.trans herePk, sameSk.trans hereSk, stored, pair⟩

/-- In a directory of at most 505 characters the names keep what tells them apart. -/
theorem keyPath_ne {configDir : Bytes} (short : configDir.length ≤ 505) {n m : Bytes}
    (front : n.take 5 ≠ m.take 5) : keyPath configDir n ≠ keyPath configDir m :=
  @path_ne ⟨configDir, [], [], []⟩ short n m front

/-! ## What one action leaves -/

/-- What the part for one pair keeps, where every write of it succeeds: a pair, if there was one, and
all other files. -/
structure Kept (Matches : Bytes → Bytes → Prop) (pkPath skPath : Bytes) (files : Files) (ret : Int)
    (states : List Files) : Prop where
  two : states.length = 0 ∨ states.length = 2
  mine : (states.getLastD files pkPath).isSome →
    HoldsPair kdf aead Matches pkPath skPath (states.getLastD files)
  made : ret = 0 → HoldsPair kdf aead Matches pkPath skPath (states.getLastD files)
  others : ∀ path, path ≠ pkPath → path ≠ skPath → states.getLastD files path = files path

theorem generatePair_keeps {pkName skName : Bytes} {ctx : Ctx}
    {calls : PairCalls Matches lengthPk lengthSk} {files : Files} (small : lengthSk < 2 ^ 31)
    (ne : ctx.path pkName ≠ ctx.path skName) (succeed : calls.Succeed pkName ctx files)
    (mine : (files (ctx.path pkName)).isSome →
      HoldsPair kdf aead Matches (ctx.path pkName) (ctx.path skName) files) :
    Kept kdf aead Matches (ctx.path pkName) (ctx.path skName) files
      (generatePair kdf aead pkName skName ctx calls files).1
      (generatePair kdf aead pkName skName ctx calls files).2 := by
  unfold generatePair
  by_cases found : calls.stat ∧ (files (ctx.path pkName)).isSome
  · rw [if_pos found]
    exact ⟨.inl rfl, mine, fun _ => mine found.2, fun _ _ _ => rfl⟩
  rw [if_neg found]
  cases made : calls.pair with
  | none => exact ⟨.inl rfl, mine, nofun, fun _ _ _ => rfl⟩
  | some k =>
    obtain ⟨whole, succeeds⟩ := succeed found (by rw [made]; rfl)
    have short : k.sk.length < 2 ^ 31 := by
      rw [k.length_sk]
      exact small
    obtain ⟨content, saved, stored, -⟩ := saveSkEncrypted_succeed kdf aead succeeds short
      (ctx.path skName) (Function.update files (ctx.path pkName) (some k.pk))
    rw [whole]
    dsimp only [saveFile]
    rw [saved]
    have pair : HoldsPair kdf aead Matches (ctx.path pkName) (ctx.path skName)
        (Function.update (Function.update files (ctx.path pkName) (some k.pk)) (ctx.path skName)
          (some content)) := by
      refine ⟨k.pk, k.sk, ctx.passphrase, content, ?_, Function.update_self _ _ _, stored, k.pair⟩
      rw [Function.update_of_ne ne, Function.update_self]
    refine ⟨.inr rfl, fun _ => pair, fun _ => pair, fun path nePk neSk => ?_⟩
    change Function.update _ _ _ path = _
    rw [Function.update_of_ne neSk, Function.update_of_ne nePk]

/-- The last of two lists is that of the second, if there is one. -/
theorem getLastD_append (l l' : List α) (a : α) : (l ++ l').getLastD a = l'.getLastD (l.getLastD a) := by
  rw [List.getLastD_eq_getLast?, List.getLastD_eq_getLast?, List.getLastD_eq_getLast?,
    List.getLast?_append]
  cases l'.getLast? with
  | none => rfl
  | some b => rfl

/-- A process that is not stopped between the two writes of a pair is stopped at the beginning,
between the pairs or at the end. -/
theorem getLastD_take_even {kemStates sigStates : List Files} {files : Files} {n : Nat} (even : Even n)
    (twoKem : kemStates.length = 0 ∨ kemStates.length = 2)
    (twoSig : sigStates.length = 0 ∨ sigStates.length = 2) :
    ((kemStates ++ sigStates).take n).getLastD files = files ∨
      ((kemStates ++ sigStates).take n).getLastD files = kemStates.getLastD files ∨
      ((kemStates ++ sigStates).take n).getLastD files =
        sigStates.getLastD (kemStates.getLastD files) := by
  obtain ⟨m, rfl⟩ := even
  rcases twoKem with noKem | someKem
  · obtain rfl := List.length_eq_zero_iff.mp noKem
    rcases twoSig with noSig | someSig
    · obtain rfl := List.length_eq_zero_iff.mp noSig
      left
      rw [List.append_nil, List.take_nil]
      rfl
    · rcases m with _ | m
      · exact .inl rfl
      · right
        right
        rw [List.nil_append, List.take_of_length_le (by omega)]
        rfl
  · rcases m with _ | m
    · exact .inl rfl
    right
    rcases twoSig with noSig | someSig
    · obtain rfl := List.length_eq_zero_iff.mp noSig
      left
      rw [List.append_nil, List.take_of_length_le (by omega)]
    · rcases m with _ | m
      · left
        rw [List.take_left' someKem]
      · right
        rw [List.take_of_length_le (by rw [List.length_append]; omega)]
        exact getLastD_append kemStates sigStates files

/-- A run whose writes all succeed leaves the files paired wherever it is stopped but for the middle of
a pair, and it makes both pairs if it returns 0. -/
theorem shyakeGenerateKeys_keeps {ctx : Ctx} {calls : GenerateCalls kem sig} {files : Files}
    (short : ctx.configDir.length ≤ 505) (succeed : calls.Succeed ctx files)
    (paired : Paired kdf aead kem sig ctx.configDir files) :
    (∀ n, Even n → Paired kdf aead kem sig ctx.configDir
      (((shyakeGenerateKeys kdf aead ctx calls files).2.take n).getLastD files)) ∧
    ((shyakeGenerateKeys kdf aead ctx calls files).1 = 0 →
      HoldsPairs kdf aead kem sig ctx.configDir
        ((shyakeGenerateKeys kdf aead ctx calls files).2.getLastD files)) := by
  have apart {n m : Bytes} (front : n.take 5 ≠ m.take 5) : ctx.path n ≠ ctx.path m :=
    keyPath_ne short front
  have kemKept := generatePair_keeps kdf aead (show 2400 < 2 ^ 31 by decide)
    (apart (by decide)) succeed.kem paired.kem
  unfold shyakeGenerateKeys
  generalize generatePair kdf aead (utf8 "kem_pk.bin") (utf8 "kem_sk.bin") ctx calls.kem files =
    kemPart at kemKept ⊢
  obtain ⟨kemRet, kemStates⟩ := kemPart
  dsimp only at kemKept ⊢
  -- the other pair is as it was
  have samePk := kemKept.others (ctx.path (utf8 "sig_pk.bin")) (apart (by decide)) (apart (by decide))
  have sameSk := kemKept.others (ctx.path (utf8 "sig_sk.bin")) (apart (by decide)) (apart (by decide))
  have sigMine : (kemStates.getLastD files (ctx.path (utf8 "sig_pk.bin"))).isSome →
      HoldsPair kdf aead sig.Matches (ctx.path (utf8 "sig_pk.bin")) (ctx.path (utf8 "sig_sk.bin"))
        (kemStates.getLastD files) := by
    rw [samePk]
    exact fun here => (paired.sig here).congr kdf aead samePk sameSk
  have sigSucceed : calls.sig.Succeed (utf8 "sig_pk.bin") ctx (kemStates.getLastD files) := by
    unfold PairCalls.Succeed
    rw [samePk]
    exact succeed.sig
  have between : Paired kdf aead kem sig ctx.configDir (kemStates.getLastD files) :=
    ⟨kemKept.mine, sigMine⟩
  have sigKept := generatePair_keeps kdf aead (show 4032 < 2 ^ 31 by decide)
    (apart (by decide)) sigSucceed sigMine
  generalize generatePair kdf aead (utf8 "sig_pk.bin") (utf8 "sig_sk.bin") ctx calls.sig
    (kemStates.getLastD files) = sigPart at sigKept ⊢
  obtain ⟨sigRet, sigStates⟩ := sigPart
  dsimp only at sigKept ⊢
  have samePk' := sigKept.others (ctx.path (utf8 "kem_pk.bin")) (apart (by decide)) (apart (by decide))
  have sameSk' := sigKept.others (ctx.path (utf8 "kem_sk.bin")) (apart (by decide)) (apart (by decide))
  have finished : Paired kdf aead kem sig ctx.configDir
      (sigStates.getLastD (kemStates.getLastD files)) := by
    refine ⟨fun here => ?_, sigKept.mine⟩
    rw [show keyPath ctx.configDir (utf8 "kem_pk.bin") = ctx.path (utf8 "kem_pk.bin") from rfl,
      samePk'] at here
    exact (kemKept.mine here).congr kdf aead samePk' sameSk'
  constructor
  · intro n even
    rcases getLastD_take_even even kemKept.two sigKept.two with stop | stop | stop
    · rw [stop]
      exact paired
    · rw [stop]
      exact between
    · rw [stop]
      exact finished
  · intro returned
    rw [getLastD_append]
    split at returned
    · rename_i kemOk
      exact ⟨(kemKept.made kemOk).congr kdf aead samePk' sameSk', sigKept.made returned⟩
    · contradiction

/-- Where liboqs does not fail, 0 is returned. -/
theorem ret_of_pairs {ctx : Ctx} {calls : GenerateCalls kem sig} {files : Files}
    (kemPair : calls.kem.pair.isSome) (sigPair : calls.sig.pair.isSome) :
    (shyakeGenerateKeys kdf aead ctx calls files).1 = 0 := by
  have part {Matches : Bytes → Bytes → Prop} {lengthPk lengthSk : Nat}
      (calls : PairCalls Matches lengthPk lengthSk) (some : calls.pair.isSome) (pkName skName : Bytes)
      (files : Files) : (generatePair kdf aead pkName skName ctx calls files).1 = 0 := by
    obtain ⟨k, made⟩ := Option.isSome_iff_exists.mp some
    unfold generatePair
    rw [made]
    split
    · rfl
    · rfl
  unfold shyakeGenerateKeys
  dsimp only
  rw [if_pos (part calls.kem kemPair _ _ _)]
  exact part calls.sig sigPair _ _ _

/-- A rotation whose writes succeed leaves both pairs. -/
theorem shyakeRotate_keeps {ctx : Ctx} {calls : RotateCalls kem sig} {files files' : Files}
    (short : ctx.configDir.length ≤ 505) (saved : Saved ctx calls)
    (returned : shyakeRotate kdf aead kem sig printG ctx calls files = (.OK, files')) :
    HoldsPairs kdf aead kem sig ctx.configDir files' := by
  have apart {n m : Bytes} (front : n.take 5 ≠ m.take 5) : ctx.path n ≠ ctx.path m :=
    keyPath_ne short front
  cases pairs : calls.pairs with
  | none =>
    unfold shyakeRotate at returned
    rw [pairs] at returned
    cases returned
  | some both =>
    obtain ⟨k, s⟩ := both
    obtain ⟨-, rfl⟩ := (shyakeRotate_ok kdf aead printG pairs).mp returned
    obtain ⟨kemFile, sigFile, made, holdsKem, holdsSig, -⟩ := saveKeys_saved kdf aead saved k s files
    rw [made]
    refine ⟨⟨k.pk, k.sk, ctx.newPassphrase, kemFile, ?_, ?_, holdsKem, k.pair⟩,
      ⟨s.pk, s.sk, ctx.newPassphrase, sigFile, ?_, Function.update_self _ _ _, holdsSig, s.pair⟩⟩
    · change Function.update _ _ _ (ctx.path (utf8 "kem_pk.bin")) = _
      rw [Function.update_of_ne (apart (by decide)), Function.update_of_ne (apart (by decide)),
        Function.update_of_ne (apart (by decide)), Function.update_self]
    · change Function.update _ _ _ (ctx.path (utf8 "kem_sk.bin")) = _
      rw [Function.update_of_ne (apart (by decide)), Function.update_of_ne (apart (by decide)),
        Function.update_self]
    · change Function.update _ _ _ (ctx.path (utf8 "sig_pk.bin")) = _
      rw [Function.update_of_ne (apart (by decide)), Function.update_self]

/-- One action keeps every public key with its secret one. -/
theorem Leaves.paired {configDir : Bytes} {action : KeyAction kem sig} {files files' : Files}
    (short : configDir.length ≤ 505) (left : Leaves kdf aead printG configDir files action files')
    (completes : action.Completes files) (paired : Paired kdf aead kem sig configDir files) :
    Paired kdf aead kem sig configDir files' := by
  cases left with
  | init ctx calls writes here =>
    subst here
    exact (shyakeGenerateKeys_keeps kdf aead short completes.1 paired).1 writes completes.2
  | rotate here returned =>
    subst here
    exact (shyakeRotate_keeps kdf aead printG short completes returned).paired

/-- Along a run. -/
theorem KeyRun.paired {configDir : Bytes} {files files' : Files} (short : configDir.length ≤ 505)
    (run : KeyRun kdf aead kem sig printG configDir files files')
    (paired : Paired kdf aead kem sig configDir files) : Paired kdf aead kem sig configDir files' := by
  induction run with
  | refl => exact paired
  | tail _ step ih =>
    obtain ⟨action, left, completes⟩ := step
    exact left.paired kdf aead printG short completes ih

/-- No key has been made. -/
def NoKeys (configDir : Bytes) (files : Files) : Prop :=
  files (keyPath configDir (utf8 "kem_pk.bin")) = none ∧
    files (keyPath configDir (utf8 "sig_pk.bin")) = none

/-- **Keys that are generated match**, after any run in which every write succeeded and no process was
stopped between the two writes of a pair. -/
theorem generated_pairs {configDir : Bytes} {fresh files : Files} (short : configDir.length ≤ 505)
    (start : NoKeys configDir fresh)
    (run : KeyRun kdf aead kem sig printG configDir fresh files)
    {ctx : Ctx} {calls : GenerateCalls kem sig} (here : ctx.configDir = configDir)
    (succeed : calls.Succeed ctx files)
    (returned : (shyakeGenerateKeys kdf aead ctx calls files).1 = 0) :
    HoldsPairs kdf aead kem sig configDir
      ((shyakeGenerateKeys kdf aead ctx calls files).2.getLastD files) := by
  subst here
  have paired : Paired kdf aead kem sig ctx.configDir fresh := by
    refine ⟨fun some => ?_, fun some => ?_⟩
    · rw [start.1] at some
      cases some
    · rw [start.2] at some
      cases some
  have reached := KeyRun.paired kdf aead printG short run paired
  exact (shyakeGenerateKeys_keeps kdf aead short succeed reached).2 returned

/-! ## A sample -/

namespace Sample

/-- A run in which nothing fails. -/
def goodRun : GenerateCalls xorKem oneSig where
  kem := ⟨true, some kemPair, .whole, ⟨none, none, .whole⟩⟩
  sig := ⟨true, some sigPair, .whole, ⟨none, none, .whole⟩⟩

theorem goodRun_succeed (files : Files) : goodRun.Succeed alice files := by
  constructor
  · exact fun _ _ => ⟨rfl, nofun, rfl⟩
  · exact fun _ _ => ⟨rfl, nofun, rfl⟩

theorem noKeys : NoKeys alice.configDir (fun _ => none) := ⟨rfl, rfl⟩

/-- A first run is stopped before it writes, and a second one makes both pairs. -/
theorem generated_pairs_twice : HoldsPairs plainKdf (fun _ => tagAead) xorKem oneSig alice.configDir
    ((shyakeGenerateKeys plainKdf (fun _ => tagAead) alice goodRun (fun _ => none)).2.getLastD
      (fun _ => none)) := by
  have stopped : KeyRun plainKdf (fun _ => tagAead) xorKem oneSig Go.formatInt alice.configDir
      (fun _ => none) (fun _ => none) :=
    .single ⟨.init alice goodRun 0, .init alice goodRun 0 rfl, goodRun_succeed _, 0, rfl⟩
  exact generated_pairs plainKdf (fun _ => tagAead) Go.formatInt (by decide) noKeys stopped rfl
    (goodRun_succeed _) (ret_of_pairs _ _ rfl rfl)

/-- The files of a first run that is stopped after its first write. -/
def onlyPk : Files := Function.update (fun _ => none) (alice.path (utf8 "kem_pk.bin")) (some kemPair.pk)

/-- **A run that was stopped is never made up for**: the next one finds the public key, makes no
pair, and returns 0 without a secret key. -/
theorem stopped_run : Leaves plainKdf (fun _ => tagAead) Go.formatInt alice.configDir (fun _ => none)
      (.init alice goodRun 1) onlyPk ∧
    (shyakeGenerateKeys plainKdf (fun _ => tagAead) alice goodRun onlyPk).1 = 0 ∧
    ¬ HoldsPairs plainKdf (fun _ => tagAead) xorKem oneSig alice.configDir
      ((shyakeGenerateKeys plainKdf (fun _ => tagAead) alice goodRun onlyPk).2.getLastD onlyPk) := by
  have short : alice.configDir.length ≤ 505 := by decide
  have found : goodRun.kem.stat ∧ (onlyPk (alice.path (utf8 "kem_pk.bin"))).isSome := by
    refine ⟨rfl, ?_⟩
    unfold onlyPk
    rw [Function.update_self]
    rfl
  have no {name : Bytes} (front : name.take 5 ≠ (utf8 "kem_pk.bin").take 5) :
      onlyPk (alice.path name) = none :=
    Function.update_of_ne (path_ne short front) _ _
  have kemPart : generatePair plainKdf (fun _ => tagAead) (utf8 "kem_pk.bin") (utf8 "kem_sk.bin") alice
      goodRun.kem onlyPk = (0, []) := if_pos found
  have ne : alice.path (utf8 "sig_pk.bin") ≠ alice.path (utf8 "sig_sk.bin") :=
    path_ne short (by decide)
  have sigPk : onlyPk (alice.path (utf8 "sig_pk.bin")) = none := no (by decide)
  have sigKept := generatePair_keeps plainKdf (fun _ => tagAead) (show 4032 < 2 ^ 31 by decide) ne
    (goodRun_succeed onlyPk).sig (by
      rw [sigPk]
      exact nofun)
  refine ⟨.init alice goodRun 1 rfl, ret_of_pairs _ _ rfl rfl, fun holds => ?_⟩
  obtain ⟨-, -, -, content, -, here, -⟩ := holds.kem
  unfold shyakeGenerateKeys at here
  rw [kemPart] at here
  have none := (sigKept.others (alice.path (utf8 "kem_sk.bin")) (path_ne short (by decide))
    (path_ne short (by decide))).trans (no (by decide))
  cases none.symm.trans here

end Sample

end Shyake.Client
