import Shyake.Client.Sending

/-!
# The check of the recipient's key (`send_mail`)

The key that is fetched is compared with the one that is known. A mail that is posted is sealed to the
key that passed, and without such a key nothing is posted.
-/

namespace Shyake.Client

open CJson (printUnformatted)
open Calls (SendCalls sendMail decodedKey keyChanged mailObj mailRoot senderOf sent loadSsk Posted)

variable (kdf : Kdf) (keyAead : Bytes → Aead) (printG : Int → Bytes) (kem : Kem) (aead : Aead)

/-! ## The key that a mail is sealed to -/

/-- A key of the recipient, unless another is known. -/
def agreedKey (known : Option (Option Bytes)) (recipPk : Bytes) : Option Bytes :=
  match known with
  | none => some recipPk
  | some none => none
  | some (some known) => if Lib.sha256 known = Lib.sha256 recipPk then some recipPk else none

/-- Of a key as it was fetched and decoded. -/
def fetchedKey (known : Option Bytes) : Option (Option Bytes) → Option Bytes
  | some (some recipPk) => agreedKey (known.bind decodedKey) recipPk
  | _ => none

/-- The recipient's key, if `send_mail` goes on with it. -/
def checkedKey (calls : SendCalls) (replyRef : Option Bytes) : Option Bytes :=
  if replyRef.any (!isRef ·) then none
  else
    match calls.lookup with
    | .error _ => none
    | .ok recipPkB64 => fetchedKey calls.known (decodedKey recipPkB64)

section

variable (ctx : Ctx) (files : Files) (instanceUrl : Bytes) (calls : SendCalls) (recipient : Bytes)
  (replyRef : Option Bytes) (subject body : Bytes)

/-- `signed_obj`. -/
def signedMail (m : Sealed) (recipPk : Bytes) : CJson.Object :=
  mailObj m (senderOf ctx instanceUrl recipient) recipient (Go.hexEncode (Lib.sha256 recipPk))
    (snprintf 32 (Go.formatInt calls.now)) body.length

/-- What is signed of a mail, if the keys and the draws are there and it is sealed and printed. -/
def toSign (own : Option Bytes) (ssk : Except (Option Bytes) Bytes) (draws : Option Draws)
    (make : Bytes → Draws → Option Sealed) (text : Sealed → Option Bytes) :
    Option (Bytes × Bytes × Sealed) := do
  let myKpk ← own
  let mySsk ← ssk.toOption
  let draws ← draws
  let m ← make myKpk draws
  let json ← text m
  some (json, mySsk, m)

/-- `send_mail` behind the check of the recipient's key, as far as that matters. -/
def signAndSend (own : Option Bytes) (ssk : Except (Option Bytes) Bytes) (draws : Option Draws)
    (make : Bytes → Draws → Option Sealed) (text : Sealed → Option Bytes)
    (send : Sealed → Bytes → ShyakeErr) : Routine ShyakeErr :=
  match own, ssk, draws with
  | some myKpk, .ok mySsk, some draws =>
    match make myKpk draws with
    | none => .ret .ERR_CRYPTO
    | some m => do
      let json_raw ← deref (text m)
      .ask (.sign json_raw mySsk) fun signature => .ret (send m signature)
  | _, _, _ => .ret .ERR_CRYPTO

/-- `send_mail` behind the check of the recipient's key. -/
def sealAndPost (recipPk : Bytes) : Routine ShyakeErr :=
  signAndSend (files (ctx.path (utf8 "kem_pk.bin"))) (loadSsk kdf keyAead ctx files) calls.draws
    (fun myKpk draws => sealMail kem aead draws recipPk myKpk replyRef subject body)
    (fun m => printUnformatted printG (signedMail ctx instanceUrl calls recipient body m recipPk))
    fun m signature => sent (calls.post (printUnformatted printG (mailRoot
      (signedMail ctx instanceUrl calls recipient body m recipPk) m (base64Encode signature)
      calls.pow)))

/-- The key of the mail that is posted, if one is, and the mail. -/
def sealedTo : Option (Bytes × Sealed) := do
  let recipPk ← checkedKey calls replyRef
  let (_, _, m) ← toSign (files (ctx.path (utf8 "kem_pk.bin"))) (loadSsk kdf keyAead ctx files)
    calls.draws (fun myKpk draws => sealMail kem aead draws recipPk myKpk replyRef subject body)
    fun m => printUnformatted printG (signedMail ctx instanceUrl calls recipient body m recipPk)
  some (recipPk, m)

end

section

variable {ctx : Ctx} {files : Files} {instanceUrl : Bytes} {calls : SendCalls} {recipient : Bytes}
  {replyRef : Option Bytes} {subject body : Bytes}

/-- The check of a key that was fetched, and what is gone on with then. -/
def checkFetched (known : Option Bytes) (fetched : Option (Option Bytes))
    (rest : Bytes → Routine ShyakeErr) : Routine ShyakeErr :=
  fetched.elim (.ret .ERR_CRYPTO) fun recipPk => do
    let recipPk ← deref recipPk
    if ← keyChanged known recipPk then .ret .ERR_KEY_MISMATCH
    else rest recipPk

/-- `send_mail` up to the check of the key. -/
def checkThen (calls : SendCalls) (replyRef : Option Bytes) (rest : Bytes → Routine ShyakeErr) :
    Routine ShyakeErr :=
  if replyRef.any (!isRef ·) then .ret .ERR
  else
    match calls.lookup with
    | .error err => .ret err
    | .ok recipPkB64 => checkFetched calls.known (decodedKey recipPkB64) rest

theorem sendMail_eq :
    sendMail kdf keyAead printG kem aead ctx files instanceUrl calls recipient replyRef subject body =
      checkThen calls replyRef (sealAndPost kdf keyAead printG kem aead ctx files instanceUrl calls
        recipient replyRef subject body) := rfl

/-- A key that is agreed to is gone on with, and without one it does not come to the rest. -/
theorem keyChanged_agreed (known : Option Bytes) (recipPk : Bytes) (rest : Routine ShyakeErr) :
    match agreedKey (known.bind decodedKey) recipPk with
    | some key => key = recipPk ∧ (keyChanged known recipPk >>= fun changed =>
        if changed then .ret .ERR_KEY_MISMATCH else rest) = rest
    | none => ∀ other : Routine ShyakeErr, (keyChanged known recipPk >>= fun changed =>
        if changed then .ret .ERR_KEY_MISMATCH else rest) = keyChanged known recipPk >>= fun changed =>
        if changed then .ret .ERR_KEY_MISMATCH else other := by
  unfold keyChanged agreedKey
  rcases known.bind decodedKey with _ | _ | k
  · exact ⟨rfl, rfl⟩
  · exact fun other =>
      congrArg (Lib.Prog.ask (I := Calls) Call.fault) (funext fun a : Empty => a.elim)
  · dsimp only
    by_cases same : Lib.sha256 k = Lib.sha256 recipPk
    · rw [if_pos same]
      refine ⟨rfl, ?_⟩
      simp only [deref, Lib.Prog.ret_bind, same, bne_self_eq_false]
      rfl
    · rw [if_neg same]
      intro other
      have changed : (Lib.sha256 k != Lib.sha256 recipPk) = true := bne_iff_ne.mpr same
      simp only [deref, Lib.Prog.ret_bind, changed, if_true]

theorem checkFetched_some {known : Option Bytes} {fetched : Option (Option Bytes)} {recipPk : Bytes}
    {rest : Bytes → Routine ShyakeErr} (checked : fetchedKey known fetched = some recipPk) :
    checkFetched known fetched rest = rest recipPk := by
  rcases fetched with _ | _ | fetched
  · cases checked
  · cases checked
  · have agreed := keyChanged_agreed known fetched (rest fetched)
    rw [show agreedKey (known.bind decodedKey) fetched = some recipPk from checked] at agreed
    obtain ⟨rfl, goes⟩ := agreed
    exact goes

theorem checkFetched_none {known : Option Bytes} {fetched : Option (Option Bytes)}
    {rest other : Bytes → Routine ShyakeErr} (refused : fetchedKey known fetched = none) :
    checkFetched known fetched rest = checkFetched known fetched other := by
  rcases fetched with _ | _ | fetched
  · rfl
  · exact congrArg (Lib.Prog.ask (I := Calls) Call.fault) (funext fun a : Empty => a.elim)
  · have agreed := keyChanged_agreed known fetched (rest fetched)
    rw [show agreedKey (known.bind decodedKey) fetched = none from refused] at agreed
    exact agreed (other fetched)

theorem checkThen_some {rest : Bytes → Routine ShyakeErr} {recipPk : Bytes}
    (checked : checkedKey calls replyRef = some recipPk) :
    checkThen calls replyRef rest = rest recipPk := by
  unfold checkThen
  unfold checkedKey at checked
  by_cases ref : replyRef.any (!isRef ·)
  · rw [if_pos ref] at checked
    cases checked
  rw [if_neg ref] at checked ⊢
  cases lookup : calls.lookup with
  | error err =>
    rw [lookup] at checked
    cases checked
  | ok recipPkB64 =>
    rw [lookup] at checked
    exact checkFetched_some checked

theorem checkThen_none {rest other : Bytes → Routine ShyakeErr}
    (refused : checkedKey calls replyRef = none) :
    checkThen calls replyRef rest = checkThen calls replyRef other := by
  unfold checkThen
  unfold checkedKey at refused
  by_cases ref : replyRef.any (!isRef ·)
  · rw [if_pos ref, if_pos ref]
  rw [if_neg ref] at refused ⊢
  rw [if_neg ref]
  cases lookup : calls.lookup with
  | error err => rfl
  | ok recipPkB64 =>
    rw [lookup] at refused
    exact checkFetched_none refused

theorem signAndSend_some {own : Option Bytes} {ssk : Except (Option Bytes) Bytes}
    {draws : Option Draws} {make : Bytes → Draws → Option Sealed} {text : Sealed → Option Bytes}
    {json mySsk : Bytes} {m : Sealed} (sealed : toSign own ssk draws make text = some (json, mySsk, m))
    (send : Sealed → Bytes → ShyakeErr) :
    signAndSend own ssk draws make text send =
      .ask (.sign json mySsk) fun signature => .ret (send m signature) := by
  obtain ⟨myKpk, own', withOwn⟩ := Option.bind_eq_some_iff.mp sealed
  obtain ⟨mySsk', loaded, withKeys⟩ := Option.bind_eq_some_iff.mp withOwn
  obtain ⟨draws', drawn, withDraws⟩ := Option.bind_eq_some_iff.mp withKeys
  obtain ⟨m', made, withMail⟩ := Option.bind_eq_some_iff.mp withDraws
  obtain ⟨json', printed, done⟩ := Option.bind_eq_some_iff.mp withMail
  cases own'
  cases drawn
  cases done
  rcases ssk with _ | ssk
  · cases loaded
  · cases loaded
    unfold signAndSend
    simp only [made, printed, deref, Lib.Prog.ret_bind]

theorem signAndSend_none {own : Option Bytes} {ssk : Except (Option Bytes) Bytes}
    {draws : Option Draws} {make : Bytes → Draws → Option Sealed} {text : Sealed → Option Bytes}
    (unsealed : toSign own ssk draws make text = none) (send other : Sealed → Bytes → ShyakeErr) :
    signAndSend own ssk draws make text send = signAndSend own ssk draws make text other := by
  rcases own with _ | myKpk
  · rfl
  rcases ssk with _ | mySsk
  · rfl
  rcases draws with _ | draws
  · rfl
  unfold signAndSend
  dsimp only
  rcases made : make myKpk draws with _ | m
  · rfl
  rcases printed : text m with _ | json
  · dsimp only
    rw [printed]
    exact congrArg (Lib.Prog.ask (I := Calls) Call.fault) (funext fun a : Empty => a.elim)
  · unfold toSign at unsealed
    simp only [Except.toOption, Option.bind_eq_bind, Option.bind_some, made, printed,
      reduceCtorEq] at unsealed

/-- **A mail is posted exactly if there is a key for it**, to which it is sealed. -/
theorem sendMail_posts :
    match sealedTo kdf keyAead printG kem aead ctx files instanceUrl calls recipient replyRef subject
      body with
    | some (recipPk, m) => ∃ myKpk mySsk draws json,
      checkedKey calls replyRef = some recipPk ∧
      sealMail kem aead draws recipPk myKpk replyRef subject body = some m ∧
      sendMail kdf keyAead printG kem aead ctx files instanceUrl calls recipient replyRef subject body =
        .ask (.sign json mySsk) fun signature =>
          .ret (sent (calls.post (printUnformatted printG (mailRoot
            (signedMail ctx instanceUrl calls recipient body m recipPk) m (base64Encode signature)
            calls.pow))))
    | none => ∀ post,
      sendMail kdf keyAead printG kem aead ctx files instanceUrl { calls with post } recipient replyRef
          subject body =
        sendMail kdf keyAead printG kem aead ctx files instanceUrl calls recipient replyRef subject
          body := by
  unfold sealedTo
  rcases checked : checkedKey calls replyRef with _ | recipPk
  · exact fun post => checkThen_none checked
  rw [Option.bind_eq_bind, Option.bind_some]
  have posts (post : Option Bytes → Posted) :
      sendMail kdf keyAead printG kem aead ctx files instanceUrl { calls with post } recipient
          replyRef subject body = sealAndPost kdf keyAead printG kem aead ctx files instanceUrl
            { calls with post } recipient replyRef subject body recipPk := checkThen_some checked
  rw [sendMail_eq, checkThen_some checked]
  rcases sealed : toSign (files (ctx.path (utf8 "kem_pk.bin"))) (loadSsk kdf keyAead ctx files) calls.draws
    (fun myKpk draws => sealMail kem aead draws recipPk myKpk replyRef subject body)
    (fun m => printUnformatted printG (signedMail ctx instanceUrl calls recipient body m recipPk))
    with _ | ⟨json, mySsk, m⟩
  · intro post
    rw [posts]
    exact signAndSend_none sealed _ _
  · obtain ⟨myKpk, own, withOwn⟩ := Option.bind_eq_some_iff.mp sealed
    obtain ⟨mySsk', loaded, withKeys⟩ := Option.bind_eq_some_iff.mp withOwn
    obtain ⟨draws, drawn, withDraws⟩ := Option.bind_eq_some_iff.mp withKeys
    obtain ⟨m', made, withMail⟩ := Option.bind_eq_some_iff.mp withDraws
    obtain ⟨json', printed, done⟩ := Option.bind_eq_some_iff.mp withMail
    cases done
    exact ⟨myKpk, mySsk, draws, json, rfl, made, signAndSend_some sealed _⟩

end

end Shyake.Client
