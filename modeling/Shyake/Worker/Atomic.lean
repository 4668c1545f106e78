import Shyake.Worker.Parties

/-!
# Rotation and destruction when the database fails

`rotate` and `destroy` run two and three statements under one `catch`. A statement that
fails after the first one leaves the new keys behind an error.
-/

namespace Shyake.Worker

open Lib.Prog

def Reply.status : Reply → Nat
  | .fail status _ => status
  | .message status _ _ => status
  | .crash => 500
  | _ => 200

/-- A request that is answered with nothing in between, from `w` to `w'`. -/
structure Answered (e : Env) (r : Request) (w : World) (l : Log) (reply : Reply) (w' : World) :
    Prop where
  served : Lib.Serves (S := service e) (fun _ => True) w l w'
  handled : (handler e r).Resumes (I := Effects) l (.ret reply)

/-- The keys that a request is to leave. -/
def NewKeys (e : Env) (r : Request) (k : Bytes × Bytes) : Prop :=
  if r.route = .destroy then k = ([], [])
  else ∃ b, e.rotate r.body = some b ∧ b.kem.bound = some k.1 ∧ b.sig.bound = some k.2

/-- What is true of the tables after the request. -/
structure Completed (e : Env) (r : Request) (db : Db) : Prop where
  keys : ∃ k, NewKeys e r k ∧ db.keys r.username = some k
  mail : ∀ m ∈ db.mail, Db.names r.username m = false
  blocks : r.route = .destroy → ∀ b ∈ db.blocks, b.blocker ≠ r.username ∧ b.blocked ≠ r.username

/-- An error leaves the tables as they were, and a success leaves them changed. -/
structure Atomic (e : Env) (r : Request) (w : World) (reply : Reply) (w' : World) : Prop where
  failed : 400 ≤ reply.status → w'.db = w.db
  succeeded : reply.status = 200 → Completed e r w'.db

/-- A statement that fails after the keys have been updated; an update that changes nothing does
not count. -/
def FailsLate (e : Env) (r : Request) (w : World) (l : Log) : Prop :=
  ∃ (st : Stmt) (k : Bytes × Bytes), NewKeys e r k ∧ (⟨.db st, none⟩ : Lib.Event Effects) ∈ l ∧
    (⟨.db (.updateKeys r.username k.1 k.2), some ()⟩ : Lib.Event Effects) ∈ l ∧
    w.db.users.map (Db.setKeys r.username k.1 k.2) ≠ w.db.users

/-! ## What the statements leave -/

section

variable {e : Env} {r : Request} {w w' : World} {l : Log}

/-- Questions that only look up leave the database alone. -/
theorem db_of_looksUp (served : Lib.Serves (S := service e) (fun _ => True) w l w')
    (quiet : ∀ ev ∈ l, ev.query.looksUp) : w'.db = w.db := by
  refine served.invariant (fun v : World => v.db = w.db) rfl ?_ ?_
  · intro v o v' ev mem same answered
    have looks := quiet ev mem
    rcases serve_db answered with kept | ⟨st, query, kept⟩
    · exact kept.trans same
    · rw [query] at looks
      cases st with
      | keys username => exact kept.trans same
      | _ => exact looks.elim
  · intro v clock v' same moved
    have moved : drift v clock = some v' := moved
    unfold drift at moved
    split at moved
    · cases moved
      exact same
    · cases moved

theorem serves_nil (served : Lib.Serves (S := service e) (fun _ => True) w [] w') :
    w'.db = w.db :=
  db_of_looksUp served nofun

/-- The first statement of a log, and the rest. -/
theorem serves_stmt {st : Stmt} {a : Option st.Result}
    (served : Lib.Serves (S := service e) (fun _ => True) w (⟨.db st, a⟩ :: l) w') :
    ∃ w₁, Lib.Serves (S := service e) (fun _ => True) w₁ l w' ∧
      (a = (w.db.exec st).1 ∧ w₁.db = (w.db.exec st).2 ∨ a = none ∧ w₁.db = w.db) := by
  obtain ⟨w₁, first, rest⟩ :=
    Lib.Serves.append_inv (S := service e) (l := ([⟨.db st, a⟩] : Log)) served
  obtain ⟨v, o, v', before, answered, after⟩ := first.single_inv
  have same := serves_nil before
  have same' := serves_nil after
  refine ⟨w₁, rest, ?_⟩
  rcases serve_db_cases answered with ⟨rfl, rfl⟩ | ⟨rfl, rfl⟩
  · exact .inl ⟨by rw [← same], by rw [same', ← same]⟩
  · exact .inr ⟨rfl, same'.trans same⟩

theorem setKeys_username (username kem sig : Bytes) (u : User) :
    (Db.setKeys username kem sig u).username = u.username := by
  unfold Db.setKeys
  split <;> rfl

/-- A user that is there has the keys of the last update. -/
theorem keys_of_update {db : Db} {username kem sig : Bytes} {k : Bytes × Bytes}
    (here : db.keys username = some k) :
    (db.exec (.updateKeys username kem sig)).2.keys username = some (kem, sig) := by
  unfold Db.keys at here
  obtain ⟨u, found, -⟩ := Option.map_eq_some_iff.mp here
  have name : u.username = username := by simpa using List.find?_some found
  show ((db.users.map (Db.setKeys username kem sig)).find? fun u => u.username == username).map _ = _
  have same : ((fun u : User => u.username == username) ∘ Db.setKeys username kem sig) =
      fun u => u.username == username := by
    funext u
    simp only [Function.comp_apply, setKeys_username]
  rw [List.find?_map, same, found]
  simp only [Option.map_some, Db.setKeys, name, if_true]

/-- An update that changes nothing leaves the keys that were there. -/
theorem keys_of_same {db : Db} {username kem sig : Bytes} {k : Bytes × Bytes}
    (here : db.keys username = some k)
    (same : db.users.map (Db.setKeys username kem sig) = db.users) : k = (kem, sig) := by
  have updated : (db.exec (.updateKeys username kem sig)).2.keys username = some (kem, sig) :=
    keys_of_update here
  have kept : (db.exec (.updateKeys username kem sig)).2 = db := by
    show ({ db with users := db.users.map (Db.setKeys username kem sig) } : Db) = db
    rw [same]
  rw [kept, here] at updated
  exact Option.some.inj updated

/-! ## What the checks leave -/

theorem sig_ne_nil {message sig text : Bytes} (passed : checkSigned e r message (some text) sig = .ok ()) :
    sig ≠ [] := by
  rintro rfl
  unfold checkSigned at passed
  rw [if_pos ⟨rfl, rfl⟩] at passed
  cases passed

theorem checkSigned_fails {message : Bytes} {destroyed : Option Bytes} {sig : Bytes} {reply : Reply}
    (refused : checkSigned e r message destroyed sig = .error reply) : 400 ≤ reply.status := by
  unfold checkSigned at refused
  split at refused
  · cases refused
    exact (by decide : 400 ≤ 401)
  dsimp only at refused
  split at refused
  · cases refused
    decide
  · cases refused
    decide
  · cases refused

/-- The checks, which began with the log `l`, have found a user with keys. -/
structure FoundUser (r : Request) (l l' : Log) : Prop where
  keys : ∃ kem sig, sig ≠ [] ∧
    (⟨.db (.keys r.username), some (some (kem, sig))⟩ : Lib.Event Effects) ∈ l'
  answered : ∀ st, (⟨.db st, none⟩ : Lib.Event Effects) ∈ l' → (⟨.db st, none⟩ : Lib.Event Effects) ∈ l

/-- `headerAuth` looks up and no more; it refuses with an error, or has found a user with keys. -/
theorem headerAuth_looksUp (message text : Bytes) :
    (headerAuth e r message (some text)).Meets (I := Effects) (fun _ q => q.looksUp)
      (fun l' res => match res with
        | .error reply => 400 ≤ reply.status
        | .ok _ => FoundUser r l l') l := by
  unfold headerAuth
  split
  · exact (by decide : 400 ≤ 401)
  refine (meets_ask_bind _ _).mpr ⟨trivial, fun now => ?_⟩
  split
  · exact (by decide : 400 ≤ 403)
  refine (meets_ask_bind _ _).mpr ⟨trivial, fun later => ?_⟩
  split
  · exact (by decide : 400 ≤ 403)
  refine (meets_ask_bind _ _).mpr ⟨trivial, fun user => ?_⟩
  match user with
  | none => exact (by decide : 400 ≤ 500)
  | some none => exact (by decide : 400 ≤ 401)
  | some (some (kem, sig)) =>
    dsimp only [pure_eq]
    rw [meets_ret]
    cases checked : checkSigned e r message (some text) sig with
    | error reply => exact checkSigned_fails checked
    | ok _ =>
      exact
        { keys := ⟨kem, sig, sig_ne_nil checked, List.mem_append_right _ List.mem_cons_self⟩,
          answered := fun st failed => by
            rcases (by simpa using failed) with before | ⟨rfl, same⟩
            · exact before
            · cases same }

theorem auth_looksUp (method path text : Bytes) :
    (auth e r method path (some text)).Meets (I := Effects) (fun _ q => q.looksUp)
      (fun l' res => match res with
        | .error reply => 400 ≤ reply.status
        | .ok _ => FoundUser r l l') l := by
  unfold auth
  split
  · exact (by decide : 400 ≤ 413)
  · exact headerAuth_looksUp _ _

/-- What a request that passes the checks has found, and that it has changed nothing yet. -/
theorem passed_of_auth {p : Handler (Except Reply Unit)}
    (meets : p.Meets (I := Effects) (fun _ q => q.looksUp)
      (fun l' res => match res with
        | .error reply => 400 ≤ reply.status
        | .ok _ => FoundUser r [] l') [])
    (served : Lib.Serves (S := service e) (fun _ => True) w l w') {res : Except Reply Unit}
    (handled : p.Resumes (I := Effects) l (.ret res)) :
    w'.db = w.db ∧ (∀ kem sig,
      (⟨.db (.updateKeys r.username kem sig), some ()⟩ : Lib.Event Effects) ∉ l) ∧
      match res with
      | .error reply => 400 ≤ reply.status
      | .ok _ => (∃ kem sig, sig ≠ [] ∧ w.db.keys r.username = some (kem, sig)) ∧
          ∀ st, (⟨.db st, none⟩ : Lib.Event Effects) ∉ l := by
  have looks : ∀ ev ∈ l, ev.query.looksUp := by
    intro ev mem
    obtain ⟨l₁, l₂, rfl⟩ := List.append_of_mem mem
    exact meets.logged handled l₁ ev (by simp)
  have same := db_of_looksUp served looks
  have result := meets.resumes handled
  refine ⟨same, fun kem sig mem => looks _ mem, ?_⟩
  cases res with
  | error reply => exact result
  | ok _ =>
    obtain ⟨kem, sig, ne, read⟩ := FoundUser.keys result
    refine ⟨⟨kem, sig, ne, ?_⟩, fun st failed => nomatch FoundUser.answered result st failed⟩
    obtain ⟨l₁, l₂, rfl⟩ := List.append_of_mem read
    obtain ⟨v, before, rest⟩ := served.append_inv
    have kept := db_of_looksUp before fun ev mem => looks ev (List.mem_append_left _ mem)
    obtain ⟨v', -, answer⟩ := serves_stmt rest
    rcases answer with ⟨answer, -⟩ | ⟨answer, -⟩
    · rw [← kept]
      exact (Option.some.inj answer).symm
    · cases answer

/-! ## What the statements of an operation leave -/

/-- The request was refused before its first write, or that write failed. -/
def Refused (r : Request) (w : World) (l : Log) (reply : Reply) (w' : World) : Prop :=
  400 ≤ reply.status ∧ w'.db = w.db ∧ ∀ kem sig,
    (⟨.db (.updateKeys r.username kem sig), some ()⟩ : Lib.Event Effects) ∉ l

/-- The keys were updated. -/
structure Updated (e : Env) (r : Request) (w : World) (l : Log) (k : Bytes × Bytes) : Prop where
  before : ∃ kem sig, sig ≠ [] ∧ w.db.keys r.username = some (kem, sig)
  new : NewKeys e r k
  logged : (⟨.db (.updateKeys r.username k.1 k.2), some ()⟩ : Lib.Event Effects) ∈ l

/-- A later statement failed. -/
structure Broken (r : Request) (w : World) (l : Log) (k : Bytes × Bytes) (reply : Reply)
    (w' : World) : Prop where
  status : 400 ≤ reply.status
  failed : ∃ st, (⟨.db st, none⟩ : Lib.Event Effects) ∈ l
  users : w'.db.users = w.db.users.map (Db.setKeys r.username k.1 k.2)
  /-- The other tables are as before, unless a destruction has lost the mail already. -/
  rest : r.route ≠ .destroy → w'.db.mail = w.db.mail ∧ w'.db.blocks = w.db.blocks

/-- All statements succeeded. -/
structure Finished (e : Env) (r : Request) (l : Log) (reply : Reply) (w' : World) : Prop where
  status : reply.status = 200
  completed : Completed e r w'.db
  succeeded : ∀ st, (⟨.db st, none⟩ : Lib.Event Effects) ∉ l

/-- The four ends of an operation. -/
def Outcome (e : Env) (r : Request) (w : World) (l : Log) (reply : Reply) (w' : World) : Prop :=
  Refused r w l reply w' ∨
    ∃ k, Updated e r w l k ∧ (Broken r w l k reply w' ∨ Finished e r l reply w')

/-- A handler that runs a statement next. -/
theorem next_stmt {st : Stmt} {f : Option st.Result → Handler Reply} {reply : Reply}
    (served : Lib.Serves (S := service e) (fun _ => True) w l w')
    (handled : (exec st >>= f).Resumes (I := Effects) l (.ret reply)) :
    ∃ a l' w₁, l = ⟨.db st, a⟩ :: l' ∧ (f a).Resumes (I := Effects) l' (.ret reply) ∧
      Lib.Serves (S := service e) (fun _ => True) w₁ l' w' ∧
      (a = (w.db.exec st).1 ∧ w₁.db = (w.db.exec st).2 ∨ a = none ∧ w₁.db = w.db) := by
  have handled : (Lib.Prog.ask (I := Effects) (.db st) f).Resumes l (.ret reply) := handled
  rcases Resumes.ask_inv (I := Effects) (q := .db st) (k := f) handled with ⟨-, same⟩ | ⟨a, l', rfl, rest⟩
  · cases same
  · obtain ⟨w₁, after, answer⟩ := serves_stmt served
    exact ⟨a, l', w₁, rfl, rest, after, answer⟩

/-- A handler that is done. -/
theorem done {reply reply' : Reply}
    (served : Lib.Serves (S := service e) (fun _ => True) w l w')
    (handled : (.ret reply' : Handler Reply).Resumes (I := Effects) l (.ret reply)) :
    l = [] ∧ reply = reply' ∧ w'.db = w.db := by
  obtain ⟨rfl, same⟩ := handled.ret_inv
  cases same
  exact ⟨rfl, rfl, serves_nil served⟩

theorem mail_of_delete {db : Db} {username : Bytes} :
    ∀ m ∈ (db.exec (.deleteMail username)).2.mail, Db.names username m = false := by
  intro m mem
  simpa using (List.mem_filter.mp mem).2

/-- A refusal before the first write. -/
theorem refused_of_checks {l₁ l₂ : Log} {w₁ : World} {reply reply' : Reply}
    (unwritten : ∀ kem sig,
      (⟨.db (.updateKeys r.username kem sig), some ()⟩ : Lib.Event Effects) ∉ l₁)
    (same : w₁.db = w.db)
    (after : Lib.Serves (S := service e) (fun _ => True) w₁ l₂ w')
    (handled : (.ret reply' : Handler Reply).Resumes (I := Effects) l₂ (.ret reply))
    (status : 400 ≤ reply'.status) : Outcome e r w (l₁ ++ l₂) reply w' := by
  obtain ⟨rfl, rfl, kept⟩ := done after handled
  refine .inl ⟨status, kept.trans same, fun kem sig mem => ?_⟩
  rw [List.append_nil] at mem
  exact unwritten kem sig mem

/-- The two statements that both operations begin with; `last` is what follows them. -/
theorem outcome_of_writes {l₁ l₂ : Log} {w₁ : World} {reply : Reply} {kem sig : Bytes}
    {f g : Option Unit → Handler Reply}
    (unwritten : ∀ kem sig,
      (⟨.db (.updateKeys r.username kem sig), some ()⟩ : Lib.Event Effects) ∉ l₁)
    (found : ∃ kem sig, sig ≠ [] ∧ w.db.keys r.username = some (kem, sig))
    (quiet : ∀ st, (⟨.db st, none⟩ : Lib.Event Effects) ∉ l₁) (same : w₁.db = w.db)
    (new : NewKeys e r (kem, sig)) (failed : f none = .ret (fail 500 "Database error"))
    (next : f (some ()) = exec (.deleteMail r.username) >>= g)
    (failed' : g none = .ret (fail 500 "Database error"))
    (after : Lib.Serves (S := service e) (fun _ => True) w₁ l₂ w')
    (handled : (exec (.updateKeys r.username kem sig) >>= f).Resumes (I := Effects) l₂ (.ret reply))
    (last : ∀ l₃ w₂, w₂.db = ((w.db.exec (.updateKeys r.username kem sig)).2.exec
          (.deleteMail r.username)).2 →
      Lib.Serves (S := service e) (fun _ => True) w₂ l₃ w' →
      (g (some ())).Resumes (I := Effects) l₃ (.ret reply) →
      reply.status = 200 ∧ (∀ st, (⟨.db st, none⟩ : Lib.Event Effects) ∉ l₃) ∧
          Completed e r w'.db ∨
        400 ≤ reply.status ∧ (∃ st, (⟨.db st, none⟩ : Lib.Event Effects) ∈ l₃) ∧
          w'.db.users = w₂.db.users ∧ r.route = .destroy) :
    Outcome e r w (l₁ ++ l₂) reply w' := by
  obtain ⟨a, l₃, w₂, rfl, handled, rest, answer⟩ := next_stmt after handled
  cases a with
  | none =>
    rw [failed] at handled
    obtain ⟨rfl, rfl, kept⟩ := done rest handled
    have unchanged : w₂.db = w₁.db := by
      rcases answer with ⟨answer, -⟩ | ⟨-, unchanged⟩
      · cases answer
      · exact unchanged
    refine .inl ⟨(by decide : 400 ≤ 500), kept.trans (unchanged.trans same), fun k s mem => ?_⟩
    rcases List.mem_append.mp mem with mem | mem
    · exact unwritten k s mem
    · cases List.mem_singleton.mp mem
  | some _ =>
    have written : w₂.db = (w.db.exec (.updateKeys r.username kem sig)).2 := by
      rcases answer with ⟨-, written⟩ | ⟨answer, -⟩
      · rw [written, same]
      · cases answer
    refine .inr ⟨(kem, sig), ⟨found, new, by simp⟩, ?_⟩
    rw [next] at handled
    obtain ⟨a, l₄, w₃, rfl, handled, rest', answer⟩ := next_stmt rest handled
    cases a with
    | none =>
      rw [failed'] at handled
      obtain ⟨rfl, rfl, kept⟩ := done rest' handled
      have unchanged : w₃.db = w₂.db := by
        rcases answer with ⟨answer, -⟩ | ⟨-, unchanged⟩
        · cases answer
        · exact unchanged
      have whole : w'.db = (w.db.exec (.updateKeys r.username kem sig)).2 :=
        kept.trans (unchanged.trans written)
      exact .inl
        { status := (by decide : 400 ≤ 500),
          failed := ⟨.deleteMail r.username, by simp⟩,
          users := by
            rw [whole]
            rfl,
          rest := fun _ => by
            rw [whole]
            exact ⟨rfl, rfl⟩ }
    | some _ =>
      have removed : w₃.db = ((w.db.exec (.updateKeys r.username kem sig)).2.exec
          (.deleteMail r.username)).2 := by
        rcases answer with ⟨-, removed⟩ | ⟨answer, -⟩
        · rw [removed, written]
        · cases answer
      rcases last l₄ w₃ removed rest' handled with ⟨status, all, completed⟩ |
        ⟨status, ⟨st, broke⟩, users, route⟩
      · refine .inr ⟨status, completed, fun st mem => ?_⟩
        rcases List.mem_append.mp mem with mem | mem
        · exact quiet st mem
        rcases List.mem_cons.mp mem with mem | mem
        · cases mem
        rcases List.mem_cons.mp mem with mem | mem
        · cases mem
        · exact all st mem
      · exact .inl
          { status := status,
            failed := ⟨st, List.mem_append_right _
              (List.mem_cons_of_mem _ (List.mem_cons_of_mem _ broke))⟩,
            users := by
              rw [users, removed]
              rfl,
            rest := fun other => absurd route other }

theorem rotate_outcome {reply : Reply} (route : r.route = .rotate)
    (served : Lib.Serves (S := service e) (fun _ => True) w l w')
    (handled : (rotate e r).Resumes (I := Effects) l (.ret reply)) :
    Outcome e r w l reply w' := by
  obtain ⟨l₁, l₂, res, rfl, checks, statements⟩ := handled.bind_inv
  obtain ⟨w₁, before, after⟩ := served.append_inv
  obtain ⟨same, unwritten, passed⟩ := passed_of_auth (auth_looksUp _ _ _) before checks
  cases res with
  | error refused => exact refused_of_checks unwritten same after statements passed
  | ok _ =>
    obtain ⟨found, quiet⟩ := passed
    dsimp only at statements
    split at statements
    · exact refused_of_checks unwritten same after statements (by decide : 400 ≤ 400)
    rename_i b decoded
    split at statements
    · exact refused_of_checks unwritten same after statements (by decide : 400 ≤ 400)
    split at statements
    · rename_i kem sig hkem hsig
      have new : NewKeys e r (kem, sig) := by
        unfold NewKeys
        rw [if_neg (by rw [route]; exact nofun)]
        exact ⟨b, decoded, hkem, hsig⟩
      refine outcome_of_writes unwritten found quiet same new rfl rfl rfl after statements ?_
      intro l₃ w₂ written after handled
      obtain ⟨rfl, rfl, kept⟩ := done after handled
      obtain ⟨k, s, -, here⟩ := found
      refine .inl ⟨rfl, nofun, ⟨⟨(kem, sig), new, ?_⟩, ?_, fun other => ?_⟩⟩
      · rw [kept, written]
        exact keys_of_update here
      · rw [kept, written]
        exact mail_of_delete
      · rw [route] at other
        cases other
    · exact refused_of_checks unwritten same after statements (by decide : 400 ≤ 500)

theorem destroy_outcome {reply : Reply} (route : r.route = .destroy)
    (served : Lib.Serves (S := service e) (fun _ => True) w l w')
    (handled : (destroy e r).Resumes (I := Effects) l (.ret reply)) :
    Outcome e r w l reply w' := by
  obtain ⟨l₁, l₂, res, rfl, checks, statements⟩ := handled.bind_inv
  obtain ⟨w₁, before, after⟩ := served.append_inv
  obtain ⟨same, unwritten, passed⟩ := passed_of_auth (headerAuth_looksUp _ _) before checks
  cases res with
  | error refused => exact refused_of_checks unwritten same after statements passed
  | ok _ =>
    obtain ⟨found, quiet⟩ := passed
    have new : NewKeys e r ([], []) := by
      unfold NewKeys
      rw [if_pos route]
    refine outcome_of_writes unwritten found quiet same new rfl rfl rfl after statements ?_
    intro l₃ w₂ written after handled
    obtain ⟨a, l₄, w₃, rfl, handled, rest, answer⟩ := next_stmt after handled
    cases a with
    | none =>
      obtain ⟨rfl, rfl, kept⟩ := done rest handled
      have unchanged : w₃.db = w₂.db := by
        rcases answer with ⟨answer, -⟩ | ⟨-, unchanged⟩
        · cases answer
        · exact unchanged
      exact .inr ⟨(by decide : 400 ≤ 500), ⟨_, List.mem_cons_self⟩,
        congrArg Db.users (kept.trans unchanged), route⟩
    | some _ =>
      obtain ⟨rfl, rfl, kept⟩ := done rest handled
      have removed : w₃.db = (w₂.db.exec (.deleteBlocks r.username)).2 := by
        rcases answer with ⟨-, removed⟩ | ⟨answer, -⟩
        · exact removed
        · cases answer
      obtain ⟨k, s, -, here⟩ := found
      refine .inl ⟨rfl, fun st mem => ?_, ⟨⟨([], []), new, ?_⟩, ?_, fun _ => ?_⟩⟩
      · cases List.mem_singleton.mp mem
      · rw [kept, removed, written]
        exact keys_of_update here
      · rw [kept, removed, written]
        exact mail_of_delete
      · rw [kept, removed]
        intro b mem
        simpa using (List.mem_filter.mp mem).2

theorem NewKeys.unique {k k' : Bytes × Bytes} (h : NewKeys e r k) (h' : NewKeys e r k') : k = k' := by
  unfold NewKeys at h h'
  split at h
  · rename_i route
    rw [if_pos route] at h'
    exact h.trans h'.symm
  · rename_i route
    rw [if_neg route] at h'
    obtain ⟨b, decoded, kem, sig⟩ := h
    obtain ⟨b', decoded', kem', sig'⟩ := h'
    rw [decoded] at decoded'
    cases decoded'
    exact Prod.ext (Option.some.inj (kem.symm.trans kem')) (Option.some.inj (sig.symm.trans sig'))

/-- When the update has changed nothing, neither has the operation. -/
theorem Broken.unchanged {k : Bytes × Bytes} {reply : Reply} (broken : Broken r w l k reply w')
    (updated : Updated e r w l k)
    (same : w.db.users.map (Db.setKeys r.username k.1 k.2) = w.db.users) : w'.db = w.db := by
  have other : r.route ≠ .destroy := by
    intro route
    have new := updated.new
    unfold NewKeys at new
    rw [if_pos route] at new
    obtain ⟨kem, sig, ne, here⟩ := updated.before
    have kept := keys_of_same here same
    rw [new] at kept
    exact ne (congrArg Prod.snd kept)
  obtain ⟨mail, blocks⟩ := broken.rest other
  have users := broken.users.trans same
  cases h : w'.db
  cases h' : w.db
  simp_all

/-- **An operation is atomic exactly when no statement fails after its keys have changed.** -/
theorem account_atomic (e : Env) (r : Request) (route : r.route = .rotate ∨ r.route = .destroy)
    (w : World) (l : Log) (reply : Reply) (w' : World) (answered : Answered e r w l reply w') :
    Atomic e r w reply w' ↔ ¬ FailsLate e r w l := by
  have outcome : Outcome e r w l reply w' := by
    have handled := answered.handled
    unfold handler at handled
    rcases route with route | route
    · rw [route] at handled
      exact rotate_outcome route answered.served handled
    · rw [route] at handled
      exact destroy_outcome route answered.served handled
  rcases outcome with ⟨status, same, unwritten⟩ | ⟨k, updated, broken | finished⟩
  · refine iff_of_true ⟨fun _ => same, fun ok => by omega⟩ ?_
    rintro ⟨st, k, -, -, logged, -⟩
    exact unwritten k.1 k.2 logged
  · by_cases same : w.db.users.map (Db.setKeys r.username k.1 k.2) = w.db.users
    · refine iff_of_true ⟨fun _ => broken.unchanged updated same, fun ok => ?_⟩ ?_
      · have error := broken.status
        omega
      · rintro ⟨st, k', new, -, -, changed⟩
        obtain rfl := new.unique updated.new
        exact changed same
    · refine iff_of_false (fun atomic => ?_) ?_
      · have kept := atomic.failed broken.status
        exact same (by rw [← broken.users, kept])
      · obtain ⟨st, failed⟩ := broken.failed
        exact not_not_intro ⟨st, k, updated.new, failed, updated.logged, same⟩
  · refine iff_of_true ⟨fun error => ?_, fun _ => finished.completed⟩ ?_
    · have ok := finished.status
      omega
    · rintro ⟨st, k, -, failed, -⟩
      exact finished.succeeded st failed

end

namespace Sample

open Go.Sample (kemPubkey sigPubkey signature)

/-- carol destroys her account. -/
def destruction : Request :=
  ⟨.destroy, utf8 "carol", utf8 "1749513600", signature 67, utf8 "1:20:250610:carol::one:8a3c2", []⟩

def destroyText : Bytes := utf8 "DELETE:/api/destroy:carol:1749513600"

/-- The instance knows that signature. -/
def destroying : Env :=
  { env letter with
    verifySignature := fun key message sig =>
      some (message == destroyText && key == toBase64UrlPlain (sigPubkey 67) &&
        sig == toBase64UrlPlain (signature 67)) }

/-- The keys of carol are gone, her mail is not. -/
def halfway : World :=
  ⟨1749513600000, ((holding [toCarol]).db.exec (.updateKeys (utf8 "carol") [] [])).2⟩

def brokenLog : Log := authLog 1749513600000 (utf8 "carol") (kemPubkey 67) (sigPubkey 67) ++
  [⟨.db (.updateKeys (utf8 "carol") [] []), some ()⟩, ⟨.db (.deleteMail (utf8 "carol")), none⟩]

theorem destruction_signed : checkSigned destroying destruction
    (headerMessage destruction (utf8 "DELETE") (utf8 "/api/destroy"))
    (some (utf8 "User not found or already destroyed")) (sigPubkey 67) = .ok () := by
  have text : headerMessage destruction (utf8 "DELETE") (utf8 "/api/destroy") = destroyText := by
    decide
  have verified : destroying.verifySignature (toBase64UrlPlain (sigPubkey 67)) destroyText
      (toBase64UrlPlain destruction.signature) = some true := by
    simp only [destroying, destruction, beq_self_eq_true, Bool.and_self]
  unfold checkSigned
  rw [text, if_neg fun h => Go.Sample.sigPubkey_ne_nil 67 h.1]
  simp only [Option.isSome_some, if_true, verified]

/-- The second statement fails. -/
theorem answered_halfway : Answered destroying destruction (holding [toCarol]) brokenLog
    (fail 500 "Database error") halfway := by
  have checks : (headerAuth destroying destruction
      (headerMessage destruction (utf8 "DELETE") (utf8 "/api/destroy"))
      (some (utf8 "User not found or already destroyed"))).Resumes
      (authLog 1749513600000 (utf8 "carol") (kemPubkey 67) (sigPubkey 67)) (.ret (.ok ())) := by
    refine headerAuth_resumes ⟨?_, ?_, ?_, ?_⟩ ?_ ?_ destruction_signed
    · decide
    · decide
    · exact Go.Sample.signature_ne_nil 67
    · decide
    · decide +kernel
    · decide +kernel
  have updated : Lib.Serves (S := service destroying) (fun _ => True) (holding [toCarol])
      [⟨.db (.updateKeys (utf8 "carol") [] []), some ()⟩] halfway :=
    serves_exec trivial (.updateKeys (utf8 "carol") [] []) rfl
  have broke : Lib.Serves (S := service destroying) (fun _ => True) halfway
      [⟨.db (.deleteMail (utf8 "carol")), none⟩] halfway :=
    Lib.Serves.start.event .dbError trivial rfl
  refine ⟨(serves_carol destroying).trans (updated.trans broke), ?_⟩
  show (destroy destroying destruction).Resumes _ _
  refine checks.bind.trans ?_
  refine resumes_ask (.db (.updateKeys _ _ _)) (some ()) ?_
  exact resumes_ask (.db (.deleteMail _)) none .start

/-- **A destruction that fails after its first statement** answers with an error, and carol has no
keys any more. -/
theorem destroyed_halfway : ∃ w', Answered destroying destruction (holding [toCarol]) brokenLog
    (fail 500 "Database error") w' ∧
    ¬ Atomic destroying destruction (holding [toCarol]) (fail 500 "Database error") w' := by
  refine ⟨halfway, answered_halfway, fun atomic => ?_⟩
  have same := congrArg (Db.keys (utf8 "carol")) (atomic.failed (by decide : 400 ≤ 500))
  have gone : Db.keys (utf8 "carol") halfway.db = some ([], []) := by decide
  have before : Db.keys (utf8 "carol") (holding [toCarol]).db = some (kemPubkey 67, sigPubkey 67) := by
    have first : (alice.username == utf8 "carol") = false := by decide
    have second : (bobby.username == utf8 "carol") = false := by decide
    have third : (carol.username == utf8 "carol") = true := by decide
    unfold Db.keys
    simp only [holding, List.find?_cons, first, second, third]
    rfl
  rw [gone, before] at same
  exact Go.Sample.sigPubkey_ne_nil 67 (congrArg Prod.snd (Option.some.inj same)).symm

/-- The same run, for the theorem. -/
theorem account_atomic_halfway :
    Atomic destroying destruction (holding [toCarol]) (fail 500 "Database error") halfway ↔
      ¬ FailsLate destroying destruction (holding [toCarol]) brokenLog :=
  account_atomic destroying destruction (.inr rfl) _ _ _ _ answered_halfway

end Sample

end Shyake.Worker
