import Shyake.Go.Api.Identical

/-!
# A mail that is confirmed is there

A submission is answered with an id once its mail has a row. From then on the row stays in the table,
whatever else is done at the same time, until one of its two parties removes it.
-/

namespace Shyake.Go

open Lib.Prog

/-! ## Removal -/

/-- What a user has a mail removed with: by its id, or with all mail of the account. -/
inductive Removes (u : Bytes) (m : Mail) (r : Request) : Lib.Event Effects → Prop where
  | burn (route : r.route = .burnMail m.id) : Removes u m r ⟨.db (.deleteMail m.id u), .ok ()⟩
  | rotate (route : r.route = .rotate) (kem sig : Bytes) :
    Removes u m r ⟨.db (.rotateKeys u kem sig), .ok ()⟩
  | destroy (route : r.route = .destroy) : Removes u m r ⟨.db (.destroyUser u), .ok ()⟩

/-- After a log, a request removes the mail for one of the mail's parties, as whom it is
authenticated. -/
def RemovedBy (s : Server) (m : Mail) (r : Request) (l : Log) (e : Lib.Event Effects) : Prop :=
  ∃ u, Db.names u m = true ∧ ActsAs s r l u ∧ Removes u m r e

variable {s : Server}

/-- Between two points of a run, a request has removed the mail for one of its parties. -/
def RemovedSince (c₁ c : State s) (m : Mail) : Prop :=
  ∃ (i : Nat) (t : Lib.Thread (service s)) (l : Log) (e : Lib.Event Effects),
    c.threads[i]? = some t ∧ l ++ [e] <+: t.log ∧
    (∀ t₁, c₁.threads[i]? = some t₁ → t₁.log.length ≤ l.length) ∧ RemovedBy s m t.req l e

/-- What takes a row out of the table is a removal by one of the mail's parties. -/
theorem Db.removes_of_gone {db : Db} {st : Stmt} {row : MailRow} (here : row ∈ db.mail)
    (gone : row ∉ (db.exec st).2.mail) : ∃ u, Db.names u row.mail = true ∧
      ((st = .deleteMail row.mail.id u ∧ (db.exec (.deleteMail row.mail.id u)).1 = .ok ()) ∨
        (∃ kem sig, st = .rotateKeys u kem sig ∧ (db.exec (.rotateKeys u kem sig)).1 = .ok ()) ∨
        st = .destroyUser u ∧ (db.exec (.destroyUser u)).1 = .ok ()) := by
  have kept (p : Mail → Bool) (not : row ∉ db.mail.filter fun r => !p r.mail) : p row.mail = true := by
    by_contra other
    exact not (List.mem_filter.mpr ⟨here, by simpa using other⟩)
  cases st with
  | deleteMail id u =>
    simp only [exec, deleteMail] at gone ⊢
    split at gone
    · rename_i found
      have both := kept (fun m => m.id == id && names u m) gone
      rw [Bool.and_eq_true, beq_iff_eq] at both
      obtain ⟨rfl, party⟩ := both
      exact ⟨u, party, .inl ⟨rfl, by rw [if_pos found]⟩⟩
    · exact absurd here gone
  | rotateKeys u kem sig =>
    simp only [exec, rotateKeys] at gone ⊢
    split at gone
    · rename_i user
      exact ⟨u, kept (names u) gone, .inr (.inl ⟨kem, sig, rfl, by rw [if_pos user]⟩)⟩
    · exact absurd here gone
  | destroyUser u =>
    simp only [exec, destroyUser] at gone ⊢
    split at gone
    · rename_i user
      exact ⟨u, kept (names u) gone, .inr (.inr ⟨rfl, by rw [if_pos user]⟩)⟩
    · exact absurd here gone
  | _ => exact absurd (Db.mail_kept here (by simp) (by simp) (by simp)) gone

section

variable {ok : State s → Lib.Label (service s) → Prop} {clock : Time} {db : Db} {c₁ c : State s}

/-- What has been removed stays removed. -/
theorem RemovedSince.later {m : Mail} {c' : State s} (h : RemovedSince c₁ c m)
    (grows : ∀ (i : Nat) (t₀ : Lib.Thread (service s)), c.threads[i]? = some t₀ →
      ∃ t, c'.threads[i]? = some t ∧ t.req = t₀.req ∧ t₀.log <+: t.log) : RemovedSince c₁ c' m := by
  obtain ⟨i, t, l, e, thread, pre, since, removed⟩ := h
  obtain ⟨t', thread', req, longer⟩ := grows i t thread
  exact ⟨i, t', l, e, thread', pre.trans longer, since, req ▸ removed⟩

/-- One step of one request keeps a row, or is a removal by a party. -/
theorem row_acts (first : Lib.Run ok (State.start s clock db) c) {row : MailRow}
    (here : row ∈ c.shared.db.mail) (after : Lib.Run ok c₁ c) {i : Nat} {o : Oracle}
    {t : Lib.Thread (service s)} {q : Query} {k : Answer q → Handler Reply} {a : Answer q} {w : World}
    (acts : Lib.Config.Acts c i o t q k a w) :
    row ∈ w.db.mail ∨ RemovedSince c₁ ⟨w, c.threads.set i (t.answered q k a)⟩ row.mail := by
  by_cases kept : row ∈ w.db.mail
  · exact .inl kept
  refine .inr ?_
  have served : Served c.shared q a w := served_of_serve acts.served
  rcases served_dbState served with same | ⟨st, rfl, exec⟩
  · rw [same] at kept
    exact absurd here kept
  have gone := kept
  rw [exec] at gone
  obtain ⟨u, party, what⟩ := Db.removes_of_gone here gone
  have guard := first.guarded (handler_guarded s) t acts.mem
  rw [acts.rest] at guard
  have answer : a = (c.shared.db.exec st).1 := by
    rcases served_db served with ⟨answer, -⟩ | ⟨-, same⟩
    · exact answer
    · rw [same] at kept
      exact absurd here kept
  refine ⟨i, t.answered (.db st) k a, t.log, ⟨.db st, a⟩, ?_, List.prefix_rfl, ?_, u, party, ?_⟩
  · exact List.getElem?_set_self (List.getElem?_eq_some_iff.mp acts.thread).1
  · intro t₁ thread₁
    obtain ⟨t', thread, -, pre⟩ := after.grows i t₁ thread₁
    obtain rfl := Option.some.inj (acts.thread.symm.trans thread)
    exact pre.length_le
  · rcases what with ⟨rfl, done⟩ | ⟨kem, sig, rfl, done⟩ | ⟨rfl, done⟩
    · rw [answer, done]
      exact ⟨guard.1.2, .burn guard.1.1⟩
    · rw [answer, done]
      exact ⟨guard.1.2, .rotate guard.1.1 kem sig⟩
    · rw [answer, done]
      exact ⟨guard.1.2, .destroy guard.1.1⟩

/-- **A row stays** until a party of its mail removes it. -/
theorem row_stays (first : Lib.Run ok (State.start s clock db) c₁) (run : Lib.Run ok c₁ c)
    {row : MailRow} (here : row ∈ c₁.shared.db.mail) :
    row ∈ c.shared.db.mail ∨ RemovedSince c₁ c row.mail := by
  refine run.invariant (fun c : State s => row ∈ c.shared.db.mail ∨ RemovedSince c₁ c row.mail)
    (.inl here) ?_ ?_ ?_
  · intro c r before h cond
    refine h.imp id fun removed => removed.later fun i t₀ thread => ?_
    exact ⟨t₀, by
      rw [List.getElem?_append_left (List.getElem?_eq_some_iff.mp thread).1]
      exact thread, rfl, List.prefix_rfl⟩
  · intro c i o t q k a w before h cond acts
    rcases h with here | removed
    · exact row_acts (first.trans before) here before acts
    · have step := Lib.Config.step_act acts.thread acts.rest acts.served
      exact .inr (removed.later ((Lib.Run.start.next cond step).grows))
  · intro c d w before h cond moved
    obtain ⟨-, -, db⟩ := drift_clock moved
    refine h.imp (fun here => ?_) fun removed => removed.later fun i t₀ thread =>
      ⟨t₀, thread, rfl, List.prefix_rfl⟩
    show row ∈ w.db.mail
    rwa [db]

/-! ## Confirmation -/

variable {raw : Bytes}

/-- There was a point of the run at which the mail had its row. -/
def Stored (ok : State s → Lib.Label (service s) → Prop) (c₀ c : State s) (σ id : Bytes) : Prop :=
  ∃ c₁, Lib.Run ok c₀ c₁ ∧ Lib.Run ok c₁ c ∧ ∃ row ∈ c₁.shared.db.mail,
    row.mail.id = id ∧ row.sigHash = sigHash σ

/-- A copy that has been told an id was told it when the row was there. -/
theorem stored_of_told (run : Lib.Run ok (State.start s clock db) c) (σ : Bytes) :
    ∀ t ∈ c.threads, ∀ id, Told σ t.log id → Stored ok (State.start s clock db) c σ id := by
  have next {c c' : State s} {lab : Lib.Label (service s)} {id : Bytes} (cond : ok c lab)
      (step : c.step lab = some c') (h : Stored ok (State.start s clock db) c σ id) :
      Stored ok (State.start s clock db) c' σ id := by
    obtain ⟨c₁, first, later, row⟩ := h
    exact ⟨c₁, first, later.next cond step, row⟩
  refine run.invariant (fun c => ∀ t ∈ c.threads, ∀ id, Told σ t.log id →
    Stored ok (State.start s clock db) c σ id) (by simp [State.start, Lib.Config.init]) ?_ ?_ ?_
  · intro c r _ h cond t mem id told
    rcases List.mem_append.mp mem with old | new
    · exact next cond rfl (h t old id told)
    · obtain rfl := List.mem_singleton.mp new
      rcases told with found | ⟨m, -, -, stored⟩
      · cases found
      · cases stored
  · intro c i o t q k a w before h cond acts t' mem id told
    have step := Lib.Config.step_act acts.thread acts.rest acts.served
    rcases List.mem_or_eq_of_mem_set mem with old | rfl
    · exact next cond step (h t' old id told)
    · rcases told_snoc told with before' | now
      · exact next cond step (h t acts.mem id before')
      · exact ⟨_, before.next cond step, .start, row_of_served (served_of_serve acts.served) now⟩
  · intro c d w _ h cond moved t mem id told
    exact next cond (Lib.Config.step_drift moved) (h t mem id told)

/-- What a party gets of a row that is there. -/
theorem Db.getMail_of_mem {db : Db} {row : MailRow} {u : Bytes} (mem : row ∈ db.mail)
    (party : Db.names u row.mail = true) : db.getMail row.mail.id u = .ok row.mail := by
  unfold getMail
  split
  · rename_i found here
    have same := List.find?_some here
    rw [Bool.and_eq_true, beq_iff_eq] at same
    have : Std.Symm fun r s : MailRow => r.mail.id ≠ s.mail.id := ⟨fun _ _ h => h.symm⟩
    by_contra other
    refine db.mail_id.forall (List.mem_of_find?_eq_some here) mem (fun e => other ?_) same.1
    rw [e]
  · rename_i none
    have := List.find?_eq_none.mp none row mem
    rw [party, beq_self_eq_true] at this
    exact absurd rfl this

/-- And that it is in the party's list. -/
theorem Db.mem_listMail {db : Db} {row : MailRow} (mem : row ∈ db.mail) (sent : Bool) :
    Db.listed row ∈ db.listMail (if sent then row.mail.sender else row.mail.recipient) sent := by
  unfold listMail
  refine List.mem_map_of_mem ((List.mergeSort_perm _ _).mem_iff.mpr (List.mem_filter.mpr ⟨mem, ?_⟩))
  cases sent <;> simp

/-- **A mail that is confirmed is never lost**: of every submission that is answered with an id, in
every run, the mail of that signature has been stored under the id, and from then on both parties can
get it and have it listed, until a later request that is authenticated as one of them has burned it,
rotated the keys, or destroyed the account. -/
theorem confirmed_mail_kept (run : Lib.Run ok (State.start s clock db) c) {t : Lib.Thread (service s)}
    (mem : t ∈ c.threads) (copy : IsCopy raw t.req) {id : Bytes}
    (confirmed : t.rest = .ret (.message 201 (utf8 "Mail sent") id)) :
    ∃ c₁, Lib.Run ok (State.start s clock db) c₁ ∧ Lib.Run ok c₁ c ∧ ∃ row ∈ c₁.shared.db.mail,
      row.mail.id = id ∧ row.sigHash = sigHash (s.signatureOf raw) ∧
      ((∀ u, Db.names u row.mail = true → c.shared.db.getMail id u = .ok row.mail) ∧
        Db.listed row ∈ c.shared.db.listMail row.mail.recipient false ∧
        Db.listed row ∈ c.shared.db.listMail row.mail.sender true ∨
      RemovedSince c₁ c row.mail) := by
  have replied := run.guarded (handler_copies s raw) t mem
  rw [confirmed] at replied
  rcases replied copy with ⟨id', told, same⟩ | ⟨-, other⟩
  · cases same
    obtain ⟨c₁, first, later, row, here, rfl, hash⟩ :=
      stored_of_told run (s.signatureOf raw) t mem id told
    refine ⟨c₁, first, later, row, here, rfl, hash, ?_⟩
    rcases row_stays first later here with there | removed
    · exact .inl ⟨fun u party => Db.getMail_of_mem there party, Db.mem_listMail there false,
        Db.mem_listMail there true⟩
    · exact .inr removed
  · exact absurd rfl (other id)

end

namespace Sample

/-- Alice's mail to Bobby is stored, and is there. -/
theorem confirmed_mail_kept_twice : ∃ (c : State copyServer) (id : Bytes),
    (∃ t ∈ c.threads, t.rest = .ret (.message 201 (utf8 "Mail sent") id)) ∧
    ∃ c₁, Lib.Run (fun _ _ => True) c₁ c ∧ ∃ row ∈ c₁.shared.db.mail, row.mail.id = id ∧
      ((∀ u, Db.names u row.mail = true → c.shared.db.getMail id u = .ok row.mail) ∧
        Db.listed row ∈ c.shared.db.listMail row.mail.recipient false ∧
        Db.listed row ∈ c.shared.db.listMail row.mail.sender true ∨
      RemovedSince c₁ c row.mail) := by
  have allows (reqs : List Request) : Lib.Allows (S := service copyServer) (fun _ _ => True) reqs
      fun _ => True :=
    fun _ _ _ _ _ => trivial
  obtain ⟨l, m, k, c₁, run₁, shared₁, threads₁, signed, -⟩ := first_copy (fun _ _ => True) allows trivial
  obtain ⟨db₂, inserted, -⟩ := Db.exec_insertMail c₁.shared.db (m := m)
    (fun r mem => by rw [shared₁] at mem; cases mem)
  obtain ⟨c, run, -, threads⟩ := run_db (P := fun _ => True) (i := 0) run₁ (allows _)
    (by rw [threads₁]; rfl) rfl trivial inserted
  rw [threads₁] at threads
  have copy : IsCopy (mailText twice) (submit twice) := ⟨rfl, rfl⟩
  have mem : ∃ t ∈ c.threads, t.req = submit twice ∧ t.log = l ++ [⟨.db (.insertMail m), .ok ()⟩] :=
    ⟨_, by rw [threads]; exact List.mem_cons_self, rfl, rfl⟩
  obtain ⟨t, mem, req, log⟩ := mem
  obtain ⟨id, replied⟩ := reply_of_stored run mem (req ▸ copy)
    (signed.trans (signatureOf_known knows_twice).symm) log
  obtain ⟨c₁, -, later, row, here, named, -, kept⟩ :=
    confirmed_mail_kept run mem (req ▸ copy) replied
  exact ⟨c, id, ⟨t, mem, replied⟩, c₁, later, row, here, named, kept⟩

end Sample

end Shyake.Go
