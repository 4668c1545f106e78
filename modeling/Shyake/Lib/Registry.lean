import Shyake.Lib.Interleave

/-!
# Records and their parties

A `Registry` says of a service which records its state holds, who the parties of a
record are, and as whom a running request acts. `OnlyParties` is the access rule over
all runs: a response shows a record only to a party, and a record that is there stays
as it is until a request of a party that is meant to remove records does so.
-/

namespace Shyake.Lib

structure Registry (S : Service) (User : Type) where
  Record : Type
  records : S.State → List Record
  Party : Record → User → Prop
  /-- The thread's request has been authenticated as the user. -/
  ActsAs : Thread S → User → Prop
  /-- The request asks for records to be removed. -/
  Removes : S.Req → Prop
  /-- The response holds something of the record. -/
  Shows : S.Resp → Record → Prop

namespace Registry

variable {S : Service} {User : Type}

/-- A thread that acts as a party of the record. -/
def ByParty (R : Registry S User) (t : Thread S) (x : R.Record) : Prop :=
  ∃ u, R.Party x u ∧ R.ActsAs t u

structure OnlyParties (R : Registry S User) (ok : Config S → Label S → Prop) (c₀ : Config S) :
    Prop where
  shown : ∀ c, Run ok c₀ c → ∀ t ∈ c.threads, ∀ resp, t.rest = .ret resp → ∀ x,
    R.Shows resp x → R.ByParty t x
  removed : ∀ c lab c', Run ok c₀ c → ok c lab → c.step lab = some c' →
    ∀ x ∈ R.records c.shared, x ∉ R.records c'.shared →
      ∃ i o t, lab = .act i o ∧ c.threads[i]? = some t ∧ R.Removes t.req ∧ R.ByParty t x

variable {R : Registry S User} {ok : Config S → Label S → Prop} {c₀ : Config S}

/-- **The access rule**: one premise for what a thread returns, one for an answer that it gets, and
one for the drifts. -/
theorem OnlyParties.of_acts
    (shown : ∀ c, Run ok c₀ c → ∀ t ∈ c.threads, ∀ resp, t.rest = .ret resp → ∀ x,
      R.Shows resp x → R.ByParty t x)
    (removed : ∀ c i o t q k a s, Run ok c₀ c → ok c (.act i o) → Config.Acts c i o t q k a s →
      ∀ x ∈ R.records c.shared, x ∉ R.records s → R.Removes t.req ∧ R.ByParty t x)
    (drift : ∀ s d s', S.drift s d = some s' → R.records s' = R.records s) :
    R.OnlyParties ok c₀ := by
  refine ⟨shown, fun c lab c' run cond step x here gone => ?_⟩
  obtain ⟨r, rfl, rfl⟩ | ⟨i, o, t, q, k, a, s, rfl, acts, rfl⟩ | ⟨d, s, rfl, moved, rfl⟩ :=
    Config.step_cases step
  · exact absurd here gone
  · exact ⟨i, o, t, rfl, acts.thread, removed c i o t q k a s run cond acts x here gone⟩
  · exact absurd (drift _ _ _ moved ▸ here) gone

end Registry

end Shyake.Lib
