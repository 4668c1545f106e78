import Shyake.Go.Api.Parties
import Shyake.Worker.Parties

/-!
# The parties of a mail on both servers

The same access rule for the two registries of mail. The Go server checks the party and
acts on the row in one statement and keeps the rule in every run; the Worker keeps it as
long as the row that a burn has checked is still the one that it removes.
-/

namespace Shyake.Alike

/-- A request acts as a user of its instance, never as a remote address. -/
def ActsLocally {S : Lib.Service} (R : Lib.Registry S Bytes) (c₀ : Lib.Config S) : Prop :=
  ∀ c, Lib.Run (fun _ _ => True) c₀ c → ∀ t ∈ c.threads, ∀ username, R.ActsAs t username →
    (64 : UInt8) ∉ username

/-- The runs of an instance from a database, under the access rule. -/
structure KeepsMail {S : Lib.Service} (R : Lib.Registry S Bytes)
    (ok : Lib.Config S → Lib.Label S → Prop) (c₀ : Lib.Config S) : Prop where
  parties : R.OnlyParties ok c₀
  locally : ActsLocally R c₀

namespace Sample

end Sample

end Shyake.Alike
