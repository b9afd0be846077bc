import AssetGroups.Proofs.Resolver.Simulation
import AssetGroups.Proofs.Store.Content

/-!
# Resolution only reads

A service resolves rules against its store, and may acquire the store anew for every group that is
referred to. As long as nobody else acts, the answer is the one that a single look at the content
gives.
-/

namespace AssetGroups

/-- The group with an id in a content. -/
def groupIn (c : Except GroupError Database) (id : Nat) : Except GroupError Group :=
  c >>= fun db => db.byId id

theorem Work.reads_simulates (cfg : Storage) (c : Except GroupError Database) :
    Simulates (m := Work) (n := Except GroupError) fun _ => Work.Reads cfg c where
  pure := .pure
  throw := .throw
  bind := .bind

namespace Service

variable {c : Except GroupError Database}

theorem lookup_reads (sv : Service) (id : Nat) :
    Work.Reads sv.storage c (sv.lookup id) (groupIn c id) :=
  Store.byId_reads id

theorem resolveRules_reads (sv : Service) (rules : RuleSet) :
    Work.Reads sv.storage c (sv.resolveRules rules) (sv.resolver.resolveRules (groupIn c) rules) :=
  Resolver.resolveFrom_simulates (Work.reads_simulates sv.storage c) sv.lookup_reads [] rules

theorem resolveId_reads (sv : Service) (id : Nat) :
    Work.Reads sv.storage c (sv.resolve (.id id)) (sv.resolver.resolveId (groupIn c) id) :=
  Resolver.resolveId_simulates (Work.reads_simulates sv.storage c) sv.lookup_reads id

theorem resolveGroup_reads (sv : Service) (g : Group) :
    Work.Reads sv.storage c (sv.resolve (.group g)) (sv.resolver.resolve (groupIn c) g) :=
  Resolver.resolve_simulates (Work.reads_simulates sv.storage c) sv.lookup_reads g

end Service

end AssetGroups
