import AssetGroups.Job.Codec

/-!
Saving, restoring and resetting all groups. A restored group is stored like any other new one, so it
is checked, gets a new id and is announced.
-/

namespace AssetGroups

open Json

namespace Backup

def featureName : String := "automatic-groups"

def version : String := "1.0"

/-- The groups of a store as they are kept outside of it. -/
structure Feature where
  version : String
  groups : List Group
deriving Repr

/-- What became of a feature: `none` for success, or the text of an error. -/
structure FeatureStatus where
  success : Bool
  error : Option String := none
deriving DecidableEq, Repr

structure FeatureAndStatus where
  feature : Option Feature := none
  status : FeatureStatus
deriving Repr

structure SaveQuery where
  features : List String := []
deriving Repr

structure SaveReply where
  version : String
  features : Dict FeatureAndStatus
deriving Repr

structure RestoreQuery where
  features : Dict Feature := []
deriving Repr

structure StatusReply where
  features : Dict FeatureStatus
deriving Repr

namespace FeatureStatus

def ofResult {α : Type} : Except GroupError α → FeatureStatus
  | .ok _ => ⟨true, none⟩
  | .error e => ⟨false, some e.message⟩

def unsupported : FeatureStatus := ⟨false, some "Feature is not supported"⟩

end FeatureStatus

/-! ## Work -/

def readAll (sv : Service) : List GroupInfo → Work (List Group)
  | [] => return []
  | i :: is => do
    let g ← sv.read i.id
    return g :: (← readAll sv is)

def save (sv : Service) : Work Feature := do
  return ⟨version, ← readAll sv (← sv.list)⟩

def createAll (sv : Service) : List Group → Work Unit
  | [] => return
  | g :: gs => do
    discard (sv.createOne g)
    createAll sv gs

/-- Stores the groups of a feature in a store without groups, up to the first that is refused. -/
def restore (sv : Service) (f : Feature) : Work Unit := inTurn do
  if !(← sv.list).isEmpty then Violation.groupsExist.raise
  createAll sv f.groups

def removeAll (sv : Service) : List GroupInfo → Work Unit
  | [] => return
  | i :: is => do
    sv.deleteOne i.id
    removeAll sv is

/-- Removes every group, up to the first that cannot be removed. -/
def reset (sv : Service) : Work Unit := inTurn do
  removeAll sv (← sv.list)

/-! ## Requests -/

/-- Saves the features asked for, one after another; of a feature asked for twice the last answer
counts. -/
def answerSave (sv : Service) (q : SaveQuery) : Script Site SaveReply := do
  let entries ← q.features.mapM fun name => do
    if name = featureName then
      let result ← (save sv).run
      return (name, { feature := result.toOption, status := .ofResult result : FeatureAndStatus })
    else return (name, { status := .unsupported })
  return ⟨version, Dict.ofEntries entries⟩

def answerRestore (sv : Service) (q : RestoreQuery) : Script Site StatusReply := do
  let entries ← q.features.mapM fun (name, feature) => do
    if name = featureName then return (name, .ofResult (← (restore sv feature).run))
    else return (name, .unsupported)
  return ⟨Dict.ofEntries entries⟩

def answerReset (sv : Service) : Script Site StatusReply := do
  let status : FeatureStatus := match ← (reset sv).run with
    | .ok () => ⟨true, none⟩
    | .error _ => ⟨false, some "Reset of automatic groups failed"⟩
  return ⟨[(featureName, status)]⟩

/-! ## JSON -/

def groupListJson (groups : List Group) : Value :=
  .object [("groupList", .list (groups.map Group.toJson))]

def groupListDecoder : Decoder (List Group) :=
  .record [] [.optional "groupList" (.listOf Group.decoder) fun v _ => v]

namespace Feature

def toJson (f : Feature) : Value :=
  .object [("version", .string f.version), ("data", groupListJson f.groups)]

def decoder : Decoder Feature :=
  .record ⟨"", []⟩ [
    .needed "version" .text fun v f => { f with version := v },
    .needed "data" groupListDecoder fun v f => { f with groups := v }]

end Feature

namespace FeatureStatus

def word (success : Bool) : String := if success then "SUCCESS" else "FAILED"

def ofWord? (s : String) : Option Bool :=
  if s = "SUCCESS" then some true else if s = "FAILED" then some false else none

def toJson (s : FeatureStatus) : Value :=
  .ofMembers [("status", some (.string (word s.success))), ("error", s.error.map .string)]

def decoder : Decoder FeatureStatus :=
  .record ⟨true, none⟩ [
    .needed "status" (.named ofWord?) fun v s => { s with success := v },
    .optional "error" (.nullable .text) fun v s => { s with error := v }]

end FeatureStatus

namespace FeatureAndStatus

def toJson (f : FeatureAndStatus) : Value :=
  .ofMembers [("feature", f.feature.map Feature.toJson), ("status", some f.status.toJson)]

def decoder : Decoder FeatureAndStatus :=
  .record ⟨none, ⟨true, none⟩⟩ [
    .optional "feature" (.nullable Feature.decoder) fun v f => { f with feature := v },
    .needed "status" FeatureStatus.decoder fun v f => { f with status := v }]

end FeatureAndStatus

namespace SaveQuery

def toJson (q : SaveQuery) : Value := .object [("features", .list (q.features.map .string))]

def decoder : Decoder SaveQuery :=
  .record {} [.optional "features" (.listOf .text) fun v _ => ⟨v⟩]

end SaveQuery

namespace SaveReply

def toJson (r : SaveReply) : Value :=
  .object [("version", .string r.version),
    ("mapFeaturesData", .object (r.features.map fun (k, f) => (k, f.toJson)))]

def decoder : Decoder SaveReply :=
  .record ⟨"", []⟩ [
    .needed "version" .text fun v r => { r with version := v },
    .needed "mapFeaturesData" (.dictOf FeatureAndStatus.decoder) fun v r => { r with features := v }]

end SaveReply

namespace RestoreQuery

def toJson (q : RestoreQuery) : Value :=
  .object [("mapFeaturesData", .object (q.features.map fun (k, f) => (k, f.toJson)))]

def decoder : Decoder RestoreQuery :=
  .record {} [.optional "mapFeaturesData" (.dictOf Feature.decoder) fun v _ => ⟨v⟩]

end RestoreQuery

namespace StatusReply

def toJson (r : StatusReply) : Value :=
  .object [("mapFeaturesStatus", .object (r.features.map fun (k, s) => (k, s.toJson)))]

def decoder : Decoder StatusReply :=
  .record ⟨[]⟩ [
    .needed "mapFeaturesStatus" (.dictOf FeatureStatus.decoder) fun v _ => ⟨v⟩]

end StatusReply

end Backup

end AssetGroups
