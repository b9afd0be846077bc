import AssetGroups.Job.Basic

/-!
Inputs and outputs of jobs in JSON, and the envelope of a reply.
-/

namespace AssetGroups

open Json

def GroupInfo.toJson (i : GroupInfo) : Value := .object [("id", .nat i.id), ("name", .string i.name)]

def GroupInfo.decoder : Decoder GroupInfo :=
  .record ⟨0, ""⟩ [
    .needed "id" .word fun v i => { i with id := v },
    .needed "name" .text fun v i => { i with name := v }]

namespace Inventory

def AssetRef.toJson (a : AssetRef) : Value := .object [("id", .nat a.id), ("name", .string a.name)]

def AssetRef.decoder : Decoder AssetRef :=
  .record ⟨0, ""⟩ [
    .needed "id" .word fun v a => { a with id := v },
    .needed "name" .text fun v a => { a with name := v }]

end Inventory

/-- One id or a list of ids. The whole text is read as a value, of which nothing may be left out. -/
def idsDecoder : Decoder (List Nat) := fun room s =>
  match s.value? room with
  | none => .error .malformed
  | some _ =>
    match Decoder.word room s with
    | .ok n => .ok [n]
    | .error _ => Decoder.listOf Decoder.word room s

namespace Service

def Removal.toJson (r : Removal) : Value := .object [(toString r.id, .string r.text)]

def ResolveInput.decoder : Decoder ResolveInput := fun room s =>
  match s.value? room with
  | none => .error .malformed
  | some _ =>
    match Decoder.word room s with
    | .ok n => .ok (.id n)
    | .error _ => (Group.decoder room s).map .group

end Service

/-! ## Replies -/

structure Reply where
  ok : Bool
  subject : String
  out : Option Value := none
  error : Option String := none
deriving Repr

namespace Reply

def ofResult (subject : String) : Except GroupError Value → Reply
  | .ok v => { ok := true, subject, out := some v }
  | .error e => { ok := false, subject, error := some e.message }

def statusText (ok : Bool) : String := if ok then "ok" else "error"

def statusOfText? (s : String) : Option Bool :=
  if s = "ok" then some true else if s = "error" then some false else none

def toJson (r : Reply) : Value :=
  .ofMembers [("status", some (.string (statusText r.ok))), ("subject", some (.string r.subject)),
    ("out", r.out), ("error", r.error.map .string)]

def decoder : Decoder Reply :=
  .record ⟨true, "", none, none⟩ [
    .needed "status" (.named statusOfText?) fun v r => { r with ok := v },
    .needed "subject" .text fun v r => { r with subject := v },
    .optional "out" (.nullable .anything) fun v r => { r with out := v },
    .optional "error" (.nullable .text) fun v r => { r with error := v }]

end Reply

end AssetGroups
