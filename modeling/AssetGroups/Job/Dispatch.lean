import AssetGroups.Job.Codec

/-!
The command channel: a subject names a job, a payload holds its input.
-/

namespace AssetGroups

open Json Text

inductive Subject where
  | create
  | update
  | delete
  | list
  | read
  | resolve
deriving DecidableEq, Repr

namespace Subject

def text : Subject → String
  | .create => "CREATE"
  | .update => "UPDATE"
  | .delete => "DELETE"
  | .list => "LIST"
  | .read => "READ"
  | .resolve => "RESOLVE"

def all : List Subject := [.create, .update, .delete, .list, .read, .resolve]

/-- The subject of a name in any case of ASCII letters. -/
def ofText? (s : String) : Option Subject :=
  all.find? (·.text == String.ofList (s.toList.map Char.toUpper))

end Subject

/-- The white space of which an empty payload may consist. -/
def isPayloadSpace (b : UInt8) : Bool := b == 9 || b == 10 || b == 12 || b == 13 || b == 32

def decodePayload {α : Type} (d : Decoder α) (payload : List UInt8) : Work α :=
  if payload.all isPayloadSpace then throw .emptyPayload
  else
    match decodeScanned d (Utf8.scan payload) with
    | .ok a => pure a
    | .error _ => throw .wrongPayload

namespace Service

def runJob (sv : Service) (payload : List UInt8) : Subject → Work Value
  | .create => do return (← sv.create (← decodePayload Group.decoder payload)).toJson
  | .update => do return (← sv.update (← decodePayload Group.decoder payload)).toJson
  | .delete => do
    let removals ← sv.delete (← decodePayload idsDecoder payload)
    return .list (removals.map Removal.toJson)
  | .list => do return .list ((← sv.list).map GroupInfo.toJson)
  | .read => do return (← sv.read (← decodePayload Decoder.word payload)).toJson
  | .resolve => do
    let input ← decodePayload ResolveInput.decoder payload
    return .list ((← sv.resolve input).map Inventory.AssetRef.toJson)

def handle (sv : Service) (subject : String) (payload : List UInt8) : Work Value :=
  match Subject.ofText? subject with
  | none => throw (.unsupportedSubject subject)
  | some s => sv.runJob payload s

/-- The reply to a request; a failed job is answered with the text of its error. -/
def respond (sv : Service) (subject : String) (payload : List UInt8) : Script Site Reply :=
  return Reply.ofResult subject (← (sv.handle subject payload).run)

end Service

end AssetGroups
