import AssetGroups.Backup
import AssetGroups.Http.MediaType
import AssetGroups.Http.Target
import AssetGroups.Job.Dispatch

/-!
The HTTP surface: a command to a job at `/v1/<subject>`, backups below `/v1/srr`, a health check.
-/

namespace AssetGroups.Http

open Json Text

structure Request where
  method : String := "POST"
  target : String
  contentType : Option String := none
  body : List UInt8 := []
deriving Repr

inductive Body where
  | empty
  | text (s : String)
  | json (v : Value)
deriving Repr

structure Response where
  status : Nat
  body : Body := .empty
deriving Repr

/-- Where a path leads. -/
inductive Route where
  | save
  | restore
  | reset
  | command (segment : String)
  | health
deriving DecidableEq, Repr

def Route.ofTarget? (target : String) : Option Route :=
  match segments target with
  | ["", "healthz"] => some .health
  | ["", "v1", "srr", "save"] => some .save
  | ["", "v1", "srr", "restore"] => some .restore
  | ["", "v1", "srr", "reset"] => some .reset
  | ["", "v1", segment] => if segment.isEmpty then none else some (.command segment)
  | _ => none

def Route.allows (method : String) : Route → Bool
  | .health => method == "GET" || method == "HEAD"
  | _ => method == "POST"

def Response.ofError (e : GroupError) : Response :=
  ⟨e.status, .json (.object [("error", .string e.message)])⟩

/-- Reads a body that has to be JSON, or answers why it is not taken: no JSON by its type, no JSON,
or JSON of something else. -/
def decodeBody {α : Type} (d : Decoder α) (q : Request) : Except Response α :=
  if ((q.contentType.bind MediaType.ofText?).map MediaType.isJson).getD false then
    match decodeScanned d (Utf8.scan q.body) with
    | .ok a => .ok a
    | .error .malformed => .error ⟨400, .empty⟩
    | .error .mismatch => .error ⟨422, .empty⟩
  else .error ⟨415, .empty⟩

def answerCommand (sv : Service) (segment : String) (body : List UInt8) : Script Site Response :=
  match segmentText? segment with
  | none => return ⟨400, .empty⟩
  | some subject => do
    let result ← (sv.handle subject body).run
    let status := match result with
      | .ok _ => 200
      | .error e => e.status
    return ⟨status, .json (Reply.ofResult subject result).toJson⟩

def answer (sv : Service) (q : Request) : Script Site Response :=
  match Route.ofTarget? q.target with
  | none => return ⟨404, .empty⟩
  | some route =>
    if !route.allows q.method then return ⟨405, .empty⟩
    else
      match route with
      | .health => return ⟨200, .text (if q.method == "HEAD" then "" else "ok")⟩
      | .command segment => answerCommand sv segment q.body
      | .reset => return ⟨200, .json (← Backup.answerReset sv).toJson⟩
      | .save =>
        match decodeBody Backup.SaveQuery.decoder q with
        | .error r => return r
        | .ok query => return ⟨200, .json (← Backup.answerSave sv query).toJson⟩
      | .restore =>
        match decodeBody Backup.RestoreQuery.decoder q with
        | .error r => return r
        | .ok query => return ⟨200, .json (← Backup.answerRestore sv query).toJson⟩

end AssetGroups.Http
