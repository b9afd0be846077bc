import AssetGroups.Inventory.Document
import AssetGroups.Job.Dispatch
import AssetGroups.Settings.Basic

/-!
The command channel on standard input: a line holds a subject and, after a blank, a payload; each is
answered by a line with the reply. The store file is read before a request and written after it if it
was changed.
-/

namespace AssetGroups.Program

open Json

def usage : String :=
  "Rule-based asset groups for the datacenter inventory\n\nUsage: autogroup [--config FILE]\n"

/-- The settings file named by the arguments, if these can be followed. -/
def configOf? : List String → Option String
  | [] => some "config.toml"
  | ["-c", file] => some file
  | ["--config", file] => some file
  | _ => none

/-- The variables of the environment that are settings. -/
def settingNames : List String := [
  "AUTOGROUP__SERVER__HOST", "AUTOGROUP__SERVER__PORT", "AUTOGROUP__STORAGE__PATH",
  "AUTOGROUP__STORAGE__LOCK", "AUTOGROUP__STORAGE__LOCK_PATH", "AUTOGROUP__INVENTORY__PATH",
  "AUTOGROUP__RESOLVER__RESERVED_ASSET", "AUTOGROUP__RESOLVER__MAX_DEPTH"]

/-- What a failure says of itself in its first line. -/
def causeOf (e : IO.Error) : String := ((toString e).splitOn "\n").headD ""

/-- What stands at a path, or the cause for which that cannot be told. -/
def readEntry (path : String) : IO (Except String Entry) := do
  try
    return .ok (.file (← IO.FS.readBinFile path).toList)
  catch
    | .noFileOrDirectory .. => return .ok .missing
    | .inappropriateType .. => return .ok .folder
    | e => return .error (causeOf e)

/-- The text of a file, if there is one, or the cause for which it cannot be read. -/
def readText (path : String) : IO (Except String (Option String)) := do
  match ← readEntry path with
  | .error cause => return .error cause
  | .ok .missing => return .ok none
  | .ok .folder => return .error "Is a directory"
  | .ok (.file octets) =>
    match Text.Utf8.decode? octets with
    | some text => return .ok (some text)
    | none => return .error "stream did not contain valid UTF-8"

/-- The folder that a path lies in. -/
def folderOf (path : String) : String :=
  let front := (path.toList.reverse.dropWhile (· != '/')).drop 1
  if front.isEmpty then "." else String.ofList front.reverse

/-- Writes a file beside the one it replaces first. -/
def replaceFile (path : String) (octets : List UInt8) : IO Unit := do
  IO.FS.createDirAll (folderOf path)
  IO.FS.writeBinFile (path ++ ".new") ⟨octets.toArray⟩
  IO.FS.rename (path ++ ".new") path

/-- Runs an action while no other program holds the lock file, if the store has one. -/
def locked {α : Type} (cfg : Storage) (action : IO α) : IO α := do
  if cfg.isDurable then
    IO.FS.createDirAll (folderOf cfg.lockFile)
    IO.FS.withFile cfg.lockFile .append fun lock => do
      lock.lock
      try action finally lock.unlock
  else action

/-- Subject and payload of a line. -/
def splitRequest (line : String) : String × String :=
  let s := line.toList.filter fun c => c != '\n' && c != '\r'
  let subject := s.takeWhile (· != ' ')
  (String.ofList subject, String.ofList (s.drop (subject.length + 1)))

/-- A disk whose file cannot be read: whoever would have to read it, so many times at most, is refused. -/
def unreadable (cfg : Storage) (slot : Slot) (cause : String) (times : Nat) : Disk where
  store := .file []
  refusals :=
    if cfg.isDurable then (List.replicate times [none, some cause]).flatten
    else if slot.loaded then []
    else List.replicate times (some cause)

/-- Answers one request against the files. A request goes to the store once, or for each of the ids that
it lists. -/
def serve (sv : Service) (slot : Slot) (line : String) : IO (Reply × Slot) := do
  let (subject, payload) := splitRequest line
  let octets := Text.Utf8.encode payload
  let before : Disk := match ← readEntry sv.storage.path with
    | .ok store => { store }
    | .error cause => unreadable sv.storage slot cause (octets.length + 1)
  let (reply, after) := (sv.respond subject octets).run { slot, disk := before }
  if after.disk.store ≠ before.store then
    if let .file octets := after.disk.store then replaceFile sv.storage.path octets
  return (reply, after.slot)

partial def loop (sv : Service) (slot : Slot) : IO Unit := do
  let line ← (← IO.getStdin).getLine
  if line.isEmpty then return
  let (reply, slot) ← locked sv.storage (serve sv slot line)
  IO.println reply.toJson.compact
  (← IO.getStdout).flush
  loop sv slot

def readSettings (config : String) : IO (Except GroupError Settings) := do
  let environment ← settingNames.filterMapM fun name => do
    return (← IO.getEnv name).map (name, ·)
  match ← readText config with
  | .error cause => return .error (.config cause)
  | .ok text? => return Settings.load (← IO.currentDir).toString text? environment

def readInventory (path : String) : IO (Except GroupError Inventory) := do
  match ← readText path with
  | .error cause => return .error (.storage path cause)
  | .ok none => return .ok {}
  | .ok (some text) => return Inventory.ofText text

def setUp (config : String) : IO (Except GroupError Service) := do
  match ← readSettings config with
  | .error e => return .error e
  | .ok s =>
    return (← readInventory s.inventoryPath).map fun inventory =>
      { storage := s.storage,
        resolver := { inventory, reserved := s.reserved, maxDepth := s.maxDepth } }

end AssetGroups.Program

open AssetGroups.Program in
def main (args : List String) : IO UInt32 := do
  match configOf? args with
  | none =>
    IO.eprint usage
    return 2
  | some config =>
    match ← setUp config with
    | .error e =>
      IO.eprintln e.message
      return 1
    | .ok sv =>
      loop sv {}
      return 0
