import AssetGroups.Error
import AssetGroups.Settings.Value
import AssetGroups.Store.Storage

/-!
Settings: what is built in, overlaid by what a file and the variables of the environment give
together. A value is taken as what is wanted of it where that makes sense: a number may be given by its
text, a text by a number.
-/

namespace AssetGroups

open Text

structure Settings where
  host : String := "0.0.0.0"
  port : Nat := 8090
  storage : Storage := {}
  inventoryPath : String := "data/inventory.json"
  reserved : Option String := some "rackcontroller-0"
  maxDepth : Nat := 10
deriving DecidableEq, Repr

namespace Settings

def listenAddress (s : Settings) : String := s.host ++ ":" ++ toString s.port

/-! ## Layers -/

def builtIn : Setting := .table [
  ("server", .table [("host", .text "0.0.0.0"), ("port", .whole 8090)]),
  ("storage", .table [("path", .text "data/groups.json"), ("lock", .text "process")]),
  ("inventory", .table [("path", .text "data/inventory.json")]),
  ("resolver", .table [("reserved_asset", .text "rackcontroller-0"), ("max_depth", .whole 10)])]

/-- The beginning of the variables that are settings, in lower case. -/
def variableFront : List Char := "autogroup__".toList

/-- The lower case of a character; the sign of the kelvin is a letter too. -/
def lower (c : Char) : Char := if c = '\u212a' then 'k' else c.toLower

/-- A name with a dot in the place of two underscores. -/
def dotted : List Char → List Char
  | '_' :: '_' :: s => '.' :: dotted s
  | c :: s => c :: dotted s
  | [] => []

/-- The key that a variable sets, if it is a setting; the case of its letters does not matter. -/
def variableKey? (name : String) : Option (List Char) :=
  (afterFront variableFront (name.toList.map lower)).map dotted

def overlayVariables (below : Setting) (environment : List (String × String)) : Setting :=
  environment.foldl
    (fun below (name, value) =>
      match variableKey? name with
      | some key => below.overlayAt key (.text value)
      | none => below)
    below

/-- What a file and the environment set, the environment over the file. -/
def given (file : List (String × Toml)) (environment : List (String × String)) : Setting :=
  let ofFile := file.foldl (fun below (k, v) => below.overlayAt k.toList (.ofToml v)) (.table [])
  overlayVariables ofFile environment

/-! ## Understanding values -/

/-- A value as a text. -/
def textOf? : Setting → Option String
  | .text s => some s
  | .whole i => some (toString i)
  | .real x => some x.text
  | .truth b => some (if b then "true" else "false")
  | _ => none

/-- The word that a text writes, as a number or as an answer to yes or no. -/
def wordIn? (s : String) : Option Nat :=
  let low := String.ofList (s.toList.map Char.toLower)
  if ["true", "on", "yes"].contains low then some 1
  else if ["false", "off", "no"].contains low then some 0
  else readWord? s.toList

/-- A value as a number of a word. -/
def wordOf? : Setting → Option Nat
  | .whole i => if i < 0 then none else some i.toNat
  | .text s => wordIn? s
  | .truth b => some (if b then 1 else 0)
  | .real x => some x.toWord
  | _ => none

def portOf? (v : Setting) : Option Nat := (wordOf? v).filter (· < 65536)

def lockNamed? (s : String) : Option LockBackend :=
  if s = "process" then some .process else if s = "file" then some .file else none

/-- A lock by its name, which may also be the only key of a table. -/
def lockOf? : Setting → Option LockBackend
  | .text s => lockNamed? s
  | .table [(k, _)] => lockNamed? k
  | _ => none

/-! ## Sections -/

/-- The members of a section, by their keys or in their order. -/
inductive Area where
  | named (members : List (String × Setting))
  | ordered (members : List Setting)
deriving Repr

namespace Area

def ofSetting? : Setting → Option Area
  | .table es => some (.named es)
  | .list vs => some (.ordered vs)
  | _ => none

/-- A member by its place in the order and its key. -/
def member? (place : Nat) (key : String) : Area → Option Setting
  | .named es => es.lookup key
  | .ordered vs => vs[place]?

/-- A member that has to be there. -/
def need {α : Type} (of? : Setting → Option α) (place : Nat) (key : String) (a : Area) : Option α :=
  (a.member? place key).bind of?

/-- A member with a value of its own when it is left out. -/
def needOr {α : Type} (absent : α) (of? : Setting → Option α) (place : Nat) (key : String) (a : Area) :
    Option α :=
  match a.member? place key with
  | none => some absent
  | some v => of? v

/-- A member that may be unset. In a list its place has to be there all the same. -/
def allow {α : Type} (of? : Setting → Option α) (place : Nat) (key : String) (a : Area) :
    Option (Option α) :=
  match a, a.member? place key with
  | .named _, none => some none
  | .ordered _, none => none
  | _, some .unset => some none
  | _, some v => (of? v).map some

end Area

/-- The settings that a value holds, if each section is there and each member is of its kind. -/
def ofSetting? (v : Setting) : Option Settings := do
  let area? := fun name => (v.entries.lookup name).bind Area.ofSetting?
  let server ← area? "server"
  let host ← server.need textOf? 0 "host"
  let port ← server.need portOf? 1 "port"
  let storage ← area? "storage"
  let path ← storage.need textOf? 0 "path"
  let lock ← storage.needOr .process lockOf? 1 "lock"
  let lockPath ← storage.allow textOf? 2 "lock_path"
  let inventory ← area? "inventory"
  let inventoryPath ← inventory.need textOf? 0 "path"
  let resolver ← area? "resolver"
  let reserved ← resolver.allow textOf? 0 "reserved_asset"
  let maxDepth ← resolver.needOr 10 wordOf? 1 "max_depth"
  return { host, port, storage := { path, lock, lockPath }, inventoryPath, reserved, maxDepth }

/-- Paths of the settings as they are found from a folder. -/
def relativeTo (folder : String) (s : Settings) : Settings :=
  { s with
    storage :=
      { s.storage with
        path := Path.joinTo folder s.storage.path
        lockPath := s.storage.lockPath.map (Path.joinTo folder) }
    inventoryPath := Path.joinTo folder s.inventoryPath }

/-- Loads the settings from the text of a file, if there is one, and the variables of the
environment; together they are laid over what is built in. A byte order mark is taken off the file
before its text is read as a document. -/
def load (folder : String) (file : Option String) (environment : List (String × String)) :
    Except GroupError Settings :=
  let entries? := match file with
    | none => some []
    | some text => Toml.ofText? (Toml.withoutMark text.toList)
  match entries? with
  | none => .error (.config "not a settings file")
  | some entries =>
    match ofSetting? (builtIn.overlay (given entries environment)) with
    | some s => .ok (s.relativeTo folder)
    | none => .error (.config "a value that does not fit")

end Settings

end AssetGroups
