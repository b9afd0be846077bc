/-!
The ways in which work on groups fails, each with its text, its kind, the status of an HTTP reply, and
what a diagnostic says about it.
-/

namespace AssetGroups

/-- What a check of a group finds wrong. -/
inductive Violation where
  | emptyGroup
  | nameExpected
  | conditionExpected
  | connectiveExpected
  | fieldExpected
  | operatorExpected
  | valueExpected
  | linkExpected
  | idExpected
  | groupsExist
deriving DecidableEq, Repr

def Violation.message : Violation → String
  | .emptyGroup => "Group is empty"
  | .nameExpected => "Name expected"
  | .conditionExpected => "Any condition is expected"
  | .connectiveExpected => "Valid logical operator is expected"
  | .fieldExpected => "Valid field name is expected"
  | .operatorExpected => "Valid condition operator is expected"
  | .valueExpected => "Value of condition is expected"
  | .linkExpected => "Valid value of condition for linked group is expected"
  | .idExpected => "Group id is expected"
  | .groupsExist => "Restore operation cannot be completed: there are existing groups"

inductive GroupError where
  | validation (text : String)
  | notFound (text : String)
  | unsupportedField (field : String)
  | duplicateName (name : String)
  | cyclicReference (path : String)
  | storage (path cause : String)
  | inventory (text : String)
  | badRequest (text : String)
  | io (cause : String)
  | config (cause : String)
  | serialization (cause : String)
deriving DecidableEq, Repr

namespace GroupError

def ofViolation (v : Violation) : GroupError := .validation v.message

def noGroupWithId (id : Nat) : GroupError := .notFound s!"Group with id '{id}' was not found"

def noGroupWithName (name : String) : GroupError :=
  .notFound s!"Group with name '{name}' was not found"

/-- The group that a condition refers to by `value` is not there. -/
def noLinkedGroup (value : String) : GroupError :=
  .notFound s!"Group with id '{value}' was not found"

def nothingToRemove (id : Nat) : GroupError := .notFound s!"Id '{id}' was not found"

def duplicateAsset (name : String) : GroupError := .inventory s!"Duplicate asset name '{name}'"

def unknownLinkEnd (name : String) : GroupError :=
  .inventory s!"Link references unknown asset '{name}'"

def unsupportedSubject (subject : String) : GroupError :=
  .badRequest s!"Unsupported subject '{subject}'"

def emptyPayload : GroupError := .badRequest "Wrong input data: payload is empty"

def wrongPayload : GroupError := .badRequest "Wrong input data: format of payload is incorrect"

/-- The groups passed on the way from the first one back to the one that is referred to again. -/
def cycle (trail : List Nat) : GroupError :=
  .cyclicReference (" -> ".intercalate (trail.map toString))

def tooDeep (limit : Nat) : GroupError :=
  .cyclicReference s!"group references nested deeper than {limit}"

def message : GroupError → String
  | .validation text => text
  | .notFound text => text
  | .unsupportedField field => s!"Unsupported field '{field}' in condition"
  | .duplicateName name => s!"Group with name '{name}' already exists"
  | .cyclicReference path => s!"Cyclic group reference detected: {path}"
  | .storage path cause => s!"Failed to access group store `{path}`: {cause}"
  | .inventory text => s!"Asset inventory error: {text}"
  | .badRequest text => text
  | .io cause => s!"I/O error: {cause}"
  | .config cause => s!"Config error: {cause}"
  | .serialization cause => s!"Serialization error: {cause}"

/-- The short name of the family of an error; a failed access is a storage error wherever it
happens. -/
def kind : GroupError → String
  | .validation _ => "validation"
  | .notFound _ => "not_found"
  | .unsupportedField _ => "unsupported_field"
  | .duplicateName _ => "duplicate_name"
  | .cyclicReference _ => "cyclic_reference"
  | .storage .. => "storage"
  | .inventory _ => "inventory"
  | .badRequest _ => "bad_request"
  | .io _ => "storage"
  | .config _ => "config"
  | .serialization _ => "serde"

def code (e : GroupError) : String :=
  "autogroup::" ++ match e with
    | .io _ => "io"
    | e => e.kind

def help : GroupError → Option String
  | .validation _ =>
    some "Check the group name, the logical operator and every condition of the rule tree"
  | .unsupportedField _ =>
    some "Supported fields: name, asset, location, type, subtype, contact, host-name, ip-address, hosted-by, group"
  | .cyclicReference _ =>
    some "A group condition must not reference a group that (directly or indirectly) references it back"
  | .storage .. => some "Check that the storage directory exists and is writable"
  | _ => none

/-- The status of an HTTP reply: the caller's own mistakes are below 500. -/
def status : GroupError → Nat
  | .validation _ => 400
  | .badRequest _ => 400
  | .duplicateName _ => 400
  | .unsupportedField _ => 400
  | .notFound _ => 404
  | .cyclicReference _ => 409
  | _ => 500

end GroupError

end AssetGroups
