import AssetGroups.Number.Double
import AssetGroups.Toml.Moment

/-!
TOML documents as nested tables. A table may be written in several places; what it was written by
decides what may still be added to it.
-/

namespace AssetGroups

inductive Toml where
  | string (s : String)
  | integer (i : Int)
  | float (d : Double)
  | bool (b : Bool)
  | moment (m : Toml.Moment)
  | array (items : List Toml)
  | table (entries : List (String × Toml))
deriving Repr, Inhabited

namespace Toml

/-- A line of a document: a value at a path below the present table, or the header of a table or of
the next table of an array. -/
inductive Statement where
  | assign (path : List String) (value : Toml)
  | header (path : List String)
  | arrayHeader (path : List String)
deriving Repr

/-- How a table came to be: on the way to another one, by dotted keys, or by its own header. -/
inductive Origin where
  | passing
  | dotted
  | header
deriving DecidableEq, Repr

inductive Node where
  | value (v : Toml)
  | table (origin : Origin) (entries : List (String × Node))
  | tables (all : List (List (String × Node)))
deriving Inhabited

abbrev Entries := List (String × Node)

namespace Entries

def put (k : String) (n : Node) : Entries → Entries
  | [] => [(k, n)]
  | (k', n') :: rest => if k = k' then (k, n) :: rest else (k', n') :: put k n rest

/-- Sets a new value below a table. A dotted key does not go into a table that has its own header; a
table so far only passed by counts from then on as made by dotted keys. Of an array of tables it passes
through the last one, but does not end there. -/
def assign : (path : List String) → Toml → Entries → Option Entries
  | [], _, _ => none
  | [k], v, es => if (es.lookup k).isSome then none else some (put k (.value v) es)
  | k :: path, v, es =>
    match es.lookup k with
    | none => (assign path v []).map fun inner => put k (.table .dotted inner) es
    | some (.table .header _) => none
    | some (.table _ inner) => (assign path v inner).map fun inner => put k (.table .dotted inner) es
    | some (.tables all) =>
      match all.reverse with
      | [] => none
      | last :: before =>
        if path.length = 1 then none
        else (assign path v last).map fun last => put k (.tables (last :: before).reverse) es
    | some (.value _) => none

/-- Changes the table at a path; of an array of tables the last one is meant. -/
def change (f : Entries → Option Entries) : (path : List String) → Entries → Option Entries
  | [], es => f es
  | k :: path, es =>
    match es.lookup k with
    | none => (change f path []).map fun inner => put k (.table .passing inner) es
    | some (.table origin inner) => (change f path inner).map fun inner => put k (.table origin inner) es
    | some (.tables all) =>
      match all.reverse with
      | [] => none
      | last :: before =>
        (change f path last).map fun last => put k (.tables (last :: before).reverse) es
    | some (.value _) => none

/-- Begins the table of a header, which may so far only have been passed by. -/
def openTable (k : String) (es : Entries) : Option Entries :=
  match es.lookup k with
  | none => some (put k (.table .header []) es)
  | some (.table .passing inner) => some (put k (.table .header inner) es)
  | some _ => none

/-- Begins the next table of an array. -/
def openNext (k : String) (es : Entries) : Option Entries :=
  match es.lookup k with
  | none => some (put k (.tables [[]]) es)
  | some (.tables all) => some (put k (.tables (all ++ [[]])) es)
  | some _ => none

end Entries

mutual

def ofNode : Node → Toml
  | .value v => v
  | .table _ es => .table (ofEntries es)
  | .tables all => .array (ofTables all)

def ofEntries : Entries → List (String × Toml)
  | [] => []
  | (k, n) :: es => (k, ofNode n) :: ofEntries es

def ofTables : List Entries → List Toml
  | [] => []
  | es :: all => .table (ofEntries es) :: ofTables all

end

/-- Follows the lines of a document; `present` is the path of the present table. -/
def follow (present : List String) (es : Entries) : List Statement → Option Entries
  | [] => some es
  | .assign path v :: rest =>
    (es.change (Entries.assign path v) present).bind fun es => follow present es rest
  | .header path :: rest =>
    match path.reverse with
    | [] => none
    | k :: front =>
      (es.change (Entries.openTable k) front.reverse).bind fun es => follow path es rest
  | .arrayHeader path :: rest =>
    match path.reverse with
    | [] => none
    | k :: front =>
      (es.change (Entries.openNext k) front.reverse).bind fun es => follow path es rest

/-- The table that the lines of a document describe, unless one contradicts another. -/
def ofStatements (lines : List Statement) : Option (List (String × Toml)) :=
  (follow [] [] lines).map ofEntries

end Toml

end AssetGroups
