import AssetGroups.Toml.Reader

/-!
Settings before they are understood: values in tables and lists, and how one is laid over another.
-/

namespace AssetGroups

/-- A value as a file or a variable gives it. `unset` stands where a list has a place that nothing was
given for. -/
inductive Setting where
  | unset
  | text (s : String)
  | whole (i : Int)
  | real (x : Double)
  | truth (b : Bool)
  | list (items : List Setting)
  | table (entries : List (String × Setting))
deriving Repr, Inhabited

namespace Setting

mutual

/-- A value of a file; dates and times count as texts. -/
def ofToml : Toml → Setting
  | .string s => .text s
  | .integer i => .whole i
  | .float x => .real x
  | .bool b => .truth b
  | .moment m => .text (String.ofList m.text)
  | .array items => .list (ofItems items)
  | .table entries => .table (ofEntries entries)

def ofItems : List Toml → List Setting
  | [] => []
  | v :: vs => ofToml v :: ofItems vs

def ofEntries : List (String × Toml) → List (String × Setting)
  | [] => []
  | (k, v) :: es => (k, ofToml v) :: ofEntries es

end

/-- The entries of a table; anything else has none. -/
def entries : Setting → List (String × Setting)
  | .table es => es
  | _ => []

/-- The items of a list; anything else has none. -/
def items : Setting → List Setting
  | .list vs => vs
  | _ => []

/-- Replaces the entry of a key, or adds one. -/
def put (k : String) (v : Setting) : List (String × Setting) → List (String × Setting)
  | [] => [(k, v)]
  | (k', v') :: rest => if k = k' then (k, v) :: rest else (k', v') :: put k v rest

mutual

/-- Lays a value over another. A table is laid entry by entry over the entries that are there already;
anything else replaces. -/
def overlay (below : Setting) : Setting → Setting
  | .table es => .table (overlayAll below.entries es)
  | v => v

def overlayAll (below : List (String × Setting)) :
    List (String × Setting) → List (String × Setting)
  | [] => below
  | (k, v) :: es => overlayAll (put k (overlay ((below.lookup k).getD .unset) v) below) es

end

/-! ## Places -/

/-- One step into a value: to the entry of a key, or to a place in a list, which is counted from the
end if it is below zero. -/
inductive Step where
  | key (k : String)
  | place (i : Int)
deriving DecidableEq, Repr

/-- A list made long enough for a place, by unset items behind or before its own, and the index of
that place. -/
def reach (items : List Setting) (i : Int) : List Setting × Nat :=
  let index := if i < 0 then items.length + i else i
  let items := List.replicate (-index).toNat .unset ++ items
  (items ++ List.replicate (index.toNat + 1 - items.length) .unset, index.toNat)

/-- Changes what stands at the end of some steps. What is neither table nor list as a step wants it
gives way to an empty one. -/
def change (f : Setting → Setting) : List Step → Setting → Setting
  | [], v => f v
  | .key k :: steps, v =>
    .table (put k (change f steps ((v.entries.lookup k).getD .unset)) v.entries)
  | .place i :: steps, v =>
    let (items, n) := reach v.items i
    .list (items.set n (change f steps (items.getD n .unset)))

/-! ## Paths -/

def isKeyChar (c : Char) : Bool := c.isAlphanum || c == '_' || c == '-'

/-- Reads a place in brackets, after the opening one. Blanks may stand around its number. -/
def readPlace (s : List Char) : Option (Step × List Char) :=
  let s := Toml.skipSpacing s
  let (negative, s) := match s with
    | '-' :: s => (true, s)
    | s => (false, s)
  let digits := s.takeWhile Char.isDigit
  let n := Toml.signed negative (Text.ofDigits (digits.filterMap Text.digitOf?))
  match Toml.skipSpacing (s.drop digits.length) with
  | ']' :: rest =>
    if digits.isEmpty ∨ n < -Toml.integerLimit ∨ Toml.integerLimit ≤ n then none
    else some (.place n, rest)
  | _ => none

/-- Reads steps up to the end of a text: keys after dots, and places in brackets. -/
def readSteps : (fuel : Nat) → List Char → Option (List Step)
  | _, [] => some []
  | fuel + 1, '.' :: s =>
    let k := s.takeWhile isKeyChar
    if k.isEmpty then none
    else (readSteps fuel (s.drop k.length)).map (.key (String.ofList k) :: ·)
  | fuel + 1, '[' :: s =>
    (readPlace s).bind fun (step, s) => (readSteps fuel s).map (step :: ·)
  | _, _ => none

/-- The steps that a key means: `server.port`, `server[1]`. -/
def steps? (key : List Char) : Option (List Step) := readSteps (key.length + 1) ('.' :: key)

/-- Lays a value over the place that a key means. A key that means none sets nothing. -/
def overlayAt (below : Setting) (key : List Char) (v : Setting) : Setting :=
  match steps? key with
  | none => below
  | some steps => change (overlay · v) steps below

end Setting

end AssetGroups
