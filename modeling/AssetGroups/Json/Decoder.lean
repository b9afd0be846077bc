import AssetGroups.Json.Reader

/-!
From the tree of a text to a value of a type. Members are met in the order of the text, so the first
fault of a text is the one that is reported. An object or list may be opened only while there is
room; what is passed over needs none.
-/

namespace AssetGroups.Json

open AssetGroups.Text

/-- Reads a value of a type from a tree, inside of which `room` more lists and objects may be open at
once. -/
abbrev Decoder (α : Type) := (room : Nat) → Source → Except Fault α

/-- How many lists and objects of a text may be open at once. -/
def textRoom : Nat := 127

def decodeScanned {α : Type} (d : Decoder α) (t : Scanned) : Except Fault α :=
  let (tree, ended) := read t
  match d textRoom tree with
  | .ok a => if ended then .ok a else .error .malformed
  | .error e => .error e

def decodeText {α : Type} (d : Decoder α) (s : String) : Except Fault α :=
  decodeScanned d (s.toList.map some)

/-- Reads a value that was understood before, for which there is always room. -/
def decodeValue {α : Type} (d : Decoder α) (v : Value) : Except Fault α :=
  d v.depth (.ofValue v)

namespace Decoder

variable {α β : Type}

def word : Decoder Nat
  | _, .number n =>
    match n.word? with
    | some k => .ok k
    | none => .error (Source.number n).fault
  | _, s => .error s.fault

def text : Decoder String
  | _, .string (some s) => .ok s
  | _, s => .error s.fault

/-- The value or `null`. -/
def nullable (d : Decoder α) : Decoder (Option α)
  | _, .null => .ok none
  | room, s => (d room s).map some

def anything : Decoder Value := fun room s =>
  match s.value? room with
  | some v => .ok v
  | none => .error .malformed

/-- Reads the items of a list until one does not fit. -/
def items (d : Decoder α) (room : Nat) (closed : Bool) : List Source → Except Fault (List α)
  | [] => if closed then .ok [] else .error .malformed
  | s :: ss =>
    match d room s with
    | .error e => .error e
    | .ok a => (items d room closed ss).map (a :: ·)

def listOf (d : Decoder α) : Decoder (List α)
  | 0, .list .. => .error .malformed
  | room + 1, .list ss closed => items d room closed ss
  | _, s => .error s.fault

/-- Reads the entries of an object until one does not fit. -/
def entries (d : Decoder α) (room : Nat) (closed : Bool) :
    List (Option String × Source) → Except Fault (List (String × α))
  | [] => if closed then .ok [] else .error .malformed
  | (none, _) :: _ => .error .malformed
  | (some k, s) :: ms =>
    match d room s with
    | .error e => .error e
    | .ok a => (entries d room closed ms).map ((k, a) :: ·)

/-- An object with any keys; of entries with one key the last is kept. -/
def dictOf (d : Decoder α) : Decoder (Dict α)
  | 0, .object .. => .error .malformed
  | room + 1, .object ms closed => (entries d room closed ms).map Dict.ofEntries
  | _, s => .error s.fault

/-- A word for one of a few things: a string, or an object whose only key is that string, with the
value `null`. Nothing else is taken for a word at all. -/
def named (of? : String → Option α) : Decoder α
  | _, .string (some s) =>
    match of? s with
    | some a => .ok a
    | none => .error .mismatch
  | _ + 1, .object ((some k, v) :: more) closed =>
    match of? k, v with
    | none, _ => .error .mismatch
    | some a, .null => if more.isEmpty ∧ closed then .ok a else .error .malformed
    | some _, v => .error v.fault
  | _, _ => .error .malformed

/-! ## Records -/

end Decoder

/-- A member of a record: its key, whether it has to be there, and how its value is put into a record
under construction. -/
structure Member (α : Type) where
  key : String
  required : Bool
  put : (room : Nat) → Source → α → Except Fault α

namespace Member

variable {α β : Type}

def needed (key : String) (d : Decoder β) (set : β → α → α) : Member α :=
  ⟨key, true, fun room s a => (d room s).map (set · a)⟩

def optional (key : String) (d : Decoder β) (set : β → α → α) : Member α :=
  ⟨key, false, fun room s a => (d room s).map (set · a)⟩

end Member

namespace Decoder

variable {α : Type}

/-- Fills a record from a list of its members in their order; members at the end may be left out
unless they are required. -/
def fillInOrder (room : Nat) (closed : Bool) :
    List (Member α) → List Source → α → Except Fault α
  | [], [], a => if closed then .ok a else .error .malformed
  | [], _ :: _, _ => .error .malformed
  | fs, [], a =>
    if !closed then .error .malformed
    else if fs.any (·.required) then .error .mismatch
    else .ok a
  | f :: fs, s :: ss, a =>
    match f.put room s a with
    | .error e => .error e
    | .ok a => fillInOrder room closed fs ss a

/-- Fills a record from the members of an object in any order. Keys that are not its own are passed
over; one of its own that comes again is refused. -/
def fillByKey (fs : List (Member α)) (room : Nat) (closed : Bool) :
    (seen : List String) → List (Option String × Source) → α → Except Fault α
  | seen, [], a =>
    if !closed then .error .malformed
    else if fs.any (fun f => f.required && !seen.contains f.key) then .error .mismatch
    else .ok a
  | _, (none, _) :: _, _ => .error .malformed
  | seen, (some k, s) :: ms, a =>
    match fs.find? (·.key == k) with
    | none => if s.isWhole then fillByKey fs room closed seen ms a else .error .malformed
    | some f =>
      if seen.contains k then .error .mismatch
      else
        match f.put room s a with
        | .error e => .error e
        | .ok a => fillByKey fs room closed (k :: seen) ms a

/-- A record: an object with its members, or a list of them. `blank` holds the members that are left
out. -/
def record (blank : α) (fs : List (Member α)) : Decoder α
  | 0, .list .. => .error .malformed
  | 0, .object .. => .error .malformed
  | room + 1, .list ss closed => fillInOrder room closed fs ss blank
  | room + 1, .object ms closed => fillByKey fs room closed [] ms blank
  | _, s => .error s.fault

end Decoder

end AssetGroups.Json
