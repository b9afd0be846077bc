/-!
Media types of request bodies, in so far as they tell whether a body is JSON.
-/

namespace AssetGroups.Http

def isTokenChar (c : Char) : Bool := c.isAlphanum || "!#$%&'*+-.^_`|~".toList.contains c

def isQuotedChar (c : Char) : Bool := 0x20 ≤ c.toNat && c.toNat < 0x7F

/-- Where a reader of parameters stands: in a name, at the front of a value, in a value, at the front
of a quoted value, in a quoted value, after a quoted value. Blanks are passed over before a name. -/
inductive ParameterState where
  | nameFront
  | name
  | valueFront
  | value
  | quotedFront
  | quoted
  | afterQuoted
deriving DecidableEq, Repr

namespace ParameterState

/-- One character further, or `none` where it may not stand. -/
def next? (s : ParameterState) (c : Char) : Option ParameterState :=
  match s with
  | .nameFront => if c == ' ' then some .nameFront else if isTokenChar c then some .name else none
  | .name => if isTokenChar c then some .name else if c == '=' then some .valueFront else none
  | .valueFront => if c == '"' then some .quotedFront else if isTokenChar c then some .value else none
  | .value => if isTokenChar c then some .value else if c == ';' then some .nameFront else none
  | .quotedFront => if isQuotedChar c then some .quoted else none
  | .quoted =>
    if c == '"' then some .afterQuoted else if isQuotedChar c then some .quoted else none
  | .afterQuoted => if c == ' ' then some .afterQuoted else if c == ';' then some .nameFront else none

def isFinal : ParameterState → Bool
  | .nameFront | .valueFront | .value | .afterQuoted => true
  | _ => false

end ParameterState

/-- Whether a text is a list of parameters, each a name and a value. -/
def areParameters (s : List Char) : Bool :=
  match s.foldlM ParameterState.next? .nameFront with
  | some state => state.isFinal
  | none => false

/-- Type, subtype and suffix of a media type. The suffix is what follows the last plus sign of the
subtype, unless that sign stands at its front. -/
structure MediaType where
  type : String
  subtype : String
  suffix : Option String
deriving DecidableEq, Repr

namespace MediaType

def splitSuffix (s : List Char) : List Char × Option (List Char) :=
  let suffix := (s.reverse.takeWhile (· != '+')).reverse
  let front := s.take (s.length - suffix.length - 1)
  if suffix.length < s.length ∧ front ≠ [] then (front, some suffix) else (s, none)

/-- Reads a media type in any case of letters. Parameters follow a semicolon. -/
def ofText? (s : String) : Option MediaType :=
  let chars := s.toList.map Char.toLower
  let type := chars.takeWhile isTokenChar
  match chars.drop type.length with
  | '/' :: rest =>
    let whole := rest.takeWhile isTokenChar
    let parametersFit := match rest.drop whole.length with
      | [] => true
      | c :: parameters => c == ';' && areParameters parameters
    if type.isEmpty || whole.isEmpty || !parametersFit then none
    else
      let (subtype, suffix) := splitSuffix whole
      some ⟨String.ofList type, String.ofList subtype, suffix.map String.ofList⟩
  | _ => none

def isJson (m : MediaType) : Bool :=
  m.type == "application" && (m.subtype == "json" || m.suffix == some "json")

end MediaType

end AssetGroups.Http
