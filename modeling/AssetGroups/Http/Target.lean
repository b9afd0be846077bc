import AssetGroups.Text.Digits
import AssetGroups.Text.Pieces
import AssetGroups.Text.Utf8

/-!
The target of a request: the segments of its path, and what a segment stands for.
-/

namespace AssetGroups.Http

open Text

def isSchemeChar (c : Char) : Bool :=
  c.isAlphanum || c == '+' || c == '-' || c == '.' || c == '~'

/-- What follows the authority of a target that begins with a scheme and two slashes, at least one
slash; of any other target the whole. -/
def afterAuthority (target : List Char) : List Char :=
  match target.dropWhile isSchemeChar with
  | ':' :: '/' :: '/' :: rest =>
    match rest.dropWhile fun c => c != '/' && c != '?' && c != '#' with
    | '/' :: path => '/' :: path
    | rest => '/' :: rest
  | _ => target

/-- The path of a target, without query and fragment. -/
def path (target : String) : List Char :=
  (afterAuthority target.toList).takeWhile fun c => c != '?' && c != '#'

def segments (target : String) : List String := (splitAt '/' (path target)).map String.ofList

/-- The octets that a segment stands for. A percent sign without two hexadecimal digits after it
stands for itself. -/
def percentDecode : List UInt8 → List UInt8
  | [] => []
  | b :: c :: d :: rest =>
    if b = 0x25 then
      match hexDigit? (Char.ofNat c.toNat), hexDigit? (Char.ofNat d.toNat) with
      | some x, some y => (x * 16 + y).toUInt8 :: percentDecode rest
      | _, _ => b :: percentDecode (c :: d :: rest)
    else b :: percentDecode (c :: d :: rest)
  | b :: rest => b :: percentDecode rest

/-- The text that a segment stands for, if its octets are a text. -/
def segmentText? (segment : String) : Option String :=
  Utf8.decode? (percentDecode (Utf8.encode segment))

end AssetGroups.Http
