/-!
Texts as lists of characters: what stands between separators, what follows a given beginning, and
what follows the first place where a given piece occurs.
-/

namespace AssetGroups.Text

/-- The pieces between the separators; one more piece than there are separators. -/
def splitAt (sep : Char) : List Char → List (List Char)
  | [] => [[]]
  | c :: r =>
    if c = sep then [] :: splitAt sep r
    else
      match splitAt sep r with
      | [] => [[c]]
      | piece :: pieces => (c :: piece) :: pieces

/-- What follows `piece` at the front of a text, if it stands there. -/
def afterFront : (piece text : List Char) → Option (List Char)
  | [], text => some text
  | _ :: _, [] => none
  | p :: ps, c :: cs => if p = c then afterFront ps cs else none

/-- What follows the leftmost place where `piece` occurs. -/
def afterFirst (piece : List Char) : List Char → Option (List Char)
  | [] => if piece.isEmpty then some [] else none
  | c :: r =>
    match afterFront piece (c :: r) with
    | some rest => some rest
    | none => afterFirst piece r

/-- What stands before and after the rightmost place where `piece` occurs, which is not empty. -/
def cutAtLast (piece : List Char) : List Char → Option (List Char × List Char)
  | [] => none
  | c :: r =>
    match cutAtLast piece r with
    | some (before, after) => some (c :: before, after)
    | none => (afterFront piece (c :: r)).map ([], ·)

def occursIn (piece text : List Char) : Bool := (afterFirst piece text).isSome

end AssetGroups.Text
