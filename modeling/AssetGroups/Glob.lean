import AssetGroups.Text.Pieces

/-!
Patterns in which `*` stands for any run of characters, the empty run included, and every other
character for itself.
-/

namespace AssetGroups.Glob

open AssetGroups.Text

/-- Matches what is left of a text against the pieces after the first star: each is sought from the
left, and the last has to end the text. No piece left means that there was no star. -/
def matchTail : (pieces : List (List Char)) → List Char → Bool
  | [], rest => rest.isEmpty
  | [last], rest => last.isSuffixOf rest
  | piece :: pieces, rest =>
    match afterFirst piece rest with
    | some rest => matchTail pieces rest
    | none => false

def accepts (pattern text : List Char) : Bool :=
  match splitAt '*' pattern with
  | [] => false
  | first :: pieces =>
    match afterFront first text with
    | some rest => matchTail pieces rest
    | none => false

end AssetGroups.Glob
