/-!
Paths as texts: components between slashes. A trailing slash and a component `.` that is not the first
one do not count.
-/

namespace AssetGroups.Path

/-- A path from its end, without what does not count there. -/
def significant : (reversed : List Char) → List Char
  | '/' :: r => significant r
  | '.' :: '/' :: r => significant r
  | r => r

/-- The last component from its end, and the rest of the path from its end. A path that ends in `.`,
in `..` or in the root has no such component. -/
def splitName (path : List Char) : Option (List Char × List Char) :=
  let r := significant path.reverse
  let name := r.takeWhile (· != '/')
  if name = [] ∨ name = ['.'] ∨ name = ['.', '.'] then none else some (name, r.drop name.length)

/-- A name from its end without its last dot and what follows it; a dot at its very front begins no
extension. -/
def stem (name : List Char) : List Char :=
  match name.dropWhile (· != '.') with
  | [] => name
  | [_] => name
  | _ :: before => before

/-- The path without the extension in which it ends; the dot before it stays. -/
def cutExtension (path : List Char) : List Char :=
  let name := path.reverse.takeWhile (· != '/')
  let kept := stem name
  if kept = name then path else path.take (path.length - name.length + kept.length + 1)

/-- The path with an extension set on its last component, which has to be there. -/
def setExtension (extension path : List Char) : List Char :=
  match splitName path with
  | none => path
  | some (name, folder) => folder.reverse ++ (stem name).reverse ++ '.' :: extension

/-- The path with the extension of its last component replaced, or set if it has none. The old
extension is cut first: what is left of `..x` is `..`, the folder above, and takes no extension. -/
def withExtension (path extension : String) : String :=
  String.ofList (setExtension extension.toList (cutExtension path.toList))

def isAbsolute (path : String) : Bool := path.toList.head? == some '/'

def joinTo (folder path : String) : String :=
  if isAbsolute path then path
  else if folder.toList.getLast? == some '/' then folder ++ path
  else folder ++ "/" ++ path

end AssetGroups.Path
