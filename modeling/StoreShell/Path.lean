/-!
# Paths

A path names an object of a store. It is a text of components joined by slashes; the normal form
starts with a slash, has no empty, `.` or `..` component and, the root apart, no slash at its end.
Stores and caches key their objects by normal forms, and `parent?`, `fileName`, `join` and
`isBelow` describe one tree on them. Every function here also answers for texts that are not in
normal form.
-/

namespace StoreShell.Path

def root : String := "/"

/-- The components of a text between its slashes, empty ones included. -/
def components (path : String) : List (List Char) :=
  path.toList.splitOn '/'

/-- Follows one component from a folder given by its components, the deepest first. Leaving the
root leads nowhere else. -/
def follow (folder : List (List Char)) (component : List Char) : List (List Char) :=
  if component = [] || component = ['.'] then folder
  else if component = ['.', '.'] then folder.tail
  else component :: folder

/-- Slash-separated text of components, the deepest first. -/
def ofComponents (deepestFirst : List (List Char)) : String :=
  String.ofList ('/' :: ['/'].intercalate deepestFirst.reverse)

/-- The normal form of a path. A text without a slash in front is read from the root. -/
def normalize (path : String) : String :=
  ofComponents ((components path).foldl follow [])

/-- Whether a path is read from the root and not from a folder. -/
def isAbsolute (path : String) : Bool :=
  path.toList.head? == some '/'

/-- The normal form of a path as seen from the folder `cwd`. -/
def resolve (cwd path : String) : String :=
  if isAbsolute path then normalize path else normalize (cwd ++ "/" ++ path)

/-- Everything up to the last slash and everything after it, if there is a slash. -/
def splitLast? (path : String) : Option (List Char × List Char) :=
  let reversed := path.toList.reverse
  match reversed.dropWhile (· ≠ '/') with
  | [] => none
  | _ :: before => some (before.reverse, (reversed.takeWhile (· ≠ '/')).reverse)

/-- The folder that holds an object. The root is in no folder. -/
def parent? (path : String) : Option String :=
  if path = root then none
  else (splitLast? path).map fun (before, _) =>
    if before = [] then root else String.ofList before

/-- The last component, which is empty for the root. -/
def fileName (path : String) : String :=
  String.ofList (path.toList.reverse.takeWhile (· ≠ '/')).reverse

/-- The path of the object that a folder calls `name`. -/
def join (folder name : String) : String :=
  if folder = root then "/" ++ name else folder ++ "/" ++ name

/-- Whether an object lies strictly below a folder. -/
def isBelow (path folder : String) : Bool :=
  if folder = root then path ≠ root
  else (folder.toList ++ ['/']).isPrefixOf path.toList

/-- Whether an object is a folder itself or lies below it. -/
def isWithin (path folder : String) : Bool :=
  path == folder || isBelow path folder

end StoreShell.Path
