import StoreShell.Chain
import StoreShell.Children

/-!
# Expansion of arguments

Patterns among the arguments of a command are replaced by the paths that belong to them. A pattern
is followed component by component from the root or the working directory, through folders that are
listed as they are needed. A path is kept as it is to be shown, relative or absolute, beside the
folder or file that it leads to. An argument that nothing belongs to stays as it is.
-/

namespace StoreShell.Glob

/-- Where expansion takes place. -/
structure Site where
  cache : Nat
  remote : Nat
  cwd : String
  expandQuoted : Bool

/-- A path on the way: what is shown of it, and where it leads. -/
structure Candidate where
  shown : String
  path : String
  deriving DecidableEq, Repr

namespace Candidate

def showJoin (shown name : String) : String :=
  if shown.isEmpty then name
  else if shown.toList.getLast? = some '/' then shown ++ name
  else shown ++ "/" ++ name

end Candidate

/-- Has the children of a folder in the cache, if it is a folder at all. -/
def load (site : Site) (pattern folder : String) : Task Bool := do
  let known ← Task.ask (.known site.cache folder)
  if known.any fun e => !e.isFolder then return false
  match ← Task.attempt (Task.ensureChildren site.cache site.remote folder) with
  | .ok _ => return true
  | .error (.notADirectory _) => return false
  | .error failure =>
    if failure.isNotFound then return false
    throw (.expansion pattern failure.message)

/-- Whether a folder has a child of a name, which has to be a folder itself if one is needed. -/
def exists? (site : Site) (pattern folder name : String) (needFolder : Bool) : Task Bool := do
  if name = "." || name = ".." then return true
  if !(← load site pattern folder) then return false
  match ← Task.ask (.known site.cache (Path.join folder name)) with
  | none => return false
  | some e => return !needFolder || e.isFolder

/-- The candidates that are folders, or all of them if none is needed. -/
def keepFolders (site : Site) (needFolder : Bool) : List Candidate → Task (List Candidate)
  | [] => pure []
  | c :: rest => do
    let known ← if needFolder then Task.ask (.known site.cache c.path) else pure none
    let rest ← keepFolders site needFolder rest
    return if needFolder && !known.any Entry.isFolder then rest else c :: rest

/-- Follows a literal component. Behind a pattern it has to exist. -/
def followLiteral (site : Site) (pattern name : String) (needFolder mustExist : Bool) :
    List Candidate → Task (List Candidate)
  | [] => pure []
  | c :: rest => do
    let goesOn ← if mustExist then exists? site pattern c.path name needFolder else pure true
    let rest ← followLiteral site pattern name needFolder mustExist rest
    return if goesOn then
      ⟨Candidate.showJoin c.shown name, Path.resolve c.path name⟩ :: rest else rest

/-- Follows a component that is a pattern. -/
def followPattern (site : Site) (pattern component : String) (needFolder : Bool) :
    List Candidate → Task (List Candidate)
  | [] => pure []
  | c :: rest => do
    let found ←
      if ← load site pattern c.path then
        let paths ← Task.ask (.matching site.cache c.path component)
        keepFolders site needFolder <| paths.map fun path =>
          ⟨Candidate.showJoin c.shown (Path.fileName path), path⟩
      else pure []
    return found ++ (← followPattern site pattern component needFolder rest)

/-- Follows components, given whether one of them was a pattern. -/
def followAll (site : Site) (pattern : String) (foldersOnly afterPattern : Bool) :
    List String → List Candidate → Task (List Candidate)
  | [], candidates => pure candidates
  | component :: rest, candidates => do
    let needFolder := !rest.isEmpty || foldersOnly
    let next ←
      if isPattern component then followPattern site pattern component needFolder candidates
      else followLiteral site pattern component needFolder afterPattern candidates
    if next.isEmpty then return []
    followAll site pattern foldersOnly (afterPattern || isPattern component) rest next

/-- The components of a pattern that are not empty. -/
def patternComponents (pattern : String) : List String :=
  ((Path.components pattern).filter (!·.isEmpty)).map String.ofList

/-- The paths that belong to a pattern, in order. -/
def expandPattern (site : Site) (pattern : String) : Task (List String) := do
  let foldersOnly := pattern.toList.getLast? = some '/'
  let start : Candidate :=
    if Path.isAbsolute pattern then ⟨Path.root, Path.root⟩ else ⟨"", Path.normalize site.cwd⟩
  let found ← followAll site pattern foldersOnly false (patternComponents pattern) [start]
  let shown := found.map fun c => if foldersOnly then c.shown ++ "/" else c.shown
  return shown.mergeSort fun a b => a ≤ b

def isExpanded (site : Site) (word : Word) : Bool :=
  isPattern word.text && !isExtended word.text && (!word.quoted || site.expandQuoted)

/-- The arguments that a command gets for what was written. -/
def expand (site : Site) : List Word → Task (List String)
  | [] => pure []
  | word :: rest => do
    let found ← if isExpanded site word then expandPattern site word.text else pure []
    let rest ← expand site rest
    return (if found.isEmpty then [word.text] else found) ++ rest

end StoreShell.Glob
