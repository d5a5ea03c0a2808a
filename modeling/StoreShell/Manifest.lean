import StoreShell.Json
import StoreShell.Store
import StoreShell.Text.Utf8

/-!
# Manifests

A manifest tells what a store is filled with: folders, and files with their contents. It is a JSON
object with the members `folders`, a list of paths, and `files`, an object with the contents by
path. Both may be missing, other members are passed over, and neither may be given twice. A list of
the two values, in this order, is a manifest too.
-/

namespace StoreShell

/-- What a store is filled with. -/
structure Manifest where
  folders : List String := []
  files : List (String × String) := []

namespace Manifest

def textOf? : Json → Option String
  | .text value => value
  | _ => none

def foldersOf? : Json → Option (List String)
  | .array items => items.mapM textOf?
  | _ => none

def fileOf? (member : Option String × Json) : Option (String × String) := do
  return (← member.1, ← textOf? member.2)

def filesOf? : Json → Option (List (String × String))
  | .object members => members.mapM fileOf?
  | _ => none

/-- Reads the members of an object, given what of it has been read. -/
def ofMembers? (folders : Option (List String)) (files : Option (List (String × String))) :
    List (Option String × Json) → Option Manifest
  | [] => some ⟨folders.getD [], files.getD []⟩
  | (none, _) :: _ => none
  | (some key, value) :: rest =>
    if key = "folders" then
      if folders.isSome then none
      else (foldersOf? value).bind fun folders => ofMembers? (some folders) files rest
    else if key = "files" then
      if files.isSome then none
      else (filesOf? value).bind fun files => ofMembers? folders (some files) rest
    else ofMembers? folders files rest

def ofJson? : Json → Option Manifest
  | .object members => ofMembers? none none members
  | .array [] => some {}
  | .array [folders] => (foldersOf? folders).map fun folders => ⟨folders, []⟩
  | .array [folders, files] => do return ⟨← foldersOf? folders, ← filesOf? files⟩
  | _ => none

def ofText? (text : String) : Option Manifest := (Json.ofText? text).bind ofJson?

/-- The files by path; of several with one path the last one counts. -/
def filesByPath (m : Manifest) : List (String × String) :=
  (m.files.foldl (fun files (path, content) => files.insert path content)
    (∅ : Std.TreeMap String String)).toList

/-- Fills a store: the folders in their order, then the files by path. -/
def fill (m : Manifest) (s : Store) : Store :=
  m.filesByPath.foldl (fun s (path, content) => s.insertFile path (Text.Utf8.encode content))
    (m.folders.foldl Store.insertFolder s)

end Manifest

end StoreShell
