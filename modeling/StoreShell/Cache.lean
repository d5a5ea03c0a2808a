import Std.Data.TreeMap
import Std.Data.TreeSet
import StoreShell.Entry
import StoreShell.Glob.Pattern
import StoreShell.Path

/-!
# Caches

A cache holds what a shell knows about the objects of a store. The children of a folder are either
unknown or known completely: a listing is installed as a whole. While a folder is being listed its
listing is claimed, and a local change to the folder in the meantime makes the listing stale, so
that it is dropped on arrival and does not undo the change.

Nodes are keyed by paths in normal form. A node without an entry stands for a folder of which only
the path and its children are known.
-/

namespace StoreShell

/-- What is known at a path. -/
structure Node where
  /-- The entry of the object, if it was ever told. -/
  entry : Option Entry := none
  /-- The names of the children, if the folder has been listed. -/
  children : Option (Std.TreeSet String) := none

/-- Nodes by path, and the folders whose listings are claimed, each with whether its listing is
stale. -/
structure Cache where
  nodes : Std.TreeMap String Node
  inFlight : Std.TreeMap String Bool

namespace Cache

/-- The nodes of a cache that knows only the root folder. -/
def rootOnly : Std.TreeMap String Node :=
  (∅ : Std.TreeMap String Node).insert Path.root ⟨some (.folder "" 0), none⟩

/-- A cache that knows only the root folder. -/
def empty : Cache := ⟨rootOnly, ∅⟩

/-- The names of the children of a folder in normal form, if it has been listed. -/
def childNames? (c : Cache) (folder : String) : Option (Std.TreeSet String) :=
  c.nodes[folder]?.bind Node.children

/-- What the cache knows about the object at a path. -/
def get? (c : Cache) (path : String) : Option Entry :=
  c.nodes[Path.normalize path]?.bind Node.entry

def isLoaded (c : Cache) (folder : String) : Bool :=
  (c.childNames? (Path.normalize folder)).isSome

/-- The entries of the children of a folder by name, if they are known. -/
def children? (c : Cache) (folder : String) : Option (List Entry) :=
  let folder := Path.normalize folder
  (c.childNames? folder).map fun names =>
    names.toList.filterMap fun name => c.nodes[Path.join folder name]?.bind Node.entry

/-- The paths of the children of a folder whose names belong to a pattern. A folder that has not
been listed has none. -/
def matching (c : Cache) (folder pattern : String) : List String :=
  let folder := Path.normalize folder
  let pattern := Glob.Pattern.ofText pattern
  match c.childNames? folder with
  | none => []
  | some names => (names.toList.filter pattern.accepts).map (Path.join folder)

/-- All paths with an entry except the root, in order. -/
def paths (c : Cache) : List String :=
  (c.nodes.toList.filter fun (path, node) => path ≠ Path.root && node.entry.isSome).map Prod.fst

def size (c : Cache) : Nat := c.nodes.size - 1

/-- Makes the listings of the chosen folders stale that are on their way. -/
def touchWhere (c : Cache) (chosen : String → Bool) : Cache :=
  { c with inFlight := c.inFlight.map fun folder stale => stale || chosen folder }

def touch (c : Cache) (folder : String) : Cache :=
  c.touchWhere (· = folder)

def touchWithin (c : Cache) (folder : String) : Cache :=
  c.touchWhere (Path.isWithin · folder)

/-- The nodes without those strictly below a folder. -/
def withoutBelow (nodes : Std.TreeMap String Node) (folder : String) : Std.TreeMap String Node :=
  nodes.filter fun path _ => !Path.isBelow path folder

def withoutWithin (nodes : Std.TreeMap String Node) (path : String) : Std.TreeMap String Node :=
  (withoutBelow nodes path).erase path

/-- What the paths of everything in a folder begin with. -/
def front (folder : String) : List Char :=
  if folder = Path.root then ['/'] else folder.toList ++ ['/']

/-- The name by which a folder has the object at a path, if it is directly in the folder. -/
def nameIn? (folder path : String) : Option String :=
  let rest := path.toList.drop (front folder).length
  if (front folder).isPrefixOf path.toList && !rest.isEmpty && !rest.contains '/' then
    some (String.ofList rest)
  else none

/-- The names of the nodes directly in a folder, in order. -/
def directNames (nodes : Std.TreeMap String Node) (folder : String) : List String :=
  nodes.keys.filterMap (nameIn? folder)

def adjustNames (nodes : Std.TreeMap String Node) (folder : String)
    (f : Std.TreeSet String → Std.TreeSet String) : Std.TreeMap String Node :=
  nodes.modify folder fun node => { node with children := node.children.map f }

def putEntry (nodes : Std.TreeMap String Node) (path : String) (entry : Entry) :
    Std.TreeMap String Node :=
  nodes.insert path { nodes[path]?.getD {} with entry := some entry }

/-- Puts an entry from a listing at a path. A file has no children. -/
def putListed (nodes : Std.TreeMap String Node) (path : String) (entry : Entry) :
    Std.TreeMap String Node :=
  let node := nodes[path]?.getD {}
  nodes.insert path ⟨some entry, if entry.isFolder then node.children else none⟩

/-- The names by which a folder has children: those it is known to have, and those of the nodes
directly below it. -/
def knownNames (c : Cache) (folder : String) : List String :=
  ((c.childNames? folder).map fun names => names.toList).getD [] ++ directNames c.nodes folder

/-- Makes a listing the children of a folder. What the cache knew about other children, and about
anything below them, is dropped; children that stay keep what is known below them. -/
def install (c : Cache) (folder : String) (entries : List Entry) : Cache :=
  let names := Std.TreeSet.ofList (entries.map Entry.name)
  let gone := (c.knownNames folder).filter fun name => !names.contains name
  let kept := gone.foldl (fun nodes name => withoutWithin nodes (Path.join folder name)) c.nodes
  let listed := entries.foldl (fun nodes e => putListed nodes (Path.join folder e.name) e) kept
  { c with nodes := listed.insert folder { listed[folder]?.getD {} with children := some names } }

/-- Takes note of one object. If its folder has been listed it becomes one of the children. -/
def add (c : Cache) (entry : Entry) (path : String) : Cache :=
  let path := Path.normalize path
  match Path.parent? path with
  | none => { c with nodes := putEntry c.nodes path entry }
  | some parent =>
    let c := c.touch parent
    let nodes := adjustNames c.nodes parent (·.insert (Path.fileName path))
    { c with nodes := putEntry nodes path entry }

/-- Takes note of the complete children of a folder. -/
def addChildren (c : Cache) (folder : String) (entries : List Entry) : Cache :=
  let folder := Path.normalize folder
  (c.touch folder).install folder entries

/-- Forgets the children of a folder and everything below it. -/
def invalidate (c : Cache) (folder : String) : Cache :=
  let folder := Path.normalize folder
  let c := c.touchWithin folder
  let nodes := withoutBelow c.nodes folder
  { c with nodes := nodes.modify folder fun node => { node with children := none } }

def clear (c : Cache) : Cache :=
  { c.touchWithin Path.root with nodes := rootOnly }

/-- Forgets an object and everything below it. -/
def remove (c : Cache) (path : String) : Cache :=
  let path := Path.normalize path
  match Path.parent? path with
  | none => c.clear
  | some parent =>
    let c := (c.touchWithin path).touch parent
    let nodes := withoutWithin c.nodes path
    { c with nodes := adjustNames nodes parent (·.erase (Path.fileName path)) }

/-- Claims the listing of a folder, unless its children are known or its listing is on its way. -/
def beginFetch (c : Cache) (folder : String) : Bool × Cache :=
  let folder := Path.normalize folder
  if (c.childNames? folder).isSome || c.inFlight.contains folder then (false, c)
  else (true, { c with inFlight := c.inFlight.insert folder false })

/-- Gives a claim back and installs the listing, if there is one and it is not stale. -/
def finishFetch (c : Cache) (folder : String) (entries : Option (List Entry)) : Bool × Cache :=
  let folder := Path.normalize folder
  let stale := c.inFlight[folder]?.getD true
  let c := { c with inFlight := c.inFlight.erase folder }
  match entries with
  | some entries => if stale then (false, c) else (true, c.install folder entries)
  | none => (false, c)

/-- Looks for the nearest folder above a path that has been listed, from `child` upwards, and has it
listed anew if the cache does not know which of its children leads to the path. The number bounds
how many folders there are above `child`. -/
def forgetStaleFrom (c : Cache) (path child : String) : Nat → Cache
  | 0 => c
  | depth + 1 =>
    match Path.parent? child with
    | none => c
    | some folder =>
      if c.isLoaded folder then
        if child ≠ path && (c.get? child).isNone then c.invalidate folder else c
      else c.forgetStaleFrom path folder depth

/-- Making the folders on the way to a path may have changed a folder that was listed before. -/
def forgetStale (c : Cache) (path : String) : Cache :=
  c.forgetStaleFrom path path path.toList.length

end Cache

end StoreShell
