import StoreShell.Sha256
import StoreShell.Text.Hex

/-!
# Entries

What a store tells about an object: its name, whether it is a folder, its number, the size and the
digest of its content.
-/

namespace StoreShell

/-- What an object is. -/
inductive EntryKind where
  | folder
  | file
  deriving DecidableEq, Repr

/-- What is known about an object. -/
structure Entry where
  /-- The last component of its path. -/
  name : String
  kind : EntryKind
  /-- The number that the store gave it. -/
  id : Nat
  /-- The size in bytes, 0 for folders. -/
  size : Nat
  /-- The digest of the content, where the store tells it. -/
  hash : Option String
  deriving DecidableEq, Repr

namespace Entry

def folder (name : String) (id : Nat) : Entry := ⟨name, .folder, id, 0, none⟩

def file (name : String) (id : Nat) (content : Bytes) : Entry :=
  ⟨name, .file, id, content.length, some (Text.Hex.encode (Sha256.digest content))⟩

def isFolder (e : Entry) : Bool := e.kind = .folder

end Entry

end StoreShell
