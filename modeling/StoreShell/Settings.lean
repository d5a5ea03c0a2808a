import StoreShell.Path

/-!
# Settings of a shell

What can be chosen about a shell, and the storage area that it addresses.
-/

namespace StoreShell

/-- What can be chosen about a shell. -/
structure Settings where
  /-- How many bytes a pipe between two commands holds. -/
  pipeCapacity : Nat := 65536
  /-- Whether a folder is listed in the background once it is the working directory. -/
  prefetchOnCd : Bool := true
  /-- How many levels of folders are listed when the shell starts. -/
  preloadDepth : Nat := 1
  /-- Whether patterns in quotes are expanded too. -/
  expandQuoted : Bool := false
  /-- Where `cd` without an argument leads. -/
  home : String := Path.root
  deriving DecidableEq, Repr

namespace Settings

/-- A pipe holds at least one byte. -/
def withPipeCapacity (s : Settings) (bytes : Nat) : Settings :=
  { s with pipeCapacity := max bytes 1 }

/-- The home folder is kept in normal form. -/
def withHome (s : Settings) (home : String) : Settings :=
  { s with home := Path.normalize home }

end Settings

/-- The part of the storage service that a shell addresses. -/
structure Area where
  /-- The tenant, or none for the personal area. -/
  tenant : Option String := none
  /-- Whether it is the encrypted vault. -/
  vault : Bool := false
  deriving DecidableEq, Repr

def Area.describe (a : Area) : String :=
  match a.tenant, a.vault with
  | some tenant, true => s!"tenant:{tenant}/vault"
  | some tenant, false => s!"tenant:{tenant}"
  | none, true => "vault"
  | none, false => "personal"

end StoreShell
