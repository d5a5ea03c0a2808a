import Std.Data.TreeMap
import StoreShell.Command.Changes
import StoreShell.Command.Folders
import StoreShell.Command.Probe
import StoreShell.Command.Text

/-!
# Registries

The commands that a shell knows, by name. A command that is registered under a name takes the place
of the one that was.
-/

namespace StoreShell

/-- Commands by name. -/
structure Registry where
  commands : Std.TreeMap String Command := ∅

namespace Registry

def insertMany (r : Registry) (commands : List (String × Command)) : Registry :=
  ⟨commands.foldl (fun all (name, command) => all.insert name command) r.commands⟩

def get? (r : Registry) (name : String) : Option Command := r.commands[name]?

/-- A command that a registry has after several were registered is one of them or was there. -/
theorem get?_insertMany (r : Registry) (commands : List (String × Command)) {name : String}
    {command : Command} (found : (r.insertMany commands).get? name = some command) :
    r.get? name = some command ∨ (name, command) ∈ commands := by
  induction commands generalizing r with
  | nil => exact Or.inl found
  | cons first rest ih =>
    obtain ⟨other, known⟩ := first
    rcases ih ⟨r.commands.insert other known⟩ found with found | member
    · rw [get?, Std.TreeMap.getElem?_insert] at found
      split at found
      · next same =>
        cases found
        rw [Std.LawfulEqCmp.compare_eq_iff_eq.mp same]
        exact Or.inr (List.mem_cons_self ..)
      · exact Or.inl found
    · exact Or.inr (List.mem_cons_of_mem _ member)

def names (r : Registry) : List String := r.commands.keys

/-- The commands of every shell. -/
def standard : Registry := insertMany {}
  [("echo", Command.echo), ("cat", Command.cat), ("true", Command.succeed),
    ("false", Command.fail), ("pwd", Command.pwd), ("cd", Command.cd), ("ls", Command.ls),
    ("mkdir", Command.mkdir), ("rm", Command.rm), ("mv", Command.mv)]

/-- The probes by name. -/
def probes : List (String × Command) :=
  open Command.Probe in
  [("args", args), ("noisy", noisy), ("exit", exit), ("count", count), ("head", head),
    ("flood", flood), ("drain", drain), ("fail", fail), ("cancel", cancel), ("hang", hang)]

/-- The standard commands and the probes, with some of the probes under further names. -/
def withProbes (aliases : List (String × String)) : Registry :=
  (standard.insertMany probes).insertMany <|
    aliases.filterMap fun (name, probe) => (probes.lookup probe).map (name, ·)

end Registry

end StoreShell
