import StoreShell.Script

/-!
# Children of folders

How a shell comes to know the children of a folder: from the cache, or else by listing the folder
once, whoever asks, and putting the listing into the cache. A listing that went stale on its way is
not put there; the folder is listed again, and after `listingAttempts` times the listing is used
without the cache.
-/

namespace StoreShell

/-- How often a folder that keeps changing is listed. -/
def listingAttempts : Nat := 3

namespace Task

def sortByName (entries : List Entry) : List Entry :=
  entries.mergeSort fun a b => a.name ≤ b.name

/-- The children of a folder in normal form from the cache, or by listing it; what to do with a
listing that went stale is told. -/
def listOnce (cache remote : Nat) (folder : String)
    (whenStale : List Entry → Script (Except Failure (List Entry))) :
    Script (Except Failure (List Entry)) :=
  .claim cache folder fun
    | some children => .done (.ok children)
    | none => .list ⟨remote, folder, .asked⟩ fun
      | .error failure =>
        .ask (.finishFetch cache folder none) fun _ => .done (.error failure)
      | .ok entries => .ask (.finishFetch cache folder (some entries)) fun
        | some children => .done (.ok children)
        | none => whenStale entries

/-- The children of a folder in normal form, after listing it so many times more than once. -/
def ensureChildrenIn (cache remote : Nat) (folder : String) :
    Nat → Script (Except Failure (List Entry))
  | 0 => listOnce cache remote folder fun entries => .done (.ok (sortByName entries))
  | again + 1 => listOnce cache remote folder fun _ => ensureChildrenIn cache remote folder again

/-- The children of a folder by name. -/
def ensureChildren (cache remote : Nat) (folder : String) : Task (List Entry) :=
  ensureChildrenIn cache remote (Path.normalize folder) (listingAttempts - 1)

def subfolders (folder : String) (children : List Entry) : List String :=
  (children.filter Entry.isFolder).map fun e => Path.join folder e.name

/-- Lists folders: how many of them could be listed, and the folders in them. Only the failure of
`root` is one of the whole. -/
def preloadLevel (cache remote : Nat) (root : String) : List String → Task (Nat × List String)
  | [] => pure (0, [])
  | folder :: rest => do
    match ← attempt (ensureChildren cache remote folder) with
    | .error failure =>
      if folder = root then throw failure
      preloadLevel cache remote root rest
    | .ok children =>
      let (listed, next) ← preloadLevel cache remote root rest
      return (listed + 1, subfolders folder children ++ next)

/-- Lists folders, the folders in them, and so on, so many levels deep: how many could be listed. -/
def preloadLevels (cache remote : Nat) (root : String) : Nat → List String → Task Nat
  | 0, _ => pure 0
  | _, [] => pure 0
  | depth + 1, folder :: rest => do
    let (listed, next) ← preloadLevel cache remote root (folder :: rest)
    let deeper ← preloadLevels cache remote root depth next
    return listed + deeper

/-- Lists a folder and what is below it, so many levels deep: how many folders could be listed. -/
def preload (cache remote : Nat) (folder : String) (depth : Nat) : Task Nat :=
  let root := Path.normalize folder
  preloadLevels cache remote root depth [root]

end Task

end StoreShell
