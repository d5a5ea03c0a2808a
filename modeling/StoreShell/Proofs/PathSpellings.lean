import StoreShell.Proofs.CacheLookups
import StoreShell.World

/-! # Spellings of paths

One path has many spellings, and its normal form stands for all of them. What a path leads to behind
a slash depends on the normal form of what is in front (`normalize_append`), so going to a folder
and looking at a path from there is the same as looking at the joined path (`resolve_resolve`).
Caches and stores key their objects by normal forms. `Cache.Use` and `Store.Use` are everything that
can be done with them about one path, and nothing of it tells two spellings apart.
-/

namespace StoreShell

open StoreShell.Path

namespace Path

/-- A slash between two texts separates their components. -/
theorem components_append (before behind : String) :
    components (before ++ "/" ++ behind) = components before ++ components behind := by
  have joined : (before ++ "/" ++ behind).toList = before.toList ++ '/' :: behind.toList := by
    rw [String.toList_append, String.toList_append, List.append_assoc]
    rfl
  rw [components, joined, List.splitOn_append_cons_self, components, components]

/-- What stands in front of a slash counts as its normal form does. -/
theorem normalize_append (before behind : String) :
    normalize (before ++ "/" ++ behind) = normalize (normalize before ++ "/" ++ behind) := by
  simp only [normalize, components_append, List.foldl_append]
  rw [← normalize, foldl_follow_normalize]

/-- Whether a path is absolute is decided at its beginning. -/
theorem isAbsolute_append {before : String} (filled : before ≠ "") (behind : String) :
    isAbsolute (before ++ "/" ++ behind) = isAbsolute before := by
  obtain ⟨c, rest, chars⟩ :=
    List.exists_cons_of_ne_nil (mt String.toList_eq_nil_iff.mp filled)
  simp only [isAbsolute, String.toList_append, chars, List.cons_append, List.head?_cons]

/-- Going to a folder and looking at a path from there is looking at the joined path. -/
theorem resolve_resolve (cwd : String) {folder path : String} (filled : folder ≠ "")
    (relative : isAbsolute path = false) :
    resolve (resolve cwd folder) path = resolve cwd (folder ++ "/" ++ path) := by
  have inner : resolve (resolve cwd folder) path =
      normalize (resolve cwd folder ++ "/" ++ path) := by
    rw [resolve, relative]
    rfl
  rw [inner, resolve, resolve, isAbsolute_append filled]
  cases isAbsolute folder with
  | true => exact (normalize_append folder path).symm
  | false =>
    have regrouped :
        cwd ++ "/" ++ folder ++ "/" ++ path = cwd ++ "/" ++ (folder ++ "/" ++ path) := by
      simp only [String.append_assoc]
    exact (normalize_append (cwd ++ "/" ++ folder) path).symm.trans (congrArg normalize regrouped)

theorem isAbsolute_normalize (path : String) : isAbsolute (normalize path) := by
  rw [isAbsolute, normalize, ofComponents, String.toList_ofList]
  rfl

/-- A normal path is seen alike from everywhere. -/
theorem IsNormal.resolve_eq {path : String} (normal : IsNormal path) (cwd : String) :
    resolve cwd path = path := by
  have absolute := isAbsolute_normalize path
  rw [normalize_of_isNormal normal] at absolute
  rw [resolve, if_pos absolute, normalize_of_isNormal normal]

/-- A normal path with a slash at its end would have an empty component there. -/
theorem IsNormal.eq_root_of_slash_at_end {path : String} (normal : IsNormal path)
    (slash : path.toList.getLast? = some '/') : path = root := by
  by_contra deep
  obtain ⟨names, -, named, components_eq⟩ := normal.components_eq deep
  obtain ⟨before, ends⟩ := List.getLast?_eq_some_iff.mp slash
  rw [components, ends, List.splitOn_append_cons_self, List.splitOn_nil] at components_eq
  obtain ⟨first, more, cut⟩ := List.exists_cons_of_ne_nil (List.splitOn_ne_nil '/' before)
  rw [cut, List.cons_append, List.cons.injEq] at components_eq
  have empty : [] ∈ names :=
    components_eq.2 ▸ List.mem_append_right more (List.mem_singleton_self _)
  exact (named [] empty).1 rfl

end Path

namespace Cache

variable {α : Type}

/-- What can be done with a cache about one path: it is asked, or it is told something. -/
inductive Use : Type → Type where
  | get? : Use (Option Entry)
  | isLoaded : Use Bool
  | children? : Use (Option (List Entry))
  | matching (pattern : String) : Use (List String)
  | add (entry : Entry) : Use Unit
  | addChildren (entries : List Entry) : Use Unit
  | invalidate : Use Unit
  | remove : Use Unit
  | beginFetch : Use Bool
  | finishFetch (entries : Option (List Entry)) : Use Bool

def Use.run (c : Cache) (path : String) : Use α → α × Cache
  | get? => (c.get? path, c)
  | isLoaded => (c.isLoaded path, c)
  | children? => (c.children? path, c)
  | matching pattern => (c.matching path pattern, c)
  | add entry => ((), c.add entry path)
  | addChildren entries => ((), c.addChildren path entries)
  | invalidate => ((), c.invalidate path)
  | remove => ((), c.remove path)
  | beginFetch => c.beginFetch path
  | finishFetch entries => c.finishFetch path entries

/-- A cache goes by the normal form of a path. -/
theorem Use.run_normalize (c : Cache) (path : String) (u : Use α) :
    u.run c (normalize path) = u.run c path := by
  cases u <;>
    simp only [run, Cache.get?, Cache.isLoaded, Cache.children?, Cache.matching, add_normalize,
      Cache.addChildren, Cache.invalidate, remove_normalize, Cache.beginFetch, Cache.finishFetch,
      normalize_normalize]

end Cache

namespace Store

variable {α : Type}

/-- What can be done with a store about one path. A move is about the path that it leads from, or
about the path that it leads to. -/
inductive Use : Type → Type where
  | insertFile (content : Bytes) : Use Unit
  | insertFolder : Use Unit
  | contents? : Use (Option Bytes)
  | list : Use (Except Failure (List Entry))
  | stat : Use (Except Failure Entry)
  | read : Use (Except Failure Bytes)
  | write (content : Bytes) : Use (Except Failure Entry)
  | append (content : Bytes) : Use (Except Failure Entry)
  | makeFolder (parents : Bool) : Use (Except Failure Entry)
  | remove (recursive : Bool) : Use (Except Failure Unit)
  | moveTo (target : String) : Use (Except Failure Entry)
  | moveFrom (source : String) : Use (Except Failure Entry)

def Use.run (s : Store) (path : String) : Use α → α × Store
  | insertFile content => ((), s.insertFile path content)
  | insertFolder => ((), s.insertFolder path)
  | contents? => (s.contents? path, s)
  | list => (s.list path, s)
  | stat => (s.stat path, s)
  | read => (s.read path, s)
  | write content => (Edit.write path content).apply s
  | append content => (Edit.append path content).apply s
  | makeFolder parents => (Edit.makeFolder path parents).apply s
  | remove recursive => (Edit.remove path recursive).apply s
  | moveTo target => (Edit.rename path target).apply s
  | moveFrom source => (Edit.rename source path).apply s

/-- A store goes by the normal form of a path. -/
theorem Use.run_normalize (s : Store) (path : String) (u : Use α) :
    u.run s (normalize path) = u.run s path := by
  cases u <;>
    simp only [run, Store.insertFile, Store.insertFolder, Store.contents?, Store.list, Store.stat,
      Store.read, Edit.write, Edit.append, Edit.makeFolder, Edit.remove, Edit.rename,
      normalize_normalize]

end Store

/-- A normal form begins with a slash, has no empty component and none of one or two dots, has no
slash at its end unless it is the root, and is its own normal form. What is in front of a slash
counts as its normal form does, so paths may be resolved in steps. Nothing that is done with a cache
or a store tells two spellings of one normal form apart: neither what it answers nor what it
leaves. -/
theorem normalForms_canonical :
    (∀ path, isAbsolute (normalize path) ∧
      (normalize path = root ∨ (normalize path).toList.getLast? ≠ some '/' ∧
        ∃ names, components (normalize path) = [] :: names ∧
          ∀ c ∈ names, c ≠ [] ∧ c ≠ ['.'] ∧ c ≠ ['.', '.']) ∧
      normalize (normalize path) = normalize path) ∧
    (∀ before behind, normalize (before ++ "/" ++ behind) =
      normalize (normalize before ++ "/" ++ behind)) ∧
    (∀ cwd folder path, folder ≠ "" → isAbsolute path = false →
      resolve (resolve cwd folder) path = resolve cwd (folder ++ "/" ++ path)) ∧
    (∀ path other, normalize path = normalize other →
      (∀ (c : Cache) (α : Type) (u : Cache.Use α), u.run c path = u.run c other) ∧
      ∀ (s : Store) (α : Type) (u : Store.Use α), u.run s path = u.run s other) := by
  refine ⟨fun path => ?_, normalize_append, fun cwd _ _ => resolve_resolve cwd, ?_⟩
  · have normal := isNormal_normalize path
    refine ⟨isAbsolute_normalize path, or_iff_not_imp_left.mpr fun deep => ⟨?_, ?_⟩,
      normalize_normalize path⟩
    · exact fun slash => deep (normal.eq_root_of_slash_at_end slash)
    · obtain ⟨names, -, named, components_eq⟩ := normal.components_eq deep
      exact ⟨names, components_eq, fun c member => ⟨(named c member).1, (named c member).2.2⟩⟩
  · intro path other same
    constructor
    · intro c α u
      rw [← u.run_normalize c path, same, u.run_normalize]
    · intro s α u
      rw [← u.run_normalize s path, same, u.run_normalize]

/-- `/b/../../a//.` and `a/c/..` are spellings of `/a`, and going from `/x` to `a/.` and from there
to `../b` is going to `a/./../b`. -/
theorem normalForms_canonical_spelled :
    (∀ u : Store.Use (Except Failure (List Entry)),
      u.run (Store.empty.insertFile "/a/f" [1]) "/b/../../a//." =
        u.run (Store.empty.insertFile "/a/f" [1]) "a/c/..") ∧
    (∀ u : Cache.Use Bool, u.run .empty "/b/../../a//." = u.run .empty "a/c/..") ∧
    resolve (resolve "/x" "a/.") "../b" = resolve "/x" "a/./../b" := by
  obtain ⟨-, -, steps, alike⟩ := normalForms_canonical
  obtain ⟨cached, stored⟩ := alike "/b/../../a//." "a/c/.." (by decide +kernel)
  exact ⟨stored _ _, cached _ _, steps "/x" "a/." "../b" (by decide) (by decide)⟩

end StoreShell
