import StaticSite.FileTree.Walk
import StaticSite.Table

/-!
# The component registry

Which file defines a component. A name that several files define is in conflict and resolves to none.
-/
namespace StaticSite

/-- The files that define each name, in the order in which they were found. -/
structure Registry where
  candidates : Table (List FilePath)

namespace Registry

def empty : Registry := ⟨[]⟩

/-- All files that define a name. -/
def files (name : Text) (r : Registry) : List FilePath := (r.candidates.get? name).getD []

/-- Adds a file that defines a name, unless it is known. -/
def insert (name : Text) (path : FilePath) (r : Registry) : Registry :=
  let known := r.files name
  ⟨r.candidates.insert name (if known.any (FilePath.same path) then known else known ++ [path])⟩

def contains (name : Text) (r : Registry) : Bool := r.candidates.contains name

/-- The file that defines a name, when it is the only one. -/
def resolve? (name : Text) (r : Registry) : Option FilePath :=
  match r.files name with
  | [path] => some path
  | _ => none

def isConflict (name : Text) (r : Registry) : Bool := 1 < (r.files name).length

/-- The names in conflict with their files. -/
def conflicts (r : Registry) : Table (List FilePath) := r.candidates.filter fun e => 1 < e.2.length

def size (r : Registry) : Nat := r.candidates.length

/-- Extensions of files that define components. -/
def extensions : List String := ["tsx", "jsx", "ts", "js", "mdx"]

/-- The name of the component that a file defines: the stem of its name, or for an index file the name of
its directory. Files of type declarations define none. -/
def componentName? (path : FilePath) : Option Text := do
  let extension ← FilePath.extension? path
  let stem ← FilePath.fileStem? path
  if !extensions.any (fun e => e.toList == Text.lower extension) || Text.endsWith ".d" stem then none
  else if stem = "index".toList then FilePath.fileName? (← FilePath.parent? path)
  else some stem

/-- Adds a file under the name of its component, if it defines one. -/
def insertFile (r : Registry) (path : FilePath) : Registry :=
  match componentName? path with
  | some name => r.insert name path
  | none => r

/-- The registry of a directory; it is empty without one. -/
def scan (tree : FileTree) (directory : FilePath) : Registry :=
  (tree.allFiles directory).foldl insertFile empty

end Registry

end StaticSite
