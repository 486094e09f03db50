import StaticSite.EsModule.DefaultExport
import StaticSite.FileTree.Basic

/-!
# The cache of default exports

What is known about the default exports of component files. A file is read once, and a file that could not
be read is tried again.
-/
namespace StaticSite

structure ExportCache where
  known : List (FilePath × Bool)

namespace ExportCache

def empty : ExportCache := ⟨[]⟩

def size (c : ExportCache) : Nat := c.known.length

def find? (path : FilePath) (c : ExportCache) : Option Bool :=
  (c.known.find? fun entry => FilePath.same entry.1 path).map (·.2)

/-- Whether a file has a default export, and the cache afterwards. -/
def check (tree : FileTree) (path : FilePath) (c : ExportCache) : Except FileError Bool × ExportCache :=
  match c.find? path with
  | some found => (.ok found, c)
  | none =>
    match tree.readText path with
    | .error e => (.error e, c)
    | .ok source =>
      let found := EsModule.hasDefaultExport source
      (.ok found, ⟨(path, found) :: c.known⟩)

end ExportCache

end StaticSite
