import StaticSite.FileTree.Basic

/-!
# Source files

The file that a document comes from, and where its directory lies in the content.
-/
namespace StaticSite

structure SourceFile where
  path : FilePath
  /-- The path with links resolved, or the path itself when that fails. -/
  realPath : FilePath

namespace SourceFile

def ofPath (tree : FileTree) (path : FilePath) : SourceFile := ⟨path, tree.canonical path⟩

def directory (file : SourceFile) : FilePath := (FilePath.parent? file.path).getD []

/-- The directory of the document below the content root. A document that was reached by a link is placed
by its resolved path, and one outside the content at the root. -/
def contentDirectory (tree : FileTree) (file : SourceFile) (contentRoot : FilePath) : Text :=
  match FilePath.relativeTo? contentRoot file.directory with
  | some relative => FilePath.toSlash relative
  | none =>
    let relative := do
      FilePath.relativeTo? (← tree.canonical? contentRoot) (← FilePath.parent? file.realPath)
    FilePath.toSlash (relative.getD [])

end SourceFile

end StaticSite
