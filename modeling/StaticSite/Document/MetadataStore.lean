import StaticSite.Document.FrontMatter
import StaticSite.FileTree.Basic

/-!
# The metadata of compiled pages

The front matter of each compiled document, under the resolved path of its file. A page is found by every
path that leads to its file.
-/
namespace StaticSite

structure MetadataStore where
  pages : List (FilePath × FrontMatter)

namespace MetadataStore

def empty : MetadataStore := ⟨[]⟩

def size (s : MetadataStore) : Nat := s.pages.length

/-- Gives a resolved path a record, instead of the one that it has. -/
def insert (realPath : FilePath) (metadata : FrontMatter) (s : MetadataStore) : MetadataStore :=
  ⟨(realPath, metadata) :: s.pages.filter fun entry => !FilePath.same entry.1 realPath⟩

/-- The record of the page that a path leads to. -/
def get? (tree : FileTree) (path : FilePath) (s : MetadataStore) : Option FrontMatter :=
  (s.pages.find? fun entry => FilePath.same entry.1 (tree.canonical path)).map (·.2)

end MetadataStore

end StaticSite
