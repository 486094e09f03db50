import StaticSite.Component.Imports
import StaticSite.Document.MetadataStore
import StaticSite.Document.Rebase

/-!
# The transform stage

What happens to every document before it is rendered: its metadata is recorded, missing imports are added,
and references are rebased. The stage carries what the documents of a build share.
-/
namespace StaticSite

structure StageSettings where
  contentRoot : FilePath
  /-- The base path under which the site is served. -/
  base : Option Text
  /-- The component that wraps every page, if it is registered. -/
  pageWrapper : Option Text

structure Stage where
  settings : StageSettings
  /-- The diagnostics so far, in the order in which they came. -/
  diagnostics : List Diagnostic
  exports : ExportCache
  metadata : MetadataStore

namespace Stage

def ofSettings (settings : StageSettings) : Stage := ⟨settings, [], .empty, .empty⟩

/-- Forgets everything about earlier builds. -/
def reset (s : Stage) : Stage := .ofSettings s.settings

/-- Takes the diagnostics out, in the order of reports. -/
def drain (s : Stage) : List Diagnostic × Stage :=
  (Diagnostic.sort s.diagnostics, { s with diagnostics := [] })

/-- The document with its references rebased for the place of its page. -/
def rebase (tree : FileTree) (contentRoot : FilePath) (base : Option Text) (file : SourceFile)
    (doc : Document) : Document :=
  rebaseNodes (file.contentDirectory tree contentRoot) base doc

/-- Transforms a document. -/
def transform (tree : FileTree) (registry : Registry) (file : SourceFile) (doc : Document) (s : Stage) :
    Document × Stage :=
  let metadata := s.metadata.insert file.realPath doc.metadata
  let injection := Injection.inject tree registry s.settings.pageWrapper file doc s.exports
  let doc := rebase tree s.settings.contentRoot s.settings.base file injection.document
  (doc, { s with
    diagnostics := s.diagnostics ++ injection.diagnostics, exports := injection.exports, metadata })

end Stage

end StaticSite
