import StaticSite.Document.Parser
import StaticSite.Document.SourceFile
import StaticSite.FileTree.Walk
import StaticSite.Table
import StaticSite.Url

/-!
# The content directory

The documents of a content directory: their entries, and their trees.
-/
namespace StaticSite

inductive SourceError where
  | pathNotFound (path : FilePath)
  | notADirectory (path : FilePath)
  | unreadable (path : FilePath) (cause : FileError)
deriving DecidableEq

namespace SourceError

def message : SourceError → Text
  | pathNotFound path => "content path does not exist: " ++ path
  | notADirectory path => "content path is not a directory: " ++ path
  | unreadable path cause => "failed to read " ++ path ++ ": " ++ cause.message

end SourceError

namespace Source

/-- Extensions of content documents. -/
def extensions : List String := ["md", "mdx", "markdown"]

def isDocument (path : FilePath) : Bool :=
  (FilePath.extension? path).any fun e => extensions.any fun x => x.toList == Text.lower e

/-- Directories that hold no content. -/
def foreignDirectories : List String := ["node_modules", "__pycache__", "target"]

/-- Whether a file or directory of the content is passed over. -/
def isPassedOver (name : Text) (directory : Bool) : Bool :=
  name.head? == some '.' || (directory && foreignDirectories.any fun d => d.toList == name)

/-- The documents of a content directory under their entry names. -/
def entries (tree : FileTree) (directory : FilePath) : Except SourceError (Table FilePath) :=
  if !tree.pathExists directory then .error (.pathNotFound directory)
  else if !tree.isDirectory directory then .error (.notADirectory directory)
  else
    let documents := (tree.files isPassedOver directory).filter isDocument
    .ok (.ofEntries (documents.filterMap fun path =>
      (FilePath.relativeTo? directory path).map fun relative => (entryName relative, path)))

/-- Reads a document. -/
def load (tree : FileTree) (path : FilePath) : Except SourceError (Document × SourceFile) :=
  match tree.readText path with
  | .ok content => .ok (Document.parse content, .ofPath tree path)
  | .error e => .error (.unreadable path e)

end Source

end StaticSite
