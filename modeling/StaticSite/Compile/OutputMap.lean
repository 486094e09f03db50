import StaticSite.Digest
import StaticSite.FilePath
import StaticSite.Table

/-!
# From entries to compiled modules

Compiled modules are laid out like the documents that they come from, with a content hash in the file name.
Each entry is given the module whose path without the hash is the path of its document.
-/
namespace StaticSite

inductive ArtifactKind where
  /-- The module of an entry. -/
  | entry
  /-- Code that entries share. -/
  | chunk
  | asset
deriving DecidableEq

/-- A file that compilation wrote. -/
structure Artifact where
  path : FilePath
  kind : ArtifactKind
deriving DecidableEq

inductive OutputMapError where
  | missingArtifact (entry : Text)
deriving DecidableEq

def OutputMapError.message : OutputMapError → Text
  | .missingArtifact entry =>
    "no compiled output was produced for entry " ++ Text.quoted entry

namespace OutputMap

/-- The path below a root; a path that is not below it counts by its file name. -/
def relativeOrName (root path : FilePath) : FilePath :=
  (FilePath.relativeTo? root path).getD ((FilePath.fileName? path).getD [])

/-- The path below a root without its extension, in slashes. -/
def pathKey (root path : FilePath) : Text :=
  FilePath.toSlash (FilePath.dropExtension (relativeOrName root path))

/-- The text without a dash and a content hash at its end. Any run of letters and digits of at least the
length of a hash is taken for one, but something must stand in front of it. -/
def dropHash (t : Text) : Text :=
  let hash := (t.reverse.takeWhile (· != '-')).reverse
  let base := t.take (t.length - hash.length - 1)
  if hash.length < t.length && !base.isEmpty && Digest.shortLength ≤ hash.length &&
      hash.all Text.isAsciiAlphanumeric then base
  else t

/-- The entry names under the paths of their documents. Of two entries with one path the later counts. -/
def bySource (entries : Table FilePath) (contentRoot : FilePath) : List (Text × Text) :=
  entries.foldl (fun keys (name, path) => (pathKey contentRoot path, name) :: keys) []

/-- Notes the module of an entry. -/
def addArtifact (keys : List (Text × Text)) (assets : FilePath) (modules : Table FilePath)
    (a : Artifact) : Table FilePath :=
  if a.kind = .entry then
    match keys.lookup (dropHash (pathKey assets a.path)) with
    | some name => modules.insert name a.path
    | none => modules
  else modules

/-- The module of each entry; every entry must have one. -/
def ofArtifacts (entries : Table FilePath) (contentRoot assets : FilePath) (artifacts : List Artifact) :
    Except OutputMapError (Table FilePath) :=
  let modules := artifacts.foldl (addArtifact (bySource entries contentRoot) assets) []
  match entries.names.find? fun name => !modules.contains name with
  | some entry => .error (.missingArtifact entry)
  | none => .ok modules

end OutputMap

end StaticSite
