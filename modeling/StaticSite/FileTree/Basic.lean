import StaticSite.FilePath
import StaticSite.FileTree.Error
import StaticSite.Text.Bytes

/-!
# File trees

A file tree holds files, directories and symbolic links, each at the names that lead to it from the root.
Paths are resolved link by link. Operations that change a tree give the changed tree, or an error and then
no change.
-/
namespace StaticSite

/-- The names that lead from the root to a place, without links on the way. -/
abbrev RealPath := List Text

namespace RealPath

def toPath (p : RealPath) : FilePath := '/' :: Text.join "/" p

end RealPath

inductive FileTree.Item where
  | file (content : List UInt8)
  | directory
  /-- A symbolic link. A relative target starts at the directory of the link. -/
  | link (target : FilePath)
deriving DecidableEq

structure FileTree where
  items : List (RealPath × FileTree.Item)

namespace FileTree

/-- The tree of a root directory alone. -/
def empty : FileTree := ⟨[]⟩

/-- What stands at a place. The root is always a directory. -/
def get? (p : RealPath) (t : FileTree) : Option Item :=
  if p.isEmpty then some .directory else t.items.lookup p

def set (p : RealPath) (item : Item) (t : FileTree) : FileTree :=
  ⟨(p, item) :: t.items.filter (·.1 != p)⟩

/-- The tree without what stands at a place. -/
def erase (p : RealPath) (t : FileTree) : FileTree := ⟨t.items.filter (·.1 != p)⟩

/-- The tree without all that stands below a place. -/
def clear (p : RealPath) (t : FileTree) : FileTree :=
  ⟨t.items.filter fun (q, _) => !(p.isPrefixOf q && p.length < q.length)⟩

/-! ## Resolving paths -/

/-- How far a path leads without following a link. -/
inductive Walk where
  | arrived (p : RealPath)
  /-- A link in a directory, and the rest of the way. -/
  | link (directory : RealPath) (target : FilePath) (rest : List FilePath.Part)

/-- Goes along a path from a place. Only from a directory does a way lead on. A link at the end is followed
only on request. -/
def walk (t : FileTree) (follow : Bool) : RealPath → List FilePath.Part → Except FileError Walk
  | p, [] => .ok (.arrived p)
  | _, .root :: rest => walk t follow [] rest
  | p, part :: rest =>
    match t.get? p with
    | none => .error .notFound
    | some .directory =>
      match part with
      | .name n =>
        match t.get? (p ++ [n]) with
        | some (.link target) =>
          if rest.isEmpty && !follow then .ok (.arrived (p ++ [n])) else .ok (.link p target rest)
        | _ => walk t follow (p ++ [n]) rest
      | .up => walk t follow p.dropLast rest
      | _ => walk t follow p rest
    | some _ => .error .notDirectory

/-- Goes along a path and follows a limited number of links. -/
def resolveFrom (t : FileTree) (follow : Bool) :
    Nat → RealPath → List FilePath.Part → Except FileError RealPath
  | 0, _, _ => .error .linkLoop
  | links + 1, p, parts =>
    match t.walk follow p parts with
    | .error e => .error e
    | .ok (.arrived q) => .ok q
    | .ok (.link directory target rest) =>
      resolveFrom t follow links directory (FilePath.parts target ++ rest)

/-- The place that a path names, where there need not be anything yet. -/
def resolve (t : FileTree) (follow : Bool) (path : FilePath) : Except FileError RealPath :=
  if path.isEmpty then .error .notFound else t.resolveFrom follow 41 [] (FilePath.parts path)

/-- What a path names. A path that ends in a slash names a directory. -/
def find? (t : FileTree) (follow : Bool) (path : FilePath) : Except FileError (RealPath × Item) := do
  let p ← t.resolve (follow || path.getLast? == some '/') path
  match t.get? p with
  | none => .error .notFound
  | some (.file content) =>
    if path.getLast? == some '/' then .error .notDirectory else .ok (p, .file content)
  | some item => .ok (p, item)

def pathExists (t : FileTree) (path : FilePath) : Bool := (t.find? true path).toOption.isSome

def isDirectory (t : FileTree) (path : FilePath) : Bool :=
  match t.find? true path with
  | .ok (_, .directory) => true
  | _ => false

def isFile (t : FileTree) (path : FilePath) : Bool :=
  match t.find? true path with
  | .ok (_, .file _) => true
  | _ => false

/-- The path of what a path names, without links and dots. -/
def canonical? (t : FileTree) (path : FilePath) : Option FilePath :=
  (t.find? true path).toOption.map fun (p, _) => p.toPath

/-- The canonical path, or the path itself when it names nothing. -/
def canonical (t : FileTree) (path : FilePath) : FilePath := (t.canonical? path).getD path

/-! ## Reading -/

def readBytes (t : FileTree) (path : FilePath) : Except FileError (List UInt8) := do
  match ← t.find? true path with
  | (_, .file content) => .ok content
  | _ => .error .isDirectory

def readText (t : FileTree) (path : FilePath) : Except FileError Text := do
  match Text.ofBytes? (← t.readBytes path) with
  | some text => .ok text
  | none => .error .notText

/-- Adds an entry at its place among entries in ascending order of names. -/
def insertChild (child : Text × Item) : List (Text × Item) → List (Text × Item)
  | [] => [child]
  | c :: cs => if Text.before child.1 c.1 then child :: c :: cs else c :: insertChild child cs

/-- What stands in a directory, in ascending order of names. -/
def children (p : RealPath) (t : FileTree) : List (Text × Item) :=
  (t.items.filterMap fun (q, item) =>
    match q.getLast? with
    | some n => if q.dropLast = p then some (n, item) else none
    | none => none).foldr insertChild []

/-! ## Writing -/

/-- Gives a file its content; a file that is missing is made. -/
def write (t : FileTree) (path : FilePath) (content : List UInt8) : Except FileError FileTree := do
  let p ← t.resolve true path
  match t.get? p with
  | some .directory => .error .isDirectory
  | _ => .ok (t.set p (.file content))

def writeText (t : FileTree) (path : FilePath) (text : Text) : Except FileError FileTree :=
  t.write path (Text.bytes text)

/-- Makes a directory where nothing stands. -/
def createDirectory (t : FileTree) (path : FilePath) : Except FileError FileTree := do
  let p ← t.resolve false path
  match t.get? p with
  | some _ => .error .alreadyExists
  | none => .ok (t.set p .directory)

/-- Makes a directory, unless it is there. -/
def ensureDirectory (t : FileTree) (path : FilePath) : Except FileError FileTree :=
  match t.createDirectory path with
  | .ok t => .ok t
  | .error e => if t.isDirectory path then .ok t else .error e

/-- Makes a directory and those that lead to it. -/
def createDirectoriesFrom : Nat → FileTree → FilePath → Except FileError FileTree
  | 0, t, _ => .ok t
  | fuel + 1, t, path =>
    if path.isEmpty then .ok t
    else match t.createDirectory path, FilePath.parent? path with
      | .ok t, _ => .ok t
      | .error e, parent =>
        if e = .notFound then
          match parent with
          | none => .error e
          | some parent => do (← createDirectoriesFrom fuel t parent).ensureDirectory path
        else if t.isDirectory path then .ok t
        else .error e

def createDirectories (t : FileTree) (path : FilePath) : Except FileError FileTree :=
  createDirectoriesFrom (path.length + 1) t path

/-- Copies a file. A file that is copied onto itself loses its content. -/
def copy (t : FileTree) (source target : FilePath) : Except FileError FileTree := do
  let (p, _) ← t.find? true source
  let content ← t.readBytes source
  let q ← t.resolve true target
  t.write target (if p = q then [] else content)

/-! ## Removing -/

/-- Removes a directory that has been emptied. A path whose last part is a dot, or that names a link to the
directory, cannot name what is removed. -/
def removeEmptied (t : FileTree) (path : FilePath) : Except FileError FileTree :=
  match t.resolve false path with
  | .error e => if e = .notFound then .ok t else .error e
  | .ok p =>
    match t.get? p, ((Text.splitOn '/' path).filter fun part => !part.isEmpty).getLast? with
    | none, _ => .ok t
    | some _, some ['.'] => .error .invalid
    | some _, some ['.', '.'] => .error .notEmpty
    | some (.link _), _ => .error .notDirectory
    | some _, _ => .ok (t.erase p)

/-- Removes a directory with all that is in it, or a link: the tree that is left, and how it went. -/
def removeAll (t : FileTree) (path : FilePath) : FileTree × Except FileError Unit :=
  match t.find? false path with
  | .error e => (t, .error e)
  | .ok (p, .link _) => (t.erase p, .ok ())
  | .ok (_, .file _) => (t, .error .notDirectory)
  | .ok (p, .directory) =>
    let cleared := t.clear p
    match cleared.removeEmptied path with
    | .ok t => (t, .ok ())
    | .error e => (cleared, .error e)

end FileTree

end StaticSite
