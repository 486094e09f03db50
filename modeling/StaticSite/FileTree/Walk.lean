import StaticSite.FileTree.Basic

/-!
# Walking a file tree

The files below a directory, each directory read in ascending order of names. Links are not followed.
-/
namespace StaticSite.FileTree

/-- The files below a place, under the path by which it was reached. What is to be passed over is passed
over with all that is in it. -/
def filesFrom (t : FileTree) (passOver : Text → Bool → Bool) : Nat → RealPath → FilePath → List FilePath
  | 0, _, _ => []
  | fuel + 1, p, path =>
    (t.children p).flatMap fun (name, item) =>
      match item with
      | .file _ => if passOver name false then [] else [FilePath.join path name]
      | .directory =>
        if passOver name true then []
        else filesFrom t passOver fuel (p ++ [name]) (FilePath.join path name)
      | .link _ => []

/-- The files below the directory that a path names. -/
def files (t : FileTree) (passOver : Text → Bool → Bool) (path : FilePath) : List FilePath :=
  match t.find? true path with
  | .ok (p, .directory) => t.filesFrom passOver (t.items.length + 1) p path
  | _ => []

/-- All files below the directory that a path names. -/
def allFiles (t : FileTree) (path : FilePath) : List FilePath := t.files (fun _ _ => false) path

end StaticSite.FileTree
