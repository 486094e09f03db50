import StaticSite.FilePath

/-!
# Diagnostics

Problems with component references, which are collected while documents are compiled and reported together.
-/
namespace StaticSite

inductive Diagnostic where
  /-- A component without an import is defined by several files. -/
  | ambiguous (document : FilePath) (component : Text) (candidates : List FilePath)
  /-- The import that a component needs cannot be written. -/
  | malformed (document : FilePath) (component statement reason : Text)
deriving DecidableEq

namespace Diagnostic

def document : Diagnostic → FilePath
  | ambiguous document _ _ => document
  | malformed document _ _ _ => document

def message : Diagnostic → Text
  | ambiguous document component candidates =>
    document ++ ": component " ++ Text.quoted component ++ " is ambiguous (" ++
      Text.ofNat candidates.length ++ " candidates: " ++ Text.join ", " candidates ++
      "); add an explicit import"
  | malformed document component statement reason =>
    document ++ ": generated import for " ++ Text.quoted component ++ " is malformed (" ++ reason ++
      "): " ++ statement

/-- The comparison that an order gives. -/
def comparison (before : α → α → Bool) (a b : α) : Ordering :=
  if before a b then .lt else if before b a then .gt else .eq

def comparePaths : List FilePath → List FilePath → Ordering
  | [], [] => .eq
  | [], _ :: _ => .lt
  | _ :: _, [] => .gt
  | p :: ps, q :: qs => (comparison FilePath.before p q).then (comparePaths ps qs)

/-- Ambiguous components come first, then documents and components in ascending order. -/
def order : Diagnostic → Diagnostic → Ordering
  | ambiguous d c ps, ambiguous e k qs =>
    ((comparison FilePath.before d e).then (comparison Text.before c k)).then (comparePaths ps qs)
  | malformed d c s r, malformed e k t q =>
    (((comparison FilePath.before d e).then (comparison Text.before c k)).then
      (comparison Text.before s t)).then (comparison Text.before r q)
  | ambiguous _ _ _, malformed _ _ _ _ => .lt
  | malformed _ _ _ _, ambiguous _ _ _ => .gt

def insertSorted (d : Diagnostic) : List Diagnostic → List Diagnostic
  | [] => [d]
  | e :: es => if order e d = .lt then e :: insertSorted d es else d :: e :: es

/-- Diagnostics in the order in which they are reported. -/
def sort (ds : List Diagnostic) : List Diagnostic := ds.foldr insertSorted []

end Diagnostic

end StaticSite
