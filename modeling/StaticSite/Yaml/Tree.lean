import StaticSite.Yaml.Node

/-!
# YAML trees

The tree of a document with every alias replaced by the node it stands for. Collections may be nested to a
depth of 128, and aliases may be followed at most a hundred times as often as the document has parts; so an
alias inside its own node has no tree.
-/
namespace StaticSite.Yaml

inductive Tree where
  | scalar (tag : Option Text) (plain : Bool) (t : Text)
  | sequence (tag : Option Text) (items : List Tree)
  | mapping (tag : Option Text) (pairs : List (Tree × Tree))

namespace Node

mutual

/-- The number of parts that a node is written with: one for a scalar or an alias, and the start and the
end of a collection. -/
def parts : Node → Nat
  | scalar _ _ _ => 1
  | reference _ => 1
  | sequence _ items => 2 + partsOfItems items
  | mapping _ pairs => 2 + partsOfPairs pairs

def partsOfItems : List Node → Nat
  | [] => 0
  | n :: ns => n.parts + partsOfItems ns

def partsOfPairs : List (Node × Node) → Nat
  | [] => 0
  | (k, v) :: ps => k.parts + v.parts + partsOfPairs ps

end

end Node

namespace Source

/-- The node under an anchor: the last one that has the number. -/
def find? (anchor : Nat) (s : Source) : Option Node :=
  let found := (s.anchored.filter (·.anchor == anchor)).foldl (fun best a =>
    match best with
    | none => some a
    | some b => if b.order < a.order then some a else some b) none
  found.map (·.node)

/-- The node that a node stands for; following an alias is counted. -/
def target? (s : Source) (node : Node) (followed : Nat) : Option (Node × Nat) :=
  match node with
  | .reference anchor =>
    if 100 * s.root.parts < followed + 1 then none
    else (s.find? anchor).map fun n => (n, followed + 1)
  | node => some (node, followed)

/-- The tree of a node, given the depth that is left and how often aliases have been followed. -/
def tree? (s : Source) : Nat → Node → StateT Nat Option Tree
  | depth, node => fun followed =>
    match s.target? node followed, depth with
    | some (.scalar tag plain t, followed), _ => some (.scalar tag plain t, followed)
    | some (.sequence tag items, followed), depth + 1 => do
      let (items, followed) ← items.mapM (tree? s depth) followed
      some (.sequence tag items, followed)
    | some (.mapping tag pairs, followed), depth + 1 => do
      let pair (p : Node × Node) : StateT Nat Option (Tree × Tree) := do
        let key ← tree? s depth p.1
        let value ← tree? s depth p.2
        pure (key, value)
      let (pairs, followed) ← pairs.mapM pair followed
      some (.mapping tag pairs, followed)
    | _, _ => none

end Source

/-- Reads the tree of a text: none without a document, and nothing at all when the text breaks a rule. -/
def Tree.read? (t : Text) : Option (Option Tree) := do
  match ← Source.read? t with
  | none => some none
  | some s => (s.tree? 128 s.root 0).map fun (tree, _) => some tree

end StaticSite.Yaml
