import StaticSite.Document.Node
import StaticSite.EsModule.Bindings

/-!
# References of a document

The components that a document invokes, and the identifiers that its declarations bind.
-/
namespace StaticSite

/-- Two sets of names, each in ascending order. -/
structure References where
  invoked : List Text
  bound : List Text

namespace References

/-- The component that a node invokes. -/
def invokedBy? : Node → Option Text
  | .element name _ _ => if isComponentName name then some (rootName name) else none
  | _ => none

def boundBy : Node → List Text
  | .declarations source => EsModule.boundIdentifiers source
  | _ => []

def ofDocument (doc : Document) : References :=
  let nodes := Node.flattenAll doc
  ⟨EsModule.sortNames (nodes.filterMap invokedBy?), EsModule.sortNames (nodes.flatMap boundBy)⟩

/-- The components that are invoked but not bound. -/
def missing (r : References) : List Text := r.invoked.filter fun name => !r.bound.contains name

end References

end StaticSite
