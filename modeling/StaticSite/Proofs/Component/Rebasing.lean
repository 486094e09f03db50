import StaticSite.Compile.Stage
import StaticSite.Proofs.Document.References

/-!
# Imports and rebasing in either order

Adding imports to a document and rebasing its references can change places. What a document refers to does not depend
on its targets, no target is among what is added, and the wrapper and the imports find their places by the kinds of the
nodes, which rebasing keeps.
-/
namespace StaticSite

variable {directory : Text} {base : Option Text}

theorem rebaseNodes_eq_map (directory : Text) (base : Option Text) (nodes : List Node) :
    rebaseNodes directory base nodes = nodes.map (Node.rebase directory base) := by
  induction nodes with
  | nil => rfl
  | cons node nodes ih => rw [rebaseNodes, ih, List.map_cons]

namespace Injection

theorem isTopLevel_comp_rebase (directory : Text) (base : Option Text) :
    isTopLevel ∘ Node.rebase directory base = isTopLevel := by
  funext node
  cases node <;> rfl

theorem isFrontMatter_comp_rebase (directory : Text) (base : Option Text) :
    isFrontMatter ∘ Node.rebase directory base = isFrontMatter := by
  funext node
  cases node <;> rfl

/-- The body of a document moves into the wrapper as it is. -/
theorem wrap_rebaseNodes (wrapper : Text) (doc : Document) :
    wrap wrapper (rebaseNodes directory base doc) = rebaseNodes directory base (wrap wrapper doc) := by
  have hbody : (fun node => !isTopLevel node) ∘ Node.rebase directory base = fun node => !isTopLevel node := by
    have htop := isTopLevel_comp_rebase directory base
    funext node
    exact congrArg (!·) (congrFun htop node)
  simp only [wrap, rebaseNodes_eq_map, List.map_append, List.filter_map, isTopLevel_comp_rebase, hbody, List.map_cons,
    List.map_nil, Node.rebase]

/-- Statements have no targets, and they come in behind the front matter. -/
theorem insertStatements_rebaseNodes (statements : List Text) (doc : Document) :
    insertStatements statements (rebaseNodes directory base doc) =
      rebaseNodes directory base (insertStatements statements doc) := by
  have hstatements : Node.rebase directory base ∘ Node.declarations = Node.declarations := rfl
  simp only [insertStatements, rebaseNodes_eq_map, List.map_append, List.takeWhile_map, List.dropWhile_map,
    isFrontMatter_comp_rebase, List.map_map, hstatements]

/-- Adding imports to a rebased document gives the rebased document with the imports, and the same count, diagnostics and
cache as without rebasing. -/
theorem inject_rebase (tree : FileTree) (registry : Registry) (wrapper : Option Text) (file : SourceFile)
    (contentRoot : FilePath) (base : Option Text) (doc : Document) (exports : ExportCache) :
    let rebased := Stage.rebase tree contentRoot base file
    let injection := inject tree registry wrapper file doc exports
    inject tree registry wrapper file (rebased doc) exports =
      { injection with document := rebased injection.document } := by
  intro rebased injection
  dsimp only [injection, rebased, inject, Stage.rebase]
  rw [References.ofDocument_rebaseNodes]
  cases wrapper with
  | none => simp only [insertStatements_rebaseNodes]
  | some w =>
    dsimp only
    split_ifs with hwraps
    · simp only [wrap_rebaseNodes, insertStatements_rebaseNodes]
    · simp only [insertStatements_rebaseNodes]

end Injection

end StaticSite
