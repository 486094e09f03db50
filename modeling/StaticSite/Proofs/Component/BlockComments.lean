import StaticSite.Component.Imports
import StaticSite.Proofs.Document.References
import StaticSite.Proofs.EsModule.Comments

/-!
# Comments and added imports

A comment in which nothing is read, at a place between the declarations of a block, leaves alone what is imported into
the document of the block: the same imports and diagnostics come of it, and they are put in the same places. A comment
that mentions an import is taken for one, so the component that it names is not imported.
-/
namespace StaticSite

/-- Blocks that bind the same identifiers give their documents the same references. -/
theorem References.ofDocument_block {a b : Text} (h : EsModule.boundIdentifiers a = EsModule.boundIdentifiers b)
    (before after : Document) :
    ofDocument (before ++ .declarations a :: after) = ofDocument (before ++ .declarations b :: after) := by
  have hnodes (source : Text) : Node.flattenAll (before ++ .declarations source :: after) =
      Node.flattenAll before ++ .declarations source :: Node.flattenAll after := by
    rw [Node.flattenAll_append]
    rfl
  simp only [ofDocument, hnodes, List.filterMap_append, List.flatMap_append, List.filterMap_cons, List.flatMap_cons,
    invokedBy?, boundBy, h]

namespace Injection

theorem insertStatements_block (statements : List Text) (before : Document) (source : Text) (after : Document) :
    insertStatements statements (before ++ .declarations source :: after) =
      insertStatements statements before ++ .declarations source :: after := by
  have htake : (before ++ .declarations source :: after).takeWhile isFrontMatter = before.takeWhile isFrontMatter := by
    rw [List.takeWhile_append]
    split_ifs with hlength
    · rw [(List.takeWhile_prefix _).eq_of_length hlength, List.takeWhile_cons_of_neg Bool.false_ne_true,
        List.append_nil]
    · rfl
  have hdrop : (before ++ .declarations source :: after).dropWhile isFrontMatter =
      before.dropWhile isFrontMatter ++ .declarations source :: after := by
    rw [List.dropWhile_append]
    split_ifs with hempty
    · rw [List.isEmpty_iff.mp hempty, List.dropWhile_cons_of_neg Bool.false_ne_true, List.nil_append]
    · rfl
  simp only [insertStatements, htake, hdrop, List.append_assoc]

/-- The block stays at the top. -/
theorem wrap_block (wrapper : Text) (before : Document) (source : Text) (after : Document) :
    wrap wrapper (before ++ .declarations source :: after) =
      before.filter isTopLevel ++ .declarations source ::
        (after.filter isTopLevel ++ [.element wrapper [] ((before ++ after).filter fun n => !isTopLevel n)]) := by
  have htop : isTopLevel (.declarations source) = true := rfl
  simp [wrap, htop]

/-- Blocks that bind the same identifiers can stand for one another: what comes of them differs in the block alone. -/
theorem inject_block {a b : Text} (h : EsModule.boundIdentifiers a = EsModule.boundIdentifiers b) (tree : FileTree)
    (registry : Registry) (wrapper : Option Text) (file : SourceFile) (before after : Document)
    (exports : ExportCache) :
    let injection := inject tree registry wrapper file (before ++ .declarations a :: after) exports
    ∃ before' after', injection.document = before' ++ .declarations a :: after' ∧
      inject tree registry wrapper file (before ++ .declarations b :: after) exports =
        { injection with document := before' ++ .declarations b :: after' } := by
  intro injection
  dsimp only [injection, inject]
  rw [← References.ofDocument_block h]
  cases wrapper with
  | none =>
    simp only [insertStatements_block]
    exact ⟨_, _, rfl, rfl⟩
  | some w =>
    dsimp only
    split_ifs with hwraps
    · simp only [wrap_block, insertStatements_block]
      exact ⟨_, _, rfl, rfl⟩
    · simp only [insertStatements_block]
      exact ⟨_, _, rfl, rfl⟩

open EsModule

/-- A comment in which nothing is read changes neither what a block binds nor what is imported into a document with the
block. -/
theorem comment_without_declarations {t u comment : Text} (hplace : IsPlace t u) (hcomment : IsComment u comment)
    (hnothing : DeclaresNothing u comment) :
    boundIdentifiers (t ++ (comment ++ u)) = boundIdentifiers (t ++ u) ∧
      ∀ (tree : FileTree) (registry : Registry) (wrapper : Option Text) (file : SourceFile) (before after : Document)
        (exports : ExportCache),
        let injection := inject tree registry wrapper file (before ++ .declarations (t ++ u) :: after) exports
        ∃ before' after', injection.document = before' ++ .declarations (t ++ u) :: after' ∧
          inject tree registry wrapper file (before ++ .declarations (t ++ (comment ++ u)) :: after) exports =
            { injection with document := before' ++ .declarations (t ++ (comment ++ u)) :: after' } := by
  have hbound := boundIdentifiers_comment hplace hcomment hnothing
  exact ⟨hbound, fun tree registry wrapper file before after exports =>
    inject_block hbound.symm tree registry wrapper file before after exports⟩

namespace CommentedOut

def card : FilePath := "/site/components/Card.tsx"

/-- A project in which one component is defined. -/
def registry : Registry := Registry.empty.insert "Card" card

def page : SourceFile := ⟨"/site/content/post.mdx", "/site/content/post.mdx"⟩

def before : Text := "import A from './a'\n"

def after : Text := "import B from './b'"

/-- A document that uses the component behind a block. -/
def post (block : Text) : Document := [.declarations block, .element "Card" [] []]

theorem between : IsPlace before after := by
  have hends : EndsClause '\'' := .inl rfl
  have hgap : ∀ d ∈ ['\n'], Text.isBlank d = true := List.all_eq_true.mp (by decide)
  exact isPlace_of_end hends hgap "import A from './a" after

/-- An import that is commented out binds its name all the same, and the component of this name is not imported. -/
theorem commented_import_binds :
    let comment := "// import Card from './Card'\n".toList
    let plain := inject .empty registry none page (post (before ++ after)) .empty
    let commented := inject .empty registry none page (post (before ++ (comment ++ after))) .empty
    IsPlace before after ∧ IsComment after comment ∧
      boundIdentifiers (before ++ after) = ["A".toList, "B".toList] ∧
      boundIdentifiers (before ++ (comment ++ after)) = ["A".toList, "B".toList, "Card".toList] ∧
      plain.count = 1 ∧ commented.count = 0 ∧ commented.diagnostics = [] := by
  exact ⟨between, .line " import Card from './Card'" (by decide), by decide +kernel, by decide +kernel,
    by decide +kernel, by decide +kernel, by decide +kernel⟩

/-- A comment that mentions imports and exports without declaring any. -/
theorem remark_changes_nothing :
    let comment := "/* `import 'Card'` isn't needed; don't export \x7b Card \x7d */".toList
    let plain := inject .empty registry none page (post (before ++ after)) .empty
    let commented := inject .empty registry none page (post (before ++ (comment ++ after))) .empty
    IsPlace before after ∧ IsComment after comment ∧ DeclaresNothing after comment ∧
      boundIdentifiers (before ++ (comment ++ after)) = boundIdentifiers (before ++ after) ∧
      commented.count = plain.count ∧ plain.count = 1 := by
  intro comment plain commented
  have hcomment : IsComment after comment :=
    .block " `import 'Card'` isn't needed; don't export \x7b Card \x7d " (by decide)
  have hnothing : DeclaresNothing after comment := by decide +kernel
  obtain ⟨hbound, hinject⟩ := comment_without_declarations between hcomment hnothing
  obtain ⟨before', after', -, hcommented⟩ := hinject .empty registry none page [] [.element "Card" [] []] .empty
  have hcount := congrArg Injection.count hcommented
  exact ⟨between, hcomment, hnothing, hbound, hcount, by decide +kernel⟩

end CommentedOut

end Injection

end StaticSite
