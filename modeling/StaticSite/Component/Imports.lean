import StaticSite.Component.Diagnostic
import StaticSite.Component.ExportCache
import StaticSite.Component.Registry
import StaticSite.Document.References
import StaticSite.Document.SourceFile
import StaticSite.EsModule.ImportStatement

/-!
# Component imports

Adds to a document the imports of the registered components that it invokes without binding them, and
wraps its body in the page wrapper.
-/
namespace StaticSite

/-- What comes of a component that a document invokes without binding it. -/
inductive ImportOutcome where
  /-- Not registered: the component is left alone. -/
  | unknown
  | imported (statement : Text)
  | reported (d : Diagnostic)

/-- The result of adding imports to a document. -/
structure Injection where
  document : Document
  /-- How many imports were added. -/
  count : Nat
  diagnostics : List Diagnostic
  exports : ExportCache

namespace Injection

/-- The import of a component from the file that defines it. A file that cannot be read is taken to have
no default export. -/
def importOf (tree : FileTree) (file : SourceFile) (name : Text) (path : FilePath)
    (exports : ExportCache) : EsModule.Import × ExportCache :=
  let (found, exports) := exports.check tree path
  let kind : EsModule.ImportKind := if found.toOption.getD false then .default else .named
  (⟨name, kind, FilePath.specifier file.directory path⟩, exports)

/-- What comes of one component. -/
def outcome (tree : FileTree) (registry : Registry) (file : SourceFile) (name : Text)
    (exports : ExportCache) : ImportOutcome × ExportCache :=
  if !registry.contains name then (.unknown, exports)
  else if registry.isConflict name then
    (.reported (.ambiguous file.path name (registry.files name)), exports)
  else match registry.resolve? name with
    | none => (.unknown, exports)
    | some path =>
      let (i, exports) := importOf tree file name path exports
      match EsModule.Import.parse i.statement with
      | .ok _ => (.imported i.statement, exports)
      | .error e => (.reported (.malformed file.path name i.statement e.message), exports)

/-- What comes of some components, one after the other. -/
def outcomes (tree : FileTree) (registry : Registry) (file : SourceFile) :
    List Text → ExportCache → List ImportOutcome × ExportCache
  | [], exports => ([], exports)
  | name :: names, exports =>
    let (o, exports) := outcome tree registry file name exports
    let (os, exports) := outcomes tree registry file names exports
    (o :: os, exports)

def isFrontMatter : Node → Bool
  | .frontMatter _ => true
  | _ => false

def isTopLevel : Node → Bool
  | .frontMatter _ => true
  | .declarations _ => true
  | _ => false

/-- The document with its body inside an element. Front matter and declarations stay at the top. -/
def wrap (wrapper : Text) (doc : Document) : Document :=
  doc.filter isTopLevel ++ [.element wrapper [] (doc.filter fun n => !isTopLevel n)]

/-- The document with statements after the front matter at its start. -/
def insertStatements (statements : List Text) (doc : Document) : Document :=
  doc.takeWhile isFrontMatter ++ statements.map .declarations ++ doc.dropWhile isFrontMatter

/-- Whether a document needs a wrapper: it is registered, and the document does not know it. -/
def wraps (registry : Registry) (references : References) (wrapper : Text) : Bool :=
  registry.contains wrapper && !references.invoked.contains wrapper &&
    !references.bound.contains wrapper

/-- Wraps a document and adds the imports that it lacks. -/
def inject (tree : FileTree) (registry : Registry) (wrapper : Option Text) (file : SourceFile)
    (doc : Document) (exports : ExportCache) : Injection :=
  let references := References.ofDocument doc
  let (doc, references) := match wrapper with
    | some w =>
      if wraps registry references w then
        (wrap w doc, { references with invoked := EsModule.insertName w references.invoked })
      else (doc, references)
    | none => (doc, references)
  let (outcomes, exports) := outcomes tree registry file references.missing exports
  let statements := outcomes.filterMap fun
    | .imported statement => some statement
    | _ => none
  let diagnostics := outcomes.filterMap fun
    | .reported d => some d
    | _ => none
  ⟨insertStatements statements doc, statements.length, diagnostics, exports⟩

end Injection

end StaticSite
