import StaticSite.Document.FrontMatter
import StaticSite.Document.Render
import StaticSite.FileTree.Basic

/-!
# Modules of entries

The module that a document is compiled to, with its HTML, its front matter and its declarations as exports,
and the reader that finds the HTML in it again.
-/
namespace StaticSite

inductive ModuleError where
  | unreadable (path : FilePath) (cause : FileError)
  | noHtml (path : FilePath)
  /-- The export is not the JSON text of a string. -/
  | invalidHtml (path : FilePath)
deriving DecidableEq

namespace Module

def htmlExport : Text := "export const html = "

/-- The module of a document. -/
def ofDocument (doc : Document) : Text :=
  htmlExport ++ (Json.string doc.render).print ++ ";\nexport const frontmatter = " ++
    doc.frontMatterJson.print ++ ";\nexport const imports = " ++
    (Json.array (doc.declarations.map .string)).print ++ ";\n"

/-- The text of the HTML export on the first line that has one. -/
def htmlLiteral? (source : Text) : Option Text :=
  ((Text.lines source).findSome? (Text.after? htmlExport)).map fun literal =>
    Text.dropEndWhile (· == ';') (Text.trimEnd literal)

/-- The HTML of the page whose module a path names. -/
def html (tree : FileTree) (path : FilePath) : Except ModuleError Text :=
  match tree.readText path with
  | .error e => .error (.unreadable path e)
  | .ok source =>
    match htmlLiteral? source with
    | none => .error (.noHtml path)
    | some literal =>
      match Json.parse? literal with
      | some (.string t) => .ok t
      | _ => .error (.invalidHtml path)

end Module

end StaticSite
