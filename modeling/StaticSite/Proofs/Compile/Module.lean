import StaticSite.Compile.Module
import StaticSite.Proofs.Json.Strings
import StaticSite.Proofs.Text.Bytes
import StaticSite.Proofs.Text.Parts

/-!
# Reading a module

The page is read from the module of a document just as it was written: whatever stands in the HTML, the export of it is
one line, the first of the module, and ends in the only semicolon that is taken away.
-/
namespace StaticSite

namespace Module

/-- The line of a module that holds the HTML. -/
def htmlLine (html : Text) : Text := htmlExport ++ (Json.quote html ++ [';'])

theorem ofDocument_eq (doc : Document) : ∃ rest, ofDocument doc = htmlLine doc.render ++ '\n' :: rest := by
  refine ⟨"export const frontmatter = ".toList ++ (doc.frontMatterJson.print ++ (";\nexport const imports = ".toList ++
    ((Json.array (doc.declarations.map .string)).print ++ ";\n".toList))), ?_⟩
  simp only [ofDocument, htmlLine, List.append_assoc]
  rfl

theorem htmlLine_ends (html : Text) : htmlLine html = htmlExport ++ Json.quote html ++ [';'] := by
  rw [htmlLine, List.append_assoc]

theorem not_mem_htmlLine (html : Text) : '\n' ∉ htmlLine html := by
  simp only [htmlLine, List.mem_append, not_or]
  exact ⟨by decide, Json.not_mem_quote html, by decide⟩

/-- One semicolon is taken off a quoted text, and nothing else. -/
theorem dropEnd_quote (html : Text) :
    Text.dropEndWhile (· == ';') (Text.trimEnd (Json.quote html ++ [';'])) = Json.quote html := by
  have hquote : Json.quote html = '"' :: html.flatMap Json.escapeChar ++ ['"'] := rfl
  rw [Text.trimEnd, Text.dropEndWhile_concat_of_neg (by decide), Text.dropEndWhile_concat_of_pos (by decide), hquote,
    Text.dropEndWhile_concat_of_neg (by decide)]

theorem htmlLiteral?_ofDocument (doc : Document) : htmlLiteral? (ofDocument doc) = some (Json.quote doc.render) := by
  obtain ⟨rest, hsource⟩ := ofDocument_eq doc
  have hreturn : Text.before? ['\r'] (htmlLine doc.render) = none := by
    rw [htmlLine_ends]
    exact Text.before?_of_getLast? (by simp)
  have hafter : Text.after? htmlExport (htmlLine doc.render) = some (Json.quote doc.render ++ [';']) :=
    Text.after?_append ..
  rw [htmlLiteral?, hsource, Text.lines_append_cons (not_mem_htmlLine _), hreturn, Option.getD_none,
    List.findSome?_cons, hafter]
  exact congrArg some (dropEnd_quote _)

/-- The page that is read from a file with the module of a document is the document as it is rendered. -/
theorem html_of_module {tree : FileTree} {path : FilePath} {doc : Document}
    (h : tree.readBytes path = .ok (Text.bytes (ofDocument doc))) : html tree path = .ok doc.render := by
  have hread : tree.readText path = .ok (ofDocument doc) := by
    rw [FileTree.readText, h]
    simp only [bind, Except.bind, Text.ofBytes?_bytes]
  rw [html, hread]
  simp only [htmlLiteral?_ofDocument, Json.parse?_quote]

namespace Deceptive

/-- A page with front matter and a declaration, whose markup looks like an export and holds what must be escaped. -/
def page : Document :=
  [.frontMatter "title: A", .declarations "export const html = \"no\";", .html "\nexport const html = \"no\";\r\n\\ \x01;"]

/-- A tree with the module of the page. -/
def tree : FileTree := ⟨[(["page.js".toList], .file (Text.bytes (ofDocument page)))]⟩

/-- The page comes back with its line ends, quotes, backslashes and semicolons. -/
theorem page_as_rendered :
    tree.readBytes "/page.js" = .ok (Text.bytes (ofDocument page)) ∧
      html tree "/page.js" = .ok "\nexport const html = \"no\";\r\n\\ \x01;".toList := by
  have hfile : tree.readBytes "/page.js" = .ok (Text.bytes (ofDocument page)) := rfl
  exact ⟨hfile, html_of_module hfile⟩

end Deceptive

end Module

end StaticSite
