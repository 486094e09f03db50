import StaticSite.Document.Builder
import StaticSite.Document.Fences
import StaticSite.Document.Segment

/-!
# Reading a document

From the source of a content document to its tree.
-/
namespace StaticSite.Document

/-- The nodes of a piece of Markdown with component tags. -/
def ofMarkdown (source : Text) : List Node :=
  Builder.build (Markdown.events (Markup.encodeDots source))

def ofSegment : Segment → List Node
  | .declarations source => [.declarations source]
  | .markdown source => ofMarkdown source

/-- Reads a document. Each piece of Markdown between declarations is read on its own. -/
def parse (source : Text) : Document :=
  let cut := Fences.cut source
  cut.frontMatter.toList.map .frontMatter ++ (Segment.ofBody cut.body).flatMap ofSegment

end StaticSite.Document
