import StaticSite.Document.Props
import StaticSite.Text.Escape

/-!
# Rendering to HTML

A document as an HTML fragment. A component becomes a placeholder that names it and carries its
properties; front matter and declarations leave no trace.
-/
namespace StaticSite

/-- Tags that a newline follows. -/
def lineTags : List String :=
  ["p", "h1", "h2", "h3", "h4", "h5", "h6", "blockquote", "ul", "ol", "li", "table", "thead", "tr",
   "div"]

/-- An attribute with an escaped value, after a space. -/
def attributeText (name value : Text) : Text :=
  ' ' :: name ++ "=\"" ++ Text.escape value ++ "\""

def Attribute.render (a : Attribute) : Text :=
  match a.value with
  | .string value => attributeText a.name value
  | .expression source => attributeText a.name source
  | .flag => ' ' :: a.name

/-- A title attribute, unless the title is empty. -/
def titleText (title : Text) : Text := if title.isEmpty then [] else attributeText "title" title

/-- The class of a code block that names a language. -/
def languageText (language : Text) : Text :=
  if language.isEmpty then [] else " class=\"language-" ++ Text.escape language ++ "\""

def closeTag (tag : Text) : Text := "</" ++ tag ++ ">"

/-- The attributes of a component's placeholder. -/
def placeholderText (name : Text) (attributes : List Attribute) : Text :=
  attributeText "data-component" name ++
    if attributes.isEmpty then []
    else attributeText "data-props" (componentProps attributes).print

mutual

def Node.render : Node → Text
  | .text t => Text.escape t
  | .html t => t
  | .element name attributes children =>
    if isComponentName name then
      "<div" ++ placeholderText name attributes ++ ">" ++ renderNodes children ++ "</div>\n"
    else
      '<' :: name ++ attributes.flatMap Attribute.render ++ ">" ++ renderNodes children ++ closeTag name
  | .declarations _ => []
  | .frontMatter _ => []
  | .block tag children =>
    '<' :: tag ++ ">" ++ renderNodes children ++ closeTag tag ++
      if lineTags.any fun t => t.toList == tag then ['\n'] else []
  | .image source alt title =>
    "<img" ++ attributeText "src" source ++ attributeText "alt" alt ++ titleText title ++ " />"
  | .link target title children =>
    "<a" ++ attributeText "href" target ++ titleText title ++ ">" ++ renderNodes children ++ "</a>"
  | .code language body =>
    "<pre><code" ++ languageText language ++ ">" ++ Text.escape body ++ "</code></pre>\n"
  | .inlineCode t => "<code>" ++ Text.escape t ++ "</code>"
  | .softBreak => "\n"
  | .hardBreak => "<br />\n"
  | .rule => "<hr />\n"

def renderNodes : List Node → Text
  | [] => []
  | n :: ns => n.render ++ renderNodes ns

end

/-- The HTML fragment of a document. -/
def Document.render (doc : Document) : Text := renderNodes doc

end StaticSite
