import Mathlib.Tactic.SplitIfs
import StaticSite.Document.Render

/-!
# Delimiters of a rendered document

Which angle brackets and quotes stand in the HTML of a document, and in which order, is decided by the shape of
its tree alone. What authors fill the tree with is written without any of them, so it opens and closes nothing.
-/
namespace StaticSite

/-! ## Shapes -/

/-- What remains of a text of which only matters whether there is any. -/
def Text.presence (t : Text) : Text := if t.isEmpty then [] else " "

/-- An attribute without its value. -/
def Attribute.shape (a : Attribute) : Attribute :=
  match a.value with
  | .string _ => ⟨a.name, .string []⟩
  | .expression _ => ⟨a.name, .expression []⟩
  | .flag => ⟨a.name, .flag⟩

mutual

/-- A node without the text, code, addresses and values in it. Raw markup and names belong to the shape, and so
does whether there is a title or a language. -/
def Node.shape : Node → Node
  | .text _ => .text []
  | .html t => .html t
  | .element name attributes children =>
    .element name (attributes.map Attribute.shape) (shapeNodes children)
  | .declarations _ => .declarations []
  | .frontMatter _ => .frontMatter []
  | .block tag children => .block tag (shapeNodes children)
  | .image _ _ title => .image [] [] title.presence
  | .link _ title children => .link [] title.presence (shapeNodes children)
  | .code language _ => .code language.presence []
  | .inlineCode _ => .inlineCode []
  | .softBreak => .softBreak
  | .hardBreak => .hardBreak
  | .rule => .rule

def shapeNodes : List Node → List Node
  | [] => []
  | n :: ns => n.shape :: shapeNodes ns

end

/-- The documents differ in nothing but what authors fill them with. -/
def Document.SameShape (doc doc' : Document) : Prop := shapeNodes doc = shapeNodes doc'

/-! ## Delimiters -/

namespace Text

/-- The characters that open and close tags and attribute values. -/
def isDelimiter (c : Char) : Bool := c == '<' || c == '>' || c == '"' || c == '\''

/-- The delimiters of a text, in order. -/
def delimiters (t : Text) : Text := t.filter isDelimiter

@[simp] theorem delimiters_append (t u : Text) : delimiters (t ++ u) = delimiters t ++ delimiters u :=
  List.filter_append ..

theorem delimiters_escapeChar (c : Char) : delimiters (escapeChar c) = [] := by
  unfold escapeChar
  split
  all_goals try rfl
  -- any other character stands for itself and is no delimiter
  rename_i _ hlt hgt hquote hapostrophe _
  simpa [delimiters, isDelimiter] using ⟨⟨⟨hlt, hgt⟩, hquote⟩, hapostrophe⟩

@[simp] theorem delimiters_escape (t : Text) : delimiters (escape t) = [] := by
  induction t with
  | nil => rfl
  | cons c t ih =>
    rw [escape, List.flatMap_cons, delimiters_append, delimiters_escapeChar, List.nil_append]
    exact ih

theorem not_mem_of_delimiters {t : Text} {c : Char} (ht : delimiters t = []) (hc : isDelimiter c = true) : c ∉ t := by
  intro hmem
  have hdelimiter : c ∈ delimiters t := List.mem_filter.mpr ⟨hmem, hc⟩
  rw [ht] at hdelimiter
  exact absurd hdelimiter List.not_mem_nil

@[simp] theorem isEmpty_presence (t : Text) : t.presence.isEmpty = t.isEmpty := by
  cases t <;> rfl

end Text

open Text

/-- An attribute value leaves no delimiter but the quotes around it. -/
theorem delimiters_attributeText (name value value' : Text) :
    delimiters (attributeText name value) = delimiters (attributeText name value') := by
  simp only [attributeText, delimiters_append, delimiters_escape]

theorem Attribute.delimiters_render (a : Attribute) : delimiters a.render = delimiters a.shape.render := by
  obtain ⟨name, value⟩ := a
  cases value with
  | string value => exact delimiters_attributeText name value []
  | expression source => exact delimiters_attributeText name source []
  | flag => rfl

theorem delimiters_attributes (attributes : List Attribute) :
    delimiters (attributes.flatMap Attribute.render) =
      delimiters ((attributes.map Attribute.shape).flatMap Attribute.render) := by
  induction attributes with
  | nil => rfl
  | cons a attributes ih =>
    simp only [List.map_cons, List.flatMap_cons, delimiters_append, ih, a.delimiters_render]

/-- The properties of a component are one attribute value, whatever JSON they make. -/
theorem delimiters_placeholderText (name : Text) (attributes : List Attribute) :
    delimiters (placeholderText name attributes) =
      delimiters (placeholderText name (attributes.map Attribute.shape)) := by
  cases attributes with
  | nil => rfl
  | cons a attributes =>
    simp only [placeholderText, List.map_cons, List.isEmpty_cons, Bool.false_eq_true, if_false, delimiters_append]
    rw [delimiters_attributeText "data-props"]

theorem delimiters_titleText (title : Text) : delimiters (titleText title) = delimiters (titleText title.presence) := by
  unfold titleText
  rw [isEmpty_presence]
  split_ifs
  · rfl
  · exact delimiters_attributeText ..

theorem delimiters_languageText (language : Text) :
    delimiters (languageText language) = delimiters (languageText language.presence) := by
  unfold languageText
  rw [isEmpty_presence]
  split_ifs
  · rfl
  · simp only [delimiters_append, delimiters_escape]

/-! ## Documents -/

/-! ### What each node is rendered to -/

namespace Node

variable (name tag target title : Text) (attributes : List Attribute) (children : List Node)

theorem render_component (h : isComponentName name = true) :
    (element name attributes children).render =
      "<div" ++ placeholderText name attributes ++ ">" ++ renderNodes children ++ "</div>\n" := if_pos h

theorem render_element (h : ¬isComponentName name = true) :
    (element name attributes children).render =
      '<' :: name ++ attributes.flatMap Attribute.render ++ ">" ++ renderNodes children ++ closeTag name := if_neg h

theorem render_block :
    (block tag children).render = '<' :: tag ++ ">" ++ renderNodes children ++ closeTag tag ++
      if lineTags.any fun t => t.toList == tag then ['\n'] else [] := rfl

theorem render_image (source alt : Text) :
    (image source alt title).render =
      "<img" ++ attributeText "src" source ++ attributeText "alt" alt ++ titleText title ++ " />" := rfl

theorem render_link :
    (link target title children).render =
      "<a" ++ attributeText "href" target ++ titleText title ++ ">" ++ renderNodes children ++ "</a>" := rfl

theorem render_code (language body : Text) :
    (code language body).render =
      "<pre><code" ++ languageText language ++ ">" ++ Text.escape body ++ "</code></pre>\n" := rfl

theorem render_inlineCode (t : Text) : (inlineCode t).render = "<code>" ++ Text.escape t ++ "</code>" := rfl

end Node

mutual

/-- The delimiters of a rendered node are those of its shape. -/
theorem Node.delimiters_render : ∀ n : Node, delimiters n.render = delimiters n.shape.render
  | .text t => (delimiters_escape t).trans (delimiters_escape []).symm
  | .element name attributes children => by
    have hchildren := delimiters_renderNodes children
    rw [Node.shape]
    by_cases hname : isComponentName name = true
    · rw [Node.render_component _ _ _ hname, Node.render_component _ _ _ hname]
      simp only [delimiters_append, hchildren, delimiters_placeholderText name attributes]
    · rw [Node.render_element _ _ _ hname, Node.render_element _ _ _ hname]
      simp only [delimiters_append, hchildren, delimiters_attributes attributes]
  | .block tag children => by
    have hchildren := delimiters_renderNodes children
    rw [Node.shape, Node.render_block, Node.render_block]
    simp only [delimiters_append, hchildren]
  | .image source alt title => by
    rw [Node.shape, Node.render_image, Node.render_image]
    simp only [delimiters_append, delimiters_titleText title]
    rw [delimiters_attributeText "src" source [], delimiters_attributeText "alt" alt []]
  | .link target title children => by
    have hchildren := delimiters_renderNodes children
    rw [Node.shape, Node.render_link, Node.render_link]
    simp only [delimiters_append, delimiters_titleText title, hchildren]
    rw [delimiters_attributeText "href" target []]
  | .code language body => by
    rw [Node.shape, Node.render_code, Node.render_code]
    simp only [delimiters_append, delimiters_languageText language, delimiters_escape]
  | .inlineCode t => by
    rw [Node.shape, Node.render_inlineCode, Node.render_inlineCode]
    simp only [delimiters_append, delimiters_escape]
  | .html _ | .declarations _ | .frontMatter _ | .softBreak | .hardBreak | .rule => rfl

theorem delimiters_renderNodes :
    ∀ nodes : List Node, delimiters (renderNodes nodes) = delimiters (renderNodes (shapeNodes nodes))
  | [] => rfl
  | n :: ns => by
    have happend (n : Node) (ns : List Node) : renderNodes (n :: ns) = n.render ++ renderNodes ns := rfl
    rw [shapeNodes, happend, happend, delimiters_append, delimiters_append, n.delimiters_render,
      delimiters_renderNodes ns]

end

/-- Documents of one shape have the same delimiters in the same order, so nothing that authors fill a document
with opens or closes a tag or an attribute value. -/
theorem delimiters_render_of_sameShape {doc doc' : Document} (h : Document.SameShape doc doc') :
    delimiters (Document.render doc) = delimiters (Document.render doc') := by
  calc
    delimiters (Document.render doc) = delimiters (renderNodes (shapeNodes doc)) := delimiters_renderNodes doc
    _ = delimiters (renderNodes (shapeNodes doc')) := by rw [h]
    _ = delimiters (Document.render doc') := (delimiters_renderNodes doc').symm

namespace FilledIn

/-- A page with a component, a link, an image and code, filled in with some text. -/
def page (t : Text) : Document :=
  [.block "p" [.text t, .link t t [.inlineCode t], .image t t t], .code t t,
    .element "Card" [⟨"title", .string t⟩, ⟨"count", .expression t⟩, ⟨"open", .flag⟩] [.text t],
    .element "span" [⟨"class", .expression t⟩] [.html "<b>"]]

/-- Text that is all delimiters opens as little as a word. -/
theorem delimiters_as_of_word :
    let attack : Text := "'\"></a><script>"
    Document.SameShape (page attack) (page "word") ∧
      delimiters (Document.render (page attack)) = delimiters (Document.render (page "word")) :=
  ⟨rfl, delimiters_render_of_sameShape rfl⟩

end FilledIn

end StaticSite
