import StaticSite.Markdown.Block
import StaticSite.Markdown.Inline

/-!
# Events

A Markdown text as the sequence of what a reader meets: containers that are entered and left, and the
leaves between. The tree builder works on this sequence alone.
-/
namespace StaticSite.Markdown

inductive Container where
  | paragraph
  | heading (level : Nat)
  | quote
  | code (info : Text)
  | html
  | list (ordered : Bool)
  | item
  | emphasis
  | strong
  | strikethrough
  | table
  | tableHead
  | tableRow
  | tableCell
  | link (target : Target)
  | image (target : Target)
  /-- A container of an extension that is switched off, such as a footnote or a list of definitions. -/
  | extension

inductive Event where
  | enter (c : Container)
  | leave (c : Container)
  | text (t : Text)
  | code (t : Text)
  /-- A line of a block of raw HTML. -/
  | html (t : Text)
  | inlineHtml (t : Text)
  | softBreak
  | hardBreak
  | rule
  | task (checked : Bool)
  /-- A reference to a footnote; footnotes are switched off. -/
  | footnote (label : Text)
  /-- A formula; formulas are switched off. -/
  | math (source : Text)

/-- Some events inside a container. -/
def within (c : Container) (events : List Event) : List Event :=
  .enter c :: events ++ [.leave c]

mutual

def Inline.events : Inline → List Event
  | .text t => [.text t]
  | .code t => [.code t]
  | .html t => [.inlineHtml t]
  | .softBreak => [.softBreak]
  | .hardBreak => [.hardBreak]
  | .emphasis children => within .emphasis (inlineEvents children)
  | .strong children => within .strong (inlineEvents children)
  | .strikethrough children => within .strikethrough (inlineEvents children)
  | .link target children => within (.link target) (inlineEvents children)
  | .image target children => within (.image target) (inlineEvents children)

def inlineEvents : List Inline → List Event
  | [] => []
  | i :: is => i.events ++ inlineEvents is

end

def taskEvents (task : Option Bool) : List Event := task.toList.map .task

def sourceEvents (links : Definitions) (task : Option Bool) (source : Text) : List Event :=
  taskEvents task ++ inlineEvents (inlines links source)

def rowEvents (links : Definitions) (row : Container) (cells : List Text) : List Event :=
  within row (cells.flatMap fun cell => within .tableCell (sourceEvents links none cell))

mutual

/-- The events of a block. The paragraphs of a tight item stand in it without a container of their own. -/
def Block.events (links : Definitions) (tight : Bool) : Block → List Event
  | .paragraph task source =>
    let inner := sourceEvents links task source
    if tight then inner else within .paragraph inner
  | .heading level task source => within (.heading level) (sourceEvents links task source)
  | .quote children => within .quote (blockEvents links false children)
  | .list ordered tight items => within (.list ordered) (blockEvents links tight items)
  | .item children => within .item (blockEvents links tight children)
  | .task checked => [.task checked]
  | .code info body => within (.code info) (if body.isEmpty then [] else [.text body])
  | .html lines =>
    within .html (lines.flatMap fun (indent, line) =>
      (if indent.isEmpty then [] else [.text indent]) ++ [.html line])
  | .table head rows =>
    within .table (rowEvents links .tableHead head ++ rows.flatMap (rowEvents links .tableRow))
  | .rule => [.rule]

def blockEvents (links : Definitions) (tight : Bool) : List Block → List Event
  | [] => []
  | b :: bs => b.events links tight ++ blockEvents links tight bs

end

/-- The events of a Markdown text. -/
def events (t : Text) : List Event :=
  let (found, links) := blocks t
  blockEvents links false found

end StaticSite.Markdown
