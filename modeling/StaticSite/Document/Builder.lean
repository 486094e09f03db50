import StaticSite.Document.Markup
import StaticSite.Markdown.Event

/-!
# Building the tree

Turns Markdown events into nodes. Containers and component elements that are open form a stack of
frames. Leaving a container also closes the elements left open inside it; a closing tag closes its
element only if no container was entered since. So tags never close a container, whatever their order.
-/
namespace StaticSite

open Markdown (Event Container)

inductive FrameKind where
  | block (tag : Text)
  | link (target title : Text)
  | image (source title : Text)
  | element (name : Text) (attributes : List Attribute)
  | code (language : Text)

/-- An open container or element with its children so far. A code block collects text instead. -/
structure Frame where
  kind : FrameKind
  children : List Node
  text : Text

namespace Frame

def ofKind (kind : FrameKind) : Frame := ⟨kind, [], []⟩

def isElement (f : Frame) : Bool :=
  match f.kind with
  | .element _ _ => true
  | _ => false

def node (f : Frame) : Node :=
  match f.kind with
  | .block tag => .block tag f.children
  | .link target title => .link target title f.children
  | .image source title => .image source (Node.plainText f.children) title
  | .element name attributes => .element name attributes f.children
  | .code language => .code language f.text

end Frame

/-- A tree under construction: the open frames, innermost first, over the finished top-level nodes. -/
structure Builder where
  frames : List Frame
  root : List Node

namespace Builder

def start : Builder := ⟨[], []⟩

/-- Adds a node to the innermost frame. -/
def push (n : Node) (b : Builder) : Builder :=
  match b.frames with
  | [] => { b with root := b.root ++ [n] }
  | f :: fs => { b with frames := { f with children := f.children ++ [n] } :: fs }

def open' (kind : FrameKind) (b : Builder) : Builder :=
  { b with frames := .ofKind kind :: b.frames }

/-- Some nodes with text added at their end; text joins the text before it. -/
def appendText (t : Text) (nodes : List Node) : List Node :=
  match nodes.getLast? with
  | some (.text before) => nodes.dropLast ++ [.text (before ++ t)]
  | _ => nodes ++ [.text t]

def pushText (t : Text) (b : Builder) : Builder :=
  match b.frames with
  | [] => { b with root := appendText t b.root }
  | f :: fs =>
    match f.kind with
    | .code _ => { b with frames := { f with text := f.text ++ t } :: fs }
    | _ => { b with frames := { f with children := appendText t f.children } :: fs }

/-- Adds text as it is, to the nodes of the innermost frame. -/
def pushProse (t : Text) (b : Builder) : Builder :=
  match b.frames with
  | [] => { b with root := appendText t b.root }
  | f :: fs => { b with frames := { f with children := appendText t f.children } :: fs }

/-- Adds raw markup, unless it is blank. -/
def pushHtml (t : Text) (b : Builder) : Builder :=
  if Text.allBlank t then b else b.push (.html (Markup.decodeDots t))

/-- Closes the innermost frame. -/
def pop (b : Builder) : Builder :=
  match b.frames with
  | [] => b
  | f :: fs => push f.node ⟨fs, b.root⟩

/-- Closes a number of frames. -/
def popMany : Nat → Builder → Builder
  | 0, b => b
  | n + 1, b => popMany n b.pop

/-- How many elements stand above the innermost container. -/
def openElements (b : Builder) : Nat := (b.frames.takeWhile Frame.isElement).length

/-- Leaves the innermost container and, before it, the elements open inside it. -/
def closeContainer (b : Builder) : Builder := popMany (b.openElements + 1) b

/-- How many frames end with the innermost open element of a name, when only elements are above it. -/
def depthOf? (name : Text) : List Frame → Option Nat
  | [] => none
  | f :: fs =>
    match f.kind with
    | .element n _ => if n = name then some 1 else (depthOf? name fs).map (· + 1)
    | _ => none

/-- Closes the element that a closing tag names; a tag without a counterpart stays as raw markup. -/
def closeElement (name whole : Text) (b : Builder) : Builder :=
  match depthOf? name b.frames with
  | some depth => popMany depth b
  | none => b.pushHtml whole

def markupPiece (b : Builder) : Markup.Piece → Builder
  | .raw t => b.pushHtml t
  | .tag tag whole =>
    if tag.closing then b.closeElement tag.name whole
    else if tag.selfClosing then b.push (.element tag.name (Markup.attributes tag.attributes) [])
    else b.open' (.element tag.name (Markup.attributes tag.attributes))

/-- Takes in a chunk of raw markup with the component tags in it. -/
def markup (t : Text) (b : Builder) : Builder := (Markup.pieces t).foldl markupPiece b

/-- The frame that a Markdown container opens; a block of HTML opens none. -/
def frameKind? : Container → Option FrameKind
  | .paragraph => some (.block "p")
  | .heading level => some (.block ('h' :: Text.ofNat level))
  | .quote => some (.block "blockquote")
  | .code info => some (.code info)
  | .html => none
  | .list ordered => some (.block (if ordered then "ol" else "ul"))
  | .item => some (.block "li")
  | .emphasis => some (.block "em")
  | .strong => some (.block "strong")
  | .strikethrough => some (.block "del")
  | .table => some (.block "table")
  | .tableHead => some (.block "thead")
  | .tableRow => some (.block "tr")
  | .tableCell => some (.block "td")
  | .link target => some (.link target.url target.title)
  | .image target => some (.image target.url target.title)
  | .extension => some (.block "div")

/-- The markup of a task marker. -/
def taskMarkup (checked : Bool) : Text :=
  "<input type=\"checkbox\" disabled" ++ (if checked then " checked".toList else []) ++ " />"

def event (b : Builder) : Event → Builder
  | .enter c =>
    match frameKind? c with
    | some kind => b.open' kind
    | none => b
  | .leave c => if (frameKind? c).isSome then b.closeContainer else b
  | .text t => b.pushText (Markup.decodeDots t)
  | .code t => b.push (.inlineCode (Markup.decodeDots t))
  | .html t => b.markup t
  | .inlineHtml t => b.markup t
  | .softBreak => b.push .softBreak
  | .hardBreak => b.push .hardBreak
  | .rule => b.push .rule
  | .task checked => b.push (.html (taskMarkup checked))
  | .footnote label => b.pushProse ("[^" ++ label ++ "]")
  | .math source => b.pushProse source

/-- Closes everything that is still open. -/
def finish (b : Builder) : List Node := (popMany b.frames.length b).root

/-- The nodes that a sequence of events builds. -/
def build (events : List Event) : List Node := (events.foldl event start).finish

end Builder

end StaticSite
