import StaticSite.Text

/-!
# Documents

The tree of a content document: text, markup, component elements, import/export blocks and front matter.
-/
namespace StaticSite

inductive AttributeValue where
  /-- A value between quotes, or without quotes. -/
  | string (value : Text)
  /-- A value between braces, stored without them. -/
  | expression (source : Text)
  /-- A name that stands alone. -/
  | flag
deriving DecidableEq

structure Attribute where
  name : Text
  value : AttributeValue
deriving DecidableEq

inductive Node where
  | text (t : Text)
  /-- Raw markup, passed through as it is. -/
  | html (t : Text)
  | element (name : Text) (attributes : List Attribute) (children : List Node)
  /-- A block of import and export declarations. -/
  | declarations (source : Text)
  /-- The front matter block without its fences. -/
  | frontMatter (yaml : Text)
  /-- A container that is rendered as the given tag. -/
  | block (tag : Text) (children : List Node)
  | image (source alt title : Text)
  | link (target title : Text) (children : List Node)
  | code (language body : Text)
  | inlineCode (t : Text)
  | softBreak
  | hardBreak
  | rule
deriving Inhabited

/-- A parsed document: its top-level nodes. -/
abbrev Document := List Node

/-- Components are the elements whose name starts with an ASCII capital. -/
def isComponentName (name : Text) : Bool := name.head?.any Text.isAsciiUpper

/-- The identifier that a component invocation refers to: its name up to the first dot. -/
def rootName (name : Text) : Text := name.takeWhile (· != '.')

namespace Node

def children : Node → List Node
  | element _ _ children => children
  | block _ children => children
  | link _ _ children => children
  | _ => []

mutual

/-- The node and everything below it, each node before its children. -/
def flatten : Node → List Node
  | element name attributes children => element name attributes children :: flattenAll children
  | block tag children => block tag children :: flattenAll children
  | link target title children => link target title children :: flattenAll children
  | node => [node]

def flattenAll : List Node → List Node
  | [] => []
  | n :: ns => n.flatten ++ flattenAll ns

end

/-- The text and inline code below some nodes, in order. -/
def plainText (nodes : List Node) : Text :=
  (flattenAll nodes).flatMap fun
    | .text t => t
    | .inlineCode t => t
    | _ => []

end Node

/-- The first attribute with a name. -/
def findAttribute? (name : Text) (attributes : List Attribute) : Option Attribute :=
  attributes.find? fun a => a.name == name

end StaticSite
