import StaticSite.Document.Node
import StaticSite.Url

/-!
# Rebasing references

Images, links, and the `src` and `href` attributes of elements and of raw markup are rewritten for the
place at which the page of a document is served.
-/
namespace StaticSite

namespace Reference

/-- Raw markup as characters and quoted `src` and `href` attributes in turn. -/
inductive Piece where
  | char (c : Char)
  | attribute (name spacing : Text) (quote : Char) (value : Text)

def Piece.text : Piece → Text
  | .char c => [c]
  | .attribute name spacing quote value => name ++ spacing ++ quote :: value ++ [quote]

/-- Reads a quoted value after an attribute's name: the equals sign with the blanks around it, the quote
and the value. -/
def quotedValue? (t : Text) : Option (Text × Char × Text × Text) :=
  let before := t.takeWhile Text.isBlank
  match t.drop before.length with
  | '=' :: t =>
    let after := t.takeWhile Text.isBlank
    match t.drop after.length with
    | quote :: t =>
      if quote == '"' || quote == '\'' then
        let value := t.takeWhile (· != quote)
        match t.drop value.length with
        | _ :: rest => some (before ++ '=' :: after, quote, value, rest)
        | [] => none
      else none
    | [] => none
  | _ => none

/-- Reads a `src` or `href` attribute with a quoted value. -/
def attribute? (t : Text) : Option (Piece × Text) :=
  let named (name : Text) : Option (Piece × Text) := do
    let (spacing, quote, value, rest) ← quotedValue? (← Text.after? name t)
    some (.attribute name spacing quote value, rest)
  (named "src").or (named "href")

/-- Cuts markup into pieces. An attribute is recognised where `fresh` holds: at the start, and after a
blank. -/
def scanFrom : Nat → Bool → Text → List Piece
  | 0, _, _ => []
  | _ + 1, _, [] => []
  | fuel + 1, fresh, c :: rest =>
    match if fresh then attribute? (c :: rest) else none with
    | some (piece, rest) => piece :: scanFrom fuel false rest
    | none => .char c :: scanFrom fuel (Text.isBlank c) rest

def scan (t : Text) : List Piece := scanFrom t.length true t

def Piece.rebase (directory : Text) (base : Option Text) : Piece → Piece
  | .char c => .char c
  | .attribute name spacing quote value =>
    .attribute name spacing quote
      (if name = "src".toList then Url.rebaseImage value directory base else Url.rebaseLink value base)

/-- Rewrites the quoted `src` and `href` attributes of raw markup. -/
def rebaseMarkup (t directory : Text) (base : Option Text) : Text :=
  (scan t).flatMap fun piece => (piece.rebase directory base).text

end Reference

/-- Rewrites a `src` or `href` attribute whose value is a string. -/
def Attribute.rebase (directory : Text) (base : Option Text) (a : Attribute) : Attribute :=
  match a.value with
  | .string value =>
    if a.name = "src".toList then { a with value := .string (Url.rebaseImage value directory base) }
    else if a.name = "href".toList then { a with value := .string (Url.rebaseLink value base) }
    else a
  | _ => a

mutual

def Node.rebase (directory : Text) (base : Option Text) : Node → Node
  | .image source alt title => .image (Url.rebaseImage source directory base) alt title
  | .link target title children =>
    .link (Url.rebaseLink target base) title (rebaseNodes directory base children)
  | .element name attributes children =>
    .element name (attributes.map (Attribute.rebase directory base)) (rebaseNodes directory base children)
  | .block tag children => .block tag (rebaseNodes directory base children)
  | .html t => .html (Reference.rebaseMarkup t directory base)
  | node => node

def rebaseNodes (directory : Text) (base : Option Text) : List Node → List Node
  | [] => []
  | n :: ns => n.rebase directory base :: rebaseNodes directory base ns

end

end StaticSite
