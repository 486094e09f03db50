import StaticSite.Document.Node
import StaticSite.Text.Word

/-!
# Component markup

Tags of components inside raw markup, their attributes, and the marker that stands for the dots of a
dotted component name while the text is read as Markdown, whose tag names hold no dots.
-/
namespace StaticSite.Markup

/-! ## Dotted names -/

/-- What a dot of a component name is written as before Markdown is read. -/
def dotMarker : Text := "-x2e-"

/-- Puts the dots back. -/
def decodeDots (t : Text) : Text := Text.replace dotMarker "." t

/-- Encodes the dots between the parts of a name, of which each must be non-empty. -/
def encodeParts : Nat → Text → Text × Text
  | 0, t => ([], t)
  | fuel + 1, '.' :: t =>
    let part := t.takeWhile Text.isAsciiAlphanumeric
    if part.isEmpty then ([], '.' :: t)
    else
      let (more, rest) := encodeParts fuel (t.drop part.length)
      (dotMarker ++ part ++ more, rest)
  | _ + 1, t => ([], t)

/-- Encodes the dots of the component name after an opening bracket. -/
def encodeName (t : Text) : Text :=
  let (slash, t) := match t with
    | '/' :: t => (['/'], t)
    | t => ([], t)
  match t with
  | [] => slash
  | c :: rest =>
    if Text.isAsciiUpper c then
      let name := rest.takeWhile Text.isAsciiAlphanumeric
      let (parts, rest) := encodeParts rest.length (rest.drop name.length)
      slash ++ c :: name ++ parts ++ rest
    else slash ++ c :: rest

/-- Encodes the dots of all component names that follow an opening bracket. -/
def encodeDots (t : Text) : Text :=
  match Text.splitOn '<' t with
  | [] => []
  | first :: rest => Text.join "<" (first :: rest.map encodeName)

/-! ## Attributes -/

def isNameStart (c : Char) : Bool := Text.isAsciiLetter c || c == '_' || c == ':' || c == '$'

def isNameChar (c : Char) : Bool :=
  Text.isWord c || c == ':' || c == '.' || c == '$' || c == '-'

/-- A character of a value without quotes. -/
def isBareChar (c : Char) : Bool :=
  !(Text.isBlank c || c == '"' || c == '\'' || c == '=' || c == '<' || c == '>' || c == '\x60')

/-- The text before and after the next occurrence of a character. -/
def upTo? (c : Char) (t : Text) : Option (Text × Text) :=
  let inside := t.takeWhile (· != c)
  match t.drop inside.length with
  | [] => none
  | _ :: rest => some (inside, rest)

def bareValue? (t : Text) : Option (AttributeValue × Text) :=
  let value := t.takeWhile isBareChar
  if value.isEmpty then none else some (.string value, t.drop value.length)

/-- Reads an attribute value. A brace without its counterpart starts a value without quotes. -/
def attributeValue? : Text → Option (AttributeValue × Text)
  | '"' :: t => (upTo? '"' t).map fun (value, rest) => (.string value, rest)
  | '\'' :: t => (upTo? '\'' t).map fun (value, rest) => (.string value, rest)
  | '\x7b' :: t =>
    match upTo? '\x7d' t with
    | some (value, rest) => some (.expression (Text.trim value), rest)
    | none => bareValue? ('\x7b' :: t)
  | t => bareValue? t

/-- Reads the value after an attribute name; without one the attribute is a flag. -/
def valueAfterName (t : Text) : AttributeValue × Text :=
  match Text.trimStart t with
  | '=' :: value =>
    match attributeValue? (Text.trimStart value) with
    | some found => found
    | none => (.flag, t)
  | _ => (.flag, t)

/-- Reads attributes; whatever cannot start a name is passed over. -/
def attributesFrom : Nat → Text → List Attribute
  | 0, _ => []
  | _ + 1, [] => []
  | fuel + 1, c :: t =>
    if isNameStart c then
      let name := c :: t.takeWhile isNameChar
      let (value, rest) := valueAfterName (t.dropWhile isNameChar)
      ⟨name, value⟩ :: attributesFrom fuel rest
    else attributesFrom fuel t

/-- The attributes written in the inside of a tag. -/
def attributes (t : Text) : List Attribute := attributesFrom t.length t

/-! ## Tags -/

structure Tag where
  closing : Bool
  selfClosing : Bool
  name : Text
  attributes : Text

def isTagNameChar (c : Char) : Bool := Text.isWord c || c == '.' || c == '$' || c == '-'

/-- Reads the tag after an opening bracket, when it is the tag of a component, and what follows it. No
other opening bracket may come first. -/
def componentTag? (t : Text) : Option (Tag × Text) :=
  let (closing, t) := match t with
    | '/' :: t => (true, t)
    | t => (false, t)
  match t with
  | [] => none
  | c :: _ =>
    if Text.isAsciiLetter c then
      let name := t.takeWhile isTagNameChar
      match upTo? '>' (t.drop name.length) with
      | none => none
      | some (inside, rest) =>
        let decoded := decodeDots name
        if inside.contains '<' || !isComponentName decoded then none
        else match Text.before? ['/'] inside with
          | some inside => some (⟨closing, true, decoded, inside⟩, rest)
          | none => some (⟨closing, false, decoded, inside⟩, rest)
    else none

/-- A chunk of markup is raw text and component tags in turn. -/
inductive Piece where
  | raw (t : Text)
  /-- A component tag, and the text of the whole tag. -/
  | tag (t : Tag) (whole : Text)

/-- Cuts a chunk, given as its parts between opening brackets, into pieces. The first argument is the raw
text since the last tag. -/
def piecesFrom : Text → List Text → List Piece
  | raw, [] => [.raw raw]
  | raw, part :: parts =>
    match componentTag? part with
    | some (tag, rest) =>
      .raw raw :: .tag tag ('<' :: part.take (part.length - rest.length)) :: piecesFrom rest parts
    | none => piecesFrom (raw ++ '<' :: part) parts

def pieces (t : Text) : List Piece :=
  match Text.splitOn '<' t with
  | [] => []
  | first :: parts => piecesFrom first parts

end StaticSite.Markup
