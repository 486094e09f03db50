import StaticSite.Markdown.Cursor

/-!
# Tags and autolinks

Recognisers for raw HTML and for links between angle brackets. Each is given the text after the opening
bracket and answers with what follows the closing one.
-/
namespace StaticSite.Markdown

/-- White space, line ends included. -/
def skipWhite (t : Text) : Text := t.dropWhile fun c => isSpace c || c == '\n' || c == '\r'

def isTagNameChar (c : Char) : Bool := Text.isAsciiAlphanumeric c || c == '-'

def isAttributeStart (c : Char) : Bool := Text.isAsciiLetter c || c == '_' || c == ':'

def isAttributeChar (c : Char) : Bool :=
  Text.isAsciiAlphanumeric c || c == '_' || c == '.' || c == ':' || c == '-'

/-- The characters of an attribute value that stands without quotes. -/
def isBareValueChar (c : Char) : Bool :=
  !(c == '\'' || c == '"' || c == ' ' || c == '=' || c == '>' || c == '<' || c == '\x60' || c == '\n' ||
    c == '\r')

/-- The text after the next occurrence of a character. -/
def afterChar? (c : Char) (t : Text) : Option Text :=
  match t.dropWhile (· != c) with
  | [] => none
  | _ :: rest => some rest

def afterPart? (part t : Text) : Option Text := (Text.cut? part t).map Prod.snd

/-- Reads an attribute value. -/
def attributeValue? : Text → Option Text
  | [] => none
  | '"' :: rest => afterChar? '"' rest
  | '\'' :: rest => afterChar? '\'' rest
  | c :: rest => if isBareValueChar c then some (rest.dropWhile isBareValueChar) else none

/-- Reads an attribute; white space after an attribute without a value is left to the next one. -/
def attribute? : Text → Option Text
  | [] => none
  | c :: rest =>
    if isAttributeStart c then
      let rest := rest.dropWhile isAttributeChar
      match skipWhite rest with
      | '=' :: value => attributeValue? (skipWhite value)
      | _ => some rest
    else none

/-- Reads the attributes of an open tag up to the slash or bracket that ends them. White space must
stand before each attribute. -/
def attributes? : Nat → Text → Option Text
  | 0, _ => none
  | fuel + 1, t =>
    match skipWhite t with
    | [] => none
    | '/' :: rest => some ('/' :: rest)
    | '>' :: rest => some ('>' :: rest)
    | c :: rest =>
      if (c :: rest).length == t.length then none
      else do attributes? fuel (← attribute? (c :: rest))

/-- Reads a closing tag or an open tag. -/
def tag? : Text → Option Text
  | '/' :: c :: t =>
    if Text.isAsciiLetter c then
      match (t.dropWhile isTagNameChar).dropWhile isSpace with
      | '>' :: rest => some rest
      | _ => none
    else none
  | c :: t =>
    if Text.isAsciiLetter c then
      match attributes? (t.length + 1) (t.dropWhile isTagNameChar) with
      | some ('/' :: '>' :: rest) => some rest
      | some ('>' :: rest) => some rest
      | _ => none
    else none
  | [] => none

/-- Reads a CDATA section after its opening: up to the first run of closing square brackets, which a
closing angle bracket must follow. -/
def cdataRest? (t : Text) : Option Text :=
  match t.dropWhile (· != ']') with
  | [] => none
  | t =>
    match t.dropWhile (· == ']') with
    | '>' :: rest => some rest
    | _ => none

/-- Reads a comment, a processing instruction, a declaration, a CDATA section or a tag. -/
def markup? : Text → Option Text
  | '!' :: '-' :: '-' :: t => afterPart? "-->" ('-' :: '-' :: t)
  | '!' :: '[' :: t => do cdataRest? (← Text.after? "CDATA[" t)
  | '!' :: c :: t => if Text.isAsciiLetter c then afterChar? '>' t else none
  | '?' :: t => afterPart? "?>" t
  | t => tag? t

/-- Reads an absolute URL and the bracket after it. -/
def urlAutolink? (t : Text) : Option (Text × Text) :=
  let scheme := t.takeWhile fun c => Text.isAsciiAlphanumeric c || c == '.' || c == '-' || c == '+'
  match scheme, t.drop scheme.length with
  | first :: _, ':' :: rest =>
    if Text.isAsciiLetter first && 2 ≤ scheme.length && scheme.length ≤ 32 then
      let path := rest.takeWhile fun c => !(c.val ≤ 0x20 || c == '<' || c == '>')
      match rest.drop path.length with
      | '>' :: rest => some (scheme ++ ':' :: path, rest)
      | _ => none
    else none
  | _, _ => none

def isMailboxChar (c : Char) : Bool :=
  Text.isAsciiAlphanumeric c || ".!#$%&'*+/=?^_\x60\x7b|\x7d~-".toList.contains c

/-- Whether a text can be one label of a domain name. -/
def isDomainLabel (label : Text) : Bool :=
  !label.isEmpty && label.length ≤ 63 && label.all isTagNameChar && label.head? != some '-' &&
    label.getLast? != some '-'

/-- Reads an e-mail address and the bracket after it. -/
def mailAutolink? (t : Text) : Option (Text × Text) :=
  let name := t.takeWhile isMailboxChar
  match t.drop name.length with
  | '@' :: rest =>
    let domain := rest.takeWhile fun c => isTagNameChar c || c == '.'
    match rest.drop domain.length with
    | '>' :: rest =>
      if !name.isEmpty && (Text.splitOn '.' domain).all isDomainLabel then
        some (name ++ '@' :: domain, rest)
      else none
    | _ => none
  | _ => none

/-- Reads a link between angle brackets, whose target is also its text, and what follows it. -/
def autolink? (t : Text) : Option (Text × Text) := (urlAutolink? t).or (mailAutolink? t)

end StaticSite.Markdown
