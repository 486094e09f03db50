import StaticSite.Text

/-!
# Places in a YAML text

A cursor is what is left of a text, together with the line and the column it starts at. Indentation is
measured in columns, and the length of a key in characters.
-/
namespace StaticSite.Yaml

structure Cursor where
  rest : Text
  /-- The number of characters before this place. -/
  offset : Nat
  line : Nat
  column : Nat

/-- Characters that may occur in a YAML text. -/
def isAllowed (c : Char) : Bool :=
  let n := c.val.toNat
  n == 0x09 || n == 0x0A || n == 0x0D || (0x20 ≤ n && n ≤ 0x7E) || n == 0x85 ||
    (0xA0 ≤ n && n ≤ 0xFFFD) || 0x10000 ≤ n

def isBreak (c : Char) : Bool :=
  c == '\n' || c == '\r' || c == '\u0085' || c == '\u2028' || c == '\u2029'

def isSpace (c : Char) : Bool := c == ' ' || c == '\t'

/-- Characters of names of anchors, handles and directives. -/
def isNameChar (c : Char) : Bool := Text.isAsciiAlphanumeric c || c == '_' || c == '-'

/-- Whether a text starts with a space, a line break or its end. -/
def atGap : Text → Bool
  | [] => true
  | c :: _ => isSpace c || isBreak c

/-- Whether a text starts with a line break or its end. -/
def atLineEnd : Text → Bool
  | [] => true
  | c :: _ => isBreak c

namespace Cursor

def start (t : Text) : Cursor := ⟨t, 0, 0, 0⟩

/-- Goes over a number of characters of one line. -/
def skip (n : Nat) (c : Cursor) : Cursor :=
  ⟨c.rest.drop n, c.offset + n, c.line, c.column + n⟩

/-- Goes over the characters of a class. -/
def skipWhile (p : Char → Bool) (c : Cursor) : Cursor := c.skip (c.rest.takeWhile p).length

/-- Goes over a number of characters that end a line. -/
def endLine (n : Nat) (c : Cursor) : Cursor := ⟨c.rest.drop n, c.offset + n, c.line + 1, 0⟩

/-- Goes over a line break, and gives the text that stands for it. -/
def takeBreak (c : Cursor) : Text × Cursor :=
  match c.rest with
  | '\r' :: '\n' :: _ => (['\n'], c.endLine 2)
  | ch :: _ =>
    if ch == '\u2028' || ch == '\u2029' then ([ch], c.endLine 1)
    else if isBreak ch then (['\n'], c.endLine 1)
    else ([], c)
  | [] => ([], c)

def skipBreak (c : Cursor) : Cursor := c.takeBreak.2

/-- Goes over spaces and a comment to the end of the line; nothing else may stand there. -/
def skipLineRest? (c : Cursor) : Option Cursor :=
  let c := c.skipWhile isSpace
  let c := if c.rest.head? == some '#' then c.skipWhile fun ch => !isBreak ch else c
  if atLineEnd c.rest then some c.skipBreak else none

/-- Whether a line starts here with a mark of three characters that stands alone. -/
def atMark (mark : Text) (c : Cursor) : Bool :=
  c.column == 0 && (Text.after? mark c.rest).any atGap

def atDocumentStart (c : Cursor) : Bool := c.atMark "---"

def atDocumentEnd (c : Cursor) : Bool := c.atMark "..."

end Cursor

end StaticSite.Yaml
