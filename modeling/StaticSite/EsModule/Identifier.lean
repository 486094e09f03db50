import StaticSite.Text.Word

/-!
# Identifiers and keywords

Small readers for module source, and the words that cannot name an import.
-/
namespace StaticSite.EsModule

def isIdentifierStart (c : Char) : Bool := Text.isAsciiLetter c || c == '_' || c == '$'

def isIdentifierChar (c : Char) : Bool := Text.isAsciiAlphanumeric c || c == '_' || c == '$'

/-- Whether a text is an identifier of ASCII characters. -/
def isIdentifier (t : Text) : Bool := t.head?.any isIdentifierStart && t.all isIdentifierChar

/-- Words of the language that are no names. -/
def reservedWords : List String :=
  ["break", "case", "catch", "class", "const", "continue", "debugger", "default", "delete", "do",
   "else", "enum", "export", "extends", "false", "finally", "for", "function", "if", "import", "in",
   "instanceof", "new", "null", "return", "super", "switch", "this", "throw", "true", "try", "typeof",
   "var", "void", "while", "with", "yield", "let", "static", "await"]

def isReserved (t : Text) : Bool := reservedWords.any fun word => word.toList == t

/-- What follows white space, of which there must be some. -/
def afterBlanks? (t : Text) : Option Text :=
  if t.head?.any Text.isBlank then some (Text.trimStart t) else none

/-- What follows a word and the white space after it. -/
def afterWord? (word t : Text) : Option Text := (Text.after? word t).bind afterBlanks?

/-- What follows a word that may end where it does. -/
def afterWholeWord? (word t : Text) : Option Text := do
  let rest ← Text.after? word t
  if rest.head?.any Text.isWord then none else some rest

/-- The suffixes of a text at which a word may start, in order. -/
def wordStarts : Option Char → Text → List Text
  | _, [] => []
  | previous, c :: rest =>
    if previous.any Text.isWord then wordStarts (some c) rest
    else (c :: rest) :: wordStarts (some c) rest

end StaticSite.EsModule
