import StaticSite.EsModule.Identifier

/-!
# Default exports

Whether the source of a module declares a default export. Comments and the contents of string literals
are left out of account.
-/
namespace StaticSite.EsModule

/-- Module source as code, string literals and comments in turn. -/
inductive SourcePiece where
  | code (c : Char)
  | string (quote : Char) (content : Text)
  | comment (t : Text)

/-- Reads a string literal after its opening quote: its content, and what follows the closing quote. Only
a template may hold a newline that no backslash escapes. -/
def stringRest? (quote : Char) : Text → Option (Text × Text)
  | [] => none
  | '\\' :: c :: rest =>
    (stringRest? quote rest).map fun (content, rest) => ('\\' :: c :: content, rest)
  | c :: rest =>
    if c == quote then some ([], rest)
    else if c == '\\' || (c == '\n' && quote != '\x60') then none
    else (stringRest? quote rest).map fun (content, rest) => (c :: content, rest)

def isQuote (c : Char) : Bool := c == '"' || c == '\'' || c == '\x60'

/-- Reads a string literal or a comment. A quote without its counterpart and the opening of a block
comment without an end are code. -/
def literal? : Text → Option (SourcePiece × Text)
  | '/' :: '*' :: rest => (Text.cut? "*/" rest).map fun (t, rest) => (.comment t, rest)
  | '/' :: '/' :: rest =>
    let t := rest.takeWhile (· != '\n')
    some (.comment t, rest.drop t.length)
  | c :: rest =>
    if isQuote c then
      (stringRest? c rest).map fun (content, rest) => (.string c content, rest)
    else none
  | [] => none

def sourcePiecesFrom : Nat → Text → List SourcePiece
  | 0, _ => []
  | _ + 1, [] => []
  | fuel + 1, c :: rest =>
    match literal? (c :: rest) with
    | some (piece, rest) => piece :: sourcePiecesFrom fuel rest
    | none => .code c :: sourcePiecesFrom fuel rest

def sourcePieces (source : Text) : List SourcePiece := sourcePiecesFrom source.length source

/-- A comment reads as a space, and a string as an empty one. -/
def SourcePiece.blanked : SourcePiece → Text
  | .code c => [c]
  | .string quote _ => [quote, quote]
  | .comment _ => [' ']

/-- Whether `as default` occurs in a text, both as whole words. -/
def renamesToDefault (t : Text) : Bool :=
  (wordStarts none t).any fun start =>
    ((afterWord? "as" start).bind (afterWholeWord? "default")).isSome

/-- Whether a text that follows `export` and white space exports a clause with `default` in it: an item
renamed to it, or `default` alone passed on from another module. -/
def clauseExportsDefault (t : Text) : Bool :=
  match t with
  | '\x7b' :: rest =>
    let inside := rest.takeWhile (· != '\x7d')
    match rest.drop inside.length with
    | [] => false
    | _ :: after =>
      renamesToDefault inside ||
        (Text.trim inside = "default".toList &&
          (afterWholeWord? "from" (Text.trimStart after)).isSome)
  | _ => false

/-- Whether a text starts with a declaration that exports a default. -/
def startsDefaultExport (t : Text) : Bool :=
  match Text.after? "export" t with
  | none => false
  | some rest =>
    ((afterBlanks? rest).bind (afterWholeWord? "default")).isSome ||
      clauseExportsDefault (Text.trimStart rest)

/-- Whether code without comments and string contents declares a default export. -/
def declaresDefault (code : Text) : Bool := (wordStarts none code).any startsDefaultExport

/-- Whether the source of a module declares a default export. -/
def hasDefaultExport (source : Text) : Bool :=
  declaresDefault ((sourcePieces source).flatMap SourcePiece.blanked)

end StaticSite.EsModule
