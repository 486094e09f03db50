import StaticSite.EsModule.Identifier

/-!
# Bound identifiers

The names that the import and export declarations of a block bind. The block is scanned for the shapes of
declarations; it is not parsed as a program.
-/
namespace StaticSite.EsModule

/-- Whether the rest of an import declaration follows a clause: white space, `from`, and a quote. -/
def specifierFollows? (t : Text) : Option Text := do
  let t ← afterBlanks? t
  let t ← Text.after? "from" t
  match Text.trimStart t with
  | '"' :: rest => some rest
  | '\'' :: rest => some rest
  | _ => none

/-- The shortest clause that a specifier follows, and what follows the specifier's quote. A clause holds
no quote and no semicolon. -/
def clause? : Text → Option (Text × Text)
  | [] => none
  | c :: rest =>
    if c == '\'' || c == '"' || c == ';' then none
    else match specifierFollows? rest with
      | some next => some ([c], next)
      | none => (clause? rest).map fun (clause, next) => (c :: clause, next)

/-- Reads an import declaration up to the quote of its specifier: its clause, and what follows. -/
def importClause? (t : Text) : Option (Text × Text) := do clause? (← afterWord? "import" t)

/-- The text without a leading `type` keyword. -/
def dropTypeKeyword (t : Text) : Text := Text.trim ((Text.after? "type " t).getD t)

/-- The name bound by a part of a clause outside braces: a default or a namespace binding. -/
def headName? (part : Text) : Option Text :=
  match Text.trim part with
  | [] => none
  | '*' :: rest => (Text.after? "as" (Text.trim rest)).map Text.trim
  | name => some name

/-- The local name of an item between braces. -/
def itemName? (item : Text) : Option Text :=
  match dropTypeKeyword (Text.trim item) with
  | [] => none
  | item =>
    match Text.cut? " as " item with
    | some (_, bound) => some (Text.trim bound)
    | none => some item

/-- The parts of a clause before its braces and between them. -/
def cutBraces (clause : Text) : Text × Text :=
  let head := clause.takeWhile (· != '\x7b')
  (head, (clause.drop (head.length + 1)).takeWhile (· != '\x7d'))

/-- The local names that an import clause binds. -/
def clauseNames (clause : Text) : List Text :=
  let (head, named) := cutBraces (dropTypeKeyword (Text.trim clause))
  ((Text.splitOn ',' head).filterMap headName? ++ (Text.splitOn ',' named).filterMap itemName?).filter
    isIdentifier

/-- What follows an optional word with the white space after it. -/
def skipWord (word t : Text) : Text := (afterWord? word t).getD t

/-- What follows one of the keywords that declare a name. -/
def afterDeclarator? (t : Text) : Option Text :=
  (afterWord? "const" t).or <| (afterWord? "let" t).or <| (afterWord? "var" t).or <|
    (afterWord? "function*" t).or <| (afterWord? "function" t).or (afterWord? "class" t)

/-- Reads an exported declaration up to its name: the name, and what follows. -/
def exportName? (t : Text) : Option (Text × Text) := do
  let t ← afterWord? "export" t
  let t ← afterDeclarator? (skipWord "async" (skipWord "default" t))
  match t with
  | [] => none
  | c :: rest =>
    if isIdentifierStart c then
      let more := rest.takeWhile fun x => Text.isWord x || x == '$'
      some (c :: more, rest.drop more.length)
    else none

/-- All that a reader finds from left to right at starts of words; it goes on after what it has read. -/
def findFrom (read : Text → Option (α × Text)) : Nat → Option Char → Text → List α
  | 0, _, _ => []
  | _ + 1, _, [] => []
  | fuel + 1, previous, c :: rest =>
    if previous.any Text.isWord then findFrom read fuel (some c) rest
    else match read (c :: rest) with
      | some (found, next) =>
        found :: findFrom read fuel ((c :: rest).take (rest.length + 1 - next.length)).getLast? next
      | none => findFrom read fuel (some c) rest

def findAll (read : Text → Option (α × Text)) (t : Text) : List α := findFrom read (t.length + 1) none t

/-- Adds a name to names in ascending order, unless it is there. -/
def insertName (name : Text) : List Text → List Text
  | [] => [name]
  | n :: ns =>
    if n = name then n :: ns
    else if Text.before name n then name :: n :: ns
    else n :: insertName name ns

/-- Names in ascending order, each once. -/
def sortNames (names : List Text) : List Text := names.foldr insertName []

/-- The names that a block of declarations binds, in ascending order. -/
def boundIdentifiers (source : Text) : List Text :=
  sortNames ((findAll importClause? source).flatMap clauseNames ++ findAll exportName? source)

end StaticSite.EsModule
