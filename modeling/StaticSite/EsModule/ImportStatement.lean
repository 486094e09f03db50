import StaticSite.EsModule.Identifier

/-!
# Import statements of one binding

The statements that import a component: their text, and the reader that checks a text before it is put
into a document.
-/
namespace StaticSite.EsModule

inductive ImportKind where
  | default
  | named
deriving DecidableEq

/-- An import of one name. -/
structure Import where
  binding : Text
  kind : ImportKind
  specifier : Text
deriving DecidableEq

inductive ImportError where
  | unrecognized
  | invalidIdentifier (name : Text)
  | reservedWord (name : Text)
  | emptySpecifier
deriving DecidableEq

def ImportError.message : ImportError → Text
  | .unrecognized => "not a single-binding import statement"
  | .invalidIdentifier name => "invalid identifier " ++ Text.quoted name
  | .reservedWord name => "reserved word " ++ Text.quoted name ++ " cannot be imported"
  | .emptySpecifier => "empty module specifier"

/-- The text of an import. -/
def Import.statement (i : Import) : Text :=
  match i.kind with
  | .default => "import " ++ i.binding ++ " from \"" ++ i.specifier ++ "\";"
  | .named => "import \x7b " ++ i.binding ++ " \x7d from \"" ++ i.specifier ++ "\";"

/-- Reads the rest of a statement after its binding: white space, `from`, white space, a quoted specifier
and a semicolon, and nothing more. -/
def specifier? (t : Text) : Option Text := do
  let t ← afterBlanks? t
  let t ← afterWord? "from" t
  match t with
  | '"' :: t =>
    let specifier := t.takeWhile fun c => !(c == '"' || c == '\r' || c == '\n')
    if t.drop specifier.length = "\";".toList then some specifier else none
  | _ => none

/-- A word and what follows it; the word ends at white space. -/
def takeWord (t : Text) : Text × Text :=
  let word := t.takeWhile fun c => !Text.isBlank c
  (word, t.drop word.length)

/-- Reads a binding between braces, after the opening one. The closing brace ends the word or stands
after white space. -/
def namedBinding? (t : Text) : Option (Text × Text) :=
  let (word, rest) := takeWord (Text.trimStart t)
  if word.isEmpty then none
  else
    let attached : Option (Text × Text) := do
      let name ← Text.before? ['\x7d'] word
      if name.isEmpty then none else (specifier? rest).map fun s => (name, s)
    attached.or <|
      match Text.trimStart rest with
      | '\x7d' :: rest => (specifier? rest).map fun s => (word, s)
      | _ => none

/-- Reads the shape of a statement, whatever its binding is. A word directly after `import` is taken as a
default binding, braces included. -/
def shape? (t : Text) : Option Import := do
  let t ← afterWord? "import" t
  let (word, rest) := takeWord t
  if word.isEmpty then none
  else match specifier? rest with
    | some specifier => some ⟨word, .default, specifier⟩
    | none =>
      match t with
      | '\x7b' :: t => (namedBinding? t).map fun (name, specifier) => ⟨name, .named, specifier⟩
      | _ => none

/-- Reads a statement back. -/
def Import.parse (statement : Text) : Except ImportError Import :=
  match shape? statement with
  | none => .error .unrecognized
  | some i =>
    if !isIdentifier i.binding then .error (.invalidIdentifier i.binding)
    else if isReserved i.binding then .error (.reservedWord i.binding)
    else if i.specifier.isEmpty then .error .emptySpecifier
    else .ok i

end StaticSite.EsModule
