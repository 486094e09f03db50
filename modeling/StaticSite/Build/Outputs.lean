import StaticSite.Component.Registry
import StaticSite.Document.FrontMatter
import StaticSite.Text.Quoted

/-!
# Outputs

What the steps of a build hand on to each other: values under typed keys, each written once.
-/
namespace StaticSite

/-- The types of values that steps hand on. -/
inductive OutputKind where
  | integer
  | count
  | text
  | path
  | frontMatter
  | components
  /-- Values of one type by name. -/
  | table (of : OutputKind)
deriving DecidableEq

namespace OutputKind

def Value : OutputKind → Type
  | integer => Int
  | count => Nat
  | text => Text
  | path => FilePath
  | frontMatter => FrontMatter
  | components => Registry
  | table of => Table of.Value

@[match_pattern] abbrev texts : OutputKind := table text

@[match_pattern] abbrev paths : OutputKind := table path

@[match_pattern] abbrev metadata : OutputKind := table frontMatter

end OutputKind

/-- The name of an output together with its type. -/
structure OutputKey where
  name : Text
  kind : OutputKind
deriving DecidableEq

structure Output where
  kind : OutputKind
  value : kind.Value

inductive OutputError where
  | missing (key : Text)
  | alreadyWritten (key : Text)
  | typeMismatch (key : Text)
deriving DecidableEq

def OutputError.message : OutputError → Text
  | .missing key => "output " ++ Text.quoted key ++ " has not been produced yet"
  | .alreadyWritten key => "output " ++ Text.quoted key ++ " was already written"
  | .typeMismatch key => "output " ++ Text.quoted key ++ " holds a value of a different type"

structure Outputs where
  values : Table Output

namespace Outputs

def empty : Outputs := ⟨[]⟩

/-- The names of all outputs that have been written. -/
def names (o : Outputs) : List Text := o.values.names

/-- Whether an output has been written, whatever its type. -/
def contains (name : Text) (o : Outputs) : Bool := o.values.contains name

/-- Writes an output that has not been written. -/
def put (key : OutputKey) (value : key.kind.Value) (o : Outputs) : Except OutputError Outputs :=
  if o.contains key.name then .error (.alreadyWritten key.name)
  else .ok ⟨o.values.insert key.name ⟨key.kind, value⟩⟩

/-- Reads an output as a value of the type of its key. -/
def get (key : OutputKey) (o : Outputs) : Except OutputError key.kind.Value :=
  match o.values.get? key.name with
  | none => .error (.missing key.name)
  | some output =>
    if h : output.kind = key.kind then .ok (h ▸ output.value) else .error (.typeMismatch key.name)

/-- The names of all outputs between braces. -/
def display (o : Outputs) : Text :=
  '\x7b' :: Text.join ", " (o.names.map Text.doubleQuoted) ++ ['\x7d']

end Outputs

namespace OutputKey

def display (key : OutputKey) : Text := "OutputKey(" ++ key.name ++ [')']

/-- The documents by entry. -/
def entries : OutputKey := ⟨"entries", .paths⟩

def components : OutputKey := ⟨"components", .components⟩

/-- The compiled modules by entry. -/
def modules : OutputKey := ⟨"js output map", .paths⟩

/-- The front matter by entry. -/
def pageMetadata : OutputKey := ⟨"page metadata", .metadata⟩

/-- The file name of the stylesheet. -/
def stylesheet : OutputKey := ⟨"css filename", .text⟩

/-- How many files were copied. -/
def staticFiles : OutputKey := ⟨"static files", .count⟩

/-- The HTML of pages by entry. -/
def prerendered : OutputKey := ⟨"prerendered", .texts⟩

/-- The files of pages by entry. -/
def htmlFiles : OutputKey := ⟨"html files", .paths⟩

end OutputKey

end StaticSite
