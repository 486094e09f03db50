import StaticSite.Document.Node
import StaticSite.Yaml.Value

/-!
# Front matter

The metadata of a page, read from the YAML block at the top of its document.
-/
namespace StaticSite

structure FrontMatter where
  title : Option Text
  description : Option Text
  image : Option Text
  /-- The language of the page, where it is not the site's. -/
  language : Option Text
  /-- The address of the page, where it is not made from the site's. -/
  canonical : Option Text
  /-- What the page is, for previews. -/
  pageType : Option Text
  /-- All other entries. -/
  extra : Table Yaml.Value

namespace FrontMatter

/-- The record of a document without front matter. -/
def empty : FrontMatter := ⟨none, none, none, none, none, none, []⟩

/-- The text of an entry that may be null. -/
def optionalText? : Yaml.Tree → Option (Option Text)
  | .scalar tag plain t =>
    if !plain then some (some t)
    else if tag = some "tag:yaml.org,2002:null".toList then
      if Yaml.Value.null? t then some none else none
    else if tag.isSome then some (some t)
    else if t.isEmpty || Yaml.Value.null? t then some none
    else some (some t)
  | _ => none

/-- Entries under way: the record so far, and the names with a place of their own that have been met. -/
structure Entries where
  record : FrontMatter
  met : List Text

/-- Takes in an entry with a place of its own, which occurs once. -/
def Entries.known? (name : Text) (set : FrontMatter → Option Text → FrontMatter) (tree : Yaml.Tree)
    (e : Entries) : Option Entries := do
  if e.met.contains name then none
  else
    let value ← optionalText? tree
    some ⟨set e.record value, name :: e.met⟩

/-- Takes in an entry. Of other entries with one name the last counts. -/
def Entries.add? (e : Entries) (pair : Yaml.Tree × Yaml.Tree) : Option Entries := do
  let name ← pair.1.text?
  match String.ofList name with
  | "title" => e.known? name (fun r v => { r with title := v }) pair.2
  | "description" => e.known? name (fun r v => { r with description := v }) pair.2
  | "image" => e.known? name (fun r v => { r with image := v }) pair.2
  | "lang" => e.known? name (fun r v => { r with language := v }) pair.2
  | "canonical" => e.known? name (fun r v => { r with canonical := v }) pair.2
  | "type" => e.known? name (fun r v => { r with pageType := v }) pair.2
  | _ =>
    let value ← pair.2.value?
    some { e with record := { e.record with extra := Table.insert name value e.record.extra } }

/-- The record that a tree stands for. -/
def ofTree? : Yaml.Tree → Option FrontMatter
  | .mapping _ pairs => (pairs.foldlM Entries.add? ⟨empty, []⟩).map (·.record)
  | .scalar _ plain t => if plain && t.isEmpty then some empty else none
  | .sequence _ _ => none

/-- Reads a block of front matter. A blank block is an empty record. -/
def ofYaml? (yaml : Text) : Option FrontMatter :=
  if Text.allBlank yaml then some empty
  else do
    match ← Yaml.Tree.read? yaml with
    | none => some empty
    | some tree => ofTree? tree

end FrontMatter

namespace Document

/-- The first front matter block at the top level. -/
def frontMatter? (doc : Document) : Option Text :=
  doc.findSome? fun
    | .frontMatter yaml => some yaml
    | _ => none

/-- The blocks of declarations at the top level. -/
def declarations (doc : Document) : List Text :=
  doc.filterMap fun
    | .declarations source => some source
    | _ => none

/-- The record of a document. A block that is missing or cannot be read counts as an empty one. -/
def metadata (doc : Document) : FrontMatter :=
  (doc.frontMatter?.bind FrontMatter.ofYaml?).getD .empty

/-- The front matter of a document as JSON: null where there is none that can be read. -/
def frontMatterJson (doc : Document) : Json :=
  match doc.frontMatter?.bind Yaml.Tree.read? with
  | some (some tree) => tree.json?.getD .null
  | _ => .null

end Document

end StaticSite
