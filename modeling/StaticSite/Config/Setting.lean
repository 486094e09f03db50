import StaticSite.Decimal.Numeral
import StaticSite.Table

/-!
# Settings

A setting is a value of a configuration, or a table of settings. Sources of settings are laid over each
other: tables are joined name by name, and anything else takes the place of what was there. A value is read
as the type that is asked for where that makes sense.
-/
namespace StaticSite

inductive Setting where
  | null
  | bool (b : Bool)
  | integer (n : Int)
  | float (x : Decimal.Binary64)
  | text (t : Text)
  | list (items : List Setting)
  | table (entries : List (Text × Setting))
deriving Inhabited

namespace Setting

/-! ## Reading -/

/-- A setting as text. -/
def text? : Setting → Option Text
  | text t => some t
  | bool b => some (if b then "true" else "false")
  | integer n => some (Text.ofInt n)
  | float x => some (Decimal.plainText x)
  | _ => none

/-- What a word says about a switch. -/
def switch? (t : Text) : Option Bool :=
  let word := Text.lower t
  if ["1", "true", "on", "yes"].any fun w => w.toList = word then some true
  else if ["0", "false", "off", "no"].any fun w => w.toList = word then some false
  else none

/-- A setting as a switch. A number is on unless it is zero. -/
def bool? : Setting → Option Bool
  | bool b => some b
  | integer n => some (n != 0)
  | float x => some (x.magnitude != 0)
  | text t => switch? t
  | _ => none

/-- The settings of a section whose names are known. A list gives their values in the order of the names. -/
def section? (names : List Text) : Setting → Option (Table Setting)
  | table entries => some entries
  | list items => some (.ofEntries (names.zip items))
  | _ => none

/-! ## Laying over -/

/-- The entries of a table; anything else counts as an empty table. -/
def entries : Setting → Table Setting
  | table entries => entries
  | _ => []

def items : Setting → List Setting
  | list items => items
  | _ => []

def child (name : Text) (entries : Table Setting) : Setting := (entries.get? name).getD .null

mutual

/-- Lays a setting over another one. -/
def laidOver (old : Setting) : Setting → Setting
  | table new => table (entriesOver old.entries new)
  | value => value

def entriesOver (old : Table Setting) : List (Text × Setting) → Table Setting
  | [] => old
  | (name, value) :: rest => entriesOver (old.insert name (laidOver (child name old) value)) rest

end

/-- A step from a setting to a part of it. -/
inductive Step where
  | name (name : Text)
  /-- A place in a list; a negative one counts from the end. -/
  | index (n : Int)
deriving DecidableEq

/-- The list with room for a place, and that place. A place before the start makes room at the start. -/
def withRoom (n : Int) (items : List Setting) : List Setting × Nat :=
  let place := if n < 0 then n + items.length else n
  if place < 0 then (List.replicate place.natAbs .null ++ items, 0)
  else (items ++ List.replicate (place.toNat + 1 - items.length) .null, place.toNat)

/-- Changes the part to which steps lead, and makes tables and lists where none are. -/
def change (f : Setting → Setting) : List Step → Setting → Setting
  | [], s => f s
  | .name name :: steps, s =>
    let entries := s.entries
    table (entries.insert name (change f steps (child name entries)))
  | .index n :: steps, s =>
    let (items, place) := withRoom n s.items
    list (items.set place (change f steps (items.getD place .null)))

/-! ## Names of settings -/

def isNameChar (c : Char) : Bool := Text.isAsciiAlphanumeric c || c == '_' || c == '-'

/-- The steps after the first name: names after dots, and places in brackets. -/
def laterSteps? : Nat → Text → Option (List Step)
  | 0, _ => none
  | _, [] => some []
  | fuel + 1, '.' :: t =>
    let name := t.takeWhile isNameChar
    if name.isEmpty then none
    else (laterSteps? fuel (t.drop name.length)).map (.name name :: ·)
  | fuel + 1, '[' :: t => do
    let numeral := t.takeWhile (· != ']')
    if numeral.head? == some '+' then none
    let n ← Decimal.integer? numeral
    let rest := t.drop numeral.length
    if rest.isEmpty then none else (laterSteps? fuel (rest.drop 1)).map (.index n :: ·)
  | _, _ => none

/-- The steps that a key names. A key that is not of that form is one name. -/
def steps (key : Text) : List Step :=
  let first := key.takeWhile isNameChar
  let later := if first.isEmpty then none else laterSteps? (key.length + 1) (key.drop first.length)
  match later with
  | some later => .name first :: later
  | none => [.name key]

/-- Lays a source, which is a table of keys, over the settings so far. -/
def overlay (settings : Setting) (source : Table Setting) : Setting :=
  source.foldl (fun s (key, value) => s.change (fun old => old.laidOver value) (steps key)) settings

end Setting

end StaticSite
