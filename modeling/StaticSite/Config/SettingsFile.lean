import StaticSite.Config.Setting
import StaticSite.Yaml.Tree

/-!
# Settings files

The settings that a YAML text gives. A plain scalar may be a switch, a number or nothing; all other scalars
are text. The text holds one table, or nothing at all.
-/
namespace StaticSite.Setting

open Yaml (Tree)

/-- The digits of a numeral of a base, with a sign, when the number fits into 64 bits. -/
def basedInteger? (base : Nat) (t : Text) : Option Int := do
  let digits := Decimal.unsigned t
  if digits.isEmpty then none
  let n ← digits.foldl (fun n c => do
    let d ← Text.hexValue? c
    if d < base then some (base * (← n) + d) else none) (some 0)
  let n : Int := if Decimal.isNegative t then -(n : Int) else n
  if Decimal.isWord n then some n else none

/-- The whole number of a plain scalar. -/
def plainInteger? (t : Text) : Option Int :=
  match t with
  | '0' :: 'x' :: digits => basedInteger? 16 digits
  | '0' :: 'o' :: digits => basedInteger? 8 digits
  | '+' :: digits => Decimal.integer? digits
  | _ => Decimal.integer? t

/-- The names of the numbers that are not finite. -/
def notFinite : List String :=
  [".inf", ".Inf", ".INF", "+.inf", "+.Inf", "+.INF", "-.inf", "-.Inf", "-.INF", ".nan", ".NaN", ".NAN"]

/-- The setting of a plain scalar. A number that is not finite has none. -/
def ofPlain? (t : Text) : Option Setting :=
  match plainInteger? t with
  | some n => some (.integer n)
  | none =>
    if t = [] || t = ['~'] || t = "null".toList then some .null
    else if t = "true".toList then some (.bool true)
    else if t = "false".toList then some (.bool false)
    else if notFinite.any fun name => name.toList = t then none
    else match Decimal.ofNumeral? t with
      | some x => some (.float x)
      | none => some (.text t)

/-- The setting of a plain scalar that is tagged. A text that is not of its type stands for nothing. -/
def ofTagged? (tag t : Text) : Option Setting :=
  if tag = "tag:yaml.org,2002:bool".toList then
    some (if t = "true".toList then .bool true else if t = "false".toList then .bool false else .null)
  else if tag = "tag:yaml.org,2002:int".toList then
    some (((Decimal.integer? t).map .integer).getD .null)
  else if tag = "tag:yaml.org,2002:float".toList then
    if notFinite.any fun name => name.toList = t then none
    else some (((Decimal.ofNumeral? t).map .float).getD .null)
  else if tag = "tag:yaml.org,2002:null".toList then some .null
  else some (.text t)

def ofScalar? (tag : Option Text) (plain : Bool) (t : Text) : Option Setting :=
  match plain, tag with
  | false, _ => some (.text t)
  | true, some tag => ofTagged? tag t
  | true, none => ofPlain? t

/-- The types of keys. Keys of different types differ, even if they are written alike. -/
inductive KeyType where
  | text
  | bool
  | integer
  | float
deriving DecidableEq

/-- The type of a key and its name, which for a float is the text as it is written. -/
def key? : Tree → Option (KeyType × Text)
  | .scalar tag plain t =>
    match ofScalar? tag plain t with
    | some (.text t) => some (.text, t)
    | some (.bool b) => some (.bool, if b then "true" else "false")
    | some (.integer n) => some (.integer, Text.ofInt n)
    | some (.float _) => some (.float, t)
    | _ => none
  | _ => none

/-- Whether all keys differ. -/
def keysDiffer : List (KeyType × Text) → Bool
  | [] => true
  | key :: keys => !keys.contains key && keysDiffer keys

mutual

/-- The setting of a tree. -/
def ofTree? : Tree → Option Setting
  | .scalar tag plain t => ofScalar? tag plain t
  | .sequence _ items => (ofItems? items).map .list
  | .mapping _ pairs => do
    let entries ← ofPairs? pairs
    if keysDiffer (entries.map (·.1)) then
      some (.table (Table.ofEntries (entries.map fun (key, value) => (key.2, value))))
    else none

def ofItems? : List Tree → Option (List Setting)
  | [] => some []
  | t :: ts => do
    let s ← ofTree? t
    some (s :: (← ofItems? ts))

def ofPairs? : List (Tree × Tree) → Option (List ((KeyType × Text) × Setting))
  | [] => some []
  | (k, v) :: ps => do
    let k ← key? k
    let v ← ofTree? v
    some ((k, v) :: (← ofPairs? ps))

end

/-- The table of a YAML text. -/
def tableOfText? (t : Text) : Option (Table Setting) := do
  match ← Tree.read? t with
  | none => some []
  | some tree =>
    match ← ofTree? tree with
    | .table entries => some entries
    | _ => none

end StaticSite.Setting
