import StaticSite.Config.Setting

/-!
# Settings from variables

A variable of the environment whose name starts with the name of the program gives a setting. Two low lines
part the names of sections, and capital letters count as small ones.
-/
namespace StaticSite.Setting

/-- A variable of the environment: its name and its value. -/
abbrev Variable := Text × Text

/-- What the names of all variables that give settings start with. -/
def variableStart : Text := "pagewright__"

/-- The names that sections are parted by, with dots between them. -/
def dotted : Text → Text
  | '_' :: '_' :: t => '.' :: dotted t
  | c :: t => c :: dotted t
  | [] => []

/-- The number that a word names, or a numeral. -/
def float? (t : Text) : Option Decimal.Binary64 :=
  let word := Text.lower (Decimal.unsigned t)
  let negative := Decimal.isNegative t
  if word = "inf".toList || word = "infinity".toList then some ⟨negative, Decimal.Binary64.infinity⟩
  else if word = "nan".toList then some .nan
  else Decimal.ofNumeral? t

/-- The value of a variable: a switch, a number or text. -/
def ofVariable (t : Text) : Setting :=
  let word := Text.lower t
  if word = "true".toList then .bool true
  else if word = "false".toList then .bool false
  else match Decimal.integer? t, float? t with
    | some n, _ => .integer n
    | none, some x => .float x
    | none, none => .text t

/-- The key of a variable that gives a setting. -/
def variableKey? (name : Text) : Option Text :=
  (Text.after? variableStart (Text.lower name)).map dotted

/-- The settings that variables give. -/
def tableOfVariables (environment : List Variable) : Table Setting :=
  .ofEntries (environment.filterMap fun (name, value) =>
    (variableKey? name).map fun key => (key, ofVariable value))

end StaticSite.Setting
