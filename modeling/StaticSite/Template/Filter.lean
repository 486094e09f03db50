import StaticSite.Json.Printer
import StaticSite.Template.Number
import StaticSite.Text.Escape
import StaticSite.Text.Title
import StaticSite.Text.Bytes

/-!
# Filters and tests

The functions that expressions of a template may apply to values, by name.
-/
namespace StaticSite.Template

/-- The text that a value is written as. -/
def valueText : Json → Text
  | .null => []
  | .bool b => if b then "true" else "false"
  | .integer n => Text.ofInt n
  | .float x => Decimal.finiteText x
  | .string t => t
  | .array items => '[' :: Text.join ", " (items.attach.map fun ⟨item, _⟩ => valueText item) ++ [']']
  | .object _ => "[object]"

/-- Whether a value counts as true. -/
def isTruthy : Json → Bool
  | .null => false
  | .bool b => b
  | .integer n => n != 0
  | .float x => x.magnitude != 0
  | .string t => !t.isEmpty
  | .array items => !items.isEmpty
  | .object members => !members.isEmpty

/-- Equality of values. -/
def equal : Json → Json → Bool
  | .null, .null => true
  | .bool a, .bool b => a == b
  | .integer a, .integer b => a == b
  | .float a, .float b => a == b || (a.magnitude == 0 && b.magnitude == 0)
  | .string a, .string b => a == b
  | .array as, .array bs => equalItems as bs
  | .object as, .object bs => equalMembers as bs
  | _, _ => false
where
  equalItems : List Json → List Json → Bool
    | [], [] => true
    | a :: as, b :: bs => equal a b && equalItems as bs
    | _, _ => false
  equalMembers : List (Text × Json) → List (Text × Json) → Bool
    | [], [] => true
    | (m, a) :: as, (n, b) :: bs => m == n && equal a b && equalMembers as bs
    | _, _ => false

namespace Filter

abbrev Arguments := List (Text × Json)

/-- A named argument that is a text. -/
def textArgument? (name : String) (arguments : Arguments) : Option Text :=
  match arguments.lookup name.toList with
  | some (.string t) => some t
  | _ => none

/-- A named argument that is a natural number, or else a given one. -/
def countArgument (name : String) (otherwise : Nat) (arguments : Arguments) : Option Nat :=
  match arguments.lookup name.toList with
  | some (.integer n) => if 0 ≤ n then some n.toNat else none
  | some _ => none
  | none => some otherwise

/-- A named argument that says yes or no, or else no. -/
def flagArgument? (name : String) (arguments : Arguments) : Option Bool :=
  match arguments.lookup name.toList with
  | some (.bool b) => some b
  | some _ => none
  | none => some false

def lowerText (t : Text) : Text := t.map fun c => if c.isUpper then c.toLower else c

/-- The text with its first letter capital and all others small. -/
def capitalize : Text → Text
  | [] => []
  | c :: rest => Text.upper c ++ lowerText rest

def isTitleBreak (c : Char) : Bool := !(Text.isAsciiAlphanumeric c || c == '\'' || 0x7F < c.val.toNat)

/-- The text with the first letter of every word capital. -/
def titleWords : Bool → Text → Text
  | _, [] => []
  | fresh, c :: rest =>
    if isTitleBreak c then c :: titleWords true rest
    else (if fresh then Text.upper c else lowerText [c]) ++ titleWords false rest

/-- Words between white space. -/
def words (t : Text) : List Text := (Text.splitBy Text.isBlank t).filter fun w => !w.isEmpty

/-- The bytes of a text, those of other than plain characters written as percent escapes. -/
def percentEncode (isPlain : Char → Bool) (t : Text) : Text :=
  t.flatMap fun c =>
    if isPlain c then [c]
    else (Text.bytes [c]).flatMap fun b =>
      let digit (n : Nat) : Char := if n < 10 then Char.ofNat (48 + n) else Char.ofNat (55 + n)
      ['%', digit (b.toNat / 16), digit (b.toNat % 16)]

def stripTags : Bool → Text → Text
  | _, [] => []
  | inside, c :: rest =>
    if inside then stripTags (c != '>') rest
    else if c == '<' && rest.contains '>' then stripTags true rest
    else c :: stripTags false rest

/-- The text without white space between tags. -/
def dropTagGaps : Bool → Text → Text
  | _, [] => []
  | afterTag, c :: rest =>
    if afterTag && Text.isBlank c && (Text.trimStart rest).head? == some '<' then dropTagGaps true rest
    else c :: dropTagGaps (c == '>') rest

/-- The text as lower-case words of ASCII letters and digits between dashes. -/
def slugify (t : Text) : Text :=
  Text.join "-" ((Text.splitBy (fun c => !Text.isAsciiAlphanumeric c) (lowerText t)).filter
    fun w => !w.isEmpty)

def dropStart (part : Text) : Nat → Text → Text
  | 0, t => t
  | fuel + 1, t => match Text.after? part t with
    | some rest => dropStart part fuel rest
    | none => t

def dropEnd (part : Text) : Nat → Text → Text
  | 0, t => t
  | fuel + 1, t => match Text.before? part t with
    | some rest => dropEnd part fuel rest
    | none => t

/-- Pieces of a text between the occurrences of a part. -/
def splitAt : Nat → Text → Text → List Text
  | 0, _, t => [t]
  | fuel + 1, part, t =>
    match Text.cut? part t with
    | some (before, after) => if part.isEmpty then [t] else before :: splitAt fuel part after
    | none => [t]

/-- The lines of a text with an indentation in front, save the first one and blank ones, unless these are
asked for. -/
def indent (indentation : Text) (first blank : Bool) (t : Text) : Text :=
  Text.join "\n" ((Text.lines t).zipIdx.map fun (line, n) =>
    if (if n == 0 then first else blank || !Text.allBlank line) then indentation ++ line else line)

/-- The text with the characters that XML gives a meaning written as its entities. -/
def escapeXml (t : Text) : Text :=
  t.flatMap fun c => match c with
    | '&' => "&amp;".toList
    | '<' => "&lt;".toList
    | '>' => "&gt;".toList
    | '"' => "&quot;".toList
    | '\'' => "&apos;".toList
    | c => [c]

/-- A filter of texts. -/
def applyText? (name : Text) (t : Text) (arguments : Arguments) : Option Json :=
  let text (t : Text) : Option Json := some (.string t)
  match String.ofList name with
  | "upper" => text (t.flatMap Text.upper)
  | "lower" => text (lowerText t)
  | "capitalize" => text (capitalize t)
  | "title" => text (titleWords true t)
  | "trim" => text (Text.trim t)
  | "trim_start" => text (Text.trimStart t)
  | "trim_end" => text (Text.trimEnd t)
  | "trim_start_matches" => do
    let part ← textArgument? "pat" arguments
    text (if part.isEmpty then t else dropStart part t.length t)
  | "trim_end_matches" => do
    let part ← textArgument? "pat" arguments
    text (if part.isEmpty then t else dropEnd part t.length t)
  | "truncate" => do
    let length ← countArgument "length" 255 arguments
    let ending := (textArgument? "end" arguments).getD ['…']
    text (if t.length ≤ length then t else t.take length ++ ending)
  | "wordcount" => some (.integer (words t).length)
  | "replace" => do
    text (Text.replace (← textArgument? "from" arguments) (← textArgument? "to" arguments) t)
  | "escape" => text (Text.escape t)
  | "escape_xml" => text (escapeXml t)
  | "indent" => do
    let indentation ← match arguments.lookup "prefix".toList with
      | none => some "    ".toList
      | some _ => textArgument? "prefix" arguments
    text (indent indentation (← flagArgument? "first" arguments) (← flagArgument? "blank" arguments) t)
  | "addslashes" =>
    text (t.flatMap fun c => if c == '\\' || c == '"' || c == '\'' then ['\\', c] else [c])
  | "slugify" => text (slugify t)
  | "striptags" => text (stripTags false t)
  | "spaceless" => text (dropTagGaps false t)
  | "linebreaksbr" => text (Text.replace "\n" "<br>" (Text.replace "\r\n" "<br>" t))
  | "urlencode" =>
    text (percentEncode (fun c => Text.isAsciiAlphanumeric c || "_-.~/".toList.contains c) t)
  | "urlencode_strict" => text (percentEncode Text.isAsciiAlphanumeric t)
  | "split" => do
    let part ← textArgument? "pat" arguments
    some (.array ((splitAt (t.length + 1) part t).map .string))
  | "length" => some (.integer t.length)
  | "reverse" => text t.reverse
  | _ => none

/-- A filter of lists. -/
def applyList? (name : Text) (items : List Json) (arguments : Arguments) : Option Json :=
  match String.ofList name with
  | "length" => some (.integer items.length)
  | "reverse" => some (.array items.reverse)
  | "first" => some (items.head?.getD (.string []))
  | "last" => some (items.getLast?.getD (.string []))
  | "nth" => do
    let n ← match arguments.lookup "n".toList with
      | some (.integer n) => if 0 ≤ n then some n.toNat else none
      | _ => none
    some (items[n]?.getD (.string []))
  | "join" =>
    some (.string (Text.join ((textArgument? "sep" arguments).getD []) (items.map valueText)))
  | "slice" => do
    let start ← countArgument "start" 0 arguments
    let stop ← countArgument "end" items.length arguments
    some (.array ((items.take stop).drop start))
  | "concat" => do
    match ← arguments.lookup "with".toList with
    | .array more => some (.array (items ++ more))
    | one => some (.array (items ++ [one]))
  | _ => none

/-- A filter of numbers. -/
def applyNumber? (name : Text) (value : Json) (arguments : Arguments) : Option Json :=
  match String.ofList name, value with
  | "abs", .integer n => some (.integer n.natAbs)
  | "abs", .float x => some (.float { x with negative := false })
  | "pluralize", .integer n =>
    let ending (key : String) (otherwise : Text) := (textArgument? key arguments).getD otherwise
    some (.string (if n.natAbs == 1 then ending "singular" [] else ending "plural" ['s']))
  | _, _ => none

/-- A filter of values of any kind. -/
def applyAny? (name : Text) (value : Json) (arguments : Arguments) : Option Json :=
  match String.ofList name, value with
  | "as_str", v => some (.string (valueText v))
  | "json_encode", v => some (.string v.print)
  | "length", .object members => some (.integer members.length)
  | "int", .integer n => some (.integer n)
  | "int", .string t =>
    let digits := match t with
      | '-' :: rest => rest
      | '+' :: rest => rest
      | rest => rest
    if !digits.isEmpty && digits.all Text.isAsciiDigit then
      let n : Int := Text.digitsValue digits
      some (.integer (if t.head? == some '-' then -n else n))
    else some ((arguments.lookup "default".toList).getD (.integer 0))
  | "float", .float x => some (.float x)
  | "float", .integer n => (Number.toFloat (.integer n)).map .float
  | "float", .string t =>
    match Decimal.ofNumeral? (Text.trim t) with
    | some x => some (.float x)
    | none => some ((arguments.lookup "default".toList).getD (.float ⟨false, 0⟩))
  | "get", .object members => do
    let key ← textArgument? "key" arguments
    (members.lookup key).or (arguments.lookup "default".toList)
  | _, _ => none

/-- The value that a filter makes of a value, unless it fails or there is no such filter. -/
def result? (name : Text) (value : Json) (arguments : Arguments) : Option Json :=
  let special := match value with
    | .string t => applyText? name t arguments
    | .array items => applyList? name items arguments
    | .integer _ => applyNumber? name value arguments
    | .float _ => applyNumber? name value arguments
    | _ => none
  special.or (applyAny? name value arguments)

end Filter

/-- Whether a value passes a test; nothing for a variable that is not there. -/
def passes? (name : Text) (value : Option Json) (arguments : List Json) : Option Bool :=
  match String.ofList name, value, arguments with
  | "defined", v, [] => some v.isSome
  | "undefined", v, [] => some v.isNone
  | "string", some v, [] => some (match v with | .string _ => true | _ => false)
  | "number", some v, [] => some (Number.toFloat v).isSome
  | "iterable", some v, [] => some (match v with | .array _ => true | .object _ => true | _ => false)
  | "object", some v, [] => some (match v with | .object _ => true | _ => false)
  | "odd", some (.integer n), [] => some (n % 2 != 0)
  | "even", some (.integer n), [] => some (n % 2 == 0)
  | "divisibleby", some (.integer n), [.integer d] => some (d != 0 && n % d == 0)
  | "starting_with", some (.string t), [.string s] => some (Text.startsWith s t)
  | "ending_with", some (.string t), [.string s] => some (Text.endsWith s t)
  | "containing", some (.string t), [.string s] => some (Text.hasPart s t)
  | "containing", some (.array items), [v] => some (items.any (equal v))
  | "containing", some (.object members), [.string s] => some (members.any (·.1 == s))
  | _, _, _ => none

end StaticSite.Template
