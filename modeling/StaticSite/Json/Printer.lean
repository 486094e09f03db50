import StaticSite.Json

/-!
# Writing JSON

The compact text of a JSON value: no white space, and only those characters escaped that must be.
-/
namespace StaticSite.Json

/-- A character inside a string. -/
def escapeChar (c : Char) : Text :=
  match c with
  | '"' => "\\\""
  | '\\' => "\\\\"
  | '\n' => "\\n"
  | '\r' => "\\r"
  | '\t' => "\\t"
  | '\x08' => "\\b"
  | '\x0c' => "\\f"
  | c =>
    if c.val < 0x20 then
      "\\u00" ++ [Text.hexDigit (c.val.toNat / 16), Text.hexDigit (c.val.toNat % 16)]
    else [c]

def quote (t : Text) : Text := '"' :: t.flatMap escapeChar ++ ['"']

mutual

def print : Json → Text
  | .null => "null"
  | .bool true => "true"
  | .bool false => "false"
  | .integer n => Text.ofInt n
  | .float x => Decimal.text Decimal.jsonNotation x
  | .string t => quote t
  | .array items => '[' :: printItems items ++ "]"
  | .object members => '\x7b' :: printMembers members ++ ['\x7d']

def printItems : List Json → Text
  | [] => []
  | [item] => print item
  | item :: rest => print item ++ ',' :: printItems rest

def printMembers : List (Text × Json) → Text
  | [] => []
  | [(name, value)] => quote name ++ ':' :: print value
  | (name, value) :: rest => quote name ++ ':' :: print value ++ ',' :: printMembers rest

end

end StaticSite.Json
