import StaticSite.Text

/-!
# Escaping for HTML

Six characters are written as character references, so that escaped text holds no character that opens
or closes a tag or an attribute value.
-/
namespace StaticSite.Text

def escapeChar : Char → Text
  | '&' => "&amp;"
  | '<' => "&lt;"
  | '>' => "&gt;"
  | '"' => "&quot;"
  | '\'' => "&#x27;"
  | '/' => "&#x2F;"
  | c => [c]

/-- The text as it stands between tags or inside a quoted attribute value. -/
def escape (t : Text) : Text := t.flatMap escapeChar

end StaticSite.Text
