import StaticSite.Json

/-!
# Templates

A template is text with expressions to be written out and tags that choose and repeat parts of it.
-/
namespace StaticSite.Template

inductive MathOperator where
  | plus
  | minus
  | times
  | divided
  | modulo
deriving DecidableEq

inductive Comparison where
  | less
  | lessOrEqual
  | greater
  | greaterOrEqual
  | equal
  | different
deriving DecidableEq

inductive Expr where
  | literal (value : Json)
  | variable (name : Text)
  | member (e : Expr) (name : Text)
  /-- A member whose name or position is computed. -/
  | index (e key : Expr)
  | list (items : List Expr)
  | concat (parts : List Expr)
  | call (name : Text) (arguments : List (Text × Expr))
  | math (op : MathOperator) (left right : Expr)
  | compare (op : Comparison) (left right : Expr)
  | both (left right : Expr)
  | either (left right : Expr)
  | not (e : Expr)
  | within (item container : Expr)
  | test (subject : Expr) (name : Text) (arguments : List Expr)
  | filter (e : Expr) (name : Text) (arguments : List (Text × Expr))
deriving Inhabited

inductive Part where
  | text (t : Text)
  | output (e : Expr)
  /-- The body of the first branch whose condition holds, or else the last body. -/
  | choice (branches : List (Expr × List Part)) (otherwise : List Part)
  /-- The body for each item; the last body when there is none. -/
  | loop (key : Option Text) (value : Text) (items : Expr) (body otherwise : List Part)
  | set (everywhere : Bool) (name : Text) (e : Expr)
  | filtered (name : Text) (arguments : List (Text × Expr)) (body : List Part)
  | block (body : List Part)
  /-- Another template, of which there is none; it may be allowed to be missing. -/
  | insertion (optional : Bool)
  | leave
  | next
deriving Inhabited

end StaticSite.Template

namespace StaticSite

/-- A template that has been read. -/
abbrev Template := List Template.Part

end StaticSite
