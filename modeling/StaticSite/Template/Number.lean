import StaticSite.Decimal.Numeral
import StaticSite.Json
import StaticSite.Template.Basic

/-!
# Calculations in templates

Whole numbers of 64 bits are calculated exactly, and all other numbers in floating point.
-/
namespace StaticSite.Template.Number

open Decimal (Binary64)

/-- The number that a quotient is nearest to. -/
def ofQuotient (num : Int) (den : Nat) : Binary64 := ⟨num < 0, Binary64.nearest num.natAbs den⟩

/-- A finite number as a quotient. -/
def quotient (x : Binary64) : Int × Nat :=
  let (n, d) := Binary64.ratio x.magnitude
  (if x.negative then -(n : Int) else n, d)

def toFloat : Json → Option Binary64
  | .integer n => some (ofQuotient n 1)
  | .float x => some x
  | _ => none

/-- A float as a value, when it is finite. -/
def finite? (x : Binary64) : Option Json :=
  if x.isInfinite || x.isNan then none else some (.float x)

/-- Calculates with floats. A division by zero has no result. -/
def calculateFloats (op : MathOperator) (x y : Binary64) : Option Json :=
  let (a, b) := quotient x
  let (c, d) := quotient y
  match op with
  | .plus => finite? (ofQuotient (a * d + c * b) (b * d))
  | .minus => finite? (ofQuotient (a * d - c * b) (b * d))
  | .times => finite? (ofQuotient (a * c) (b * d))
  | .divided =>
    if c == 0 then none
    else finite? (ofQuotient (if c < 0 then -(a * d) else a * d) (b * c.natAbs))
  | .modulo =>
    if c == 0 then none
    else finite? (ofQuotient (Int.tmod (a * d) (c * b)) (b * d))

/-- Calculates with two numbers: nothing, when the result is not a number. -/
def calculate (op : MathOperator) (left right : Json) : Option Json :=
  let floats : Option Json := do calculateFloats op (← toFloat left) (← toFloat right)
  let whole (n : Int) : Option Json := if Decimal.isWord n then some (.integer n) else none
  match left, right, op with
  | .integer a, .integer b, .plus => whole (a + b)
  | .integer a, .integer b, .minus => whole (a - b)
  | .integer a, .integer b, .times => whole (a * b)
  | .integer a, .integer b, .modulo => if b == 0 then none else whole (Int.tmod a b)
  | _, _, _ => floats

/-- Whether a number is below another one. -/
def below (x y : Binary64) : Bool :=
  let (a, b) := quotient x
  let (c, d) := quotient y
  a * d < c * b

def isZero : Json → Bool
  | .integer n => n == 0
  | .float x => x.magnitude == 0
  | _ => false

end StaticSite.Template.Number
