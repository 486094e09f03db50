import StaticSite.Decimal.Binary64

/-!
# Shortest decimals

The decimal with the fewest digits that rounds back to a floating-point number, and its text in the
notations that the library writes.
-/
namespace StaticSite.Decimal

/-- The interval of numbers that round to a magnitude, and the magnitude's own value: lower end, value
and upper end over one denominator, and whether the ends belong to it. -/
structure Interval where
  low : Nat
  value : Nat
  high : Nat
  denominator : Nat
  closed : Bool

def interval (magnitude : Nat) : Interval :=
  let (m, e) := Binary64.parts magnitude
  let low := if m == Nat.pow 2 52 && Nat.pow 2 53 ≤ magnitude then 4 * m - 1 else 4 * m - 2
  let e := e - 2
  if 0 ≤ e then
    let s := Nat.pow 2 e.toNat
    ⟨low * s, 4 * m * s, (4 * m + 2) * s, 1, m % 2 == 0⟩
  else ⟨low, 4 * m, 4 * m + 2, Nat.pow 2 (-e).toNat, m % 2 == 0⟩

/-- The number of digits before the decimal point of a ratio; negative when zeros follow the point. -/
def pointPosition (num den : Nat) : Int :=
  let guess : Int := (Text.ofNat num).length - (Text.ofNat den).length
  let reaches :=
    if 0 ≤ guess then den * Nat.pow 10 guess.toNat ≤ num else den ≤ num * Nat.pow 10 (-guess).toNat
  if reaches then guess + 1 else guess

/-- The decimal with a given number of digits that rounds to the interval's number and is nearest to it,
when there is one. -/
def decimalOf? (i : Interval) (position : Int) (count : Nat) : Option (Nat × Int) :=
  let power := position - count
  let (up, down) : Nat × Nat :=
    if 0 ≤ power then (Nat.pow 10 power.toNat, 1) else (1, Nat.pow 10 (-power).toNat)
  let unit := up * i.denominator
  let below := i.value * down / unit
  let inside (d : Nat) : Bool :=
    let x := d * unit
    (i.low * down < x || (i.closed && i.low * down == x)) &&
      (x < i.high * down || (i.closed && i.high * down == x))
  let lower := inside below
  let upper := inside (below + 1)
  let nearLower := 2 * (i.value * down) ≤ (2 * below + 1) * unit
  if lower && (nearLower || !upper) then some (below, power)
  else if upper then some (below + 1, power)
  else none

/-- Removes trailing zeros from the digits of a decimal. -/
def dropZeros : Nat → Nat × Int → Nat × Int
  | 0, d => d
  | fuel + 1, (digits, power) =>
    if digits != 0 && digits % 10 == 0 then dropZeros fuel (digits / 10, power + 1)
    else (digits, power)

/-- Digits and power of ten of the shortest decimal that rounds to a magnitude. -/
def shortest (magnitude : Nat) : Nat × Int :=
  let i := interval magnitude
  let position := pointPosition i.value i.denominator
  match (List.range 17).findSome? fun n => decimalOf? i position (n + 1) with
  | some d => dropZeros 20 d
  | none => (0, 0)

/-- How far from the decimal point digits may start for a number to be written positionally: the least
and the greatest position of the point that still are, and whether the exponent form is used beside it. -/
structure Notation where
  least : Int
  greatest : Int
  infinite : Text
  undefined : Text

/-- JSON: positional with at most 16 digits before the point and at most five zeros after it. -/
def jsonNotation : Notation := ⟨-4, 16, "null", "null"⟩

/-- Front matter values: positional from 0.0001 up to below 10 ^ 16. -/
def valueNotation : Notation := ⟨-3, 16, "inf", "NaN"⟩

/-- The text of a magnitude that is finite. A whole number keeps one zero after the point. -/
def magnitudeText (style : Notation) (magnitude : Nat) : Text :=
  if magnitude == 0 then "0.0"
  else
    let (digits, power) := shortest magnitude
    let text := Text.ofNat digits
    let position := power + text.length
    if style.least ≤ position && position ≤ style.greatest then
      if 0 ≤ power then text ++ List.replicate power.toNat '0' ++ ".0"
      else if 0 < position then text.take position.toNat ++ '.' :: text.drop position.toNat
      else "0." ++ List.replicate (-position).toNat '0' ++ text
    else
      let mantissa := match text with
        | first :: second :: rest => first :: '.' :: second :: rest
        | _ => text
      mantissa ++ 'e' :: Text.ofInt (position - 1)

def text (style : Notation) (x : Binary64) : Text :=
  if x.isNan then style.undefined
  else
    (if x.negative then ['-'] else []) ++
      (if x.isInfinite then style.infinite else magnitudeText style x.magnitude)

end StaticSite.Decimal
