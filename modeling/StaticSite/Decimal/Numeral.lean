import StaticSite.Decimal.Shortest

/-!
# Decimal numerals

Reading a number from a decimal numeral, and its text without an exponent.
-/
namespace StaticSite.Decimal

/-- The text without a sign in front. -/
def unsigned (t : Text) : Text :=
  match t with
  | '+' :: rest => rest
  | '-' :: rest => rest
  | _ => t

def isNegative (t : Text) : Bool := t.head? == some '-'

/-- The parts of a decimal numeral without a sign: digits, digits after a point, and exponent. -/
def numeral? (t : Text) : Option (Text × Text × Int) :=
  let whole := t.takeWhile Text.isAsciiDigit
  let t := t.drop whole.length
  let (fraction, t) := match t with
    | '.' :: t =>
      let fraction := t.takeWhile Text.isAsciiDigit
      (fraction, t.drop fraction.length)
    | t => ([], t)
  if whole.isEmpty && fraction.isEmpty then none
  else match t with
    | [] => some (whole, fraction, 0)
    | e :: t =>
      if e == 'e' || e == 'E' then
        let digits := unsigned t
        if digits.isEmpty || !digits.all Text.isAsciiDigit then none
        else
          let n : Int := Text.digitsValue digits
          some (whole, fraction, if isNegative t then -n else n)
      else none

/-- The number that a decimal numeral is nearest to. -/
def ofNumeral? (t : Text) : Option Binary64 := do
  let (whole, fraction, exponent) ← numeral? (unsigned t)
  let digits := Text.digitsValue (whole ++ fraction)
  some (Binary64.ofDecimal (isNegative t) digits (exponent - fraction.length))

/-- Whether a whole number fits into 64 bits with a sign. -/
def isWord (n : Int) : Bool := -9223372036854775808 ≤ n && n < 9223372036854775808

/-- The whole number of a decimal numeral without a point, when it fits into 64 bits. -/
def integer? (t : Text) : Option Int :=
  let digits := unsigned t
  if digits.isEmpty || !digits.all Text.isAsciiDigit then none
  else
    let n : Int := Text.digitsValue digits
    let n := if isNegative t then -n else n
    if isWord n then some n else none

/-- The text of a finite number: all its digits in front of the point and no zero after it. -/
def finiteText (x : Binary64) : Text :=
  let (digits, power) := shortest x.magnitude
  let t := Text.ofNat digits
  let position := power + t.length
  let sign := if x.negative then ['-'] else []
  if x.magnitude == 0 then sign ++ ['0']
  else if 0 ≤ power then sign ++ t ++ List.replicate power.toNat '0'
  else if 0 < position then sign ++ t.take position.toNat ++ '.' :: t.drop position.toNat
  else sign ++ "0." ++ List.replicate (-position).toNat '0' ++ t

/-- The text of any number without an exponent. -/
def plainText (x : Binary64) : Text :=
  if x.isNan then "NaN"
  else if x.isInfinite then (if x.negative then "-inf" else "inf")
  else finiteText x

end StaticSite.Decimal
