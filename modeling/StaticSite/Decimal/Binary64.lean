import StaticSite.Text

/-!
# Floating-point numbers

A finite number of the 64-bit binary format is its sign and its magnitude, the natural number that the
lower 63 bits of its word spell. Magnitudes are ordered like the numbers. Rounding is exact: it takes the
ratio of two natural numbers to the nearest number, and to the even one of two equally near.
-/
namespace StaticSite.Decimal

structure Binary64 where
  negative : Bool
  magnitude : Nat
deriving DecidableEq, Inhabited

namespace Binary64

/-- The magnitude of infinity, above all finite ones. -/
def infinity : Nat := 0x7FF0000000000000

def isInfinite (x : Binary64) : Bool := x.magnitude == infinity

def isNan (x : Binary64) : Bool := infinity < x.magnitude

def nan : Binary64 := ⟨false, infinity + Nat.pow 2 51⟩

/-- A magnitude as an integer `m` and an exponent `e`, for the number `m * 2 ^ e`. -/
def parts (magnitude : Nat) : Nat × Int :=
  let field : Nat := magnitude / Nat.pow 2 52
  let fraction : Nat := magnitude % Nat.pow 2 52
  if field == 0 then (fraction, -1074) else (Nat.pow 2 52 + fraction, (field : Int) - 1075)

/-- The quotient rounded to an integer, a half to the even neighbour. -/
def roundHalfEven (num den : Nat) : Nat :=
  let q := num / den
  let r := num % den
  if den < 2 * r || (2 * r == den && q % 2 == 1) then q + 1 else q

/-- The ratio divided by `2 ^ q`. -/
def scaleDown (num den : Nat) (q : Int) : Nat × Nat :=
  if 0 ≤ q then (num, den * Nat.pow 2 q.toNat) else (num * Nat.pow 2 (-q).toNat, den)

/-- The magnitude nearest to a ratio; infinity where none is near. -/
def nearest (num den : Nat) : Nat :=
  if num == 0 then 0
  else
    let q := max (-1074) ((Nat.log2 num : Int) - Nat.log2 den - 52)
    let (a, b) := scaleDown num den q
    let q := if a / b < Nat.pow 2 52 && -1074 < q then q - 1 else q
    let (a, b) := scaleDown num den q
    min infinity ((q + 1074).toNat * Nat.pow 2 52 + roundHalfEven a b)

/-- The ratio that a magnitude stands for. -/
def ratio (magnitude : Nat) : Nat × Nat :=
  let (m, e) := parts magnitude
  if 0 ≤ e then (m * Nat.pow 2 e.toNat, 1) else (m, Nat.pow 2 (-e).toNat)

/-- The number nearest to `digits * 10 ^ exponent`. -/
def ofDecimal (negative : Bool) (digits : Nat) (exponent : Int) : Binary64 :=
  if digits == 0 then ⟨negative, 0⟩
  else if 400 < exponent then ⟨negative, infinity⟩
  else if exponent + (Text.ofNat digits).length < -400 then ⟨negative, 0⟩
  else if 0 ≤ exponent then ⟨negative, nearest (digits * Nat.pow 10 exponent.toNat) 1⟩
  else ⟨negative, nearest digits (Nat.pow 10 (-exponent).toNat)⟩

end Binary64

end StaticSite.Decimal
