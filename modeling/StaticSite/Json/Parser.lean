import StaticSite.Json

/-!
# Reading JSON

A reader for JSON texts. Nesting is bounded, a name that occurs again replaces the earlier member, and a
number that is no whole number of 64 bits is read into the binary format: its first digits, as many as
fit into 64 bits, are multiplied or divided by a power of ten.
-/
namespace StaticSite.Json

open Decimal (Binary64)

def isSpace (c : Char) : Bool := c == ' ' || c == '\n' || c == '\r' || c == '\t'

def skipSpace (t : Text) : Text := t.dropWhile isSpace

/-! ## Strings -/

def hex4? : Text → Option (Nat × Text)
  | a :: b :: c :: d :: rest => do
    let a ← Text.hexValue? a
    let b ← Text.hexValue? b
    let c ← Text.hexValue? c
    let d ← Text.hexValue? d
    some (((a * 16 + b) * 16 + c) * 16 + d, rest)
  | _ => none

/-- The character that a letter after a backslash stands for. -/
def shortEscape? : Char → Option Char
  | '"' => some '"'
  | '\\' => some '\\'
  | '/' => some '/'
  | 'b' => some '\x08'
  | 'f' => some '\x0c'
  | 'n' => some '\n'
  | 'r' => some '\r'
  | 't' => some '\t'
  | _ => none

/-- Reads the four digits of an escape, or the two escapes of a character beyond 16 bits. -/
def unicodeEscape? (t : Text) : Option (Char × Text) := do
  let (n, rest) ← hex4? t
  if 0xD800 ≤ n && n < 0xDC00 then
    match rest with
    | '\\' :: 'u' :: rest =>
      let (low, rest) ← hex4? rest
      if 0xDC00 ≤ low && low < 0xE000 then
        some (Char.ofNat (0x10000 + (n - 0xD800) * 0x400 + (low - 0xDC00)), rest)
      else none
    | _ => none
  else if 0xDC00 ≤ n && n < 0xE000 then none
  else some (Char.ofNat n, rest)

/-- Reads a string after its opening quote. -/
def stringRest? : Nat → Text → Option (Text × Text)
  | 0, _ => none
  | _ + 1, [] => none
  | _ + 1, '"' :: rest => some ([], rest)
  | fuel + 1, '\\' :: 'u' :: rest => do
    let (c, rest) ← unicodeEscape? rest
    let (t, rest) ← stringRest? fuel rest
    some (c :: t, rest)
  | fuel + 1, '\\' :: c :: rest => do
    let c ← shortEscape? c
    let (t, rest) ← stringRest? fuel rest
    some (c :: t, rest)
  | fuel + 1, c :: rest =>
    if c.val < 0x20 || c == '\\' then none
    else (stringRest? fuel rest).map fun (t, rest) => (c :: t, rest)

/-! ## Numbers -/

/-- The first number that does not fit into 64 bits. -/
def wordLimit : Nat := Nat.pow 2 64

/-- Takes digits into a number as long as it fits into 64 bits; the digits that did not fit remain. -/
def takeDigits : Nat → Text → Nat × Text
  | n, [] => (n, [])
  | n, c :: rest =>
    let next := 10 * n + (c.val.toNat - 48)
    if next < wordLimit then takeDigits next rest else (n, c :: rest)

/-- Multiplies or divides the floating-point form of a whole number by a power of ten, rounding after
each operation; a number that is too large is none. -/
def scaled? (n : Nat) (exponent : Int) : Option Nat :=
  let product (magnitude : Nat) (power : Nat) : Nat :=
    let (a, b) := Binary64.ratio magnitude
    let (c, d) := Binary64.ratio (Binary64.nearest (Nat.pow 10 power) 1)
    Binary64.nearest (a * c) (b * d)
  let quotient (magnitude : Nat) (power : Nat) : Nat :=
    let (a, b) := Binary64.ratio magnitude
    let (c, d) := Binary64.ratio (Binary64.nearest (Nat.pow 10 power) 1)
    Binary64.nearest (a * d) (b * c)
  let start := Binary64.nearest n 1
  if 0 ≤ exponent then
    if n == 0 then some 0
    else if 308 < exponent then none
    else
      let x := product start exponent.toNat
      if x == Binary64.infinity then none else some x
  else
    let rec shrink : Nat → Nat → Nat → Nat
      | 0, x, _ => x
      | fuel + 1, x, power =>
        if x == 0 || power ≤ 308 then quotient x (min power 308)
        else shrink fuel (quotient x 308) (power - 308)
    some (shrink 8 start (-exponent).toNat)

/-- Takes a minus off. -/
def sign (t : Text) : Bool × Text :=
  match t with
  | '-' :: t => (true, t)
  | t => (false, t)

/-- Takes the sign of an exponent off. -/
def exponentSign (t : Text) : Bool × Text :=
  match t with
  | '+' :: t => (false, t)
  | '-' :: t => (true, t)
  | t => (false, t)

/-- Reads an exponent after its letter. -/
def exponent? (t : Text) : Option (Int × Text) :=
  let (negative, t) := exponentSign t
  let digits := t.takeWhile Text.isAsciiDigit
  if digits.isEmpty then none
  else
    let n : Int := Text.digitsValue digits
    some (if negative then -n else n, t.drop digits.length)

/-- A floating-point number and what follows it. -/
def float? (negative : Bool) (n : Nat) (exponent : Int) (rest : Text) : Option (Json × Text) :=
  (scaled? n exponent).map fun x => (.float ⟨negative, x⟩, rest)

/-- Reads what follows the digits of a floating-point number, an exponent or nothing. -/
def withExponent? (negative : Bool) (n : Nat) (base : Int) (t : Text) : Option (Json × Text) :=
  match t with
  | 'e' :: t | 'E' :: t =>
    match exponent? t with
    | none => none
    | some (e, rest) => float? negative n (base + e) rest
  | t => float? negative n base t

/-- Reads a number from behind its point; `left` are the digits before the point that did not fit. -/
def fraction? (negative : Bool) (n : Nat) (left : Text) (t : Text) : Option (Json × Text) :=
  let digits := t.takeWhile Text.isAsciiDigit
  let rest := t.drop digits.length
  if digits.isEmpty then none
  else
    let (n, unused) := if left.isEmpty then takeDigits n digits else (n, digits)
    let base : Int := (left.length : Int) - (digits.length - unused.length : Nat)
    withExponent? negative n base rest

/-- A number without point and exponent: a whole one if it fits into 64 bits. -/
def whole? (negative : Bool) (n : Nat) (left : Text) (rest : Text) : Option (Json × Text) :=
  if !left.isEmpty then float? negative n left.length rest
  else if !negative then some (.integer n, rest)
  else if n == 0 || Nat.pow 2 63 < n then float? negative n 0 rest
  else some (.integer (-(n : Int)), rest)

/-- Reads what follows the digits of a number; `left` are those that did not fit. -/
def afterDigits? (negative : Bool) (n : Nat) (left : Text) (t : Text) : Option (Json × Text) :=
  match t with
  | '.' :: t => fraction? negative n left t
  | 'e' :: _ | 'E' :: _ => withExponent? negative n left.length t
  | _ => whole? negative n left t

/-- Reads a number: no sign but a minus, no needless leading zero, and digits on both sides of a point. -/
def number? (t : Text) : Option (Json × Text) :=
  let (negative, t) := sign t
  let digits := t.takeWhile Text.isAsciiDigit
  if digits.isEmpty || (1 < digits.length && digits.head? == some '0') then none
  else
    let (n, left) := takeDigits 0 digits
    afterDigits? negative n left (t.drop digits.length)

/-! ## Values -/

/-- How deep arrays and objects may nest. -/
def maxDepth : Nat := 128

def literal? (word : Text) (value : Json) (t : Text) : Option (Json × Text) :=
  (Text.after? word t).map fun rest => (value, rest)

mutual

/-- Reads a value inside `depth` further levels. -/
def value? : Nat → Nat → Text → Option (Json × Text)
  | 0, _, _ => none
  | fuel + 1, depth, t =>
    match skipSpace t with
    | 'n' :: rest => literal? "ull" .null rest
    | 't' :: rest => literal? "rue" (.bool true) rest
    | 'f' :: rest => literal? "alse" (.bool false) rest
    | '"' :: rest => (stringRest? (rest.length + 1) rest).map fun (t, rest) => (.string t, rest)
    | '[' :: rest =>
      if depth ≤ 1 then none
      else match skipSpace rest with
        | ']' :: rest => some (.array [], rest)
        | _ => (items? fuel (depth - 1) rest).map fun (items, rest) => (.array items, rest)
    | '\x7b' :: rest =>
      if depth ≤ 1 then none
      else match skipSpace rest with
        | '\x7d' :: rest => some (.object [], rest)
        | _ => (members? fuel (depth - 1) rest).map fun (members, rest) => (ofMembers members, rest)
    | t => number? t

/-- Reads the items of an array and its closing bracket. -/
def items? : Nat → Nat → Text → Option (List Json × Text)
  | 0, _, _ => none
  | fuel + 1, depth, t => do
    let (item, rest) ← value? fuel depth t
    match skipSpace rest with
    | ',' :: rest =>
      let (items, rest) ← items? fuel depth rest
      some (item :: items, rest)
    | ']' :: rest => some ([item], rest)
    | _ => none

/-- Reads the members of an object and its closing brace. -/
def members? : Nat → Nat → Text → Option (List (Text × Json) × Text)
  | 0, _, _ => none
  | fuel + 1, depth, t =>
    match skipSpace t with
    | '"' :: rest => do
      let (name, rest) ← stringRest? (rest.length + 1) rest
      match skipSpace rest with
      | ':' :: rest =>
        let (value, rest) ← value? fuel depth rest
        match skipSpace rest with
        | ',' :: rest =>
          let (members, rest) ← members? fuel depth rest
          some ((name, value) :: members, rest)
        | '\x7d' :: rest => some ([(name, value)], rest)
        | _ => none
      | _ => none
    | _ => none

end

/-- The value of a whole text of which arrays and objects nest less deep than a limit. -/
def parseWithin? (limit : Nat) (t : Text) : Option Json := do
  let (value, rest) ← value? (2 * t.length + 2) limit t
  if (skipSpace rest).isEmpty then some value else none

/-- The value of a whole text. -/
def parse? (t : Text) : Option Json := parseWithin? maxDepth t

end StaticSite.Json
