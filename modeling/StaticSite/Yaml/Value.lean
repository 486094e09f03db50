import StaticSite.Decimal.Numeral
import StaticSite.Json
import StaticSite.Yaml.Tree

/-!
# YAML values

What a plain scalar stands for, and the typed value of a tree.
-/
namespace StaticSite.Yaml

inductive Value where
  | null
  | bool (b : Bool)
  | integer (n : Int)
  | float (x : Decimal.Binary64)
  | string (t : Text)
  | sequence (items : List Value)
  | mapping (pairs : List (Value × Value))
deriving Inhabited

namespace Value

/-! ## Plain scalars -/

def null? (t : Text) : Bool :=
  t = ['~'] || t = "null".toList || t = "Null".toList || t = "NULL".toList

def bool? (t : Text) : Option Bool :=
  if t = "true".toList || t = "True".toList || t = "TRUE".toList then some true
  else if t = "false".toList || t = "False".toList || t = "FALSE".toList then some false
  else none

/-- Whether a text is digits that start with a zero but are not the number zero. -/
def isPaddedDigits (t : Text) : Bool :=
  let digits := Decimal.unsigned t
  1 < digits.length && digits.head? == some '0' && digits.all Text.isAsciiDigit

/-- The value of a run of digits of a base, of which there must be some. -/
def natural? (base : Nat) (t : Text) : Option Nat :=
  if t.isEmpty then none
  else t.foldl (fun n c => do
    let d ← Text.hexValue? c
    if d < base then some (base * (← n) + d) else none) (some 0)

/-- The value of a numeral whose base stands in front of its digits. -/
def based? (t : Text) : Option Nat :=
  match t with
  | '0' :: 'x' :: digits => natural? 16 digits
  | '0' :: 'o' :: digits => natural? 8 digits
  | '0' :: 'b' :: digits => natural? 2 digits
  | _ => none

/-- The value of a numeral without a sign. -/
def magnitude? (t : Text) : Option Nat :=
  if isPaddedDigits t then none else (based? t).or (natural? 10 t)

/-- The whole number that a text stands for, of any size. -/
def integer? (t : Text) : Option Int :=
  match t with
  | '-' :: rest => (magnitude? rest).map fun n => -(n : Int)
  | '+' :: rest => (magnitude? rest).map Int.ofNat
  | _ => (magnitude? t).map Int.ofNat

/-- The finite number that a text stands for, rounded to the nearest one that there is. -/
def finite? (t : Text) : Option Decimal.Binary64 := do
  let x ← Decimal.ofNumeral? t
  if x.isInfinite then none else some x

def isInfinity (t : Text) : Bool :=
  t = ".inf".toList || t = ".Inf".toList || t = ".INF".toList

def isNan (t : Text) : Bool :=
  t = ".nan".toList || t = ".NaN".toList || t = ".NAN".toList

/-- The floating-point number that a text stands for. -/
def float? (t : Text) : Option Decimal.Binary64 :=
  if isNan t then some .nan
  else if isInfinity (Decimal.unsigned t) then some ⟨Decimal.isNegative t, Decimal.Binary64.infinity⟩
  else finite? t

/-- The value of a whole number. Numbers beyond 64 bits have none, unless they are beyond 128 bits too. -/
inductive Whole where
  | none
  | tooLarge
  | fits (n : Int)

def whole (t : Text) : Whole :=
  match integer? t with
  | Option.none => .none
  | some n =>
    if Decimal.isWord n || (0 ≤ n && n.toNat < Nat.pow 2 64) then .fits n
    else if -(Nat.pow 2 127 : Nat) ≤ n && n < (Nat.pow 2 128 : Nat) then .tooLarge
    else .none

/-- The value of a plain scalar without a tag. -/
def ofPlain? (t : Text) : Option Value :=
  if t.isEmpty || null? t then some .null
  else match bool? t, whole t with
    | some b, _ => some (.bool b)
    | none, .fits n => some (.integer n)
    | none, .tooLarge => none
    | none, .none =>
      match if isPaddedDigits t then none else float? t with
      | some x => some (.float x)
      | none => some (.string t)

/-- The value of a scalar with a tag. Four tags ask for a type, and a local tag, which starts with an
exclamation mark, has no meaning here. -/
def ofTagged? (tag t : Text) : Option Value :=
  if tag = "tag:yaml.org,2002:bool".toList then (bool? t).map .bool
  else if tag = "tag:yaml.org,2002:int".toList then
    match whole t with
    | .fits n => some (.integer n)
    | _ => none
  else if tag = "tag:yaml.org,2002:float".toList then (float? t).map .float
  else if tag = "tag:yaml.org,2002:null".toList then if null? t then some .null else none
  else if tag.head? == some '!' then none
  else some (.string t)

def ofScalar? (tag : Option Text) (plain : Bool) (t : Text) : Option Value :=
  match tag with
  | some tag => ofTagged? tag t
  | none => if plain then ofPlain? t else some (.string t)

/-! ## Equal values -/

/-- Whether two numbers count as one key: all undefined numbers do, and the two zeros. -/
def sameFloat (x y : Decimal.Binary64) : Bool :=
  x == y || (x.isNan && y.isNan) || (x.magnitude == 0 && y.magnitude == 0)

mutual

/-- Whether two values are equal. The order of the pairs of a mapping does not matter. -/
def same : Value → Value → Bool
  | null, null => true
  | bool a, bool b => a == b
  | integer a, integer b => a == b
  | float a, float b => sameFloat a b
  | string a, string b => a == b
  | sequence as, sequence bs => sameItems as bs
  | mapping ps, mapping qs => ps.length == qs.length && samePairs ps qs
  | _, _ => false

def sameItems : List Value → List Value → Bool
  | [], [] => true
  | a :: as, b :: bs => same a b && sameItems as bs
  | _, _ => false

def samePairs : List (Value × Value) → List (Value × Value) → Bool
  | [], _ => true
  | (k, v) :: ps, qs => qs.any (fun q => same k q.1 && same v q.2) && samePairs ps qs

end

/-- Whether two pairs have one key. -/
def hasTwin : List (Value × Value) → Bool
  | [] => false
  | (k, _) :: ps => ps.any (fun p => same k p.1) || hasTwin ps

end Value

namespace Tree

def isLocal (tag : Option Text) : Bool := tag.any fun t => t.head? == some '!'

mutual

/-- The value of a tree. The keys of a mapping must differ. -/
def value? : Tree → Option Value
  | scalar tag plain t => Value.ofScalar? tag plain t
  | sequence tag items =>
    if isLocal tag then none else (itemValues? items).map .sequence
  | mapping tag pairs =>
    if isLocal tag then none
    else do
      let pairs ← pairValues? pairs
      if Value.hasTwin pairs then none else some (.mapping pairs)

def itemValues? : List Tree → Option (List Value)
  | [] => some []
  | t :: ts => do
    let v ← t.value?
    some (v :: (← itemValues? ts))

def pairValues? : List (Tree × Tree) → Option (List (Value × Value))
  | [] => some []
  | (k, v) :: ps => do
    let k ← k.value?
    let v ← v.value?
    some ((k, v) :: (← pairValues? ps))

end

/-- The text of a scalar, whatever its tag is. -/
def text? : Tree → Option Text
  | scalar _ _ t => some t
  | _ => none

/-- A value without parts as JSON; numbers that are not finite become null. -/
def scalarJson : Value → Json
  | .bool b => .bool b
  | .integer n => .integer n
  | .float x => if x.isInfinite || x.isNan then .null else .float x
  | .string t => .string t
  | _ => .null

mutual

/-- A tree as JSON. The keys of a mapping are the texts of scalars, and the last pair with a key counts. -/
def json? : Tree → Option Json
  | scalar tag plain t => (Value.ofScalar? tag plain t).map scalarJson
  | sequence tag items => if isLocal tag then none else (itemJson? items).map .array
  | mapping tag pairs => if isLocal tag then none else (pairJson? pairs).map Json.ofMembers

def itemJson? : List Tree → Option (List Json)
  | [] => some []
  | t :: ts => do
    let j ← t.json?
    some (j :: (← itemJson? ts))

def pairJson? : List (Tree × Tree) → Option (List (Text × Json))
  | [] => some []
  | (k, v) :: ps => do
    let k ← k.text?
    let v ← v.json?
    some ((k, v) :: (← pairJson? ps))

end

end Tree

end StaticSite.Yaml
