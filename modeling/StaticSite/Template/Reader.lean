import StaticSite.Decimal.Numeral
import StaticSite.Template.Basic

/-!
# Reading templates

From the text of a template to its parts. Readers give what they have read and the rest of the text; the
first alternative that fits counts.
-/
namespace StaticSite.Template

/-- White space between the words of a tag. -/
def isGap (c : Char) : Bool := c == ' ' || c == '\t' || c == '\r' || c == '\n'

def skipGap (t : Text) : Text := t.dropWhile isGap

/-- What follows a sign, after white space. -/
def sign? (s : Text) (t : Text) : Option Text := Text.after? s (skipGap t)

def isNameStart (c : Char) : Bool := Text.isAsciiLetter c || c == '_'

def isNameChar (c : Char) : Bool := Text.isAsciiAlphanumeric c || c == '_'

/-- Reads a name. -/
def name? (t : Text) : Option (Text × Text) :=
  let t := skipGap t
  let name := t.takeWhile isNameChar
  if name.head?.any isNameStart then some (name, t.drop name.length) else none

/-- What follows a word that white space comes after. -/
def word? (w : Text) (t : Text) : Option Text := do
  let rest ← sign? w t
  if rest.head?.any isGap then some (skipGap rest) else none

/-! ## Literals -/

def quoted? (t : Text) : Option (Text × Text) :=
  match skipGap t with
  | [] => none
  | quote :: rest =>
    if quote == '"' || quote == '\'' || quote == '\x60' then
      let inside := rest.takeWhile (· != quote)
      match rest.drop inside.length with
      | [] => none
      | _ :: rest => some (inside, rest)
    else none

/-- Goes over names of templates between brackets, after the opening one. A comma may follow the last. -/
def listedNames? : Nat → Text → Option Text
  | 0, _ => none
  | fuel + 1, t =>
    match sign? [']'] t with
    | some rest => some rest
    | none => do
      let (_, rest) ← quoted? t
      match sign? [','] rest with
      | some more => listedNames? fuel more
      | none => sign? [']'] rest

/-- Goes over the name of a template, or names between brackets. -/
def templateNames? (t : Text) : Option Text :=
  match sign? ['['] t with
  | some rest => listedNames? (rest.length + 1) rest
  | none => (quoted? t).map (·.2)

/-- The value of digits before and after a point. -/
def decimalValue (negative : Bool) (whole fraction : Text) : Json :=
  .float (Decimal.Binary64.ofDecimal negative (Text.digitsValue (whole ++ fraction))
    (-(fraction.length : Int)))

/-- Reads a number: a whole one of at most 64 bits, or one with digits after a point. -/
def number? (t : Text) : Option (Json × Text) :=
  let t := skipGap t
  let negative := t.head? == some '-'
  let t := if negative then t.drop 1 else t
  let digits := t.takeWhile Text.isAsciiDigit
  let digits := if digits.head? == some '0' then ['0'] else digits
  if digits.isEmpty then none
  else
    let rest := t.drop digits.length
    let fraction := match rest with
      | '.' :: more => more.takeWhile Text.isAsciiDigit
      | _ => []
    if fraction.isEmpty then
      let n : Int := if negative then -(Text.digitsValue digits : Int) else Text.digitsValue digits
      if Decimal.isWord n then some (.integer n, rest) else none
    else some (decimalValue negative digits fraction, rest.drop (fraction.length + 1))

def boolean? (t : Text) : Option (Json × Text) :=
  let found (w : Text) (b : Bool) : Option (Json × Text) := (sign? w t).map fun rest => (.bool b, rest)
  (found "true" true).or <| (found "false" false).or <| (found "True" true).or (found "False" false)

/-! ## Expressions -/

def mathOperator? (t : Text) : Option (MathOperator × Text) :=
  match skipGap t with
  | '+' :: rest => some (.plus, rest)
  | '-' :: rest => if startsEnd rest then none else some (.minus, rest)
  | '*' :: rest => some (.times, rest)
  | '/' :: rest => some (.divided, rest)
  | '%' :: rest => if rest.head? == some '\x7d' then none else some (.modulo, rest)
  | _ => none
where
  /-- Whether a dash belongs to the end of a tag. -/
  startsEnd (t : Text) : Bool := Text.startsWith "%\x7d" t || Text.startsWith "\x7d\x7d" t

def comparison? (t : Text) : Option (Comparison × Text) :=
  match skipGap t with
  | '<' :: '=' :: rest => some (.lessOrEqual, rest)
  | '>' :: '=' :: rest => some (.greaterOrEqual, rest)
  | '<' :: rest => some (.less, rest)
  | '>' :: rest => some (.greater, rest)
  | '=' :: '=' :: rest => some (.equal, rest)
  | '!' :: '=' :: rest => some (.different, rest)
  | _ => none

def MathOperator.binds : MathOperator → Bool
  | .plus => false
  | .minus => false
  | _ => true

/-- Joins operands by operators from left to right, multiplication before addition. The sum so far is the
first argument, and the product under way the second. -/
def joinMath : Option (Expr × MathOperator) → Expr → List (MathOperator × Expr) → Expr
  | sum, product, [] =>
    match sum with
    | some (left, op) => .math op left product
    | none => product
  | sum, product, (op, e) :: rest =>
    if op.binds then joinMath sum (.math op product e) rest
    else
      let left := match sum with
        | some (left, before) => .math before left product
        | none => product
      joinMath (some (left, op)) e rest

/-- Joins conditions, `and` before `or`. -/
def joinLogic : Option Expr → Expr → List (Bool × Expr) → Expr
  | either, both, [] => match either with
    | some left => .either left both
    | none => both
  | either, both, (isAnd, e) :: rest =>
    if isAnd then joinLogic either (.both both e) rest
    else joinLogic (some (match either with
      | some left => .either left both
      | none => both)) e rest

mutual

/-- Reads the members after a variable. -/
def members? : Nat → Expr → Text → Option (Expr × Text)
  | 0, _, _ => none
  | fuel + 1, e, t =>
    match t with
    | '.' :: rest =>
      let name := rest.takeWhile isNameChar
      if name.isEmpty then some (e, t) else members? fuel (.member e name) (rest.drop name.length)
    | '[' :: rest =>
      let key : Option (Expr × Text) :=
        match quoted? rest with
        | some (s, rest) => some (.literal (.string s), rest)
        | none =>
          match number? rest with
          | some (.integer n, rest) => some (.literal (.integer n), rest)
          | _ => path? fuel rest
      match key with
      | some (key, ']' :: rest) => members? fuel (.index e key) rest
      | _ => some (e, t)
    | _ => some (e, t)

/-- Reads a variable with members. -/
def path? : Nat → Text → Option (Expr × Text)
  | 0, _ => none
  | fuel + 1, t => do
    let (name, rest) ← name? t
    members? fuel (.variable name) rest

/-- Reads named arguments up to the closing bracket. -/
def arguments? : Nat → Text → Option (List (Text × Expr) × Text)
  | 0, _ => none
  | fuel + 1, t =>
    match sign? [')'] t with
    | some rest => some ([], rest)
    | none => do
      let (name, rest) ← name? t
      let (e, rest) ← value? fuel (← sign? ['='] rest)
      match sign? [','] rest with
      | some rest =>
        let (more, rest) ← arguments? fuel rest
        some ((name, e) :: more, rest)
      | none => some ([(name, e)], ← sign? [')'] rest)

/-- Reads a function call. -/
def call? : Nat → Text → Option (Expr × Text)
  | 0, _ => none
  | fuel + 1, t => do
    let (name, rest) ← name? t
    let (arguments, rest) ← arguments? fuel (← sign? ['('] rest)
    some (.call name arguments, rest)

/-- Reads the arguments of a test up to the closing bracket. -/
def testArguments? : Nat → Text → Option (List Expr × Text)
  | 0, _ => none
  | fuel + 1, t => do
    let (e, rest) ← value? fuel t
    match sign? [','] rest with
    | some rest =>
      let (more, rest) ← testArguments? fuel rest
      some (e :: more, rest)
    | none => some ([e], ← sign? [')'] rest)

/-- Reads a test of a variable. -/
def test? : Nat → Text → Option (Expr × Text)
  | 0, _ => none
  | fuel + 1, t => do
    let (subject, rest) ← path? fuel t
    let rest ← word? "is" rest
    let (negated, rest) := match word? "not" rest with
      | some rest => (true, rest)
      | none => (false, rest)
    let (name, rest) ← name? rest
    let (arguments, rest) ← match sign? ['('] rest with
      | some inside => testArguments? fuel inside
      | none => some ([], rest)
    let e : Expr := .test subject name arguments
    some (if negated then .not e else e, rest)

/-- Reads an operand of a calculation. -/
def operand? : Nat → Text → Option (Expr × Text)
  | 0, _ => none
  | fuel + 1, t =>
    match sign? ['('] t with
    | some inside => do
      let (e, rest) ← math? fuel inside
      some (e, ← sign? [')'] rest)
    | none =>
      match boolean? t with
      | some (v, rest) => some (.literal v, rest)
      | none =>
        (test? fuel t).or <| (call? fuel t).or <| (path? fuel t).or <|
          (number? t).map fun (v, rest) => (.literal v, rest)

/-- Reads the operators and operands that follow an operand. -/
def operations? : Nat → Text → Option (List (MathOperator × Expr) × Text)
  | 0, _ => none
  | fuel + 1, t =>
    match mathOperator? t with
    | none => some ([], t)
    | some (op, rest) =>
      match operand? fuel rest with
      | none => some ([], t)
      | some (e, rest) => do
        let (more, rest) ← operations? fuel rest
        some ((op, e) :: more, rest)

def math? : Nat → Text → Option (Expr × Text)
  | 0, _ => none
  | fuel + 1, t => do
    let (e, rest) ← operand? fuel t
    let (more, rest) ← operations? fuel rest
    some (joinMath none e more, rest)

/-- Reads filters after an expression. -/
def filters? : Nat → Expr → Text → Option (Expr × Text)
  | 0, _, _ => none
  | fuel + 1, e, t =>
    match sign? ['|'] t with
    | none => some (e, t)
    | some rest =>
      match call? fuel rest with
      | some (.call name arguments, rest) => filters? fuel (.filter e name arguments) rest
      | _ => do
        let (name, rest) ← name? rest
        filters? fuel (.filter e name []) rest

/-- Reads a part of a text that is put together. -/
def concatPart? : Nat → Text → Option (Expr × Text)
  | 0, _ => none
  | fuel + 1, t =>
    (call? fuel t).or <| ((number? t).map fun (v, rest) => (Expr.literal v, rest)).or <|
      ((quoted? t).map fun (s, rest) => (Expr.literal (.string s), rest)).or (path? fuel t)

/-- Reads further parts of a text that is put together. -/
def concatParts? : Nat → Text → Option (List Expr × Text)
  | 0, _ => none
  | fuel + 1, t =>
    match sign? ['~'] t with
    | none => some ([], t)
    | some rest => do
      let (e, rest) ← concatPart? fuel rest
      let (more, rest) ← concatParts? fuel rest
      some (e :: more, rest)

/-- Reads a text, put together from parts or not, with its filters. -/
def textExpr? : Nat → Text → Option (Expr × Text)
  | 0, _ => none
  | fuel + 1, t =>
    let joined : Option (Expr × Text) := do
      let (e, rest) ← concatPart? fuel t
      let (more, rest) ← concatParts? fuel rest
      if more.isEmpty then none else some (.concat (e :: more), rest)
    match joined.or ((quoted? t).map fun (s, rest) => (Expr.literal (.string s), rest)) with
    | some (e, rest) => filters? fuel e rest
    | none => none

/-- Reads a calculation with filters. -/
def filteredMath? : Nat → Text → Option (Expr × Text)
  | 0, _ => none
  | fuel + 1, t => do
    let (e, rest) ← math? fuel t
    filters? fuel e rest

/-- Reads the operators and filtered operands that follow a filtered operand. -/
def filteredOperations? : Nat → Text → Option (List (MathOperator × Expr) × Text)
  | 0, _ => none
  | fuel + 1, t =>
    match mathOperator? t with
    | none => some ([], t)
    | some (op, rest) =>
      match filteredMath? fuel rest with
      | none => some ([], t)
      | some (e, rest) => do
        let (more, rest) ← filteredOperations? fuel rest
        some ((op, e) :: more, rest)

/-- Reads a side of a comparison. -/
def side? : Nat → Text → Option (Expr × Text)
  | 0, _ => none
  | fuel + 1, t =>
    (textExpr? fuel t).or do
      let (e, rest) ← filteredMath? fuel t
      let (more, rest) ← filteredOperations? fuel rest
      some (joinMath none e more, rest)

def comparisonExpr? : Nat → Text → Option (Expr × Text)
  | 0, _ => none
  | fuel + 1, t => do
    let (left, rest) ← side? fuel t
    match comparison? rest with
    | none => some (left, rest)
    | some (op, after) =>
      match side? fuel after with
      | none => some (left, rest)
      | some (right, rest) => some (.compare op left right, rest)

/-- Reads a list with its filters. -/
def listExpr? : Nat → Text → Option (Expr × Text)
  | 0, _ => none
  | fuel + 1, t => do
    let (items, rest) ← listItems? fuel (← sign? ['['] t)
    filters? fuel (.list items) rest

def listItems? : Nat → Text → Option (List Expr × Text)
  | 0, _ => none
  | fuel + 1, t =>
    match sign? [']'] t with
    | some rest => some ([], rest)
    | none => do
      let (e, rest) ← condition? fuel t
      match sign? [','] rest with
      | some rest =>
        let (more, rest) ← listItems? fuel rest
        some (e :: more, rest)
      | none => some ([e], ← sign? [']'] rest)

/-- Reads a condition that asks for an item of a container. -/
def within? : Nat → Text → Option (Expr × Text)
  | 0, _ => none
  | fuel + 1, t => do
    let (item, rest) ← (textExpr? fuel t).or (filteredMath? fuel t)
    let (negated, rest) := match word? "not" rest with
      | some rest => (true, rest)
      | none => (false, rest)
    let rest ← sign? "in" rest
    let (container, rest) ← (textExpr? fuel rest).or <| (listExpr? fuel rest).or (path? fuel rest)
    let e : Expr := .within item container
    some (if negated then .not e else e, rest)

/-- Reads a condition without `and` and `or`. -/
def condition? : Nat → Text → Option (Expr × Text)
  | 0, _ => none
  | fuel + 1, t =>
    let (negated, inside) := match word? "not" t with
      | some rest => (true, rest)
      | none => (false, t)
    match (within? fuel inside).or (comparisonExpr? fuel inside) with
    | some (e, rest) => some (if negated then .not e else e, rest)
    | none => do
      let (e, rest) ← logic? fuel (← sign? ['('] t)
      some (e, ← sign? [')'] rest)

def conditions? : Nat → Text → Option (List (Bool × Expr) × Text)
  | 0, _ => none
  | fuel + 1, t =>
    let next := ((word? "or" t).map fun rest => (false, rest)).or
      ((word? "and" t).map fun rest => (true, rest))
    match next with
    | none => some ([], t)
    | some (isAnd, rest) => do
      let (e, rest) ← condition? fuel rest
      let (more, rest) ← conditions? fuel rest
      some ((isAnd, e) :: more, rest)

/-- Reads a condition, which any expression may be. -/
def logic? : Nat → Text → Option (Expr × Text)
  | 0, _ => none
  | fuel + 1, t => do
    let (e, rest) ← condition? fuel t
    let (more, rest) ← conditions? fuel rest
    some (joinLogic none e more, rest)

/-- Reads an expression. -/
def value? : Nat → Text → Option (Expr × Text)
  | 0, _ => none
  | fuel + 1, t => (logic? fuel t).or (listExpr? fuel t)

end

/-- The depth to which the readers of a text may call each other. -/
def depth (t : Text) : Nat := 30 * t.length + 60

def expr? (t : Text) : Option (Expr × Text) := value? (depth t) t

/-! ## Tags -/

/-- What a tag says, without the parts that it holds together. -/
inductive Mark where
  | output (e : Expr)
  | comment
  | raw (t : Text)
  | ifStart (e : Expr)
  | elifStart (e : Expr)
  | elseStart
  | ifEnd
  | forStart (key : Option Text) (value : Text) (items : Expr)
  | forEnd
  | set (everywhere : Bool) (name : Text) (e : Expr)
  | filterStart (name : Text) (arguments : List (Text × Expr))
  | filterEnd
  | blockStart (name : Text)
  | blockEnd
  | insertion (optional : Bool)
  | leave
  | next

/-- A piece of the text of a template. -/
inductive Piece where
  | text (t : Text)
  /-- A mark, and whether it takes away the white space before and after it. -/
  | mark (before after : Bool) (m : Mark)

/-- Reads the end of a tag: whether it takes away white space, and what follows. -/
def end? (close : Text) (t : Text) : Option (Bool × Text) :=
  match sign? ('-' :: close) t with
  | some rest => some (true, rest)
  | none => (sign? close t).map fun rest => (false, rest)

def openTag : Text := "\x7b%"
def closeTag : Text := "%\x7d"

/-- Reads the opening of a tag with a word in it. -/
def tagWord? (w : Text) (t : Text) : Option (Bool × Text) := do
  let rest ← Text.after? openTag t
  match Text.after? ['-'] rest with
  | some rest => (sign? w rest).map fun rest => (true, rest)
  | none => (sign? w rest).map fun rest => (false, rest)

/-- Reads a tag that consists of a word alone, or a word and a name that may follow it. -/
def plainTag? (w : Text) (named : Bool) (t : Text) : Option (Bool × Bool × Text) := do
  let (before, rest) ← tagWord? w t
  let rest := if named then ((name? rest).map (·.2)).getD rest else rest
  let (after, rest) ← end? closeTag rest
  some (before, after, rest)

/-- Finds the end of a raw part: its text, and the tag that ends it. -/
def rawEnd? : Text → Option (Text × Bool × Bool × Text)
  | [] => none
  | c :: rest =>
    match plainTag? "endraw" false (c :: rest) with
    | some found => some ([], found)
    | none => (rawEnd? rest).map fun (inside, found) => (c :: inside, found)

def raw? (t : Text) : Option (Piece × Text) := do
  let (before, trimStart, rest) ← plainTag? "raw" false t
  let (inside, trimEnd, after, rest) ← rawEnd? rest
  let inside := if trimStart then Text.trimStart inside else inside
  let inside := if trimEnd then Text.trimEnd inside else inside
  some (.mark before after (.raw inside), rest)

def comment? (t : Text) : Option (Piece × Text) := do
  let rest ← Text.after? "\x7b#" t
  let (before, rest) := match rest with
    | '-' :: rest => (true, rest)
    | _ => (false, rest)
  let (inside, rest) ← Text.cut? "#\x7d" rest
  some (.mark before (inside.getLast? == some '-') .comment, rest)

def output? (t : Text) : Option (Piece × Text) := do
  let rest ← Text.after? "\x7b\x7b" t
  let (before, rest) := match rest with
    | '-' :: rest => (true, rest)
    | _ => (false, rest)
  let (e, rest) ← expr? rest
  let (after, rest) ← end? "\x7d\x7d" rest
  some (.mark before after (.output e), rest)

/-- Reads the inside of a tag after its first word. -/
def inside? (w : Text) (t : Text) : Option (Mark × Text) :=
  match String.ofList w with
  | "if" => (expr? t).map fun (e, rest) => (.ifStart e, rest)
  | "elif" => (expr? t).map fun (e, rest) => (.elifStart e, rest)
  | "else" => some (.elseStart, t)
  | "endif" => some (.ifEnd, t)
  | "for" => do
    let (first, rest) ← name? t
    let (key, value, rest) ← match sign? [','] rest with
      | some rest => do
        let (second, rest) ← name? rest
        some (some first, second, rest)
      | none => some (none, first, rest)
    let rest ← sign? "in" rest
    let (items, rest) ← (textExpr? (depth rest) rest).or <|
      (filteredMath? (depth rest) rest).or (listExpr? (depth rest) rest)
    some (.forStart key value items, rest)
  | "endfor" => some (.forEnd, t)
  | "set" => assignment false t
  | "set_global" => assignment true t
  | "filter" =>
    match call? (depth t) t with
    | some (.call name arguments, rest) => some (.filterStart name arguments, rest)
    | _ => (name? t).map fun (name, rest) => (.filterStart name [], rest)
  | "endfilter" => some (.filterEnd, t)
  | "block" => (name? t).map fun (name, rest) => (.blockStart name, rest)
  | "endblock" => some (.blockEnd, ((name? t).map (·.2)).getD t)
  | "include" => do
    let rest ← templateNames? t
    match word? "ignore" rest with
    | some more => (sign? "missing" more).map fun rest => (.insertion true, rest)
    | none => some (.insertion false, rest)
  | "break" => some (.leave, t)
  | "continue" => some (.next, t)
  | _ => none
where
  assignment (everywhere : Bool) (t : Text) : Option (Mark × Text) := do
    let (name, rest) ← name? t
    let (e, rest) ← expr? (← sign? ['='] rest)
    some (.set everywhere name e, rest)

def tag? (t : Text) : Option (Piece × Text) := do
  let rest ← Text.after? openTag t
  let (before, rest) := match rest with
    | '-' :: rest => (true, rest)
    | _ => (false, rest)
  let (w, rest) ← name? rest
  let (m, rest) ← inside? w rest
  let (after, rest) ← end? closeTag rest
  some (.mark before after m, rest)

def mark? (t : Text) : Option (Piece × Text) :=
  (comment? t).or <| (raw? t).or <| (output? t).or (tag? t)

/-- Whether a mark must start here. -/
def startsMark : Text → Bool
  | '\x7b' :: c :: _ => c == '\x7b' || c == '%' || c == '#'
  | _ => false

/-- Cuts a template into pieces, given the text since the last mark backwards. -/
def piecesFrom? : Nat → Text → Text → Option (List Piece)
  | 0, _, _ => none
  | _ + 1, pending, [] => some [.text pending.reverse]
  | fuel + 1, pending, c :: rest =>
    if startsMark (c :: rest) then do
      let (piece, rest) ← mark? (c :: rest)
      some (.text pending.reverse :: piece :: (← piecesFrom? fuel [] rest))
    else piecesFrom? fuel (c :: pending) rest

/-- Takes white space away from texts next to marks that ask for it. The first argument tells whether the
mark before did. -/
def trimPieces : Bool → List Piece → List Piece
  | _, [] => []
  | left, .text t :: rest =>
    let right := match rest with
      | .mark before _ _ :: _ => before
      | _ => false
    let t := if left then Text.trimStart t else t
    .text (if right then Text.trimEnd t else t) :: trimPieces false rest
  | _, .mark before after m :: rest => .mark before after m :: trimPieces after rest

/-! ## Structure -/

/-- What ends a list of parts. -/
inductive Ending where
  | whole
  | elif (e : Expr)
  | otherwise
  | ifEnd
  | forEnd
  | filterEnd
  | blockEnd

mutual

/-- Reads parts up to what ends them. -/
def parts? : Nat → List Piece → Option (List Part × Ending × List Piece)
  | 0, _ => none
  | _ + 1, [] => some ([], .whole, [])
  | fuel + 1, .text t :: rest => do
    let (parts, ending, rest) ← parts? fuel rest
    some (if t.isEmpty then parts else .text t :: parts, ending, rest)
  | fuel + 1, .mark _ _ m :: rest =>
    let single (part : Part) : Option (List Part × Ending × List Piece) := do
      let (parts, ending, rest) ← parts? fuel rest
      some (part :: parts, ending, rest)
    match m with
    | .output e => single (.output e)
    | .comment => parts? fuel rest
    | .raw t => single (.text t)
    | .set everywhere name e => single (.set everywhere name e)
    | .insertion optional => single (.insertion optional)
    | .leave => single .leave
    | .next => single .next
    | .ifStart e => do
      let (choice, rest) ← choice? fuel [] e rest
      let (parts, ending, rest) ← parts? fuel rest
      some (choice :: parts, ending, rest)
    | .forStart key value items => do
      let (body, ending, rest) ← parts? fuel rest
      let (otherwise, rest) ← match ending with
        | .forEnd => some ([], rest)
        | .otherwise =>
          match parts? fuel rest with
          | some (parts, .forEnd, rest) => some (parts, rest)
          | _ => none
        | _ => none
      let (parts, ending, rest) ← parts? fuel rest
      some (.loop key value items body otherwise :: parts, ending, rest)
    | .filterStart name arguments =>
      match parts? fuel rest with
      | some (body, .filterEnd, rest) => do
        let (parts, ending, rest) ← parts? fuel rest
        some (.filtered name arguments body :: parts, ending, rest)
      | _ => none
    | .blockStart _ =>
      match parts? fuel rest with
      | some (body, .blockEnd, rest) => do
        let (parts, ending, rest) ← parts? fuel rest
        some (.block body :: parts, ending, rest)
      | _ => none
    | .elifStart e => some ([], .elif e, rest)
    | .elseStart => some ([], .otherwise, rest)
    | .ifEnd => some ([], .ifEnd, rest)
    | .forEnd => some ([], .forEnd, rest)
    | .filterEnd => some ([], .filterEnd, rest)
    | .blockEnd => some ([], .blockEnd, rest)

/-- Reads the branches of a choice, given those so far and the condition of the next. -/
def choice? : Nat → List (Expr × List Part) → Expr → List Piece → Option (Part × List Piece)
  | 0, _, _, _ => none
  | fuel + 1, branches, e, rest => do
    let (body, ending, rest) ← parts? fuel rest
    let branches := branches ++ [(e, body)]
    match ending with
    | .ifEnd => some (.choice branches [], rest)
    | .elif e => choice? fuel branches e rest
    | .otherwise =>
      match parts? fuel rest with
      | some (parts, .ifEnd, rest) => some (.choice branches parts, rest)
      | _ => none
    | _ => none

end

/-- Reads a template. -/
def ofText? (t : Text) : Option Template := do
  let pieces ← piecesFrom? (t.length + 1) [] t
  match parts? (2 * pieces.length + 2) (trimPieces false pieces) with
  | some (parts, .whole, _) => some parts
  | _ => none

end StaticSite.Template
