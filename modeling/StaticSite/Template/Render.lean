import StaticSite.Template.Filter

/-!
# Rendering templates

The text of a template in a context of named values. Texts that come from variables, literals and filters
are escaped, unless the last filter declares them safe. Rendering fails on a variable that is not there.
-/
namespace StaticSite.Template

/-- The names that are known: those of the loops around, innermost first, and those of the context. -/
structure Scope where
  loops : List (List (Text × Json))
  context : List (Text × Json)

namespace Scope

def find? (name : Text) (s : Scope) : Option Json :=
  (s.loops.findSome? (List.lookup name)).or (s.context.lookup name)

/-- Gives a name a value, in the innermost loop. -/
def set (name : Text) (value : Json) (s : Scope) : Scope :=
  match s.loops with
  | [] => { s with context := (name, value) :: s.context }
  | frame :: frames => { s with loops := ((name, value) :: frame) :: frames }

def setGlobal (name : Text) (value : Json) (s : Scope) : Scope :=
  { s with context := (name, value) :: s.context }

end Scope

/-! ## Expressions -/

/-- The expression under its filters. -/
def Expr.unfiltered : Expr → Expr
  | .filter e _ _ => e.unfiltered
  | e => e

def Expr.isSafe : Expr → Bool
  | .filter _ name _ => name = "safe".toList
  | _ => false

def Expr.isVariable : Expr → Bool
  | .variable _ => true
  | .member _ _ => true
  | .index _ _ => true
  | _ => false

/-- Whether text that an expression gives is escaped. -/
def Expr.isEscaped : Expr → Bool
  | .literal _ => true
  | .filter e name _ => if name = "safe".toList || name = "default".toList then e.isEscaped else true
  | e => e.isVariable

/-- A member of a value by name or by position. -/
def memberOf? (value : Json) (name : Text) : Option Json :=
  match value with
  | .object members => members.lookup name
  | .array items => if name.all Text.isAsciiDigit then items[Text.digitsValue name]? else none
  | _ => none

/-- The value of a function: a range of numbers. -/
def function? (name : Text) (arguments : List (Text × Json)) : Option Json :=
  if name = "range".toList then do
    let start ← Filter.countArgument "start" 0 arguments
    let step ← Filter.countArgument "step_by" 1 arguments
    match arguments.lookup "end".toList with
    | some (.integer stop) =>
      if stop < start || step = 0 then none
      else some (.array (((List.range stop.toNat).filter fun n =>
        start ≤ n && (n - start) % step == 0).map fun (n : Nat) => .integer n))
    | _ => none
  else none

/-- The text with escaped characters where that is asked for. -/
def escaped (escape : Bool) (e : Expr) (value : Json) : Json :=
  match value with
  | .string t => if escape && e.isEscaped && !e.isSafe then .string (Text.escape t) else .string t
  | value => value

/-- Whether an expression holds as a condition, given its value. A variable that is not there does not
hold. -/
def holds? (e : Expr) (value : Option Json) : Option Bool :=
  match value with
  | some v => some (isTruthy v)
  | none => if e.unfiltered.isVariable then some false else none

mutual

/-- The value of an expression, with text escaped on request. -/
def eval? (s : Scope) (escape : Bool) : Expr → Option Json
  | .literal v => some (escaped escape (.literal v) v)
  | .variable name => (s.find? name).map (escaped escape (.variable name))
  | .member e name => do
    let v ← memberOf? (← eval? s false e) name
    some (escaped escape (.member e name) v)
  | .index e key => do
    let key ← eval? s false key
    let v ← memberOf? (← eval? s false e) (valueText key)
    some (escaped escape (.index e e) v)
  | .list items => (evalAll? s escape items).map .array
  | .concat parts => do
    let values ← evalAll? s false parts
    let texts ← values.mapM fun
      | .string t => some t
      | .integer n => some (Text.ofInt n)
      | .float x => some (Decimal.finiteText x)
      | _ => none
    some (.string texts.flatten)
  | .call name arguments => do function? name (← evalArguments? s arguments)
  | .math op left right => do
    let l ← eval? s false left
    let r ← eval? s false right
    if (Number.toFloat l).isNone || (Number.toFloat r).isNone then none
    else if op = .modulo && Number.isZero r then none
    else some ((Number.calculate op l r).getD (.string "NaN".toList))
  | .compare op left right => do
    let numeric := match op with
      | .equal => false
      | .different => false
      | _ => true
    let l ← eval? s (escape && !numeric) left
    let r ← eval? s (escape && !numeric) right
    if numeric then
      let x ← Number.toFloat l
      let y ← Number.toFloat r
      some (.bool (match op with
        | .less => Number.below x y
        | .lessOrEqual => !Number.below y x
        | .greater => Number.below y x
        | _ => !Number.below x y))
    else match Number.toFloat l, Number.toFloat r with
      | some x, some y => some (.bool (equal (.float x) (.float y) == (op = .equal)))
      | none, none => some (.bool (equal l r == (op = .equal)))
      | _, _ => some (.bool false)
  | .both left right => do
    if ← holds? left (eval? s escape left) then (holds? right (eval? s escape right)).map .bool
    else some (.bool false)
  | .either left right => do
    if ← holds? left (eval? s escape left) then some (.bool true)
    else (holds? right (eval? s escape right)).map .bool
  | .not e =>
    match eval? s escape e with
    | some v => some (.bool (!isTruthy v))
    | none => if e.unfiltered.isVariable then some (.bool true) else none
  | .within item container => do
    let item ← eval? s false item
    match ← eval? s false container with
    | .array items => some (.bool (items.any (equal item)))
    | .string t => match item with
      | .string part => some (.bool (Text.hasPart part t))
      | _ => none
    | .object members => match item with
      | .string name => some (.bool (members.any (·.1 == name)))
      | _ => none
    | _ => none
  | .test subject name arguments => do
    let arguments ← evalAll? s false arguments
    (passes? name (eval? s false subject) arguments).map .bool
  | .filter e name arguments =>
    if name = "safe".toList then eval? s false e
    else if name = "default".toList then
      match if e.isVariable then eval? s false e else none with
      | some .null => do (← evalArguments? s arguments).lookup "value".toList
      | some v => some (escaped escape e v)
      | none =>
        if e.isVariable then do (← evalArguments? s arguments).lookup "value".toList
        else eval? s escape e
    else do
      let v ← Filter.result? name (← eval? s false e) (← evalArguments? s arguments)
      some (escaped escape (.filter e name []) v)

def evalAll? (s : Scope) (escape : Bool) : List Expr → Option (List Json)
  | [] => some []
  | e :: es => do
    let v ← eval? s escape e
    some (v :: (← evalAll? s escape es))

def evalArguments? (s : Scope) : List (Text × Expr) → Option (List (Text × Json))
  | [] => some []
  | (name, e) :: es => do
    let v ← eval? s false e
    some ((name, v) :: (← evalArguments? s es))

end

/-! ## Parts -/

/-- How the rendering of some parts ended. -/
inductive Exit where
  | done
  | leave
  | next
deriving DecidableEq

/-- The items that a loop goes over: keys, if there are any, and values. -/
def loopItems? (value : Json) : Option (List (Option Text × Json)) :=
  match value with
  | .array items => some (items.map fun v => (none, v))
  | .object members => some (members.map fun (k, v) => (some k, v))
  | .string t => some (t.map fun c => (none, .string [c]))
  | _ => none

/-- The names that a loop gives in one round. -/
def loopFrame? (key : Option Text) (value : Text) (position count : Nat) (item : Option Text × Json) :
    Option (List (Text × Json)) :=
  let loop : Text × Json := ("loop".toList, .ofMembers
    [("index".toList, .integer (position + 1)), ("index0".toList, .integer position),
     ("first".toList, .bool (position == 0)), ("last".toList, .bool (position + 1 == count))])
  match key, item with
  | some key, (some k, v) => some [(value, v), (key, .string k), loop]
  | none, (none, v) => some [(value, v), loop]
  | _, _ => none

mutual

def renderPart? (s : Scope) : Part → Option (Text × Scope × Exit)
  | .text t => some (t, s, .done)
  | .output e => do
    let v ← eval? s true e
    some (valueText v, s, .done)
  | .choice branches otherwise => do
    match ← renderBranches? s branches with
    | some found => some found
    | none => renderParts? s otherwise
  | .loop key value items body otherwise => do
    let items ← loopItems? (← eval? s false items)
    if items.isEmpty then renderParts? s otherwise
    else
      let outer := s.loops
      let round (state : Option (Text × Scope × Bool)) (entry : (Option Text × Json) × Nat) :
          Option (Text × Scope × Bool) := do
        let (out, s, ended) ← state
        if ended then some (out, s, ended)
        else
          let frame ← loopFrame? key value entry.2 items.length entry.1
          let (t, s, exit) ← renderParts? { s with loops := frame :: outer } body
          some (out ++ t, s, exit == .leave)
      let (t, s, _) ← items.zipIdx.foldl round (some ([], s, false))
      some (t, { s with loops := outer }, .done)
  | .set everywhere name e => do
    let v ← eval? s false e
    some ([], if everywhere then s.setGlobal name v else s.set name v, .done)
  | .filtered name arguments body => do
    let (t, s, exit) ← renderParts? s body
    let arguments ← evalArguments? s arguments
    let v ← if name = "safe".toList then some (.string t) else Filter.result? name (.string t) arguments
    some (valueText v, s, exit)
  | .block body => renderParts? s body
  | .insertion optional => if optional then some ([], s, .done) else none
  | .leave => some ([], s, .leave)
  | .next => some ([], s, .next)

def renderParts? (s : Scope) : List Part → Option (Text × Scope × Exit)
  | [] => some ([], s, .done)
  | part :: parts => do
    let (t, s, exit) ← renderPart? s part
    if exit = .done then
      let (more, s, exit) ← renderParts? s parts
      some (t ++ more, s, exit)
    else some (t, s, exit)

/-- Renders the first branch whose condition holds, if there is one. -/
def renderBranches? (s : Scope) : List (Expr × List Part) → Option (Option (Text × Scope × Exit))
  | [] => some none
  | (e, body) :: branches => do
    if ← holds? e (eval? s true e) then (renderParts? s body).map some
    else renderBranches? s branches

end

/-- The text of a template in a context. -/
def render? (template : Template) (context : List (Text × Json)) : Option Text :=
  (renderParts? ⟨[], context⟩ template).map fun (t, _, _) => t

end StaticSite.Template
