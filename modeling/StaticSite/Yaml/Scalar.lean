import StaticSite.Yaml.Cursor

/-!
# YAML scalars

The five ways to write a scalar: plain, in single or double quotes, and as a literal or folded block. All
but the literal block fold lines: a single line break between two lines becomes a space.
-/
namespace StaticSite.Yaml.Scalar

/-- What separates two parts of a scalar: spaces, or line breaks with spaces around them. -/
structure Gap where
  spaces : Text
  broken : Bool
  /-- The first line break; an escaped one has no text. -/
  first : Text
  /-- The breaks of the empty lines after it. -/
  more : Text

namespace Gap

def empty : Gap := ⟨[], false, [], []⟩

/-- A gap that starts with an escaped line break. -/
def escaped : Gap := ⟨[], true, [], []⟩

/-- The text that a gap stands for. -/
def folded (g : Gap) : Text :=
  if !g.broken then g.spaces
  else if g.first = ['\n'] then if g.more.isEmpty then [' '] else g.more
  else g.first ++ g.more

/-- Reads a gap to its end. In front of the text of a line, tabs may not stand before a column. -/
def read? (column : Nat) : Nat → Gap → Cursor → Option (Gap × Cursor)
  | 0, g, c => some (g, c)
  | fuel + 1, g, c =>
    match c.rest with
    | [] => some (g, c)
    | ch :: _ =>
      if isSpace ch then
        if !g.broken then read? column fuel { g with spaces := g.spaces ++ [ch] } (c.skip 1)
        else if ch == '\t' && c.column < column then none
        else read? column fuel g (c.skip 1)
      else if isBreak ch then
        let (text, next) := c.takeBreak
        if g.broken then read? column fuel { g with more := g.more ++ text } next
        else read? column fuel ⟨[], true, text, []⟩ next
      else some (g, c)

end Gap

/-! ## Plain scalars -/

def isFlowIndicator (c : Char) : Bool :=
  c == ',' || c == '[' || c == ']' || c == '\x7b' || c == '\x7d'

/-- Reads characters of a plain scalar up to a gap or to what ends the scalar. Inside brackets a colon may
not stand directly before an indicator. -/
def plainRun? (flow : Bool) : Text → Option Text
  | [] => some []
  | c :: rest =>
    if isSpace c || isBreak c then some []
    else if flow && c == ':' && rest.head?.any (fun n => isFlowIndicator n || n == '?') then none
    else if (c == ':' && atGap rest) || (flow && isFlowIndicator c) then some []
    else (plainRun? flow rest).map (c :: ·)

/-- A scalar that has been read, where it ends, and whether line breaks follow it. -/
structure Plain where
  text : Text
  next : Cursor
  broken : Bool

/-- Reads on in a plain scalar after a gap. Outside brackets its lines are indented at least to a column. -/
def plainFrom? (flow : Bool) (column : Nat) : Nat → Text → Gap → Cursor → Option Plain
  | 0, _, _, _ => none
  | fuel + 1, text, gap, c => do
    let stop : Plain := ⟨text, c, gap.broken⟩
    if c.atDocumentStart || c.atDocumentEnd || c.rest.head? == some '#' then stop
    else
      let run ← plainRun? flow c.rest
      let (text, gap) := if run.isEmpty then (text, gap) else (text ++ gap.folded ++ run, Gap.empty)
      let c := c.skip run.length
      if atGap c.rest && !c.rest.isEmpty then
        let (gap, next) ← Gap.read? column c.rest.length gap c
        if !flow && next.column < column then some ⟨text, next, gap.broken⟩
        else plainFrom? flow column fuel text gap next
      else some ⟨text, c, gap.broken⟩

def plain? (flow : Bool) (column : Nat) (c : Cursor) : Option Plain :=
  plainFrom? flow column (c.rest.length + 1) [] .empty c

/-! ## Quoted scalars -/

/-- The character that a backslash and a letter stand for. -/
def escape? (c : Char) : Option Char :=
  match c with
  | '0' => some '\x00'
  | 'a' => some '\x07'
  | 'b' => some '\x08'
  | 't' => some '\t'
  | '\t' => some '\t'
  | 'n' => some '\n'
  | 'v' => some '\x0b'
  | 'f' => some '\x0c'
  | 'r' => some '\r'
  | 'e' => some '\x1b'
  | ' ' => some ' '
  | '"' => some '"'
  | '/' => some '/'
  | '\\' => some '\\'
  | 'N' => some '\u0085'
  | '_' => some '\u00a0'
  | 'L' => some '\u2028'
  | 'P' => some '\u2029'
  | _ => none

/-- How many hexadecimal digits follow a letter that gives a character by its number. -/
def escapeDigits? (c : Char) : Option Nat :=
  match c with
  | 'x' => some 2
  | 'u' => some 4
  | 'U' => some 8
  | _ => none

def hexNumber? (t : Text) : Option Nat :=
  t.foldl (fun n c => do some (16 * (← n) + (← Text.hexValue? c))) (some 0)

def charOfNumber? (n : Nat) : Option Char :=
  if n.isValidChar then some (Char.ofNat n) else none

/-- Reads an escape after its backslash: the character, and how many characters were read. -/
def escaped? : Text → Option (Char × Nat)
  | [] => none
  | c :: rest =>
    match escapeDigits? c with
    | some n =>
      let digits := rest.take n
      if digits.length = n then do some (← charOfNumber? (← hexNumber? digits), n + 1) else none
    | none => (escape? c).map fun ch => (ch, 1)

/-- Reads a quoted scalar after its opening quote. -/
def quotedFrom? (quote : Char) : Nat → Text → Cursor → Option (Text × Cursor)
  | 0, _, _ => none
  | fuel + 1, text, c =>
    if c.atDocumentStart || c.atDocumentEnd then none
    else match c.rest with
      | [] => none
      | ch :: rest =>
        if isSpace ch || isBreak ch then do
          let (gap, next) ← Gap.read? 0 c.rest.length .empty c
          quotedFrom? quote fuel (text ++ gap.folded) next
        else if ch == quote then
          if quote == '\'' && rest.head? == some '\'' then
            quotedFrom? quote fuel (text ++ ['\'']) (c.skip 2)
          else some (text, c.skip 1)
        else if ch == '\\' && quote == '"' then
          if atLineEnd rest && !rest.isEmpty then do
            let (gap, next) ← Gap.read? 0 rest.length .escaped (c.skip 1).skipBreak
            quotedFrom? quote fuel (text ++ gap.folded) next
          else do
            let (found, n) ← escaped? rest
            quotedFrom? quote fuel (text ++ [found]) (c.skip (n + 1))
        else quotedFrom? quote fuel (text ++ [ch]) (c.skip 1)

def quoted? (c : Cursor) : Option (Text × Cursor) := do
  quotedFrom? (← c.rest.head?) (c.rest.length + 1) [] (c.skip 1)

/-! ## Block scalars -/

/-- What becomes of the line breaks at the end of a block. -/
inductive Chomping where
  | strip
  | clip
  | keep

structure Header where
  chomping : Chomping
  /-- The indentation that is given in the header. -/
  indent : Option Nat

def chomping? (c : Char) : Option Chomping :=
  if c == '+' then some .keep else if c == '-' then some .strip else none

/-- Reads an indentation digit, which is not zero, when there is a digit. -/
def indentDigit? (c : Cursor) : Option (Option Nat × Cursor) :=
  match c.rest with
  | '0' :: _ => none
  | ch :: _ =>
    if Text.isAsciiDigit ch then some (some (ch.val.toNat - 48), c.skip 1) else some (none, c)
  | [] => some (none, c)

/-- Reads the two parts of a header, which may come in either order. -/
def header? (c : Cursor) : Option (Header × Cursor) :=
  match c.rest.head?.bind chomping? with
  | some chomping => do
    let (indent, c) ← indentDigit? (c.skip 1)
    some (⟨chomping, indent⟩, c)
  | none => do
    let (indent, c) ← indentDigit? c
    match indent, c.rest.head?.bind chomping? with
    | some n, some chomping => some (⟨chomping, some n⟩, c.skip 1)
    | indent, _ => some (⟨.clip, indent⟩, c)

/-- Reads indentation and empty lines: their line breaks, and the largest column that was reached. Without
an indentation all leading spaces are read. No tab may stand in the indentation. -/
def emptyLines? (indent : Option Nat) : Nat → Text → Nat → Cursor → Option (Text × Nat × Cursor)
  | 0, _, _, _ => none
  | fuel + 1, breaks, widest, c =>
    let spaces := (c.rest.takeWhile (· == ' ')).length
    let c := c.skip (match indent with
      | none => spaces
      | some n => min spaces (n - c.column))
    let widest := max widest c.column
    if c.rest.head? == some '\t' && indent.all (c.column < ·) then none
    else if c.rest.head?.any isBreak then
      let (text, next) := c.takeBreak
      emptyLines? indent fuel (breaks ++ text) widest next
    else some (breaks, widest, c)

/-- A block under way: its text, the break of the last line, the breaks of the empty lines after it, and
whether the last line starts with a space. -/
structure Block where
  text : Text
  last : Text
  empty : Text
  spaced : Bool

/-- The text so far, as it stands before another line. -/
def Block.joined (literal spaced : Bool) (b : Block) : Text :=
  if !literal && b.last = ['\n'] && !b.spaced && !spaced then
    b.text ++ (if b.empty.isEmpty then [' '] else b.empty)
  else b.text ++ b.last ++ b.empty

/-- Reads the lines of a block that have its indentation. -/
def blockLines? (literal : Bool) (indent : Nat) : Nat → Block → Cursor → Option (Block × Cursor)
  | 0, _, _ => none
  | fuel + 1, b, c =>
    if c.column == indent && !c.rest.isEmpty then do
      let spaced := c.rest.head?.any isSpace
      let line := c.rest.takeWhile fun ch => !isBreak ch
      let (last, next) := (c.skip line.length).takeBreak
      let (empty, _, next) ← emptyLines? (some indent) (next.rest.length + 1) [] 0 next
      blockLines? literal indent fuel ⟨b.joined literal spaced ++ line, last, empty, spaced⟩ next
    else some (b, c)

def Block.chomped (chomping : Chomping) (b : Block) : Text :=
  match chomping with
  | .strip => b.text
  | .clip => b.text ++ b.last
  | .keep => b.text ++ b.last ++ b.empty

/-- Reads a block scalar from its indicator on. Its lines are indented at least to a column. -/
def block? (column : Nat) (c : Cursor) : Option (Text × Cursor) := do
  let literal := c.rest.head? == some '|'
  let (header, c) ← header? (c.skip 1)
  let c ← c.skipLineRest?
  let given := header.indent.map fun n => column - 1 + n
  let (empty, widest, c) ← emptyLines? given (c.rest.length + 1) [] 0 c
  let indent := given.getD (max widest (max column 1))
  let (b, c) ← blockLines? literal indent (c.rest.length + 1) ⟨[], [], empty, false⟩ c
  some (b.chomped header.chomping, c)

end StaticSite.Yaml.Scalar
