import StaticSite.Markdown.Link
import StaticSite.Markdown.Tag

/-!
# Blocks

Reads the lines of a Markdown text into blocks. The open containers form a stack, innermost first; each
line first continues as many of them as it can, may then open new ones, and the rest of it starts a
block, which may take further lines. Inline content is left as text, because link definitions anywhere
in the text may matter to it.
-/
namespace StaticSite.Markdown

inductive Block where
  | paragraph (task : Option Bool) (source : Text)
  | heading (level : Nat) (task : Option Bool) (source : Text)
  | quote (children : List Block)
  | list (ordered tight : Bool) (items : List Block)
  | item (children : List Block)
  /-- The task marker of an item without a first paragraph. -/
  | task (checked : Bool)
  | code (info body : Text)
  /-- The lines of raw HTML, each with the indentation that is not part of it. -/
  | html (lines : List (Text × Text))
  | table (head : List Text) (rows : List (List Text))
  | rule

/-! ## Recognisers for the start of a line -/

/-- A line of at least three equal marks with white space between them. -/
def isThematicBreak : Text → Bool
  | [] => false
  | c :: rest =>
    (c == '*' || c == '-' || c == '_') &&
      rest.all (fun x => x == c || x == ' ' || x == '\t') && 3 ≤ (c :: rest).count c

/-- The level of a heading that starts with number signs. -/
def headingLevel? (t : Text) : Option Nat :=
  let level := (t.takeWhile (· == '#')).length
  if 1 ≤ level && level ≤ 6 && ((t.drop level).head?.all isSpace) then some level else none

/-- The level that an underline gives to the paragraph above it. -/
def underlineLevel? : Text → Option Nat
  | [] => none
  | c :: rest =>
    if (c == '=' || c == '-') && isBlankLine (rest.dropWhile (· == c)) then
      some (if c == '=' then 1 else 2)
    else none

/-- The mark and length of a code fence. The info string of a backtick fence holds no backtick. -/
def fence? : Text → Option (Char × Nat)
  | [] => none
  | c :: rest =>
    if c == '\x60' || c == '~' then
      let length := ((c :: rest).takeWhile (· == c)).length
      if 3 ≤ length && (c == '~' || !((c :: rest).drop length).contains '\x60') then some (c, length)
      else none
    else none

/-- Whether a line closes a fence of a given mark and length. -/
def closesFence (mark : Char) (length : Nat) (t : Text) : Bool :=
  length ≤ (t.takeWhile (· == mark)).length &&
    (t.dropWhile (· == mark)).all (· == ' ')

/-- Names of elements that start a block of HTML. -/
def blockElements : List String :=
  ["address", "article", "aside", "base", "basefont", "blockquote", "body", "caption", "center", "col",
   "colgroup", "dd", "details", "dialog", "dir", "div", "dl", "dt", "fieldset", "figcaption", "figure",
   "footer", "form", "frame", "frameset", "h1", "h2", "h3", "h4", "h5", "h6", "head", "header", "hr",
   "html", "iframe", "legend", "li", "link", "main", "menu", "menuitem", "nav", "noframes", "ol",
   "optgroup", "option", "p", "param", "search", "section", "summary", "table", "tbody", "td", "tfoot",
   "th", "thead", "title", "tr", "track", "ul"]

/-- Elements whose block of HTML lasts until their closing tag. -/
def rawElements : List (String × String) :=
  [("pre", "</pre>"), ("style", "</style>"), ("script", "</script>"), ("textarea", "</textarea>")]

/-- The text that ends a block of HTML that blank lines do not end, from the text after its bracket. -/
def htmlEnd? (t : Text) : Option Text :=
  let raw := rawElements.findSome? fun (name, ending) =>
    match Text.after? name (Text.asciiLower t) with
    | some rest =>
      if rest.head?.all fun c => isSpace c || c == '>' then some ending.toList else none
    | none => none
  raw.or <|
    if Text.startsWith "!--" t then some "-->"
    else if Text.startsWith "?" t then some "?>"
    else if Text.startsWith "![CDATA[" t then some "]]>"
    else match t with
      | '!' :: c :: _ => if Text.isAsciiLetter c then some ">" else none
      | _ => none

/-- Whether the text after a bracket is the tag of a block element. -/
def startsBlockElement (t : Text) : Bool :=
  let t := match t with
    | '/' :: t => t
    | t => t
  let name := t.takeWhile Text.isAsciiAlphanumeric
  (blockElements.any fun e => e.toList == Text.asciiLower name) &&
    match t.drop name.length with
    | [] => true
    | ' ' :: _ | '\t' :: _ | '>' :: _ | '/' :: '>' :: _ => true
    | _ => false

/-- A line that holds one whole tag and nothing else. -/
def isLoneTag (t : Text) : Bool := (tag? t).any isBlankLine

/-! ## Lists -/

/-- The marker of a list item: its mark, its number, and the column at which its content stands. -/
structure Marker where
  mark : Char
  number : Nat
  indent : Nat

/-- Reads the white space after a list mark. Content that starts five columns or more after the mark is
indented code, which stands one column after it. -/
def markerContent (mark : Char) (number indent : Nat) (c : Cursor) : Marker × Cursor :=
  if isBlankLine c.rest then (⟨mark, number, indent⟩, c)
  else
    let (missing, after) := c.skip 4
    if missing == 0 then (⟨mark, number, indent⟩, c)
    else (⟨mark, number, indent + (4 - missing)⟩, after)

/-- Reads a list marker after `indent` columns of white space. -/
def marker? (indent : Nat) (c : Cursor) : Option (Marker × Cursor) :=
  match c.rest with
  | [] => none
  | first :: _ =>
    let digits := c.rest.takeWhile Text.isAsciiDigit
    let width? : Option (Char × Nat × Nat) :=
      if first == '-' || first == '+' || first == '*' then
        if isThematicBreak c.rest then none else some (first, 0, 1)
      else if 1 ≤ digits.length && digits.length ≤ 9 then
        match c.rest.drop digits.length with
        | '.' :: _ => some ('.', Text.digitsValue digits, digits.length + 1)
        | ')' :: _ => some (')', Text.digitsValue digits, digits.length + 1)
        | _ => none
      else none
    match width? with
    | none => none
    | some (mark, number, width) =>
      let after := c.advance width
      match after.indent? 1 with
      | some after => some (markerContent mark number (indent + width + 1) after)
      | none =>
        if after.atEnd then some (markerContent mark number (indent + width + 1) after) else none

/-- Reads a task marker, which white space must follow. -/
def taskMarker? (c : Cursor) : Option (Bool × Cursor) :=
  let c := (c.skip 3).2
  match c.rest with
  | '[' :: mark :: ']' :: space :: _ =>
    if isSpace space then
      if isSpace mark then some (false, c.advance 3)
      else if mark == 'x' || mark == 'X' then some (true, c.advance 3)
      else none
    else none
  | _ => none

/-- Whether a list item at the start of a line may interrupt a paragraph: unless the line has left the
paragraph's container, a numbered item must start at one, and the item must not be followed by two
blank lines at once. -/
def itemInterrupts (t : Text) (next : Option Text) (within : Bool) : Bool :=
  let digits := t.takeWhile Text.isAsciiDigit
  let found : Option (Bool × Text) := match t with
    | '-' :: rest | '+' :: rest | '*' :: rest => some (true, rest)
    | _ =>
      if 1 ≤ digits.length && digits.length ≤ 9 then
        match t.drop digits.length with
        | '.' :: rest | ')' :: rest => some (Text.digitsValue digits == 1, rest)
        | _ => none
      else none
  match found with
  | none => false
  | some (fromOne, rest) =>
    let spaced := match rest with
      | [] => true
      | c :: _ => c == ' ' || c == '\t'
    let empty := isBlankLine rest && next.all isBlankLine
    spaced && (!within || (fromOne && !empty))

/-! ## Interruption -/

/-- Whether the text of a line, less its indentation, ends a paragraph before it. -/
def interrupts (t : Text) (next : Option Text) (within : Bool) : Bool :=
  t.isEmpty || isThematicBreak t || (headingLevel? t).isSome || (fence? t).isSome ||
    Text.startsWith ">" t || itemInterrupts t next within ||
    match t with
    | '<' :: rest => (htmlEnd? rest).isSome || startsBlockElement rest
    | _ => false

/-! ## Tables -/

/-- The number of columns of a delimiter row, when a line is one: cells of hyphens and colons between
bars, with at least one bar. A hyphen must stand in every cell that a bar follows. -/
def delimiterColumns? (line : Text) : Option Nat :=
  let cells := (Text.splitOn '|' line).map fun cell => cell.filter (· != ' ')
  let cells := if Text.startsWith "|" line then cells.drop 1 else cells
  let last := if cells.getLast? == some [] then [] else cells.getLast?.toList
  let barred := cells.dropLast
  if line.contains '|' && line.contains '-' && barred.all (·.contains '-') &&
      cells.all (·.all fun c => c == '-' || c == ':') then
    some (barred.length + last.length)
  else none

/-- The pieces between the bars of a row; a bar after a backslash does not count. -/
def barPieces : Text → List Text
  | [] => [[]]
  | '\\' :: '|' :: rest =>
    match barPieces rest with
    | [] => [['|']]
    | piece :: pieces => ('|' :: piece) :: pieces
  | '|' :: rest => [] :: barPieces rest
  | c :: rest =>
    match barPieces rest with
    | [] => [[c]]
    | piece :: pieces => (c :: piece) :: pieces

/-- The cells of a row, without bars and without the white space around them. -/
def rowCells (line : Text) : List Text :=
  let pieces := barPieces (skipSpaces line)
  let pieces := if Text.startsWith "|" (skipSpaces line) then pieces.drop 1 else pieces
  let pieces := if (pieces.getLast?.any isBlankLine) then pieces.dropLast else pieces
  pieces.map fun piece => Text.dropEndWhile isSpace (skipSpaces piece)

/-- The cells of a row, brought to the number of columns. -/
def fitRow (columns : Nat) (cells : List Text) : List Text :=
  cells.take columns ++ List.replicate (columns - cells.length) []

/-- Whether a line has a bar that no backslash escapes. -/
def hasBar : Text → Bool
  | [] => false
  | '\\' :: c :: rest => if isAsciiPunctuation c then hasBar rest else hasBar (c :: rest)
  | '|' :: _ => true
  | _ :: rest => hasBar rest

/-- The number of columns, when a line and the delimiter row below it start a table. -/
def tableColumns? (line below : Text) : Option Nat := do
  let (missing, below) := (Cursor.ofLine below).skip 4
  if missing == 0 then none
  else
    let columns ← delimiterColumns? below.rest
    if hasBar line && (rowCells line).length == columns then some columns else none

/-! ## The stack of containers -/

inductive Holder where
  | quote
  | list (mark : Char) (ordered : Bool)
  | item (indent : Nat)

/-- An open container with its children, last first. Tightness matters to lists only. -/
structure OpenBlock where
  holder : Holder
  tight : Bool
  children : List Block

/-- The blocks read so far. -/
structure Progress where
  /-- The open containers, innermost first. -/
  stack : List OpenBlock
  /-- The finished blocks of the top level, last first. -/
  top : List Block
  lastBlank : Bool
  /-- Whether the innermost item began with a blank line, just before the line to be read. -/
  freshItem : Bool
  /-- A task marker that waits for its paragraph. -/
  pendingTask : Option Bool
  links : Definitions

namespace Progress

def start : Progress := ⟨[], [], false, false, none, []⟩

def add (b : Block) (p : Progress) : Progress :=
  match p.stack with
  | [] => { p with top := b :: p.top }
  | o :: os => { p with stack := { o with children := b :: o.children } :: os }

def closed (o : OpenBlock) : Block :=
  match o.holder with
  | .quote => .quote o.children.reverse
  | .list _ ordered => .list ordered o.tight o.children.reverse
  | .item _ => .item o.children.reverse

/-- Closes the innermost container. -/
def pop (p : Progress) : Progress :=
  match p.stack with
  | [] => p
  | o :: os => add (closed o) { p with stack := os }

/-- Closes the innermost containers until a number of containers is left. -/
def popTo (depth : Nat) : Nat → Progress → Progress
  | 0, p => p
  | n + 1, p => if depth < p.stack.length then popTo depth n p.pop else p

def push (holder : Holder) (p : Progress) : Progress :=
  { p with stack := ⟨holder, true, []⟩ :: p.stack }

/-- Makes the list around the innermost container loose. -/
def loosen (p : Progress) : Progress :=
  match p.stack with
  | inner :: outer :: os => { p with stack := inner :: { outer with tight := false } :: os }
  | _ => p

/-- Prepares for a block that is no list item: an open list ends, and a blank line before the block
makes the list around it loose. -/
def finishList (p : Progress) : Progress :=
  let p := match p.stack with
    | ⟨.list _ _, _, _⟩ :: _ => p.pop
    | _ => p
  if p.lastBlank then { p.loosen with lastBlank := false } else p

/-- Opens a list for a marker, unless the innermost container is a list with the same mark. -/
def continueList (mark : Char) (p : Progress) : Progress :=
  let fresh (p : Progress) : Progress :=
    { p.push (.list mark (mark == '.' || mark == ')')) with lastBlank := false }
  match p.stack with
  | ⟨.list mark' ordered, _, children⟩ :: os =>
    if mark' == mark then
      if p.lastBlank then
        { p with stack := ⟨.list mark ordered, false, children⟩ :: os, lastBlank := false }
      else p
    else fresh p.finishList
  | [] => fresh p
  | _ => fresh p.finishList

end Progress

/-- Goes past what a line holds for the containers, outermost first: how many of them it continues, and
where its own text starts. -/
def continueThrough : List Holder → Cursor → Nat × Cursor
  | [], c => (0, c)
  | .quote :: holders, c =>
    match (c.skip 3).2.quote? with
    | none => (0, c)
    | some after =>
      let (n, c) := continueThrough holders after
      (n + 1, c)
  | .list _ _ :: holders, c =>
    let (n, c) := continueThrough holders c
    (n + 1, c)
  | .item indent :: holders, c =>
    let (missing, after) := c.skip indent
    if missing == 0 || after.atEnd then
      let (n, c) := continueThrough holders after
      (n + 1, c)
    else (0, c)

def Progress.holders (p : Progress) : List Holder := (p.stack.map OpenBlock.holder).reverse

/-! ## Paragraphs -/

/-- The lines that follow the first line of a paragraph and belong to it, less what they hold for the
containers; the level of an underline that follows them; and the lines after that. -/
def paragraphRest (holders : List Holder) : List Text → List Text × Option Nat × List Text
  | [] => ([], none, [])
  | line :: rest =>
    let (n, c) := continueThrough holders (Cursor.ofLine line)
    let within := n == holders.length
    let (missing, near) := c.skip 4
    let underline := if missing == 0 || !within then none else underlineLevel? near.rest
    match underline with
    | some level => ([], some level, rest)
    | none =>
      let table := within && match rest with
        | [] => false
        | below :: _ =>
          let (n, c) := continueThrough holders (Cursor.ofLine below)
          n == holders.length && (tableColumns? near.rest c.rest).isSome
      if missing != 0 && (interrupts near.rest rest.head? within || table) then
        ([], none, line :: rest)
      else if c.skipAll.atEnd then ([], none, line :: rest)
      else
        let (more, level, rest) := paragraphRest holders rest
        (c.rest :: more, level, rest)

/-- Removes the closing number signs of a heading. -/
def headingText (t : Text) : Text :=
  let t := Text.dropEndWhile (fun c => c == ' ') (skipSpaces t)
  let body := Text.dropEndWhile (· == '#') t
  if body.isEmpty then []
  else if body.getLast? == some ' ' then Text.dropEndWhile (· == ' ') body
  else t

/-! ## Blocks of several lines -/

def spaces (n : Nat) : Text := List.replicate n ' '

/-- The lines of a fenced block after its first, and the lines after the block. -/
def fencedLines (holders : List Holder) (indent : Nat) (mark : Char) (length : Nat) :
    List Text → List Text × List Text
  | [] => ([], [])
  | line :: rest =>
    let (n, c) := continueThrough holders (Cursor.ofLine line)
    if n < holders.length then ([], line :: rest)
    else
      let c := (c.skip indent).2
      let (missing, near) := c.skip (4 - indent)
      if missing != 0 && closesFence mark length near.rest then ([], rest)
      else
        let (more, rest) := fencedLines holders indent mark length rest
        ((spaces c.pending ++ c.rest) :: more, rest)

/-- The further lines of an indented block, and the lines after the block. Blank lines belong to it if
an indented line follows; the flag says whether the block ended after a blank line. -/
def indentedLines (holders : List Holder) : List Text → List Text × Bool × List Text
  | [] => ([], false, [])
  | line :: rest =>
    let (n, c) := continueThrough holders (Cursor.ofLine line)
    let (missing, c) := c.skip 4
    if n < holders.length || (missing != 0 && !c.atEnd) then ([], false, line :: rest)
    else
      let (more, blank, rest) := indentedLines holders rest
      let here := isBlankLine c.rest
      if here && more.isEmpty then ([], true, rest)
      else ((spaces c.pending ++ c.rest) :: more, blank, rest)

/-- The lines of a block of HTML after its first, and the lines after the block. The block ends after a
line that holds `ending` or, without one, before a blank line. -/
def htmlLines (holders : List Holder) (ending : Option Text) :
    Bool → List Text → List (Text × Text) × List Text
  | _, [] => ([], [])
  | ended, line :: rest =>
    let (n, c) := continueThrough holders (Cursor.ofLine line)
    if ended || n < holders.length || (ending.isNone && isBlankLine c.rest) then ([], line :: rest)
    else
      let (more, rest) :=
        htmlLines holders ending (ending.any fun e => Text.hasPart e c.rest) rest
      ((spaces c.pending, c.rest ++ ['\n']) :: more, rest)

/-- The rows of a table after its delimiter row, and the lines after the table. -/
def tableRows (holders : List Holder) (columns : Nat) : List Text → List (List Text) × List Text
  | [] => ([], [])
  | line :: rest =>
    let (n, c) := continueThrough holders (Cursor.ofLine line)
    let text := c.skipAll.rest
    let cells := rowCells text
    if n < holders.length || interrupts text rest.head? true || cells.isEmpty then ([], line :: rest)
    else
      let (rows, rest) := tableRows holders columns rest
      (fitRow columns cells :: rows, rest)

/-! ## The reading of one block -/

/-- Opens the containers that start on a line. The flag tells whether the line is used up. -/
def openContainers : Nat → Cursor → Progress → Bool × Cursor × Progress
  | 0, c, p => (false, c, p)
  | fuel + 1, c, p =>
    let (missing, near) := c.skip 4
    if missing == 0 then (false, c, p)
    else
      match marker? (4 - missing) near with
      | some (marker, after) =>
        let p := (p.continueList marker.mark).push (.item marker.indent)
        if isBlankLine after.rest then (true, after, { p with freshItem := true })
        else match taskMarker? after with
          | some (checked, next) =>
            if isBlankLine next.rest then
              (true, next, { p.add (.task checked) with freshItem := true })
            else openContainers fuel next { p with pendingTask := some checked }
          | none => openContainers fuel after p
      | none =>
        match near.quote? with
        | some after => openContainers fuel after (p.finishList.push .quote)
        | none => (false, c, p)

/-- A blank line. A list item that began with a blank line cannot go on after another one. -/
def Progress.blankLine (p : Progress) : Progress :=
  match p.stack with
  | ⟨.quote, _, _⟩ :: _ => p
  | ⟨.item _, _, _⟩ :: _ => { (if p.freshItem then p.pop else p) with lastBlank := true }
  | _ => { p with lastBlank := true }

/-- Reads the block that starts at a place in a line, after the containers have been dealt with: the new
progress and the lines after the block. -/
def readLeaf (c : Cursor) (rest : List Text) (p : Progress) : Progress × List Text :=
  let (missing, near) := c.skip 4
  let p := p.finishList
  let holders := p.holders
  if missing == 0 then
    let (more, blank, rest) := indentedLines holders rest
    let lines := (spaces near.pending ++ near.rest) :: more
    ({ p.add (.code [] (lines.flatMap fun line => line ++ ['\n'])) with lastBlank := blank }, rest)
  else
    let t := near.rest
    let html : Option (Option Text) := match t with
      | '<' :: tag =>
        match htmlEnd? tag with
        | some ending => some (some ending)
        | none => if startsBlockElement tag || isLoneTag tag then some none else none
      | _ => none
    match html with
    | some ending =>
      let (more, rest) :=
        htmlLines holders ending (ending.any fun e => Text.hasPart e t) rest
      let indent := max c.pending (4 - missing)
      (p.add (.html ((spaces indent, t ++ ['\n']) :: more)), rest)
    | none =>
      if isThematicBreak t then (p.add .rule, rest)
      else match headingLevel? t with
        | some level => (p.add (.heading level none (headingText (t.drop level))), rest)
        | none =>
          match fence? t with
          | some (mark, length) =>
            let info := Text.dropEndWhile isSpace (skipSpaces (t.drop length))
            let (lines, rest) := fencedLines holders (4 - missing) mark length rest
            (p.add (.code (decodeEscapes info) (lines.flatMap fun line => line ++ ['\n'])), rest)
          | none =>
            let (more, level, after) := paragraphRest holders rest
            let source := Text.join ['\n'] (t :: more)
            match definition? source with
            | some ((label, target), left) =>
              let used := source.count '\n' - left.count '\n'
              let links := if (p.links.lookup label).isSome then p.links
                else p.links ++ [(label, target)]
              ({ p with links }, rest.drop used)
            | none =>
              let table := match rest with
                | [] => none
                | below :: _ =>
                  let (n, c) := continueThrough holders (Cursor.ofLine below)
                  if n == holders.length then tableColumns? t c.rest else none
              match table with
              | some columns =>
                let p := { p with pendingTask := none }
                let (rows, after) := tableRows holders columns (rest.drop 1)
                (p.add (.table (fitRow columns (rowCells t)) rows), after)
              | none =>
                let block := match level with
                  | some level => Block.heading level p.pendingTask source
                  | none => .paragraph p.pendingTask source
                ({ p with pendingTask := none }.add block, after)

/-- Reads the block that starts on a line. -/
def readBlock (line : Text) (rest : List Text) (p : Progress) : Progress × List Text :=
  let (n, c) := continueThrough p.holders (Cursor.ofLine line)
  let p := p.popTo n p.stack.length
  let (used, c, p) := openContainers (line.length + 1) c p
  if used then (p, rest)
  else if isBlankLine c.rest then
    ({ p.blankLine with freshItem := false }, rest)
  else readLeaf c rest { p with freshItem := false }

/-- Reads blocks until no lines are left; each block takes at least one line. -/
def readBlocks : Nat → List Text → Progress → Progress
  | 0, _, p => p
  | _, [], p => p
  | fuel + 1, line :: rest, p =>
    let (p, rest) := readBlock line rest p
    readBlocks fuel rest p

/-- The lines of a text; each ends at a newline, a carriage return, or both. -/
def textLines (t : Text) : List Text :=
  let pieces := Text.splitBy (fun c => c == '\n' || c == '\r') (Text.replace "\r\n" "\n" t)
  if pieces.getLast? == some [] then pieces.dropLast else pieces

/-- The blocks of a text and the link definitions in it. -/
def blocks (t : Text) : List Block × Definitions :=
  let lines := textLines t
  let p := readBlocks lines.length lines .start
  let p := p.popTo 0 p.stack.length
  (p.top.reverse, p.links)

end StaticSite.Markdown
