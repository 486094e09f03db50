import StaticSite.Yaml.Scalar
import StaticSite.Yaml.Tag

/-!
# YAML tokens

The tokens of a YAML text. Indentation becomes tokens that start and end blocks. A key before a colon is
recognised only at the colon, so its token is put in front of tokens that were read before; such a key is on
one line and at most 1024 characters long.
-/
namespace StaticSite.Yaml

inductive Token where
  | directive (d : Tag.Directive)
  | documentStart
  | documentEnd
  | sequenceStart
  | mappingStart
  /-- The end of a block sequence or mapping. -/
  | blockEnd
  | bracketStart
  | bracketEnd
  | braceStart
  | braceEnd
  /-- The dash before an item. -/
  | item
  | comma
  | key
  | value
  | reference (name : Text)
  | anchor (name : Text)
  | tag (handle suffix : Text)
  | scalar (plain : Bool) (t : Text)

/-- A place at which a key may have started. -/
structure KeyStart where
  /-- The number of tokens before it. -/
  tokens : Nat
  offset : Nat
  line : Nat
  column : Nat
  /-- Whether only a key may stand there. -/
  required : Bool

/-- The reading of tokens under way. -/
structure Lexer where
  cursor : Cursor
  /-- The tokens so far, last first. -/
  tokens : List Token
  /-- The column of the innermost block. -/
  column : Int
  /-- The columns of the blocks around it, and of the document. -/
  columns : List Int
  /-- Whether a key may start here. -/
  keyAllowed : Bool
  keyStart : Option KeyStart
  /-- The key starts outside of each open bracket. -/
  outer : List (Option KeyStart)

namespace Lexer

def start (t : Text) : Lexer := ⟨.start t, [], -1, [], true, none, []⟩

/-- Whether this is inside brackets. -/
def flow (l : Lexer) : Bool := !l.outer.isEmpty

def push (t : Token) (l : Lexer) : Lexer := { l with tokens := t :: l.tokens }

/-- Puts a token after a number of tokens. -/
def insert (n : Nat) (t : Token) (l : Lexer) : Lexer :=
  let later := l.tokens.length - n
  { l with tokens := l.tokens.take later ++ t :: l.tokens.drop later }

def skip (n : Nat) (l : Lexer) : Lexer := { l with cursor := l.cursor.skip n }

def allowKey (allowed : Bool) (l : Lexer) : Lexer := { l with keyAllowed := allowed }

/-- Ends the blocks that are indented deeper than a column. -/
def closeBlocks (column : Int) (l : Lexer) : Lexer :=
  if l.flow then l
  else
    let deeper := (l.column :: l.columns).takeWhile (column < ·)
    match (l.column :: l.columns).drop deeper.length with
    | [] => l
    | c :: cs =>
      { l with tokens := List.replicate deeper.length .blockEnd ++ l.tokens, column := c, columns := cs }

/-- Starts a block with a token after a number of tokens, unless the innermost block has that column. -/
def openBlock (column : Nat) (n : Nat) (t : Token) (l : Lexer) : Lexer :=
  if !l.flow && l.column < (column : Int) then
    { l.insert n t with column := column, columns := l.column :: l.columns }
  else l

def openBlockHere (t : Token) (l : Lexer) : Lexer :=
  l.openBlock l.cursor.column l.tokens.length t

/-- Gives up the key start; a required key may not be given up. -/
def dropKey? (l : Lexer) : Option Lexer :=
  if l.keyStart.any (·.required) then none else some { l with keyStart := none }

/-- Notes that a key may start here. -/
def noteKey? (l : Lexer) : Option Lexer :=
  if l.keyAllowed then do
    let l ← l.dropKey?
    let c := l.cursor
    let required := !l.flow && l.column == (c.column : Int)
    some { l with keyStart := some ⟨l.tokens.length, c.offset, c.line, c.column, required⟩ }
  else some l

/-- Gives up a key start that is on another line or too far back. -/
def freshKey? (c : Cursor) (key : Option KeyStart) : Option (Option KeyStart) :=
  match key with
  | none => some none
  | some k =>
    if k.line < c.line || k.offset + 1024 < c.offset then
      if k.required then none else some none
    else some key

def freshKeys? (l : Lexer) : Option Lexer := do
  let keyStart ← freshKey? l.cursor l.keyStart
  let outer ← l.outer.mapM (freshKey? l.cursor)
  some { l with keyStart, outer }

/-- Goes over spaces, comments and line breaks. Tabs count as spaces inside brackets and where no key may
start. -/
def skipGap : Nat → Lexer → Lexer
  | 0, l => l
  | fuel + 1, l =>
    let tabs := l.flow || !l.keyAllowed
    let c := l.cursor.skipWhile fun ch => ch == ' ' || (tabs && ch == '\t')
    let c := if c.rest.head? == some '#' then c.skipWhile fun ch => !isBreak ch else c
    if c.rest.head?.any isBreak then
      skipGap fuel { l with cursor := c.skipBreak, keyAllowed := l.keyAllowed || !l.flow }
    else { l with cursor := c }

/-- Takes in a mark that stands between nodes. -/
def mark? (n : Nat) (allowed : Bool) (t : Token) (l : Lexer) : Option Lexer := do
  let l ← l.dropKey?
  some ((l.push t).skip n |>.allowKey allowed)

/-- Takes in a line of three dashes or dots, or a directive. -/
def documentMark? (t : Token) (l : Lexer) : Option Lexer := (l.closeBlocks (-1)).mark? 3 false t

def directive? (l : Lexer) : Option Lexer := do
  let l ← (l.closeBlocks (-1)).dropKey?
  let (directive, cursor) ← Tag.directive? l.cursor
  some { l.push (.directive directive) with cursor, keyAllowed := false }

def openBracket? (t : Token) (l : Lexer) : Option Lexer := do
  let l ← l.noteKey?
  some { (l.push t).skip 1 with keyAllowed := true, keyStart := none, outer := l.keyStart :: l.outer }

def closeBracket? (t : Token) (l : Lexer) : Option Lexer := do
  let l ← l.mark? 1 false t
  match l.outer with
  | [] => some l
  | keyStart :: outer => some { l with keyStart, outer }

/-- Takes in the dash or question mark that starts an item or a key. -/
def blockMark? (allowed : Bool) (block t : Token) (l : Lexer) : Option Lexer :=
  if !l.flow && !l.keyAllowed then none
  else (l.openBlockHere block).mark? 1 allowed t

/-- Takes in a colon. The key before it may be known only now. -/
def value? (l : Lexer) : Option Lexer :=
  match l.keyStart with
  | some k =>
    let l := (l.insert k.tokens .key).openBlock k.column k.tokens .mappingStart
    some ({ l.push .value with keyStart := none, keyAllowed := false }.skip 1)
  | none =>
    if !l.flow && !l.keyAllowed then none
    else some ((l.openBlockHere .mappingStart).push .value |>.skip 1 |>.allowKey !l.flow)

/-- Takes in the name of an anchor or alias. -/
def name? (token : Text → Token) (l : Lexer) : Option Lexer := do
  let l ← l.noteKey?
  let name := (l.cursor.rest.drop 1).takeWhile isNameChar
  let l := ((l.push (token name)).skip (name.length + 1)).allowKey false
  let ended := atGap l.cursor.rest || l.cursor.rest.head?.any fun c => "?:,]\x7d%@\x60".toList.contains c
  if name.isEmpty || !ended then none else some l

def tag? (l : Lexer) : Option Lexer := do
  let l ← l.noteKey?
  let ((handle, suffix), cursor) ← Tag.read? l.flow l.cursor
  some { l.push (.tag handle suffix) with cursor, keyAllowed := false }

def block? (l : Lexer) : Option Lexer := do
  let l ← l.dropKey?
  let (t, cursor) ← Scalar.block? (l.column + 1).toNat l.cursor
  some { l.push (.scalar false t) with cursor, keyAllowed := true }

def quoted? (l : Lexer) : Option Lexer := do
  let l ← l.noteKey?
  let (t, cursor) ← Scalar.quoted? l.cursor
  some { l.push (.scalar false t) with cursor, keyAllowed := false }

def plain? (l : Lexer) : Option Lexer := do
  let l ← l.noteKey?
  let s ← Scalar.plain? l.flow (l.column + 1).toNat l.cursor
  some { l.push (.scalar true s.text) with cursor := s.next, keyAllowed := s.broken }

/-- Characters that no plain scalar starts with, save some before other characters. -/
def isIndicator (c : Char) : Bool := "-?:,[]\x7b\x7d#&*!|>'\"%@\x60".toList.contains c

/-- Whether a plain scalar starts with a character before some others. -/
def startsPlain (flow : Bool) (c : Char) (rest : Text) : Bool :=
  (!isIndicator c && !isSpace c) || (c == '-' && !rest.head?.any isSpace) ||
    (!flow && (c == '?' || c == ':') && !atGap rest)

/-- Takes in one token, which there must be. -/
def token? (l : Lexer) : Option Lexer :=
  match l.cursor.rest with
  | [] => none
  | c :: rest =>
    let before := l.flow || atGap rest
    if l.cursor.column == 0 && c == '%' then l.directive?
    else if l.cursor.atDocumentStart then l.documentMark? .documentStart
    else if l.cursor.atDocumentEnd then l.documentMark? .documentEnd
    else if c == '[' then l.openBracket? .bracketStart
    else if c == '\x7b' then l.openBracket? .braceStart
    else if c == ']' then l.closeBracket? .bracketEnd
    else if c == '\x7d' then l.closeBracket? .braceEnd
    else if c == ',' then l.mark? 1 true .comma
    else if c == '-' && atGap rest then l.blockMark? true .sequenceStart .item
    else if c == '?' && before then l.blockMark? (!l.flow) .mappingStart .key
    else if c == ':' && before then l.value?
    else if c == '*' then l.name? .reference
    else if c == '&' then l.name? .anchor
    else if c == '!' then l.tag?
    else if !l.flow && (c == '|' || c == '>') then l.block?
    else if c == '\'' || c == '"' then l.quoted?
    else if startsPlain l.flow c rest then l.plain?
    else none

/-- Ends the text: all blocks end. -/
def finish? (l : Lexer) : Option (List Token) := do
  let l ← (l.closeBlocks (-1)).dropKey?
  some l.tokens.reverse

def run? : Nat → Lexer → Option (List Token)
  | 0, _ => none
  | fuel + 1, l => do
    let l ← (l.skipGap (l.cursor.rest.length + 1)).freshKeys?
    let l := l.closeBlocks l.cursor.column
    if l.cursor.rest.isEmpty then l.finish? else run? fuel (← l.token?)

end Lexer

/-- The tokens of a text, unless it breaks the rules of YAML. A byte order mark may come first. -/
def tokens? (t : Text) : Option (List Token) :=
  if t.all isAllowed then
    let l := Lexer.start t
    Lexer.run? (t.length + 1) (if t.head? == some '\ufeff' then l.skip 1 else l)
  else none

end StaticSite.Yaml
