import StaticSite.Markdown.Link
import StaticSite.Markdown.Tag
import StaticSite.Markdown.Punctuation

/-!
# Inline content

Reads the text of a paragraph, heading or table cell into inline content. The text is scanned once from
left to right. Code spans, raw HTML and autolinks are recognised at their first character, links and
images at the bracket that closes their text, and the runs of emphasis marks between two brackets are
paired when the scan has passed them.
-/
namespace StaticSite.Markdown

inductive Inline where
  | text (t : Text)
  | code (t : Text)
  | html (t : Text)
  | softBreak
  | hardBreak
  | emphasis (children : List Inline)
  | strong (children : List Inline)
  | strikethrough (children : List Inline)
  | link (target : Target) (children : List Inline)
  | image (target : Target) (children : List Inline)

/-- Scanned content in which runs of emphasis marks are not paired yet. -/
inductive Piece where
  | node (content : Inline)
  | run (mark : Char) (length : Nat) (opens closes : Bool)

/-! ## Emphasis -/

/-- Whether a run can open emphasis, from the characters around it. -/
def runOpens (mark : Char) (length : Nat) (previous next : Option Char) : Bool :=
  match next with
  | none => false
  | some n =>
    if Text.isBlank n then false
    else match previous with
      | none => true
      | some p =>
        (mark == '*' && !isPunctuation n) || (mark == '~' && 1 < length) || Text.isBlank p ||
          isPunctuation p

/-- Whether a run can close emphasis, from the characters around it. -/
def runCloses (mark : Char) (length : Nat) (previous next : Option Char) : Bool :=
  match previous with
  | none => false
  | some p =>
    if Text.isBlank p then false
    else match next with
      | none => true
      | some n =>
        ((mark == '*' || (mark == '~' && 1 < length)) && !isPunctuation p) || Text.isBlank n ||
          isPunctuation n

/-- A run that waits for its counterpart: how many of its marks are left, how long it was, whether it
could also close, and the content after it, last first. -/
structure Opener where
  mark : Char
  left : Nat
  length : Nat
  both : Bool
  content : List Inline

/-- The runs that wait, the latest first, over the content before all of them. No tilde run below
`tildeFloor` is looked at again, once a search for its counterpart has failed there. -/
structure Pairing where
  openers : List Opener
  base : List Inline
  tildeFloor : Nat

namespace Pairing

/-- Adds content after everything so far; the new content is given last first. -/
def add (added : List Inline) (p : Pairing) : Pairing :=
  match p.openers with
  | [] => { p with base := added ++ p.base }
  | o :: os => { p with openers := { o with content := added ++ o.content } :: os }

/-- Marks that found no counterpart, as text. -/
def plainMarks (mark : Char) (n : Nat) : List Inline := List.replicate n (.text [mark])

/-- Gives up the latest openers; their marks become text and all their content moves to the front. -/
def flatten : List Opener → List Inline → List Inline
  | [], content => content
  | o :: os, content => flatten os (content ++ o.content ++ plainMarks o.mark o.left)

/-- Whether an opener fits a closing run. Runs that could do both pair only if their lengths do not sum
to a multiple of three, unless both are multiples of three. Tilde runs pair with their own length. -/
def fits (mark : Char) (length : Nat) (both : Bool) (o : Opener) : Bool :=
  o.mark == mark && (mark != '~' || o.length == length) &&
    ((!both && !o.both) || (length + o.length) % 3 != 0 || length % 3 == 0)

/-- Splits the openers at the latest one that satisfies a test. -/
def split? (test : Opener → Bool) : List Opener → Option (List Opener × Opener × List Opener)
  | [] => none
  | o :: os =>
    if test o then some ([], o, os)
    else (split? test os).map fun (above, found, below) => (o :: above, found, below)

/-- Wraps content in as many layers as a number of marks stands for, pairs of marks innermost. -/
def wrap (mark : Char) : Nat → List Inline → List Inline
  | 0, content => content
  | 1, content => [if mark == '~' then .strikethrough content else .emphasis content]
  | n + 2, content => wrap mark n [if mark == '~' then .strikethrough content else .strong content]

/-- Pairs the marks of a closing run with openers, as long as there are both; the result says how many
marks are left. -/
def close (mark : Char) (length : Nat) (both : Bool) : Nat → Nat → Pairing → Nat × Pairing
  | 0, left, p => (left, p)
  | fuel + 1, left, p =>
    if left == 0 then (0, p)
    else
      let floor := if mark == '~' then min p.openers.length p.tildeFloor else 0
      let visible := p.openers.take (p.openers.length - floor)
      match split? (fits mark length both) visible with
      | none =>
        (left, if mark == '~' then { p with tildeFloor := p.openers.length } else p)
      | some (above, found, _) =>
        let below := p.openers.drop (above.length + 1)
        let matched := min left found.left
        let content := (flatten above [] ++ found.content).reverse
        let kept := if matched < found.left then
            { found with left := found.left - matched, content := [] } :: below
          else below
        let p := add (wrap mark matched content)
          { p with openers := kept, tildeFloor := min p.tildeFloor below.length }
        close mark length both fuel (left - matched) p

def step (p : Pairing) : Piece → Pairing
  | .node content => p.add [content]
  | .run mark length opens closes =>
    let both := opens && closes
    let (left, p) := if closes then close mark length both (length + 1) length p else (length, p)
    if left == 0 then p
    else if opens then { p with openers := ⟨mark, left, length, both, []⟩ :: p.openers }
    else p.add (plainMarks mark left)

end Pairing

/-- Pairs the emphasis marks among some pieces. -/
def pairMarks (pieces : List Piece) : List Inline :=
  let p := pieces.foldl Pairing.step ⟨[], [], 0⟩
  (Pairing.flatten p.openers [] ++ p.base).reverse

/-! ## Code spans -/

/-- What follows the next run of exactly `n` backticks, and what stands before it. -/
def codeEnd? (n : Nat) : Nat → Text → Option (Text × Text)
  | 0, _ => none
  | _ + 1, [] => none
  | fuel + 1, c :: rest =>
    if c == '\x60' then
      let run := (c :: rest).takeWhile (· == '\x60')
      let next := (c :: rest).drop run.length
      if run.length == n then some ([], next)
      else (codeEnd? n fuel next).map fun (code, next) => (run ++ code, next)
    else (codeEnd? n fuel rest).map fun (code, next) => (c :: code, next)

/-- The content of a code span: line ends become spaces, and one space goes from both ends unless there
is nothing but spaces. -/
def codeContent (t : Text) : Text :=
  let t := t.map fun c => if c == '\n' then ' ' else c
  if t.all (· == ' ') then t
  else match t, t.getLast? with
    | ' ' :: inner, some ' ' => inner.dropLast
    | _, _ => t

/-! ## The scan -/

/-- A bracket that may open a link or an image: whether it still may, the pieces before it, last first,
and the text from the bracket on. -/
structure Bracket where
  image : Bool
  active : Bool
  before : List Piece
  label : Text

/-- A scan under way: the characters of the current text, the pieces and the brackets, each last first,
and the previous character of the line. -/
structure Scan where
  chunk : Text
  pieces : List Piece
  brackets : List Bracket
  previous : Option Char

namespace Scan

def start : Scan := ⟨[], [], [], none⟩

/-- Turns the current text into a piece. -/
def flush (s : Scan) : Scan :=
  if s.chunk.isEmpty then s
  else { s with chunk := [], pieces := .node (.text s.chunk.reverse) :: s.pieces }

def push (piece : Piece) (s : Scan) : Scan :=
  let s := s.flush
  { s with pieces := piece :: s.pieces }

def char (c : Char) (s : Scan) : Scan := { s with chunk := c :: s.chunk, previous := some c }

def passed (c : Char) (s : Scan) : Scan := { s with previous := some c }

/-- The text of a bracket that opened nothing. -/
def bracketText (b : Bracket) : Piece := .node (.text (if b.image then "![" else "["))

/-- Takes back a bracket that opened nothing. -/
def dropBracket (b : Bracket) (below : List Bracket) (s : Scan) : Scan :=
  { s with pieces := s.pieces ++ bracketText b :: b.before, brackets := below }

/-- Makes the content since a bracket the text of a link or image. A link keeps the brackets around it
from opening links. -/
def closeBracket (b : Bracket) (below : List Bracket) (target : Target) (s : Scan) : Scan :=
  let children := pairMarks s.pieces.reverse
  let content := if b.image then Inline.image target children else Inline.link target children
  let below := if b.image then below else below.map fun o => { o with active := o.active && o.image }
  { s with pieces := .node content :: b.before, brackets := below }

/-- The target that the text after a closing bracket gives to the bracket's content, and what follows. -/
def target? (links : Definitions) (b : Bracket) (rest : Text) : Option (Target × Text) :=
  match inlineTarget? rest with
  | some found => some found
  | none =>
    let shortcut (next : Text) : Option (Target × Text) := do
      let (label, after) ← label? b.label
      if after.length == rest.length then (links.lookup label).map fun target => (target, next)
      else none
    match rest with
    | '[' :: ']' :: next => shortcut next
    | _ =>
      match label? rest with
      | some (label, next) => (links.lookup label).map fun target => (target, next)
      | none => shortcut rest

def closing (links : Definitions) (rest : Text) (s : Scan) : Scan × Text :=
  match s.brackets with
  | [] => (s.char ']', rest)
  | b :: below =>
    let s := s.flush
    let found := if b.active then target? links b rest else none
    match found with
    | none => ((s.dropBracket b below).char ']', rest)
    | some (target, next) => ((s.closeBracket b below target).passed ')', next)

/-- The white space at the end of the current text, and the text without it. -/
def trimChunk (s : Scan) : Nat × Scan :=
  let blanks := s.chunk.takeWhile isSpace
  (blanks.length, { s with chunk := s.chunk.drop blanks.length })

def lineBreak (hard : Bool) (s : Scan) : Scan :=
  let s := s.push (.node (if hard then .hardBreak else .softBreak))
  { s with previous := none }

/-- All brackets that are still open have opened nothing. -/
def dropBrackets : List Bracket → List Piece → List Piece
  | [], pieces => pieces
  | b :: below, pieces => dropBrackets below (pieces ++ bracketText b :: b.before)

def finish (s : Scan) : List Inline :=
  let s := s.trimChunk.2.flush
  pairMarks (dropBrackets s.brackets s.pieces).reverse

end Scan

/-- Reads inline content; every step takes at least one character. -/
def scan (links : Definitions) : Nat → Text → Scan → List Inline
  | 0, _, s => s.finish
  | _ + 1, [], s => s.finish
  | fuel + 1, c :: rest, s =>
    let plain := fun (_ : Unit) => scan links fuel rest (s.char c)
    match c with
    | '\n' =>
      let (blanks, s) := s.trimChunk
      scan links fuel (rest.dropWhile fun x => x == ' ' || x == '\t') (s.lineBreak (2 ≤ blanks))
    | '\\' =>
      match rest with
      | '\n' :: next =>
        scan links fuel (next.dropWhile fun x => x == ' ' || x == '\t') (s.lineBreak true)
      | d :: next => if isAsciiPunctuation d then scan links fuel next (s.char d) else plain ()
      | [] => plain ()
    | '\x60' =>
      let run := (c :: rest).takeWhile (· == '\x60')
      let next := (c :: rest).drop run.length
      match codeEnd? run.length (next.length + 1) next with
      | some (code, next) =>
        scan links fuel next ((s.push (.node (.code (codeContent code)))).passed '\x60')
      | none => scan links fuel next { s with chunk := run ++ s.chunk, previous := some c }
    | '<' =>
      match autolink? rest with
      | some (url, next) =>
        scan links fuel next ((s.push (.node (.link ⟨url, []⟩ [.text url]))).passed '>')
      | none =>
        match markup? rest with
        | some next =>
          let html := (c :: rest).take (rest.length + 1 - next.length)
          scan links fuel next ((s.push (.node (.html html))).passed '>')
        | none => plain ()
    | '!' =>
      match rest with
      | '[' :: next =>
        let s := s.flush
        scan links fuel next
          { s with pieces := [], brackets := ⟨true, true, s.pieces, rest⟩ :: s.brackets,
                   previous := some '[' }
      | _ => plain ()
    | '[' =>
      let s := s.flush
      scan links fuel rest
        { s with pieces := [], brackets := ⟨false, true, s.pieces, c :: rest⟩ :: s.brackets,
                 previous := some '[' }
    | ']' =>
      let (s, next) := s.closing links rest
      scan links fuel next s
    | '&' =>
      match entity? rest with
      | some (out, next) => scan links fuel next ((s.push (.node (.text out))).passed ';')
      | none => plain ()
    | _ =>
      if c == '*' || c == '_' || c == '~' then
        let run := (c :: rest).takeWhile (· == c)
        let next := (c :: rest).drop run.length
        let opens := runOpens c run.length s.previous next.head?
        let closes := runCloses c run.length s.previous next.head?
        if (opens || closes) && (c != '~' || run.length ≤ 2) then
          scan links fuel next ((s.push (.run c run.length opens closes)).passed c)
        else scan links fuel next { s with chunk := run ++ s.chunk, previous := some c }
      else plain ()

/-- The inline content of a text under some link definitions. -/
def inlines (links : Definitions) (t : Text) : List Inline := scan links (t.length + 1) t .start

end StaticSite.Markdown
