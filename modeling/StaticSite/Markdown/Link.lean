import StaticSite.Markdown.Entity
import StaticSite.Markdown.Cursor
import StaticSite.Text.Title

/-!
# Link targets, titles and labels

The parts of links and of link definitions, each read off the front of a text.
-/
namespace StaticSite.Markdown

/-- Where a link leads, and its title. -/
structure Target where
  url : Text
  title : Text

/-- Reads a target between angle brackets, after the opening one. -/
def pointyUrl? : Text → Option (Text × Text)
  | [] => none
  | '>' :: rest => some ([], rest)
  | '\n' :: _ | '\r' :: _ | '<' :: _ => none
  | '\\' :: c :: rest =>
    if isAsciiPunctuation c then (pointyUrl? rest).map fun (url, rest) => ('\\' :: c :: url, rest)
    else if c == '\n' || c == '\r' then none
    else (pointyUrl? rest).map fun (url, rest) => ('\\' :: c :: url, rest)
  | c :: rest => (pointyUrl? rest).map fun (url, rest) => (c :: url, rest)

/-- Reads a target without angle brackets: up to white space or to a parenthesis that it does not open
itself. `most` bounds the parentheses open at once. -/
def plainUrl? (most : Nat) : Nat → Text → Option (Text × Text)
  | nest, [] => if nest == 0 then some ([], []) else none
  | nest, '\\' :: c :: rest =>
    if isAsciiPunctuation c then
      (plainUrl? most nest rest).map fun (url, rest) => ('\\' :: c :: url, rest)
    else if c.val ≤ 0x20 then if nest == 0 then some (['\\'], c :: rest) else none
    else (plainUrl? most nest rest).map fun (url, rest) => ('\\' :: c :: url, rest)
  | nest, c :: rest =>
    if c.val ≤ 0x20 then if nest == 0 then some ([], c :: rest) else none
    else if c == '(' then
      if most < nest then none
      else (plainUrl? most (nest + 1) rest).map fun (url, rest) => (c :: url, rest)
    else if c == ')' then
      if nest == 0 then some ([], c :: rest)
      else (plainUrl? most (nest - 1) rest).map fun (url, rest) => (c :: url, rest)
    else (plainUrl? most nest rest).map fun (url, rest) => (c :: url, rest)

/-- Reads a link target of either form, as written. -/
def url? (most : Nat) : Text → Option (Text × Text)
  | '<' :: rest => pointyUrl? rest
  | t => plainUrl? most 0 t

/-- The character that closes a title opened by a given one. -/
def titleEnd? : Char → Option Char
  | '"' => some '"'
  | '\'' => some '\''
  | '(' => some ')'
  | _ => none

def skipSpaces (t : Text) : Text := t.dropWhile isSpace

/-- Reads a title of a link inside running text, after its opening mark, and decodes it. Lines after the
first lose their indentation. -/
def titleRest? (opening closing : Char) : Nat → Text → Option (Text × Text)
  | 0, _ => none
  | _ + 1, [] => none
  | fuel + 1, c :: rest =>
    if c == closing then some ([], rest)
    else if c == opening then none
    else match c, rest with
      | '\n', rest =>
        (titleRest? opening closing fuel (rest.dropWhile fun x => x == ' ' || x == '\t')).map
          fun (title, rest) => ('\n' :: title, rest)
      | '&', rest =>
        match entity? rest with
        | some (out, rest) =>
          (titleRest? opening closing fuel rest).map fun (title, rest) => (out ++ title, rest)
        | none =>
          (titleRest? opening closing fuel rest).map fun (title, rest) => ('&' :: title, rest)
      | '\\', d :: rest =>
        if isAsciiPunctuation d then
          (titleRest? opening closing fuel rest).map fun (title, rest) => (d :: title, rest)
        else
          (titleRest? opening closing fuel (d :: rest)).map fun (title, rest) => ('\\' :: title, rest)
      | c, rest =>
        (titleRest? opening closing fuel rest).map fun (title, rest) => (c :: title, rest)

/-- Reads a title and the white space after it, when there is one. -/
def title? (t : Text) : Option (Text × Text) :=
  match t with
  | [] => none
  | opening :: rest => do
    let closing ← titleEnd? opening
    titleRest? opening closing (rest.length + 1) rest

/-- White space with at most one newline in it. -/
def skipSeparator (t : Text) : Text :=
  match skipSpaces t with
  | '\n' :: rest => skipSpaces rest
  | rest => rest

/-- The deepest nesting of parentheses in the target of a link. -/
def inlineNesting : Nat := 32

/-- Reads what follows the brackets of an inline link: parentheses around a target and a title. -/
def inlineTarget? : Text → Option (Target × Text)
  | '(' :: t => do
    let (url, t) ← url? inlineNesting (skipSeparator t)
    let t := skipSeparator t
    let (title, t) := match title? t with
      | some (title, t) => (title, skipSeparator t)
      | none => ([], t)
    match t with
    | ')' :: rest => some (⟨decodeEscapes url, title⟩, rest)
    | _ => none
  | _ => none

/-- Reads a link label after its opening bracket. Runs of white space become one space; a second newline
in one run, an opening bracket, or more than a thousand characters spoil the label. -/
def labelRest? : Nat → Text → Option (Text × Text)
  | 0, _ => none
  | _ + 1, [] => none
  | _ + 1, '[' :: _ => none
  | _ + 1, ']' :: rest => some ([], rest)
  | fuel + 1, '\\' :: c :: rest =>
    (labelRest? fuel rest).map fun (label, rest) => ('\\' :: c :: label, rest)
  | fuel + 1, c :: rest =>
    if isSpace c || c == '\n' then
      let run := (c :: rest).takeWhile fun x => isSpace x || x == '\n'
      if 1 < run.count '\n' then none
      else (labelRest? fuel ((c :: rest).drop run.length)).map fun (label, rest) =>
        (' ' :: label, rest)
    else (labelRest? fuel rest).map fun (label, rest) => (c :: label, rest)

/-- Capital letters that count as others, beside the small letters that have them as capitals. -/
def sameCapitals : List (Nat × List Nat) :=
  [(0x130, [0x49, 0x307]), (0x3F4, [0x398]), (0x1E9E, [0x53, 0x53]), (0x2126, [0x3A9]), (0x212A, [0x4B]),
   (0x212B, [0xC5])]

/-- The form in which labels are compared, in which small and capital letters are the same. -/
def foldLabel (label : Text) : Text :=
  (Text.trim label).flatMap fun c =>
    match sameCapitals.lookup c.val.toNat with
    | some capitals => capitals.map Char.ofNat
    | none => Text.upper c

/-- Reads a link label with its brackets; a label of white space only is none. -/
def label? : Text → Option (Text × Text)
  | '[' :: t => do
    let (label, rest) ← labelRest? 1000 t
    if Text.allBlank label then none else some (foldLabel label, rest)
  | _ => none

/-- Labels with the targets that a document defines for them, the earliest definition first. -/
abbrev Definitions := List (Text × Target)

/-- Reads the title of a link definition, as written, after its opening mark. -/
def definitionTitle? (closing : Char) : Text → Option (Text × Text)
  | [] => none
  | '\\' :: c :: rest =>
    if c == '\n' || c == '\r' then
      (definitionTitle? closing rest).map fun (title, rest) => ('\\' :: c :: title, rest)
    else (definitionTitle? closing rest).map fun (title, rest) => ('\\' :: c :: title, rest)
  | c :: rest =>
    if c == closing then some ([], rest)
    else (definitionTitle? closing rest).map fun (title, rest) => (c :: title, rest)

/-- White space with at most one newline: what follows it, and whether it held a newline. -/
def definitionSpace (t : Text) : Text × Bool :=
  match skipSpaces t with
  | '\n' :: rest => (skipSpaces rest, true)
  | rest => (rest, false)

def atLineEnd (t : Text) : Bool :=
  match skipSpaces t with
  | [] | '\n' :: _ => true
  | _ => false

/-- Reads a link definition off the front of a paragraph: its label, its target, and what follows it,
which starts at the end of a line. A title that does not end its line is not part of the definition;
on the target's own line it spoils the definition. -/
def definition? (t : Text) : Option ((Text × Target) × Text) := do
  let (label, t) ← label? t
  match t with
  | ':' :: t =>
    let start := (definitionSpace t).1
    let (url, t) ← url? 1 start
    if t.length == start.length then none
    else
      let bare := ((label, ⟨decodeEscapes url, []⟩), t)
      let (next, newline) := definitionSpace t
      let ended := newline || next.isEmpty
      if next.length == t.length && !ended then none
      else
        let titled := match next with
          | [] => none
          | opening :: rest => do
            let closing ← titleEnd? opening
            let (title, rest) ← definitionTitle? closing rest
            if atLineEnd rest then some ((label, ⟨decodeEscapes url, decodeEscapes title⟩), rest)
            else none
        match titled with
        | some found => some found
        | none => if ended then some bare else none
  | _ => none

end StaticSite.Markdown
