import StaticSite.Text

/-!
# Reading a line by columns

Indentation is counted in columns, and a tab reaches to the next multiple of four. A cursor remembers
how much of a tab is still unused, so that a container may take a part of it.
-/
namespace StaticSite.Markdown

/-- White space inside a line. -/
def isSpace (c : Char) : Bool := c == ' ' || c == '\t' || c == '\x0b' || c == '\x0c'

def isBlankLine (line : Text) : Bool := line.all isSpace

/-- How far a line has been read. -/
structure Cursor where
  rest : Text
  /-- The number of characters read since the last tab, which decides how wide the next tab is. -/
  column : Nat
  /-- The columns of the last tab that nothing has taken yet. -/
  pending : Nat

namespace Cursor

def ofLine (line : Text) : Cursor := ⟨line, 0, 0⟩

/-- Takes columns of white space from the front of a text; the first result is how many are missing. -/
def walk : Nat → Nat → Text → Nat × Cursor
  | n, column, [] => (n, ⟨[], column, 0⟩)
  | 0, column, c :: rest => (0, ⟨c :: rest, column, 0⟩)
  | n + 1, column, ' ' :: rest => walk n (column + 1) rest
  | n + 1, column, '\t' :: rest =>
    let width := 4 - column % 4
    if width ≤ n + 1 then walk (n + 1 - width) 0 rest else (0, ⟨rest, 0, width - (n + 1)⟩)
  | n + 1, column, c :: rest => (n + 1, ⟨c :: rest, column, 0⟩)

/-- Takes up to a number of columns of white space; the first result is how many are missing. -/
def skip (n : Nat) (c : Cursor) : Nat × Cursor :=
  if n ≤ c.pending then (0, ⟨c.rest, c.column, c.pending - n⟩)
  else walk (n - c.pending) c.column c.rest

/-- Takes exactly a number of columns, when there are that many. -/
def indent? (n : Nat) (c : Cursor) : Option Cursor :=
  match c.skip n with
  | (0, c) => some c
  | _ => none

def skipAll (c : Cursor) : Cursor :=
  ⟨c.rest.dropWhile fun x => x == ' ' || x == '\t', c.column, 0⟩

/-- Steps over characters that are no tabs. -/
def advance (n : Nat) (c : Cursor) : Cursor := ⟨c.rest.drop n, c.column + n, c.pending⟩

def atEnd (c : Cursor) : Bool := c.rest.isEmpty

/-- What follows a quotation mark, less one column of white space. -/
def quote? (c : Cursor) : Option Cursor :=
  match c.rest with
  | '>' :: _ => some ((c.advance 1).skip 1).2
  | _ => none

end Cursor

end StaticSite.Markdown
