import StaticSite.Text

/-!
# Segments of a body

A document body is import/export blocks and Markdown in turn. A block starts with `import ` or `export `
at the first line or after a blank line, outside code fences, and lasts up to the next blank line.
-/
namespace StaticSite

inductive Segment where
  | declarations (source : Text)
  | markdown (source : Text)

namespace Segment

/-- The cutting of a body under way. -/
structure Cutter where
  segments : List Segment
  markdown : Text
  /-- The import/export block that is open. -/
  block : Option Text
  /-- The marker of the code fence that is open. -/
  fence : Option Text
  paragraphStart : Bool

namespace Cutter

def start : Cutter := ⟨[], [], none, none, true⟩

def startsDeclaration (line : Text) : Bool :=
  Text.startsWith "import " line || Text.startsWith "export " line

/-- Ends the Markdown collected so far; blank text is no segment. -/
def endMarkdown (c : Cutter) : Cutter :=
  { c with
    segments := if Text.allBlank c.markdown then c.segments else c.segments ++ [.markdown c.markdown],
    markdown := [] }

/-- The fence that is open after a line, and whether the line starts a block of declarations. -/
def fenceAfter (c : Cutter) (line : Text) : Option Text × Bool :=
  let trimmed := Text.trimStart line
  match c.fence with
  | some marker => (if Text.startsWith marker trimmed then none else some marker, false)
  | none =>
    if Text.startsWith "\x60\x60\x60" trimmed then (some "\x60\x60\x60", false)
    else if Text.startsWith "~~~" trimmed then (some "~~~", false)
    else (none, c.paragraphStart && startsDeclaration line)

def line (c : Cutter) (line : Text) : Cutter :=
  match c.block with
  | some block =>
    if Text.allBlank line then
      { c with segments := c.segments ++ [Segment.declarations block], block := none, paragraphStart := true }
    else { c with block := some (block ++ '\n' :: line) }
  | none =>
    let (fence, starts) := c.fenceAfter line
    if starts then { c.endMarkdown with block := some line }
    else
      { c with
        fence, markdown := c.markdown ++ line ++ ['\n'],
        paragraphStart := fence.isNone && Text.allBlank line }

def finish (c : Cutter) : List Segment :=
  let c := match c.block with
    | some block => { c with segments := c.segments ++ [Segment.declarations block] }
    | none => c
  c.endMarkdown.segments

end Cutter

/-- The segments of a body. -/
def ofBody (body : Text) : List Segment := ((Text.lines body).foldl Cutter.line Cutter.start).finish

end Segment

end StaticSite
