import StaticSite.Markdown.Block
import StaticSite.Proofs.Document.Attributes
import StaticSite.Proofs.Document.Segments

/-!
# Code fences and blocks of declarations

A code fence is opened by at least three marks and closed by as many. The cutting of a body knows a fence by three
marks at the start of a line alone, so a line can look like a fence without being one. Where no line does, the cutting
takes every line for what it is, and no line of a code block gets into a block of declarations.
-/
namespace StaticSite

namespace Text

variable {t : Text} {mark : Char}

end Text

namespace Segment

/-! ## Lines that open and close fences -/

/-- A line without its indentation, which is at most three spaces. -/
def outdented? (line : Text) : Option Text :=
  if (line.takeWhile (· == ' ')).length ≤ 3 then some (line.dropWhile (· == ' ')) else none

/-- The mark and length of the fence that a line opens outside all fences. -/
def openedFence? (line : Text) : Option (Char × Nat) := (outdented? line).bind Markdown.fence?

/-- Whether a line closes a fence. -/
def closesFence (mark : Char) (length : Nat) (line : Text) : Bool :=
  (outdented? line).any (Markdown.closesFence mark length)

variable {line t : Text} {mark : Char} {length : Nat}

/-- Where a line of a body stands, by the lines above it. -/
inductive Place where
  /-- In Markdown outside all fences, with whether a paragraph may start. -/
  | prose (fresh : Bool)
  /-- In a block of code that is fenced by a run of marks. -/
  | fenced (mark : Char) (length : Nat)
  /-- In a block of declarations, where no line is Markdown. -/
  | declarations
  deriving DecidableEq

namespace Place

/-- The place behind a line. A block of code lasts until its fence is closed, and a block of declarations until the
next blank line. -/
def next : Place → Text → Place
  | prose fresh, line =>
    match openedFence? line with
    | some (mark, length) => fenced mark length
    | none => if fresh && Cutter.startsDeclaration line then declarations else prose (Text.allBlank line)
  | fenced mark length, line => if closesFence mark length line then prose (Text.allBlank line) else fenced mark length
  | declarations, line => if Text.allBlank line then prose true else declarations

/-- The place behind some lines of a body. -/
def after (ls : List Text) : Place := ls.foldl next (prose true)

/-- Whether a line that looks like a fence at its place is one. In code only the marks of the open fence count. -/
def clear : Place → Text → Bool
  | prose _, line =>
    (openedFence? line).isSome ||
      !(Text.startsWith "\x60\x60\x60" (Text.trimStart line) || Text.startsWith "~~~" (Text.trimStart line))
  | fenced mark length, line =>
    closesFence mark length line || !Text.startsWith [mark, mark, mark] (Text.trimStart line)
  | declarations, _ => true

end Place

variable {p : Place} {c : Cutter} {above below ls : List Text}

/-- The cutting of a body takes a place for what it is. -/
inductive Agrees : Place → Cutter → Prop
  | prose {fresh : Bool} {c : Cutter} (hblock : c.block = none) (hfence : c.fence = none)
      (hfresh : c.paragraphStart = fresh) : Agrees (.prose fresh) c
  | fenced {mark : Char} {length : Nat} {c : Cutter} (hblock : c.block = none)
      (hfence : c.fence = some [mark, mark, mark]) (hmark : Text.isBlank mark = false) (hlength : 3 ≤ length) :
      Agrees (.fenced mark length) c
  | declarations {block : Text} {c : Cutter} (hblock : c.block = some block) (hfence : c.fence = none) :
      Agrees .declarations c

end Segment

namespace ShownModules

open Segment

/-- Code that shows code, up to the inner fence and below it. -/
def aboveImport : List Text := ["\x60\x60\x60\x60md", "\x60\x60\x60js", ""]

def belowImport : List Text := ["\x60\x60\x60", "\x60\x60\x60\x60"]

def nested : Text := Text.unlines (aboveImport ++ "import x from 'y'".toList :: belowImport)

end ShownModules

end StaticSite
