import StaticSite.Text

/-!
# The front matter block

Cuts the front matter off the top of a document: a block between two fences of three dashes, of which
the first stands alone on the first line that is not blank.
-/
namespace StaticSite.Fences

/-- A document cut in two. -/
structure Cut where
  frontMatter : Option Text
  body : Text

def isLineEnd (c : Char) : Bool := c == '\r' || c == '\n'

def trimLineEnds (t : Text) : Text := t.dropWhile isLineEnd

/-- What follows the line of a closing fence, without empty lines in front. -/
def afterFence (t : Text) : Text :=
  match t.dropWhile (· != '\n') with
  | [] => []
  | _ :: rest => trimLineEnds rest

/-- Finds the closing fence in what follows the opening one; an empty block may close at once. -/
def closing? (t : Text) : Option (Text × Text) :=
  match Text.after? "---" (trimLineEnds t) with
  | some rest => some ([], rest)
  | none => (Text.cut? "\n---" t).map fun (block, rest) => (trimLineEnds block, rest)

def startsLineEnd : Text → Bool
  | '\n' :: _ => true
  | '\r' :: '\n' :: _ => true
  | _ => false

/-- Cuts the front matter off a document. Without both fences the whole document is body. -/
def cut (content : Text) : Cut :=
  let whole : Cut := ⟨none, content⟩
  match Text.after? "---" (Text.trimStart content) with
  | none => whole
  | some rest =>
    if startsLineEnd rest then
      match closing? rest with
      | none => whole
      | some (block, rest) => ⟨some block, afterFence rest⟩
    else whole

end StaticSite.Fences
