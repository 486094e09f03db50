import StaticSite.Yaml.Cursor

/-!
# YAML tags and directives

Readers of the tags of nodes and of the directives in front of a document. A tag is written as a handle and
a suffix; a directive may say what a handle stands for.
-/
namespace StaticSite.Yaml.Tag

/-- Characters of a tag; the last three only in places where no list of items can be meant. -/
def isUriChar (lists : Bool) (c : Char) : Bool :=
  isNameChar c || ";/?:@&=+$.%!~*'()".toList.contains c || (lists && ",[]".toList.contains c)

/-- Reads a byte written as a percent sign and two hexadecimal digits. -/
def byte? : Text → Option Nat
  | '%' :: a :: b :: _ => do some (16 * (← Text.hexValue? a) + (← Text.hexValue? b))
  | _ => none

/-- How many bytes a UTF-8 sequence with a first byte has, and the bits of the character in that byte. -/
def sequence? (first : Nat) : Option (Nat × Nat) :=
  if first < 0x80 then some (1, first)
  else if first < 0xC0 then none
  else if first < 0xE0 then some (2, first - 0xC0)
  else if first < 0xF0 then some (3, first - 0xE0)
  else if first < 0xF8 then some (4, first - 0xF0)
  else none

/-- Reads the further bytes of a sequence. -/
def trailing? : Nat → Nat → Text → Option (Nat × Text)
  | 0, n, t => some (n, t)
  | k + 1, n, t => do
    let b ← byte? t
    if 0x80 ≤ b && b < 0xC0 then trailing? k (64 * n + (b - 0x80)) (t.drop 3) else none

/-- Reads a character that is written by its bytes: the character, and how many characters were read. -/
def escape? (t : Text) : Option (Char × Nat) := do
  let (n, bits) ← sequence? (← byte? t)
  let (code, _) ← trailing? (n - 1) bits (t.drop 3)
  if code.isValidChar then some (Char.ofNat code, 3 * n) else none

/-- Reads the characters of a tag. -/
def uriFrom? (lists : Bool) : Nat → Text → Cursor → Option (Text × Cursor)
  | 0, t, c => some (t, c)
  | fuel + 1, t, c =>
    match c.rest with
    | [] => some (t, c)
    | ch :: _ =>
      if !isUriChar lists ch then some (t, c)
      else if ch == '%' then do
        let (found, n) ← escape? c.rest
        uriFrom? lists fuel (t ++ [found]) (c.skip n)
      else uriFrom? lists fuel (t ++ [ch]) (c.skip 1)

def uri? (lists : Bool) (c : Cursor) : Option (Text × Cursor) := uriFrom? lists c.rest.length [] c

/-- Reads characters of a tag, of which there must be some. -/
def someUri? (lists : Bool) (c : Cursor) : Option (Text × Cursor) := do
  let (t, next) ← uri? lists c
  if t.isEmpty then none else some (t, next)

/-- Reads an exclamation mark with the name after it, and a second mark if there is one. -/
def handle (c : Cursor) : Text × Cursor :=
  let name := (c.rest.drop 1).takeWhile isNameChar
  if (c.rest.drop (name.length + 1)).head? == some '!' then
    ('!' :: name ++ ['!'], c.skip (name.length + 2))
  else ('!' :: name, c.skip (name.length + 1))

/-- Reads the handle and the suffix of a tag. A tag in angle brackets has no handle, and neither has the
mark that stands alone. -/
def parts? (c : Cursor) : Option ((Text × Text) × Cursor) :=
  if (c.rest.drop 1).head? == some '<' then do
    let (suffix, c) ← someUri? true (c.skip 2)
    if c.rest.head? == some '>' then some (([], suffix), c.skip 1) else none
  else
    let (start, next) := handle c
    if 1 < start.length && start.getLast? == some '!' then do
      let (suffix, c) ← someUri? false next
      some ((start, suffix), c)
    else do
      let (suffix, c) ← uri? false next
      let suffix := start.drop 1 ++ suffix
      some (if suffix.isEmpty then ([], ['!']) else (['!'], suffix), c)

/-- Reads a tag with what must follow it: a gap, or a comma inside brackets. -/
def read? (flow : Bool) (c : Cursor) : Option ((Text × Text) × Cursor) := do
  let (tag, c) ← parts? c
  if atGap c.rest || (flow && c.rest.head? == some ',') then some (tag, c) else none

/-! ## Directives -/

inductive Directive where
  | version (major minor : Nat)
  /-- What a handle stands for. -/
  | handle (name expansion : Text)

/-- Reads a number of at most nine digits. -/
def number? (c : Cursor) : Option (Nat × Cursor) :=
  let digits := c.rest.takeWhile Text.isAsciiDigit
  if digits.isEmpty || 9 < digits.length then none
  else some (Text.digitsValue digits, c.skip digits.length)

def version? (c : Cursor) : Option (Directive × Cursor) := do
  let (major, c) ← number? (c.skipWhile isSpace)
  if c.rest.head? != some '.' then none
  else
    let (minor, c) ← number? (c.skip 1)
    some (.version major minor, c)

def handleMeaning? (c : Cursor) : Option (Directive × Cursor) := do
  let c := c.skipWhile isSpace
  if c.rest.head? != some '!' then none
  else
    let (name, c) := handle c
    if 1 < name.length && name.getLast? != some '!' then none
    else if !c.rest.head?.any isSpace then none
    else
      let (expansion, c) ← someUri? true (c.skipWhile isSpace)
      if atGap c.rest then some (.handle name expansion, c) else none

/-- Reads a directive from its percent sign to the end of its line. -/
def directive? (c : Cursor) : Option (Directive × Cursor) := do
  let c := c.skip 1
  let name := c.rest.takeWhile isNameChar
  let c := c.skip name.length
  if name.isEmpty || !atGap c.rest then none
  else
    let (directive, c) ←
      if name = "YAML".toList then version? c
      else if name = "TAG".toList then handleMeaning? c
      else none
    some (directive, ← c.skipLineRest?)

end StaticSite.Yaml.Tag
