import StaticSite.Text

/-!
# File paths

A file path is kept as it is written and read through its parts. Empty segments and single dots say
nothing, save a dot at the very start; so different texts can be the same path.
-/
namespace StaticSite

abbrev FilePath := Text

namespace FilePath

inductive Part where
  | root
  | here
  | up
  | name (t : Text)
deriving DecidableEq

/-- What a segment after the first one says. -/
def partOf? (segment : Text) : Option Part :=
  if segment = [] then none
  else if segment = ['.'] then none
  else if segment = ['.', '.'] then some .up
  else some (.name segment)

/-- What the first segment says; `more` tells whether a slash follows it. -/
def firstPart? (segment : Text) (more : Bool) : Option Part :=
  if segment = [] then if more then some .root else none
  else if segment = ['.'] then some .here
  else partOf? segment

def parts (p : FilePath) : List Part :=
  match Text.splitOn '/' p with
  | [] => []
  | first :: rest => (firstPart? first (!rest.isEmpty)).toList ++ rest.filterMap partOf?

/-- Whether two texts are the same path. -/
def same (p q : FilePath) : Bool := parts p == parts q

def Part.text : Part → Text
  | .root => "/"
  | .here => "."
  | .up => ".."
  | .name t => t

/-- Order of parts: the root, a dot, two dots, then names. -/
def Part.before : Part → Part → Bool
  | .name a, .name b => Text.before a b
  | a, b => rank a < rank b
where
  rank : Part → Nat
    | .root => 0
    | .here => 1
    | .up => 2
    | .name _ => 3

def partsBefore : List Part → List Part → Bool
  | [], [] => false
  | [], _ :: _ => true
  | _ :: _, [] => false
  | a :: as, b :: bs => a.before b || (a == b && partsBefore as bs)

/-- Order of paths, part by part. -/
def before (p q : FilePath) : Bool := partsBefore (parts p) (parts q)

def isAbsolute (p : FilePath) : Bool := p.head? == some '/'

/-- The path `q` taken from `p`; an absolute path stands for itself. -/
def join (p q : FilePath) : FilePath :=
  if isAbsolute q || p.isEmpty then q
  else if p.getLast? == some '/' then p ++ q
  else p ++ '/' :: q

/-- The segments without those at the end that say nothing. -/
def dropSilent (segments : List Text) : List Text :=
  (segments.reverse.dropWhile fun s => (partOf? s).isNone).reverse

def ofSegments (first : Text) (rest : List Text) : FilePath :=
  if first.isEmpty && rest.isEmpty then "/" else Text.join "/" (first :: rest)

/-- The path without its last part; the root and the empty path have none. -/
def parent? (p : FilePath) : Option FilePath :=
  match Text.splitOn '/' p with
  | [] => none
  | first :: rest =>
    match dropSilent rest with
    | [] => if first.isEmpty then none else some []
    | rest => some (ofSegments first (dropSilent rest.dropLast))

/-- The last part, when it is a name. -/
def fileName? (p : FilePath) : Option Text :=
  match (parts p).getLast? with
  | some (.name t) => some t
  | _ => none

/-- A file name cut at its last dot, unless that dot starts it. -/
def cutExtension (name : Text) : Text × Option Text :=
  let extension := (name.reverse.takeWhile (· != '.')).reverse
  let stem := name.take (name.length - extension.length - 1)
  if extension.length == name.length || stem.isEmpty then (name, none) else (stem, some extension)

def fileStem? (p : FilePath) : Option Text := (fileName? p).map fun name => (cutExtension name).1

def extension? (p : FilePath) : Option Text := (fileName? p).bind fun name => (cutExtension name).2

/-- The path with the extension of its file name removed, and everything after the name. -/
def dropExtension (p : FilePath) : FilePath :=
  match fileStem? p, Text.splitOn '/' p with
  | some stem, first :: rest =>
    match dropSilent rest with
    | [] => stem
    | rest => Text.join "/" (first :: rest.dropLast ++ [stem])
  | _, _ => p

/-- Drops segments until a number of parts has gone. -/
def dropParts : Nat → List Text → List Text
  | _, [] => []
  | 0, segments => segments.dropWhile fun s => (partOf? s).isNone
  | n + 1, s :: rest => dropParts (if (partOf? s).isSome then n else n + 1) rest

/-- The path relative to one that it starts with. -/
def relativeTo? (base p : FilePath) : Option FilePath :=
  let start := parts base
  if start.isPrefixOf (parts p) then
    match Text.splitOn '/' p with
    | [] => some []
    | first :: rest =>
      match start.length with
      | 0 => some (if p.isEmpty then [] else ofSegments first (dropSilent rest))
      | n + 1 => some (Text.join "/" (dropSilent (dropParts n rest)))
  else none

/-- The names of a path, joined by slashes. -/
def toSlash (p : FilePath) : Text :=
  Text.join "/" ((parts p).filterMap fun
    | .name t => some t
    | _ => none)

/-- Whether a path is another one or lies below it, as the two are written. -/
def isBelow (base p : FilePath) : Bool := (parts base).isPrefixOf (parts p)

/-- The parts that two paths start with in common, dropped from both. -/
def dropCommon : List Part → List Part → List Part × List Part
  | a :: as, b :: bs => if a = b then dropCommon as bs else (a :: as, b :: bs)
  | as, bs => (as, bs)

/-- The specifier by which a module in one directory imports a file: up to the common directory, then
down to the file. It starts with two dots or with a dot and a slash. -/
def specifier (directory target : FilePath) : Text :=
  let (up, down) := dropCommon (parts directory) (parts target)
  let path := Text.join "/" (up.map (fun _ => Part.text .up) ++ down.map Part.text)
  if Text.startsWith ".." path then path else "./" ++ path

end FilePath

end StaticSite
