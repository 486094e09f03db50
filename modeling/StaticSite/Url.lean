import StaticSite.FilePath

/-!
# Site URLs

From documents to entries, from entries to the URLs of their pages, and from URLs to output files. A site
may be served under a base path, which starts with a slash and does not end with one.
-/
namespace StaticSite

/-- The logical name of a document given by its path in the content directory. -/
def entryName (relative : FilePath) : Text := FilePath.toSlash (FilePath.dropExtension relative)

namespace Url

/-- The directory that an index entry stands for; any other entry stands for itself. -/
def indexDirectory (entry : Text) : Text :=
  if Text.endsWith "/index" entry || entry = "index".toList then
    Text.dropEndWhile (· == '/') ((Text.before? "index" entry).getD entry)
  else entry

/-- The text without one slash at its end, unless it is that slash. -/
def dropLastSlash (url : Text) : Text :=
  if 1 < url.length && url.getLast? == some '/' then url.dropLast else url

/-- The URL of an entry's page. -/
def ofEntry (entry : Text) (base : Option Text) : Text :=
  dropLastSlash (base.getD [] ++ '/' :: indexDirectory entry)

/-- The file that answers a URL: a URL with a dot names a file, any other a directory with an index. -/
def outputFile (url : Text) (output : FilePath) : FilePath :=
  let path := url.dropWhile (· == '/')
  if path.isEmpty then FilePath.join output "index.html"
  else if path.contains '.' then FilePath.join output path
  else FilePath.join (FilePath.join output path) "index.html"

/-- The base path that a configured text stands for; slashes and blanks alone stand for none. -/
def normalizeBase? (raw : Option Text) : Option Text := do
  let trimmed := Text.trimChar '/' (Text.trim (← raw))
  if trimmed.isEmpty then none else some ('/' :: trimmed)

/-- A path of the site under the base path. -/
def withBase (path : Text) (base : Option Text) : Text :=
  match base with
  | none => path
  | some base => if path.head? == some '/' then base ++ path else base ++ '/' :: path

/-- Resolves single and double dots among segments, given the segments so far, last first. Nothing goes
above the root. -/
def resolve : List Text → List Text → List Text
  | done, [] => done.reverse
  | done, s :: rest =>
    if s = [] then resolve done rest
    else if s = ['.'] then resolve done rest
    else if s = ['.', '.'] then resolve (done.drop 1) rest
    else resolve (s :: done) rest

/-- The path without empty and dot segments. -/
def normalizePath (path : Text) : Text :=
  let joined := Text.join "/" (resolve [] (Text.splitOn '/' path))
  if path.head? == some '/' then '/' :: joined else joined

def isSchemeChar (c : Char) : Bool :=
  Text.isAsciiAlphanumeric c || c == '+' || c == '-' || c == '.'

/-- Whether a reference starts with a scheme and a colon. -/
def hasScheme (reference : Text) : Bool :=
  let scheme := reference.takeWhile (· != ':')
  scheme.length < reference.length && scheme.head?.any Text.isAsciiLetter &&
    scheme.all isSchemeChar

/-- Whether a reference leads elsewhere or to a place in the same page, and so stays as it is. -/
def isExternal (reference : Text) : Bool :=
  Text.startsWith "#" reference || Text.startsWith "//" reference || hasScheme reference

/-- The reference to an image from a document in a directory of the content, as the page needs it. -/
def rebaseImage (reference directory : Text) (base : Option Text) : Text :=
  if reference.isEmpty || isExternal reference then reference
  else if reference.head? == some '/' then withBase reference base
  else withBase (normalizePath ('/' :: directory ++ '/' :: reference)) base

/-- The target of a link as the page needs it; relative links stay as they are. -/
def rebaseLink (reference : Text) (base : Option Text) : Text :=
  if base.isSome && reference.head? == some '/' && !isExternal reference then
    withBase reference base
  else reference

end Url

end StaticSite
