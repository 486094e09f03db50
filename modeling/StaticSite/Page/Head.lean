import StaticSite.Document.FrontMatter
import StaticSite.Page.Shell
import StaticSite.Text.Escape
import StaticSite.Url

/-!
# Page heads

The metadata in the head of a page: which values it has, the tags that carry them, and their injection into
a page that has been rendered. Every value is escaped.
-/
namespace StaticSite

structure Head where
  title : Option Text
  description : Option Text
  image : Option Text
  pageType : Text
  /-- The address of the page, where the page or the site gives one. -/
  url : Option Text
  language : Option Text

namespace Head

/-- A path of the site as an address, when the site has one. -/
def address (site : SiteInfo) (path : Text) : Option Text :=
  site.url.map fun url => Text.dropEndWhile (· == '/') url ++ path

/-- The address of a page's image. Images of the site get the base path and the address of the site. -/
def imageAddress (site : SiteInfo) (base : Option Text) (image : Text) : Text :=
  if Url.isExternal image || image.head? != some '/' then image
  else
    let path := Url.withBase image base
    (address site path).getD path

/-- The head of a page, from its front matter and the site. -/
def ofPage (m : FrontMatter) (site : SiteInfo) (pageUrl : Text) (base : Option Text) : Head where
  title := m.title
  description := m.description.or site.description
  image := m.image.map (imageAddress site base)
  pageType := m.pageType.getD "website"
  url := m.canonical.or (address site pageUrl)
  language := m.language

/-! ## Tags -/

def nameTag (name : String) (content : Text) : Text :=
  "<meta name=\"" ++ name.toList ++ "\" content=\"" ++ Text.escape content ++ "\" />"

def propertyTag (property : String) (content : Text) : Text :=
  "<meta property=\"" ++ property.toList ++ "\" content=\"" ++ Text.escape content ++ "\" />"

def canonicalTag (url : Text) : Text :=
  "<link rel=\"canonical\" href=\"" ++ Text.escape url ++ "\" />"

def titleElement (title : Text) : Text := "<title>" ++ Text.escape title ++ "</title>"

/-- The tags of a head, apart from the title. -/
def tags (h : Head) : List Text :=
  h.description.toList.map (nameTag "description") ++
  h.title.toList.map (propertyTag "og:title") ++
  h.description.toList.map (propertyTag "og:description") ++
  h.image.toList.map (propertyTag "og:image") ++
  [propertyTag "og:type" h.pageType] ++
  h.url.toList.map (propertyTag "og:url") ++
  [nameTag "twitter:card" (if h.image.isSome then "summary_large_image" else "summary")] ++
  h.title.toList.map (nameTag "twitter:title") ++
  h.description.toList.map (nameTag "twitter:description") ++
  h.image.toList.map (nameTag "twitter:image") ++
  h.url.toList.map canonicalTag

/-! ## Places in a page -/

/-- What follows a given beginning, whatever the case of its letters. -/
def afterAnyCase? : Text → Text → Option Text
  | [], t => some t
  | _ :: _, [] => none
  | p :: ps, c :: cs =>
    if Text.asciiLowerChar p = Text.asciiLowerChar c then afterAnyCase? ps cs else none

/-- The first place at which a reader succeeds: the text before it, what the reader gives, and the rest of
the text that it leaves. -/
def firstMatch? (read : Text → Option (α × Text)) : Text → Option (Text × α × Text)
  | [] => (read []).map fun (a, rest) => ([], a, rest)
  | c :: cs =>
    match read (c :: cs) with
    | some (a, rest) => some ([], a, rest)
    | none => (firstMatch? read cs).map fun (before, a, rest) => (c :: before, a, rest)

/-- Reads a title element without attributes. -/
def titleElement? (t : Text) : Option (Unit × Text) := do
  let inside ← afterAnyCase? "<title>" t
  let (_, _, rest) ← firstMatch? (fun t => (afterAnyCase? "</title>" t).map fun rest => ((), rest)) inside
  some ((), rest)

/-- Recognises the end tag of a head, without reading it. -/
def headEnd? (t : Text) : Option (Unit × Text) := do
  let rest ← afterAnyCase? "</head" t
  if (Text.trimStart rest).head? == some '>' then some ((), t) else none

/-- Reads the start tag of the page: its attributes. -/
def htmlStart? (t : Text) : Option (Text × Text) := do
  let rest ← afterAnyCase? "<html" t
  let attributes := rest.takeWhile (· != '>')
  if !attributes.isEmpty && !attributes.head?.any Text.isBlank then none
  else match rest.drop attributes.length with
    | _ :: rest => some (attributes, rest)
    | [] => none

/-- Reads the value of an attribute, in quotes or without. -/
def skipValue? (t : Text) : Option Text :=
  let bare : Option Text :=
    let value := t.takeWhile fun c => !Text.isBlank c && c != '>'
    if value.isEmpty then none else some (t.drop value.length)
  match t with
  | [] => none
  | quote :: rest =>
    if quote == '"' || quote == '\'' then
      match rest.dropWhile (· != quote) with
      | _ :: rest => some rest
      | [] => bare
    else bare

/-- Reads a language attribute with one blank before it. -/
def languageAttribute? (t : Text) : Option (Unit × Text) :=
  match t with
  | [] => none
  | c :: rest =>
    if Text.isBlank c then do
      let rest ← afterAnyCase? "lang" rest
      match Text.trimStart rest with
      | '=' :: rest => (skipValue? (Text.trimStart rest)).map fun rest => ((), rest)
      | _ => none
    else none

/-! ## Injection -/

/-- The page with the first title element replaced, if it has one. -/
def replaceTitle? (title html : Text) : Option Text :=
  (firstMatch? titleElement? html).map fun (before, _, rest) => before ++ titleElement title ++ rest

/-- The page with tags before the end of its head, if it has a head. -/
def insertTags (tags : List Text) (html : Text) : Text :=
  match firstMatch? headEnd? html with
  | some (before, _, rest) => before ++ tags.flatMap (fun tag => ' ' :: ' ' :: tag ++ ['\n']) ++ rest
  | none => html

/-- Attributes with a language among them, in place of the first one that they name or at their start. -/
def withLanguage (language attributes : Text) : Text :=
  let written : Text := " lang=\"" ++ Text.escape language ++ ['"']
  match firstMatch? languageAttribute? attributes with
  | some (before, _, rest) => before ++ written ++ rest
  | none => written ++ attributes

/-- The page with a language on its start tag, if it has one. -/
def setLanguage (language html : Text) : Text :=
  match firstMatch? htmlStart? html with
  | some (before, attributes, rest) =>
    before ++ "<html" ++ withLanguage language attributes ++ '>' :: rest
  | none => html

/-- The page with a head injected. A title without an element to replace becomes a tag of its own. -/
def inject (h : Head) (html : Text) : Text :=
  let (html, titleTags) := match h.title with
    | none => (html, [])
    | some title =>
      match replaceTitle? title html with
      | some html => (html, [])
      | none => (html, [titleElement title])
  let html := insertTags (titleTags ++ h.tags) html
  match h.language with
  | some language => setLanguage language html
  | none => html

end Head

end StaticSite
