import StaticSite.FileTree.Basic
import StaticSite.Template.Reader
import StaticSite.Template.Render

/-!
# Page shells

The HTML that stands around the content of a page: a template of the project's own, or the built-in one.
-/
namespace StaticSite

/-- What is known about the whole site. -/
structure SiteInfo where
  name : Text
  url : Option Text
  language : Text
  description : Option Text

/-- What is known about one page. -/
structure PageInfo where
  title : Text
  url : Text
  entry : Text
  language : Text

structure ShellContext where
  site : SiteInfo
  page : PageInfo
  /-- The HTML of the page, or nothing when it is rendered by its script. -/
  content : Text
  script : Text
  stylesheet : Text

inductive ShellError where
  /-- The template cannot be read or rendered. -/
  | template
  | unreadable (path : FilePath) (cause : FileError)
deriving DecidableEq

namespace Shell

/-- The built-in shell. -/
def defaultSource : Text :=
  "<!DOCTYPE html>
<html lang=\"\x7b\x7b page.lang \x7d\x7d\">
<head>
  <meta charset=\"utf-8\" />
  <meta name=\"viewport\" content=\"width=device-width, initial-scale=1\" />
  <title>\x7b\x7b page.title \x7d\x7d\x7b% if page.title != site.name %\x7d | \x7b\x7b site.name \x7d\x7d\x7b% endif %\x7d</title>
  <link rel=\"stylesheet\" href=\"\x7b\x7b stylesheet \x7d\x7d\" />
</head>
<body>
  <div id=\"root\">\x7b\x7b content | safe \x7d\x7d</div>
  <script type=\"module\" src=\"\x7b\x7b script \x7d\x7d\"></script>
</body>
</html>
"

/-- Reads the template at a path, or the built-in one. -/
def load (tree : FileTree) (path : Option FilePath) : Except ShellError Template :=
  let source : Except ShellError Text := match path with
    | none => .ok defaultSource
    | some path => (tree.readText path).mapError (.unreadable path)
  match source with
  | .error e => .error e
  | .ok source =>
    match Template.ofText? source with
    | some template => .ok template
    | none => .error .template

def optionalJson : Option Text → Json
  | some t => .string t
  | none => .null

/-- The names that a template may use. -/
def contextJson (c : ShellContext) : List (Text × Json) :=
  [("site".toList, .ofMembers
      [("name".toList, .string c.site.name), ("url".toList, optionalJson c.site.url),
       ("lang".toList, .string c.site.language), ("description".toList, optionalJson c.site.description)]),
   ("page".toList, .ofMembers
      [("title".toList, .string c.page.title), ("url".toList, .string c.page.url),
       ("entry".toList, .string c.page.entry), ("lang".toList, .string c.page.language)]),
   ("content".toList, .string c.content), ("script".toList, .string c.script),
   ("stylesheet".toList, .string c.stylesheet)]

/-- The shell of a page. -/
def render (template : Template) (c : ShellContext) : Except ShellError Text :=
  match template.render? (contextJson c) with
  | some html => .ok html
  | none => .error .template

end Shell

end StaticSite
