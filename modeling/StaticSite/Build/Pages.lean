import StaticSite.Build.Step
import StaticSite.Page.Head
import StaticSite.Text.Title

/-!
# Page steps

The steps that render pages: their HTML, the shells around it, and the metadata in their heads.
-/
namespace StaticSite.Step

/-- The HTML of all pages by entry, or the first error. -/
def pagesHtml (html : FilePath → Except ModuleError Text) :
    Table FilePath → Except ModuleError (Table Text)
  | [] => .ok []
  | (entry, module) :: rest => do
    let t ← html module
    .ok ((entry, t) :: (← pagesHtml html rest))

/-- Renders all pages. -/
def prerender : Step where
  name := "prerender"
  applies _ record _ := record.options.prerender
  run context _ := do
    let modules ← Action.read .modules
    let files := (← get).files
    let pages ← Action.ofExcept .module (pagesHtml (context.pageHtml files) modules)
    Action.write .prerendered pages

/-- The title of a page that gives none: that of its entry, or of its directory, or of the site. -/
def defaultTitle (entry siteName : Text) : Text :=
  let lastName (t : Text) : Text := ((Text.splitOn '/' t).getLast?).getD []
  let name := lastName entry
  if name = "index".toList then
    let directory := lastName (Text.dropEndWhile (· == '/') ((Text.before? "index" entry).getD entry))
    if directory.isEmpty then siteName else Text.titleCase directory
  else Text.titleCase name

/-- The URL of a file of the output directory, without the base path. -/
def assetUrl (path output : FilePath) : Text :=
  '/' :: FilePath.toSlash ((FilePath.relativeTo? output path).getD path)

/-- What a shell is given for a page. -/
def shellContext (context : BuildContext) (base : Option Text) (entry stylesheet : Text)
    (module : FilePath) (content : Text) : ShellContext where
  site := context.site
  page := ⟨defaultTitle entry context.site.name, Url.ofEntry entry base, entry, context.site.language⟩
  content := content
  script := Url.withBase (assetUrl module context.paths.output) base
  stylesheet := Url.withBase ('/' :: ProjectPaths.assetsDirectory ++ '/' :: stylesheet) base

/-- Writes the shell of a page, and gives the path of its file. -/
def writeShell (context : BuildContext) (c : ShellContext) (entry : Text) : Action FilePath := do
  let html ← Action.ofExcept .shell (Shell.render context.shell c)
  let path := Url.outputFile (Url.ofEntry entry none) context.paths.output
  Action.makeParent path
  Action.changeFiles path (·.writeText path html)
  pure path

/-- Writes the shells of some entries, and gives the paths of their files. -/
def writeShellsOf (context : BuildContext) (base : Option Text) (stylesheet : Text)
    (modules : Table FilePath) (pages : Table Text) : List Text → Action (Table FilePath)
  | [] => pure []
  | entry :: entries => do
    match modules.get? entry with
    | none => throw (.failed ("entry " ++ Text.quoted entry ++ " has no compiled module"))
    | some module =>
      let content := (pages.get? entry).getD []
      let path ← writeShell context (shellContext context base entry stylesheet module content) entry
      let rest ← writeShellsOf context base stylesheet modules pages entries
      pure ((entry, path) :: rest)

/-- Writes a shell for every entry. -/
def writeShells : Step where
  name := "write-shells"
  applies _ _ _ := true
  run context record := do
    let entries ← Action.read .entries
    let modules ← Action.read .modules
    let stylesheet ← Action.read .stylesheet
    let pages ← if record.options.prerender then Action.read .prerendered else pure []
    Action.write .htmlFiles
      (← writeShellsOf context record.options.base stylesheet modules pages entries.names)

/-- Puts the metadata of a page into its file. -/
def injectInto (path : FilePath) (head : Head) : Action Unit := do
  let html ← Action.ofExcept (.io path) ((← get).files.readText path)
  Action.changeFiles path (·.writeText path (head.inject html))

/-- Puts the metadata of all pages into their files. -/
def injectHead : Step where
  name := "inject-head"
  applies _ _ _ := true
  run context record := do
    let htmlFiles : Table FilePath ← Action.read .htmlFiles
    let metadata : Table FrontMatter ← Action.read .pageMetadata
    for (entry, path) in htmlFiles do
      let m := (Table.get? entry metadata).getD .empty
      let base := record.options.base
      injectInto path (.ofPage m context.site (Url.ofEntry entry base) base)

end StaticSite.Step
