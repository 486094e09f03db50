import StaticSite.Build.Step

/-!
# Asset steps

The steps that write the stylesheet of the site and copy its static files.
-/
namespace StaticSite.Step

/-- The rules that every site has, ahead of its own. -/
def baseStyles : Text :=
  "*, *::before, *::after \x7b box-sizing: border-box; \x7d
html \x7b -webkit-text-size-adjust: 100%; \x7d
body \x7b margin: 0; line-height: 1.5; font-family: system-ui, sans-serif; \x7d
img, svg, video \x7b max-width: 100%; height: auto; \x7d
pre \x7b overflow-x: auto; \x7d
[data-component] \x7b display: contents; \x7d
"

/-- The stylesheets that stand in a directory, in ascending order of names. -/
def stylesheets (files : FileTree) (directory : FilePath) : List FilePath :=
  match files.find? true directory with
  | .ok (p, .directory) =>
    ((files.children p).map fun (name, _) => FilePath.join directory name).filter fun path =>
      files.isFile path && FilePath.extension? path == some "css".toList
  | _ => []

/-- The styles with those of another sheet after them. -/
def addSheet (styles : Text) (path : FilePath) (source : Text) : Text :=
  styles ++ "\n/* " ++ (FilePath.fileName? path).getD [] ++ " */\n" ++ source ++
    (if source.getLast? == some '\n' then [] else ['\n'])

/-- Joins the stylesheets to one file with a content hash in its name. -/
def generateStyles : Step where
  name := "generate-styles"
  applies _ _ _ := true
  run context _ := do
    let files := (← get).files
    let mut styles := baseStyles
    for sheet in stylesheets files context.paths.styles do
      let source ← Action.ofExcept (.io sheet) (files.readText sheet)
      styles := addSheet styles sheet source
    let name : Text := "styles-" ++ Digest.short (Text.bytes styles) ++ ".css"
    let assets := context.paths.assets
    Action.changeFiles assets (·.createDirectories assets)
    let path := FilePath.join assets name
    Action.changeFiles path (·.writeText path styles)
    Action.write .stylesheet name

/-- Copies a file below the output directory. -/
def copyFile (source output relative : FilePath) : Action Unit := do
  let target := FilePath.join output relative
  Action.makeParent target
  Action.changeFiles target (·.copy source target)

/-- Copies what stands below a place in the static files, each directory as it is when its turn comes. Gives
the number of files. -/
def copyBelow (source output : FilePath) : Nat → RealPath → FilePath → Action Nat
  | 0, _, _ => pure 0
  | fuel + 1, p, relative => do
    let mut copied := 0
    for (name, item) in (← get).files.children p do
      let inner := FilePath.join relative name
      match item with
      | .file _ =>
        copyFile (FilePath.join source inner) output inner
        copied := copied + 1
      | .directory => copied := copied + (← copyBelow source output fuel (p ++ [name]) inner)
      | .link _ => pure ()
    pure copied

/-- Copies the static files to the output directory. -/
def copyStatic : Step where
  name := "copy-static"
  applies context record s := record.options.staticCopy && s.files.isDirectory context.paths.static
  run context _ := do
    let files := (← get).files
    let source := context.paths.static
    let copied ← match files.resolve true source with
      | .ok p => copyBelow source context.paths.output (2 * files.items.length + 2) p []
      | .error _ => pure 0
    Action.write .staticFiles copied

end StaticSite.Step
