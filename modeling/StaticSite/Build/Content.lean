import StaticSite.Build.Step

/-!
# Content steps

The steps that empty the output directory, find the documents and components, and compile the content.
-/
namespace StaticSite.Step

/-- Removes the output directory and makes it anew. A directory that holds the project is not removed. -/
def resetDirectories : Step where
  name := "reset-directories"
  applies _ _ _ := true
  run context _ := do
    let output := context.paths.output
    if FilePath.isBelow output context.paths.root || FilePath.isBelow output context.paths.content then
      throw (.failed ("refusing to clear output directory " ++ output ++ ": it contains the project"))
    let s ← get
    if s.files.pathExists output then
      let (files, result) := s.files.removeAll output
      set (s.withFiles files)
      Action.ofExcept (.io output) result
    Action.changeFiles output (·.createDirectories output)

/-- Finds the documents of the content. -/
def discoverEntries : Step where
  name := "discover-entries"
  applies _ _ _ := true
  run context _ := do
    let entries ← Action.ofExcept .source (Source.entries (← get).files context.paths.content)
    Action.write .entries entries

/-- Finds the components. -/
def scanComponents : Step where
  name := "scan-components"
  applies _ _ _ := true
  run context _ := do
    Action.write .components (Registry.scan (← get).files context.paths.components)

/-- The front matter of entries, as the transform stage has recorded it. -/
def recordedMetadata (files : FileTree) (stage : Stage) (entries : Table FilePath) :
    Table FrontMatter :=
  entries.mapValues fun path => (stage.metadata.get? files path).getD .empty

/-- Compiles all entries. Diagnostics count for more than an error of the compilation, because they say
what led to it. -/
def compileContent : Step where
  name := "compile-content"
  applies _ _ _ := true
  run context _ := do
    let entries ← Action.read .entries
    let registry ← Action.read .components
    let request : BundleRequest :=
      ⟨entries.map (·.2), context.paths.content, context.paths.assets⟩
    let s ← get
    let (bundled, workspace) := context.bundle request [.transforms registry] s.workspace
    let (diagnostics, stage) := workspace.stage.drain
    set { s with workspace := { workspace with stage } }
    if !diagnostics.isEmpty then throw (.diagnostics diagnostics)
    let artifacts ← Action.ofExcept .bundle bundled
    let modules ← Action.ofExcept .outputMap
      (OutputMap.ofArtifacts entries request.contentRoot request.assets artifacts)
    Action.write .modules modules
    Action.write .pageMetadata (recordedMetadata workspace.files stage entries)

end StaticSite.Step
