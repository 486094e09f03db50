import StaticSite.Build.Pipeline
import StaticSite.Config.Project

/-!
# Site builders

A builder holds what the builds of a project need: its places, the page shell and the options. Each build
starts with a stage that has forgotten all earlier ones.
-/
namespace StaticSite

/-- What is asked for in place of the configuration. -/
structure BuildOverrides where
  prerender : Option Bool
  staticCopy : Option Bool
  basePath : Option Text
deriving DecidableEq

namespace BuildOverrides

def none : BuildOverrides := ⟨.none, .none, .none⟩

end BuildOverrides

structure SiteBuilder where
  context : BuildContext
  options : BuildOptions
  stage : Stage

/-- What a build has made. -/
structure BuildSummary where
  output : FilePath
  pages : Nat
  staticFiles : Nat
  /-- The names of the steps that ran. -/
  timings : List Text
deriving DecidableEq

namespace Config

/-- The places of the project at a root. -/
def places (c : Config) (root : FilePath) : ProjectPaths :=
  let place := FilePath.join root
  ⟨root, place c.paths.content, place c.paths.components, place c.paths.static, place c.paths.styles,
    place c.paths.output, c.paths.shell.map place⟩

def siteInfo (c : Config) : SiteInfo :=
  ⟨c.site.name, c.site.url, c.site.language, c.site.description⟩

/-- The options of a build, with the base path in its normal form. -/
def options (c : Config) (o : BuildOverrides) : BuildOptions :=
  ⟨o.prerender.getD c.build.prerender, o.staticCopy.getD c.build.staticCopy,
    Url.normalizeBase? (o.basePath.or c.site.basePath)⟩

/-- The component around every page. -/
def pageWrapper? (c : Config) : Option Text :=
  if c.build.pageWrapper.isEmpty then none else some c.build.pageWrapper

end Config

namespace SiteBuilder

/-- The builder of a project. Its shell is read once, here. -/
def ofConfig (tree : FileTree) (root : FilePath) (c : Config) (o : BuildOverrides) :
    Except ShellError SiteBuilder := do
  let paths := c.places root
  let options := c.options o
  let shell ← Shell.load tree paths.shell
  let settings : StageSettings := ⟨paths.content, options.base, c.pageWrapper?⟩
  return ⟨.ofProject paths c.siteInfo shell, options, .ofSettings settings⟩

/-- Builds the project. -/
def build (b : SiteBuilder) (tree : FileTree) : RunReport :=
  Pipeline.default.run b.context b.options ⟨tree, b.stage.reset⟩

/-- What a build has made: the pages and static files that it counted. -/
def summary (b : SiteBuilder) (r : RunReport) : BuildSummary :=
  let pages : Nat := match r.state.outputs.get .htmlFiles with
    | .ok files => (Table.names files).length
    | .error _ => 0
  let staticFiles : Nat := match r.state.outputs.get .staticFiles with
    | .ok count => count
    | .error _ => 0
  ⟨b.context.paths.output, pages, staticFiles, r.record.timings⟩

end SiteBuilder

end StaticSite
