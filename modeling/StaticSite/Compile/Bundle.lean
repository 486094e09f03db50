import StaticSite.Compile.Module
import StaticSite.Compile.OutputMap
import StaticSite.Compile.Stage
import StaticSite.Document.Source

/-!
# Compiling the content

Compiles documents to modules with content hashes in their names. Every entry is compiled and its module
written even when another one fails; of several errors that of the first entry is reported.
-/
namespace StaticSite

/-- A plugin could not process a document. -/
structure PluginError where
  plugin : Text
  message : Text
deriving DecidableEq

def PluginError.text (e : PluginError) : Text := e.plugin ++ ": " ++ e.message

inductive BundleError where
  | source (cause : SourceError)
  | plugin (name : Text) (document : FilePath) (cause : PluginError)
  | unresolved (document : FilePath) (component : Text)
  | write (path : FilePath) (cause : FileError)
deriving DecidableEq

def BundleError.message : BundleError → Text
  | .source cause => cause.message
  | .plugin name document cause =>
    "plugin " ++ name ++ " failed on " ++ document ++ ": " ++ cause.text
  | .unresolved document component =>
    document ++ ": component " ++ Text.quoted component ++ " is not imported or defined"
  | .write path cause => "failed to write " ++ path ++ ": " ++ cause.message

/-- The files of a project, and the stage that its documents pass through. -/
structure Workspace where
  files : FileTree
  stage : Stage

/-- A transformation of every document that is compiled. -/
structure Plugin where
  name : Text
  transform : FileTree → SourceFile → Document → Stage → Except PluginError Document × Stage

/-- The transform stage as a plugin. -/
def Plugin.transforms (registry : Registry) : Plugin where
  name := "content-transforms"
  transform tree file doc stage :=
    let (doc, stage) := stage.transform tree registry file doc
    (.ok doc, stage)

structure BundleRequest where
  entries : List FilePath
  /-- The modules are laid out like the documents below this directory. -/
  contentRoot : FilePath
  assets : FilePath

namespace Bundle

def runtimeLines : List String :=
  ["// Hydrates component placeholders rendered at build time.",
   "export function hydrate(registry, root = document) \x7b",
   "  for (const el of root.querySelectorAll(\"[data-component]\")) \x7b",
   "    const component = registry[el.dataset.component];",
   "    if (!component) continue;",
   "    const props = el.dataset.props ? JSON.parse(el.dataset.props) : \x7b\x7d;",
   "    component(el, props);",
   "  \x7d",
   "\x7d"]

/-- The script that all pages share. -/
def runtime : Text := runtimeLines.flatMap fun line => line.toList ++ ['\n']

/-- Passes a document through plugins, up to the first that fails. -/
def applyPlugins (file : SourceFile) :
    List Plugin → Document → Workspace → Except BundleError Document × Workspace
  | [], doc, w => (.ok doc, w)
  | plugin :: plugins, doc, w =>
    let (result, stage) := plugin.transform w.files file doc w.stage
    let w := { w with stage }
    match result with
    | .ok doc => applyPlugins file plugins doc w
    | .error e => (.error (.plugin plugin.name file.path e), w)

/-- A component that a document invokes although nothing binds it. -/
def unresolved? (doc : Document) : Option Text := (References.ofDocument doc).missing.head?

/-- The path of the module of a document. -/
def modulePath (request : BundleRequest) (path : FilePath) (module : Text) : FilePath :=
  let relative := OutputMap.relativeOrName request.contentRoot path
  let name := (FilePath.fileStem? relative).getD [] ++ '-' :: Digest.short (Text.bytes module) ++ ".js"
  let directory := match FilePath.parent? relative with
    | some parent => FilePath.join request.assets parent
    | none => request.assets
  FilePath.join directory name

/-- Writes a file and makes the directories that lead to it. -/
def storeFile (path : FilePath) (content : Text) (w : Workspace) : Except BundleError Unit × Workspace :=
  let made := match FilePath.parent? path with
    | some parent => w.files.createDirectories parent
    | none => .ok w.files
  match made with
  | .error e => (.error (.write path e), w)
  | .ok files =>
    match files.writeText path content with
    | .error e => (.error (.write path e), { w with files })
    | .ok files => (.ok (), { w with files })

/-- Compiles a document that has been transformed. -/
def emit (request : BundleRequest) (file : SourceFile) (path : FilePath) (doc : Document)
    (w : Workspace) : Except BundleError Artifact × Workspace :=
  match unresolved? doc with
  | some component => (.error (.unresolved file.path component), w)
  | none =>
    let module := Module.ofDocument doc
    let out := modulePath request path module
    match storeFile out module w with
    | (.ok (), w) => (.ok ⟨out, .entry⟩, w)
    | (.error e, w) => (.error e, w)

/-- Compiles an entry. -/
def compile (request : BundleRequest) (plugins : List Plugin) (path : FilePath) (w : Workspace) :
    Except BundleError Artifact × Workspace :=
  match Source.load w.files path with
  | .error e => (.error (.source e), w)
  | .ok (doc, file) =>
    match applyPlugins file plugins doc w with
    | (.error e, w) => (.error e, w)
    | (.ok doc, w) => emit request file path doc w

/-- Compiles entries one after the other. -/
def compileAll (request : BundleRequest) (plugins : List Plugin) :
    List FilePath → Workspace → List (Except BundleError Artifact) × Workspace
  | [], w => ([], w)
  | path :: paths, w =>
    let (result, w) := compile request plugins path w
    let (results, w) := compileAll request plugins paths w
    (result :: results, w)

/-- The artifacts, or the first error. -/
def collect : List (Except BundleError Artifact) → Except BundleError (List Artifact)
  | [] => .ok []
  | result :: results => do
    let artifact ← result
    .ok (artifact :: (← collect results))

/-- Compiles the entries of a request and writes the shared script. -/
def run (request : BundleRequest) (plugins : List Plugin) (w : Workspace) :
    Except BundleError (List Artifact) × Workspace :=
  let (results, w) := compileAll request plugins request.entries w
  match collect results with
  | .error e => (.error e, w)
  | .ok artifacts =>
    let path := FilePath.join request.assets
      ("runtime-" ++ Digest.short (Text.bytes runtime) ++ ".js")
    match storeFile path runtime w with
    | (.error e, w) => (.error e, w)
    | (.ok (), w) => (.ok (artifacts ++ [⟨path, .chunk⟩]), w)

end Bundle

end StaticSite
