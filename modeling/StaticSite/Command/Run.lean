import StaticSite.Command.Arguments

/-!
# Running commands

What a command does to the files, what it prints, and how it may fail.
-/
namespace StaticSite

/-- Where the program is run. -/
structure Setup where
  /-- The working directory. -/
  directory : FilePath
  environment : List Setting.Variable

inductive CommandError where
  | usage
  /-- The project that was asked for is no directory. -/
  | noProject (path : FilePath)
  /-- The settings of the project cannot be read. -/
  | config
  | shell (cause : ShellError)
  | step (name : Text) (cause : StepError)
  /-- The directory to be deleted holds the project. -/
  | holdsProject (path : FilePath)
  | io (cause : FileError)
deriving DecidableEq

namespace CommandError

/-- The status that the program ends with. -/
def status : CommandError → Nat
  | usage => 2
  | _ => 1

def shellMessage (e : ShellError) : Text := e.message?.getD "template error"

/-- The causes of an error, with numbers when there are several. -/
def causeLines : List Text → List Text
  | [] => []
  | [cause] => ["", "Caused by:", "    " ++ cause]
  | causes =>
    "" :: "Caused by:" :: causes.zipIdx.map fun (cause, n) =>
      "    " ++ Text.ofNat n ++ ": " ++ cause

/-- What went wrong inside of a shell error. -/
def shellCauses : ShellError → List Text
  | .template => [shellMessage .template]
  | .unreadable path cause => [shellMessage (.unreadable path cause), cause.message]

/-- What is printed about an error. -/
def lines : CommandError → List Text
  | usage => ["Usage: pagewright [OPTIONS] <COMMAND>"]
  | noProject path => ["Error: project directory " ++ path ++ " does not exist"]
  | config => ["Error: failed to load config"]
  | shell cause => ("Error: render error: " ++ shellMessage cause) :: causeLines (shellCauses cause)
  | step name cause =>
    ("build failed in step " ++ Text.quoted name ++ ": " ++ cause.message?.getD "template error") ::
      (cause.reported.map fun d => "  " ++ d.message) ++ [("Error: build failed" : Text)]
  | holdsProject path => ["Error: refusing to delete " ++ path ++ ": it contains the project"]
  | io cause => ["Error: " ++ cause.message]

end CommandError

/-- What a command has done: the files that are left, and the lines it prints unless it fails. -/
structure Outcome where
  files : FileTree
  result : Except CommandError (List Text)

namespace Outcome

/-- The outcome of a step that leaves the files as they are, and of what follows it. -/
def bind (files : FileTree) (step : Except CommandError α) (next : α → Outcome) : Outcome :=
  match step with
  | .error e => ⟨files, .error e⟩
  | .ok a => next a

def status (o : Outcome) : Nat :=
  match o.result with
  | .ok _ => 0
  | .error e => e.status

end Outcome

namespace Command

/-- The root of the project that is asked for, or of the one in the working directory. -/
def projectRoot (tree : FileTree) (setup : Setup) (project : Option FilePath) :
    Except CommandError FilePath :=
  let path := match project with
    | some p => FilePath.join setup.directory p
    | none => setup.directory
  if tree.isDirectory path then .ok (tree.canonical path) else .error (.noProject path)

/-- The root of a project and its configuration. -/
def projectConfig (tree : FileTree) (setup : Setup) (project : Option FilePath) :
    Except CommandError (FilePath × Config) := do
  let root ← projectRoot tree setup project
  match Config.load? tree setup.environment root with
  | some config => return (root, config)
  | none => throw .config

def summaryLines (s : BuildSummary) : List Text :=
  ("Built site to " ++ s.output ++ " (" ++ Text.ofNat s.pages ++ " pages, " ++
      Text.ofNat s.staticFiles ++ " static files)") ::
    (s.timings ++ [("total (wall clock)" : Text)]).map fun name => "  " ++ name

/-- Builds a project. -/
def runBuild (tree : FileTree) (setup : Setup) (project : Option FilePath) (o : BuildOverrides) : Outcome :=
  .bind tree (projectConfig tree setup project) fun (root, config) =>
    .bind tree ((SiteBuilder.ofConfig tree root config o).mapError .shell) fun builder =>
      let report := builder.build tree
      ⟨report.state.files, match report.failure with
        | some (name, cause) => .error (.step name cause)
        | none => .ok (summaryLines (builder.summary report))⟩

/-- Deletes an output directory, unless the project is in it. -/
def cleanDirectory (tree : FileTree) (root output : FilePath) (dryRun : Bool) : Outcome :=
  if !tree.pathExists output then ⟨tree, .ok ["Nothing to clean at " ++ output]⟩
  else if FilePath.isBelow output root then ⟨tree, .error (.holdsProject output)⟩
  else if dryRun then ⟨tree, .ok ["Would delete " ++ output]⟩
  else
    let (tree, result) := tree.removeAll output
    ⟨tree, match result with
      | .ok () => .ok ["Deleted " ++ output]
      | .error e => .error (.io e)⟩

/-- Deletes the output of a project. -/
def runClean (tree : FileTree) (setup : Setup) (project : Option FilePath) (dryRun : Bool) : Outcome :=
  .bind tree (projectConfig tree setup project) fun (root, config) =>
    cleanDirectory tree root (FilePath.join root config.paths.output) dryRun

def helpLines : List Text :=
  ["A static site compiler for Markdown documents with embedded components", "",
   "Usage: pagewright [OPTIONS] <COMMAND>", "", "Commands:",
   "  build  Build the project into its output directory",
   "  clean  Delete the output directory",
   "  help   Print this message or the help of the given subcommand(s)", "", "Options:",
   "  -v, --verbose  Log more about what is done",
   "  -h, --help     Print help",
   "  -V, --version  Print version"]

/-- Does what a command asks for. -/
def run (tree : FileTree) (setup : Setup) : Command → Outcome
  | .build project overrides => runBuild tree setup project overrides
  | .clean project dryRun => runClean tree setup project dryRun
  | .version => ⟨tree, .ok ["pagewright 0.1.0"]⟩
  | .help => ⟨tree, .ok helpLines⟩

/-- Runs the program with some arguments. -/
def runArguments (tree : FileTree) (setup : Setup) (args : List Text) : Outcome :=
  match parse? args with
  | some command => run tree setup command
  | none => ⟨tree, .error .usage⟩

end Command

end StaticSite
