import StaticSite.Build.Outputs
import StaticSite.Compile.Bundle
import StaticSite.Page.Shell

/-!
# Build steps

A build is a sequence of positions. At a position stands a step, or a group of steps that touch different
outputs. Steps change the files of the project and write outputs; the first position with a failing step is
the last one.
-/
namespace StaticSite

inductive StepError where
  | io (path : FilePath) (cause : FileError)
  | output (cause : OutputError)
  | source (cause : SourceError)
  | bundle (cause : BundleError)
  | outputMap (cause : OutputMapError)
  | shell (cause : ShellError)
  | module (cause : ModuleError)
  | diagnostics (ds : List Diagnostic)
  | failed (message : Text)
deriving DecidableEq

namespace ModuleError

/-- The text of an error, where it is the library's own. -/
def message? : ModuleError → Option Text
  | unreadable path cause => some ("failed to read module " ++ path ++ ": " ++ cause.message)
  | noHtml path => some ("module " ++ path ++ " has no html export")
  | invalidHtml _ => none

end ModuleError

namespace ShellError

/-- The text of an error, where it is the library's own. -/
def message? : ShellError → Option Text
  | unreadable path cause => some ("failed to read shell template " ++ path ++ ": " ++ cause.message)
  | template => none

end ShellError

namespace StepError

/-- The text of an error, where it is the library's own. -/
def message? : StepError → Option Text
  | io path cause => some ("IO error at " ++ path ++ ": " ++ cause.message)
  | output cause => some cause.message
  | source cause => some cause.message
  | bundle cause => some cause.message
  | outputMap cause => some cause.message
  | shell cause => cause.message?
  | module cause => cause.message?
  | diagnostics ds =>
    some ("content transforms reported " ++ Text.ofNat ds.length ++ " error(s)")
  | failed message => some message

/-- The text of the failure of a step. -/
def failureMessage? (step : Text) (e : StepError) : Option Text :=
  e.message?.map fun message => "step " ++ Text.quoted step ++ " failed: " ++ message

/-- The diagnostics that an error carries. -/
def reported : StepError → List Diagnostic
  | diagnostics ds => ds
  | _ => []

end StepError

/-- Where the parts of a project are. -/
structure ProjectPaths where
  root : FilePath
  content : FilePath
  components : FilePath
  static : FilePath
  styles : FilePath
  output : FilePath
  shell : Option FilePath

namespace ProjectPaths

def assetsDirectory : Text := "_assets"

def assets (p : ProjectPaths) : FilePath := FilePath.join p.output assetsDirectory

/-- The places below the root that a build reads or changes. -/
def toList (p : ProjectPaths) : List FilePath :=
  [p.content, p.components, p.static, p.styles, p.output] ++ p.shell.toList

end ProjectPaths

/-- What all steps of a build use. -/
structure BuildContext where
  paths : ProjectPaths
  site : SiteInfo
  shell : Template
  bundle : BundleRequest → List Plugin → Workspace → Except BundleError (List Artifact) × Workspace
  pageHtml : FileTree → FilePath → Except ModuleError Text

namespace BuildContext

/-- The context that compiles documents and reads the HTML from their modules. -/
def ofProject (paths : ProjectPaths) (site : SiteInfo) (shell : Template) : BuildContext :=
  ⟨paths, site, shell, Bundle.run, Module.html⟩

end BuildContext

structure BuildOptions where
  /-- Whether the HTML of pages is put into their shells. -/
  prerender : Bool
  /-- Whether the static files are copied. -/
  staticCopy : Bool
  base : Option Text
deriving DecidableEq

/-- What steps may change. -/
structure RunState where
  workspace : Workspace
  outputs : Outputs

namespace RunState

def files (s : RunState) : FileTree := s.workspace.files

def withFiles (files : FileTree) (s : RunState) : RunState :=
  { s with workspace := { s.workspace with files } }

end RunState

/-- An action of a step. What was done before an error stays done. -/
abbrev Action (α : Type) := ExceptT StepError (StateM RunState) α

namespace Action

/-- Gives the result of something that may go wrong. -/
def ofExcept (wrap : ε → StepError) (result : Except ε α) : Action α :=
  match result with
  | .ok a => pure a
  | .error e => throw (wrap e)

/-- Changes the files; an error concerns a path. -/
def changeFiles (path : FilePath) (change : FileTree → Except FileError FileTree) : Action Unit := do
  let s ← get
  let files ← ofExcept (.io path) (change s.files)
  set (s.withFiles files)

/-- Reads an output of an earlier step. -/
def read (key : OutputKey) : Action key.kind.Value := do
  ofExcept .output ((← get).outputs.get key)

/-- Writes an output. -/
def write (key : OutputKey) (value : key.kind.Value) : Action Unit := do
  let s ← get
  let outputs ← ofExcept .output (s.outputs.put key value)
  set { s with outputs }

/-- Makes the directory that a path lies in. -/
def makeParent (path : FilePath) : Action Unit :=
  match FilePath.parent? path with
  | some parent => changeFiles parent (·.createDirectories parent)
  | none => pure ()

end Action

/-- What a run notes about itself. Steps can read it, and the pipeline alone adds to it. -/
structure RunRecord where
  options : BuildOptions
  /-- The names of the steps that ran; those of a group stand in declared order. -/
  timings : List Text
  failedStep : Option Text
deriving DecidableEq

namespace RunRecord

/-- The record of a run that has yet to begin. -/
def start (options : BuildOptions) : RunRecord := ⟨options, [], none⟩

/-- Notes that a step ran. -/
def noteStep (r : RunRecord) (step : Text) : RunRecord := { r with timings := r.timings ++ [step] }

/-- Notes that a step failed, unless another one did before. -/
def noteFailure (r : RunRecord) (step : Text) : RunRecord :=
  if r.failedStep.isNone then { r with failedStep := some step } else r

end RunRecord

structure Step where
  name : Text
  /-- Whether the step applies. -/
  applies : BuildContext → RunRecord → RunState → Bool
  run : BuildContext → RunRecord → Action Unit

/-- What stands at one position of a pipeline. -/
inductive Position where
  | single (step : Step)
  /-- Steps that run together, and write different outputs. -/
  | group (steps : List Step)

namespace Position

def steps : Position → List Step
  | single step => [step]
  | group steps => steps

end Position

abbrev Pipeline := List Position

/-- How a run went, or a part of it. -/
structure RunReport where
  state : RunState
  record : RunRecord
  /-- The step that failed, and its error. -/
  failure : Option (Text × StepError)

namespace Pipeline

/-- The names of the steps at each position. -/
def stepNames (p : Pipeline) : List (List Text) := p.map fun position => position.steps.map (·.name)

/-- The failure of a step with a given result. -/
def failureOf? (name : Text) : Except StepError Unit → Option (Text × StepError)
  | .ok () => none
  | .error e => some (name, e)

/-- Runs a step, if it applies. -/
def runSingle (context : BuildContext) (step : Step) (record : RunRecord) (s : RunState) : RunReport :=
  if step.applies context record s then
    let (result, s) := (step.run context record).run s
    ⟨s, record.noteStep step.name, failureOf? step.name result⟩
  else ⟨s, record, none⟩

/-- Runs steps one after the other, whether they fail or not. -/
def runMembers (context : BuildContext) (record : RunRecord) :
    List Step → RunState → List (Text × Except StepError Unit) × RunState
  | [], s => ([], s)
  | step :: steps, s =>
    let (result, s) := (step.run context record).run s
    let (results, s) := runMembers context record steps s
    ((step.name, result) :: results, s)

/-- The first failure among the results of a group. -/
def firstFailure? (results : List (Text × Except StepError Unit)) : Option (Text × StepError) :=
  results.findSome? fun (name, result) => failureOf? name result

/-- What is reported of a group whose members have ended with some results, in declared order. -/
def reportGroup (record : RunRecord) (results : List (Text × Except StepError Unit)) (s : RunState) :
    RunReport :=
  ⟨s, results.foldl (fun record (name, _) => record.noteStep name) record, firstFailure? results⟩

/-- Runs the steps of a group that apply. Which of them do is decided before any of them runs. -/
def runGroup (context : BuildContext) (steps : List Step) (record : RunRecord) (s : RunState) :
    RunReport :=
  let runnable := steps.filter fun step => step.applies context record s
  if runnable.isEmpty then ⟨s, record, none⟩
  else
    let (results, s) := runMembers context record runnable s
    reportGroup record results s

theorem runGroup_eq (context : BuildContext) (steps : List Step) (record : RunRecord) (s : RunState) :
    runGroup context steps record s =
      let members := steps.filter fun step => step.applies context record s
      let run := runMembers context record members s
      reportGroup record run.1 run.2 := by
  unfold runGroup
  cases h : steps.filter fun step => step.applies context record s with
  | nil => rfl
  | cons step steps => rfl

def runPosition (context : BuildContext) : Position → RunRecord → RunState → RunReport
  | .single step => runSingle context step
  | .group steps => runGroup context steps

/-- Runs the positions from a state on, up to the first that fails. -/
def runFrom (context : BuildContext) : Pipeline → RunRecord → RunState → RunReport
  | [], record, s => ⟨s, record, none⟩
  | position :: positions, record, s =>
    let report := runPosition context position record s
    match report.failure with
    | some (step, _) => { report with record := report.record.noteFailure step }
    | none => runFrom context positions report.record report.state

/-- Runs a pipeline in a workspace. -/
def run (context : BuildContext) (options : BuildOptions) (p : Pipeline) (w : Workspace) : RunReport :=
  runFrom context p (.start options) ⟨w, .empty⟩

end Pipeline

end StaticSite
