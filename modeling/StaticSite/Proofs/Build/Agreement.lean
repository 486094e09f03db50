import StaticSite.Build.Pipeline
import StaticSite.Proofs.Build.Reports
import StaticSite.Proofs.Compile.Twins

/-!
# Runs that agree

An action that is run in twin states has one result and leaves twin states. The rules go along the structure of
actions; by them all steps agree, and so does every part of a build.
-/
namespace StaticSite

open FileTree

/-- States with twin trees, one stage with some settings, and the same outputs. -/
structure RunState.Twins (settings : StageSettings) (s s' : RunState) : Prop where
  workspace : s.workspace.Twins settings s'.workspace
  outputs : s.outputs = s'.outputs

namespace RunState.Twins

variable {settings : StageSettings} {s s' : RunState}

theorem files (h : s.Twins settings s') : s.files.Twins s'.files := h.workspace.files

theorem withFiles (h : s.Twins settings s') {files files' : FileTree} (hfiles : files.Twins files') :
    (s.withFiles files).Twins settings (s'.withFiles files') :=
  ⟨⟨hfiles, h.workspace.stage, h.workspace.settings⟩, h.outputs⟩

end RunState.Twins

namespace Action

variable {settings : StageSettings} {α β : Type}

/-- In twin states, two actions have one result and leave twin states. -/
def Agree (settings : StageSettings) (a a' : Action α) : Prop :=
  ∀ s s' : RunState, s.Twins settings s' →
    (a.run s).1 = (a'.run s').1 ∧ (a.run s).2.Twins settings (a'.run s').2

namespace Agree

theorem pure (x : α) : Agree settings (pure x) (pure x) := fun _ _ h => ⟨rfl, h⟩

theorem throw (e : StepError) : Agree settings (throw e : Action α) (throw e) := fun _ _ h => ⟨rfl, h⟩

theorem throw_bind (e : StepError) (f f' : α → Action β) :
    Agree settings ((MonadExcept.throw e : Action α) >>= f) ((MonadExcept.throw e : Action α) >>= f') :=
  fun _ _ h => ⟨rfl, h⟩

theorem bind {a a' : Action α} {f f' : α → Action β} (ha : Agree settings a a') (hf : ∀ x, Agree settings (f x) (f' x)) :
    Agree settings (a >>= f) (a' >>= f') := by
  intro s s' h
  obtain ⟨hresult, hstate⟩ := ha s s' h
  rw [run_bind, run_bind]
  revert hresult hstate
  cases a.run s with
  | mk result s₁ =>
    cases a'.run s' with
    | mk result' s₁' =>
      rintro rfl hstate
      cases result with
      | ok x => exact hf x s₁ s₁' hstate
      | error e => exact ⟨rfl, hstate⟩

/-- What goes on with the state goes on with twins. -/
theorem get_bind {f f' : RunState → Action β} (hf : ∀ s s', s.Twins settings s' → Agree settings (f s) (f' s')) :
    Agree settings (get >>= f) (get >>= f') := by
  intro s s' h
  have hget (s : RunState) : (get : Action RunState).run s = (.ok s, s) := rfl
  rw [run_bind, run_bind, hget, hget]
  exact hf s s' h s s' h

theorem set {s s' : RunState} (h : s.Twins settings s') : Agree settings (set s : Action PUnit) (set s') := fun _ _ _ => ⟨rfl, h⟩

theorem ofExcept {ε : Type} (wrap : ε → StepError) {result result' : Except ε α} (h : result = result') :
    Agree settings (ofExcept wrap result) (ofExcept wrap result') := by
  subst h
  cases result with
  | ok x => exact pure x
  | error e => exact throw (wrap e)

theorem changeFiles (path : FilePath) {change : FileTree → Except FileError FileTree}
    (hchange : ∀ t t', Twins t t' → ChangeTwins (change t) (change t')) :
    Agree settings (changeFiles path change) (changeFiles path change) := by
  intro s s' h
  have htwins := hchange _ _ h.files
  rw [run_changeFiles, run_changeFiles]
  generalize change s.files = r, change s'.files = r' at htwins
  cases htwins with
  | changed htwins => exact ⟨rfl, h.withFiles htwins⟩
  | failed e => exact ⟨rfl, h⟩

theorem makeParent (path : FilePath) : Agree settings (makeParent path) (makeParent path) := by
  unfold Action.makeParent
  split
  · rename_i parent _
    exact changeFiles parent fun _ _ h => h.createDirectories parent
  · exact pure ()

theorem read (key : OutputKey) : Agree settings (read key) (read key) := by
  refine get_bind fun s s' h => ?_
  rw [h.outputs]
  exact ofExcept .output rfl

theorem write (key : OutputKey) (value : key.kind.Value) : Agree settings (write key value) (write key value) := by
  refine get_bind fun s s' h => ?_
  rw [h.outputs]
  exact bind (ofExcept .output rfl) fun outputs => set ⟨h.workspace, rfl⟩

theorem forIn {ι : Type} {items items' : List ι} (hitems : items = items') (b : β)
    {f f' : ι → β → Action (ForInStep β)} (hf : ∀ i b, Agree settings (f i b) (f' i b)) :
    Agree settings (forIn items b f) (forIn items' b f') := by
  subst hitems
  induction items generalizing b with
  | nil => exact pure b
  | cons i items ih =>
    rw [List.forIn_cons, List.forIn_cons]
    refine bind (hf i b) fun x => ?_
    cases x with
    | done b => exact pure b
    | yield b => exact ih b

end Agree

end Action

/-! ## Steps -/

namespace Step

open Action

/-- In twin states, a step applies or does not, has one result and leaves twin states. -/
structure Agrees (settings : StageSettings) (context : BuildContext) (step : Step) : Prop where
  applies : ∀ (record : RunRecord) (s s' : RunState), s.Twins settings s' →
    step.applies context record s = step.applies context record s'
  run : ∀ record, Agree settings (step.run context record) (step.run context record)

variable {settings : StageSettings} (context : BuildContext)

theorem resetDirectories_agrees : resetDirectories.Agrees settings context where
  applies _ _ _ _ := rfl
  run record := by
    let make : Action Unit := changeFiles context.paths.output (·.createDirectories context.paths.output)
    have hmake : Agree settings make make := .changeFiles _ fun _ _ h => h.createDirectories _
    dsimp only [resetDirectories]
    split
    · exact .throw_bind _ _ _
    · refine .get_bind fun s s' h => ?_
      rw [← h.files.pathExists]
      split
      · obtain ⟨hresult, hfiles⟩ := h.files.removeAll context.paths.output
        exact .bind (.set (h.withFiles hfiles)) fun _ => .bind (.ofExcept _ hresult) fun _ => hmake
      · exact hmake

theorem discoverEntries_agrees : discoverEntries.Agrees settings context where
  applies _ _ _ _ := rfl
  run record := by
    refine .get_bind fun s s' h => ?_
    exact .bind (.ofExcept _ (h.files.entries _)) fun entries => .write _ _

theorem scanComponents_agrees : scanComponents.Agrees settings context where
  applies _ _ _ _ := rfl
  run record := by
    refine .get_bind fun s s' h => ?_
    rw [h.files.scan]
    exact .write _ _

/-- What compiling the content does with what the bundler has come to. -/
def settle (paths : ProjectPaths) (entries : Table FilePath) (s : RunState)
    (bundled : Except BundleError (List Artifact) × Workspace) : Action Unit := do
  let (diagnostics, stage) := bundled.2.stage.drain
  set { s with workspace := { bundled.2 with stage } }
  if !diagnostics.isEmpty then throw (.diagnostics diagnostics)
  publish paths entries bundled.1 { bundled.2 with stage }

theorem agree_settle (paths : ProjectPaths) (entries : Table FilePath) {s s' : RunState} (h : s.Twins settings s')
    {bundled bundled' : Except BundleError (List Artifact) × Workspace} (hbundled : Bundle.RunTwins settings bundled bundled') :
    Agree settings (settle paths entries s bundled) (settle paths entries s' bundled') := by
  obtain ⟨result, files, stage⟩ := bundled
  obtain ⟨result', files', stage'⟩ := bundled'
  obtain ⟨rfl, hfiles, rfl, hsettings⟩ := hbundled
  have hrecorded : recordedMetadata files stage.drain.2 entries = recordedMetadata files' stage.drain.2 entries := by
    simp only [recordedMetadata, FileTree.Twins.metadata hfiles]
  dsimp only [settle]
  refine .bind (.set ⟨⟨hfiles, rfl, hsettings⟩, h.outputs⟩) fun _ => ?_
  split
  · exact .throw_bind _ _ _
  · refine .bind (.ofExcept _ rfl) fun artifacts => .bind (.ofExcept _ rfl) fun modules => ?_
    dsimp only
    rw [hrecorded]
    exact .bind (.write _ _) fun _ => .write _ _

theorem compileContent_agrees (paths : ProjectPaths) (site : SiteInfo) (shell : Template) :
    compileContent.Agrees settings (.ofProject paths site shell) where
  applies _ _ _ _ := rfl
  run record := by
    refine .bind (.read .entries) fun entries => .bind (.read .components) fun registry => ?_
    refine .get_bind fun s s' h => ?_
    let request : BundleRequest := ⟨List.map (·.2) (entries : Table FilePath), paths.content, paths.assets⟩
    exact agree_settle paths entries h (h.workspace.run request registry)

theorem generateStyles_agrees : generateStyles.Agrees settings context where
  applies _ _ _ _ := rfl
  run record := by
    refine .get_bind fun s s' h => ?_
    have hsheets : stylesheets s.files context.paths.styles = stylesheets s'.files context.paths.styles := by
      simp only [stylesheets, h.files.alike.find?, h.files.children, h.files.isFile]
    refine .bind (.forIn hsheets _ fun sheet styles => ?_) fun styles => ?_
    · exact .bind (.ofExcept _ (h.files.alike.readText sheet)) fun source => .pure _
    refine .bind (.changeFiles _ fun _ _ h => h.createDirectories _) fun _ => ?_
    exact .bind (.changeFiles _ fun _ _ h => h.write _ _) fun _ => .write _ _

theorem agree_copyFile (source output relative : FilePath) :
    Agree settings (copyFile source output relative) (copyFile source output relative) :=
  .bind (.makeParent _) fun _ => .changeFiles _ fun _ _ h => h.copy _ _

theorem agree_copyBelow (source output : FilePath) (fuel : Nat) (p : RealPath) (relative : FilePath) :
    Agree settings (copyBelow source output fuel p relative) (copyBelow source output fuel p relative) := by
  induction fuel generalizing p relative with
  | zero => exact .pure 0
  | succ fuel ih =>
    refine .get_bind fun s s' h => ?_
    refine .bind (.forIn (h.files.children p) _ fun child copied => ?_) fun copied => .pure _
    obtain ⟨name, item⟩ := child
    cases item with
    | file content => exact .bind (agree_copyFile _ _ _) fun _ => .pure _
    | directory => exact .bind (ih _ _) fun _ => .pure _
    | link target => exact .pure _

theorem copyStatic_agrees : copyStatic.Agrees settings context where
  applies record s s' h := congrArg (record.options.staticCopy && ·) (h.files.alike.isDirectory _)
  run record := by
    dsimp only [copyStatic]
    refine .get_bind fun s s' h => ?_
    rw [← h.files.alike.resolve, ← h.files.perm.length_eq]
    split
    · exact .bind (agree_copyBelow _ _ _ _ _) fun _ => .write _ _
    · exact .bind (.pure _) fun _ => .write _ _

theorem prerender_agrees (paths : ProjectPaths) (site : SiteInfo) (shell : Template) :
    prerender.Agrees settings (.ofProject paths site shell) where
  applies _ _ _ _ := rfl
  run record := by
    refine .bind (.read .modules) fun modules => .get_bind fun s s' h => ?_
    have hhtml : Module.html s.files = Module.html s'.files := by
      funext path
      simp only [Module.html, h.files.alike.readText]
    exact .bind (.ofExcept _ (congrArg (pagesHtml · modules) hhtml)) fun pages => .write _ _

theorem agree_writeShell (c : ShellContext) (entry : Text) :
    Agree settings (writeShell context c entry) (writeShell context c entry) := by
  refine .bind (.ofExcept _ rfl) fun html => .bind (.makeParent _) fun _ => ?_
  exact .bind (.changeFiles _ fun _ _ h => h.write _ _) fun _ => .pure _

theorem agree_writeShellsOf (base : Option Text) (stylesheet : Text) (modules : Table FilePath)
    (pages : Table Text) (entries : List Text) :
    Agree settings (writeShellsOf context base stylesheet modules pages entries)
      (writeShellsOf context base stylesheet modules pages entries) := by
  induction entries with
  | nil => exact .pure []
  | cons entry entries ih =>
    unfold writeShellsOf
    split
    · exact .throw _
    · exact .bind (agree_writeShell context _ _) fun path => .bind ih fun rest => .pure _

theorem writeShells_agrees : writeShells.Agrees settings context where
  applies _ _ _ _ := rfl
  run record := by
    refine .bind (.read .entries) fun entries => .bind (.read .modules) fun modules => ?_
    refine .bind (.read .stylesheet) fun stylesheet => ?_
    split
    · refine .bind (.read .prerendered) fun pages => ?_
      exact .bind (agree_writeShellsOf context _ _ _ _ _) fun files => .write _ _
    · exact .bind (.pure _) fun pages => .bind (agree_writeShellsOf context _ _ _ _ _) fun files => .write _ _

theorem agree_injectInto (path : FilePath) (head : Head) : Agree settings (injectInto path head) (injectInto path head) := by
  refine .get_bind fun s s' h => ?_
  exact .bind (.ofExcept _ (h.files.alike.readText path)) fun html => .changeFiles _ fun _ _ h => h.write _ _

theorem injectHead_agrees : injectHead.Agrees settings context where
  applies _ _ _ _ := rfl
  run record := by
    refine .bind (.read .htmlFiles) fun htmlFiles => .bind (.read .pageMetadata) fun metadata => ?_
    refine .bind (.forIn rfl _ fun page _ => ?_) fun _ => .pure _
    exact .bind (agree_injectInto _ _) fun _ => .pure _

end Step

/-! ## Runs -/

/-- Reports of runs that leave twin states and went the same way. -/
structure RunReport.Twins (settings : StageSettings) (r r' : RunReport) : Prop where
  state : r.state.Twins settings r'.state
  record : r.record = r'.record
  failure : r.failure = r'.failure

namespace Pipeline

variable {settings : StageSettings} {context : BuildContext} {s s' : RunState}

theorem runSingle_twins {step : Step} (hstep : step.Agrees settings context) (record : RunRecord) (h : s.Twins settings s') :
    (runSingle context step record s).Twins settings (runSingle context step record s') := by
  obtain ⟨hresult, hstate⟩ := hstep.run record s s' h
  unfold runSingle
  rw [← hstep.applies record s s' h]
  split_ifs
  · exact ⟨hstate, rfl, congrArg (failureOf? step.name) hresult⟩
  · exact ⟨h, rfl, rfl⟩

theorem runMembers_twins {steps : List Step} (hsteps : ∀ step ∈ steps, step.Agrees settings context) (record : RunRecord)
    (h : s.Twins settings s') :
    (runMembers context record steps s).1 = (runMembers context record steps s').1 ∧
      (runMembers context record steps s).2.Twins settings (runMembers context record steps s').2 := by
  induction steps generalizing s s' with
  | nil => exact ⟨rfl, h⟩
  | cons step steps ih =>
    obtain ⟨hstep, hsteps⟩ := List.forall_mem_cons.mp hsteps
    obtain ⟨hresult, hstate⟩ := hstep.run record s s' h
    obtain ⟨hresults, hstate'⟩ := ih hsteps hstate
    exact ⟨congrArg₂ (fun result results => (step.name, result) :: results) hresult hresults, hstate'⟩

theorem runGroup_twins {steps : List Step} (hsteps : ∀ step ∈ steps, step.Agrees settings context) (record : RunRecord)
    (h : s.Twins settings s') : (runGroup context steps record s).Twins settings (runGroup context steps record s') := by
  have hmembers : (steps.filter fun step => step.applies context record s') =
      steps.filter fun step => step.applies context record s :=
    List.filter_congr fun step hstep => ((hsteps step hstep).applies record s s' h).symm
  have hrun (step : Step) (hstep : step ∈ steps.filter fun step => step.applies context record s) :
      step.Agrees settings context := hsteps step (List.mem_of_mem_filter hstep)
  obtain ⟨hresults, hstate⟩ := runMembers_twins hrun record h
  rw [runGroup_eq, runGroup_eq, hmembers]
  dsimp only
  rw [← hresults]
  exact ⟨hstate, rfl, rfl⟩

theorem runPosition_twins {position : Position} (hsteps : ∀ step ∈ position.steps, step.Agrees settings context)
    (record : RunRecord) (h : s.Twins settings s') :
    (runPosition context position record s).Twins settings (runPosition context position record s') := by
  cases position with
  | single step => exact runSingle_twins (hsteps step List.mem_cons_self) record h
  | group steps => exact runGroup_twins hsteps record h

/-- Runs of a pipeline from twin states go the same way, position by position. -/
theorem runFrom_twins {p : Pipeline} (hsteps : ∀ position ∈ p, ∀ step ∈ position.steps, step.Agrees settings context)
    (record : RunRecord) (h : s.Twins settings s') : (runFrom context p record s).Twins settings (runFrom context p record s') := by
  induction p generalizing record s s' with
  | nil => exact ⟨h, rfl, rfl⟩
  | cons position positions ih =>
    obtain ⟨hposition, hpositions⟩ := List.forall_mem_cons.mp hsteps
    obtain ⟨hstate, hrecord, hfailure⟩ := runPosition_twins hposition record h
    rw [runFrom, runFrom, ← hfailure, ← hrecord]
    cases (runPosition context position record s).failure with
    | some failure => exact ⟨hstate, rfl, rfl⟩
    | none => exact ih hpositions _ hstate

/-- All steps of a build agree. -/
theorem default_agrees (paths : ProjectPaths) (site : SiteInfo) (shell : Template) :
    ∀ position ∈ default, ∀ step ∈ position.steps, step.Agrees settings (.ofProject paths site shell) := by
  simp only [default, List.forall_mem_cons, Position.steps]
  exact ⟨⟨Step.resetDirectories_agrees _, nofun⟩, ⟨Step.discoverEntries_agrees _, Step.scanComponents_agrees _, nofun⟩,
    ⟨Step.compileContent_agrees paths site shell, nofun⟩,
    ⟨Step.generateStyles_agrees _, Step.copyStatic_agrees _, Step.prerender_agrees paths site shell, nofun⟩,
    ⟨Step.writeShells_agrees _, nofun⟩, ⟨Step.injectHead_agrees _, nofun⟩, nofun⟩

end Pipeline

end StaticSite
