import StaticSite.Build.Content
import StaticSite.Proofs.Build.Actions
import StaticSite.Proofs.Compile.Bundle
import StaticSite.Proofs.Component.Reports

/-!
# What compiling the content reports

The transforms note problems with components while entries are compiled, and the bundler goes on. In the end
the step fails with all that has been noted, in order, whatever else went wrong; when nothing has been
noted, it fails with the error of the bundler.
-/
namespace StaticSite

namespace Bundle

variable {request : BundleRequest} {registry : Registry} {w : Workspace}

/-- What the transforms report about an entry. Of an entry that cannot be loaded they report nothing. -/
def reportsOf (registry : Registry) (path : FilePath) (w : Workspace) : List Diagnostic :=
  match Source.load w.files path with
  | .ok (doc, file) =>
    (Injection.inject w.files registry w.stage.settings.pageWrapper file doc w.stage.exports).diagnostics
  | .error _ => []

/-- What the transforms report about entries, each at its turn. -/
def reports (request : BundleRequest) (registry : Registry) : List FilePath → Workspace → List Diagnostic
  | [], _ => []
  | path :: paths, w =>
    reportsOf registry path w ++ reports request registry paths (compile request [.transforms registry] path w).2

theorem compile_diagnostics (path : FilePath) (w : Workspace) :
    (compile request [.transforms registry] path w).2.stage.diagnostics =
      w.stage.diagnostics ++ reportsOf registry path w := by
  unfold compile reportsOf
  cases hload : Source.load w.files path with
  | error e => simp
  | ok loaded =>
    obtain ⟨doc, file⟩ := loaded
    dsimp only
    rw [applyPlugins_transforms]
    dsimp only
    rw [emit_stage]
    rfl

theorem compileAll_diagnostics (paths : List FilePath) (w : Workspace) :
    (compileAll request [.transforms registry] paths w).2.stage.diagnostics =
      w.stage.diagnostics ++ reports request registry paths w := by
  induction paths generalizing w with
  | nil => simp [compileAll, reports]
  | cons path paths ih =>
    simp only [compileAll, reports, ih, compile_diagnostics, List.append_assoc]

/-- The shared script adds nothing to what the entries have led to. -/
theorem run_diagnostics (w : Workspace) :
    (run request [.transforms registry] w).2.stage.diagnostics =
      w.stage.diagnostics ++ reports request registry request.entries w := by
  rw [run_eq_finish, finish_stage, compileAll_diagnostics]

end Bundle

namespace Action

variable {α β : Type}

/-- The action leaves the workspace alone, and its failures carry no diagnostics. -/
def Unreporting (a : Action α) : Prop :=
  ∀ s : RunState, (a.run s).2.workspace = s.workspace ∧ ∀ ds, (a.run s).1 ≠ .error (.diagnostics ds)

namespace Unreporting

theorem bind {a : Action α} {f : α → Action β} (ha : Unreporting a) (hf : ∀ x, Unreporting (f x)) :
    Unreporting (a >>= f) := by
  intro s
  obtain ⟨hworkspace, hfailure⟩ := ha s
  rw [run_bind]
  cases hrun : a.run s with
  | mk result s' =>
    rw [hrun] at hworkspace hfailure
    cases result with
    | ok x =>
      obtain ⟨hworkspace', hfailure'⟩ := hf x s'
      exact ⟨hworkspace'.trans hworkspace, hfailure'⟩
    | error e =>
      refine ⟨hworkspace, fun ds heq => hfailure ds ?_⟩
      rw [Except.error.inj heq]

theorem ofExcept {ε : Type} {wrap : ε → StepError} (h : ∀ e, (∀ ds, wrap e ≠ .diagnostics ds))
    (result : Except ε α) : Unreporting (ofExcept wrap result) := by
  intro s
  cases result with
  | ok x => exact ⟨rfl, fun ds => nofun⟩
  | error e => exact ⟨rfl, fun ds heq => h e ds (Except.error.inj heq)⟩

theorem write (key : OutputKey) (value : key.kind.Value) : Unreporting (write key value) := by
  intro s
  cases hcontains : s.outputs.contains key.name with
  | false =>
    rw [run_write value hcontains]
    exact ⟨rfl, fun ds => nofun⟩
  | true =>
    have hrun : (Action.write key value).run s = (.error (.output (.alreadyWritten key.name)), s) := by
      unfold Action.write
      rw [run_bind]
      change ExceptT.run (do
        let outputs ← Action.ofExcept .output (s.outputs.put key value)
        set { s with outputs }) s = _
      rw [Outputs.put_of_contains hcontains]
      rfl
    rw [hrun]
    exact ⟨rfl, fun ds => nofun⟩

end Unreporting

end Action

namespace Step

open Action

/-- What the step does with a result of the bundler, after the diagnostics have been taken out. -/
def publish (paths : ProjectPaths) (entries : Table FilePath) (bundled : Except BundleError (List Artifact))
    (w : Workspace) : Action Unit := do
  let artifacts ← ofExcept .bundle bundled
  let modules ← ofExcept .outputMap (OutputMap.ofArtifacts entries paths.content paths.assets artifacts)
  write .modules modules
  write .pageMetadata (recordedMetadata w.files w.stage entries)

theorem publish_unreporting (paths : ProjectPaths) (entries : Table FilePath)
    (bundled : Except BundleError (List Artifact)) (w : Workspace) :
    Unreporting (publish paths entries bundled w) := by
  unfold publish
  refine .bind (.ofExcept nofun _) fun artifacts => ?_
  refine .bind (.ofExcept nofun _) fun modules => ?_
  exact .bind (.write _ _) fun _ => .write _ _

theorem compileContent_run {paths : ProjectPaths} {site : SiteInfo} {shell : Template}
    {record : RunRecord} {s : RunState} {entries : Table FilePath} {registry : Registry}
    (hentries : s.outputs.get .entries = .ok entries)
    (hregistry : s.outputs.get .components = .ok registry) :
    let request : BundleRequest := ⟨entries.map (·.2), paths.content, paths.assets⟩
    let bundled := Bundle.run request [.transforms registry] s.workspace
    let w : Workspace := ⟨bundled.2.files, bundled.2.stage.drain.2⟩
    (compileContent.run (.ofProject paths site shell) record).run s =
      if bundled.2.stage.diagnostics = [] then (publish paths entries bundled.1 w).run { s with workspace := w }
      else (.error (.diagnostics (Diagnostic.sort bundled.2.stage.diagnostics)), { s with workspace := w }) := by
  intro request bundled w
  dsimp only [compileContent]
  rw [run_bind, run_read hentries]
  dsimp only
  rw [run_bind, run_read hregistry]
  dsimp only
  rw [run_bind]
  change ExceptT.run (do
    set ({ s with workspace := w } : RunState)
    if !(Diagnostic.sort bundled.2.stage.diagnostics).isEmpty then
      throw (.diagnostics (Diagnostic.sort bundled.2.stage.diagnostics))
    publish paths entries bundled.1 w) s = _
  rw [run_bind]
  change ExceptT.run (do
    if !(Diagnostic.sort bundled.2.stage.diagnostics).isEmpty then
      throw (.diagnostics (Diagnostic.sort bundled.2.stage.diagnostics))
    publish paths entries bundled.1 w) ({ s with workspace := w } : RunState) = _
  by_cases h : bundled.2.stage.diagnostics = []
  · rw [if_pos h, h]
    rfl
  · have hsort : (Diagnostic.sort bundled.2.stage.diagnostics).isEmpty = false := by
      have hne : Diagnostic.sort bundled.2.stage.diagnostics ≠ [] := by
        intro hnil
        have hperm := Diagnostic.sort_perm bundled.2.stage.diagnostics
        rw [hnil] at hperm
        exact h hperm.nil_eq.symm
      simpa using hne
    rw [if_neg h, hsort]
    rfl

/-- Compiling the content reports exactly what the transforms have noted about the entries that could be
loaded, in order, and for want of that gives the error of the bundler; nothing is noted afterwards. -/
theorem compileContent_reports (paths : ProjectPaths) (site : SiteInfo) (shell : Template)
    (record : RunRecord) {s : RunState} {entries : Table FilePath} {registry : Registry}
    (hentries : s.outputs.get .entries = .ok entries)
    (hregistry : s.outputs.get .components = .ok registry)
    (hempty : s.workspace.stage.diagnostics = []) :
    let request : BundleRequest := ⟨entries.map (·.2), paths.content, paths.assets⟩
    let noted := Bundle.reports request registry request.entries s.workspace
    let run := (compileContent.run (.ofProject paths site shell) record).run s
    run.2.workspace.stage.diagnostics = [] ∧
      (noted ≠ [] → run.1 = .error (.diagnostics (Diagnostic.sort noted)) ∧
        (Diagnostic.sort noted).Perm noted ∧
        (Diagnostic.sort noted).Pairwise (fun d e => Diagnostic.order e d ≠ .lt) ∧
        run.2.outputs = s.outputs) ∧
      (noted = [] → (∀ ds, run.1 ≠ .error (.diagnostics ds)) ∧
        ∀ e, (Bundle.run request [.transforms registry] s.workspace).1 = .error e →
          run.1 = .error (.bundle e) ∧ run.2.outputs = s.outputs) := by
  intro request noted run
  let bundled := Bundle.run request [.transforms registry] s.workspace
  let w : Workspace := ⟨bundled.2.files, bundled.2.stage.drain.2⟩
  have hnoted : bundled.2.stage.diagnostics = noted := by
    rw [Bundle.run_diagnostics, hempty, List.nil_append]
  have hrun : run = if noted = [] then (publish paths entries bundled.1 w).run { s with workspace := w }
      else (.error (.diagnostics (Diagnostic.sort noted)), { s with workspace := w }) := by
    rw [← hnoted]
    exact compileContent_run hentries hregistry
  rw [hrun]
  by_cases h : noted = []
  · rw [if_pos h]
    obtain ⟨hworkspace, hfailure⟩ := publish_unreporting paths entries bundled.1 w { s with workspace := w }
    refine ⟨?_, fun hne => absurd h hne, fun _ => ⟨hfailure, fun e he => ?_⟩⟩
    · rw [hworkspace]
      rfl
    · rw [he]
      exact ⟨rfl, rfl⟩
  · rw [if_neg h]
    refine ⟨rfl, fun _ => ⟨rfl, Diagnostic.sort_perm noted, ?_, rfl⟩, fun hnone => absurd hnone h⟩
    exact (Diagnostic.pairwise_sort noted).imp fun hahead => (Diagnostic.ahead_iff _ _).mp hahead

/-! ## A component with two files -/

namespace AmbiguousCard

def paths : ProjectPaths :=
  ⟨"/p", "/p/content", "/p/components", "/p/public", "/p/styles", "/p/dist", none⟩

def entries : Table FilePath :=
  [("a".toList, "/p/content/a.md"), ("b".toList, "/p/content/b.md"), ("gone".toList, "/p/content/gone.md")]

def registry : Registry :=
  (Registry.empty.insert "Card" "/p/components/Card.tsx").insert "Card" "/p/components/old/Card.tsx"

/-- Two documents use the component, and a third one is missing. -/
def start : RunState :=
  let content : RealPath := ["p".toList, "content".toList]
  ⟨⟨⟨[(["p".toList], .directory), (content, .directory),
      (content ++ ["a.md".toList], .file (Text.bytes "<Card/>")),
      (content ++ ["b.md".toList], .file (Text.bytes "<Card/>"))]⟩, .ofSettings ⟨"/p/content", none, none⟩⟩,
    ⟨[("components".toList, ⟨.components, registry⟩), ("entries".toList, ⟨.paths, entries⟩)]⟩⟩

def ambiguous (document : FilePath) : Diagnostic :=
  .ambiguous document "Card" ["/p/components/Card.tsx", "/p/components/old/Card.tsx"]

def request : BundleRequest := ⟨entries.map (·.2), paths.content, paths.assets⟩

/-- What compiling the content leads to. -/
def compiled : Except StepError Unit × RunState :=
  (compileContent.run (.ofProject paths ⟨"Site", none, "en", none⟩ []) (.start ⟨true, true, none⟩)).run start

/-- Both diagnostics are reported, though the bundler has failed for other reasons too. -/
theorem diagnostics_before_errors :
    (Bundle.run request [.transforms registry] start.workspace).1 =
        .error (.unresolved "/p/content/a.md" "Card") ∧
      compiled.1 = .error (.diagnostics [ambiguous "/p/content/a.md", ambiguous "/p/content/b.md"]) ∧
      compiled.2.outputs = start.outputs ∧ compiled.2.workspace.stage.diagnostics = [] := by
  have hnoted : Bundle.reports request registry request.entries start.workspace =
      [ambiguous "/p/content/a.md", ambiguous "/p/content/b.md"] := by decide +kernel
  have hsorted : Diagnostic.sort [ambiguous "/p/content/a.md", ambiguous "/p/content/b.md"] =
      [ambiguous "/p/content/a.md", ambiguous "/p/content/b.md"] := by decide +kernel
  have hbundled : (Bundle.run request [.transforms registry] start.workspace).1 =
      .error (.unresolved "/p/content/a.md" "Card") := by decide +kernel
  unfold request at hnoted
  unfold compiled
  have hentries : start.outputs.get .entries = .ok entries := rfl
  have hregistry : start.outputs.get .components = .ok registry := rfl
  obtain ⟨hdrained, hreported, -⟩ := compileContent_reports paths ⟨"Site", none, "en", none⟩ []
    (.start ⟨true, true, none⟩) hentries hregistry rfl
  rw [hnoted, hsorted] at hreported
  obtain ⟨hresult, -, -, houtputs⟩ := hreported (by simp)
  exact ⟨hbundled, hresult, houtputs, hdrained⟩

end AmbiguousCard

end Step

end StaticSite
