import StaticSite.Proofs.Compile.Bundle
import StaticSite.Proofs.FileTree.Twins

/-!
# Compiling in twin trees

Finding the documents and components of a project, and compiling its content, comes to the same in twin trees:
the same results, reports and records, and twins again.
-/
namespace StaticSite

open FileTree

variable {t t' : FileTree}

/-! ## Finding and reading -/

namespace FileTree.Twins

theorem scan (h : Twins t t') (directory : FilePath) : Registry.scan t directory = Registry.scan t' directory := by
  simp only [Registry.scan, allFiles, h.files]

theorem entries (h : Twins t t') (directory : FilePath) : Source.entries t directory = Source.entries t' directory := by
  simp only [Source.entries, h.pathExists, h.alike.isDirectory, h.files]

theorem load (h : Twins t t') (path : FilePath) : Source.load t path = Source.load t' path := by
  simp only [Source.load, SourceFile.ofPath, h.alike.readText, h.alike.canonical]

theorem metadata (h : Twins t t') (path : FilePath) (s : MetadataStore) : s.get? t path = s.get? t' path := by
  simp only [MetadataStore.get?, h.alike.canonical]

/-! ## Transforming -/

theorem check (h : Twins t t') (path : FilePath) (c : ExportCache) : c.check t path = c.check t' path := by
  unfold ExportCache.check
  rw [h.alike.readText]

theorem importOf (h : Twins t t') (file : SourceFile) (name : Text) (path : FilePath) (c : ExportCache) :
    Injection.importOf t file name path c = Injection.importOf t' file name path c := by
  simp only [Injection.importOf, h.check]

theorem outcomes (h : Twins t t') (registry : Registry) (file : SourceFile) (names : List Text) (c : ExportCache) :
    Injection.outcomes t registry file names c = Injection.outcomes t' registry file names c := by
  induction names generalizing c with
  | nil => rfl
  | cons name names ih => simp only [Injection.outcomes, Injection.outcome, h.importOf, ih]

theorem inject (h : Twins t t') (registry : Registry) (wrapper : Option Text) (file : SourceFile) (doc : Document)
    (c : ExportCache) :
    Injection.inject t registry wrapper file doc c = Injection.inject t' registry wrapper file doc c := by
  simp only [Injection.inject, h.outcomes]

theorem transform (h : Twins t t') (registry : Registry) (file : SourceFile) (doc : Document) (s : Stage) :
    s.transform t registry file doc = s.transform t' registry file doc := by
  simp only [Stage.transform, Stage.rebase, SourceFile.contentDirectory, h.inject, h.canonical?]

end FileTree.Twins

/-! ## Compiling -/

/-- Workspaces with twin trees and one stage, which has some settings. -/
structure Workspace.Twins (settings : StageSettings) (w w' : Workspace) : Prop where
  files : w.files.Twins w'.files
  stage : w.stage = w'.stage
  settings : w.stage.settings = settings

/-- Two runs have one result, and leave twin workspaces. -/
def Bundle.RunTwins {α : Type} (settings : StageSettings) (r r' : α × Workspace) : Prop :=
  r.1 = r'.1 ∧ r.2.Twins settings r'.2

namespace Workspace.Twins

open Bundle

variable {settings : StageSettings} {w w' : Workspace}

theorem withFiles (h : w.Twins settings w') {files files' : FileTree} (hfiles : files.Twins files') :
    Workspace.Twins settings { w with files } { w' with files := files' } := ⟨hfiles, h.stage, h.settings⟩

theorem applyPlugins (h : w.Twins settings w') (registry : Registry) (file : SourceFile) (doc : Document) :
    RunTwins settings (Bundle.applyPlugins file [.transforms registry] doc w)
      (Bundle.applyPlugins file [.transforms registry] doc w') := by
  rw [applyPlugins_transforms, applyPlugins_transforms, ← h.stage, h.files.transform]
  exact ⟨rfl, h.files, rfl, h.settings⟩

theorem storeFile (h : w.Twins settings w') (path : FilePath) (content : Text) :
    RunTwins settings (Bundle.storeFile path content w) (Bundle.storeFile path content w') := by
  have hmade : ChangeTwins (madeParent path w.files) (madeParent path w'.files) := by
    unfold madeParent
    cases FilePath.parent? path with
    | none => exact .changed h.files
    | some parent => exact h.files.createDirectories parent
  rw [storeFile_eq, storeFile_eq]
  generalize madeParent path w.files = made, madeParent path w'.files = made' at hmade
  cases hmade with
  | failed e => exact ⟨rfl, h⟩
  | @changed t t' htwins =>
    have hwrite : ChangeTwins (t.writeText path content) (t'.writeText path content) := htwins.write path _
    dsimp only
    generalize t.writeText path content = written, t'.writeText path content = written' at hwrite
    cases hwrite with
    | changed htwins' => exact ⟨rfl, h.withFiles htwins'⟩
    | failed e => exact ⟨rfl, h.withFiles htwins⟩

theorem emit (h : w.Twins settings w') (request : BundleRequest) (file : SourceFile) (path : FilePath) (doc : Document) :
    RunTwins settings (Bundle.emit request file path doc w) (Bundle.emit request file path doc w') := by
  unfold Bundle.emit
  cases unresolved? doc with
  | some component => exact ⟨rfl, h⟩
  | none =>
    have hstore := h.storeFile (modulePath request path (Module.ofDocument doc)) (Module.ofDocument doc)
    dsimp only
    revert hstore
    cases Bundle.storeFile (modulePath request path (Module.ofDocument doc)) (Module.ofDocument doc) w with
    | mk result v =>
      cases Bundle.storeFile (modulePath request path (Module.ofDocument doc)) (Module.ofDocument doc) w' with
      | mk result' v' =>
        rintro ⟨rfl, hv⟩
        cases result with
        | ok _ => exact ⟨rfl, hv⟩
        | error e => exact ⟨rfl, hv⟩

theorem compile (h : w.Twins settings w') (request : BundleRequest) (registry : Registry) (path : FilePath) :
    RunTwins settings (Bundle.compile request [.transforms registry] path w)
      (Bundle.compile request [.transforms registry] path w') := by
  unfold Bundle.compile
  rw [← h.files.load]
  cases Source.load w.files path with
  | error e => exact ⟨rfl, h⟩
  | ok found =>
    obtain ⟨doc, file⟩ := found
    have hplugins := h.applyPlugins registry file doc
    dsimp only
    revert hplugins
    cases Bundle.applyPlugins file [.transforms registry] doc w with
    | mk result v =>
      cases Bundle.applyPlugins file [.transforms registry] doc w' with
      | mk result' v' =>
        rintro ⟨rfl, hv⟩
        cases result with
        | error e => exact ⟨rfl, hv⟩
        | ok doc => exact hv.emit request file path doc

theorem compileAll (h : w.Twins settings w') (request : BundleRequest) (registry : Registry) (paths : List FilePath) :
    RunTwins settings (Bundle.compileAll request [.transforms registry] paths w)
      (Bundle.compileAll request [.transforms registry] paths w') := by
  induction paths generalizing w w' with
  | nil => exact ⟨rfl, h⟩
  | cons path paths ih =>
    obtain ⟨hresult, hw⟩ := h.compile request registry path
    obtain ⟨hresults, hw'⟩ := ih hw
    refine ⟨?_, hw'⟩
    simp only [Bundle.compileAll, hresult, hresults]

theorem run (h : w.Twins settings w') (request : BundleRequest) (registry : Registry) :
    RunTwins settings (Bundle.run request [.transforms registry] w) (Bundle.run request [.transforms registry] w') := by
  have hall := h.compileAll request registry request.entries
  unfold Bundle.run
  revert hall
  cases Bundle.compileAll request [.transforms registry] request.entries w with
  | mk results v =>
    cases Bundle.compileAll request [.transforms registry] request.entries w' with
    | mk results' v' =>
      rintro ⟨rfl, hv⟩
      dsimp only
      cases collect results with
      | error e => exact ⟨rfl, hv⟩
      | ok artifacts =>
        have hstore := hv.storeFile
          (FilePath.join request.assets ("runtime-" ++ Digest.short (Text.bytes runtime) ++ ".js")) runtime
        dsimp only
        generalize Bundle.storeFile
          (FilePath.join request.assets ("runtime-" ++ Digest.short (Text.bytes runtime) ++ ".js")) runtime v =
            stored, Bundle.storeFile (FilePath.join request.assets
              ("runtime-" ++ Digest.short (Text.bytes runtime) ++ ".js")) runtime v' = stored' at hstore ⊢
        obtain ⟨result, u⟩ := stored
        obtain ⟨result', u'⟩ := stored'
        obtain ⟨rfl, hu⟩ := hstore
        cases result with
        | error e => exact ⟨rfl, hu⟩
        | ok _ => exact ⟨rfl, hu⟩

end Workspace.Twins

end StaticSite
