import StaticSite.Proofs.Compile.Bundle
import StaticSite.Proofs.Compile.Jobs
import StaticSite.Proofs.Component.Injection

/-!
# Compiling as a job

The compilation of an entry, one operation at a time: the source is read, the metadata recorded, the cache of
default exports looked up and filled, each diagnostic reported by itself, and each directory made by itself
before the module is written. A job that runs alone is the compilation of the entry.
-/
namespace StaticSite

namespace Injection

/-- What comes of a component that one file defines, by whether this has a default export. -/
def importOutcome (file : SourceFile) (name : Text) (path : FilePath) (found : Bool) : ImportOutcome :=
  let i : EsModule.Import :=
    ⟨name, if found then .default else .named, FilePath.specifier file.directory path⟩
  match EsModule.Import.parse i.statement with
  | .ok _ => .imported i.statement
  | .error e => .reported (.malformed file.path name i.statement e.message)

/-- What comes of a component at once, or the file that is to be looked at. -/
def treatment (registry : Registry) (file : SourceFile) (name : Text) : ImportOutcome ⊕ FilePath :=
  if !registry.contains name then .inl .unknown
  else if registry.isConflict name then
    .inl (.reported (.ambiguous file.path name (registry.files name)))
  else match registry.resolve? name with
    | none => .inl .unknown
    | some path => .inr path

theorem outcome_of_settled {tree : FileTree} {registry : Registry} {file : SourceFile} {name : Text}
    {o : ImportOutcome} (h : treatment registry file name = .inl o) (exports : ExportCache) :
    outcome tree registry file name exports = (o, exports) := by
  unfold treatment at h
  unfold outcome
  split_ifs at h ⊢ with hcontains hconflict
  · rw [← Sum.inl.inj h]
  · rw [← Sum.inl.inj h]
  · cases hresolve : registry.resolve? name with
    | none =>
      rw [hresolve] at h
      rw [← Sum.inl.inj h]
    | some path =>
      rw [hresolve] at h
      cases h

theorem outcome_of_file {tree : FileTree} {registry : Registry} {file : SourceFile} {name : Text}
    {path : FilePath} (h : treatment registry file name = .inr path) (exports : ExportCache) :
    registry.resolve? name = some path ∧ outcome tree registry file name exports =
      (importOutcome file name path ((exports.check tree path).1.toOption.getD false),
        (exports.check tree path).2) := by
  unfold treatment at h
  unfold outcome
  split_ifs at h ⊢ with hcontains hconflict
  cases hresolve : registry.resolve? name with
  | none =>
    rw [hresolve] at h
    cases h
  | some other =>
    rw [hresolve] at h
    obtain rfl := Sum.inr.inj h
    refine ⟨rfl, ?_⟩
    simp only [importOutcome, importOf]
    split <;> (rename_i hparse; simp only [hparse])

theorem document_of_settled {registry : Registry} {file : SourceFile} {name : Text} {o : ImportOutcome}
    {d : Diagnostic} (h : treatment registry file name = .inl o) (hd : diagnostic? o = some d) :
    d.document = file.path := by
  unfold treatment at h
  split_ifs at h
  · obtain rfl := Sum.inl.inj h
    cases hd
  · obtain rfl := Sum.inl.inj h
    obtain rfl := Option.some.inj hd
    rfl
  · cases hresolve : registry.resolve? name with
    | none =>
      rw [hresolve] at h
      obtain rfl := Sum.inl.inj h
      cases hd
    | some path =>
      rw [hresolve] at h
      cases h

theorem document_importOutcome {file : SourceFile} {name : Text} {path : FilePath} {found : Bool}
    {d : Diagnostic} (hd : diagnostic? (importOutcome file name path found) = some d) :
    d.document = file.path := by
  unfold importOutcome at hd
  dsimp only at hd
  split at hd
  · cases hd
  · obtain rfl := Option.some.inj hd
    rfl

/-- The document that imports are added to, and the components that it lacks. -/
def prepare (registry : Registry) (wrapper : Option Text) (doc : Document) : Document × List Text :=
  let references := References.ofDocument doc
  match wrapper with
  | some w =>
    if wraps registry references w then
      (wrap w doc, { references with invoked := EsModule.insertName w references.invoked }.missing)
    else (doc, references.missing)
  | none => (doc, references.missing)

theorem inject_eq_prepare (tree : FileTree) (registry : Registry) (wrapper : Option Text)
    (file : SourceFile) (doc : Document) (exports : ExportCache) :
    inject tree registry wrapper file doc exports =
      addImports tree registry file (prepare registry wrapper doc).2 (prepare registry wrapper doc).1
        exports := by
  cases wrapper with
  | none => rfl
  | some w =>
    unfold inject prepare
    dsimp only
    split_ifs <;> rfl

end Injection

namespace Job

/-! ## Operations -/

def readText (path : FilePath) : Job (Except FileError Text) := perform (.readText path) done

def canonical (path : FilePath) : Job FilePath := perform (.canonical path) done

def canonical? (path : FilePath) : Job (Option FilePath) := perform (.canonical? path) done

def record (realPath : FilePath) (metadata : FrontMatter) : Job Unit :=
  perform (.record realPath metadata) done

def lookUp (path : FilePath) : Job (Option Bool) := perform (.lookUp path) done

def remember (path : FilePath) (found : Bool) : Job Unit := perform (.remember path found) done

def report (d : Diagnostic) : Job Unit := perform (.report d) done

def createDirectory (path : FilePath) : Job (Except FileError Unit) := perform (.createDirectory path) done

def isDirectory (path : FilePath) : Job Bool := perform (.isDirectory path) done

def writeText (path : FilePath) (content : Text) : Job (Except FileError Unit) :=
  perform (.writeText path content) done

/-! ## The transforms -/

/-- Whether a file has a default export. What is not known is read, and known afterwards. -/
def checkExport (path : FilePath) : Job (Except FileError Bool) := do
  match ← lookUp path with
  | some found => return .ok found
  | none =>
    match ← readText path with
    | .error e => return .error e
    | .ok source =>
      remember path (EsModule.hasDefaultExport source)
      return .ok (EsModule.hasDefaultExport source)

/-- Reports what is to be reported about a component. -/
def settle (o : ImportOutcome) : Job ImportOutcome :=
  match o with
  | .reported d => do
    report d
    return o
  | _ => return o

def outcome (registry : Registry) (file : SourceFile) (name : Text) : Job ImportOutcome :=
  match Injection.treatment registry file name with
  | .inl o => settle o
  | .inr path => do
    let found ← checkExport path
    settle (Injection.importOutcome file name path (found.toOption.getD false))

def outcomes (registry : Registry) (file : SourceFile) : List Text → Job (List ImportOutcome)
  | [] => return []
  | name :: names => do
    let o ← outcome registry file name
    let os ← outcomes registry file names
    return o :: os

/-- Wraps a document and adds the imports that it lacks. -/
def inject (registry : Registry) (wrapper : Option Text) (file : SourceFile) (doc : Document) :
    Job Document := do
  let (doc, names) := Injection.prepare registry wrapper doc
  let outcomes ← outcomes registry file names
  return Injection.insertStatements (outcomes.filterMap Injection.statement?) doc

def contentDirectory (file : SourceFile) (contentRoot : FilePath) : Job Text :=
  match FilePath.relativeTo? contentRoot file.directory with
  | some relative => return FilePath.toSlash relative
  | none => do
    let real ← canonical? contentRoot
    let relative := do
      FilePath.relativeTo? (← real) (← FilePath.parent? file.realPath)
    return FilePath.toSlash (relative.getD [])

def transform (settings : StageSettings) (registry : Registry) (file : SourceFile) (doc : Document) :
    Job Document := do
  record file.realPath doc.metadata
  let doc ← inject registry settings.pageWrapper file doc
  let directory ← contentDirectory file settings.contentRoot
  return rebaseNodes directory settings.base doc

/-! ## The module -/

/-- Makes a directory, unless it is there. -/
def ensureDirectory (path : FilePath) : Job (Except FileError Unit) := do
  match ← createDirectory path with
  | .ok () => return .ok ()
  | .error e =>
    if ← isDirectory path then return .ok ()
    else return .error e

/-- Makes a directory and those that lead to it, each by itself. -/
def makeDirectories : Nat → FilePath → Job (Except FileError Unit)
  | 0, _ => return .ok ()
  | fuel + 1, path =>
    if path.isEmpty then return .ok ()
    else do
      match ← createDirectory path with
      | .ok () => return .ok ()
      | .error e =>
        if e = .notFound then
          match FilePath.parent? path with
          | none => return .error e
          | some parent =>
            match ← makeDirectories fuel parent with
            | .error e => return .error e
            | .ok () => ensureDirectory path
        else if ← isDirectory path then return .ok ()
        else return .error e

def makeParent (path : FilePath) : Job (Except FileError Unit) :=
  match FilePath.parent? path with
  | some parent => makeDirectories (parent.length + 1) parent
  | none => return .ok ()

/-- Writes a file and makes the directories that lead to it. -/
def storeFile (path : FilePath) (content : Text) : Job (Except FileError Unit) := do
  match ← makeParent path with
  | .error e => return .error e
  | .ok () => writeText path content

/-- Compiles a document that has been transformed. -/
def emit (request : BundleRequest) (file : SourceFile) (path : FilePath) (doc : Document) :
    Job (Except BundleError Artifact) :=
  match Bundle.unresolved? doc with
  | some component => return .error (.unresolved file.path component)
  | none => do
    let module := Module.ofDocument doc
    let out := Bundle.modulePath request path module
    match ← storeFile out module with
    | .ok () => return .ok ⟨out, .entry⟩
    | .error e => return .error (.write out e)

/-- Compiles an entry. -/
def compile (settings : StageSettings) (request : BundleRequest) (registry : Registry) (path : FilePath) :
    Job (Except BundleError Artifact) := do
  match ← readText path with
  | .error e => return .error (.source (.unreadable path e))
  | .ok text =>
    let realPath ← canonical path
    let file : SourceFile := ⟨path, realPath⟩
    let doc ← transform settings registry file (Document.parse text)
    emit request file path doc

/-! ## Jobs that run alone -/

variable {registry : Registry} {w : Workspace}

theorem checkExport_alone (path : FilePath) (w : Workspace) :
    (checkExport path).alone w =
      ((w.stage.exports.check w.files path).1,
        w.withStage { w.stage with exports := (w.stage.exports.check w.files path).2 }) := by
  have hlookUp : (lookUp path).alone w = (w.stage.exports.find? path, w) := rfl
  have hread : (readText path).alone w = (w.files.readText path, w) := rfl
  cases hfind : w.stage.exports.find? path with
  | some found =>
    rw [checkExport, alone_bind, hlookUp, hfind]
    simp only [ExportCache.check, hfind]
    rfl
  | none =>
    have hunknown : w.stage.exports.known.filter (fun entry => !FilePath.same entry.1 path) =
        w.stage.exports.known := by
      refine List.filter_eq_self.mpr fun entry hentry => ?_
      have hnone := List.find?_eq_none.mp (Option.map_eq_none_iff.mp hfind) entry hentry
      simpa using hnone
    rw [checkExport, alone_bind, hlookUp, hfind]
    dsimp only
    rw [alone_bind, hread]
    simp only [ExportCache.check, hfind]
    cases w.files.readText path with
    | error e => rfl
    | ok source =>
      dsimp only
      rw [← hunknown]
      rfl

theorem settle_alone (o : ImportOutcome) (w : Workspace) :
    (settle o).alone w = (o, w.withStage { w.stage with
      diagnostics := w.stage.diagnostics ++ (Injection.diagnostic? o).toList }) := by
  cases o with
  | unknown => simp [settle, Injection.diagnostic?, Workspace.withStage]
  | imported statement => simp [settle, Injection.diagnostic?, Workspace.withStage]
  | reported d => rfl

theorem outcome_alone (registry : Registry) (file : SourceFile) (name : Text) (w : Workspace) :
    let o := Injection.outcome w.files registry file name w.stage.exports
    (outcome registry file name).alone w = (o.1, w.withStage { w.stage with
      exports := o.2, diagnostics := w.stage.diagnostics ++ (Injection.diagnostic? o.1).toList }) := by
  intro o
  unfold outcome
  cases htreatment : Injection.treatment registry file name with
  | inl outcome =>
    have ho : o = (outcome, w.stage.exports) := Injection.outcome_of_settled htreatment _
    rw [ho]
    exact settle_alone outcome w
  | inr path =>
    have ho : Injection.outcome w.files registry file name w.stage.exports = _ :=
      (Injection.outcome_of_file htreatment w.stage.exports).2
    simp only [o, ho]
    rw [alone_bind, checkExport_alone]
    exact settle_alone _ _

theorem outcomes_alone (registry : Registry) (file : SourceFile) (names : List Text) (w : Workspace) :
    let os := Injection.outcomes w.files registry file names w.stage.exports
    (outcomes registry file names).alone w = (os.1, w.withStage { w.stage with
      exports := os.2, diagnostics := w.stage.diagnostics ++ os.1.filterMap Injection.diagnostic? }) := by
  induction names generalizing w with
  | nil => simp [outcomes, Injection.outcomes, Workspace.withStage]
  | cons name names ih =>
    intro os
    rw [outcomes, alone_bind, outcome_alone]
    dsimp only
    rw [alone_bind, ih]
    simp only [os, Injection.outcomes, alone_done, pure_eq]
    cases hd : Injection.diagnostic? (Injection.outcome w.files registry file name w.stage.exports).1 with
    | none => simp [Workspace.withStage, hd]
    | some d => simp [Workspace.withStage, hd]

theorem inject_alone (registry : Registry) (wrapper : Option Text) (file : SourceFile) (doc : Document)
    (w : Workspace) :
    let injection := Injection.inject w.files registry wrapper file doc w.stage.exports
    (inject registry wrapper file doc).alone w = (injection.document, w.withStage { w.stage with
      exports := injection.exports, diagnostics := w.stage.diagnostics ++ injection.diagnostics }) := by
  intro injection
  simp only [injection, Injection.inject_eq_prepare, Injection.addImports, inject]
  rw [alone_bind, outcomes_alone]
  rfl

theorem contentDirectory_alone (file : SourceFile) (contentRoot : FilePath) (w : Workspace) :
    (contentDirectory file contentRoot).alone w = (file.contentDirectory w.files contentRoot, w) := by
  unfold contentDirectory SourceFile.contentDirectory
  cases FilePath.relativeTo? contentRoot file.directory with
  | some relative => rfl
  | none => rfl

theorem transform_alone (file : SourceFile) (doc : Document) (w : Workspace) :
    (transform w.stage.settings registry file doc).alone w =
      ((w.stage.transform w.files registry file doc).1,
        w.withStage (w.stage.transform w.files registry file doc).2) := by
  have hrecord : (record file.realPath doc.metadata).alone w = ((), w.withStage { w.stage with
      metadata := w.stage.metadata.insert file.realPath doc.metadata }) := rfl
  rw [transform, alone_bind, hrecord]
  dsimp only
  rw [alone_bind, inject_alone]
  dsimp only
  rw [alone_bind, contentDirectory_alone]
  rfl

theorem ensureDirectory_alone {path : FilePath} {t : FileTree} (h : w.files.ensureDirectory path = .ok t) :
    (ensureDirectory path).alone w = (.ok (), { w with files := t }) := by
  have hcreate : (createDirectory path).alone w = w.afterChange (w.files.createDirectory path) := rfl
  rw [ensureDirectory, alone_bind, hcreate]
  unfold FileTree.ensureDirectory at h
  cases hmade : w.files.createDirectory path with
  | ok made =>
    rw [hmade] at h
    obtain rfl := Except.ok.inj h
    rfl
  | error e =>
    rw [hmade] at h
    dsimp only at h
    split_ifs at h with hthere
    obtain rfl := Except.ok.inj h
    have hasked : (isDirectory path).alone w = (true, w) := Prod.ext hthere rfl
    simp only [Workspace.afterChange]
    rw [alone_bind, hasked]
    rfl

/-- Directories that can be made are made by the job. -/
theorem makeDirectories_alone {fuel : Nat} {path : FilePath} {t : FileTree}
    (h : FileTree.createDirectoriesFrom fuel w.files path = .ok t) :
    (makeDirectories fuel path).alone w = (.ok (), { w with files := t }) := by
  induction fuel generalizing path t with
  | zero =>
    obtain rfl := Except.ok.inj h
    rfl
  | succ fuel ih =>
    have hcreate : (createDirectory path).alone w = w.afterChange (w.files.createDirectory path) := rfl
    rw [FileTree.createDirectoriesFrom] at h
    rw [makeDirectories]
    by_cases hpath : path.isEmpty = true
    · rw [if_pos hpath] at h ⊢
      obtain rfl := Except.ok.inj h
      rfl
    rw [if_neg hpath] at h ⊢
    rw [alone_bind, hcreate]
    cases hmade : w.files.createDirectory path with
    | ok made =>
      rw [hmade] at h
      obtain rfl := Except.ok.inj h
      rfl
    | error e =>
      simp only [hmade, Workspace.afterChange] at h ⊢
      by_cases hmissing : e = .notFound
      · rw [if_pos hmissing] at h ⊢
        cases hparent : FilePath.parent? path with
        | none =>
          rw [hparent] at h
          cases h
        | some parent =>
          simp only [hparent] at h ⊢
          cases habove : FileTree.createDirectoriesFrom fuel w.files parent with
          | error e =>
            rw [habove] at h
            cases h
          | ok above =>
            rw [habove] at h
            rw [alone_bind, ih habove]
            exact ensureDirectory_alone (w := { w with files := above }) h
      · rw [if_neg hmissing] at h ⊢
        split_ifs at h with hthere
        obtain rfl := Except.ok.inj h
        have hasked : (isDirectory path).alone w = (true, w) := Prod.ext hthere rfl
        rw [alone_bind, hasked]
        rfl

/-- The directories that lead to a file can be made, or nothing comes of the last of them for another reason
than that one before it is missing. So none is made in vain. -/
def Undivided (path : FilePath) (t : FileTree) : Prop :=
  ∀ parent, FilePath.parent? path = some parent → (∃ t', t.createDirectories parent = .ok t') ∨
    ∃ e, t.createDirectory parent = .error e ∧ e ≠ .notFound

theorem makeParent_alone {path : FilePath} (h : Undivided path w.files) :
    (makeParent path).alone w = w.afterChange (Bundle.madeParent path w.files) := by
  unfold makeParent Bundle.madeParent
  cases hparent : FilePath.parent? path with
  | none => rfl
  | some parent =>
    dsimp only
    rcases h parent hparent with ⟨t', hmade⟩ | ⟨e, hfailed, he⟩
    · rw [hmade]
      exact makeDirectories_alone hmade
    · have hcreate : (createDirectory parent).alone w = (.error e, w) := by
        change w.afterChange (w.files.createDirectory parent) = _
        rw [hfailed]
        rfl
      have hasked : (isDirectory parent).alone w = (w.files.isDirectory parent, w) := rfl
      rw [FileTree.createDirectories, FileTree.createDirectoriesFrom, makeDirectories]
      by_cases hpath : parent.isEmpty = true
      · rw [if_pos hpath, if_pos hpath]
        rfl
      rw [if_neg hpath, if_neg hpath, alone_bind, hcreate, hfailed]
      dsimp only
      rw [if_neg he, if_neg he, alone_bind, hasked]
      cases w.files.isDirectory parent <;> rfl

theorem storeFile_alone {path : FilePath} (content : Text) (h : Undivided path w.files) :
    Bundle.storeFile path content w = (((storeFile path content).alone w).1.mapError (.write path),
      ((storeFile path content).alone w).2) := by
  rw [Bundle.storeFile_eq, storeFile, alone_bind, makeParent_alone h]
  cases Bundle.madeParent path w.files with
  | error e => rfl
  | ok t =>
    have hwrite : (writeText path content).alone { w with files := t } =
        ({ w with files := t } : Workspace).afterChange (t.writeText path content) := rfl
    simp only [Workspace.afterChange] at hwrite ⊢
    rw [hwrite]
    cases t.writeText path content <;> rfl

theorem emit_alone {request : BundleRequest} {file : SourceFile} {path : FilePath} {doc : Document}
    (h : Undivided (Bundle.modulePath request path (Module.ofDocument doc)) w.files) :
    (emit request file path doc).alone w = Bundle.emit request file path doc w := by
  unfold emit Bundle.emit
  cases Bundle.unresolved? doc with
  | some component => rfl
  | none =>
    dsimp only
    rw [alone_bind, storeFile_alone _ h]
    generalize (storeFile (Bundle.modulePath request path (Module.ofDocument doc))
      (Module.ofDocument doc)).alone w = stored
    obtain ⟨result, w'⟩ := stored
    cases result <;> rfl

/-- The job that compiles an entry does so when it runs alone. -/
theorem compile_alone {request : BundleRequest} {path : FilePath}
    (h : ∀ module, Undivided (Bundle.modulePath request path module) w.files) :
    (compile w.stage.settings request registry path).alone w =
      Bundle.compile request [.transforms registry] path w := by
  have hread : (readText path).alone w = (w.files.readText path, w) := rfl
  rw [compile, alone_bind, hread]
  cases htext : w.files.readText path with
  | error e =>
    simp only [Bundle.compile, Source.load, htext]
    rfl
  | ok text =>
    have hcanonical : (canonical path).alone w = (w.files.canonical path, w) := rfl
    rw [Bundle.compile_of_text htext]
    dsimp only
    rw [alone_bind, hcanonical]
    dsimp only
    rw [alone_bind, transform_alone]
    exact emit_alone (h _)

end Job

end StaticSite
