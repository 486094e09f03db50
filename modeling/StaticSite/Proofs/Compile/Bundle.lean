import StaticSite.Proofs.Compile.OutputMap
import StaticSite.Proofs.Document.Metadata

/-!
# What compiling leaves

Compiling an entry reads its document, passes it through the transform stage and writes its module.
Compiling several leaves the module of each, as long as no two of them are written to one place.
-/
namespace StaticSite.Bundle

open FileTree

variable {request : BundleRequest} {registry : Registry} {w w' : Workspace}

/-- What comes of a request once its entries have been compiled: the first error, or the artifacts and the
shared script. -/
def finish (request : BundleRequest) (results : List (Except BundleError Artifact)) (w : Workspace) :
    Except BundleError (List Artifact) × Workspace :=
  match collect results with
  | .error e => (.error e, w)
  | .ok artifacts =>
    let path := FilePath.join request.assets ("runtime-" ++ Digest.short (Text.bytes runtime) ++ ".js")
    match storeFile path runtime w with
    | (.error e, w) => (.error e, w)
    | (.ok (), w) => (.ok (artifacts ++ [⟨path, .chunk⟩]), w)

theorem run_eq_finish (request : BundleRequest) (plugins : List Plugin) (w : Workspace) :
    run request plugins w =
      finish request (compileAll request plugins request.entries w).1
        (compileAll request plugins request.entries w).2 := rfl

/-- Storing a file leaves the stage alone, whether it succeeds or not. -/
theorem storeFile_stage (path : FilePath) (content : Text) (w : Workspace) :
    (storeFile path content w).2.stage = w.stage := by
  unfold storeFile
  dsimp only
  split
  · rfl
  · split <;> rfl

theorem emit_stage (request : BundleRequest) (file : SourceFile) (path : FilePath) (doc : Document)
    (w : Workspace) : (emit request file path doc w).2.stage = w.stage := by
  have hstore := storeFile_stage (modulePath request path (Module.ofDocument doc)) (Module.ofDocument doc) w
  unfold emit
  split
  · rfl
  · dsimp only
    split
    · rename_i h
      rwa [h] at hstore
    · rename_i h
      rwa [h] at hstore

theorem finish_stage (request : BundleRequest) (results : List (Except BundleError Artifact))
    (w : Workspace) : (finish request results w).2.stage = w.stage := by
  have hstore := storeFile_stage
    (FilePath.join request.assets ("runtime-" ++ Digest.short (Text.bytes runtime) ++ ".js")) runtime w
  unfold finish
  split
  · rfl
  · dsimp only
    split
    · rename_i h
      rwa [h] at hstore
    · rename_i h
      rwa [h] at hstore

/-- The tree with the directories that lead to a file. -/
def madeParent (path : FilePath) (t : FileTree) : Except FileError FileTree :=
  match FilePath.parent? path with
  | some parent => t.createDirectories parent
  | none => .ok t

theorem storeFile_eq (path : FilePath) (content : Text) (w : Workspace) :
    storeFile path content w =
      match madeParent path w.files with
      | .error e => (.error (.write path e), w)
      | .ok files =>
        match files.writeText path content with
        | .error e => (.error (.write path e), { w with files })
        | .ok files => (.ok (), { w with files }) := rfl

theorem madeParent_spec {path : FilePath} {t t' : FileTree} (hrooted : t.Rooted)
    (h : madeParent path t = .ok t') : t'.Rooted ∧ Extends [] t t' := by
  unfold madeParent at h
  split at h
  · exact createDirectories_spec hrooted h
  · obtain rfl := Except.ok.inj h
    exact ⟨hrooted, .refl t⟩

/-- A file that has been stored stands where its path leads, and everything else is as it was. -/
theorem storeFile_spec {path : FilePath} {content : Text} (hrooted : w.files.Rooted)
    (h : storeFile path content w = (.ok (), w')) :
    ∃ q, w'.files.resolve true path = .ok q ∧ w'.files.get? q = some (.file (Text.bytes content)) ∧
      w'.files.Rooted ∧ Extends [q] w.files w'.files ∧ w'.stage = w.stage := by
  rw [storeFile_eq] at h
  cases hmade : madeParent path w.files with
  | error e =>
    rw [hmade] at h
    cases h
  | ok t =>
    obtain ⟨hrooted', hextends⟩ := madeParent_spec hrooted hmade
    simp only [hmade] at h
    cases hwrite : t.writeText path content with
    | error e =>
      rw [hwrite] at h
      cases h
    | ok t' =>
      rw [hwrite] at h
      obtain ⟨-, rfl⟩ := Prod.mk.inj h
      obtain ⟨q, hq, hget, hrooted'', hextends'⟩ := write_spec hrooted' hwrite
      exact ⟨q, hextends'.resolve hq, hget, hrooted'', hextends.trans hextends', rfl⟩

/-- A file that has been stored below a directory without links stands where its names say. -/
theorem storeFile_below {base : FilePath} {ns : List Text} {content : Text} (hbase : base ≠ [])
    (hne : ns ≠ []) (hns : ∀ n ∈ ns, FilePath.IsName n) (hrooted : w.files.Rooted)
    (hfree : w'.files.LinkFreeBelow base)
    (h : storeFile (FilePath.join base (FilePath.ofNames ns)) content w = (.ok (), w')) :
    ∃ root, w'.files.resolve true base = .ok root ∧
      w'.files.resolve true (FilePath.join base (FilePath.ofNames ns)) = .ok (root ++ ns) ∧
      w'.files.get? (root ++ ns) = some (.file (Text.bytes content)) ∧ w'.files.Rooted ∧
      Extends [root ++ ns] w.files w'.files ∧ w'.stage = w.stage := by
  obtain ⟨q, hq, hget, hrooted', hextends, hstage⟩ := storeFile_spec hrooted h
  obtain ⟨root, hroot, hnames⟩ := resolve_join_split hbase hns hne hq
  obtain rfl := hnames (hfree root hroot)
  exact ⟨root, hroot, hq, hget, hrooted', hextends, hstage⟩

/-- The document that an entry is compiled from, by the text of its source. -/
def transformed (registry : Registry) (path : FilePath) (text : Text) (w : Workspace) : Document × Stage :=
  w.stage.transform w.files registry (.ofPath w.files path) (Document.parse text)

theorem metadata_transformed (registry : Registry) (path : FilePath) (text : Text) (w : Workspace) :
    (transformed registry path text w).2.metadata =
      w.stage.metadata.insert (w.files.canonical path) (Document.parse text).metadata := rfl

theorem applyPlugins_transforms (file : SourceFile) (doc : Document) :
    applyPlugins file [.transforms registry] doc w =
      (.ok (w.stage.transform w.files registry file doc).1,
        ⟨w.files, (w.stage.transform w.files registry file doc).2⟩) := rfl

theorem compile_of_text {path : FilePath} {text : Text} (h : w.files.readText path = .ok text) :
    compile request [.transforms registry] path w =
      emit request (.ofPath w.files path) path (transformed registry path text w).1
        ⟨w.files, (transformed registry path text w).2⟩ := by
  have hload : Source.load w.files path = .ok (Document.parse text, .ofPath w.files path) := by
    rw [Source.load, h]
  unfold compile
  rw [hload]
  dsimp only
  rw [applyPlugins_transforms]
  rfl

theorem emit_ok {file : SourceFile} {path : FilePath} {doc : Document} {a : Artifact}
    (h : emit request file path doc w = (.ok a, w')) :
    a = ⟨modulePath request path (Module.ofDocument doc), .entry⟩ ∧
      storeFile (modulePath request path (Module.ofDocument doc)) (Module.ofDocument doc) w =
        (.ok (), w') := by
  unfold emit at h
  split at h
  · exact absurd (Prod.mk.inj h).1 nofun
  · dsimp only at h
    split at h
    · rename_i hstore
      obtain ⟨ha, rfl⟩ := Prod.mk.inj h
      exact ⟨(Except.ok.inj ha).symm, hstore⟩
    · exact absurd (Prod.mk.inj h).1 nofun

/-- An entry that has been compiled: its source was read and transformed, and its module was stored. -/
theorem compile_spec {path : FilePath} {a : Artifact}
    (h : compile request [.transforms registry] path w = (.ok a, w')) :
    ∃ text, w.files.readText path = .ok text ∧
      let doc := transformed registry path text w
      let module := Module.ofDocument doc.1
      a = ⟨modulePath request path module, .entry⟩ ∧
        storeFile (modulePath request path module) module ⟨w.files, doc.2⟩ = (.ok (), w') := by
  cases htext : w.files.readText path with
  | error e =>
    have hfailed : compile request [.transforms registry] path w =
        (.error (.source (.unreadable path e)), w) := by
      simp only [compile, Source.load, htext]
    rw [hfailed] at h
    exact absurd (Prod.mk.inj h).1 nofun
  | ok text =>
    rw [compile_of_text htext] at h
    exact ⟨text, rfl, emit_ok h⟩

/-! ## Compiling several entries -/

theorem compileAll_append (plugins : List Plugin) (xs ys : List FilePath) (w : Workspace) :
    compileAll request plugins (xs ++ ys) w =
      let first := compileAll request plugins xs w
      let second := compileAll request plugins ys first.2
      (first.1 ++ second.1, second.2) := by
  induction xs generalizing w with
  | nil => rfl
  | cons x xs ih => simp only [List.cons_append, compileAll, ih]

theorem collect_append {xs ys : List (Except BundleError Artifact)} {artifacts : List Artifact}
    (h : collect (xs ++ ys) = .ok artifacts) :
    ∃ before after, collect xs = .ok before ∧ collect ys = .ok after ∧ artifacts = before ++ after := by
  induction xs generalizing artifacts with
  | nil => exact ⟨[], artifacts, rfl, h, rfl⟩
  | cons x xs ih =>
    cases x with
    | error e => cases h
    | ok a =>
      rw [List.cons_append] at h
      cases hrest : collect (xs ++ ys) with
      | error e =>
        simp only [collect, hrest, bind, Except.bind] at h
        cases h
      | ok rest =>
        simp only [collect, hrest, bind, Except.bind] at h
        obtain rfl := Except.ok.inj h
        obtain ⟨before, after, hbefore, hafter, rfl⟩ := ih hrest
        refine ⟨a :: before, after, ?_, hafter, rfl⟩
        simp only [collect, hbefore, bind, Except.bind]

/-- Artifacts are those of all the results, in order. -/
theorem eq_of_collect {results : List (Except BundleError Artifact)} {artifacts : List Artifact}
    (h : collect results = .ok artifacts) : results = artifacts.map .ok := by
  induction results generalizing artifacts with
  | nil =>
    obtain rfl := Except.ok.inj h
    rfl
  | cons result results ih =>
    obtain ⟨before, after, hfirst, hrest, rfl⟩ := collect_append (show collect ([result] ++ results) = .ok artifacts from h)
    rw [List.map_append, ← ih hrest]
    cases result with
    | error e => cases hfirst
    | ok a =>
      obtain rfl := Except.ok.inj hfirst
      rfl

/-- The first error is reported, whatever comes later. -/
theorem collect_of_error {earlier : List (Except BundleError Artifact)}
    (hearlier : ∀ result ∈ earlier, ∃ a, result = .ok a) (e : BundleError)
    (later : List (Except BundleError Artifact)) : collect (earlier ++ .error e :: later) = .error e := by
  induction earlier with
  | nil => rfl
  | cons result earlier ih =>
    obtain ⟨⟨a, rfl⟩, hrest⟩ := List.forall_mem_cons.mp hearlier
    rw [List.cons_append, collect, ih hrest]
    rfl

theorem finish_of_error {results : List (Except BundleError Artifact)} {e : BundleError}
    (h : collect results = .error e) : (finish request results w).1 = .error e := by
  rw [finish, h]

/-- A request succeeds with the artifacts of all its entries, and the shared script. -/
theorem finish_ok {results : List (Except BundleError Artifact)} {artifacts : List Artifact}
    (h : (finish request results w).1 = .ok artifacts) :
    ∃ modules, results = modules.map .ok ∧ artifacts = modules ++ [⟨FilePath.join request.assets
      ("runtime-" ++ Digest.short (Text.bytes runtime) ++ ".js"), .chunk⟩] := by
  unfold finish at h
  cases hcollect : collect results with
  | error e =>
    rw [hcollect] at h
    cases h
  | ok modules =>
    simp only [hcollect] at h
    refine ⟨modules, eq_of_collect hcollect, ?_⟩
    split at h
    · cases h
    · exact (Except.ok.inj h).symm

/-- Entries that have all been compiled: some first, and the others in the workspace that these left. -/
theorem collect_compileAll_append {plugins : List Plugin} {xs ys : List FilePath}
    {artifacts : List Artifact}
    (h : collect (compileAll request plugins (xs ++ ys) w).1 = .ok artifacts) :
    let turn := (compileAll request plugins xs w).2
    ∃ before after, collect (compileAll request plugins xs w).1 = .ok before ∧
      collect (compileAll request plugins ys turn).1 = .ok after ∧ artifacts = before ++ after ∧
      (compileAll request plugins (xs ++ ys) w).2 = (compileAll request plugins ys turn).2 := by
  rw [compileAll_append] at h ⊢
  obtain ⟨before, after, hbefore, hafter, rfl⟩ := collect_append h
  exact ⟨before, after, hbefore, hafter, rfl, rfl⟩

/-- The first of several entries that have been compiled, and the others. -/
theorem compileAll_cons {path : FilePath} {paths : List FilePath} {plugins : List Plugin}
    {artifacts : List Artifact}
    (h : collect (compileAll request plugins (path :: paths) w).1 = .ok artifacts) :
    ∃ a rest, (compile request plugins path w).1 = .ok a ∧
      collect (compileAll request plugins paths (compile request plugins path w).2).1 = .ok rest ∧
      artifacts = a :: rest := by
  have hcons : (compileAll request plugins (path :: paths) w).1 =
      [(compile request plugins path w).1] ++
        (compileAll request plugins paths (compile request plugins path w).2).1 := rfl
  rw [hcons] at h
  obtain ⟨before, rest, hbefore, hrest, rfl⟩ := collect_append h
  cases hfirst : (compile request plugins path w).1 with
  | error e =>
    rw [hfirst] at hbefore
    cases hbefore
  | ok a =>
    rw [hfirst] at hbefore
    obtain rfl := Except.ok.inj hbefore
    exact ⟨a, rest, rfl, hrest, rfl⟩

/-- The artifacts of entries are their modules. -/
theorem mem_collect {paths : List FilePath} {artifacts : List Artifact}
    (h : collect (compileAll request [.transforms registry] paths w).1 = .ok artifacts) :
    ∀ a ∈ artifacts, ∃ path ∈ paths, ∃ module, a = ⟨modulePath request path module, .entry⟩ := by
  induction paths generalizing w artifacts with
  | nil =>
    obtain rfl := Except.ok.inj h
    simp
  | cons path paths ih =>
    obtain ⟨a, rest, hfirst, hrest, rfl⟩ := compileAll_cons h
    obtain ⟨text, -, ha, -⟩ := compile_spec (Prod.ext hfirst rfl)
    refine List.forall_mem_cons.mpr ⟨⟨path, List.mem_cons_self, _, ha⟩, fun b hb => ?_⟩
    obtain ⟨path', hpath', hmodule⟩ := ih hrest b hb
    exact ⟨path', List.mem_cons_of_mem path hpath', hmodule⟩

theorem compile_extends {path : FilePath} {a : Artifact} (hrooted : w.files.Rooted)
    (h : compile request [.transforms registry] path w = (.ok a, w')) :
    w'.files.Rooted ∧ ∃ changed, Extends changed w.files w'.files := by
  obtain ⟨text, -, -, hstore⟩ := compile_spec h
  have hstored := storeFile_spec (w := ⟨w.files, (transformed registry path text w).2⟩) hrooted hstore
  obtain ⟨q, -, -, hrooted', hextends, -⟩ := hstored
  exact ⟨hrooted', [q], hextends⟩

/-- An entry that has been compiled, where no link lies below the modules. -/
theorem compile_below {d : DocumentPlace} {a : Artifact} (hcontent : request.contentRoot ≠ [])
    (hassets : request.assets ≠ []) (hproper : d.Proper) (hrooted : w.files.Rooted)
    (hfree : w'.files.LinkFreeBelow request.assets)
    (h : compile request [.transforms registry] (d.path request.contentRoot) w = (.ok a, w')) :
    ∃ text root, w.files.readText (d.path request.contentRoot) = .ok text ∧
      w'.files.resolve true request.assets = .ok root ∧
      let doc := transformed registry (d.path request.contentRoot) text w
      let module := Text.bytes (Module.ofDocument doc.1)
      let place := root ++ d.moduleNames (Digest.short module)
      a = ⟨modulePath request (d.path request.contentRoot) (Module.ofDocument doc.1), .entry⟩ ∧
        w'.files.resolve true a.path = .ok place ∧ w'.files.get? place = some (.file module) ∧
        w'.files.Rooted ∧ Extends [place] w.files w'.files ∧ w'.stage = doc.2 := by
  obtain ⟨text, htext, ha, hstore⟩ := compile_spec h
  have hpath := DocumentPlace.modulePath_path hcontent hassets hproper
  rw [hpath] at hstore
  let doc := transformed registry (d.path request.contentRoot) text w
  obtain ⟨root, hroot, hresolve, hget, hrooted', hextends, hstage⟩ :=
    storeFile_below (w := ⟨w.files, doc.2⟩) hassets (d.moduleNames_ne_nil _)
      (hproper.isName_moduleNames _) hrooted hfree hstore
  refine ⟨text, root, htext, hroot, ha, ?_, hget, hrooted', hextends, hstage⟩
  rw [ha, hpath]
  exact hresolve

theorem compileAll_extends {paths : List FilePath} {artifacts : List Artifact} (hrooted : w.files.Rooted)
    (h : collect (compileAll request [.transforms registry] paths w).1 = .ok artifacts) :
    let w' := (compileAll request [.transforms registry] paths w).2
    w'.files.Rooted ∧ ∃ changed, Extends changed w.files w'.files := by
  induction paths generalizing w artifacts with
  | nil => exact ⟨hrooted, [], .refl w.files⟩
  | cons path paths ih =>
    obtain ⟨a, rest, hfirst, hrest, rfl⟩ := compileAll_cons h
    obtain ⟨hrooted', changed, hextends⟩ := compile_extends hrooted (Prod.ext hfirst rfl)
    obtain ⟨hrooted'', changed', hextends'⟩ := ih hrooted' hrest
    exact ⟨hrooted'', changed ++ changed', hextends.trans hextends'⟩

/-- Compiled entries leave a tree that has grown by modules of theirs, where no link lies below the
modules. -/
theorem compileAll_below {ds : List DocumentPlace} {artifacts : List Artifact}
    (hcontent : request.contentRoot ≠ []) (hassets : request.assets ≠ []) (hproper : ∀ d ∈ ds, d.Proper)
    (hrooted : w.files.Rooted) :
    let run := compileAll request [.transforms registry] (ds.map (·.path request.contentRoot)) w
    collect run.1 = .ok artifacts → run.2.files.LinkFreeBelow request.assets →
      run.2.files.Rooted ∧ ∃ changed, Extends changed w.files run.2.files ∧ ∀ q ∈ changed,
        ∃ root, run.2.files.resolve true request.assets = .ok root ∧ ∃ d ∈ ds, ∃ message,
          q = root ++ d.moduleNames (Digest.short message) := by
  intro run h hfree
  induction ds generalizing w artifacts with
  | nil => exact ⟨hrooted, [], .refl w.files, by simp⟩
  | cons d ds ih =>
    obtain ⟨hd, hds⟩ := List.forall_mem_cons.mp hproper
    obtain ⟨a, rest, hfirst, hrest, rfl⟩ := compileAll_cons h
    let w₁ := (compile request [.transforms registry] (d.path request.contentRoot) w).2
    have hcompile : compile request [.transforms registry] (d.path request.contentRoot) w = (.ok a, w₁) :=
      Prod.ext hfirst rfl
    -- What is compiled later adds to the tree, so there are no links below the modules yet.
    obtain ⟨hrooted', changed, hlater, hchanged⟩ :=
      ih hds (compile_extends hrooted hcompile).1 hrest hfree
    obtain ⟨text, root, -, hroot, -, -, -, -, hextends, -⟩ :=
      compile_below hcontent hassets hd hrooted (hlater.linkFreeBelow hfree) hcompile
    refine ⟨hrooted', _, hextends.trans hlater, fun q hq => ?_⟩
    rcases List.mem_append.mp hq with hq | hq
    · rw [List.mem_singleton.mp hq]
      exact ⟨root, hlater.resolve hroot, d, List.mem_cons_self, _, rfl⟩
    · obtain ⟨root', hroot', d', hd', message, rfl⟩ := hchanged q hq
      exact ⟨root', hroot', d', List.mem_cons_of_mem d hd', message, rfl⟩

end StaticSite.Bundle
