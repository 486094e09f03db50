import StaticSite.Proofs.Compile.Sources
import StaticSite.Proofs.Component.Exports

/-!
# Entries at their turn

What an entry leaves stays: its module stands under its own name, and its metadata under the path of its
file. What it is compiled to does not depend on its turn, as long as no component stands among the modules.
-/
namespace StaticSite

open FileTree

/-- The components can be read in a tree, and stand outside a directory of another one. -/
def Registry.Apart (r : Registry) (t t' : FileTree) (directory : FilePath) : Prop :=
  ∀ name path, r.resolve? name = some path → (∃ source, t.readText path = .ok source) ∧
    ∀ p root, t.resolve true path = .ok p → t'.resolve true directory = .ok root → ¬root <+: p

namespace Registry.Apart

variable {r : Registry} {t t' t'' : FileTree} {directory : FilePath} {changed : List RealPath}

theorem earlier (h : r.Apart t t'' directory) (hextends : Extends changed t' t'') :
    r.Apart t t' directory := by
  intro name path hpath
  obtain ⟨hread, hroot⟩ := h name path hpath
  exact ⟨hread, fun p root hp hdirectory => hroot p root hp (hextends.resolve hdirectory)⟩

/-- What is written below the directory leaves the components as they are. -/
theorem readAlike (h : r.Apart t t' directory) (hextends : Extends changed t t')
    (hchanged : ∀ q ∈ changed, ∃ root, t'.resolve true directory = .ok root ∧ root <+: q) :
    r.ReadAlike t t' := by
  intro name path hpath
  obtain ⟨⟨source, hread⟩, hroot⟩ := h name path hpath
  refine ⟨source, hread, hextends.readText (fun q hq hresolve => ?_) hread⟩
  obtain ⟨root, hdirectory, hbelow⟩ := hchanged q hq
  exact hroot q root hresolve hdirectory hbelow

end Registry.Apart

namespace Bundle

variable {request : BundleRequest} {registry : Registry} {w w' : Workspace} {root : RealPath}
  {ds : List DocumentPlace} {artifacts : List Artifact}

/-! ## What does not depend on the turn -/

/-- An entry adds to what is known about components only what stands in their files. -/
theorem compile_agrees {t : FileTree} {path : FilePath} {a : Artifact} (hrooted : w.files.Rooted)
    (hcomponents : registry.ReadAlike t w.files) (hagrees : w.stage.exports.Agrees t)
    (h : compile request [.transforms registry] path w = (.ok a, w')) :
    w'.stage.exports.Agrees t ∧ w'.stage.settings = w.stage.settings := by
  obtain ⟨text, -, -, hstore⟩ := compile_spec h
  have hstored := storeFile_spec (w := ⟨w.files, (transformed registry path text w).2⟩) hrooted hstore
  obtain ⟨-, -, -, -, -, hstage⟩ := hstored
  rw [hstage]
  exact ⟨(Injection.inject_of_agrees hcomponents hagrees hagrees _ _ _).2, rfl⟩

/-- Entries leave components alone that stand apart from the modules. -/
theorem compileAll_readAlike (hcontent : request.contentRoot ≠ []) (hassets : request.assets ≠ [])
    (hproper : ∀ d ∈ ds, d.Proper) (hrooted : w.files.Rooted) :
    let run := compileAll request [.transforms registry] (ds.map (·.path request.contentRoot)) w
    collect run.1 = .ok artifacts → run.2.files.LinkFreeBelow request.assets →
      registry.Apart w.files run.2.files request.assets → registry.ReadAlike w.files run.2.files := by
  intro run h hfree hapart
  obtain ⟨-, changed, hextends, hchanged⟩ := compileAll_below hcontent hassets hproper hrooted h hfree
  refine hapart.readAlike hextends fun q hq => ?_
  obtain ⟨assets, hroot, d, -, message, rfl⟩ := hchanged q hq
  exact ⟨assets, hroot, List.prefix_append assets _⟩

/-- Whatever has been compiled, what is known about components is what stood in their files at first. -/
theorem compileAll_agrees (hcontent : request.contentRoot ≠ []) (hassets : request.assets ≠ [])
    (hproper : ∀ d ∈ ds, d.Proper) (hrooted : w.files.Rooted) (hagrees : w.stage.exports.Agrees w.files) :
    let run := compileAll request [.transforms registry] (ds.map (·.path request.contentRoot)) w
    collect run.1 = .ok artifacts → run.2.files.LinkFreeBelow request.assets →
      registry.Apart w.files run.2.files request.assets →
        run.2.stage.exports.Agrees w.files ∧ run.2.stage.settings = w.stage.settings := by
  intro run h hfree hapart
  induction ds using List.reverseRecOn generalizing artifacts with
  | nil => exact ⟨hagrees, rfl⟩
  | append_singleton ds d ih =>
    have hproper' := (List.forall_mem_append.mp hproper).1
    simp only [run, List.map_append] at h hfree hapart ⊢
    obtain ⟨before, after, hbefore, hafter, -, hlast⟩ := collect_compileAll_append h
    rw [hlast] at hfree hapart ⊢
    obtain ⟨hrooted', -⟩ := compileAll_extends hrooted hbefore
    obtain ⟨-, _, hlater⟩ := compileAll_extends hrooted' hafter
    have hfree' := hlater.linkFreeBelow hfree
    have hapart' := hapart.earlier hlater
    obtain ⟨hturn, hsettings⟩ := ih hproper' hbefore hfree' hapart'
    have halike := compileAll_readAlike hcontent hassets hproper' hrooted hbefore hfree' hapart'
    obtain ⟨a, -, hfirst, -, -⟩ := compileAll_cons hafter
    obtain ⟨hagrees', hsettings'⟩ := compile_agrees hrooted' halike hturn (Prod.ext hfirst rfl)
    exact ⟨hagrees', hsettings'.trans hsettings⟩

/-- The module of a document, made in the workspace of its turn. -/
def moduleOf (registry : Registry) (path : FilePath) (text : Text) (turn : Workspace) : Text :=
  Module.ofDocument (transformed registry path text turn).1

/-- Workspaces that agree on what a document refers to give it one module. -/
theorem moduleOf_congr {path : FilePath} (hcomponents : registry.ReadAlike w.files w'.files)
    (hagrees : w.stage.exports.Agrees w.files) (hagrees' : w'.stage.exports.Agrees w.files)
    (hsettings : w'.stage.settings = w.stage.settings)
    (hplace : w'.files.canonical path = w.files.canonical path)
    (hroot : w'.files.canonical? w.stage.settings.contentRoot =
      w.files.canonical? w.stage.settings.contentRoot) (text : Text) :
    moduleOf registry path text w' = moduleOf registry path text w := by
  have hfile : SourceFile.ofPath w'.files path = SourceFile.ofPath w.files path := by
    rw [SourceFile.ofPath, hplace, SourceFile.ofPath]
  obtain ⟨hdocument, -⟩ := Injection.inject_of_agrees hcomponents hagrees' hagrees
    w.stage.settings.pageWrapper (.ofPath w.files path) (Document.parse text)
  simp only [moduleOf, transformed, Stage.transform, Stage.rebase, SourceFile.contentDirectory, hfile,
    hsettings, hroot, hdocument]

/-- An entry has the module that it would have alone, as long as no component stands among the modules. -/
theorem moduleOf_turn {earlier later : List DocumentPlace} {d : DocumentPlace}
    (hcontent : request.contentRoot ≠ []) (hassets : request.assets ≠ [])
    (hsources : Sources w.files request.contentRoot root (earlier ++ d :: later))
    (hsettings : w.stage.settings.contentRoot = request.contentRoot)
    (hagrees : w.stage.exports.Agrees w.files) (text : Text) :
    let run := compileAll request [.transforms registry] (earlier.map (·.path request.contentRoot)) w
    collect run.1 = .ok artifacts → run.2.files.LinkFreeBelow request.assets →
      registry.Apart w.files run.2.files request.assets →
        moduleOf registry (d.path request.contentRoot) text run.2 =
          moduleOf registry (d.path request.contentRoot) text w := by
  intro run h hfree hapart
  have hearlier := List.subset_append_left earlier (d :: later)
  have hproper := (hsources.of_subset hearlier).proper
  have hd : d ∈ earlier ++ d :: later := by simp
  obtain ⟨hturn, -⟩ := sources_compileAll hcontent hassets hsources hearlier h hfree
  have halike := compileAll_readAlike hcontent hassets hproper hsources.rooted h hfree hapart
  obtain ⟨hagrees', hsettings'⟩ :=
    compileAll_agrees hcontent hassets hproper hsources.rooted hagrees h hfree hapart
  refine moduleOf_congr halike hagrees hagrees' hsettings' ?_ ?_ text
  · rw [hturn.canonical_path hd, hsources.canonical_path hd]
  · rw [hsettings, hturn.canonical?_contentRoot hd, hsources.canonical?_contentRoot hd]

/-! ## What is left -/

/-- What is left of an entry in the end: its module stands under its own name, and its metadata under the
path of its file. -/
structure Compiled (request : BundleRequest) (root : RealPath) (w : Workspace) (d : DocumentPlace)
    (text module : Text) : Prop where
  stored : ∃ assets, w.files.resolve true request.assets = .ok assets ∧
    w.files.resolve true (modulePath request (d.path request.contentRoot) module) =
      .ok (assets ++ d.moduleNames (Digest.short (Text.bytes module))) ∧
    w.files.get? (assets ++ d.moduleNames (Digest.short (Text.bytes module))) =
      some (.file (Text.bytes module))
  metadata : w.stage.metadata.at? (RealPath.toPath (root ++ d.names)) =
    some (Document.parse text).metadata

/-- The first of several entries reads its source, and later ones leave its module and metadata alone. -/
theorem compileAll_first {d : DocumentPlace} (hcontent : request.contentRoot ≠ [])
    (hassets : request.assets ≠ []) (hsources : Sources w.files request.contentRoot root (d :: ds))
    (hother : ∀ d' ∈ ds, d'.entry ≠ d.entry) :
    let path := d.path request.contentRoot
    let run := compileAll request [.transforms registry] ((d :: ds).map (·.path request.contentRoot)) w
    collect run.1 = .ok artifacts → run.2.files.LinkFreeBelow request.assets →
      ∃ text after, w.files.readText path = .ok text ∧
        artifacts = ⟨modulePath request path (moduleOf registry path text w), .entry⟩ :: after ∧
        (∀ b ∈ after, ∃ d' ∈ ds, ∃ module,
          b = ⟨modulePath request (d'.path request.contentRoot) module, .entry⟩) ∧
        Compiled request root run.2 d text (moduleOf registry path text w) := by
  intro path run h hfree
  obtain ⟨a, after, hfirst, hrest, rfl⟩ := compileAll_cons h
  let w₁ := (compile request [.transforms registry] path w).2
  have hcompile : compile request [.transforms registry] path w = (.ok a, w₁) := Prod.ext hfirst rfl
  have hd := hsources.proper d List.mem_cons_self
  have htail := hsources.of_subset (List.subset_cons_self d ds)
  have hrooted₁ := (compile_extends hsources.rooted hcompile).1
  obtain ⟨-, changed, hlater, hchanged⟩ := compileAll_below hcontent hassets htail.proper hrooted₁ hrest hfree
  obtain ⟨text, assets, htext, hassets₁, ha, hresolve, hget, -, hextends, hstage⟩ :=
    compile_below hcontent hassets hd hsources.rooted (hlater.linkFreeBelow hfree) hcompile
  have hafter : ∀ b ∈ after, ∃ d' ∈ ds, ∃ module,
      b = ⟨modulePath request (d'.path request.contentRoot) module, .entry⟩ := by
    intro b hb
    obtain ⟨_, hmem, module, rfl⟩ := mem_collect hrest b hb
    obtain ⟨d', hd', rfl⟩ := List.mem_map.mp hmem
    exact ⟨d', hd', module, rfl⟩
  refine ⟨text, after, htext, ha ▸ rfl, hafter, ⟨assets, hlater.resolve hassets₁, ?_, ?_⟩, ?_⟩
  · have hpath := hlater.resolve hresolve
    rw [ha] at hpath
    exact hpath
  · -- A later module stands at the place of this one only if it is of the same entry.
    refine hlater.kept _ _ hget fun hmem => ?_
    obtain ⟨assets', hassets', d', hd', message, heq⟩ := hchanged _ hmem
    obtain rfl : assets = assets' := Except.ok.inj ((hlater.resolve hassets₁).symm.trans hassets')
    obtain ⟨hdirectories, hstem, -⟩ := DocumentPlace.moduleNames_inj (List.append_cancel_left heq)
    refine absurd ?_ (hother d' hd')
    rw [DocumentPlace.entry, DocumentPlace.entry, hdirectories, hstem]
  · have hnames : ∀ d' ∈ ds, d'.names ≠ d.names := by
      intro d' hd' heq
      obtain ⟨hdirectories, hlast⟩ := List.append_inj' heq rfl
      refine hother d' hd' ?_
      rw [DocumentPlace.entry, DocumentPlace.entry, DocumentPlace.stem, DocumentPlace.stem, hdirectories,
        List.singleton_inj.mp hlast]
    have hsources₁ := htail.grow_module hextends hrooted₁
    have hlast := at?_compileAll hcontent hassets hsources₁ hd hnames hrest hfree
    refine hlast.trans ?_
    rw [hstage, metadata_transformed, MetadataStore.at?_insert, if_pos]
    rw [hsources.canonical_path List.mem_cons_self]

/-- An entry at its turn. The ones ahead of it leave its source as it was, and the ones behind it leave its
module and its metadata alone. -/
theorem compileAll_turn {earlier later : List DocumentPlace} {d : DocumentPlace}
    (hcontent : request.contentRoot ≠ []) (hassets : request.assets ≠ [])
    (hsources : Sources w.files request.contentRoot root (earlier ++ d :: later))
    (hother : ∀ d' ∈ later, d'.entry ≠ d.entry) :
    let path := d.path request.contentRoot
    let run := compileAll request [.transforms registry]
      ((earlier ++ d :: later).map (·.path request.contentRoot)) w
    let turn := (compileAll request [.transforms registry] (earlier.map (·.path request.contentRoot)) w).2
    collect run.1 = .ok artifacts → run.2.files.LinkFreeBelow request.assets →
      ∃ text before after, w.files.readText path = .ok text ∧
        let module := moduleOf registry path text turn
        (w.stage.settings.contentRoot = request.contentRoot → w.stage.exports.Agrees w.files →
          registry.Apart w.files run.2.files request.assets → module = moduleOf registry path text w) ∧
        artifacts = before ++ ⟨modulePath request path module, .entry⟩ :: after ∧
        (∀ b ∈ after, ∃ d' ∈ later, ∃ module,
          b = ⟨modulePath request (d'.path request.contentRoot) module, .entry⟩) ∧
        Compiled request root run.2 d text module := by
  intro path run turn h hfree
  simp only [run, List.map_append] at h hfree ⊢
  obtain ⟨before, rest, hbefore, hrest, rfl, hlast⟩ := collect_compileAll_append h
  rw [hlast] at hfree ⊢
  have hearlier := List.subset_append_left earlier (d :: later)
  obtain ⟨hrooted, -⟩ := compileAll_extends hsources.rooted hbefore
  obtain ⟨-, _, hlater⟩ := compileAll_extends hrooted hrest
  have hfree' := hlater.linkFreeBelow hfree
  obtain ⟨hturn, hread⟩ := sources_compileAll hcontent hassets hsources hearlier hbefore hfree'
  have hd : d ∈ earlier ++ d :: later := by simp
  have hfirst := hturn.of_subset (List.subset_append_right earlier (d :: later))
  obtain ⟨text, after, htext, rfl, hafter, hcompiled⟩ :=
    compileAll_first hcontent hassets hfirst hother hrest hfree
  refine ⟨text, before, after, (hread d hd).symm.trans htext, ?_, rfl, hafter, hcompiled⟩
  intro hsettings hagrees hapart
  exact moduleOf_turn hcontent hassets hsources hsettings hagrees text hbefore hfree' (hapart.earlier hlater)

end Bundle

end StaticSite
