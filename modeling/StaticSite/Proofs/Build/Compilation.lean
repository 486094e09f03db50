import StaticSite.Build.Content
import StaticSite.Proofs.Build.Actions
import StaticSite.Proofs.Compile.Turns

/-!
# Every entry its own module

Compiling the content loses the entries on the way: they become a list of paths, hashed file names, and
names again, and their metadata takes a way of its own. In the end every entry has the module of its own
document and the metadata of its own source, provided that no symbolic link lies below the directory of the
modules.
-/
namespace StaticSite

open FileTree

namespace Bundle

/-- The path of the script that all pages share. -/
def runtimePath (request : BundleRequest) : FilePath :=
  FilePath.join request.assets ("runtime-" ++ Digest.short (Text.bytes runtime) ++ ".js")

theorem run_ok {request : BundleRequest} {plugins : List Plugin} {w w' : Workspace}
    {artifacts : List Artifact} (h : run request plugins w = (.ok artifacts, w')) :
    ∃ compiled, collect (compileAll request plugins request.entries w).1 = .ok compiled ∧
      storeFile (runtimePath request) runtime (compileAll request plugins request.entries w).2 =
        (.ok (), w') ∧ artifacts = compiled ++ [⟨runtimePath request, .chunk⟩] := by
  unfold run at h
  dsimp only at h
  split at h
  · exact absurd (Prod.mk.inj h).1 nofun
  · rename_i compiled hcollect
    split at h
    · exact absurd (Prod.mk.inj h).1 nofun
    · rename_i hstore
      obtain ⟨hartifacts, rfl⟩ := Prod.mk.inj h
      exact ⟨compiled, hcollect, hstore, (Except.ok.inj hartifacts).symm⟩

/-- Compiling the entries adds to the files. -/
theorem run_extends {request : BundleRequest} {registry : Registry} {w w' : Workspace}
    {artifacts : List Artifact} (hrooted : w.files.Rooted)
    (h : run request [.transforms registry] w = (.ok artifacts, w')) :
    ∃ changed, Extends changed w.files w'.files := by
  obtain ⟨compiled, hcollect, hstore, -⟩ := run_ok h
  obtain ⟨hrooted', changed, hextends⟩ := compileAll_extends hrooted hcollect
  obtain ⟨q, -, -, -, hextends', -⟩ := storeFile_spec hrooted' hstore
  exact ⟨changed ++ [q], hextends.trans hextends'⟩

/-- The place of a document whose module is named like that script. -/
def runtimePlace : DocumentPlace := ⟨[], "runtime.md"⟩

theorem runtimePlace_proper : runtimePlace.Proper where
  isName n hn := by
    obtain rfl := List.mem_singleton.mp hn
    decide
  extension := ⟨"md".toList, by decide, by decide⟩
  visible := by decide

theorem moduleNames_runtimePlace (hash : Text) :
    FilePath.ofNames (runtimePlace.moduleNames hash) = "runtime-" ++ hash ++ ".js" := rfl

theorem runtimePath_eq (request : BundleRequest) :
    runtimePath request = FilePath.join request.assets
      (FilePath.ofNames (runtimePlace.moduleNames (Digest.short (Text.bytes runtime)))) := by
  rw [moduleNames_runtimePlace, runtimePath]

variable {request : BundleRequest} {registry : Registry} {w w' : Workspace} {root : RealPath}
  {artifacts : List Artifact}

/-- An entry of a bundle. Its module is the only artifact that counts for it, and the script that all pages
share takes its place only under the same name. -/
theorem run_entry {earlier later : List DocumentPlace} {d : DocumentPlace}
    (hcontent : request.contentRoot ≠ []) (hassets : request.assets ≠ [])
    (hsources : Sources w.files request.contentRoot root (earlier ++ d :: later))
    (hentries : request.entries = (earlier ++ d :: later).map (·.path request.contentRoot))
    (hother : ∀ d' ∈ later, d'.entry ≠ d.entry)
    (h : run request [.transforms registry] w = (.ok artifacts, w'))
    (hfree : w'.files.LinkFreeBelow request.assets) :
    let path := d.path request.contentRoot
    let turn := (compileAll request [.transforms registry] (earlier.map (·.path request.contentRoot)) w).2
    ∃ text before after, w.files.readText path = .ok text ∧
      let module := moduleOf registry path text turn
      (w.stage.settings.contentRoot = request.contentRoot → w.stage.exports.Agrees w.files →
        registry.Apart w.files w'.files request.assets → module = moduleOf registry path text w) ∧
      artifacts = before ++ ⟨modulePath request path module, .entry⟩ :: after ∧
        (∀ b ∈ after, b.kind = .chunk ∨ ∃ d' ∈ later, ∃ module,
          b = ⟨modulePath request (d'.path request.contentRoot) module, .entry⟩) ∧
        ((d.entry = "runtime".toList →
            Digest.short (Text.bytes module) ≠ Digest.short (Text.bytes runtime)) →
          w'.files.readBytes (modulePath request path module) = .ok (Text.bytes module)) ∧
        w'.stage.metadata.get? w'.files path = some (Document.parse text).metadata := by
  intro path turn
  obtain ⟨compiled, hcollect, hstore, rfl⟩ := run_ok h
  rw [hentries] at hcollect hstore
  obtain ⟨hrooted, -⟩ := compileAll_extends hsources.rooted hcollect
  obtain ⟨_, _, _, hrooted', hlast, -⟩ := storeFile_spec hrooted hstore
  have hfree₁ := hlast.linkFreeBelow hfree
  obtain ⟨text, before, after, htext, hmodule, rfl, hafter, ⟨assets, hroot, hpath, hget⟩, hmetadata⟩ :=
    compileAll_turn hcontent hassets hsources hother hcollect hfree₁
  obtain ⟨hsources₁, -⟩ :=
    sources_compileAll hcontent hassets hsources (List.Subset.refl _) hcollect hfree₁
  rw [runtimePath_eq] at hstore
  obtain ⟨assets', hroot', -, -, -, hruntime, hstage⟩ := storeFile_below hassets
    (runtimePlace.moduleNames_ne_nil _) (runtimePlace_proper.isName_moduleNames _) hrooted hfree hstore
  have hd : d ∈ earlier ++ d :: later := by simp
  have hsources' := hsources₁.grow_module hruntime hrooted'
  refine ⟨text, before, after ++ [⟨runtimePath request, .chunk⟩], htext, ?_, List.append_assoc .., ?_, ?_, ?_⟩
  · intro hsettings hagrees hapart
    exact hmodule hsettings hagrees (hapart.earlier hruntime)
  · intro b hb
    rcases List.mem_append.mp hb with hb | hb
    · exact .inr (hafter b hb)
    · exact .inl (by rw [List.mem_singleton.mp hb])
  · intro hname
    refine readBytes_file (hruntime.resolve hpath) (hruntime.kept _ _ hget fun hmem => ?_) ?_
    · -- The script takes the place of this module only under its name and with its hash.
      obtain rfl : assets = assets' := Except.ok.inj ((hruntime.resolve hroot).symm.trans hroot')
      have hnames := List.append_cancel_left (List.mem_singleton.mp hmem)
      obtain ⟨hdirectories, hstem, hhash⟩ := DocumentPlace.moduleNames_inj hnames
      refine absurd hhash (hname ?_)
      rw [DocumentPlace.entry, hdirectories, hstem]
      decide
    · have hproper := hsources.proper d hd
      rw [DocumentPlace.modulePath_path hcontent hassets hproper,
        FilePath.getLast?_join _ (d.moduleNames_ne_nil _) (hproper.isName_moduleNames _)]
      exact FilePath.getLast?_ofNames (d.moduleNames_ne_nil _) (hproper.isName_moduleNames _)
  · rw [MetadataStore.get?_eq, hsources'.canonical_path hd, hstage]
    exact hmetadata

/-- An entry among those of a content directory: the output map leads to its module. -/
theorem run_listed_entry {modules : Table FilePath} {earlier later : List DocumentPlace} {d : DocumentPlace}
    (hcontent : request.contentRoot ≠ []) (hassets : request.assets ≠ [])
    (hsources : Sources w.files request.contentRoot root (earlier ++ d :: later))
    (hentries : request.entries = (earlier ++ d :: later).map (·.path request.contentRoot)) :
    let path := d.path request.contentRoot
    let entries := (earlier ++ d :: later).map fun d => (d.entry, d.path request.contentRoot)
    let turn := (compileAll request [.transforms registry] (earlier.map (·.path request.contentRoot)) w).2
    (Table.names entries).Nodup → run request [.transforms registry] w = (.ok artifacts, w') →
      OutputMap.ofArtifacts entries request.contentRoot request.assets artifacts = .ok modules →
      w'.files.LinkFreeBelow request.assets →
      ∃ text file, w.files.readText path = .ok text ∧ modules.get? d.entry = some file ∧
        w'.stage.metadata.get? w'.files path = some (Document.parse text).metadata ∧
        let module := moduleOf registry path text turn
        ((d.entry = "runtime".toList →
            Digest.short (Text.bytes module) ≠ Digest.short (Text.bytes runtime)) →
          w'.files.readBytes file = .ok (Text.bytes module)) ∧
        (w.stage.settings.contentRoot = request.contentRoot → w.stage.exports.Agrees w.files →
          registry.Apart w.files w'.files request.assets → module = moduleOf registry path text w) := by
  intro path entries turn hnodup hrun hmap hfree
  have hnames : Table.names entries = (earlier ++ d :: later).map (·.entry) := List.map_map ..
  have hother : ∀ d' ∈ later, d'.entry ≠ d.entry := by
    rw [hnames, List.map_append, List.map_cons] at hnodup
    have hlater := (List.nodup_cons.mp (List.nodup_append.mp hnodup).2.1).1
    exact fun d' hd' hsame => hlater (hsame ▸ List.mem_map_of_mem hd')
  obtain ⟨text, before, after, htext, hmodule, rfl, hafter, hread, hmetadata⟩ :=
    run_entry hcontent hassets hsources hentries hother hrun hfree
  refine ⟨text, _, htext, ?_, hmetadata, hread, hmodule⟩
  refine OutputMap.get?_ofArtifacts hcontent hassets ?_ ?_ hother hafter hmap
  · intro entry hentry
    obtain ⟨d', hd', rfl⟩ := List.mem_map.mp hentry
    exact DocumentPlace.pathKey_path hcontent (hsources.proper d' hd')
  · intro d' hd'
    have hlisted := List.mem_append_right earlier hd'
    exact ⟨hsources.proper d' hlisted, hnames ▸ List.mem_map_of_mem hlisted⟩

end Bundle

theorem ProjectPaths.assets_ne_nil (paths : ProjectPaths) : paths.assets ≠ [] := by
  refine @FilePath.join_ne_nil [assetsDirectory] paths.output (by simp) fun n hn => ?_
  obtain rfl := List.mem_singleton.mp hn
  decide

namespace Step

open Action

theorem compileContent_ok {context : BuildContext} {record : RunRecord} {s s' : RunState}
    {entries : Table FilePath} {registry : Registry} (hentries : s.outputs.get .entries = .ok entries)
    (hregistry : s.outputs.get .components = .ok registry)
    (h : (compileContent.run context record).run s = (.ok (), s')) :
    let request : BundleRequest := ⟨entries.map (·.2), context.paths.content, context.paths.assets⟩
    ∃ artifacts w modules, context.bundle request [.transforms registry] s.workspace = (.ok artifacts, w) ∧
      OutputMap.ofArtifacts entries context.paths.content context.paths.assets artifacts = .ok modules ∧
      s'.files = w.files ∧ s'.outputs.get .modules = .ok modules ∧
      s'.outputs.get .pageMetadata = .ok (recordedMetadata w.files w.stage entries) := by
  intro request
  dsimp only [compileContent] at h
  obtain ⟨_, _, hread, h⟩ := run_bind_ok h
  obtain ⟨rfl, rfl⟩ := run_read_ok hentries hread
  obtain ⟨_, _, hread', h⟩ := run_bind_ok h
  obtain ⟨rfl, rfl⟩ := run_read_ok hregistry hread'
  obtain ⟨_, _, hget, h⟩ := run_bind_ok h
  obtain ⟨hs, rfl⟩ := Prod.mk.inj hget
  obtain rfl := Except.ok.inj hs
  obtain ⟨_, s₁, hset, h⟩ := run_bind_ok h
  obtain ⟨-, hs₁⟩ := Prod.mk.inj hset
  split_ifs at h with hdiagnostics
  · obtain ⟨_, _, hthrow, -⟩ := run_bind_ok h
    exact absurd (Prod.mk.inj hthrow).1 nofun
  obtain ⟨artifacts, _, hofBundled, h⟩ := run_bind_ok h
  obtain ⟨hbundled, rfl⟩ := run_ofExcept_ok hofBundled
  obtain ⟨modules, _, hofArtifacts, h⟩ := run_bind_ok h
  obtain ⟨hmap, rfl⟩ := run_ofExcept_ok hofArtifacts
  obtain ⟨_, s₂, hmodules, hmetadata⟩ := run_bind_ok h
  have hs₂ := run_write_ok hmodules
  have hs' := run_write_ok hmetadata
  refine ⟨artifacts, _, modules, Prod.ext hbundled rfl, hmap, ?_, ?_, ?_⟩
  · rw [hs', hs₂, ← hs₁]
    rfl
  · have hfirst := Outputs.get_insert_self .modules modules s₁.outputs
    rw [hs', hs₂]
    exact (@Outputs.get_insert_of_ne .pageMetadata .modules (by decide) _ _).trans hfirst
  · rw [hs']
    exact Outputs.get_insert_self _ _ _

/-- Compiling the content adds to the files. -/
theorem compileContent_extends {paths : ProjectPaths} {site : SiteInfo} {shell : Template}
    {record : RunRecord} {s s' : RunState} {entries : Table FilePath} {registry : Registry}
    (hrooted : s.files.Rooted) (hentries : s.outputs.get .entries = .ok entries)
    (hregistry : s.outputs.get .components = .ok registry)
    (hrun : (compileContent.run (.ofProject paths site shell) record).run s = (.ok (), s')) :
    ∃ changed, Extends changed s.files s'.files := by
  obtain ⟨artifacts, w, modules, hbundled, -, hfiles, -, -⟩ := compileContent_ok hentries hregistry hrun
  rw [hfiles]
  exact Bundle.run_extends hrooted hbundled

theorem get?_recordedMetadata {files : FileTree} {stage : Stage} {entries : Table FilePath} {name : Text}
    {path : FilePath} (hnodup : entries.names.Nodup) (hmem : (name, path) ∈ entries) :
    (recordedMetadata files stage entries).get? name =
      some ((stage.metadata.get? files path).getD .empty) := by
  rw [recordedMetadata]
  refine Table.get?_of_mem (by rwa [Table.names_mapValues]) ?_
  exact List.mem_map_of_mem hmem

/-- Every entry of a content directory has the module of its own document and the metadata of its own
source, whatever the documents are called and whatever else is compiled. The transforms read components at
the turn of the entry; components that stand apart from the modules read alike at every turn. -/
theorem every_entry_has_own_module {paths : ProjectPaths} {site : SiteInfo} {shell : Template}
    {record : RunRecord} {s s' : RunState} {entries : Table FilePath} {registry : Registry}
    (hformed : s.files.WellFormed) (hlisted : Source.entries s.files paths.content = .ok entries)
    (hentries : s.outputs.get .entries = .ok entries)
    (hregistry : s.outputs.get .components = .ok registry)
    (hreset : s.workspace.stage = s.workspace.stage.reset)
    (hrun : (compileContent.run (.ofProject paths site shell) record).run s = (.ok (), s'))
    (hfree : s'.files.LinkFreeBelow paths.assets) :
    ∃ modules metadata, s'.outputs.get .modules = .ok modules ∧
      s'.outputs.get .pageMetadata = .ok metadata ∧
      (∀ name, name ∈ modules.names ↔ name ∈ entries.names) ∧ metadata.names = entries.names ∧
      ∀ earlier name path later, entries = earlier ++ (name, path) :: later →
        let request : BundleRequest := ⟨entries.map (·.2), paths.content, paths.assets⟩
        let turn := (Bundle.compileAll request [.transforms registry] (earlier.map (·.2)) s.workspace).2
        ∃ text file, s.files.readText path = .ok text ∧ modules.get? name = some file ∧
          metadata.get? name =
            some (((Fences.cut text).frontMatter.bind FrontMatter.ofYaml?).getD .empty) ∧
          let module := Bundle.moduleOf registry path text turn
          ((name = "runtime".toList →
              Digest.short (Text.bytes module) ≠ Digest.short (Text.bytes Bundle.runtime)) →
            s'.files.readBytes file = .ok (Text.bytes module)) ∧
          (s.workspace.stage.settings.contentRoot = paths.content →
            registry.Apart s.files s'.files paths.assets →
              module = Bundle.moduleOf registry path text s.workspace) := by
  obtain ⟨artifacts, w, modules, hbundled, hmap, hfiles, hmodules, hmetadata⟩ :=
    compileContent_ok hentries hregistry hrun
  rw [hfiles] at hfree
  obtain ⟨hnodup, root, ds, rfl, hsources⟩ := Sources.of_entries hformed hlisted
  have hcontent : paths.content ≠ [] := ne_nil_of_resolve hsources.resolve
  have hassets : paths.assets ≠ [] := paths.assets_ne_nil
  have hkeys : ∀ entry ∈ ds.map (fun d => (d.entry, d.path paths.content)),
      OutputMap.pathKey paths.content entry.2 = entry.1 := by
    intro entry hentry
    obtain ⟨d, hd, rfl⟩ := List.mem_map.mp hentry
    exact DocumentPlace.pathKey_path hcontent (hsources.proper d hd)
  have hagrees : s.workspace.stage.exports.Agrees s.files := by
    rw [hreset]
    exact ExportCache.agrees_empty s.files
  refine ⟨modules, _, hmodules, hmetadata, fun name => OutputMap.mem_names_ofArtifacts hkeys hmap,
    Table.names_mapValues _ _, ?_⟩
  intro earlier name path later hsplit
  dsimp only
  obtain ⟨before, rest, rfl, rfl, hrest⟩ := List.map_eq_append_iff.mp hsplit
  obtain ⟨d, after, rfl, hd, rfl⟩ := List.map_eq_cons_iff.mp hrest
  obtain ⟨rfl, rfl⟩ := Prod.mk.inj hd
  have hentry : (d.entry, d.path paths.content) ∈
      (before ++ d :: after).map fun d => (d.entry, d.path paths.content) := by simp
  have hearlier : (before.map fun d => (d.entry, d.path paths.content)).map (·.2) =
      before.map (·.path paths.content) := List.map_map ..
  obtain ⟨text, file, htext, hfile, hrecord, hread, hmodule⟩ :=
    Bundle.run_listed_entry hcontent hassets hsources (List.map_map ..) hnodup hbundled hmap hfree
  refine ⟨text, file, htext, hfile, ?_, ?_⟩
  · refine (get?_recordedMetadata hnodup hentry).trans ?_
    rw [← Document.metadata_parse]
    exact congrArg (fun found => some (Option.getD found .empty)) hrecord
  · rw [hearlier, hfiles]
    exact ⟨hread, fun hsettings hapart => hmodule hsettings hagrees hapart⟩

/-! ## A small project -/

namespace SmallProject

def paths : ProjectPaths :=
  ⟨"/p", "/p/content", "/p/components", "/p/public", "/p/styles", "/p/dist", none⟩

/-- Documents of one byte each, and what stands among the modules. -/
def files (documents : List (String × UInt8)) (modules : List (String × Item)) : FileTree :=
  let content : RealPath := ["p".toList, "content".toList]
  let assets : RealPath := ["p".toList, "dist".toList, "_assets".toList]
  ⟨[(["p".toList], .directory), (content, .directory), (assets.dropLast, .directory), (assets, .directory)] ++
    documents.map (fun (name, byte) => (content ++ [name.toList ++ ".md"], .file [byte])) ++
    modules.map fun (name, item) => (assets ++ [name.toList], item)⟩

def entries (documents : List (String × UInt8)) : Table FilePath :=
  documents.map fun (name, _) => (name.toList, "/p/content/" ++ name.toList ++ ".md")

def start (documents : List (String × UInt8)) (modules : List (String × Item)) : RunState :=
  ⟨⟨files documents modules, .ofSettings ⟨"/p/content", none, none⟩⟩,
    ⟨[("components".toList, ⟨.components, Registry.empty⟩),
      ("entries".toList, ⟨.paths, entries documents⟩)]⟩⟩

/-- What compiling the content leads to. -/
def compiled (s : RunState) : Except StepError Unit × RunState :=
  (compileContent.run (.ofProject paths ⟨"Site", none, "en", none⟩ []) (.start ⟨true, true, none⟩)).run s

/-- Two documents, of which one is called like the module of the other. -/
def alike : List (String × UInt8) := [("a", 65), ("a-9f1f381a", 66)]

theorem linkFree_alike (p : RealPath) : (start alike []).files.LinkFree p := by
  intro ns hns target hget
  have hmem := mem_of_get? (by simp [hns]) hget
  simp [start, files, RunState.files, alike] at hmem

theorem documents_have_own_modules :
    let s := start alike []
    ∃ modules file file', (compiled s).2.outputs.get .modules = .ok modules ∧
      modules.get? "a" = some file ∧ modules.get? "a-9f1f381a" = some file' ∧
      (compiled s).2.files.readBytes file =
        .ok (Text.bytes (Bundle.moduleOf .empty "/p/content/a.md" "A" s.workspace)) ∧
      (compiled s).2.files.readBytes file' =
        .ok (Text.bytes (Bundle.moduleOf .empty "/p/content/a-9f1f381a.md" "B" s.workspace)) := by
  intro s
  have hok : (compiled s).1 = .ok () := by decide +kernel
  have hformed : s.files.WellFormed := by decide
  have hlisted : Source.entries s.files paths.content = .ok (entries alike) := by decide +kernel
  have hentries : s.outputs.get .entries = .ok (entries alike) := rfl
  have hregistry : s.outputs.get .components = .ok .empty := rfl
  have hsource : s.files.readText "/p/content/a.md" = .ok "A".toList := by decide +kernel
  have hsource' : s.files.readText "/p/content/a-9f1f381a.md" = .ok "B".toList := by decide +kernel
  cases hrun : compiled s with
  | mk result s' =>
    rw [hrun] at hok
    obtain rfl : result = .ok () := hok
    have hfree : s'.files.LinkFreeBelow paths.assets := by
      obtain ⟨changed, hextends⟩ := compileContent_extends hformed.rooted hentries hregistry hrun
      exact fun p _ => hextends.linkFree_iff.mpr (linkFree_alike p)
    have hapart : Registry.empty.Apart s.files s'.files paths.assets := nofun
    obtain ⟨modules, metadata, hmodules, -, -, -, hown⟩ :=
      every_entry_has_own_module hformed hlisted hentries hregistry rfl hrun hfree
    obtain ⟨text, file, htext, hfile, -, hread, -⟩ := hown [] "a" "/p/content/a.md" _ rfl
    obtain ⟨text', file', htext', hfile', -, hread', halone⟩ :=
      hown [("a".toList, "/p/content/a.md")] "a-9f1f381a" "/p/content/a-9f1f381a.md" [] (by decide)
    obtain rfl := Except.ok.inj (htext.symm.trans hsource)
    obtain rfl := Except.ok.inj (htext'.symm.trans hsource')
    refine ⟨modules, file, file', hmodules, hfile, hfile', hread (by decide), ?_⟩
    rw [← halone rfl hapart]
    exact hread' (by decide)

/-- A link where the module of a document belongs, to where the script that all pages share belongs. -/
def link : List (String × Item) := [("a-9f1f381a.js", .link "runtime-5e1000a5.js")]

theorem exists_of_map_eq_ok {α β ε : Type} {f : α → β} {x : Except ε α} {b : β} (h : x.map f = .ok b) :
    ∃ a, x = .ok a ∧ f a = b := by
  cases x with
  | error e => cases h
  | ok a => exact ⟨a, rfl, Except.ok.inj h⟩

/-- Through such a link the module of the document is lost. -/
theorem module_lost_through_link :
    let s := start [("a", 65)] link
    let module := Bundle.moduleOf .empty "/p/content/a.md" "A" s.workspace
    s.files.WellFormed ∧ Source.entries s.files paths.content = .ok (entries [("a", 65)]) ∧
      s.outputs.get .entries = .ok (entries [("a", 65)]) ∧ s.outputs.get .components = .ok .empty ∧
      s.workspace.stage = s.workspace.stage.reset ∧
      s.files.readText "/p/content/a.md" = .ok "A".toList ∧ (compiled s).1 = .ok () ∧
      ∃ modules file, (compiled s).2.outputs.get .modules = .ok modules ∧ modules.get? "a" = some file ∧
        (compiled s).2.files.readBytes file = .ok (Text.bytes Bundle.runtime) ∧
        Text.bytes module ≠ Text.bytes Bundle.runtime := by
  intro s module
  have hmodule : Text.bytes module ≠ Text.bytes Bundle.runtime := by
    intro hsame
    have hfirst := congrArg List.head? hsame
    revert hfirst
    decide +kernel
  obtain ⟨hok, hmodules, hread⟩ : (compiled s).1 = .ok () ∧
      Except.map (fun modules : Table FilePath => modules.get? "a")
        ((compiled s).2.outputs.get .modules) = .ok (some "/p/dist/_assets/a-9f1f381a.js".toList) ∧
      (compiled s).2.files.readBytes "/p/dist/_assets/a-9f1f381a.js" = .ok (Text.bytes Bundle.runtime) := by
    decide +kernel
  obtain ⟨modules, hget, hfile⟩ := exists_of_map_eq_ok hmodules
  refine ⟨by decide, by decide +kernel, rfl, rfl, rfl, by decide +kernel, hok, ?_⟩
  exact ⟨modules, _, hget, hfile, hread, hmodule⟩

end SmallProject

end Step

end StaticSite
