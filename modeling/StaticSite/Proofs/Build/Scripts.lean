import StaticSite.Proofs.Build.Compilation
import StaticSite.Proofs.Build.PageUrls
import StaticSite.Proofs.Compile.Assignment
import StaticSite.Proofs.Url.Reading

/-!
# The script of a page

A shell loads the module of its entry by a URL, which is made from the directories and the stem of the document and the
base path, all taken as they are. So the URL leads to the module if those are plain. A question mark or a number sign
among them cuts the URL, and a percent sign before two hexadecimal digits is read as something else: then the URL leads
to some other file, or to none, and nothing says so.
-/
namespace StaticSite

open FilePath (IsName ofNames parts)

namespace DocumentPlace

variable {d : DocumentPlace}

/-- The path of a module is the entry of its document and a dash and a hash. -/
theorem ofNames_moduleNames (d : DocumentPlace) (hash : Text) :
    ofNames (d.moduleNames hash) = d.entry ++ '-' :: (hash ++ ".js") := by
  rw [moduleNames, List.append_assoc, ofNames, Text.join_append_last]
  rfl

/-- What stands below the output directory for a document: nothing but its entry can be taken for anything else. -/
theorem isPlain_module_iff (d : DocumentPlace) (message : List UInt8) :
    Url.IsPlain (ofNames (ProjectPaths.assetsDirectory :: d.moduleNames (Digest.short message))) ↔
      Url.IsPlain d.entry := by
  have hdash : Url.Inert '-' := ⟨by decide, by decide, by decide, by decide⟩
  have hdirectory : Url.IsPlain ProjectPaths.assetsDirectory :=
    Url.isPlain_of_not_mem (by decide) (by decide) (by decide)
  have hhash : Url.IsPlain (Digest.short message ++ ".js") := by
    have hpercent := Digest.not_mem_short (c := '%') (by decide) message
    have hquery := Digest.not_mem_short (c := '?') (by decide) message
    have hfragment := Digest.not_mem_short (c := '#') (by decide) message
    exact Url.isPlain_of_not_mem (by simpa using hpercent) (by simpa using hquery) (by simpa using hfragment)
  have hbelow : ofNames (ProjectPaths.assetsDirectory :: d.moduleNames (Digest.short message)) =
      ProjectPaths.assetsDirectory ++ '/' :: (d.entry ++ '-' :: (Digest.short message ++ ".js")) := by
    rw [← ofNames_moduleNames]
    exact FilePath.ofNames_append (List.cons_ne_nil ProjectPaths.assetsDirectory []) (d.moduleNames_ne_nil _)
  rw [hbelow, Url.isPlain_append_cons_iff Url.inert_slash, Url.isPlain_append_cons_iff hdash,
    and_iff_right hdirectory, and_iff_left hhash]

end DocumentPlace

namespace OutputMap

variable {entries modules : Table FilePath} {request : BundleRequest} {name : Text} {file : FilePath}

/-- The module of an entry was compiled from its document. -/
theorem exists_document_of_get? {ds : List DocumentPlace} {registry : Registry} {w w' : Workspace}
    {artifacts : List Artifact} (hcontent : request.contentRoot ≠ []) (hassets : request.assets ≠ [])
    (hproper : ∀ d ∈ ds, d.Proper) (hentries : entries = ds.map fun d => (d.entry, d.path request.contentRoot))
    (hrequest : request.entries = entries.map (·.2))
    (hrun : Bundle.run request [.transforms registry] w = (.ok artifacts, w'))
    (hmap : ofArtifacts entries request.contentRoot request.assets artifacts = .ok modules)
    (hget : modules.get? name = some file) :
    ∃ d ∈ ds, ∃ module, d.entry = name ∧
      file = Bundle.modulePath request (d.path request.contentRoot) module := by
  have hkeys : ∀ entry ∈ entries, pathKey request.contentRoot entry.2 = entry.1 := by
    rw [hentries]
    intro entry hentry
    obtain ⟨d, hd, rfl⟩ := List.mem_map.mp hentry
    exact DocumentPlace.pathKey_path hcontent (hproper d hd)
  rw [(ofArtifacts_spec hmap).1] at hget
  obtain ⟨a, ha, howner, rfl⟩ := exists_of_get?_modulesOf hget
  obtain ⟨compiled, hcollect, -, rfl⟩ := Bundle.run_ok hrun
  rcases List.mem_append.mp ha with ha | ha
  · obtain ⟨path, hpath, module, rfl⟩ := Bundle.mem_collect hcollect a ha
    rw [hrequest, hentries, List.map_map] at hpath
    obtain ⟨d, hd, rfl⟩ := List.mem_map.mp hpath
    have hentry : d.entry ∈ entries.names := by
      rw [hentries]
      exact List.mem_map_of_mem (List.mem_map_of_mem hd)
    have howner' := owner?_modulePath hcontent hassets (hproper d hd) hkeys hentry module
    exact ⟨d, hd, module, Option.some.inj (howner'.symm.trans howner), rfl⟩
  · -- the script that all pages share is of no entry
    rw [List.mem_singleton.mp ha] at howner
    simp [owner?] at howner

end OutputMap

namespace Step

variable {paths : ProjectPaths} {site : SiteInfo} {shell : Template} {record record' : RunRecord}
  {s s' t t' : RunState} {entries : Table FilePath} {registry : Registry}

/-- Every entry has a module, which was compiled from its document. -/
theorem modules_of_compileContent (hformed : s.files.WellFormed)
    (hlisted : Source.entries s.files paths.content = .ok entries)
    (hentries : s.outputs.get .entries = .ok entries) (hregistry : s.outputs.get .components = .ok registry)
    (hrun : (compileContent.run (.ofProject paths site shell) record).run s = (.ok (), s')) :
    ∃ modules, s'.outputs.get .modules = .ok modules ∧ ∀ e path, (e, path) ∈ entries →
      ∃ (d : DocumentPlace) (file : FilePath) (module : Text), d.Proper ∧ d.entry = e ∧ modules.get? e = some file ∧
        file = FilePath.join paths.assets (ofNames (d.moduleNames (Digest.short (Text.bytes module)))) ∧
        file = Bundle.modulePath ⟨entries.map (·.2), paths.content, paths.assets⟩ path module := by
  let request : BundleRequest := ⟨entries.map (·.2), paths.content, paths.assets⟩
  obtain ⟨artifacts, w, modules, hbundled, hmap, -, hmodules, -⟩ := compileContent_ok hentries hregistry hrun
  have hbundled : Bundle.run request [.transforms registry] s.workspace = (.ok artifacts, w) := hbundled
  obtain ⟨hnodup, root, ds, hds, hsources⟩ := Sources.of_entries hformed hlisted
  have hcontent : paths.content ≠ [] := FileTree.ne_nil_of_resolve hsources.resolve
  refine ⟨modules, hmodules, fun e path hmem => ?_⟩
  have hcontains := (OutputMap.ofArtifacts_spec hmap).2 e (List.mem_map_of_mem hmem)
  obtain ⟨file, hfile⟩ := Option.isSome_iff_exists.mp hcontains
  obtain ⟨d, hd, module, rfl, hmodule⟩ :=
    OutputMap.exists_document_of_get? hcontent paths.assets_ne_nil hsources.proper hds rfl hbundled hmap hfile
  have hpath : path = d.path paths.content := by
    have hmem' : (d.entry, d.path paths.content) ∈ entries := hds ▸ List.mem_map_of_mem hd
    exact Option.some.inj ((Table.get?_of_mem hnodup hmem).symm.trans (Table.get?_of_mem hnodup hmem'))
  subst hpath
  refine ⟨d, file, module, hsources.proper d hd, rfl, hfile, ?_, hmodule⟩
  rw [hmodule]
  exact DocumentPlace.modulePath_path hcontent paths.assets_ne_nil (hsources.proper d hd) module

theorem ShellInputs.script_eq {context : BuildContext} {i : ShellInputs} {e : Text} {c : ShellContext} {file : FilePath}
    (h : i.contextOf? context record e = some c) (hfile : i.modules.get? e = some file) :
    c.script = Url.withBase (assetUrl file context.paths.output) record.options.base := by
  rw [ShellInputs.contextOf?, hfile] at h
  exact congrArg ShellContext.script (Option.some.inj h).symm

/-- The URL of the module of a document leads to the module just when the base path and the entry are plain. -/
theorem leadsTo_module_iff {d : DocumentPlace} (hproper : d.Proper) (base : Option Text) (message : List UInt8) :
    let file := FilePath.join paths.assets (ofNames (d.moduleNames (Digest.short message)))
    Url.LeadsTo (Url.withBase (assetUrl file paths.output) base) (base.getD []) paths.output file ↔
      Url.IsPlain (base.getD []) ∧ Url.IsPlain d.entry := by
  intro file
  have hmodule := hproper.isName_moduleNames message
  have hassets : IsName ProjectPaths.assetsDirectory := by decide
  have hfile : parts file = parts paths.output ++
      (ProjectPaths.assetsDirectory :: d.moduleNames (Digest.short message)).map .name := by
    have hdirectory : parts paths.assets = parts paths.output ++ [ProjectPaths.assetsDirectory].map .name :=
      FilePath.parts_join_of_names paths.output (FilePath.parts_ofNames (List.forall_mem_singleton.mpr hassets))
    rw [FilePath.parts_join_of_names paths.assets (FilePath.parts_ofNames hmodule), hdirectory, List.append_assoc]
    rfl
  rw [Url.assetUrl_eq (List.cons_ne_nil _ _) hfile, Url.withBase_of_slash rfl,
    Url.leadsTo_iff (List.forall_mem_cons.mpr ⟨hassets, hmodule⟩) hfile,
    Url.isPlain_append_cons_iff Url.inert_slash, d.isPlain_module_iff]

/-- When shells are written for compiled entries, every entry has a shell, which loads a script. Its URL leads to the
module that was compiled from the document of the entry just when nothing in the base path and the entry is taken for
a query, a fragment or an escape. -/
theorem shell_leads_to_module_iff (hformed : s.files.WellFormed)
    (hlisted : Source.entries s.files paths.content = .ok entries)
    (hentries : s.outputs.get .entries = .ok entries) (hregistry : s.outputs.get .components = .ok registry)
    (hcompiled : (compileContent.run (.ofProject paths site shell) record).run s = (.ok (), s'))
    (hentries' : t.outputs.get .entries = .ok entries)
    (hmodules : t.outputs.get .modules = s'.outputs.get .modules) (hrooted : t.files.Rooted)
    (hwritten : (writeShells.run (.ofProject paths site shell) record').run t = (.ok (), t')) :
    ∃ i : ShellInputs, i.Read record' t ∧ ∀ e path, (e, path) ∈ entries → ∃ c html file module,
      i.contextOf? (.ofProject paths site shell) record' e = some c ∧ Shell.render shell c = .ok html ∧
      i.modules.get? e = some file ∧
      file = Bundle.modulePath ⟨entries.map (·.2), paths.content, paths.assets⟩ path module ∧
      let base := record'.options.base.getD []
      (Url.LeadsTo c.script base paths.output file ↔ Url.IsPlain base ∧ Url.IsPlain e) := by
  obtain ⟨modules, hmodules', hown⟩ := modules_of_compileContent hformed hlisted hentries hregistry hcompiled
  have hnodup := (Source.entries_spec hformed hlisted).1
  obtain ⟨i, files, hread, -, hshells⟩ := shells_of_writeShells hnodup hentries' hrooted hwritten
  obtain rfl : i.modules = modules := Except.ok.inj (hread.modules.symm.trans (hmodules.trans hmodules'))
  refine ⟨i, hread, fun e path hmem => ?_⟩
  obtain ⟨c, html, hcontext, hrender, -, -⟩ := hshells e (List.mem_map_of_mem hmem)
  obtain ⟨d, file, module, hproper, rfl, hfile, hplace, hmodule⟩ := hown e path hmem
  refine ⟨c, html, file, module, hcontext, hrender, hfile, hmodule, ?_⟩
  rw [ShellInputs.script_eq hcontext hfile, hplace]
  exact leadsTo_module_iff hproper record'.options.base (Text.bytes module)

end Step

/-! ## A small project -/

namespace Step.SmallProject

def context : BuildContext := .ofProject paths ⟨"Site", none, "en", none⟩ []

def shellRecord : RunRecord := .start ⟨false, true, none⟩

/-- What shells are written from, once the content has been compiled to some modules. -/
def styled (s : RunState) (modules : Table FilePath) : RunState :=
  ⟨s.workspace, (s.outputs.insert .modules modules).insert .stylesheet "site.css".toList⟩

/-- What writing the shells leads to. -/
def shelled (s : RunState) : Except StepError Unit × RunState := (writeShells.run context shellRecord).run s

/-- A document with a percent sign that no digits follow, and its module. -/
def percent : List (String × UInt8) := [("50%", 65)]

def percentModules : Table FilePath := [("50%".toList, "/p/dist/_assets/50%-9f1f381a.js".toList)]

theorem percent_entry_leads_to_module :
    let s := start percent []
    let t := styled s percentModules
    s.files.WellFormed ∧ Source.entries s.files paths.content = .ok (entries percent) ∧
      s.outputs.get .entries = .ok (entries percent) ∧ s.outputs.get .components = .ok .empty ∧
      (compiled s).1 = .ok () ∧ t.outputs.get .entries = .ok (entries percent) ∧
      t.outputs.get .modules = (compiled s).2.outputs.get .modules ∧ t.files.Rooted ∧ (shelled t).1 = .ok () ∧
      ∃ i c file, ShellInputs.contextOf? i context shellRecord "50%" = some c ∧
        i.modules.get? "50%" = some file ∧ Url.LeadsTo c.script [] paths.output file := by
  intro s t
  have hformed : s.files.WellFormed := by decide
  have hlisted : Source.entries s.files paths.content = .ok (entries percent) := by decide +kernel
  have hentries : s.outputs.get .entries = .ok (entries percent) := rfl
  have hregistry : s.outputs.get .components = .ok .empty := rfl
  have hentries' : t.outputs.get .entries = .ok (entries percent) := rfl
  obtain ⟨hok, hget, hok'⟩ : (compiled s).1 = .ok () ∧
      Except.map (fun modules : Table FilePath => modules) ((compiled s).2.outputs.get .modules) = .ok percentModules ∧
      (shelled t).1 = .ok () := by
    decide +kernel
  cases hcompiled : compiled s with
  | mk result s' =>
    rw [hcompiled] at hok hget
    obtain rfl : result = .ok () := hok
    cases hwritten : shelled t with
    | mk result' t' =>
      rw [hwritten] at hok'
      obtain rfl : result' = .ok () := hok'
      have hmodules : t.outputs.get .modules = s'.outputs.get .modules := by
        obtain ⟨modules, hmodules, rfl⟩ := exists_of_map_eq_ok hget
        exact hmodules.symm
      obtain ⟨i, -, hpages⟩ := shell_leads_to_module_iff hformed hlisted hentries hregistry hcompiled hentries' hmodules
        hformed.rooted hwritten
      have hmem : ("50%".toList, "/p/content/50%.md".toList) ∈ entries percent := by decide
      obtain ⟨c, html, file, module, hcontext, -, hfile, -, hleads⟩ := hpages _ _ hmem
      have hplain : Url.IsPlain [] := Url.isPlain_of_not_mem (by decide) (by decide) (by decide)
      have hentry : Url.IsPlain "50%" := Url.isPlain_iff_read.mpr (by decide)
      exact ⟨hformed, hlisted, hentries, hregistry, rfl, hentries', hmodules, hformed.rooted, rfl, i, c, file, hcontext,
        hfile, hleads.mpr ⟨hplain, hentry⟩⟩

/-- A document with a number sign in its name, and its module. -/
def numbered : List (String × UInt8) := [("a#b", 65)]

def numberedModules : Table FilePath := [("a#b".toList, "/p/dist/_assets/a#b-9f1f381a.js".toList)]

/-- The shell of such a document loads a URL that ends at the number sign. -/
theorem numbered_entry_misses_module :
    let s := start numbered []
    let t := styled s numberedModules
    s.files.WellFormed ∧ Source.entries s.files paths.content = .ok (entries numbered) ∧
      s.outputs.get .entries = .ok (entries numbered) ∧ s.outputs.get .components = .ok .empty ∧
      (compiled s).1 = .ok () ∧
      Except.map (fun modules : Table FilePath => modules) ((compiled s).2.outputs.get .modules) =
        .ok numberedModules ∧
      (shelled t).1 = .ok () ∧
      ∃ (i : ShellInputs) (c : ShellContext) (file : FilePath), i.Read shellRecord t ∧
        i.contextOf? context shellRecord "a#b" = some c ∧ i.modules.get? "a#b" = some file ∧
        c.script = "/_assets/a#b-9f1f381a.js".toList ∧ ¬Url.LeadsTo c.script [] paths.output file := by
  intro s t
  obtain ⟨hok, hget, hok'⟩ : (compiled s).1 = .ok () ∧
      Except.map (fun modules : Table FilePath => modules) ((compiled s).2.outputs.get .modules) =
        .ok numberedModules ∧
      (shelled t).1 = .ok () := by
    decide +kernel
  let i : ShellInputs := ⟨numberedModules, "site.css", []⟩
  have hfile : i.modules.get? "a#b" = some "/p/dist/_assets/a#b-9f1f381a.js".toList := rfl
  obtain ⟨c, hcontext⟩ : ∃ c, i.contextOf? context shellRecord "a#b" = some c := by
    rw [ShellInputs.contextOf?, hfile]
    exact ⟨_, rfl⟩
  have hscript : c.script = "/_assets/a#b-9f1f381a.js".toList := by
    rw [ShellInputs.script_eq hcontext hfile]
    decide +kernel
  have hnames : ∀ n ∈ ["_assets".toList, "a#b-9f1f381a.js".toList], IsName n := by decide
  have hparts : parts "/p/dist/_assets/a#b-9f1f381a.js" =
      parts paths.output ++ ["_assets".toList, "a#b-9f1f381a.js".toList].map .name := by decide
  refine ⟨by decide, by decide +kernel, rfl, rfl, hok, hget, hok', i, c, _, ⟨rfl, rfl, rfl⟩, hcontext, hfile, hscript,
    fun hleads => ?_⟩
  rw [hscript] at hleads
  have hplain := (Url.leadsTo_iff hnames hparts []).mp hleads
  exact hplain.no_fragment (by decide)

end Step.SmallProject

end StaticSite
