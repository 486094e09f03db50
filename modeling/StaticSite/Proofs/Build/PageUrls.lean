import StaticSite.Proofs.Build.IndexFiles
import StaticSite.Proofs.Url.Bases

/-!
# The URL in a shell and the file of the page

A shell shows the URL of its page under the base path, but its file is chosen from the URL without one. The output
directory is what stands at the base path; so the two agree if the file answers what is left of the URL when the base
path is taken off.
-/
namespace StaticSite.Step

variable {context : BuildContext} {record : RunRecord} {s s' : RunState} {tree : FileTree} {content : FilePath}
  {entries : Table FilePath} {i : ShellInputs} {e : Text}

/-! ## Shells that were written -/

/-- What the shell of an entry is rendered from. -/
def ShellInputs.contextOf? (i : ShellInputs) (context : BuildContext) (record : RunRecord) (entry : Text) :
    Option ShellContext :=
  (i.modules.get? entry).map fun module =>
    shellContext context record.options.base entry i.stylesheet module ((i.pages.get? entry).getD [])

theorem ShellInputs.page_url {c : ShellContext} (h : i.contextOf? context record e = some c) :
    c.page.url = Url.ofEntry e record.options.base := by
  obtain ⟨module, -, rfl⟩ := Option.map_eq_some_iff.mp h
  rfl

/-- A file holds a text, unless one of the other files is in the same place. -/
def HoldsAlone (t : FileTree) (files : Table FilePath) (e html : Text) (path : FilePath) : Prop :=
  ∃ q, t.resolve true path = .ok q ∧
    ((∀ e' path', files.get? e' = some path' → e' ≠ e → t.resolve true path' ≠ .ok q) →
      t.get? q = some (.file (Text.bytes html)))

/-- Every entry has a shell, in the file of its page. -/
theorem shells_of_writeShells (hnodup : entries.names.Nodup) (hentries : s.outputs.get .entries = .ok entries)
    (hrooted : s.files.Rooted) (hrun : (writeShells.run context record).run s = (.ok (), s')) :
    ∃ (i : ShellInputs) (files : Table FilePath), i.Read record s ∧ s'.outputs.get .htmlFiles = .ok files ∧
      ∀ e ∈ entries.names, ∃ c html, i.contextOf? context record e = some c ∧
        Shell.render context.shell c = .ok html ∧ files.get? e = some (pageFile context e) ∧
        HoldsAlone s'.files files e html (pageFile context e) := by
  obtain ⟨modules, files, stylesheet, pages, s₁, hmodules, hstylesheet, hpages, hshells, hfiles, hhtml⟩ :=
    writeShells_ok hentries hrun
  obtain ⟨rfl, -, -, -, hown⟩ := writeShellsOf_ok hrooted hnodup hshells
  have hget {e : Text} (he : e ∈ entries.names) :
      Table.get? e (entries.names.map fun e => (e, pageFile context e)) = some (pageFile context e) := by
    have hnames : Table.names (entries.names.map fun e => (e, pageFile context e)) = entries.names := by
      simp [Table.names]
    rw [← hnames] at hnodup
    exact Table.get?_of_mem hnodup (List.mem_map_of_mem he)
  refine ⟨⟨modules, stylesheet, pages⟩, _, ⟨hmodules, hstylesheet, hpages⟩, hhtml, fun e he => ?_⟩
  obtain ⟨module, html, q, hmodule, hrender, hq, hkept⟩ := hown e he
  rw [hfiles]
  refine ⟨_, html, ?_, hrender, hget he, q, hq, fun halone => hkept fun e' he' hne => halone e' _ (hget he') hne⟩
  rw [ShellInputs.contextOf?, hmodule]
  rfl

/-! ## URLs -/

/-- What is left of a configured text is a base path, if anything. Under it, the URL of every page is a path of the
site, without a slash at its end unless it is that slash, and consists of the base path and the URL without one, save
for the root. Whenever shells are written, each shows such a URL, and is written to the file that answers what is left
of it without the base path. -/
theorem writeShells_page_urls (hformed : tree.WellFormed) (hlisted : Source.entries tree content = .ok entries)
    (raw : Option Text) :
    let base := Url.normalizeBase? raw
    (∀ b, base = some b → Url.IsBase b) ∧
    (∀ t, raw = some t → ∃ front inner back, t = front ++ inner ++ back ∧
      (∀ c ∈ front ++ back, Text.isBlank c = true ∨ c = '/') ∧
      base = if inner = [] then none else some ('/' :: inner)) ∧
    (∀ e ∈ entries.names,
      let url := Url.ofEntry e base
      Url.IsSitePath url ∧ (url.getLast? = some '/' → url = "/".toList) ∧
      ∀ b, base = some b → url = if e = Url.indexName then b else b ++ Url.ofEntry e none) ∧
    ∀ (context : BuildContext) (record : RunRecord) (s s' : RunState), record.options.base = base →
      s.outputs.get .entries = .ok entries → s.files.Rooted →
      (writeShells.run context record).run s = (.ok (), s') →
      ∃ (i : ShellInputs) (files : Table FilePath), i.Read record s ∧ s'.outputs.get .htmlFiles = .ok files ∧
        ∀ e ∈ entries.names, ∃ c html rest, i.contextOf? context record e = some c ∧
          Shell.render context.shell c = .ok html ∧
          Text.after? (base.getD []) c.page.url = some rest ∧
          files.get? e = some (Url.outputFile rest context.paths.output) ∧
          HoldsAlone s'.files files e html (Url.outputFile rest context.paths.output) := by
  intro base
  have hbase : ∀ b ∈ base, Url.IsBase b := fun b hb => Url.isBase_of_normalizeBase? hb
  refine ⟨hbase, ?_, fun e he => ?_, ?_⟩
  · rintro t rfl
    exact Url.normalizeBase?_eq t
  · obtain ⟨hne, hnames, heq⟩ := exists_names_of_entry hformed hlisted he
    rw [heq]
    refine ⟨Url.isSitePath_ofEntry raw hne hnames, Url.getLast?_ofEntry hbase hne hnames, fun b hb => ?_⟩
    rw [hb, Url.ofEntry_some (hbase b hb).ne_nil hne hnames]
  · intro context record s s' hoptions hentries hrooted hrun
    have hnodup := (Source.entries_spec hformed hlisted).1
    obtain ⟨i, files, hread, hfiles, hshells⟩ := shells_of_writeShells hnodup hentries hrooted hrun
    refine ⟨i, files, hread, hfiles, fun e he => ?_⟩
    obtain ⟨hne, hnames, heq⟩ := exists_names_of_entry hformed hlisted he
    obtain ⟨c, html, hcontext, hrender, hget, hholds⟩ := hshells e he
    obtain ⟨rest, hrest, hfile⟩ := Url.exists_after_base hbase hne hnames context.paths.output
    rw [← heq] at hrest hfile
    refine ⟨c, html, rest, hcontext, hrender, ?_, ?_, ?_⟩
    · rw [ShellInputs.page_url hcontext, hoptions]
      exact hrest
    · rw [hfile]
      exact hget
    · rw [hfile]
      exact hholds

/-! ## Small sites -/

namespace SmallSite

/-- The page of the root and the pages of a directory. -/
def manual : FileTree :=
  files [["p"], ["p", "content"], ["p", "content", "guide"]]
    [["p", "content", "index.md"], ["p", "content", "guide", "index.md"], ["p", "content", "guide", "setup.md"]]

def manualEntries : Table FilePath :=
  [("guide/index".toList, "/p/content/guide/index.md".toList),
    ("guide/setup".toList, "/p/content/guide/setup.md".toList), ("index".toList, "/p/content/index.md".toList)]

/-- A record of a run under a base path that is configured with blanks and slashes around it. -/
def manualRecord : RunRecord := .start ⟨false, true, Url.normalizeBase? (some " /docs/ ".toList)⟩

theorem manual_under_base :
    let s := start manual manualEntries
    manual.WellFormed ∧ Source.entries manual "/p/content" = .ok manualEntries ∧
      manualRecord.options.base = Url.normalizeBase? (some " /docs/ ".toList) ∧
      s.outputs.get .entries = .ok manualEntries ∧ s.files.Rooted ∧
      Url.IsSitePath (Url.ofEntry "guide/index" manualRecord.options.base) ∧
      ∃ s' files i c, (writeShells.run site manualRecord).run s = (.ok (), s') ∧
        s'.outputs.get .htmlFiles = .ok files ∧
        ShellInputs.contextOf? i site manualRecord "guide/index" = some c ∧ c.page.url = "/docs/guide".toList ∧
        files.get? "guide/index" = some "/p/dist/guide/index.html".toList := by
  intro s
  have hformed : manual.WellFormed := by decide
  have hlisted : Source.entries manual "/p/content" = .ok manualEntries := by decide +kernel
  have hentries : s.outputs.get .entries = .ok manualEntries := rfl
  have hok : ((writeShells.run site manualRecord).run s).1 = .ok () := by decide +kernel
  cases hrun : (writeShells.run site manualRecord).run s with
  | mk result s' =>
    rw [hrun] at hok
    obtain rfl : result = .ok () := hok
    obtain ⟨-, -, hurls, hshells⟩ := writeShells_page_urls hformed hlisted (some " /docs/ ".toList)
    obtain ⟨i, files, -, hfiles, hpages⟩ := hshells site manualRecord s s' rfl hentries hformed.rooted hrun
    have he : "guide/index".toList ∈ manualEntries.names := by decide
    obtain ⟨c, html, rest, hcontext, -, hrest, hget, -⟩ := hpages _ he
    have hurl : c.page.url = "/docs/guide".toList := (ShellInputs.page_url hcontext).trans (by decide)
    have hbase : (Url.normalizeBase? (some " /docs/ ".toList)).getD [] = "/docs".toList := by decide
    rw [hbase, hurl] at hrest
    obtain rfl : "/guide".toList = rest := Option.some.inj (Eq.trans (by decide) hrest)
    exact ⟨hformed, hlisted, rfl, hentries, hformed.rooted, (hurls _ he).1, s', files, i, c, rfl, hfiles, hcontext,
      hurl, hget.trans (by decide)⟩

end SmallSite

end StaticSite.Step
