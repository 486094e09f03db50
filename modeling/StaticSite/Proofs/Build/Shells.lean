import StaticSite.Build.Pages
import StaticSite.Proofs.Build.Actions
import StaticSite.Proofs.Compile.Bundle
import StaticSite.Proofs.Document.Listing
import StaticSite.Proofs.Url

/-!
# A file for every page

The shells of all entries are written one after the other, each to the file of its page. Two entries have one
file just when one of them shadows the other; an entry that neither shadows nor is shadowed keeps its shell.
-/
namespace StaticSite

open FileTree

namespace Action

variable {s s' : RunState} {path : FilePath}

/-- Making the directory of a path adds to the files. -/
theorem run_makeParent_ok {u : Unit} (hrooted : s.files.Rooted)
    (h : (makeParent path).run s = (.ok u, s')) :
    s'.outputs = s.outputs ∧ s'.files.Rooted ∧ Extends [] s.files s'.files := by
  unfold makeParent at h
  split at h
  · obtain ⟨files, hfiles, rfl⟩ := run_changeFiles_ok h
    obtain ⟨hrooted', hextends⟩ := createDirectories_spec hrooted hfiles
    exact ⟨rfl, hrooted', hextends⟩
  · obtain ⟨-, rfl⟩ := Prod.mk.inj h
    exact ⟨rfl, hrooted, .refl s.files⟩

end Action

namespace Step

open Action

variable {context : BuildContext} {record : RunRecord} {s s' : RunState}

/-- The file of the page of an entry. -/
def pageFile (context : BuildContext) (entry : Text) : FilePath :=
  Url.outputFile (Url.ofEntry entry none) context.paths.output

theorem writeShell_ok {c : ShellContext} {entry : Text} {path : FilePath} (hrooted : s.files.Rooted)
    (h : (writeShell context c entry).run s = (.ok path, s')) :
    path = pageFile context entry ∧ s'.outputs = s.outputs ∧ s'.files.Rooted ∧
      ∃ html q, Shell.render context.shell c = .ok html ∧ s'.files.resolve true path = .ok q ∧
        s'.files.get? q = some (.file (Text.bytes html)) ∧ Extends [q] s.files s'.files := by
  unfold writeShell at h
  obtain ⟨html, _, hrender, h⟩ := run_bind_ok h
  obtain ⟨hhtml, rfl⟩ := run_ofExcept_ok hrender
  obtain ⟨_, s₁, hmake, h⟩ := run_bind_ok h
  obtain ⟨hout, hrooted₁, hmade⟩ := run_makeParent_ok hrooted hmake
  obtain ⟨_, s₂, hwrite, hpure⟩ := run_bind_ok h
  obtain ⟨files, hfiles, rfl⟩ := run_changeFiles_ok hwrite
  obtain ⟨hpath, rfl⟩ := Prod.mk.inj hpure
  obtain rfl := Except.ok.inj hpath
  obtain ⟨q, hq, hget, hrooted', hextends⟩ := write_spec hrooted₁ hfiles
  refine ⟨rfl, hout, hrooted', html, q, hhtml, hextends.resolve hq, hget, ?_⟩
  exact hmade.trans hextends

/-- The shells of some entries: where they were written, and that each is there unless the shell of another
entry was written to its place. -/
theorem writeShellsOf_ok {base : Option Text} {stylesheet : Text} {modules : Table FilePath}
    {pages : Table Text} {entries : List Text} {files : Table FilePath} (hrooted : s.files.Rooted)
    (hnodup : entries.Nodup)
    (h : (writeShellsOf context base stylesheet modules pages entries).run s = (.ok files, s')) :
    files = entries.map (fun e => (e, pageFile context e)) ∧ s'.outputs = s.outputs ∧ s'.files.Rooted ∧
      (∃ changed, Extends changed s.files s'.files ∧
        ∀ q ∈ changed, ∃ e ∈ entries, s'.files.resolve true (pageFile context e) = .ok q) ∧
      ∀ e ∈ entries, ∃ module html q, modules.get? e = some module ∧
        Shell.render context.shell
          (shellContext context base e stylesheet module ((pages.get? e).getD [])) = .ok html ∧
        s'.files.resolve true (pageFile context e) = .ok q ∧
        ((∀ e' ∈ entries, e' ≠ e → s'.files.resolve true (pageFile context e') ≠ .ok q) →
          s'.files.get? q = some (.file (Text.bytes html))) := by
  induction entries generalizing s files with
  | nil =>
    obtain ⟨hfiles, rfl⟩ := Prod.mk.inj h
    obtain rfl := Except.ok.inj hfiles
    exact ⟨rfl, rfl, hrooted, ⟨[], .refl s.files, by simp⟩, by simp⟩
  | cons entry entries ih =>
    obtain ⟨hentry, hnodup⟩ := List.nodup_cons.mp hnodup
    rw [writeShellsOf] at h
    cases hmodule : modules.get? entry with
    | none =>
      rw [hmodule] at h
      exact absurd (Prod.mk.inj h).1 nofun
    | some module =>
      rw [hmodule] at h
      dsimp only at h
      obtain ⟨path, s₁, hshell, h⟩ := run_bind_ok h
      obtain ⟨rest, _, hrest, hpure⟩ := run_bind_ok h
      obtain ⟨hfiles, rfl⟩ := Prod.mk.inj hpure
      obtain rfl := Except.ok.inj hfiles
      obtain ⟨rfl, hout₁, hrooted₁, html, q, hhtml, hq, hget, hextends⟩ := writeShell_ok hrooted hshell
      obtain ⟨rfl, hout, hrooted', ⟨changed, hlater, hchanged⟩, hshells⟩ := ih hrooted₁ hnodup hrest
      refine ⟨rfl, hout.trans hout₁, hrooted', ⟨[q] ++ changed, hextends.trans hlater, ?_⟩, ?_⟩
      · intro r hr
        rcases List.mem_append.mp hr with hr | hr
        · rw [List.mem_singleton.mp hr]
          exact ⟨entry, List.mem_cons_self, hlater.resolve hq⟩
        · obtain ⟨e, he, hr⟩ := hchanged r hr
          exact ⟨e, List.mem_cons_of_mem _ he, hr⟩
      · intro e he
        rcases List.mem_cons.mp he with rfl | he
        · refine ⟨module, html, q, hmodule, hhtml, hlater.resolve hq, fun halone => ?_⟩
          refine hlater.kept q _ hget fun hmem => ?_
          obtain ⟨e', he', hr⟩ := hchanged q hmem
          exact absurd hr (halone e' (List.mem_cons_of_mem _ he') fun heq => hentry (heq ▸ he'))
        · obtain ⟨module', html', q', hmodule', hhtml', hq', hown⟩ := hshells e he
          refine ⟨module', html', q', hmodule', hhtml', hq', fun halone => hown fun e' he' => ?_⟩
          exact halone e' (List.mem_cons_of_mem _ he')

theorem writeShells_ok {entries : Table FilePath} (hentries : s.outputs.get .entries = .ok entries)
    (h : (writeShells.run context record).run s = (.ok (), s')) :
    ∃ (modules files : Table FilePath) (stylesheet : Text) (pages : Table Text) (s₁ : RunState),
      s.outputs.get .modules = .ok modules ∧
      s.outputs.get .stylesheet = .ok stylesheet ∧
      (if record.options.prerender then s.outputs.get .prerendered = .ok pages else pages = []) ∧
      (writeShellsOf context record.options.base stylesheet modules pages entries.names).run s = (.ok files, s₁) ∧
      s'.files = s₁.files ∧ s'.outputs.get .htmlFiles = .ok files := by
  dsimp only [writeShells] at h
  obtain ⟨_, _, hread, h⟩ := run_bind_ok h
  obtain ⟨rfl, rfl⟩ := run_read_ok hentries hread
  obtain ⟨modules, _, hread, h⟩ := run_bind_ok h
  obtain ⟨hmodules, rfl⟩ := get_of_run_read_ok hread
  obtain ⟨stylesheet, _, hread, h⟩ := run_bind_ok h
  obtain ⟨hstylesheet, rfl⟩ := get_of_run_read_ok hread
  have hrest {pages : Table Text} (h : (do
      let files ← writeShellsOf context record.options.base stylesheet modules pages entries.names
      Action.write .htmlFiles files).run s = (.ok (), s')) :
      ∃ files s₁, (writeShellsOf context record.options.base stylesheet modules pages entries.names).run s =
        (.ok files, s₁) ∧ s'.files = s₁.files ∧ s'.outputs.get .htmlFiles = .ok files := by
    obtain ⟨files, s₁, hshells, hwrite⟩ := run_bind_ok h
    rw [run_write_ok hwrite]
    exact ⟨files, s₁, hshells, rfl, Outputs.get_insert_self _ _ _⟩
  split_ifs at h with hprerender
  · obtain ⟨pages, _, hread, h⟩ := run_bind_ok h
    obtain ⟨hpages, rfl⟩ := get_of_run_read_ok hread
    obtain ⟨files, s₁, hshells, hfiles, hhtml⟩ := hrest h
    refine ⟨modules, files, stylesheet, pages, s₁, hmodules, hstylesheet, ?_, hshells, hfiles, hhtml⟩
    rwa [if_pos hprerender]
  · obtain ⟨files, s₁, hshells, hfiles, hhtml⟩ := hrest h
    refine ⟨modules, files, stylesheet, [], s₁, hmodules, hstylesheet, ?_, hshells, hfiles, hhtml⟩
    rw [if_neg hprerender]

/-- Writing the shells adds to the files. -/
theorem writeShells_extends {entries : Table FilePath} (hentries : s.outputs.get .entries = .ok entries)
    (hnodup : entries.names.Nodup) (hrooted : s.files.Rooted)
    (h : (writeShells.run context record).run s = (.ok (), s')) : ∃ changed, Extends changed s.files s'.files := by
  obtain ⟨modules, files, stylesheet, pages, s₁, -, -, -, hshells, hfiles, -⟩ := writeShells_ok hentries h
  obtain ⟨-, -, -, ⟨changed, hextends, -⟩, -⟩ := writeShellsOf_ok hrooted hnodup hshells
  rw [hfiles]
  exact ⟨changed, hextends⟩

/-! ## Entries of a content directory -/

variable {tree : FileTree} {content : FilePath} {entries : Table FilePath}

theorem exists_names_of_entry (hformed : tree.WellFormed) (hlisted : Source.entries tree content = .ok entries)
    {e : Text} (he : e ∈ entries.names) :
    Text.splitOn '/' e ≠ [] ∧ (∀ n ∈ Text.splitOn '/' e, FilePath.IsName n) ∧
      e = FilePath.ofNames (Text.splitOn '/' e) := by
  obtain ⟨-, root, -, -, ds, rfl, hds⟩ := Source.entries_spec hformed hlisted
  obtain ⟨entry, hentry, rfl⟩ := List.mem_map.mp he
  obtain ⟨d, hd, rfl⟩ := List.mem_map.mp hentry
  have hproper := (hds d hd).1
  rw [hproper.splitOn_entry]
  exact ⟨by simp, hproper.isName_entry, rfl⟩

theorem pageFile_eq (hformed : tree.WellFormed) (hlisted : Source.entries tree content = .ok entries)
    {e : Text} (he : e ∈ entries.names) :
    pageFile context e =
      FilePath.join context.paths.output (FilePath.ofNames (Url.pageNames (Text.splitOn '/' e))) := by
  obtain ⟨hne, hnames, heq⟩ := exists_names_of_entry hformed hlisted he
  rw [pageFile]
  conv_lhs => rw [heq]
  exact Url.outputFile_ofEntry hne hnames context.paths.output

theorem pageNames_eq_iff_of_mem (hformed : tree.WellFormed) (hlisted : Source.entries tree content = .ok entries)
    {e e' : Text} (he : e ∈ entries.names) (he' : e' ∈ entries.names) :
    Url.pageNames (Text.splitOn '/' e) = Url.pageNames (Text.splitOn '/' e') ↔
      e = e' ∨ Url.Shadows e e' ∨ Url.Shadows e' e := by
  obtain ⟨hne, -, heq⟩ := exists_names_of_entry hformed hlisted he
  obtain ⟨hne', -, heq'⟩ := exists_names_of_entry hformed hlisted he'
  have hsplit : Text.splitOn '/' e = Text.splitOn '/' e' ↔ e = e' := by
    constructor
    · intro hsplit
      rw [heq, heq', hsplit]
    · intro heq
      rw [heq]
  rw [Url.pageNames_eq_iff hne hne', hsplit, Url.Shadows, Url.Shadows]

/-- Every entry of a content directory has a file for its page. Two of them have one file just when the page of
one takes the place of that of the other; an entry to which that does not happen keeps the shell that was
rendered for it, provided that no symbolic link lies below the output directory. -/
theorem writeShells_file_per_page (hformed : tree.WellFormed)
    (hlisted : Source.entries tree content = .ok entries) (hentries : s.outputs.get .entries = .ok entries)
    (hrooted : s.files.Rooted) (houtput : context.paths.output ≠ [])
    (hrun : (writeShells.run context record).run s = (.ok (), s')) :
    ∃ (files modules : Table FilePath) (stylesheet : Text) (pages : Table Text),
      s'.outputs.get .htmlFiles = .ok files ∧
      s.outputs.get .modules = .ok modules ∧ s.outputs.get .stylesheet = .ok stylesheet ∧
      (if record.options.prerender then s.outputs.get .prerendered = .ok pages else pages = []) ∧
      files.names = entries.names ∧
      (∀ e e' path path', files.get? e = some path → files.get? e' = some path' →
        (FilePath.same path path' = true ↔ e = e' ∨ Url.Shadows e e' ∨ Url.Shadows e' e)) ∧
      (s'.files.LinkFreeBelow context.paths.output → ∀ e path, files.get? e = some path →
        (∀ e' ∈ entries.names, ¬Url.Shadows e e' ∧ ¬Url.Shadows e' e) →
        ∃ module html, modules.get? e = some module ∧
          Shell.render context.shell (shellContext context record.options.base e stylesheet module
            ((pages.get? e).getD [])) = .ok html ∧
          s'.files.readBytes path = .ok (Text.bytes html)) := by
  have hnodup := (Source.entries_spec hformed hlisted).1
  have hisName (e : Text) (he : e ∈ entries.names) :
      ∀ n ∈ Url.pageNames (Text.splitOn '/' e), FilePath.IsName n :=
    Url.isName_pageNames (exists_names_of_entry hformed hlisted he).2.1
  obtain ⟨modules, files, stylesheet, pages, s₁, hmodules, hstylesheet, hpages, hshells, hfiles, hhtml⟩ :=
    writeShells_ok hentries hrun
  obtain ⟨rfl, -, -, -, hown⟩ := writeShellsOf_ok hrooted hnodup hshells
  have hnames : Table.names (entries.names.map fun e => (e, pageFile context e)) = entries.names := by
    simp [Table.names]
  have hfile {e : Text} {path : FilePath}
      (h : Table.get? e (entries.names.map fun e => (e, pageFile context e)) = some path) :
      e ∈ entries.names ∧ path = pageFile context e := by
    obtain ⟨e', he', heq⟩ := List.mem_map.mp (Table.mem_of_get? h)
    obtain ⟨rfl, rfl⟩ := Prod.mk.inj heq
    exact ⟨he', rfl⟩
  refine ⟨_, modules, stylesheet, pages, hhtml, hmodules, hstylesheet, hpages, hnames, ?_, ?_⟩
  · intro e e' path path' hpath hpath'
    obtain ⟨he, rfl⟩ := hfile hpath
    obtain ⟨he', rfl⟩ := hfile hpath'
    rw [← pageNames_eq_iff_of_mem hformed hlisted he he', pageFile_eq hformed hlisted he,
      pageFile_eq hformed hlisted he', FilePath.same, beq_iff_eq,
      FilePath.parts_join_of_names _ (FilePath.parts_ofNames (hisName e he)),
      FilePath.parts_join_of_names _ (FilePath.parts_ofNames (hisName e' he')), List.append_cancel_left_eq]
    exact List.map_inj_right fun _ _ hname => FilePath.Part.name.inj hname
  · rw [hfiles]
    intro hfree e path hpath halone
    obtain ⟨he, rfl⟩ := hfile hpath
    obtain ⟨module, html, q, hmodule, hrender, hq, hkept⟩ := hown e he
    refine ⟨module, html, hmodule, hrender, readBytes_file hq (hkept fun e' he' hne hq' => ?_) ?_⟩
    · rw [pageFile_eq hformed hlisted he] at hq
      rw [pageFile_eq hformed hlisted he'] at hq'
      have hsame := hfree.names_eq houtput (hisName e he) (Url.pageNames_ne_nil _) (hisName e' he')
        (Url.pageNames_ne_nil _) hq hq'
      rcases (pageNames_eq_iff_of_mem hformed hlisted he he').mp hsame with heq | hshadows | hshadows
      · exact hne heq.symm
      · exact (halone e' he').1 hshadows
      · exact (halone e' he').2 hshadows
    · rw [pageFile_eq hformed hlisted he, FilePath.getLast?_join _ (Url.pageNames_ne_nil _) (hisName e he)]
      exact FilePath.getLast?_ofNames (Url.pageNames_ne_nil _) (hisName e he)

/-! ## Small sites -/

namespace SmallSite

/-- A site whose shells show the entry of their page. -/
def site : BuildContext :=
  .ofProject ⟨"/p", "/p/content", "/p/components", "/p/public", "/p/styles", "/p/dist", none⟩
    ⟨"Site", none, "en", none⟩ [.output (.member (.variable "page") "entry")]

/-- A tree of empty files in a few directories. -/
def files (directories documents : List (List String)) : FileTree :=
  ⟨directories.map (fun d => (d.map String.toList, .directory)) ++
    documents.map fun d => (d.map String.toList, .file [])⟩

/-- What has been made of some entries when their shells are written. -/
def start (t : FileTree) (entries : Table FilePath) : RunState :=
  ⟨⟨t, .ofSettings ⟨"/p/content", none, none⟩⟩,
    ((Outputs.empty.insert .entries entries).insert .modules
      (entries.mapValues fun _ => "/p/dist/a.js".toList)).insert .stylesheet "site.css".toList⟩

/-- What writing the shells leads to. -/
def written (s : RunState) : Except StepError Unit × RunState :=
  (writeShells.run site (.start ⟨false, true, none⟩)).run s

/-- Two posts of one month. -/
def posts : FileTree :=
  files [["p"], ["p", "content"], ["p", "content", "may"]]
    [["p", "content", "may", "first.md"], ["p", "content", "may", "second.md"]]

def postEntries : Table FilePath :=
  [("may/first".toList, "/p/content/may/first.md".toList), ("may/second".toList, "/p/content/may/second.md".toList)]

theorem linkFree_posts (p : RealPath) : posts.LinkFree p := by
  intro ns hne target hget
  have hmem := mem_of_get? (List.append_ne_nil_of_right_ne_nil p hne) hget
  simp [posts, files] at hmem

theorem first_post_keeps_shell :
    let s := start posts postEntries
    posts.WellFormed ∧ Source.entries posts "/p/content" = .ok postEntries ∧
      s.outputs.get .entries = .ok postEntries ∧ s.files.Rooted ∧ site.paths.output ≠ [] ∧
      (written s).1 = .ok () ∧ ∃ files first second html, (written s).2.outputs.get .htmlFiles = .ok files ∧
        files.get? "may/first" = some first ∧ files.get? "may/second" = some second ∧
        FilePath.same first second = false ∧
        Shell.render site.shell (shellContext site none "may/first" "site.css" "/p/dist/a.js" []) = .ok html ∧
        (written s).2.files.readBytes first = .ok (Text.bytes html) := by
  intro s
  have hformed : posts.WellFormed := by decide
  have hlisted : Source.entries posts "/p/content" = .ok postEntries := by decide +kernel
  have hentries : s.outputs.get .entries = .ok postEntries := rfl
  have hnodup : postEntries.names.Nodup := by decide
  have houtput : site.paths.output ≠ [] := by decide
  have hok : (written s).1 = .ok () := by decide +kernel
  cases hrun : written s with
  | mk result s' =>
    rw [hrun] at hok
    obtain rfl : result = .ok () := hok
    obtain ⟨changed, hextends⟩ := writeShells_extends hentries hnodup hformed.rooted hrun
    have hfree : s'.files.LinkFreeBelow site.paths.output :=
      fun p _ => hextends.linkFree_iff.mpr (linkFree_posts p)
    obtain ⟨files, modules, stylesheet, pages, hfiles, hmodules, hstylesheet, hpages, hnames, hsame, hown⟩ :=
      writeShells_file_per_page hformed hlisted hentries hformed.rooted houtput hrun
    have hget : s.outputs.get .modules = .ok (postEntries.mapValues fun _ => "/p/dist/a.js".toList) := rfl
    have hget' : s.outputs.get .stylesheet = .ok "site.css".toList := rfl
    obtain rfl := Except.ok.inj (hget.symm.trans hmodules)
    obtain rfl := Except.ok.inj (hget'.symm.trans hstylesheet)
    obtain rfl : pages = [] := by simpa [RunRecord.start] using hpages
    have hpath (e : Text) (he : e ∈ postEntries.names) : ∃ path, files.get? e = some path := by
      apply Option.ne_none_iff_exists'.mp
      rw [ne_eq, Table.get?_eq_none_iff, hnames, not_not]
      exact he
    obtain ⟨first, hfirst⟩ := hpath "may/first" (by decide)
    obtain ⟨second, hsecond⟩ := hpath "may/second" (by decide)
    obtain ⟨module, html, hmodule, hrender, hread⟩ := hown hfree _ first hfirst (by decide)
    obtain rfl : "/p/dist/a.js".toList = module := Option.some.inj hmodule
    have hapart : ¬FilePath.same first second = true := by
      rw [hsame _ _ first second hfirst hsecond]
      decide
    refine ⟨hformed, hlisted, hentries, hformed.rooted, houtput, rfl, files, first, second, html, hfiles, hfirst,
      hsecond, by simpa using hapart, hrender, hread⟩

/-- A page next to the index of a directory that is called like it. -/
def guide : FileTree :=
  files [["p"], ["p", "content"], ["p", "content", "guide"]]
    [["p", "content", "guide.md"], ["p", "content", "guide", "index.md"]]

def guideEntries : Table FilePath :=
  [("guide".toList, "/p/content/guide.md".toList), ("guide/index".toList, "/p/content/guide/index.md".toList)]

/-- The index takes the file of the page. -/
theorem guide_page_overwritten :
    let s := start guide guideEntries
    guide.WellFormed ∧ Source.entries guide "/p/content" = .ok guideEntries ∧
      s.outputs.get .entries = .ok guideEntries ∧ (written s).1 = .ok () ∧
      Except.map (fun files : Table FilePath => (files.get? "guide", files.get? "guide/index"))
          ((written s).2.outputs.get .htmlFiles) =
        .ok (some "/p/dist/guide/index.html".toList, some "/p/dist/guide/index.html".toList) := by
  intro s
  exact ⟨by decide, by decide +kernel, rfl, by decide +kernel, by decide +kernel⟩

end SmallSite

end Step

end StaticSite
