import StaticSite.Proofs.Build.Shells
import StaticSite.Proofs.FileTree.Directories

/-!
# Index files

The page of an entry is the index file in the directory of its URL, unless the URL has a dot: then it is a file
that is called like the URL. Where no URL has a dot and nothing stands in the way, all pages are written.
-/
namespace StaticSite

open FileTree

namespace Url

open FilePath (IsName ofNames)

variable {ns : List Text}

/-- The index file in the directory of a URL. -/
def indexFile (url : Text) (output : FilePath) : FilePath :=
  FilePath.join (FilePath.join output (url.drop 1)) pageName

theorem dot_mem_ofEntry_iff (hne : ns ≠ []) (h : ∀ n ∈ ns, IsName n) :
    '.' ∈ ofEntry (ofNames ns) none ↔ ∃ d ∈ directoryNames ns, '.' ∈ d := by
  have hslash : '.' ≠ '/' := by decide
  rw [ofEntry_ofNames hne h, List.mem_cons, mem_ofNames_iff hslash, or_iff_right hslash]

theorem isName_indexNames (h : ∀ n ∈ ns, IsName n) : ∀ n ∈ directoryNames ns ++ [pageName], IsName n :=
  List.forall_mem_append.mpr ⟨isName_directoryNames h, List.forall_mem_singleton.mpr (by decide)⟩

theorem indexFile_ofEntry (hne : ns ≠ []) (h : ∀ n ∈ ns, IsName n) (output : FilePath) :
    indexFile (ofEntry (ofNames ns) none) output =
      FilePath.join output (ofNames (directoryNames ns ++ [pageName])) := by
  rw [indexFile, ofEntry_ofNames hne h, List.drop_one, List.tail_cons]
  by_cases hnil : directoryNames ns = []
  · rw [hnil]
    by_cases houtput : output = []
    · rw [houtput]
      rfl
    · exact FilePath.join_nil_join houtput pageName
  · exact FilePath.join_join output hnil (List.cons_ne_nil pageName []) (isName_indexNames h)

/-- The page of an entry is the index file of its URL just when the URL has no dot, and otherwise it is called like
the URL. -/
theorem outputFile_ofEntry_cases (hne : ns ≠ []) (h : ∀ n ∈ ns, IsName n) (output : FilePath) :
    let url := ofEntry (ofNames ns) none
    outputFile url output = (if '.' ∈ url then FilePath.join output (url.drop 1) else indexFile url output) ∧
      (FilePath.same (outputFile url output) (indexFile url output) = true ↔ '.' ∉ url) := by
  intro url
  have hfile : outputFile url output = FilePath.join output (ofNames (pageNames ns)) := outputFile_ofEntry hne h output
  have hindex : indexFile url output = FilePath.join output (ofNames (directoryNames ns ++ [pageName])) :=
    indexFile_ofEntry hne h output
  have hdot : '.' ∈ url ↔ ∃ d ∈ directoryNames ns, '.' ∈ d := dot_mem_ofEntry_iff hne h
  rw [hfile, hindex, pageNames, fileNames]
  by_cases hmem : '.' ∈ url
  · have hdrop : url.drop 1 = ofNames (directoryNames ns) := by
      rw [show url = _ from ofEntry_ofNames hne h]
      rfl
    have hlonger : FilePath.parts (FilePath.join output (ofNames (directoryNames ns))) ≠
        FilePath.parts (FilePath.join output (ofNames (directoryNames ns ++ [pageName]))) := by
      rw [FilePath.parts_join_of_names _ (FilePath.parts_ofNames (isName_directoryNames h)),
        FilePath.parts_join_of_names _ (FilePath.parts_ofNames (isName_indexNames h))]
      simp
    rw [if_pos hmem, if_pos (hdot.mp hmem), hdrop, FilePath.same, beq_iff_eq]
    exact ⟨rfl, fun hsame => absurd hsame hlonger, fun hnot => absurd hmem hnot⟩
  · rw [if_neg hmem, if_neg (mt hdot.mpr hmem), FilePath.same]
    exact ⟨rfl, fun _ => hmem, fun _ => beq_self_eq_true _⟩

end Url

namespace FileTree

variable {t t' : FileTree} {base : RealPath} {way : List FilePath.Part} {os ds ds' ns : List Text}

/-- There is room for the index file of a directory: what leads to it is missing or a directory, and what stands in
its own place is a file, if anything. -/
structure HasRoom (t : FileTree) (base : RealPath) (ns : List Text) : Prop where
  way : t.Open base ns
  place : t.get? (base ++ (ns ++ [Url.pageName])) = none ∨
    ∃ content, t.get? (base ++ (ns ++ [Url.pageName])) = some (.file content)

theorem HasRoom.plain (h : t.HasRoom base ns) : t.Plain base (ns ++ [Url.pageName]) := by
  intro ms hne hms target hlink
  rcases List.prefix_concat_iff.mp hms with rfl | hms
  · rcases h.place with hnone | ⟨content, hfile⟩
    · exact absurd (hnone.symm.trans hlink) nofun
    · exact absurd (hfile.symm.trans hlink) nofun
  · exact h.way.plain ms hne hms target hlink

theorem HasRoom.not_directory (h : t.HasRoom base ns) :
    t.get? (base ++ (ns ++ [Url.pageName])) ≠ some .directory := by
  rcases h.place with hnone | ⟨content, hfile⟩
  · rw [hnone]
    exact nofun
  · rw [hfile]
    exact nofun

/-- What is added when an index file is written: directories on the way to it, and the file. -/
def AddsIndex (base : RealPath) (ns : List Text) (t t' : FileTree) : Prop :=
  ∀ q, t'.get? q = t.get? q ∨ (q <+: base ++ ns ∧ t'.get? q = some .directory) ∨
    (q = base ++ (ns ++ [Url.pageName]) ∧ ∃ content, t'.get? q = some (.file content))

theorem AddsIndex.trans {t'' : FileTree} (h : AddsIndex base ns t t') (h' : AddsIndex base ns t' t'') :
    AddsIndex base ns t t'' := by
  intro q
  rcases h' q with hsame | hadded
  · rw [hsame]
    exact h q
  · exact .inr hadded

/-- An index file does not take the room for another one, when no directory is called like an index file. -/
theorem HasRoom.of_addsIndex (h : t.HasRoom base (os ++ ds)) (hds : Url.pageName ∉ ds) (hds' : Url.pageName ∉ ds')
    (hadds : AddsIndex base (os ++ ds') t t') : t'.HasRoom base (os ++ ds) where
  way ms hms := by
    rcases hadds (base ++ ms) with hsame | ⟨-, hdirectory⟩ | ⟨hplace, -⟩
    · rw [hsame]
      exact h.way ms hms
    · exact .inr hdirectory
    · -- the file would be a directory of the other
      rw [List.append_cancel_left_eq] at hplace
      rw [hplace, List.append_assoc, List.prefix_append_right_inj] at hms
      exact absurd (hms.subset (by simp)) hds
  place := by
    rcases hadds (base ++ (os ++ ds ++ [Url.pageName])) with hsame | ⟨hbegins, -⟩ | ⟨-, hfile⟩
    · rw [hsame]
      exact h.place
    · rw [List.prefix_append_right_inj, List.append_assoc, List.prefix_append_right_inj] at hbegins
      exact absurd (hbegins.subset (by simp)) hds'
    · exact .inr hfile

/-- An index file is written to a directory that has room for it. -/
theorem HasRoom.writeText (h : t.HasRoom base ns) (hbase : t.Base way base) (hrooted : t.Rooted)
    (hdirectory : t.get? (base ++ ns) = some .directory) {path : FilePath}
    (hparts : FilePath.parts path = way ++ (ns ++ [Url.pageName]).map .name) (text : Text) :
    ∃ t', t.writeText path text = .ok t' ∧ t'.Base way base ∧ t'.Rooted ∧ AddsIndex base ns t t' := by
  have hne : base ++ (ns ++ [Url.pageName]) ≠ [] := by simp
  refine ⟨t.set (base ++ (ns ++ [Url.pageName])) (.file (Text.bytes text)), ?_, ?_, ?_, fun q => ?_⟩
  · rw [hbase.writeText hrooted h.plain hparts hdirectory text, if_neg h.not_directory]
  · exact hbase.of_extends (extends_set_file hne h.not_directory (h.plain _ (by simp) List.prefix_rfl) _)
  · rw [← List.append_assoc]
    refine hrooted.set hdirectory fun hget => absurd hget ?_
    rw [List.append_assoc]
    exact h.not_directory
  · rw [get?_set hne]
    split_ifs with hq
    · exact .inr (.inr ⟨hq, _, rfl⟩)
    · exact .inl rfl

end FileTree

namespace Action

variable {s : RunState} {path : FilePath} {base : RealPath} {way : List FilePath.Part} {ns : List Text} {n : Text}

/-- The directory of a path is made where nothing stands in the way. -/
theorem run_makeParent (hbase : s.files.Base way base) (hrooted : s.files.Rooted) (hopen : s.files.Open base ns)
    (hparts : FilePath.parts path = way ++ (ns ++ [n]).map .name) :
    ∃ t, (makeParent path).run s = (.ok (), s.withFiles t) ∧ t.Rooted ∧ Extends [] s.files t ∧
      t.get? (base ++ ns) = some .directory ∧
        ∀ q, t.get? q = s.files.get? q ∨ q <+: base ++ ns ∧ t.get? q = some .directory := by
  have hup : FilePath.parts path = (way ++ ns.map .name) ++ [.name n] := by simp [hparts]
  obtain ⟨parent, hparent, hparts'⟩ := FilePath.parts_parent? hup
  have hlength : ns.length ≤ parent.length + 1 := by
    have hle := FilePath.length_parts_le parent
    rw [hparts', List.length_append, List.length_map] at hle
    omega
  obtain ⟨t, hmade, hdirectory, hgrowth⟩ := hbase.createDirectoriesFrom hrooted hopen hparts' hlength
  obtain ⟨hrooted', hextends⟩ := createDirectoriesFrom_spec hrooted hmade
  refine ⟨t, ?_, hrooted', hextends, hdirectory, hgrowth⟩
  have hrun : (s.files.createDirectories parent) = .ok t := hmade
  rw [makeParent, hparent]
  dsimp only
  rw [run_changeFiles, hrun]

end Action

namespace Step

open Action

variable {context : BuildContext} {record : RunRecord} {s s' : RunState}

/-! ## Pages that can be written -/

/-- What the shells of pages are made from. -/
structure ShellInputs where
  modules : Table FilePath
  stylesheet : Text
  pages : Table Text

/-- The outputs of earlier steps hold what shells are made from. -/
structure ShellInputs.Read (i : ShellInputs) (record : RunRecord) (s : RunState) : Prop where
  modules : s.outputs.get .modules = .ok i.modules
  stylesheet : s.outputs.get .stylesheet = .ok i.stylesheet
  pages : if record.options.prerender then s.outputs.get .prerendered = .ok i.pages else i.pages = []

/-- The text is the shell of an entry. -/
def ShellInputs.IsShell (i : ShellInputs) (context : BuildContext) (record : RunRecord) (entry html : Text) : Prop :=
  ∃ module, i.modules.get? entry = some module ∧
    Shell.render context.shell (shellContext context record.options.base entry i.stylesheet module
      ((i.pages.get? entry).getD [])) = .ok html

/-- The names of the directory of an entry's page. -/
abbrev pageDirectory (entry : Text) : List Text := Url.directoryNames (Text.splitOn '/' entry)

variable {base : RealPath} {way : List FilePath.Part} {os ns : List Text} {entry html : Text}

/-- A shell is written where there is room for it. -/
theorem run_writeShell {c : ShellContext} (hrender : Shell.render context.shell c = .ok html)
    (hbase : s.files.Base way base) (hrooted : s.files.Rooted) (hroom : s.files.HasRoom base ns)
    (hparts : FilePath.parts (pageFile context entry) = way ++ (ns ++ [Url.pageName]).map .name) :
    ∃ s', (writeShell context c entry).run s = (.ok (pageFile context entry), s') ∧ s'.outputs = s.outputs ∧
      s'.files.Base way base ∧ s'.files.Rooted ∧ AddsIndex base ns s.files s'.files := by
  obtain ⟨t, hmake, hrooted', hextends, hdirectory, hgrowth⟩ := run_makeParent hbase hrooted hroom.way hparts
  have hadds : AddsIndex base ns s.files t := fun q => (hgrowth q).imp_right .inl
  have hroom' : t.HasRoom base ns := by
    rw [← List.append_nil ns] at hroom hadds ⊢
    exact hroom.of_addsIndex List.not_mem_nil List.not_mem_nil hadds
  obtain ⟨t', hwrite, hbase', hrooted'', hadds'⟩ :=
    hroom'.writeText (hbase.of_extends hextends) hrooted' hdirectory hparts html
  refine ⟨s.withFiles t', ?_, rfl, hbase', hrooted'', hadds.trans hadds'⟩
  have hchange : (changeFiles (pageFile context entry) (·.writeText (pageFile context entry) html)).run
      (s.withFiles t) = (.ok (), s.withFiles t') := by
    rw [run_changeFiles, show (s.withFiles t).files = t from rfl, hwrite]
    rfl
  rw [writeShell, hrender, run_bind_of_ok (run_ofExcept _ html s)]
  exact (run_bind_of_ok hmake _).trans (run_bind_of_ok hchange _)

/-- The shells of all entries are written when there are shells for them and room for their pages, and no directory
of a page is called like an index file. -/
theorem run_writeShellsOf {i : ShellInputs} {entries : List Text}
    (hshells : ∀ e ∈ entries, ∃ html, i.IsShell context record e html)
    (hparts : ∀ e ∈ entries, FilePath.parts (pageFile context e) =
      way ++ (os ++ pageDirectory e ++ [Url.pageName]).map .name)
    (hnames : ∀ e ∈ entries, Url.pageName ∉ pageDirectory e)
    (hbase : s.files.Base way base) (hrooted : s.files.Rooted)
    (hrooms : ∀ e ∈ entries, s.files.HasRoom base (os ++ pageDirectory e)) :
    ∃ files s', (writeShellsOf context record.options.base i.stylesheet i.modules i.pages entries).run s =
      (.ok files, s') ∧ s'.outputs = s.outputs := by
  induction entries generalizing s with
  | nil => exact ⟨[], s, rfl, rfl⟩
  | cons entry entries ih =>
    obtain ⟨⟨html, module, hmodule, hrender⟩, hshells⟩ := List.forall_mem_cons.mp hshells
    obtain ⟨hfile, hparts⟩ := List.forall_mem_cons.mp hparts
    obtain ⟨hname, hnames⟩ := List.forall_mem_cons.mp hnames
    obtain ⟨hroom, hrooms⟩ := List.forall_mem_cons.mp hrooms
    obtain ⟨s₁, hwrite, hout, hbase₁, hrooted₁, hadds⟩ := run_writeShell hrender hbase hrooted hroom hfile
    -- the pages that are left keep their room
    obtain ⟨files, s', hrest, hout'⟩ := ih hshells hparts hnames hbase₁ hrooted₁ fun e he =>
      (hrooms e he).of_addsIndex (hnames e he) hname hadds
    refine ⟨(entry, pageFile context entry) :: files, s', ?_, hout'.trans hout⟩
    rw [writeShellsOf, hmodule]
    exact (run_bind_of_ok hwrite _).trans (run_bind_of_ok hrest _)

/-- Writing the shells succeeds when what it reads is there and those of the entries are written. -/
theorem run_writeShells {i : ShellInputs} {entries files : Table FilePath}
    (hentries : s.outputs.get .entries = .ok entries) (hread : i.Read record s)
    (hnew : s.outputs.contains OutputKey.htmlFiles.name = false)
    (hrun : (writeShellsOf context record.options.base i.stylesheet i.modules i.pages entries.names).run s =
      (.ok files, s')) (hout : s'.outputs = s.outputs) :
    ∃ s'', (writeShells.run context record).run s = (.ok (), s'') := by
  have hlast {pages : Table Text} (hpages : i.pages = pages) : ∃ s'', (do
      let files ← writeShellsOf context record.options.base i.stylesheet i.modules pages entries.names
      Action.write .htmlFiles files).run s = (.ok (), s'') := by
    rw [← hout] at hnew
    rw [← hpages, run_bind_of_ok hrun]
    exact ⟨_, run_write _ hnew⟩
  have hpages := hread.pages
  dsimp only [writeShells]
  rw [run_bind_of_ok (run_read hentries), run_bind_of_ok (run_read hread.modules),
    run_bind_of_ok (run_read hread.stylesheet)]
  split_ifs at hpages ⊢
  · rw [run_bind_of_ok (run_read hpages)]
    exact hlast rfl
  · exact hlast hpages

/-! ## The pages of a content directory -/

variable {tree : FileTree} {content : FilePath} {entries : Table FilePath}

theorem pageFile_cases (context : BuildContext) (hformed : tree.WellFormed)
    (hlisted : Source.entries tree content = .ok entries) {e : Text} (he : e ∈ entries.names) :
    let url := Url.ofEntry e none
    let index := Url.indexFile url context.paths.output
    pageFile context e = (if '.' ∈ url then FilePath.join context.paths.output (url.drop 1) else index) ∧
      (FilePath.same (pageFile context e) index = true ↔ '.' ∉ url) := by
  obtain ⟨hne, hnames, heq⟩ := exists_names_of_entry hformed hlisted he
  have hcases := Url.outputFile_ofEntry_cases hne hnames context.paths.output
  rwa [← heq] at hcases

/-- The page of an entry whose URL has no dot is an index file below the output directory. -/
theorem parts_pageFile (hformed : tree.WellFormed) (hlisted : Source.entries tree content = .ok entries)
    {e : Text} (he : e ∈ entries.names) (hdot : '.' ∉ Url.ofEntry e none) :
    FilePath.parts (pageFile context e) =
      FilePath.parts context.paths.output ++ (pageDirectory e ++ [Url.pageName]).map .name := by
  obtain ⟨hne, hnames, heq⟩ := exists_names_of_entry hformed hlisted he
  have hpage : Url.pageNames (Text.splitOn '/' e) = pageDirectory e ++ [Url.pageName] := by
    rw [heq, Url.dot_mem_ofEntry_iff hne hnames] at hdot
    exact if_neg hdot
  rw [pageFile_eq hformed hlisted he, FilePath.parts_join_of_names _ (FilePath.parts_ofNames
    (Url.isName_pageNames hnames)), hpage]

theorem pageName_notMem_pageDirectory (hformed : tree.WellFormed)
    (hlisted : Source.entries tree content = .ok entries) {e : Text} (he : e ∈ entries.names)
    (hdot : '.' ∉ Url.ofEntry e none) : Url.pageName ∉ pageDirectory e := by
  obtain ⟨hne, hnames, heq⟩ := exists_names_of_entry hformed hlisted he
  intro hmem
  rw [heq, Url.dot_mem_ofEntry_iff hne hnames] at hdot
  exact hdot ⟨Url.pageName, hmem, by decide⟩

theorem getLast?_pageFile (hformed : tree.WellFormed) (hlisted : Source.entries tree content = .ok entries)
    {e : Text} (he : e ∈ entries.names) : (pageFile context e).getLast? ≠ some '/' := by
  have hnames := Url.isName_pageNames (exists_names_of_entry hformed hlisted he).2.1
  rw [pageFile_eq hformed hlisted he, FilePath.getLast?_join _ (Url.pageNames_ne_nil _) hnames]
  exact FilePath.getLast?_ofNames (Url.pageNames_ne_nil _) hnames

/-- Without links below the output directory, pages in one place have one path. -/
theorem pageFile_eq_of_resolve {t : FileTree} {q : RealPath} (hformed : tree.WellFormed)
    (hlisted : Source.entries tree content = .ok entries) (houtput : context.paths.output ≠ [])
    (hfree : t.LinkFreeBelow context.paths.output) {e e' : Text} (he : e ∈ entries.names) (he' : e' ∈ entries.names)
    (hq : t.resolve true (pageFile context e) = .ok q) (hq' : t.resolve true (pageFile context e') = .ok q) :
    pageFile context e = pageFile context e' := by
  have hnames {e : Text} (he : e ∈ entries.names) :=
    Url.isName_pageNames (exists_names_of_entry hformed hlisted he).2.1
  rw [pageFile_eq hformed hlisted he] at hq ⊢
  rw [pageFile_eq hformed hlisted he'] at hq' ⊢
  rw [hfree.names_eq houtput (hnames he) (Url.pageNames_ne_nil _) (hnames he') (Url.pageNames_ne_nil _) hq hq']

/-- When the shells are written, every entry has a file for its page: the index file of its URL just when the URL
has no dot, and a file that is called like the URL otherwise. The file holds the shell of the entry, unless another
entry has the same one. Where no URL has a dot and there is room for all pages, the shells are written. -/
theorem writeShells_index_files (hformed : tree.WellFormed) (hlisted : Source.entries tree content = .ok entries)
    (hentries : s.outputs.get .entries = .ok entries) (hrooted : s.files.Rooted) :
    let output := context.paths.output
    (∀ s', (writeShells.run context record).run s = (.ok (), s') →
      ∃ (i : ShellInputs) (files : Table FilePath), i.Read record s ∧
        s'.outputs.get .htmlFiles = .ok files ∧ files.names = entries.names ∧
        ∀ e ∈ entries.names, ∃ path,
          let url := Url.ofEntry e none
          files.get? e = some path ∧
          path = (if '.' ∈ url then FilePath.join output (url.drop 1) else Url.indexFile url output) ∧
          (FilePath.same path (Url.indexFile url output) = true ↔ '.' ∉ url) ∧
          (output ≠ [] → s'.files.LinkFreeBelow output → (∀ e', e' ≠ e → files.get? e' ≠ some path) →
            ∃ html, i.IsShell context record e html ∧ s'.files.readBytes path = .ok (Text.bytes html))) ∧
    (∀ (i : ShellInputs) (way : List FilePath.Part) (base : RealPath) (os : List Text), i.Read record s →
      s.outputs.contains OutputKey.htmlFiles.name = false →
      FilePath.parts output = way ++ os.map .name → s.files.Base way base →
      (∀ e ∈ entries.names, '.' ∉ Url.ofEntry e none ∧ s.files.HasRoom base (os ++ pageDirectory e) ∧
        ∃ html, i.IsShell context record e html) →
      ∃ s', (writeShells.run context record).run s = (.ok (), s')) := by
  intro output
  constructor
  · intro s' hrun
    have hnodup := (Source.entries_spec hformed hlisted).1
    obtain ⟨modules, files, stylesheet, pages, s₁, hmodules, hstylesheet, hpages, hshells, hfiles, hhtml⟩ :=
      writeShells_ok hentries hrun
    obtain ⟨rfl, -, -, -, hown⟩ := writeShellsOf_ok hrooted hnodup hshells
    have hnames : Table.names (entries.names.map fun e => (e, pageFile context e)) = entries.names := by
      simp [Table.names]
    refine ⟨⟨modules, stylesheet, pages⟩, _, ⟨hmodules, hstylesheet, hpages⟩, hhtml, hnames, ?_⟩
    intro e he
    obtain ⟨hpath, hindex⟩ := pageFile_cases context hformed hlisted he
    have hget {e : Text} (he : e ∈ entries.names) :
        Table.get? e (entries.names.map fun e => (e, pageFile context e)) = some (pageFile context e) := by
      rw [← hnames] at hnodup
      exact Table.get?_of_mem hnodup (List.mem_map_of_mem he)
    refine ⟨pageFile context e, hget he, hpath, hindex, fun houtput hfree halone => ?_⟩
    obtain ⟨module, html, q, hmodule, hrender, hq, hkept⟩ := hown e he
    rw [hfiles] at hfree ⊢
    have hown' : s₁.files.get? q = some (.file (Text.bytes html)) := by
      refine hkept fun e' he' hne hq' => halone e' hne ?_
      rw [hget he', pageFile_eq_of_resolve hformed hlisted houtput hfree he' he hq' hq]
    exact ⟨html, ⟨module, hmodule, hrender⟩, readBytes_file hq hown' (getLast?_pageFile hformed hlisted he)⟩
  · intro i way base os hread hnew hparts hbase hpages
    have hshells : ∀ e ∈ entries.names, ∃ html, i.IsShell context record e html := fun e he => (hpages e he).2.2
    obtain ⟨files, s₁, hrun, hout⟩ := run_writeShellsOf hshells
      (fun e he => by
        rw [parts_pageFile hformed hlisted he (hpages e he).1, hparts]
        simp)
      (fun e he => pageName_notMem_pageDirectory hformed hlisted he (hpages e he).1) hbase hrooted
      (fun e he => (hpages e he).2.1)
    exact run_writeShells hentries hread hnew hrun hout

/-! ## Small sites -/

namespace SmallSite

/-- What the shells of the posts are made from. -/
def postInputs : ShellInputs := ⟨postEntries.mapValues fun _ => "/p/dist/a.js".toList, "site.css", []⟩

theorem render_site (base : Option Text) (e stylesheet : Text) (module : FilePath) (content : Text) :
    Shell.render site.shell (shellContext site base e stylesheet module content) = .ok (Text.escape e) := by
  change Except.ok (Template.valueText (.string (Text.escape e)) ++ []) = _
  rw [Template.valueText, List.append_nil]

theorem posts_fit (e : Text) (he : e ∈ postEntries.names) :
    '.' ∉ Url.ofEntry e none ∧ posts.HasRoom [] (["p".toList, "dist".toList] ++ pageDirectory e) ∧
      ∃ html, postInputs.IsShell site (.start ⟨false, true, none⟩) e html := by
  have hnames : postEntries.names = ["may/first".toList, "may/second".toList] := rfl
  rw [hnames] at he
  rcases List.mem_pair.mp he with rfl | rfl
  · exact ⟨by decide, ⟨by decide, .inl (by decide)⟩, _, "/p/dist/a.js".toList, rfl, render_site ..⟩
  · exact ⟨by decide, ⟨by decide, .inl (by decide)⟩, _, "/p/dist/a.js".toList, rfl, render_site ..⟩

theorem first_post_at_index_file :
    let s := start posts postEntries
    posts.WellFormed ∧ Source.entries posts "/p/content" = .ok postEntries ∧
      s.outputs.get .entries = .ok postEntries ∧ s.files.Rooted ∧
      ∃ s' files, written s = (.ok (), s') ∧ s'.outputs.get .htmlFiles = .ok files ∧
        files.get? "may/first" = some "/p/dist/may/first/index.html".toList ∧
        s'.files.readBytes "/p/dist/may/first/index.html" = .ok (Text.bytes "may&#x2F;first") := by
  intro s
  have hformed : posts.WellFormed := by decide
  have hlisted : Source.entries posts "/p/content" = .ok postEntries := by decide +kernel
  have hentries : s.outputs.get .entries = .ok postEntries := rfl
  obtain ⟨hwritten, hwrites⟩ := @writeShells_index_files site (.start ⟨false, true, none⟩) s posts "/p/content"
    postEntries hformed hlisted hentries hformed.rooted
  obtain ⟨s', hrun⟩ := hwrites postInputs [.root] [] ["p".toList, "dist".toList] ⟨rfl, rfl, rfl⟩ rfl (by decide)
    ⟨rfl, rfl⟩ posts_fit
  obtain ⟨i, files, hread, hfiles, hnames, hpages⟩ := hwritten s' hrun
  have hpath {e : Text} {path : FilePath} (hpath : files.get? e = some path) :
      e ∈ postEntries.names ∧ path = Url.indexFile (Url.ofEntry e none) site.paths.output := by
    have he : e ∈ files.names := List.mem_map_of_mem (Table.mem_of_get? hpath)
    rw [hnames] at he
    obtain ⟨path', hget, hplace, -⟩ := hpages e he
    rw [if_neg (posts_fit e he).1] at hplace
    exact ⟨he, (Option.some.inj (hpath.symm.trans hget)).trans hplace⟩
  obtain ⟨path, hget, hplace, -, hshell⟩ := hpages "may/first" (by decide)
  obtain rfl : path = "/p/dist/may/first/index.html".toList := hplace.trans (by decide)
  have hfree : s'.files.LinkFreeBelow site.paths.output := by
    obtain ⟨changed, hextends⟩ := writeShells_extends hentries (by decide) hformed.rooted hrun
    exact fun p _ => hextends.linkFree_iff.mpr (linkFree_posts p)
  obtain ⟨html, ⟨module, -, hrender⟩, hbytes⟩ := hshell (by decide) hfree fun e hne hsame => by
    have hother : ∀ e ∈ postEntries.names, e ≠ "may/first".toList →
        "/p/dist/may/first/index.html".toList ≠ Url.indexFile (Url.ofEntry e none) site.paths.output := by decide
    exact hother e (hpath hsame).1 hne (hpath hsame).2
  obtain rfl := Except.ok.inj ((render_site ..).symm.trans hrender)
  exact ⟨hformed, hlisted, hentries, hformed.rooted, s', files, hrun, hfiles, hget, hbytes⟩

/-- A page in the directory of a version. -/
def versions : FileTree :=
  files [["p"], ["p", "content"], ["p", "content", "v1.2"]] [["p", "content", "v1.2", "guide.md"]]

def versionEntries : Table FilePath := [("v1.2/guide".toList, "/p/content/v1.2/guide.md".toList)]

/-- The page is called like its URL, and nothing is written to the index file. -/
theorem version_page_without_index :
    let s := start versions versionEntries
    let index := Url.indexFile (Url.ofEntry "v1.2/guide" none) site.paths.output
    versions.WellFormed ∧ Source.entries versions "/p/content" = .ok versionEntries ∧
      s.outputs.get .entries = .ok versionEntries ∧ (written s).1 = .ok () ∧
      Except.map (fun files : Table FilePath => files.get? "v1.2/guide") ((written s).2.outputs.get .htmlFiles) =
        .ok (some "/p/dist/v1.2/guide".toList) ∧
      FilePath.same "/p/dist/v1.2/guide" index = false ∧
      (written s).2.files.readBytes index = .error .notDirectory := by
  intro s index
  exact ⟨by decide, by decide +kernel, rfl, by decide +kernel, by decide +kernel, by decide, by decide +kernel⟩

end SmallSite

end Step

end StaticSite
