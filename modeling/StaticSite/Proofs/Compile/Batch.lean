import Mathlib.Data.List.Nodup
import StaticSite.Proofs.Compile.Places
import StaticSite.Proofs.Compile.Tasks
import StaticSite.Proofs.FileTree.Directories

/-!
# Batches

Entries that are compiled together. What comes of each can be told from the workspace before any of them is
compiled: its module, whether there is room for it, and what is noted about it.

While the entries are compiled, the workspace differs from the one at the start only by what they do: each
notes what it finds under its own name, makes the directories of its module, and writes it.
-/
namespace StaticSite

/-- Entries that are compiled together. Their modules lie below some names in a directory that is there. -/
structure Batch where
  request : BundleRequest
  registry : Registry
  start : Workspace
  /-- Where each entry stands below the content root. -/
  place : FilePath → DocumentPlace
  /-- What leads to the directory that is there. -/
  way : List FilePath.Part
  base : RealPath
  names : List Text

namespace Batch

open FileTree

/-! ## What comes of an entry -/

section

variable (b : Batch) (p : FilePath)

def Registered (path : FilePath) : Prop := ∃ name, b.registry.resolve? name = some path

/-- Whether a component is taken to have a default export. -/
def verdict (path : FilePath) : Bool :=
  (b.start.stage.exports.check b.start.files path).1.toOption.getD false

def file : SourceFile := .ofPath b.start.files p

/-- What comes of a component that an entry lacks. -/
def outcome (name : Text) : ImportOutcome :=
  (Injection.outcome b.start.files b.registry (b.file p) name b.start.stage.exports).1

/-- What is noted about an entry. -/
def reports : List Diagnostic :=
  match b.start.files.readText p with
  | .error _ => []
  | .ok text =>
    (Injection.inject b.start.files b.registry b.start.stage.settings.pageWrapper (b.file p)
      (Document.parse text) b.start.stage.exports).diagnostics

/-- What is recorded about an entry; for one that cannot be read, what was recorded before. -/
def metadata? : Option FrontMatter :=
  match b.start.files.readText p with
  | .error _ => b.start.stage.metadata.at? (b.file p).realPath
  | .ok text => some (Document.parse text).metadata

/-- The module of an entry, or why it has none. -/
def rendered : Except BundleError Text :=
  match b.start.files.readText p with
  | .error e => .error (.source (.unreadable p e))
  | .ok text =>
    let doc := (Bundle.transformed b.registry p text b.start).1
    match Bundle.unresolved? doc with
    | some component => .error (.unresolved p component)
    | none => .ok (Module.ofDocument doc)

/-- The directories of a module, below the base. -/
def directories : List Text := b.names ++ (b.place p).directories

/-- The names of a module, below the base. -/
def moduleNames (module : Text) : List Text :=
  b.names ++ (b.place p).moduleNames (Digest.short (Text.bytes module))

/-- Where a module is written. -/
def output (module : Text) : RealPath := b.base ++ b.moduleNames p module

/-- What comes of making the directories of a module where a file stands in the way. -/
def blockade : FileError :=
  if b.start.files.get? (b.base ++ b.directories p) = none then .notDirectory else .alreadyExists

/-- Whether there is room for a module: no file stands in the way of its directories, and no directory in its
place. -/
def stored (module : Text) : Except FileError Unit :=
  if b.start.files.Open b.base (b.directories p) then
    if b.start.files.get? (b.output p module) = some .directory then .error .isDirectory
    else .ok ()
  else .error (b.blockade p)

/-- What comes of an entry. -/
def answer : Except BundleError Artifact := do
  let module ← b.rendered p
  let out := Bundle.modulePath b.request p module
  match b.stored p module with
  | .ok () => .ok ⟨out, .entry⟩
  | .error e => .error (.write out e)

/-- An entry has a module, and no file stands in the way of its directories. -/
structure Plans (module : Text) : Prop where
  entry : p ∈ b.request.entries
  rendered : b.rendered p = .ok module
  free : b.start.files.Open b.base (b.directories p)

end

/-- The entries lie below the content root. They differ in their paths without extension, and in their files. -/
structure Distinct (b : Batch) : Prop where
  isAt : ∀ p ∈ b.request.entries, (b.place p).IsAt b.request.contentRoot p
  keys : (b.request.entries.map (OutputMap.pathKey b.request.contentRoot)).Nodup
  realPaths : (b.request.entries.map fun p => FilePath.parts (b.start.files.canonical p)).Nodup

/-- The entries do not get in each other's way. -/
structure Valid (b : Batch) : Prop extends b.Distinct where
  rooted : b.start.files.Rooted
  /-- A component is one file, however its path is written. -/
  spelled : ∀ path path', b.Registered path → b.Registered path' → FilePath.same path path' = true →
    (b.start.files.readText path').toOption = (b.start.files.readText path).toOption
  base : b.start.files.Base b.way b.base
  assets : FilePath.parts b.request.assets = b.way ++ b.names.map .name
  plain : ∀ ns, b.start.files.Plain b.base (b.names ++ ns)
  /-- No entry lies in a directory that is named like the module of another one. -/
  apart : ∀ p ∈ b.request.entries, ∀ p' ∈ b.request.entries, p ≠ p' → ∀ m m', b.rendered p = .ok m →
    b.rendered p' = .ok m' →
      ¬(b.place p).moduleNames (Digest.short (Text.bytes m)) <+: (b.place p').directories

/-! ## What entries do -/

/-- What becomes of a place when some entries are compiled. -/
inductive Alters (b : Batch) (who : FilePath → Prop) (q : RealPath) : Option Item → Option Item → Prop where
  | kept (item : Option Item) : Alters b who q item item
  | made {p : FilePath} {m : Text} {ns : List Text} (hp : who p) (plans : b.Plans p m)
      (hns : ns <+: b.directories p) (hq : q = b.base ++ ns) : Alters b who q none (some .directory)
  | written {p : FilePath} {m : Text} {item : Option Item} (hp : who p) (plans : b.Plans p m)
      (hq : q = b.output p m) (hitem : item = none ∨ ∃ content, item = some (.file content)) :
      Alters b who q item (some (.file (Text.bytes m)))

/-- One workspace differs from another by no more than what some entries do. -/
structure Differs (b : Batch) (who : FilePath → Prop) (w w' : Workspace) : Prop where
  settings : w'.stage.settings = w.stage.settings
  exports : ∀ path, b.Registered path → w'.stage.exports.find? path = w.stage.exports.find? path ∨
    w.stage.exports.find? path = none ∧ w'.stage.exports.find? path = some (b.verdict path)
  reports : ∀ x, (∀ p, who p → FilePath.same p x = false) →
    (w'.stage.diagnostics.filter fun d => FilePath.same d.document x) =
      w.stage.diagnostics.filter fun d => FilePath.same d.document x
  metadata : ∀ x, (∀ p, who p → FilePath.same (b.file p).realPath x = false) →
    w'.stage.metadata.at? x = w.stage.metadata.at? x
  files : ∀ q, b.Alters who q (w.files.get? q) (w'.files.get? q)
  rooted : w.files.Rooted → w'.files.Rooted

/-- What a build reads has not changed since its start. -/
structure Steady (b : Batch) (w : Workspace) : Prop where
  documents : ∀ p ∈ b.request.entries, w.files.readText p = b.start.files.readText p
  components : ∀ path, b.Registered path →
    (w.files.readText path).toOption = (b.start.files.readText path).toOption
  places : ∀ p ∈ b.request.entries,
    (b.file p).contentDirectory w.files b.start.stage.settings.contentRoot =
      (b.file p).contentDirectory b.start.files b.start.stage.settings.contentRoot

/-- A file that stands apart from the modules. -/
def Apart (b : Batch) (path : FilePath) : Prop :=
  ∃ q content, b.start.files.resolve true path = .ok q ∧ b.start.files.get? q = some (.file content) ∧
    ¬b.base ++ b.names <+: q

/-- Some of the work has been done. -/
structure Midway (b : Batch) (w : Workspace) : Prop where
  steady : b.Steady w
  differs : b.Differs (· ∈ b.request.entries) b.start w

variable {b : Batch} {who who' : FilePath → Prop} {p p' : FilePath} {m m' : Text} {w w' w'' : Workspace}
  {q : RealPath} {item item' item'' : Option Item}

/-! ## Entries apart -/

namespace Valid

theorem nodup (h : b.Valid) : b.request.entries.Nodup := h.keys.of_map _

theorem eq_of_same (h : b.Valid) (hp : p ∈ b.request.entries) (hp' : p' ∈ b.request.entries)
    (hsame : FilePath.same p p' = true) : p = p' := by
  have hparts : FilePath.parts p = FilePath.parts p' := by simpa [FilePath.same] using hsame
  have hat := h.isAt p hp
  have hat' : (b.place p).IsAt b.request.contentRoot p' := by
    rw [DocumentPlace.IsAt, ← hparts]
    exact hat
  exact List.inj_on_of_nodup_map h.keys hp hp' (hat.pathKey.trans hat'.pathKey.symm)

theorem eq_of_same_realPath (h : b.Valid) (hp : p ∈ b.request.entries) (hp' : p' ∈ b.request.entries)
    (hsame : FilePath.same (b.file p).realPath (b.file p').realPath = true) : p = p' := by
  have hparts : FilePath.parts (b.file p).realPath = FilePath.parts (b.file p').realPath := by
    simpa [FilePath.same] using hsame
  exact List.inj_on_of_nodup_map h.realPaths hp hp' hparts

theorem parts_modulePath (h : b.Valid) (hp : p ∈ b.request.entries) (m : Text) :
    FilePath.parts (Bundle.modulePath b.request p m) = b.way ++ (b.moduleNames p m).map .name := by
  rw [(h.isAt p hp).parts_modulePath, h.assets, moduleNames, List.map_append, List.append_assoc]

end Valid

theorem moduleNames_eq (b : Batch) (p : FilePath) (m : Text) :
    ∃ n, b.moduleNames p m = b.directories p ++ [n] := ⟨_, (List.append_assoc ..).symm⟩

/-- A module does not stand in the way of a directory. -/
theorem Plans.not_in_way (h : b.Plans p m) (h' : b.Plans p' m') (hvalid : b.Valid) {ns : List Text}
    (hns : ns <+: b.directories p') : b.output p m ≠ b.base ++ ns := by
  intro heq
  rw [output, List.append_cancel_left_eq] at heq
  have hbegins : b.moduleNames p m <+: b.directories p' := heq ▸ hns
  by_cases hpp : p = p'
  · subst hpp
    obtain ⟨n, hn⟩ := b.moduleNames_eq p m
    have hlength := hbegins.length_le
    rw [hn, List.length_append, List.length_singleton] at hlength
    omega
  · exact hvalid.apart p h.entry p' h'.entry hpp m m' h.rendered h'.rendered
      ((List.prefix_append_right_inj b.names).mp hbegins)

/-- Modules of different entries are written to different places. -/
theorem Plans.eq_of_output (h : b.Plans p m) (h' : b.Plans p' m') (hvalid : b.Valid)
    (heq : b.output p m = b.output p' m') : p = p' := by
  have hnames := List.append_cancel_left (List.append_cancel_left heq)
  have hkey := (hvalid.isAt p h.entry).pathKey_of_moduleNames (hvalid.isAt p' h'.entry) hnames
  exact List.inj_on_of_nodup_map hvalid.keys h.entry h'.entry hkey

/-! ## Differences -/

theorem Alters.mono (h : b.Alters who q item item') (hwho : ∀ p, who p → who' p) :
    b.Alters who' q item item' := by
  cases h with
  | kept => exact .kept _
  | made hp plans hns hq => exact .made (hwho _ hp) plans hns hq
  | written hp plans hq hitem => exact .written (hwho _ hp) plans hq hitem

theorem Alters.trans (h : b.Alters who q item item') (h' : b.Alters who q item' item'') :
    b.Alters who q item item'' := by
  cases h with
  | kept => exact h'
  | made hp plans hns hq =>
    cases h' with
    | kept => exact .made hp plans hns hq
    | written _ _ _ hitem => simp at hitem
  | written hp plans hq hitem =>
    cases h' with
    | kept => exact .written hp plans hq hitem
    | written hp' plans' hq' _ => exact .written hp' plans' hq' hitem

/-- A directory stays. -/
theorem Alters.directory (h : b.Alters who q (some .directory) item) : item = some .directory := by
  cases h with
  | kept => rfl
  | written _ _ _ hitem => simp at hitem

/-- A file stays a file. -/
theorem Alters.file {content : List UInt8} (h : b.Alters who q (some (.file content)) item) :
    ∃ content', item = some (.file content') := by
  cases h with
  | kept => exact ⟨content, rfl⟩
  | written => exact ⟨_, rfl⟩

theorem Alters.link {target : FilePath} (h : b.Alters who q (some (.link target)) item) :
    item = some (.link target) := by
  cases h with
  | kept => rfl
  | written _ _ _ hitem => simp at hitem

theorem Alters.of_link {target : FilePath} (h : b.Alters who q item (some (.link target))) :
    item = some (.link target) := by
  cases h with
  | kept => rfl

namespace Differs

theorem refl (b : Batch) (who : FilePath → Prop) (w : Workspace) : b.Differs who w w where
  settings := rfl
  exports _ _ := .inl rfl
  reports _ _ := rfl
  metadata _ _ := rfl
  files _ := .kept _
  rooted h := h

theorem trans (h : b.Differs who w w') (h' : b.Differs who w' w'') : b.Differs who w w'' where
  settings := h'.settings.trans h.settings
  exports path hpath := by
    rcases h.exports path hpath with hkept | ⟨hnone, hnew⟩
    · rw [← hkept]
      exact h'.exports path hpath
    · rcases h'.exports path hpath with hkept | ⟨hnone', -⟩
      · exact .inr ⟨hnone, hkept.trans hnew⟩
      · rw [hnew] at hnone'
        cases hnone'
  reports x hx := (h'.reports x hx).trans (h.reports x hx)
  metadata x hx := (h'.metadata x hx).trans (h.metadata x hx)
  files q := (h.files q).trans (h'.files q)
  rooted hrooted := h'.rooted (h.rooted hrooted)

theorem mono (h : b.Differs who w w') (hwho : ∀ p, who p → who' p) : b.Differs who' w w' where
  settings := h.settings
  exports := h.exports
  reports x hx := h.reports x fun p hp => hx p (hwho p hp)
  metadata x hx := h.metadata x fun p hp => hx p (hwho p hp)
  files q := (h.files q).mono hwho
  rooted := h.rooted

theorem directory (h : b.Differs who w w') (hq : w.files.get? q = some .directory) :
    w'.files.get? q = some .directory := by
  have hfiles := h.files q
  rw [hq] at hfiles
  exact hfiles.directory

/-- The tree has grown. -/
theorem growth (h : b.Differs who w w') : ∃ changed, Extends changed w.files w'.files := by
  refine ⟨w.files.items.map (·.1), fun q item hq hchanged => ?_, fun q target hq => ?_⟩
  · have hfiles := h.files q
    rw [hq] at hfiles
    by_cases hroot : q = []
    · subst hroot
      exact hq
    have hmem : q ∈ w.files.items.map (·.1) := List.mem_map.mpr ⟨(q, item), mem_of_get? hroot hq, rfl⟩
    cases item with
    | directory => exact hfiles.directory
    | file content => exact absurd rfl (hchanged hmem content)
    | link target => exact hfiles.link
  · have hfiles := h.files q
    rw [hq] at hfiles
    exact hfiles.of_link

/-- What stands apart from the modules reads as at the start. -/
theorem readText (h : b.Differs who b.start w) {path : FilePath} (hpath : b.Apart path) :
    w.files.readText path = b.start.files.readText path := by
  obtain ⟨q, content, hresolve, hget, hapart⟩ := hpath
  have hkept : w.files.get? q = b.start.files.get? q := by
    have hfiles := h.files q
    rw [hget] at hfiles ⊢
    generalize w.files.get? q = item at hfiles ⊢
    cases hfiles with
    | kept => rfl
    | written _ _ hq _ =>
      rw [hq, output, moduleNames, ← List.append_assoc] at hapart
      exact absurd (List.prefix_append _ _) hapart
  obtain ⟨changed, hextends⟩ := h.growth
  have hfind : w.files.find? true path = b.start.files.find? true path := by
    simp only [find?, Bool.true_or, hextends.resolve hresolve, hresolve, hkept, bind, Except.bind]
  simp only [FileTree.readText, readBytes, hfind]

/-- What other entries do leaves a module alone. -/
theorem output_kept (h : b.Differs (fun p' => p' ∈ b.request.entries ∧ p' ≠ p) w w') (hvalid : b.Valid)
    (hplans : b.Plans p m) : w'.files.get? (b.output p m) = w.files.get? (b.output p m) := by
  have hfiles := h.files (b.output p m)
  generalize w.files.get? (b.output p m) = item, w'.files.get? (b.output p m) = item' at hfiles ⊢
  cases hfiles with
  | kept => rfl
  | made _ hplans' hns hq => exact absurd hq (hplans.not_in_way hplans' hvalid hns)
  | written hp hplans' hq _ => exact absurd (hplans'.eq_of_output hplans hvalid hq.symm) hp.2

end Differs

/-! ## Midway -/

namespace Midway

theorem start (b : Batch) : b.Midway b.start where
  steady := ⟨fun _ _ => rfl, fun _ _ => rfl, fun _ _ => rfl⟩
  differs := .refl ..

theorem rooted (h : b.Midway w) (hvalid : b.Valid) : w.files.Rooted := h.differs.rooted hvalid.rooted

theorem base (h : b.Midway w) (hvalid : b.Valid) : w.files.Base b.way b.base := by
  obtain ⟨changed, hextends⟩ := h.differs.growth
  exact hvalid.base.of_extends hextends

theorem plain (h : b.Midway w) (hvalid : b.Valid) (ns : List Text) : w.files.Plain b.base (b.names ++ ns) := by
  obtain ⟨changed, hextends⟩ := h.differs.growth
  exact fun ms hne hms target hlink => hvalid.plain ns ms hne hms target (hextends.no_more_links _ target hlink)

/-- A document has the path that it had at the start. -/
theorem canonical (h : b.Midway w) (hp : p ∈ b.request.entries) {text : Text}
    (htext : b.start.files.readText p = .ok text) : w.files.canonical p = b.start.files.canonical p := by
  obtain ⟨changed, hextends⟩ := h.differs.growth
  have htext' := (h.steady.documents p hp).trans htext
  obtain ⟨r, content, hresolve, hget, hslash, -⟩ := (readText_eq_ok_iff text).mp htext
  obtain ⟨r', content', hresolve', hget', -, -⟩ := (readText_eq_ok_iff text).mp htext'
  obtain rfl := Except.ok.inj ((hextends.resolve hresolve).symm.trans hresolve')
  rw [canonical_file hresolve hget hslash, canonical_file hresolve' hget' hslash]

/-- Directories that are planned can be made. -/
theorem free (h : b.Midway w) (hvalid : b.Valid) (hplans : b.Plans p m) :
    w.files.Open b.base (b.directories p) := by
  intro ns hns
  have hfree := hplans.free ns hns
  have hfiles := h.differs.files (b.base ++ ns)
  generalize b.start.files.get? (b.base ++ ns) = item, w.files.get? (b.base ++ ns) = item' at hfree hfiles ⊢
  cases hfiles with
  | kept => exact hfree
  | made => exact .inr rfl
  | written _ hplans' hq _ => exact absurd hq.symm (hplans'.not_in_way hplans hvalid hns)

/-- What stood in the way of directories still does. -/
theorem blocked (h : b.Midway w) (hvalid : b.Valid)
    (hblocked : ¬b.start.files.Open b.base (b.directories p)) :
    ∃ ns content content', ns <+: b.directories p ∧ b.start.files.get? (b.base ++ ns) = some (.file content) ∧
      w.files.get? (b.base ++ ns) = some (.file content') := by
  have hplain := hvalid.plain (b.place p).directories
  obtain hopen | ⟨ns, content, hns, hfile⟩ := hplain.open_or_file hvalid.base.directory
  · exact absurd hopen hblocked
  · have hfiles := h.differs.files (b.base ++ ns)
    rw [hfile] at hfiles
    obtain ⟨content', hfile'⟩ := hfiles.file
    exact ⟨ns, content, content', hns, hfile, hfile'⟩

/-- The directories of a module are made or not, but none of them is made in vain. -/
theorem undivided (h : b.Midway w) (hvalid : b.Valid) (hp : p ∈ b.request.entries) (module : Text) :
    Job.Undivided (Bundle.modulePath b.request p module) w.files := by
  intro parent hparent
  obtain ⟨parent', hparent', hparts⟩ := (hvalid.isAt p hp).parent?_modulePath module
  obtain rfl := Option.some.inj (hparent.symm.trans hparent')
  have hparts' : FilePath.parts parent = b.way ++ (b.directories p).map .name := by
    rw [hparts, hvalid.assets, directories, List.map_append, List.append_assoc]
  have hrooted := h.rooted hvalid
  have hbase := h.base hvalid
  have hplain : w.files.Plain b.base (b.directories p) := h.plain hvalid (b.place p).directories
  rcases hplain.open_or_file hbase.directory with hopen | ⟨ns, content, hns, hfile⟩
  · have hlength : (b.directories p).length ≤ parent.length + 1 := by
      have hle := FilePath.length_parts_le parent
      rw [hparts', List.length_append, List.length_map] at hle
      omega
    obtain ⟨t, hmade, -⟩ := hbase.createDirectoriesFrom hrooted hopen hparts' hlength
    exact .inl ⟨t, hmade⟩
  · have hne : b.directories p ≠ [] := by
      rintro hnil
      rw [hnil, List.prefix_nil] at hns
      rw [hns, List.append_nil, hbase.directory] at hfile
      cases hfile
    by_cases heq : ns = b.directories p
    · subst heq
      exact .inr ⟨_, hbase.createDirectory_of_get? hrooted hplain hne hparts' hfile, by decide⟩
    · exact .inr ⟨_, hbase.createDirectory_of_file hrooted hplain hne hparts' hns heq hfile, by decide⟩

end Midway

end Batch

end StaticSite
