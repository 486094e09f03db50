import StaticSite.Document.Source
import StaticSite.Proofs.FileTree.Listing

/-!
# Where documents stand

A document stands in directories below the content directory, under a file name with the extension of
documents. Its entry is these names without the extension, so an entry says where its document stands up to
the extension. All documents that no hidden or foreign name leads to are met, in ascending order.
-/
namespace StaticSite

/-- Where a document stands below the content directory. -/
structure DocumentPlace where
  directories : List Text
  fileName : Text

namespace DocumentPlace

/-- The names that lead from the content directory to the document. -/
def names (d : DocumentPlace) : List Text := d.directories ++ [d.fileName]

/-- The file name without its extension. -/
def stem (d : DocumentPlace) : Text := (FilePath.cutExtension d.fileName).1

def entry (d : DocumentPlace) : Text := FilePath.ofNames (d.directories ++ [d.stem])

/-- The path of the document. -/
def path (content : FilePath) (d : DocumentPlace) : FilePath :=
  FilePath.join content (FilePath.ofNames d.names)

/-- A place that is reached by names, the last of which is the visible name of a document. -/
structure Proper (d : DocumentPlace) : Prop where
  isName : ∀ n ∈ d.names, FilePath.IsName n
  extension : ∃ e, (FilePath.cutExtension d.fileName).2 = some e ∧
    (Source.extensions.any fun x => x.toList == Text.lower e) = true
  visible : d.fileName.head? ≠ some '.'

/-- A document that stands below a place and is not passed over. -/
structure Stands (tree : FileTree) (root : RealPath) (d : DocumentPlace) : Prop where
  file : ∃ bytes, tree.get? (root ++ d.names) = some (.file bytes)
  extension : ∃ e, (FilePath.cutExtension d.fileName).2 = some e ∧
    (Source.extensions.any fun x => x.toList == Text.lower e) = true
  visible : d.fileName.head? ≠ some '.'
  entered : ∀ n ∈ d.directories, n.head? ≠ some '.' ∧ ∀ x ∈ Source.foreignDirectories, x.toList ≠ n

theorem names_ne_nil (d : DocumentPlace) : d.names ≠ [] := by simp [names]

theorem names_inj {d d' : DocumentPlace} (h : d.names = d'.names) : d = d' := by
  obtain ⟨hdirectories, hname⟩ := List.append_inj' h (by simp)
  obtain ⟨ds, n⟩ := d
  obtain ⟨ds', n'⟩ := d'
  simp_all

namespace Proper

variable {d : DocumentPlace}

theorem isName_directories (h : d.Proper) : ∀ n ∈ d.directories, FilePath.IsName n :=
  (List.forall_mem_append.mp h.isName).1

/-- A text that continues the stem is a name. -/
theorem isName_stem_append (h : d.Proper) {rest : Text} (hrest : '/' ∉ rest) :
    FilePath.IsName (d.stem ++ rest) := by
  obtain ⟨e, he, -⟩ := h.extension
  obtain ⟨hname, hne⟩ := FilePath.eq_append_of_cutExtension he
  obtain ⟨c, cs, hstem⟩ : ∃ c cs, d.stem = c :: cs := List.exists_cons_of_ne_nil hne
  have hfile : d.fileName = c :: cs ++ '.' :: e := hstem ▸ hname
  -- The first character is that of the file name, which is visible.
  have hdot : c ≠ '.' := by
    rintro rfl
    exact h.visible (by simp [hfile])
  have hslash : '/' ∉ c :: cs := by
    intro hmem
    exact (h.isName d.fileName (by simp [names])).no_slash (hfile ▸ List.mem_append_left _ hmem)
  rw [hstem]
  refine ⟨by simp, ?_, by simp [hdot], by simp [hdot]⟩
  rw [List.mem_append, not_or]
  exact ⟨hslash, hrest⟩

theorem isName_stem (h : d.Proper) : FilePath.IsName d.stem := by
  simpa using h.isName_stem_append (List.not_mem_nil : '/' ∉ [])

theorem isName_entry (h : d.Proper) : ∀ n ∈ d.directories ++ [d.stem], FilePath.IsName n :=
  List.forall_mem_append.mpr ⟨h.isName_directories, List.forall_mem_singleton.mpr h.isName_stem⟩

theorem splitOn_entry (h : d.Proper) : Text.splitOn '/' d.entry = d.directories ++ [d.stem] :=
  FilePath.splitOn_ofNames (by simp) h.isName_entry

end Proper

theorem Stands.proper {tree : FileTree} {root : RealPath} {d : DocumentPlace} (h : d.Stands tree root)
    (hformed : tree.WellFormed) : d.Proper where
  isName := by
    obtain ⟨bytes, hfile⟩ := h.file
    exact (List.forall_mem_append.mp (hformed.isName_of_get? hfile)).2
  extension := h.extension
  visible := h.visible

theorem relativeTo?_path {d : DocumentPlace} {content : FilePath} (hcontent : content ≠ [])
    (h : d.Proper) : FilePath.relativeTo? content (d.path content) = some (FilePath.ofNames d.names) :=
  FilePath.relativeTo?_join hcontent d.names_ne_nil h.isName

/-- The names of a place without the extension are its entry. -/
theorem entryName_names {d : DocumentPlace} (h : d.Proper) :
    entryName (FilePath.ofNames d.names) = d.entry := by
  rw [entryName, names, FilePath.dropExtension_ofNames h.isName]
  exact FilePath.toSlash_ofNames h.isName_entry

end DocumentPlace

namespace Source

open DocumentPlace

theorem isPassedOver_file_eq_false_iff (n : Text) : isPassedOver n false = false ↔ n.head? ≠ some '.' := by
  simp [isPassedOver]

theorem isPassedOver_directory_eq_false_iff (n : Text) :
    isPassedOver n true = false ↔ n.head? ≠ some '.' ∧ ∀ x ∈ foreignDirectories, x.toList ≠ n := by
  simp [isPassedOver]

/-- The documents below a directory are the files that a walk shows under the name of a document. -/
theorem stands_iff {tree : FileTree} {root : RealPath} {content : FilePath} {ds : List Text} {n : Text}
    (hformed : tree.WellFormed) (hcontent : content ≠ []) :
    Stands tree root ⟨ds, n⟩ ↔ tree.Shows isPassedOver root ds n ∧
      isDocument (FilePath.join content (FilePath.ofNames (ds ++ [n]))) = true := by
  have hextension (hnames : ∀ m ∈ ds ++ [n], FilePath.IsName m) :
      isDocument (FilePath.join content (FilePath.ofNames (ds ++ [n]))) = true ↔
        ∃ e, (FilePath.cutExtension n).2 = some e ∧
          (extensions.any fun x => x.toList == Text.lower e) = true := by
    rw [isDocument, FilePath.extension?, FilePath.fileName?_join hcontent hnames, Option.bind_some,
      Option.any_eq_true]
  constructor
  · rintro ⟨⟨bytes, hfile⟩, he, hvisible, hentered⟩
    have hshows : tree.Shows isPassedOver root ds n :=
      ⟨⟨bytes, hfile⟩, (isPassedOver_file_eq_false_iff n).mpr hvisible, fun d hd =>
        (isPassedOver_directory_eq_false_iff d).mpr (hentered d hd)⟩
    exact ⟨hshows, (hextension (hshows.isName hformed)).mpr he⟩
  · rintro ⟨hshows, hdocument⟩
    refine ⟨hshows.file, (hextension (hshows.isName hformed)).mp hdocument, ?_, fun d hd => ?_⟩
    · exact (isPassedOver_file_eq_false_iff n).mp hshows.shown
    · exact (isPassedOver_directory_eq_false_iff d).mp (hshows.entered d hd)

theorem exists_map_eq {α β : Type} {f : β → α} {P : β → Prop} {as : List α}
    (h : ∀ a ∈ as, ∃ b, a = f b ∧ P b) : ∃ bs : List β, as = bs.map f ∧ ∀ b ∈ bs, P b := by
  induction as with
  | nil => exact ⟨[], rfl, by simp⟩
  | cons a as ih =>
    obtain ⟨⟨b, rfl, hb⟩, has⟩ := List.forall_mem_cons.mp h
    obtain ⟨bs, rfl, hbs⟩ := ih has
    exact ⟨b :: bs, rfl, List.forall_mem_cons.mpr ⟨hb, hbs⟩⟩

/-- The table of a content directory is made of all documents that stand below it, in ascending order. -/
theorem exists_entries_eq {tree : FileTree} {content : FilePath} (hformed : tree.WellFormed)
    (hdirectory : tree.isDirectory content = true) :
    ∃ root, tree.resolve true content = .ok root ∧ tree.get? root = some .directory ∧
      ∃ ds : List DocumentPlace,
        entries tree content = .ok (.ofEntries (ds.map fun d => (d.entry, d.path content))) ∧
          ds.Pairwise (fun d d' => d.names < d'.names) ∧ ∀ d, d ∈ ds ↔ d.Stands tree root := by
  obtain ⟨root, hfind⟩ := FileTree.find?_of_isDirectory hdirectory
  obtain ⟨hroot, hget⟩ := FileTree.resolve_of_find? hfind
  have hne := FileTree.ne_nil_of_resolve hroot
  have hexists : tree.pathExists content = true := by simp [FileTree.pathExists, hfind, Except.toOption]
  -- what is listed are the names of the documents
  let pathOf (ns : List Text) := FilePath.join content (FilePath.ofNames ns)
  let listed := (tree.namesFrom isPassedOver (tree.items.length + 1) root).filter (isDocument ∘ pathOf)
  have hlisted (ns : List Text) : ns ∈ listed ↔ ∃ d : DocumentPlace, ns = d.names ∧ d.Stands tree root := by
    rw [List.mem_filter, FileTree.mem_namesFrom_length_iff hformed]
    constructor
    · rintro ⟨⟨ds, n, rfl, hshows⟩, hdocument⟩
      exact ⟨⟨ds, n⟩, rfl, (stands_iff hformed hne).mpr ⟨hshows, hdocument⟩⟩
    · rintro ⟨⟨ds, n⟩, rfl, hstands⟩
      obtain ⟨hshows, hdocument⟩ := (stands_iff hformed hne).mp hstands
      exact ⟨⟨ds, n, rfl, hshows⟩, hdocument⟩
  obtain ⟨ds, hds, hstands⟩ := exists_map_eq fun ns hns => (hlisted ns).mp hns
  refine ⟨root, hroot, hget, ds, ?_, ?_, fun d => ⟨hstands d, fun hd => ?_⟩⟩
  · have hdocuments : (tree.files isPassedOver content).filter isDocument = ds.map (·.path content) := by
      rw [FileTree.files_eq_map hformed hfind, List.filter_map]
      change listed.map pathOf = _
      rw [hds, List.map_map]
      simp [Function.comp_def, pathOf, path]
    have hentries : (ds.map (·.path content)).filterMap (fun path =>
        (FilePath.relativeTo? content path).map fun relative => (entryName relative, path)) =
          ds.map fun d => (d.entry, d.path content) := by
      rw [List.filterMap_map, ← List.filterMap_eq_map]
      refine List.filterMap_congr fun d hd => ?_
      have hproper := (hstands d hd).proper hformed
      simp [relativeTo?_path hne hproper, entryName_names hproper]
    rw [entries, hexists, hdirectory]
    simp only [Bool.not_true, Bool.false_eq_true, if_false, hdocuments, hentries]
  · have hascending : listed.Pairwise (· < ·) := (FileTree.pairwise_namesFrom hformed).filter _
    rwa [hds, List.pairwise_map] at hascending
  · have hmem := (hlisted d.names).mpr ⟨d, rfl, hd⟩
    rw [hds] at hmem
    obtain ⟨d', hd', hnames⟩ := List.mem_map.mp hmem
    exact names_inj hnames ▸ hd'

/-- The entries of a content directory are those of documents below it, and each is met once. -/
theorem entries_spec {tree : FileTree} {content : FilePath} {table : Table FilePath}
    (hformed : tree.WellFormed) (h : entries tree content = .ok table) :
    table.names.Nodup ∧ ∃ root, tree.resolve true content = .ok root ∧
      tree.get? root = some .directory ∧ ∃ ds : List DocumentPlace,
        table = ds.map (fun d => (d.entry, d.path content)) ∧
          ∀ d ∈ ds, d.Proper ∧ ∃ bytes, tree.get? (root ++ d.names) = some (.file bytes) := by
  have hdirectory : tree.isDirectory content = true := by
    unfold entries at h
    split_ifs at h with hexists hdirectory
    simpa using hdirectory
  obtain ⟨root, hroot, hget, ds, hentries, -, hds⟩ := exists_entries_eq hformed hdirectory
  obtain rfl := Except.ok.inj (hentries.symm.trans h)
  obtain ⟨hascending, hmem⟩ := Table.ofEntries_spec (ds.map fun d => (d.entry, d.path content))
  refine ⟨hascending.nodup, root, hroot, hget, exists_map_eq fun entry hentry => ?_⟩
  obtain ⟨d, hd, rfl⟩ := List.mem_map.mp (hmem entry hentry)
  have hstands := (hds d).mp hd
  exact ⟨d, rfl, hstands.proper hformed, hstands.file⟩

end Source

end StaticSite
