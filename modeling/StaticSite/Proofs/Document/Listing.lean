import StaticSite.Proofs.Document.Source

/-!
# Which documents are listed

Documents that stand in one directory under one stem have one entry. Of these the table of entries keeps the
last one, so a document is listed unless another one with its entry comes after it, and every document is
listed if no two have one entry.
-/
namespace StaticSite

namespace DocumentPlace

variable {d d' : DocumentPlace} {tree : FileTree} {root : RealPath} {content : FilePath}

theorem path_inj (hcontent : content ≠ []) (h : d.Proper) (h' : d'.Proper)
    (heq : d.path content = d'.path content) : d = d' := by
  have hrelative : FilePath.ofNames d.names = FilePath.ofNames d'.names := by
    apply Option.some.inj
    rw [← relativeTo?_path hcontent h, ← relativeTo?_path hcontent h', heq]
  apply names_inj
  rw [← FilePath.splitOn_ofNames d.names_ne_nil h.isName, hrelative,
    FilePath.splitOn_ofNames d'.names_ne_nil h'.isName]

/-- The path of a document leads to it. -/
theorem Stands.resolve_path (h : d.Stands tree root) (hformed : tree.WellFormed)
    (hroot : tree.resolve true content = .ok root) :
    tree.resolve true (d.path content) = .ok (root ++ d.names) := by
  obtain ⟨bytes, hfile⟩ := h.file
  exact FileTree.resolve_join hformed.rooted (h.proper hformed).isName d.names_ne_nil hroot hfile nofun

/-- Of the documents with its entry, the last one in the order of the names. -/
structure IsLast (tree : FileTree) (root : RealPath) (d : DocumentPlace) : Prop where
  stands : d.Stands tree root
  last : ∀ d' : DocumentPlace, d'.Stands tree root → d'.entry = d.entry → d'.names ≤ d.names

end DocumentPlace

namespace Source

open DocumentPlace

variable {tree : FileTree} {content : FilePath}

/-- The entries of a content directory are those of all documents below it. Each leads to the last document
that has it, so all documents are listed just when no two have one entry. -/
theorem entries_list_last_documents (hformed : tree.WellFormed) (hdirectory : tree.isDirectory content = true) :
    ∃ root table, tree.resolve true content = .ok root ∧ entries tree content = .ok table ∧
      table.names.Nodup ∧ (table.map (·.2)).Nodup ∧
      (∀ e p, (e, p) ∈ table ↔ ∃ d : DocumentPlace, d.IsLast tree root ∧ d.entry = e ∧ d.path content = p) ∧
      (∀ d : DocumentPlace, d.Stands tree root →
        d.entry ∈ table.names ∧ tree.resolve true (d.path content) = .ok (root ++ d.names)) ∧
      ((∀ d : DocumentPlace, d.Stands tree root → ∃! e, (e, d.path content) ∈ table) ↔
        ∀ d d' : DocumentPlace, d.Stands tree root → d'.Stands tree root → d.entry = d'.entry → d = d') := by
  obtain ⟨root, hroot, -, ds, hentries, hascending, hds⟩ := exists_entries_eq hformed hdirectory
  have hne := FileTree.ne_nil_of_resolve hroot
  let table := Table.ofEntries (ds.map fun d => (d.entry, d.path content))
  have hnames : table.names.Nodup := (Table.ofEntries_spec _).1.nodup
  have hmem (e : Text) (p : FilePath) :
      (e, p) ∈ table ↔ ∃ d : DocumentPlace, d.IsLast tree root ∧ d.entry = e ∧ d.path content = p := by
    have hget : (e, p) ∈ table ↔ table.get? e = some p := ⟨Table.get?_of_mem hnames, Table.mem_of_get?⟩
    rw [hget, Table.get?_ofEntries_map hascending]
    constructor
    · rintro ⟨d, hd, rfl, hpath, hlast⟩
      exact ⟨d, ⟨(hds d).mp hd, fun d' hd' => hlast d' ((hds d').mpr hd')⟩, rfl, hpath⟩
    · rintro ⟨d, hd, rfl, hpath⟩
      exact ⟨d, (hds d).mpr hd.stands, rfl, hpath, fun d' hd' => hd.last d' ((hds d').mp hd')⟩
  have hpath {d d' : DocumentPlace} (hd : d.Stands tree root) (hd' : d'.Stands tree root)
      (heq : d.path content = d'.path content) : d = d' :=
    path_inj hne (hd.proper hformed) (hd'.proper hformed) heq
  have hlisted {d : DocumentPlace} (hd : d.Stands tree root) {e : Text}
      (h : (e, d.path content) ∈ table) : d.IsLast tree root ∧ d.entry = e := by
    obtain ⟨d', hd', rfl, heq⟩ := (hmem _ _).mp h
    obtain rfl := hpath hd'.stands hd heq
    exact ⟨hd', rfl⟩
  refine ⟨root, table, hroot, hentries, hnames, ?_, hmem, fun d hd => ⟨?_, hd.resolve_path hformed hroot⟩, ?_, ?_⟩
  · -- a path says which document it is, and so under which entry it is listed
    have hentry : ∀ entry ∈ table, ∀ other ∈ table, entry.2 = other.2 → entry = other := by
      rintro ⟨e, p⟩ he ⟨e', p'⟩ he' rfl
      obtain ⟨d, hd, rfl, rfl⟩ := (hmem e p).mp he
      exact congrArg (·, d.path content) (hlisted hd.stands he').2
    exact List.Nodup.map_on (fun entry he other he' => hentry entry he other he') (List.Nodup.of_map _ hnames)
  · rw [Table.mem_names_ofEntries_iff]
    exact ⟨_, List.mem_map_of_mem ((hds d).mpr hd), rfl⟩
  · intro hall d d' hd hd' hentry
    obtain ⟨e, he, -⟩ := hall d hd
    obtain ⟨e', he', -⟩ := hall d' hd'
    have hle := (hlisted hd he).1.last d' hd' hentry.symm
    have hle' := (hlisted hd' he').1.last d hd hentry
    exact names_inj (le_antisymm hle' hle)
  · intro hdistinct d hd
    have hlast : d.IsLast tree root := ⟨hd, fun d' hd' heq => (congrArg names (hdistinct d' d hd' hd heq)).le⟩
    exact ⟨d.entry, (hmem _ _).mpr ⟨d, hlast, rfl, rfl⟩, fun e he => (hlisted hd he).2.symm⟩

/-! ## Two content directories -/

namespace SmallContent

/-- A content directory with a page, a post below it, and names that are passed over. -/
def pages : FileTree :=
  ⟨[(["content".toList], .directory), (["content".toList, "index.MDX".toList], .file [72]),
    (["content".toList, "blog".toList], .directory),
    (["content".toList, "blog".toList, "post.md".toList], .file [80]),
    (["content".toList, ".draft.md".toList], .file []), (["content".toList, "target".toList], .directory),
    (["content".toList, "target".toList, "a.md".toList], .file [])]⟩

theorem stands_pages {d : DocumentPlace} (h : d.Stands pages ["content".toList]) :
    d = ⟨[], "index.MDX"⟩ ∨ d = ⟨["blog".toList], "post.md"⟩ := by
  obtain ⟨bytes, hfile⟩ := h.file
  have hmem := FileTree.mem_of_get? (by simp) hfile
  simp only [pages, List.mem_cons, List.not_mem_nil, or_false, Prod.mk.injEq, List.cons_append, List.nil_append,
    List.cons.injEq, FileTree.Item.file.injEq, reduceCtorEq, and_false, false_or, true_and] at hmem
  have hplace (d' : DocumentPlace) (hnames : d.names = d'.names) : d = d' := names_inj hnames
  rcases hmem with ⟨hnames, -⟩ | ⟨hnames, -⟩ | ⟨hnames, -⟩ | ⟨hnames, -⟩
  · exact .inl (hplace ⟨[], "index.MDX"⟩ hnames)
  · exact .inr (hplace ⟨["blog".toList], "post.md"⟩ hnames)
  · obtain rfl := hplace ⟨[], ".draft.md"⟩ hnames
    exact absurd h.visible (by decide)
  · obtain rfl := hplace ⟨["target".toList], "a.md"⟩ hnames
    exact absurd (h.entered "target".toList (by simp)).2 (by decide)

theorem all_pages_listed :
    pages.WellFormed ∧ pages.isDirectory "/content" = true ∧ ∃ table, entries pages "/content" = .ok table ∧
      ∀ d : DocumentPlace, d.Stands pages ["content".toList] → ∃! e, (e, d.path "/content") ∈ table := by
  have hformed : pages.WellFormed := by decide
  have hdirectory : pages.isDirectory "/content" = true := by decide +kernel
  obtain ⟨root, table, hroot, htable, -, -, -, -, hall⟩ := entries_list_last_documents hformed hdirectory
  obtain rfl : ["content".toList] = root := Except.ok.inj ((by decide +kernel : _ = _).trans hroot)
  refine ⟨hformed, hdirectory, table, htable, hall.mpr fun d d' hd hd' hentry => ?_⟩
  rcases stands_pages hd with rfl | rfl <;> rcases stands_pages hd' with rfl | rfl
  · rfl
  · exact absurd hentry (by decide)
  · exact absurd hentry (by decide)
  · rfl

/-- A page that has been written anew in another format. -/
def versions : FileTree :=
  ⟨[(["content".toList], .directory), (["content".toList, "a.md".toList], .file [65]),
    (["content".toList, "a.mdx".toList], .file [66])]⟩

/-- The older version is a document of the content directory, but no entry leads to it. -/
theorem older_version_dropped :
    let older : DocumentPlace := ⟨[], "a.md"⟩
    let table : Table FilePath := [("a".toList, "/content/a.mdx".toList)]
    versions.WellFormed ∧ versions.isDirectory "/content" = true ∧
      versions.resolve true "/content" = .ok ["content".toList] ∧ older.Stands versions ["content".toList] ∧
      entries versions "/content" = .ok table ∧ ∀ e, (e, older.path "/content") ∉ table := by
  intro older table
  have hother : older.path "/content" ≠ "/content/a.mdx".toList := by decide
  refine ⟨by decide, by decide +kernel, by decide +kernel, ?_, by decide +kernel, fun e hmem => ?_⟩
  · exact ⟨⟨[65], by decide⟩, ⟨"md".toList, by decide, by decide⟩, by decide, by simp [older]⟩
  · exact hother (congrArg Prod.snd (List.mem_singleton.mp hmem))

end SmallContent

end Source

end StaticSite
