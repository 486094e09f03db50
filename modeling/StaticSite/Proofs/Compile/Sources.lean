import StaticSite.Proofs.Compile.Bundle

/-!
# Sources at their turn

Modules are written while documents are still to be read. They never disturb a document: every entry finds
the source that was there before the first one was compiled, and its metadata stays under the path of its
own file.
-/
namespace StaticSite

open FileTree

/-- The documents at some places, below the place of the content directory. -/
structure Sources (t : FileTree) (contentRoot : FilePath) (root : RealPath) (ds : List DocumentPlace) :
    Prop where
  rooted : t.Rooted
  isName : ∀ n ∈ root, FilePath.IsName n
  resolve : t.resolve true contentRoot = .ok root
  proper : ∀ d ∈ ds, d.Proper
  document : ∀ d ∈ ds, ∃ bytes, t.get? (root ++ d.names) = some (.file bytes)

namespace Sources

variable {t t' : FileTree} {contentRoot : FilePath} {root : RealPath} {ds : List DocumentPlace}
  {d : DocumentPlace} {bytes : List UInt8}

theorem resolve_path (h : Sources t contentRoot root ds) (hd : d ∈ ds)
    (hget : t.get? (root ++ d.names) = some (.file bytes)) :
    t.resolve true (d.path contentRoot) = .ok (root ++ d.names) :=
  resolve_join h.rooted (h.proper d hd).isName d.names_ne_nil h.resolve hget nofun

/-- The path of a document does not end in a slash. -/
theorem getLast?_path (h : Sources t contentRoot root ds) (hd : d ∈ ds) :
    (d.path contentRoot).getLast? ≠ some '/' := by
  have hnames := (h.proper d hd).isName
  rw [DocumentPlace.path, FilePath.getLast?_join contentRoot d.names_ne_nil hnames]
  exact FilePath.getLast?_ofNames d.names_ne_nil hnames

theorem readText_path (h : Sources t contentRoot root ds) (hd : d ∈ ds)
    (hget : t.get? (root ++ d.names) = some (.file bytes)) :
    t.readText (d.path contentRoot) =
      match Text.ofBytes? bytes with
      | some text => .ok text
      | none => .error .notText := by
  rw [readText, readBytes_file (h.resolve_path hd hget) hget (h.getLast?_path hd)]
  rfl

theorem canonical_path (h : Sources t contentRoot root ds) (hd : d ∈ ds) :
    t.canonical (d.path contentRoot) = RealPath.toPath (root ++ d.names) := by
  obtain ⟨bytes, hget⟩ := h.document d hd
  exact canonical_file (h.resolve_path hd hget) hget (h.getLast?_path hd)

theorem canonical?_contentRoot (h : Sources t contentRoot root ds) (hd : d ∈ ds) :
    t.canonical? contentRoot = some root.toPath := by
  obtain ⟨bytes, hget⟩ := h.document d hd
  exact canonical?_directory h.resolve (h.rooted.directory d.names_ne_nil hget)

/-- Modules that are written leave the documents as they are. -/
theorem kept {changed : List RealPath} (hextends : Extends changed t t')
    (hchanged : ∀ q ∈ changed, ∃ root' : RealPath, ∃ d' : DocumentPlace, ∃ message,
      q = root' ++ d'.moduleNames (Digest.short message))
    (hproper : d.Proper) (hget : t.get? (root ++ d.names) = some (.file bytes)) :
    t'.get? (root ++ d.names) = some (.file bytes) := by
  refine hextends.kept _ _ hget fun hmem => ?_
  obtain ⟨root', d', message, heq⟩ := hchanged _ hmem
  exact absurd heq (DocumentPlace.names_ne_moduleNames hproper root root' message)

/-- Documents in a tree that has grown by modules, which read as before. -/
theorem grow {changed : List RealPath} (h : Sources t contentRoot root ds)
    (hextends : Extends changed t t') (hrooted : t'.Rooted)
    (hchanged : ∀ q ∈ changed, ∃ root' : RealPath, ∃ d' : DocumentPlace, ∃ message,
      q = root' ++ d'.moduleNames (Digest.short message)) :
    Sources t' contentRoot root ds ∧
      ∀ d ∈ ds, t'.readText (d.path contentRoot) = t.readText (d.path contentRoot) := by
  have hgrown : Sources t' contentRoot root ds := by
    refine ⟨hrooted, h.isName, hextends.resolve h.resolve, h.proper, fun d hd => ?_⟩
    obtain ⟨bytes, hget⟩ := h.document d hd
    exact ⟨bytes, kept hextends hchanged (h.proper d hd) hget⟩
  refine ⟨hgrown, fun d hd => ?_⟩
  obtain ⟨bytes, hget⟩ := h.document d hd
  rw [h.readText_path hd hget, hgrown.readText_path hd (kept hextends hchanged (h.proper d hd) hget)]

theorem grow_module {root' : RealPath} {d' : DocumentPlace} {message : List UInt8}
    (h : Sources t contentRoot root ds)
    (hextends : Extends [root' ++ d'.moduleNames (Digest.short message)] t t') (hrooted : t'.Rooted) :
    Sources t' contentRoot root ds :=
  (h.grow hextends hrooted fun _ hq => ⟨root', d', message, List.mem_singleton.mp hq⟩).1

theorem of_subset {ds' : List DocumentPlace} (h : Sources t contentRoot root ds) (hsubset : ds' ⊆ ds) :
    Sources t contentRoot root ds' :=
  { h with
    proper := fun d hd => h.proper d (hsubset hd)
    document := fun d hd => h.document d (hsubset hd) }

/-- The entries of a content directory are named by where their documents stand. -/
theorem of_entries {entries : Table FilePath} (hformed : t.WellFormed)
    (h : Source.entries t contentRoot = .ok entries) :
    entries.names.Nodup ∧ ∃ root ds, entries = ds.map (fun d => (d.entry, d.path contentRoot)) ∧
      Sources t contentRoot root ds := by
  obtain ⟨hnodup, root, hroot, hget, ds, hentries, hds⟩ := Source.entries_spec hformed h
  refine ⟨hnodup, root, ds, hentries, hformed.rooted, hformed.isName_of_get? hget, hroot, ?_, ?_⟩
  · exact fun d hd => (hds d hd).1
  · exact fun d hd => (hds d hd).2

end Sources

namespace Bundle

variable {request : BundleRequest} {registry : Registry} {w : Workspace} {root : RealPath}
  {ds : List DocumentPlace} {artifacts : List Artifact}

/-- Documents after some of them have been compiled. -/
theorem sources_compileAll {earlier : List DocumentPlace} (hcontent : request.contentRoot ≠ [])
    (hassets : request.assets ≠ []) (hsources : Sources w.files request.contentRoot root ds)
    (hsubset : earlier ⊆ ds) :
    let run := compileAll request [.transforms registry] (earlier.map (·.path request.contentRoot)) w
    collect run.1 = .ok artifacts → run.2.files.LinkFreeBelow request.assets →
      Sources run.2.files request.contentRoot root ds ∧ ∀ d ∈ ds,
        run.2.files.readText (d.path request.contentRoot) = w.files.readText (d.path request.contentRoot) := by
  intro run h hfree
  have hearlier := hsources.of_subset hsubset
  obtain ⟨hrooted, changed, hextends, hchanged⟩ :=
    compileAll_below hcontent hassets hearlier.proper hsources.rooted h hfree
  refine hsources.grow hextends hrooted fun q hq => ?_
  obtain ⟨assets, -, d', -, message, heq⟩ := hchanged q hq
  exact ⟨assets, d', message, heq⟩

/-- The metadata of a document that is not compiled stays what it was. -/
theorem at?_compileAll {d : DocumentPlace} (hcontent : request.contentRoot ≠ [])
    (hassets : request.assets ≠ []) (hsources : Sources w.files request.contentRoot root ds)
    (hd : d.Proper) (hother : ∀ d' ∈ ds, d'.names ≠ d.names) :
    let run := compileAll request [.transforms registry] (ds.map (·.path request.contentRoot)) w
    collect run.1 = .ok artifacts → run.2.files.LinkFreeBelow request.assets →
      run.2.stage.metadata.at? (RealPath.toPath (root ++ d.names)) =
        w.stage.metadata.at? (RealPath.toPath (root ++ d.names)) := by
  intro run h hfree
  induction ds generalizing w artifacts with
  | nil => rfl
  | cons d' ds ih =>
    obtain ⟨a, rest, hfirst, hrest, rfl⟩ := compileAll_cons h
    let path := d'.path request.contentRoot
    let w₁ := (compile request [.transforms registry] path w).2
    have hcompile : compile request [.transforms registry] path w = (.ok a, w₁) := Prod.ext hfirst rfl
    have hd' := hsources.proper d' List.mem_cons_self
    have htail : Sources w.files request.contentRoot root ds :=
      hsources.of_subset (List.subset_cons_self d' ds)
    have hrooted₁ := (compile_extends hsources.rooted hcompile).1
    obtain ⟨-, changed, hlater, -⟩ := compileAll_below hcontent hassets htail.proper hrooted₁ hrest hfree
    obtain ⟨text, assets, -, -, -, -, -, -, hextends, hstage⟩ :=
      compile_below hcontent hassets hd' hsources.rooted (hlater.linkFreeBelow hfree) hcompile
    have hrest' := ih (htail.grow_module hextends hrooted₁) (List.forall_mem_cons.mp hother).2 hrest hfree
    have hne : FilePath.parts (w.files.canonical path) ≠
        FilePath.parts (RealPath.toPath (root ++ d.names)) := by
      rw [hsources.canonical_path List.mem_cons_self]
      intro hsame
      have hplaces := RealPath.toPath_inj (List.forall_mem_append.mpr ⟨hsources.isName, hd'.isName⟩)
        (List.forall_mem_append.mpr ⟨hsources.isName, hd.isName⟩) hsame
      exact (List.forall_mem_cons.mp hother).1 (List.append_cancel_left hplaces)
    refine hrest'.trans ?_
    rw [hstage, metadata_transformed, MetadataStore.at?_insert, if_neg hne]

end Bundle

end StaticSite
