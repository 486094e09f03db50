import StaticSite.Proofs.Compile.OutputMap
import StaticSite.Proofs.FilePath.Parts

/-!
# Where modules are written

The module of an entry below the content root is written below the directory of the modules, under the
directories of the entry and its stem with a hash. Entries whose modules are written to one place have one
path without extension.
-/
namespace StaticSite.DocumentPlace

variable {d d' : DocumentPlace} {root path path' : FilePath} {request : BundleRequest}

/-- A path that leads from a root to a document at a place. -/
def IsAt (d : DocumentPlace) (root path : FilePath) : Prop :=
  FilePath.parts path = FilePath.parts root ++ d.names.map .name

instance (d : DocumentPlace) (root path : FilePath) : Decidable (d.IsAt root path) :=
  inferInstanceAs (Decidable (FilePath.parts path = FilePath.parts root ++ d.names.map .name))

theorem IsAt.isName (h : d.IsAt root path) : ∀ n ∈ d.names, FilePath.IsName n := by
  intro n hn
  have hmem : FilePath.Part.name n ∈ FilePath.parts path := by
    rw [IsAt] at h
    rw [h]
    exact List.mem_append_right _ (List.mem_map_of_mem hn)
  exact FilePath.isName_of_mem_parts hmem

/-- The file name of the module of an entry. -/
def moduleName (d : DocumentPlace) (module : Text) : Text :=
  d.stem ++ '-' :: Digest.short (Text.bytes module) ++ ".js"

/-- The file name of a module is a name, whatever the stem is. -/
theorem IsAt.isName_moduleName (h : d.IsAt root path) (module : Text) :
    FilePath.IsName (d.moduleName module) := by
  have hname := h.isName d.fileName (by simp [names])
  have hstem := (FilePath.cutExtension_isSegment hname.ne_nil hname.no_slash).2
  have hhash := Digest.not_mem_short (c := '/') (by decide) (Text.bytes module)
  have hslash : '/' ∉ d.stem ++ '-' :: Digest.short (Text.bytes module) ++ ".js" := by
    simp only [List.mem_append, List.mem_cons, not_or]
    exact ⟨⟨hstem, by decide, hhash⟩, by decide⟩
  have hlength : 2 < (d.stem ++ '-' :: Digest.short (Text.bytes module) ++ ".js").length := by
    simp only [List.length_append, List.length_cons]
    have hjs : (".js".toList).length = 3 := rfl
    omega
  unfold moduleName
  refine ⟨by simp, hslash, ?_, ?_⟩
  · intro heq
    rw [heq] at hlength
    exact absurd hlength (by decide)
  · intro heq
    rw [heq] at hlength
    exact absurd hlength (by decide)

theorem IsAt.relativeOrName (h : d.IsAt root path) :
    FilePath.parts (OutputMap.relativeOrName root path) = d.names.map .name := by
  obtain ⟨relative, hrelative, hparts⟩ := FilePath.parts_relativeTo? d.names_ne_nil h
  rw [OutputMap.relativeOrName, hrelative]
  exact hparts

/-- The path of an entry without its extension says in which directories it stands, and under which stem. -/
theorem IsAt.pathKey (h : d.IsAt root path) :
    OutputMap.pathKey root path = Text.join "/"
      (d.directories ++ ((FilePath.partOf? d.stem).toList.filterMap FilePath.Part.name?)) :=
  FilePath.toSlash_dropExtension h.relativeOrName

theorem IsAt.modulePath_eq (h : d.IsAt request.contentRoot path) (module : Text) :
    ∃ directory, Bundle.modulePath request path module =
        FilePath.join directory (FilePath.ofNames [d.moduleName module]) ∧
      FilePath.parts directory = FilePath.parts request.assets ++ d.directories.map .name := by
  have hrelative := h.relativeOrName
  have hsplit : d.names.map FilePath.Part.name =
      d.directories.map .name ++ [.name d.fileName] := by simp [names]
  obtain ⟨parent, hparent, hdirectories⟩ := FilePath.parts_parent? (hrelative.trans hsplit)
  have hstem : FilePath.fileStem? (OutputMap.relativeOrName request.contentRoot path) = some d.stem :=
    FilePath.fileStem?_of_parts hrelative
  refine ⟨FilePath.join request.assets parent, ?_, FilePath.parts_join_of_names _ hdirectories⟩
  simp only [Bundle.modulePath, hparent, hstem, Option.getD_some]
  rfl

theorem IsAt.parts_modulePath (h : d.IsAt request.contentRoot path) (module : Text) :
    FilePath.parts (Bundle.modulePath request path module) = FilePath.parts request.assets ++
      (d.moduleNames (Digest.short (Text.bytes module))).map .name := by
  obtain ⟨directory, hpath, hdirectory⟩ := h.modulePath_eq module
  have hname : ∀ n ∈ [d.moduleName module], FilePath.IsName n :=
    List.forall_mem_singleton.mpr (h.isName_moduleName module)
  rw [hpath, FilePath.parts_join_of_names _ (FilePath.parts_ofNames hname), hdirectory, moduleNames,
    List.map_append, List.append_assoc]
  rfl

/-- The path of a module does not end in a slash. -/
theorem IsAt.getLast?_modulePath (h : d.IsAt request.contentRoot path) (module : Text) :
    (Bundle.modulePath request path module).getLast? ≠ some '/' := by
  obtain ⟨directory, hpath, -⟩ := h.modulePath_eq module
  have hname : ∀ n ∈ [d.moduleName module], FilePath.IsName n :=
    List.forall_mem_singleton.mpr (h.isName_moduleName module)
  rw [hpath, FilePath.getLast?_join directory (by simp) hname]
  exact FilePath.getLast?_ofNames (by simp) hname

/-- Above the module of an entry stand the directories of the entry. -/
theorem IsAt.parent?_modulePath (h : d.IsAt request.contentRoot path) (module : Text) :
    ∃ parent, FilePath.parent? (Bundle.modulePath request path module) = some parent ∧
      FilePath.parts parent = FilePath.parts request.assets ++ d.directories.map .name := by
  have hparts := h.parts_modulePath module
  rw [moduleNames, List.map_append, ← List.append_assoc] at hparts
  exact FilePath.parts_parent? hparts

/-- Modules are written to one place only for entries of one path without extension. -/
theorem IsAt.pathKey_of_moduleNames (h : d.IsAt root path) (h' : d'.IsAt root path')
    {message message' : List UInt8}
    (heq : d.moduleNames (Digest.short message) = d'.moduleNames (Digest.short message')) :
    OutputMap.pathKey root path = OutputMap.pathKey root path' := by
  obtain ⟨hdirectories, hstem, -⟩ := moduleNames_inj heq
  rw [h.pathKey, h'.pathKey, hdirectories, hstem]

end StaticSite.DocumentPlace
