import StaticSite.Compile.Bundle
import StaticSite.Proofs.Document.Source

/-!
# Modules and entries

The file name of a module is the stem of its document with a content hash, so the path of a module without
the hash is the entry of the document, whatever dashes, dots and hashes stand in the stem. Hence every entry
is given the module of its own document.
-/
namespace StaticSite

theorem Text.isAsciiAlphanumeric_hexDigit {n : Nat} (h : n < 16) :
    Text.isAsciiAlphanumeric (Text.hexDigit n) = true := by
  revert n
  decide

namespace Digest

theorem hex_alphanumeric (w : UInt32) : ∀ c ∈ hex w, Text.isAsciiAlphanumeric c = true := by
  intro c hc
  obtain ⟨i, -, rfl⟩ := List.mem_map.mp hc
  exact Text.isAsciiAlphanumeric_hexDigit (Nat.mod_lt _ (by decide))

theorem short_alphanumeric (message : List UInt8) :
    ∀ c ∈ short message, Text.isAsciiAlphanumeric c = true := by
  intro c hc
  obtain ⟨w, -, hw⟩ := List.mem_flatMap.mp (List.mem_of_mem_take hc)
  exact hex_alphanumeric w c hw

theorem length_short (message : List UInt8) : (short message).length = shortLength := by
  have hdigits : ((sha256 message).flatMap hex).length = 64 := by
    simp [sha256, hex]
  rw [short, List.length_take, hdigits]
  rfl

theorem not_mem_short {c : Char} (h : Text.isAsciiAlphanumeric c = false) (message : List UInt8) :
    c ∉ short message := by
  intro hc
  rw [short_alphanumeric message c hc] at h
  cases h

end Digest

namespace OutputMap

/-- A dash and a hash behind something are dropped. -/
theorem dropHash_append {t hash : Text} (ht : t ≠ []) (hlength : Digest.shortLength ≤ hash.length)
    (hhash : ∀ c ∈ hash, Text.isAsciiAlphanumeric c = true) : dropHash (t ++ '-' :: hash) = t := by
  have htake : (t ++ '-' :: hash).reverse.takeWhile (· != '-') = hash.reverse := by
    rw [List.reverse_append, List.reverse_cons, List.append_assoc, List.takeWhile_append_of_pos]
    · simp
    · intro c hc
      have halphanumeric := hhash c (List.mem_reverse.mp hc)
      have hdash : c ≠ '-' := by
        rintro rfl
        exact absurd halphanumeric (by decide)
      simpa using hdash
  have hbase : (t ++ '-' :: hash).length - hash.length - 1 = t.length := by
    simp only [List.length_append, List.length_cons]
    omega
  have hshorter : hash.length < t.length + (hash.length + 1) := by omega
  have hall : hash.all Text.isAsciiAlphanumeric = true := List.all_eq_true.mpr hhash
  simp only [dropHash, htake, List.reverse_reverse, hbase, List.take_left]
  simp [hshorter, ht, hlength, hall]

end OutputMap

namespace DocumentPlace

variable {d : DocumentPlace} {content assets : FilePath}

/-- The names of the module with a hash, below the directory of the modules. -/
def moduleNames (d : DocumentPlace) (hash : Text) : List Text :=
  d.directories ++ [d.stem ++ '-' :: hash ++ ".js"]

theorem moduleNames_ne_nil (d : DocumentPlace) (hash : Text) : d.moduleNames hash ≠ [] := by
  simp [moduleNames]

theorem cutExtension_module (stem hash : Text) :
    FilePath.cutExtension (stem ++ '-' :: hash ++ ".js") = (stem ++ '-' :: hash, some "js".toList) :=
  FilePath.cutExtension_append (by simp) (by decide)

theorem Proper.isName_moduleNames (h : d.Proper) (message : List UInt8) :
    ∀ n ∈ d.moduleNames (Digest.short message), FilePath.IsName n := by
  have hslash := Digest.not_mem_short (c := '/') (by decide) message
  refine List.forall_mem_append.mpr ⟨h.isName_directories, ?_⟩
  simp only [List.forall_mem_singleton, List.append_assoc, List.cons_append]
  refine h.isName_stem_append ?_
  simpa using hslash

theorem pathKey_path (hcontent : content ≠ []) (h : d.Proper) :
    OutputMap.pathKey content (d.path content) = d.entry := by
  rw [OutputMap.pathKey, OutputMap.relativeOrName, relativeTo?_path hcontent h, Option.getD_some]
  exact entryName_names h

theorem Proper.entry_ne_nil (h : d.Proper) : d.entry ≠ [] := by
  refine FilePath.ofNames_ne_nil (by simp) ?_
  exact List.forall_mem_append.mpr ⟨h.isName_directories, by simpa using h.isName_stem⟩

/-- The path of a module without its hash is the entry of its document. -/
theorem dropHash_pathKey (hassets : assets ≠ []) (h : d.Proper) (message : List UInt8) :
    OutputMap.dropHash (OutputMap.pathKey assets
      (FilePath.join assets (FilePath.ofNames (d.moduleNames (Digest.short message))))) = d.entry := by
  let hash := Digest.short message
  have hnames := h.isName_moduleNames message
  have hstem : ∀ n ∈ d.directories ++ [d.stem ++ '-' :: hash], FilePath.IsName n := by
    refine List.forall_mem_append.mpr ⟨h.isName_directories, ?_⟩
    have hslash := Digest.not_mem_short (c := '/') (by decide) message
    have hname : FilePath.IsName (d.stem ++ '-' :: hash) := h.isName_stem_append (by simpa using hslash)
    simpa using hname
  have hkey : OutputMap.pathKey assets
      (FilePath.join assets (FilePath.ofNames (d.moduleNames hash))) = d.entry ++ '-' :: hash := by
    rw [OutputMap.pathKey, OutputMap.relativeOrName,
      FilePath.relativeTo?_join hassets (d.moduleNames_ne_nil hash) hnames, Option.getD_some,
      moduleNames, FilePath.dropExtension_ofNames hnames, cutExtension_module, FilePath.toSlash_ofNames hstem]
    rw [FilePath.ofNames, Text.join_append_last]
    rfl
  rw [hkey]
  exact OutputMap.dropHash_append h.entry_ne_nil (Digest.length_short message).ge
    (Digest.short_alphanumeric message)

/-- Modules with hashes of one length are at one place only if their documents have one entry. -/
theorem moduleNames_inj {d' : DocumentPlace} {message message' : List UInt8}
    (h : d.moduleNames (Digest.short message) = d'.moduleNames (Digest.short message')) :
    d.directories = d'.directories ∧ d.stem = d'.stem ∧ Digest.short message = Digest.short message' := by
  obtain ⟨hdirectories, hlast⟩ := List.append_inj' h rfl
  obtain ⟨hname, -⟩ := List.append_inj' (List.singleton_inj.mp hlast) rfl
  have hlength : ('-' :: Digest.short message).length = ('-' :: Digest.short message').length := by
    simp only [List.length_cons, Digest.length_short]
  obtain ⟨hstem, hhash⟩ := List.append_inj' hname hlength
  exact ⟨hdirectories, hstem, List.tail_eq_of_cons_eq hhash⟩

/-- A module is not written where a document stands. -/
theorem names_ne_moduleNames {d' : DocumentPlace} (h : d.Proper) (root root' : RealPath)
    (message : List UInt8) : root ++ d.names ≠ root' ++ d'.moduleNames (Digest.short message) := by
  intro heq
  rw [names, moduleNames, ← List.append_assoc, ← List.append_assoc] at heq
  have hname := List.singleton_inj.mp (List.append_inj' heq rfl).2
  obtain ⟨e, he, hdocument⟩ := h.extension
  rw [hname, cutExtension_module] at he
  obtain rfl := Option.some.inj he
  exact absurd hdocument (by decide)

/-- Where the module of a document is written. -/
theorem modulePath_path {request : BundleRequest} (hcontent : request.contentRoot ≠ [])
    (hassets : request.assets ≠ []) (h : d.Proper) (module : Text) :
    Bundle.modulePath request (d.path request.contentRoot) module =
      FilePath.join request.assets
        (FilePath.ofNames (d.moduleNames (Digest.short (Text.bytes module)))) := by
  have hnames := h.isName_moduleNames (Text.bytes module)
  have hrelative : OutputMap.relativeOrName request.contentRoot (d.path request.contentRoot) =
      FilePath.ofNames d.names := by
    rw [OutputMap.relativeOrName, relativeTo?_path hcontent h, Option.getD_some]
  have hstem : FilePath.fileStem? (FilePath.ofNames d.names) = some d.stem := by
    rw [FilePath.fileStem?, names, FilePath.fileName?_ofNames h.isName]
    rfl
  have hparent : FilePath.parent? (FilePath.ofNames d.names) = some (FilePath.ofNames d.directories) := by
    rw [names, FilePath.parent?_ofNames h.isName]
  simp only [Bundle.modulePath, hrelative, hstem, hparent, Option.getD_some]
  by_cases hds : d.directories = []
  · rw [moduleNames, hds]
    exact FilePath.join_nil_join hassets _
  · rw [moduleNames, ← FilePath.join_join request.assets hds (by simp) hnames]
    rfl

end DocumentPlace

namespace OutputMap

/-- The entry that an artifact is the module of, by its path. -/
def owner? (keys : List (Text × Text)) (assets : FilePath) (a : Artifact) : Option Text :=
  if a.kind = .entry then keys.lookup (dropHash (pathKey assets a.path)) else none

theorem addArtifact_eq (keys : List (Text × Text)) (assets : FilePath) (modules : Table FilePath)
    (a : Artifact) :
    addArtifact keys assets modules a =
      match owner? keys assets a with
      | some name => modules.insert name a.path
      | none => modules := by
  unfold addArtifact owner?
  split_ifs <;> rfl

variable {keys : List (Text × Text)} {assets : FilePath} {name : Text}

/-- An artifact that no later one is taken for the same entry as. -/
theorem get?_foldl_addArtifact {before after : List Artifact} {a : Artifact} (modules : Table FilePath)
    (ha : owner? keys assets a = some name) (hafter : ∀ b ∈ after, owner? keys assets b ≠ some name) :
    ((before ++ a :: after).foldl (addArtifact keys assets) modules).get? name = some a.path := by
  rw [List.foldl_append, List.foldl_cons, addArtifact_eq, ha]
  dsimp only
  generalize before.foldl (addArtifact keys assets) modules = found
  induction after using List.reverseRecOn with
  | nil => exact Table.get?_insert_self name a.path found
  | append_singleton after b ih =>
    obtain ⟨hinit, hb⟩ := List.forall_mem_append.mp hafter
    have hb := hb b (List.mem_singleton_self b)
    rw [List.foldl_append, List.foldl_cons, List.foldl_nil, addArtifact_eq]
    cases hentry : owner? keys assets b with
    | none => exact ih hinit
    | some other =>
      have hne : name ≠ other := fun heq => hb (heq ▸ hentry)
      exact (Table.get?_insert_of_ne hne _ _).trans (ih hinit)

/-- Every name with a module is that of an artifact. -/
theorem mem_names_foldl_addArtifact {artifacts : List Artifact}
    (h : name ∈ Table.names (artifacts.foldl (addArtifact keys assets) [])) :
    ∃ a ∈ artifacts, owner? keys assets a = some name := by
  induction artifacts using List.reverseRecOn with
  | nil => simp [Table.names] at h
  | append_singleton artifacts a ih =>
    rw [List.foldl_append, List.foldl_cons, List.foldl_nil, addArtifact_eq] at h
    cases hentry : owner? keys assets a with
    | none =>
      rw [hentry] at h
      obtain ⟨b, hb, hname⟩ := ih h
      exact ⟨b, List.mem_append_left _ hb, hname⟩
    | some other =>
      rw [hentry, ← Table.contains_eq_true_iff, Table.contains_insert, Bool.or_eq_true,
        decide_eq_true_eq, Table.contains_eq_true_iff] at h
      rcases h with rfl | h
      · exact ⟨a, by simp, hentry⟩
      · obtain ⟨b, hb, hname⟩ := ih h
        exact ⟨b, List.mem_append_left _ hb, hname⟩

theorem bySource_eq (entries : Table FilePath) (contentRoot : FilePath) :
    bySource entries contentRoot =
      (entries.map fun entry => (pathKey contentRoot entry.2, entry.1)).reverse := by
  unfold bySource
  induction entries using List.reverseRecOn with
  | nil => rfl
  | append_singleton entries entry ih =>
    rw [List.foldl_append, ih]
    simp

theorem lookup_diagonal (names : List Text) (key : Text) :
    (names.map fun name => (name, name)).lookup key = if key ∈ names then some key else none := by
  induction names with
  | nil => rfl
  | cons name names ih =>
    by_cases hkey : key = name
    · simp [hkey]
    · have hne : (key == name) = false := by simpa using hkey
      simp [List.lookup_cons, hne, hkey, ih]

/-- Entries that are named by where their documents stand are found under their own names. -/
theorem lookup_bySource {entries : Table FilePath} {contentRoot : FilePath}
    (h : ∀ entry ∈ entries, pathKey contentRoot entry.2 = entry.1) (key : Text) :
    (bySource entries contentRoot).lookup key = if key ∈ entries.names then some key else none := by
  have hdiagonal : (entries.map fun entry => (pathKey contentRoot entry.2, entry.1)) =
      entries.names.map fun name => (name, name) := by
    rw [Table.names, List.map_map]
    exact List.map_congr_left fun entry hentry => Prod.ext (h entry hentry) rfl
  rw [bySource_eq, hdiagonal, ← List.map_reverse, lookup_diagonal]
  simp only [List.mem_reverse]

/-- The module of a document is taken for the entry of that document. -/
theorem owner?_modulePath {entries : Table FilePath} {request : BundleRequest} {d : DocumentPlace}
    (hcontent : request.contentRoot ≠ []) (hassets : request.assets ≠ []) (hproper : d.Proper)
    (hkeys : ∀ entry ∈ entries, pathKey request.contentRoot entry.2 = entry.1)
    (hentry : d.entry ∈ entries.names) (module : Text) :
    owner? (bySource entries request.contentRoot) request.assets
      ⟨Bundle.modulePath request (d.path request.contentRoot) module, .entry⟩ = some d.entry := by
  rw [owner?, if_pos rfl, DocumentPlace.modulePath_path hcontent hassets hproper,
    DocumentPlace.dropHash_pathKey hassets hproper, lookup_bySource hkeys, if_pos hentry]

/-- An output map has what its artifacts give it, and a module for every entry. -/
theorem ofArtifacts_spec {entries modules : Table FilePath} {contentRoot assets : FilePath}
    {artifacts : List Artifact} (h : ofArtifacts entries contentRoot assets artifacts = .ok modules) :
    modules = artifacts.foldl (addArtifact (bySource entries contentRoot) assets) [] ∧
      ∀ entry ∈ entries.names, modules.contains entry = true := by
  simp only [ofArtifacts] at h
  split at h
  · cases h
  · rename_i hnone
    obtain rfl := Except.ok.inj h
    refine ⟨rfl, fun entry hentry => ?_⟩
    simpa using List.find?_eq_none.mp hnone entry hentry

/-- The module of a document stands under its entry, when all that comes later is of other entries. -/
theorem get?_ofArtifacts {entries modules : Table FilePath} {request : BundleRequest} {d : DocumentPlace}
    {later : List DocumentPlace} {module : Text} {before after : List Artifact}
    (hcontent : request.contentRoot ≠ []) (hassets : request.assets ≠ [])
    (hkeys : ∀ entry ∈ entries, pathKey request.contentRoot entry.2 = entry.1)
    (hproper : ∀ d' ∈ d :: later, d'.Proper ∧ d'.entry ∈ entries.names)
    (hother : ∀ d' ∈ later, d'.entry ≠ d.entry)
    (hafter : ∀ b ∈ after, b.kind = .chunk ∨ ∃ d' ∈ later, ∃ module,
      b = ⟨Bundle.modulePath request (d'.path request.contentRoot) module, .entry⟩)
    (h : ofArtifacts entries request.contentRoot request.assets (before ++
      ⟨Bundle.modulePath request (d.path request.contentRoot) module, .entry⟩ :: after) = .ok modules) :
    modules.get? d.entry = some (Bundle.modulePath request (d.path request.contentRoot) module) := by
  obtain ⟨hd, hentry⟩ := hproper d List.mem_cons_self
  rw [(ofArtifacts_spec h).1]
  refine get?_foldl_addArtifact [] (owner?_modulePath hcontent hassets hd hkeys hentry module) ?_
  intro b hb
  rcases hafter b hb with hchunk | ⟨d', hd', module', rfl⟩
  · simp [owner?, hchunk]
  · obtain ⟨hproper', hentry'⟩ := hproper d' (List.mem_cons_of_mem d hd')
    rw [owner?_modulePath hcontent hassets hproper' hkeys hentry' module']
    exact fun hsame => hother d' hd' (Option.some.inj hsame)

/-- The names in an output map are the entries. -/
theorem mem_names_ofArtifacts {entries modules : Table FilePath} {contentRoot : FilePath}
    {artifacts : List Artifact} (hkeys : ∀ entry ∈ entries, pathKey contentRoot entry.2 = entry.1)
    (h : ofArtifacts entries contentRoot assets artifacts = .ok modules) :
    name ∈ modules.names ↔ name ∈ entries.names := by
  obtain ⟨hmodules, hcontains⟩ := ofArtifacts_spec h
  constructor
  · intro hname
    rw [hmodules] at hname
    obtain ⟨a, -, ha⟩ := mem_names_foldl_addArtifact hname
    unfold owner? at ha
    split_ifs at ha
    rw [lookup_bySource hkeys] at ha
    split_ifs at ha with hmem
    exact Option.some.inj ha ▸ hmem
  · exact fun hname => (Table.contains_eq_true_iff name modules).mp (hcontains name hname)

end OutputMap

end StaticSite
