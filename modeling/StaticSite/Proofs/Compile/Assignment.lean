import Mathlib.Data.List.Pairwise
import StaticSite.Proofs.Compile.OutputMap

/-!
# Entries and the modules they are given

Whatever the entries and the artifacts are, an entry is given a module that is called like its document, save for
the hash, unless a later entry is called so too. So every entry has a module, and each its own, or the first entry
without one is reported; and the order of the artifacts matters only when two of them are called alike.
-/
namespace StaticSite.OutputMap

/-! ## Content hashes -/

/-- What is taken for a content hash. -/
structure IsHash (t : Text) : Prop where
  long : Digest.shortLength ≤ t.length
  alphanumeric : ∀ c ∈ t, Text.isAsciiAlphanumeric c = true

/-- A text, and what is left of it without a dash and a content hash at its end: all of it, if nothing stands in
front of such an end. -/
inductive Unhashed : Text → Text → Prop
  | hashed {base hash : Text} (hbase : base ≠ []) (hhash : IsHash hash) : Unhashed (base ++ '-' :: hash) base
  | plain {t : Text} (h : ∀ base hash, base ≠ [] → IsHash hash → t ≠ base ++ '-' :: hash) : Unhashed t t

variable {t key base hash : Text}

theorem IsHash.no_dash (h : IsHash hash) : '-' ∉ hash := by
  intro hdash
  exact absurd (h.alphanumeric _ hdash) (by decide)

theorem exists_last_dash (h : '-' ∈ t) : ∃ base hash, t = base ++ '-' :: hash ∧ '-' ∉ hash := by
  obtain ⟨after, before, heq, hafter⟩ := List.eq_append_cons_of_mem (List.mem_reverse.mpr h)
  refine ⟨before.reverse, after.reverse, ?_, by simpa using hafter⟩
  simpa using congrArg List.reverse heq

theorem takeWhile_last_dash (base : Text) (h : '-' ∉ hash) :
    (base ++ '-' :: hash).reverse.takeWhile (· != '-') = hash.reverse := by
  rw [List.reverse_append, List.reverse_cons, List.append_assoc, List.takeWhile_append_of_pos]
  · simp
  · intro c hc
    have hne : c ≠ '-' := fun heq => h (heq ▸ List.mem_reverse.mp hc)
    simpa using hne

/-- A text is cut at its last dash in one way. -/
theorem last_dash_unique {base' hash' : Text} (h : '-' ∉ hash) (h' : '-' ∉ hash')
    (heq : base ++ '-' :: hash = base' ++ '-' :: hash') : base = base' ∧ hash = hash' := by
  have htake := takeWhile_last_dash base h
  rw [heq, takeWhile_last_dash base' h', List.reverse_inj] at htake
  subst htake
  exact ⟨List.append_cancel_right heq, rfl⟩

/-- Only what stands behind the last dash can be a hash. -/
theorem dropHash_of_not_hash (hdash : '-' ∉ hash) (h : ¬(base ≠ [] ∧ IsHash hash)) :
    dropHash (base ++ '-' :: hash) = base ++ '-' :: hash := by
  have hbase : (base ++ '-' :: hash).length - hash.length - 1 = base.length := by
    simp only [List.length_append, List.length_cons]
    omega
  simp only [dropHash, takeWhile_last_dash base hdash, List.reverse_reverse, hbase, List.take_left]
  apply if_neg
  intro hcondition
  simp only [Bool.and_eq_true, Bool.not_eq_true', List.isEmpty_eq_false_iff, decide_eq_true_eq,
    List.all_eq_true] at hcondition
  obtain ⟨⟨⟨-, hne⟩, hlong⟩, halphanumeric⟩ := hcondition
  exact h ⟨hne, hlong, halphanumeric⟩

theorem dropHash_of_not_mem (h : '-' ∉ t) : dropHash t = t := by
  have htake : t.reverse.takeWhile (· != '-') = t.reverse := by
    refine List.takeWhile_eq_self_iff.mpr fun c hc => ?_
    have hne : c ≠ '-' := fun heq => h (heq ▸ List.mem_reverse.mp hc)
    simpa using hne
  simp [dropHash, htake]

theorem unhashed_dropHash (t : Text) : Unhashed t (dropHash t) := by
  by_cases hdash : '-' ∈ t
  · obtain ⟨base, hash, rfl, hlast⟩ := exists_last_dash hdash
    by_cases hhash : base ≠ [] ∧ IsHash hash
    · rw [dropHash_append hhash.1 hhash.2.long hhash.2.alphanumeric]
      exact .hashed hhash.1 hhash.2
    · rw [dropHash_of_not_hash hlast hhash]
      refine .plain fun base' hash' hbase' hhash' hsplit => hhash ?_
      obtain ⟨rfl, rfl⟩ := last_dash_unique hlast hhash'.no_dash hsplit
      exact ⟨hbase', hhash'⟩
  · rw [dropHash_of_not_mem hdash]
    refine .plain fun base hash _ _ hsplit => hdash ?_
    simp [hsplit]

theorem unhashed_iff : Unhashed t key ↔ dropHash t = key := by
  constructor
  · intro h
    cases h with
    | hashed hbase hhash => exact dropHash_append hbase hhash.long hhash.alphanumeric
    | plain h =>
      -- dropping a hash leaves the text as it is, or contradicts that it has none
      have hdropped := unhashed_dropHash t
      generalize dropHash t = key at hdropped
      cases hdropped with
      | hashed hbase hhash => exact absurd rfl (h _ _ hbase hhash)
      | plain => rfl
  · rintro rfl
    exact unhashed_dropHash t

/-! ## Modules and the entries that they are taken for -/

variable {keys : List (Text × Text)} {entries : Table FilePath} {contentRoot assets source : FilePath}
  {artifacts : List Artifact} {a : Artifact} {name key : Text}

/-- An artifact that a document may have been compiled to: it is the module of some entry, and is called like the
document, each below its own root, without the extensions and the content hash. -/
structure Serves (contentRoot assets source : FilePath) (a : Artifact) : Prop where
  entry : a.kind = .entry
  path : Unhashed (pathKey assets a.path) (pathKey contentRoot source)

/-- An entry that is left without a module: no artifact serves its document, or a later entry has a document of the
same path without extension. -/
def LeftOut (entries : Table FilePath) (contentRoot assets : FilePath) (artifacts : List Artifact)
    (name : Text) : Prop :=
  ∃ source, (name, source) ∈ entries ∧
    ((∀ a ∈ artifacts, ¬Serves contentRoot assets source a) ∨
      ∃ later ∈ entries, name < later.1 ∧ pathKey contentRoot later.2 = pathKey contentRoot source)

/-- Artifacts that are called differently, whatever their hashes. -/
def Apart (assets : FilePath) (a b : Artifact) : Prop :=
  ∀ key, Unhashed (pathKey assets a.path) key → ¬Unhashed (pathKey assets b.path) key

theorem apart_iff {b : Artifact} :
    Apart assets a b ↔ dropHash (pathKey assets a.path) ≠ dropHash (pathKey assets b.path) := by
  simp only [Apart, unhashed_iff]
  constructor
  · exact fun h heq => h _ rfl heq.symm
  · rintro h _ rfl heq
    exact h heq.symm

instance : Std.Symm (Apart assets) := ⟨fun _ _ h key hb ha => h key ha hb⟩

/-- A path leads to the last entry that has it. -/
theorem lookup_bySource_eq_some_iff (h : entries.Ascending) :
    (bySource entries contentRoot).lookup key = some name ↔
      ∃ source, (name, source) ∈ entries ∧ pathKey contentRoot source = key ∧
        ∀ later ∈ entries, pathKey contentRoot later.2 = key → later.1 ≤ name := by
  rw [bySource_eq, ← Table.get?_ofEntries,
    Table.get?_ofEntries_map h fun entry => pathKey contentRoot entry.2]
  constructor
  · rintro ⟨⟨name', source⟩, hmem, hkey, rfl, hlast⟩
    exact ⟨source, hmem, hkey, hlast⟩
  · rintro ⟨source, hmem, hkey, hlast⟩
    exact ⟨(name, source), hmem, hkey, rfl, hlast⟩

theorem owner?_eq_some_iff (h : entries.Ascending) :
    owner? (bySource entries contentRoot) assets a = some name ↔
      ∃ source, (name, source) ∈ entries ∧ Serves contentRoot assets source a ∧
        ∀ later ∈ entries, pathKey contentRoot later.2 = pathKey contentRoot source → later.1 ≤ name := by
  unfold owner?
  split_ifs with hkind
  · rw [lookup_bySource_eq_some_iff h]
    constructor
    · rintro ⟨source, hmem, hkey, hlast⟩
      exact ⟨source, hmem, ⟨hkind, unhashed_iff.mpr hkey.symm⟩, hkey ▸ hlast⟩
    · rintro ⟨source, hmem, hserves, hlast⟩
      have hkey := unhashed_iff.mp hserves.path
      exact ⟨source, hmem, hkey.symm, hkey ▸ hlast⟩
  · constructor
    · nofun
    · rintro ⟨source, -, hserves, -⟩
      exact absurd hserves.entry hkind

/-- The modules that some artifacts give. -/
def modulesOf (keys : List (Text × Text)) (assets : FilePath) (artifacts : List Artifact) : Table FilePath :=
  artifacts.foldl (addArtifact keys assets) []

theorem modulesOf_concat (keys : List (Text × Text)) (assets : FilePath) (artifacts : List Artifact) (a : Artifact) :
    modulesOf keys assets (artifacts ++ [a]) = addArtifact keys assets (modulesOf keys assets artifacts) a := by
  rw [modulesOf, List.foldl_append]
  rfl

theorem ascending_modulesOf (keys : List (Text × Text)) (assets : FilePath) (artifacts : List Artifact) :
    (modulesOf keys assets artifacts).Ascending := by
  induction artifacts using List.reverseRecOn with
  | nil => exact .nil
  | append_singleton artifacts a ih =>
    rw [modulesOf_concat, addArtifact_eq]
    split
    · exact ih.insert ..
    · exact ih

/-- Of the artifacts that are taken for one entry the last one counts. -/
theorem get?_modulesOf (keys : List (Text × Text)) (assets : FilePath) (artifacts : List Artifact) (name : Text) :
    (modulesOf keys assets artifacts).get? name =
      (artifacts.reverse.find? fun a => owner? keys assets a = some name).map (·.path) := by
  induction artifacts using List.reverseRecOn with
  | nil => rfl
  | append_singleton artifacts a ih =>
    rw [modulesOf_concat, addArtifact_eq, List.reverse_append, List.reverse_singleton, List.singleton_append,
      List.find?_cons]
    cases howner : owner? keys assets a with
    | none => simpa using ih
    | some other =>
      rw [Table.get?_insert, ih]
      by_cases hname : name = other
      · simp [hname]
      · simp [hname, Ne.symm hname]

theorem exists_of_get?_modulesOf {path : FilePath} (h : (modulesOf keys assets artifacts).get? name = some path) :
    ∃ a ∈ artifacts, owner? keys assets a = some name ∧ a.path = path := by
  rw [get?_modulesOf] at h
  obtain ⟨a, hfind, hpath⟩ := Option.map_eq_some_iff.mp h
  refine ⟨a, ?_, by simpa using List.find?_some hfind, hpath⟩
  simpa using List.mem_of_find?_eq_some hfind

theorem contains_modulesOf_iff :
    (modulesOf keys assets artifacts).contains name = true ↔ ∃ a ∈ artifacts, owner? keys assets a = some name := by
  rw [Table.contains, get?_modulesOf, Option.isSome_map, List.find?_isSome]
  simp

theorem source_unique (h : entries.Ascending) {source' : FilePath} (hmem : (name, source) ∈ entries)
    (hmem' : (name, source') ∈ entries) : source = source' := by
  have hget := Table.get?_of_mem h.nodup hmem
  rw [Table.get?_of_mem h.nodup hmem'] at hget
  exact (Option.some.inj hget).symm

/-- Artifacts that are called differently may change places. -/
theorem modulesOf_perm (hentries : entries.Ascending) {artifacts' : List Artifact} (hperm : artifacts.Perm artifacts')
    (h : (artifacts.filter (·.kind = .entry)).Pairwise (Apart assets)) :
    modulesOf (bySource entries contentRoot) assets artifacts =
      modulesOf (bySource entries contentRoot) assets artifacts' := by
  refine hperm.foldl_eq' (fun a ha b hb modules => ?_) []
  simp only [addArtifact_eq]
  cases howner : owner? (bySource entries contentRoot) assets a with
  | none => rfl
  | some name =>
    cases howner' : owner? (bySource entries contentRoot) assets b with
    | none => rfl
    | some name' =>
      by_cases hname : name = name'
      · -- both serve one document, so they are called alike and must be one
        obtain ⟨source, hmem, hserves, -⟩ := (owner?_eq_some_iff hentries).mp howner
        obtain ⟨source', hmem', hserves', -⟩ := (owner?_eq_some_iff hentries).mp howner'
        obtain rfl := source_unique hentries hmem (hname ▸ hmem')
        have hsame : a = b := by
          by_contra hne
          have hmema : a ∈ artifacts.filter (·.kind = .entry) := by simpa using ⟨ha, hserves.entry⟩
          have hmemb : b ∈ artifacts.filter (·.kind = .entry) := by simpa using ⟨hb, hserves'.entry⟩
          exact h.forall hmema hmemb hne _ hserves.path hserves'.path
        rw [hsame, hname]
      · exact Table.insert_comm (Ne.symm hname) ..

/-- An entry has no module just when it is left out. -/
theorem not_contains_iff (h : entries.Ascending) :
    name ∈ entries.names ∧ (!(modulesOf (bySource entries contentRoot) assets artifacts).contains name) = true ↔
      LeftOut entries contentRoot assets artifacts name := by
  rw [Bool.not_eq_true', ← Bool.not_eq_true, contains_modulesOf_iff]
  simp only [owner?_eq_some_iff h]
  constructor
  · rintro ⟨hname, hnone⟩
    obtain ⟨⟨_, source⟩, hmem, rfl⟩ := List.mem_map.mp hname
    refine ⟨source, hmem, ?_⟩
    by_contra! hserved
    obtain ⟨⟨a, ha, hserves⟩, hlast⟩ := hserved
    refine hnone ⟨a, ha, source, hmem, hserves, fun later hlater hkey => ?_⟩
    by_contra! hlt
    exact hlast later hlater hlt hkey
  · rintro ⟨source, hmem, hout⟩
    refine ⟨List.mem_map_of_mem hmem, ?_⟩
    rintro ⟨a, ha, source', hmem', hserves, hlast⟩
    obtain rfl := source_unique h hmem hmem'
    rcases hout with hnone | ⟨later, hlater, hlt, hkey⟩
    · exact hnone a ha hserves
    · exact absurd (hlast later hlater hkey) hlt.not_ge

theorem ofArtifacts_eq_ok_iff (h : entries.Ascending) {modules : Table FilePath} :
    ofArtifacts entries contentRoot assets artifacts = .ok modules ↔
      (∀ name, ¬LeftOut entries contentRoot assets artifacts name) ∧
        modules = modulesOf (bySource entries contentRoot) assets artifacts := by
  simp only [← not_contains_iff h, not_and]
  rw [ofArtifacts, ← modulesOf]
  split
  · rename_i name hfind
    have hname := List.mem_of_find?_eq_some hfind
    have hnot := List.find?_some hfind
    constructor
    · intro hok
      cases hok
    · rintro ⟨hall, -⟩
      exact absurd hnot (hall name hname)
  · rename_i hnone
    rw [List.find?_eq_none] at hnone
    constructor
    · intro hok
      exact ⟨hnone, (Except.ok.inj hok).symm⟩
    · rintro ⟨-, rfl⟩
      rfl

/-- The entry that is reported is the first that is left out. -/
theorem isLeast_of_ofArtifacts (h : entries.Ascending) {e : OutputMapError}
    (herror : ofArtifacts entries contentRoot assets artifacts = .error e) :
    ∃ name, e = .missingArtifact name ∧ IsLeast {n | LeftOut entries contentRoot assets artifacts n} name := by
  simp only [← not_contains_iff h]
  rw [ofArtifacts, ← modulesOf] at herror
  split at herror
  · rename_i name hfind
    exact ⟨name, (Except.error.inj herror).symm, Table.isLeast_of_find? h hfind⟩
  · cases herror

theorem mem_names_modulesOf_iff (h : entries.Ascending)
    (hserved : ∀ name, ¬LeftOut entries contentRoot assets artifacts name) (name : Text) :
    name ∈ (modulesOf (bySource entries contentRoot) assets artifacts).names ↔ name ∈ entries.names := by
  constructor
  · intro hname
    obtain ⟨a, -, howner⟩ := contains_modulesOf_iff.mp ((Table.contains_eq_true_iff ..).mpr hname)
    obtain ⟨source, hmem, -⟩ := (owner?_eq_some_iff h).mp howner
    exact List.mem_map_of_mem hmem
  · intro hname
    have hout := hserved name
    rw [← not_contains_iff h, not_and, Bool.not_eq_true', Bool.not_eq_false] at hout
    exact (Table.contains_eq_true_iff ..).mp (hout hname)

/-- An artifact is taken for one entry. -/
theorem name_unique {name' : Text} {path : FilePath} (hpath : (modulesOf keys assets artifacts).get? name = some path)
    (hpath' : (modulesOf keys assets artifacts).get? name' = some path) : name = name' := by
  obtain ⟨a, -, howner, rfl⟩ := exists_of_get?_modulesOf hpath
  obtain ⟨b, -, howner', hsame⟩ := exists_of_get?_modulesOf hpath'
  unfold owner? at howner howner'
  split_ifs at howner howner'
  rw [hsame, howner] at howner'
  exact Option.some.inj howner'

/-- An output map has the entries for its names, and gives each the path of an artifact that serves its document,
no two the same. There is none just when an entry is left out, and then the least such entry is reported. Where no
two modules of entries are called alike, their order does not matter. -/
theorem ofArtifacts_assigns (contentRoot assets : FilePath) (artifacts : List Artifact) (h : entries.Ascending) :
    (∀ modules, ofArtifacts entries contentRoot assets artifacts = .ok modules →
      modules.names = entries.names ∧
      (∀ name path, modules.get? name = some path → ∃ source, entries.get? name = some source ∧
        ∃ a ∈ artifacts, Serves contentRoot assets source a ∧ a.path = path) ∧
      ∀ name name' path, modules.get? name = some path → modules.get? name' = some path → name = name') ∧
    ((∃ e, ofArtifacts entries contentRoot assets artifacts = .error e) ↔
      ∃ name, LeftOut entries contentRoot assets artifacts name) ∧
    (∀ e, ofArtifacts entries contentRoot assets artifacts = .error e → ∃ name, e = .missingArtifact name ∧
      IsLeast {n | LeftOut entries contentRoot assets artifacts n} name) ∧
    ∀ artifacts', artifacts.Perm artifacts' →
      (artifacts.filter (·.kind = .entry)).Pairwise (Apart assets) →
      ofArtifacts entries contentRoot assets artifacts' = ofArtifacts entries contentRoot assets artifacts := by
  refine ⟨?_, ⟨?_, ?_⟩, fun e => isLeast_of_ofArtifacts h, ?_⟩
  · intro modules hmodules
    obtain ⟨hserved, rfl⟩ := (ofArtifacts_eq_ok_iff h).mp hmodules
    refine ⟨?_, ?_, fun name name' path => name_unique⟩
    · exact Table.names_eq_of_mem_iff (ascending_modulesOf ..) h (mem_names_modulesOf_iff h hserved)
    · intro name path hpath
      obtain ⟨a, ha, howner, hsame⟩ := exists_of_get?_modulesOf hpath
      obtain ⟨source, hmem, hserves, -⟩ := (owner?_eq_some_iff h).mp howner
      exact ⟨source, Table.get?_of_mem h.nodup hmem, a, ha, hserves, hsame⟩
  · rintro ⟨e, he⟩
    obtain ⟨name, -, hleast⟩ := isLeast_of_ofArtifacts h he
    exact ⟨name, hleast.1⟩
  · rintro ⟨name, hname⟩
    cases hresult : ofArtifacts entries contentRoot assets artifacts with
    | error e => exact ⟨e, rfl⟩
    | ok modules => exact absurd hname (((ofArtifacts_eq_ok_iff h).mp hresult).1 name)
  · intro artifacts' hperm hapart
    rw [ofArtifacts, ofArtifacts, ← modulesOf, ← modulesOf, modulesOf_perm h hperm hapart]

namespace TwoPages

/-- Two documents; the name of one looks like a name with a hash. -/
def pages : Table FilePath :=
  [("blog/my-notebook", "/p/content/blog/my-notebook.mdx"), ("index", "/p/content/index.md")]

def index : Artifact := ⟨"/p/dist/_assets/index-11223344.js", .entry⟩

def notebook : Artifact := ⟨"/p/dist/_assets/blog/my-notebook-0f9e8d7c.js", .entry⟩

def runtime : Artifact := ⟨"/p/dist/_assets/runtime-99999999.js", .chunk⟩

/-- Each page has its module, in whatever order the modules come; the one that has none is reported. -/
theorem modules_in_any_order :
    let modules := ofArtifacts pages "/p/content" "/p/dist/_assets"
    pages.Ascending ∧ modules [runtime, index, notebook] = .ok [("blog/my-notebook", notebook.path), ("index", index.path)] ∧
      modules [notebook, index, runtime] = modules [runtime, index, notebook] ∧
      modules [runtime, notebook] = .error (.missingArtifact "index") ∧
      IsLeast {n | LeftOut pages "/p/content" "/p/dist/_assets" [runtime, notebook] n} "index".toList := by
  have hpages : pages.Ascending := List.pairwise_pair.mpr (by decide)
  obtain ⟨-, -, -, horder⟩ :=
    ofArtifacts_assigns "/p/content" "/p/dist/_assets" [runtime, index, notebook] hpages
  obtain ⟨-, -, hmissing, -⟩ := ofArtifacts_assigns "/p/content" "/p/dist/_assets" [runtime, notebook] hpages
  obtain ⟨_, hname, hleast⟩ := hmissing (.missingArtifact "index") rfl
  obtain rfl := OutputMapError.missingArtifact.inj hname
  refine ⟨hpages, rfl, horder _ (List.reverse_perm _).symm ?_, rfl, hleast⟩
  refine List.pairwise_pair.mpr (apart_iff.mpr ?_)
  decide +kernel

end TwoPages

end StaticSite.OutputMap
