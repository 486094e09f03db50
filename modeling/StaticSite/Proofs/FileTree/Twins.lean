import StaticSite.Proofs.FileTree.Alike
import StaticSite.Proofs.FileTree.Listing
import StaticSite.Proofs.FileTree.Removal

/-!
# Twin trees

Well-formed trees that are alike have the same items in some order. So not only does every path lead to the same
in both: every directory lists the same, and every walk meets the same files. Twins stay twins whatever is done
to both.
-/
namespace StaticSite.FileTree

variable {t t' : FileTree} {follow : Bool} {p q : RealPath} {path : FilePath}

/-! ## Names -/

/-- A way that begins at names, and goes by names, leads to names. -/
theorem Way.isName {parts : List FilePath.Part} {w : Walk} (h : Way t follow p parts w)
    (hp : ∀ n ∈ p, FilePath.IsName n) (hparts : ∀ n, .name n ∈ parts → FilePath.IsName n) :
    (∀ q, w = .arrived q → ∀ n ∈ q, FilePath.IsName n) ∧
      ∀ d target rest, w = .link d target rest →
        (∀ n ∈ d, FilePath.IsName n) ∧ ∀ n, .name n ∈ rest → FilePath.IsName n := by
  have hrest {part : FilePath.Part} {rest : List FilePath.Part}
      (hparts : ∀ n, .name n ∈ part :: rest → FilePath.IsName n) (n : Text) (hn : .name n ∈ rest) :
      FilePath.IsName n := hparts n (List.mem_cons_of_mem _ hn)
  have hlonger {p : RealPath} {n : Text} {rest : List FilePath.Part} (hp : ∀ m ∈ p, FilePath.IsName m)
      (hparts : ∀ m, .name m ∈ .name n :: rest → FilePath.IsName m) : ∀ m ∈ p ++ [n], FilePath.IsName m :=
    List.forall_mem_append.mpr ⟨hp, List.forall_mem_singleton.mpr (hparts n List.mem_cons_self)⟩
  induction h with
  | arrived p => exact ⟨fun q hq => by obtain rfl := Walk.arrived.inj hq; exact hp, nofun⟩
  | root _ ih => exact ih nofun (hrest hparts)
  | here _ _ ih => exact ih hp (hrest hparts)
  | up _ _ ih => exact ih (fun n hn => hp n (List.mem_of_mem_dropLast hn)) (hrest hparts)
  | name _ _ _ ih => exact ih (hlonger hp hparts) (hrest hparts)
  | link _ _ _ =>
    refine ⟨nofun, fun d target rest hw => ?_⟩
    obtain ⟨rfl, -, rfl⟩ := Walk.link.inj hw
    exact ⟨hp, hrest hparts⟩
  | stay _ _ _ =>
    refine ⟨fun q hq => ?_, nofun⟩
    obtain rfl := Walk.arrived.inj hq
    exact hlonger hp hparts

theorem isName_of_resolveFrom {links : Nat} {parts : List FilePath.Part}
    (h : t.resolveFrom follow links p parts = .ok q) (hp : ∀ n ∈ p, FilePath.IsName n)
    (hparts : ∀ n, .name n ∈ parts → FilePath.IsName n) : ∀ n ∈ q, FilePath.IsName n := by
  induction links generalizing p parts with
  | zero => cases h
  | succ links ih =>
    rw [resolveFrom_eq_ok_iff] at h
    obtain hway | ⟨d, target, rest, hway, hrest⟩ := h
    · exact (hway.isName hp hparts).1 q rfl
    · obtain ⟨hd, hnames⟩ := (hway.isName hp hparts).2 d target rest rfl
      refine ih hrest hd fun n hn => ?_
      exact (List.mem_append.mp hn).elim FilePath.isName_of_mem_parts (hnames n)

/-- Where a path leads is told by names. -/
theorem isName_of_resolve (h : t.resolve follow path = .ok q) : ∀ n ∈ q, FilePath.IsName n := by
  rw [resolve_eq (ne_nil_of_resolve h)] at h
  exact isName_of_resolveFrom h nofun fun _ => FilePath.isName_of_mem_parts

/-! ## Trees on disk -/

/-- A well-formed tree without an item for the root, which is a directory in any case. -/
structure OnDisk (t : FileTree) : Prop where
  formed : t.WellFormed
  rootless : ∀ entry ∈ t.items, entry.1 ≠ []

instance (t : FileTree) : Decidable t.OnDisk :=
  decidable_of_iff (t.WellFormed ∧ ∀ entry ∈ t.items, entry.1 ≠ [])
    ⟨fun h => ⟨h.1, h.2⟩, fun h => ⟨h.formed, h.rootless⟩⟩

namespace OnDisk

theorem set {n : Text} {item : Item} (h : t.OnDisk) (hp : t.get? p = some .directory)
    (hitem : t.get? (p ++ [n]) = some .directory → item = .directory)
    (hname : ∀ m ∈ p ++ [n], FilePath.IsName m) : (t.set (p ++ [n]) item).OnDisk where
  formed := by
    refine ⟨?_, h.formed.rooted.set hp hitem, ?_⟩
    · rw [FileTree.set, List.map_cons, List.nodup_cons]
      refine ⟨fun hmem => ?_, h.formed.nodup.sublist (List.filter_sublist.map _)⟩
      obtain ⟨entry, hentry, heq⟩ := List.mem_map.mp hmem
      simp [heq] at hentry
    · refine List.forall_mem_cons.mpr ⟨hname, fun entry hentry => ?_⟩
      exact h.formed.isName entry (List.mem_of_mem_filter hentry)
  rootless := by
    refine List.forall_mem_cons.mpr ⟨by simp, fun entry hentry => ?_⟩
    exact h.rootless entry (List.mem_of_mem_filter hentry)

/-- A tree with fewer items is on disk if what stands in it stands in directories. -/
theorem sublist {items : List (RealPath × Item)} (h : t.OnDisk) (hitems : items.Sublist t.items)
    (hrooted : Rooted ⟨items⟩) : OnDisk ⟨items⟩ where
  formed := ⟨h.formed.nodup.sublist (hitems.map _), hrooted,
    fun entry hentry => h.formed.isName entry (hitems.subset hentry)⟩
  rootless entry hentry := h.rootless entry (hitems.subset hentry)

/-- What stands at a place other than the root is an item. -/
theorem mem_items_iff (h : t.OnDisk) {entry : RealPath × Item} :
    entry ∈ t.items ↔ entry.1 ≠ [] ∧ t.get? entry.1 = some entry.2 :=
  ⟨fun hmem => ⟨h.rootless entry hmem, h.formed.get?_of_mem (h.rootless entry hmem) hmem⟩,
    fun hget => mem_of_get? hget.1 hget.2⟩

theorem write {content : List UInt8} (h : t.OnDisk) (hwrite : t.write path content = .ok t') : t'.OnDisk := by
  obtain ⟨p, n, hresolve, hp, hdirectory, -, rfl⟩ := write_ok h.formed.rooted hwrite
  exact h.set hp (fun hget => absurd hget hdirectory) (isName_of_resolve hresolve)

theorem createDirectory (h : t.OnDisk) (hmade : t.createDirectory path = .ok t') : t'.OnDisk := by
  obtain ⟨p, n, hresolve, hp, -, rfl⟩ := createDirectory_ok h.formed.rooted hmade
  exact h.set hp (fun _ => rfl) (isName_of_resolve hresolve)

theorem createDirectoriesFrom {fuel : Nat} (h : t.OnDisk)
    (hmade : FileTree.createDirectoriesFrom fuel t path = .ok t') : t'.OnDisk :=
  createDirectoriesFrom_preserves (fun _ _ _ ht => ht.createDirectory) h hmade

theorem removeAll (h : t.OnDisk) (path : FilePath) : (t.removeAll path).1.OnDisk := by
  have hrooted := removeAll_rooted h.formed.rooted path
  rcases removeAll_cases t path with htree | ⟨p, item, -, ⟨-, -, htree⟩ | ⟨-, htree | htree⟩⟩
  · rwa [htree]
  · rw [htree] at hrooted ⊢
    exact h.sublist List.filter_sublist hrooted
  · rw [htree] at hrooted ⊢
    exact h.sublist List.filter_sublist hrooted
  · rw [htree] at hrooted ⊢
    exact h.sublist (List.filter_sublist.trans List.filter_sublist) hrooted

end OnDisk

/-! ## Removing from trees that are alike -/

namespace Alike

theorem erase (h : Alike t t') (p : RealPath) : Alike (t.erase p) (t'.erase p) := by
  intro q
  rw [get?_erase, get?_erase, h q]

theorem clear (h : Alike t t') (p : RealPath) : Alike (t.clear p) (t'.clear p) := by
  intro q
  rw [get?_clear, get?_clear, h q]

theorem removeEmptied (h : Alike t t') (path : FilePath) :
    ChangeAlike (t.removeEmptied path) (t'.removeEmptied path) := by
  unfold FileTree.removeEmptied
  rw [← h.resolve]
  cases t.resolve false path with
  | error e =>
    dsimp only
    split_ifs
    · exact .changed h
    · exact .failed e
  | ok q =>
    dsimp only
    rw [← h q]
    split
    · exact .changed h
    · exact .failed _
    · exact .failed _
    · exact .failed _
    · exact .changed (h.erase q)

end Alike

/-! ## Twins -/

/-- Trees on disk with the same at every place. -/
structure Twins (t t' : FileTree) : Prop where
  alike : t.Alike t'
  onDisk : t.OnDisk
  onDisk' : t'.OnDisk

/-- The results of one change to twins: twins again, or one error. -/
inductive ChangeTwins : Except FileError FileTree → Except FileError FileTree → Prop where
  | changed {t t' : FileTree} (twins : Twins t t') : ChangeTwins (.ok t) (.ok t')
  | failed (e : FileError) : ChangeTwins (.error e) (.error e)

theorem ChangeAlike.twins {r r' : Except FileError FileTree} (h : ChangeAlike r r')
    (hdisk : ∀ t, r = .ok t → t.OnDisk) (hdisk' : ∀ t, r' = .ok t → t.OnDisk) : ChangeTwins r r' := by
  cases h with
  | changed halike => exact .changed ⟨halike, hdisk _ rfl, hdisk' _ rfl⟩
  | failed e => exact .failed e

namespace Twins

theorem perm (h : Twins t t') : t.items.Perm t'.items := by
  refine (List.perm_ext_iff_of_nodup h.onDisk.formed.nodup.of_map h.onDisk'.formed.nodup.of_map).mpr fun entry => ?_
  rw [h.onDisk.mem_items_iff, h.onDisk'.mem_items_iff, h.alike]

/-! ### Reading -/

theorem pathExists (h : Twins t t') (path : FilePath) : t.pathExists path = t'.pathExists path := by
  simp only [FileTree.pathExists, h.alike.find?]

theorem isFile (h : Twins t t') (path : FilePath) : t.isFile path = t'.isFile path := by
  simp only [FileTree.isFile, h.alike.find?]

theorem canonical? (h : Twins t t') (path : FilePath) : t.canonical? path = t'.canonical? path := by
  simp only [FileTree.canonical?, h.alike.find?]

theorem readBytes (h : Twins t t') (path : FilePath) : t.readBytes path = t'.readBytes path := by
  simp only [FileTree.readBytes, h.alike.find?]

/-- A directory lists the same in twins. -/
theorem children (h : Twins t t') (p : RealPath) : t.children p = t'.children p := by
  have hperm : (t.children p).Perm (t'.children p) := by
    have hpairwise := h.onDisk.formed.pairwise_children p
    have hpairwise' := h.onDisk'.formed.pairwise_children p
    refine (List.perm_ext_iff_of_nodup ?_ ?_).mpr fun ⟨n, item⟩ => ?_
    · exact hpairwise.imp fun hlt heq => absurd (congrArg Prod.fst heq) hlt.ne
    · exact hpairwise'.imp fun hlt heq => absurd (congrArg Prod.fst heq) hlt.ne
    · rw [mem_children_iff, mem_children_iff, h.perm.mem_iff]
  refine hperm.eq_of_pairwise (fun a b _ _ hab hba => absurd (hab.trans hba) (lt_irrefl _))
    (h.onDisk.formed.pairwise_children p) (h.onDisk'.formed.pairwise_children p)

theorem filesFrom (h : Twins t t') (passOver : Text → Bool → Bool) (fuel : Nat) (p : RealPath) (path : FilePath) :
    t.filesFrom passOver fuel p path = t'.filesFrom passOver fuel p path := by
  induction fuel generalizing p path with
  | zero => rfl
  | succ fuel ih => simp only [FileTree.filesFrom, h.children, ih]

theorem files (h : Twins t t') (passOver : Text → Bool → Bool) (path : FilePath) :
    t.files passOver path = t'.files passOver path := by
  simp only [FileTree.files, h.alike.find?, h.filesFrom, h.perm.length_eq]

/-! ### Changing -/

theorem write (h : Twins t t') (path : FilePath) (content : List UInt8) :
    ChangeTwins (t.write path content) (t'.write path content) :=
  (h.alike.write path content).twins (fun _ => h.onDisk.write) fun _ => h.onDisk'.write

theorem createDirectories (h : Twins t t') (path : FilePath) :
    ChangeTwins (t.createDirectories path) (t'.createDirectories path) :=
  (h.alike.createDirectoriesFrom _ path).twins (fun _ => h.onDisk.createDirectoriesFrom)
    fun _ => h.onDisk'.createDirectoriesFrom

theorem copy (h : Twins t t') (source target : FilePath) :
    ChangeTwins (t.copy source target) (t'.copy source target) := by
  unfold FileTree.copy
  rw [← h.alike.find?, ← h.readBytes, ← h.alike.resolve]
  cases t.find? true source with
  | error e => exact .failed e
  | ok found =>
    cases t.readBytes source with
    | error e => exact .failed e
    | ok content =>
      cases t.resolve true target with
      | error e => exact .failed e
      | ok q => exact h.write target _

theorem removeAll (h : Twins t t') (path : FilePath) :
    (t.removeAll path).2 = (t'.removeAll path).2 ∧ Twins (t.removeAll path).1 (t'.removeAll path).1 := by
  have hparts : (t.removeAll path).2 = (t'.removeAll path).2 ∧
      Alike (t.removeAll path).1 (t'.removeAll path).1 := by
    unfold FileTree.removeAll
    rw [← h.alike.find?]
    cases t.find? false path with
    | error e => exact ⟨rfl, h.alike⟩
    | ok found =>
      obtain ⟨p, item⟩ := found
      cases item with
      | file content => exact ⟨rfl, h.alike⟩
      | link target => exact ⟨rfl, h.alike.erase p⟩
      | directory =>
        have hcleared := h.alike.clear p
        have hemptied := hcleared.removeEmptied path
        dsimp only
        generalize (t.clear p).removeEmptied path = r, (t'.clear p).removeEmptied path = r' at hemptied
        cases hemptied with
        | changed halike => exact ⟨rfl, halike⟩
        | failed e => exact ⟨rfl, hcleared⟩
  exact ⟨hparts.1, hparts.2, h.onDisk.removeAll path, h.onDisk'.removeAll path⟩

end Twins

end StaticSite.FileTree
