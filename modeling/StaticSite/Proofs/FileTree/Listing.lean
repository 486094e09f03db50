import Mathlib.Data.List.Nodup
import Mathlib.Data.List.Perm.Subperm
import StaticSite.FileTree.Walk
import StaticSite.Proofs.FileTree.Files

/-!
# All files of a tree

A walk meets every file below a place that no rule passes over, and meets it once: what it lists are the names
that lead to these files, in ascending order. The budget of a walk is no limit, because a way through a tree is
never longer than the list of its items.
-/
namespace StaticSite.FileTree

variable {t : FileTree} {p : RealPath} {passOver : Text → Bool → Bool} {n : Text} {item : Item} {ns : List Text}
  {fuel : Nat}

/-! ## The children of a directory -/

theorem mem_insertChild_iff {child c : Text × Item} {cs : List (Text × Item)} :
    c ∈ insertChild child cs ↔ c = child ∨ c ∈ cs := by
  induction cs with
  | nil => simp [insertChild]
  | cons d ds ih =>
    rw [insertChild]
    split_ifs
    · simp
    · simp only [List.mem_cons, ih]
      tauto

theorem mem_foldr_insertChild_iff {c : Text × Item} {cs : List (Text × Item)} :
    c ∈ cs.foldr insertChild [] ↔ c ∈ cs := by
  induction cs with
  | nil => simp
  | cons d ds ih => simp only [List.foldr_cons, mem_insertChild_iff, ih, List.mem_cons]

/-- What a directory lists is what stands in it. -/
theorem mem_children_iff : (n, item) ∈ t.children p ↔ (p ++ [n], item) ∈ t.items := by
  rw [children, mem_foldr_insertChild_iff, List.mem_filterMap]
  constructor
  · rintro ⟨⟨q, other⟩, hentry, hchild⟩
    rcases List.eq_nil_or_concat' q with rfl | ⟨init, m, rfl⟩
    · simp at hchild
    · simp only [List.getLast?_concat, List.dropLast_concat] at hchild
      split_ifs at hchild with hp
      obtain ⟨rfl, rfl⟩ := Prod.mk.inj (Option.some.inj hchild)
      exact hp ▸ hentry
  · intro h
    exact ⟨_, h, by simp⟩

theorem pairwise_insertChild {child : Text × Item} {cs : List (Text × Item)}
    (h : cs.Pairwise fun a b => a.1 < b.1) (hnew : ∀ c ∈ cs, child.1 ≠ c.1) :
    (insertChild child cs).Pairwise fun a b => a.1 < b.1 := by
  induction cs with
  | nil => simp [insertChild]
  | cons c cs ih =>
    obtain ⟨hfirst, hrest⟩ := List.pairwise_cons.mp h
    obtain ⟨hne, hnew⟩ := List.forall_mem_cons.mp hnew
    rw [insertChild]
    split_ifs with hbefore
    · have hlt := (Text.before_eq_true_iff child.1 c.1).mp hbefore
      refine List.pairwise_cons.mpr ⟨fun d hd => ?_, h⟩
      rcases List.mem_cons.mp hd with rfl | hd
      · exact hlt
      · exact hlt.trans (hfirst d hd)
    · have hnot : ¬child.1 < c.1 := fun hlt => hbefore (Text.before_of_lt hlt)
      have hlt : c.1 < child.1 := lt_of_le_of_ne (not_lt.mp hnot) hne.symm
      refine List.pairwise_cons.mpr ⟨fun d hd => ?_, ih hrest hnew⟩
      rcases mem_insertChild_iff.mp hd with rfl | hd
      · exact hlt
      · exact hfirst d hd

theorem pairwise_foldr_insertChild {cs : List (Text × Item)} (h : cs.Pairwise fun a b => a.1 ≠ b.1) :
    (cs.foldr insertChild []).Pairwise fun a b => a.1 < b.1 := by
  induction cs with
  | nil => exact List.Pairwise.nil
  | cons c cs ih =>
    obtain ⟨hfirst, hrest⟩ := List.pairwise_cons.mp h
    apply pairwise_insertChild (ih hrest)
    intro d hd
    exact hfirst d (mem_foldr_insertChild_iff.mp hd)

/-- A directory lists each name once, in ascending order. -/
theorem WellFormed.pairwise_children (h : t.WellFormed) (p : RealPath) :
    (t.children p).Pairwise fun a b => a.1 < b.1 := by
  have hkeys : t.items.Pairwise fun a b => a.1 ≠ b.1 := List.pairwise_map.mp h.nodup
  apply pairwise_foldr_insertChild
  rw [List.pairwise_filterMap]
  refine hkeys.imp fun {a b} hne c hc d hd hname => hne ?_
  obtain ⟨q, item⟩ := a
  obtain ⟨r, other⟩ := b
  -- two children of one name stand at one place
  rcases List.eq_nil_or_concat' q with rfl | ⟨init, m, rfl⟩
  · simp at hc
  rcases List.eq_nil_or_concat' r with rfl | ⟨init', m', rfl⟩
  · simp at hd
  simp only [List.getLast?_concat, List.dropLast_concat] at hc hd
  split_ifs at hc hd with hp hp'
  obtain rfl := Option.some.inj hc
  obtain rfl := Option.some.inj hd
  simp_all

/-! ## The names that lead to files -/

/-- The names that lead to files through one child of a directory, where `below` leads on from a directory. -/
def namesThrough (passOver : Text → Bool → Bool) (below : Text → List (List Text)) :
    Text × Item → List (List Text)
  | (n, .file _) => if passOver n false then [] else [[n]]
  | (n, .directory) => if passOver n true then [] else (below n).map (n :: ·)
  | (_, .link _) => []

/-- The names that lead from a place to the files below it, in the order in which a walk meets them. -/
def namesFrom (t : FileTree) (passOver : Text → Bool → Bool) : Nat → RealPath → List (List Text)
  | 0, _ => []
  | fuel + 1, p => (t.children p).flatMap (namesThrough passOver fun n => namesFrom t passOver fuel (p ++ [n]))

/-- A walk lists the paths that these names form below the path where it starts. -/
theorem filesFrom_eq_map (t : FileTree) (passOver : Text → Bool → Bool) (fuel : Nat) (p : RealPath)
    (path : FilePath) :
    t.filesFrom passOver fuel p path = (t.namesFrom passOver fuel p).map fun ns => ns.foldl FilePath.join path := by
  induction fuel generalizing p path with
  | zero => rfl
  | succ fuel ih =>
    rw [filesFrom, namesFrom, List.map_flatMap]
    congr 1
    ext1 ⟨name, item⟩
    cases item with
    | file content =>
      simp only [namesThrough]
      split_ifs <;> simp
    | directory =>
      simp only [namesThrough, ih]
      split_ifs <;> simp
    | link target => simp [namesThrough]

/-- Through a file leads its name, and through a directory its name before those that lead on from it. -/
theorem mem_namesThrough_iff {below : Text → List (List Text)} {name : Text} {item : Item} :
    ns ∈ namesThrough passOver below (name, item) ↔
      (∃ content, item = .file content ∧ passOver name false = false ∧ ns = [name]) ∨
        item = .directory ∧ passOver name true = false ∧ ∃ rest ∈ below name, ns = name :: rest := by
  cases item with
  | file content => cases hpass : passOver name false <;> simp [namesThrough, hpass]
  | directory => cases hpass : passOver name true <;> simp [namesThrough, hpass, @eq_comm _ ns]
  | link target => simp [namesThrough]

theorem exists_cons_of_mem_namesThrough {below : Text → List (List Text)} {child : Text × Item}
    (h : ns ∈ namesThrough passOver below child) : ∃ rest, ns = child.1 :: rest := by
  rcases mem_namesThrough_iff.mp h with ⟨_, -, -, hns⟩ | ⟨-, -, rest, -, hns⟩
  · exact ⟨[], hns⟩
  · exact ⟨rest, hns⟩

/-- Names that lead to a file past nothing that is passed over. -/
structure Shows (t : FileTree) (passOver : Text → Bool → Bool) (p : RealPath) (ds : List Text) (n : Text) :
    Prop where
  file : ∃ content, t.get? (p ++ (ds ++ [n])) = some (.file content)
  shown : passOver n false = false
  entered : ∀ d ∈ ds, passOver d true = false

theorem shows_cons_iff {d n : Text} {ds : List Text} :
    t.Shows passOver p (d :: ds) n ↔ passOver d true = false ∧ t.Shows passOver (p ++ [d]) ds n := by
  have hplace : p ++ [d] ++ (ds ++ [n]) = p ++ (d :: ds ++ [n]) := List.append_assoc ..
  constructor
  · intro h
    obtain ⟨hd, hds⟩ := List.forall_mem_cons.mp h.entered
    exact ⟨hd, hplace ▸ h.file, h.shown, hds⟩
  · rintro ⟨hd, h⟩
    exact ⟨hplace ▸ h.file, h.shown, List.forall_mem_cons.mpr ⟨hd, h.entered⟩⟩

theorem mem_namesFrom_iff (h : t.WellFormed) :
    ns ∈ t.namesFrom passOver fuel p ↔
      ∃ ds n, ns = ds ++ [n] ∧ ds.length < fuel ∧ t.Shows passOver p ds n := by
  induction fuel generalizing p ns with
  | zero => simp [namesFrom]
  | succ fuel ih =>
    rw [namesFrom, List.mem_flatMap]
    constructor
    · rintro ⟨⟨name, item⟩, hchild, hmem⟩
      have hget := h.get?_of_mem (by simp) (mem_children_iff.mp hchild)
      rcases mem_namesThrough_iff.mp hmem with ⟨content, rfl, hshown, rfl⟩ | ⟨rfl, hentered, rest, hrest, rfl⟩
      · exact ⟨[], name, rfl, by simp, ⟨⟨content, hget⟩, hshown, by simp⟩⟩
      · obtain ⟨ds, n, rfl, hlength, hshows⟩ := ih.mp hrest
        exact ⟨name :: ds, n, rfl, by simpa using hlength, shows_cons_iff.mpr ⟨hentered, hshows⟩⟩
    · rintro ⟨ds, n, rfl, hlength, hshows⟩
      cases ds with
      | nil =>
        obtain ⟨content, hfile⟩ := hshows.file
        exact ⟨(n, .file content), mem_children_iff.mpr (mem_of_get? (by simp) hfile),
          mem_namesThrough_iff.mpr (.inl ⟨content, rfl, hshows.shown, rfl⟩)⟩
      | cons d ds =>
        obtain ⟨hd, hbelow⟩ := shows_cons_iff.mp hshows
        obtain ⟨content, hfile⟩ := hbelow.file
        have hdirectory := h.rooted.directory (by simp) hfile
        have hrest := ih.mpr ⟨ds, n, rfl, Nat.lt_of_succ_lt_succ hlength, hbelow⟩
        exact ⟨(d, .directory), mem_children_iff.mpr (mem_of_get? (by simp) hdirectory),
          mem_namesThrough_iff.mpr (.inr ⟨rfl, hd, _, hrest, rfl⟩)⟩

/-- The files below a place are met in ascending order of their names, so each is met once. -/
theorem pairwise_namesFrom (h : t.WellFormed) : (t.namesFrom passOver fuel p).Pairwise (· < ·) := by
  induction fuel generalizing p with
  | zero => exact List.Pairwise.nil
  | succ fuel ih =>
    rw [namesFrom, List.pairwise_flatMap]
    constructor
    · rintro ⟨name, item⟩ -
      cases item with
      | file content =>
        simp only [namesThrough]
        split_ifs <;> simp
      | directory =>
        simp only [namesThrough]
        split_ifs
        · exact List.Pairwise.nil
        · rw [List.pairwise_map]
          exact ih.imp fun hlt => List.cons_lt_cons_iff.mpr (.inr ⟨rfl, hlt⟩)
      | link target => exact List.Pairwise.nil
    · refine (h.pairwise_children p).imp fun hlt ns hns ms hms => ?_
      obtain ⟨rest, rfl⟩ := exists_cons_of_mem_namesThrough hns
      obtain ⟨rest', rfl⟩ := exists_cons_of_mem_namesThrough hms
      exact List.cons_lt_cons_iff.mpr (.inl hlt)

/-- A way through a tree passes as many items as it has names. -/
theorem WellFormed.length_le (h : t.WellFormed) (hget : t.get? (p ++ ns) = some item) :
    ns.length ≤ t.items.length := by
  have hitems : ((List.range ns.length).map fun k => p ++ ns.take (k + 1)) ⊆ t.items.map (·.1) := by
    intro place hplace
    obtain ⟨k, hk, rfl⟩ := List.mem_map.mp hplace
    have hk : k < ns.length := List.mem_range.mp hk
    have hne : p ++ ns.take (k + 1) ≠ [] := by
      apply List.append_ne_nil_of_right_ne_nil
      simp only [ne_eq, List.take_eq_nil_iff, not_or]
      exact ⟨by omega, List.ne_nil_of_length_pos (by omega)⟩
    obtain ⟨other, hother⟩ : ∃ other, t.get? (p ++ ns.take (k + 1)) = some other := by
      rw [← List.take_append_drop (k + 1) ns, ← List.append_assoc] at hget
      by_cases hlast : ns.drop (k + 1) = []
      · rw [hlast, List.append_nil] at hget
        exact ⟨item, hget⟩
      · exact ⟨.directory, h.rooted.directory hlast hget⟩
    exact List.mem_map.mpr ⟨_, mem_of_get? hne hother, rfl⟩
  have hnodup : ((List.range ns.length).map fun k => p ++ ns.take (k + 1)).Nodup := by
    refine List.Nodup.map_on (fun k hk l hl heq => ?_) List.nodup_range
    have hlength := congrArg List.length (List.append_cancel_left heq)
    simp only [List.length_take] at hlength
    have hk := List.mem_range.mp hk
    have hl := List.mem_range.mp hl
    omega
  have hle := (List.subperm_of_subset hnodup hitems).length_le
  simpa using hle

/-- The names that a walk of a whole tree meets. -/
theorem mem_namesFrom_length_iff (h : t.WellFormed) :
    ns ∈ t.namesFrom passOver (t.items.length + 1) p ↔ ∃ ds n, ns = ds ++ [n] ∧ t.Shows passOver p ds n := by
  rw [mem_namesFrom_iff h]
  constructor
  · rintro ⟨ds, n, hns, -, hshows⟩
    exact ⟨ds, n, hns, hshows⟩
  · rintro ⟨ds, n, hns, hshows⟩
    obtain ⟨content, hfile⟩ := hshows.file
    have hlength := h.length_le hfile
    rw [List.length_append, List.length_singleton] at hlength
    exact ⟨ds, n, hns, by omega, hshows⟩

theorem Shows.isName {ds : List Text} (hshows : t.Shows passOver p ds n) (h : t.WellFormed) :
    ∀ m ∈ ds ++ [n], FilePath.IsName m := by
  obtain ⟨content, hfile⟩ := hshows.file
  exact (List.forall_mem_append.mp (h.isName_of_get? hfile)).2

/-- The files below a directory are listed by the names that lead to them from its path. -/
theorem files_eq_map (h : t.WellFormed) {path : FilePath} (hfind : t.find? true path = .ok (p, .directory)) :
    t.files passOver path = (t.namesFrom passOver (t.items.length + 1) p).map fun ns =>
      FilePath.join path (FilePath.ofNames ns) := by
  have hpath := ne_nil_of_resolve (resolve_of_find? hfind).1
  rw [files, hfind]
  dsimp only
  rw [filesFrom_eq_map]
  refine List.map_congr_left fun ns hns => ?_
  obtain ⟨ds, n, rfl, hshows⟩ := (mem_namesFrom_length_iff h).mp hns
  exact FilePath.foldl_join hpath (by simp) (hshows.isName h)

end StaticSite.FileTree
