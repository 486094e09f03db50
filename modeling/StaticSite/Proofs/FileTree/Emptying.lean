import StaticSite.Proofs.FileTree.Twins

/-!
# Emptying a directory

A directory below a base is removed with all in it and made anew, with the directories that lead to it. Whatever
stood in it before, and whether it was there at all, what is left is the same.
-/
namespace StaticSite.FileTree

variable {t t' : FileTree} {way : List FilePath.Part} {base place : RealPath} {ns : List Text} {path : FilePath}

/-- The tree without a place and what is below it. -/
def without (place : RealPath) (t : FileTree) : FileTree := (t.clear place).erase place

theorem contains_without (place : RealPath) (t : FileTree) : Contains t (t.without place) :=
  fun _ _ h => contains_clear place t _ _ (contains_erase place (t.clear place) _ _ h)

/-- A path that leads to a base and from there by names, through no link. The way to the base does not lead
through the place of these names, and the path ends with the last of them. -/
structure Outlet (t : FileTree) (way : List FilePath.Part) (base : RealPath) (ns : List Text) (path : FilePath) :
    Prop where
  parts : FilePath.parts path = way ++ ns.map .name
  named : ns ≠ []
  ends : ((Text.splitOn '/' path).filter fun part => !part.isEmpty).getLast? = ns.getLast?
  leads : (t.without (base ++ ns)).Base way base
  plain : t.Plain base ns

namespace Outlet

/-- The base is where it is in every tree that has at least what is left without the place. -/
theorem base_of_contains (h : t.Outlet way base ns path) (hcontains : Contains t' (t.without (base ++ ns))) :
    t'.Base way base := by
  refine ⟨resolveFrom_of_contains hcontains (fun part hpart => ?_) h.leads.leads h.leads.directory,
    hcontains _ _ h.leads.directory⟩
  have hmem : part ∈ (FilePath.parts path).tail := by
    rw [h.parts]
    cases way with
    | nil => cases hpart
    | cons first rest => exact List.mem_append_left _ hpart
  exact ne_root_of_mem_tail_parts hmem

theorem toBase (h : t.Outlet way base ns path) : t.Base way base := h.base_of_contains (contains_without _ t)

/-- The last name is no dot and no two dots. -/
theorem exists_ends (h : t.Outlet way base ns path) :
    ∃ n, ((Text.splitOn '/' path).filter fun part => !part.isEmpty).getLast? = some n ∧ FilePath.IsName n := by
  obtain ⟨init, n, rfl⟩ := (List.eq_nil_or_concat' ns).resolve_left h.named
  refine ⟨n, ?_, FilePath.isName_of_mem_parts (p := path) ?_⟩
  · rw [h.ends, List.getLast?_concat]
  · rw [h.parts]
    simp

/-- A directory is removed with all in it. -/
theorem removeAll (h : t.Outlet way base ns path) (hrooted : t.Rooted)
    (hget : t.get? (base ++ ns) = some .directory) : t.removeAll path = (t.without (base ++ ns), .ok ()) := by
  have hfind : t.find? false path = .ok (base ++ ns, .directory) := by
    have hresolve : t.resolve (false || path.getLast? == some '/') path = .ok (base ++ ns) :=
      h.toBase.resolve_of_get? hrooted h.plain h.named h.parts hget
    simp only [find?, hresolve, hget, bind, Except.bind]
  have hcleared : (t.clear (base ++ ns)).Base way base := h.base_of_contains (contains_erase _ _)
  have hgetCleared : (t.clear (base ++ ns)).get? (base ++ ns) = some .directory := by
    rw [get?_clear, if_neg (fun hbelow => lt_irrefl _ hbelow.2), hget]
  have hplain : (t.clear (base ++ ns)).Plain base ns := fun ms hne hms target hlink =>
    h.plain ms hne hms target (contains_clear _ t _ _ hlink)
  have hresolve : (t.clear (base ++ ns)).resolve false path = .ok (base ++ ns) :=
    hcleared.resolve_of_get? (hrooted.clear _) hplain h.named h.parts hgetCleared
  obtain ⟨n, hends, hname⟩ := h.exists_ends
  have hdot : n ≠ ['.'] := hname.ne_dot
  have hdots : n ≠ ['.', '.'] := hname.ne_dots
  have hemptied : (t.clear (base ++ ns)).removeEmptied path = .ok (t.without (base ++ ns)) := by
    simp only [removeEmptied, hresolve, hgetCleared, hends]
    split
    · rename_i hnone
      cases hnone
    · rename_i hlast
      exact absurd (Option.some.inj hlast) hdot
    · rename_i hlast
      exact absurd (Option.some.inj hlast) hdots
    · rename_i hlink _ _
      cases hlink
    · rfl
  simp only [FileTree.removeAll, hfind, hemptied]

/-- The directory is made, with those that lead to it and nothing else. -/
theorem createDirectories (h : t.Outlet way base ns path) {t₁ : FileTree} (hbase : t₁.Base way base)
    (hrooted : t₁.Rooted) (hopen : t₁.Open base ns) :
    ∃ t', t₁.createDirectories path = .ok t' ∧
      ∀ p, t'.get? p = if p <+: base ++ ns then some .directory else t₁.get? p := by
  have hlength : ns.length ≤ path.length + 1 := by
    have hle := FilePath.length_parts_le path
    rw [h.parts, List.length_append, List.length_map] at hle
    omega
  obtain ⟨t', hmade, hdirectory, hgrowth⟩ := hbase.createDirectoriesFrom hrooted hopen h.parts hlength
  have hrooted' : t'.Rooted := (createDirectories_spec hrooted hmade).1
  refine ⟨t', hmade, fun p => ?_⟩
  split_ifs with hp
  · obtain ⟨rest, hrest⟩ := hp
    rw [← hrest] at hdirectory
    by_cases hnil : rest = []
    · rwa [hnil, List.append_nil] at hdirectory
    · exact hrooted'.directory hnil hdirectory
  · exact (hgrowth p).resolve_right fun hnew => hp hnew.1

end Outlet

/-! ## Trees that differ in a directory -/

namespace DifferBelow

end DifferBelow

end StaticSite.FileTree
