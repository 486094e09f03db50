import StaticSite.Component.Registry
import StaticSite.Proofs.EsModule.Statement
import StaticSite.Proofs.Table

/-!
# What the registry knows

The files of a name, and what holds of every registry that grows from the empty one: a registered name has
a file.
-/
namespace StaticSite.Registry

variable {registry : Registry} {name : Text} {path : FilePath}

theorem files_of_not_contains (h : registry.contains name = false) : registry.files name = [] := by
  have hnone : registry.candidates.get? name = none := by
    simpa [contains, Table.contains] using h
  simp [files, hnone]

/-- A name with a file stands in the registry with its files. -/
theorem mem_candidates (h : path ∈ registry.files name) : (name, registry.files name) ∈ registry.candidates := by
  cases hget : registry.candidates.get? name with
  | none => simp [files, hget] at h
  | some paths =>
    have hfiles : registry.files name = paths := by simp [files, hget]
    obtain ⟨before, after, hcandidates, -⟩ := List.lookup_eq_some_iff.mp hget
    rw [hfiles, hcandidates]
    simp

theorem files_insert (other : Text) :
    (registry.insert name path).files other =
      if other = name then
        if (registry.files name).any (FilePath.same path) then registry.files name
        else registry.files name ++ [path]
      else registry.files other := by
  rw [files, insert]
  dsimp only
  rw [Table.get?_insert]
  split_ifs <;> rfl

/-- Every registered name has a file. -/
def Populated (registry : Registry) : Prop := ∀ name, registry.contains name = true → registry.files name ≠ []

theorem populated_empty : empty.Populated := by
  intro name h
  cases h

theorem Populated.insert (h : registry.Populated) (name : Text) (path : FilePath) :
    (registry.insert name path).Populated := by
  intro other hother
  rw [files_insert]
  split_ifs with heq hany
  · intro hnil
    simp [hnil] at hany
  · simp
  · refine h other ?_
    simpa [contains, Registry.insert, Table.contains_insert, heq] using hother

theorem Populated.insertFile (h : registry.Populated) (path : FilePath) :
    (registry.insertFile path).Populated := by
  rw [Registry.insertFile]
  split
  · exact h.insert _ _
  · exact h

/-- The registry of a directory knows a file for each of its names. -/
theorem populated_scan (tree : FileTree) (directory : FilePath) : (scan tree directory).Populated := by
  have hfold (paths : List FilePath) (r : Registry) (hr : r.Populated) :
      (paths.foldl Registry.insertFile r).Populated := by
    induction paths generalizing r with
    | nil => exact hr
    | cons path paths ih => exact ih _ (hr.insertFile path)
  exact hfold _ _ populated_empty

/-- No name and no path in the registry holds white space. -/
def Unspaced (registry : Registry) : Prop :=
  ∀ entry ∈ registry.candidates, Text.Unspaced entry.1 ∧ ∀ path ∈ entry.2, Text.Unspaced path

instance : DecidablePred Unspaced := fun registry =>
  inferInstanceAs (Decidable (∀ entry ∈ registry.candidates,
    Text.Unspaced entry.1 ∧ ∀ path ∈ entry.2, Text.Unspaced path))

theorem Unspaced.unspaced_name (h : registry.Unspaced) (hpath : path ∈ registry.files name) : Text.Unspaced name :=
  (h _ (mem_candidates hpath)).1

theorem Unspaced.unspaced_path (h : registry.Unspaced) (hpath : path ∈ registry.files name) : Text.Unspaced path :=
  (h _ (mem_candidates hpath)).2 path hpath

end StaticSite.Registry
