import Mathlib.Data.List.Nodup
import StaticSite.Proofs.Component.Registry

/-!
# Registries and their histories

A registry is what a history of insertions made it, and a history is made of names and paths. Two texts can be one
path, and then they are one file. The main statement says what the registry knows of each name in terms of the paths
that were inserted under it: nothing, one file, or a conflict. All but the order of the files depends on the set of
insertions alone.
-/
namespace StaticSite.Registry

/-! ## Distinct elements -/

section Distinct

variable {α κ : Type} {same : α → α → Bool} {key : α → κ}

/-- What another element changes in the distinct elements of a list. -/
theorem eraseDupsBy_concat (same : α → α → Bool) (xs : List α) (x : α) :
    (xs ++ [x]).eraseDupsBy same =
      if (xs.eraseDupsBy same).any (same x) then xs.eraseDupsBy same else xs.eraseDupsBy same ++ [x] := by
  have hloop (found : List α) : List.eraseDupsBy.loop same (xs ++ [x]) found =
      if (List.eraseDupsBy.loop same xs found).any (same x) then List.eraseDupsBy.loop same xs found
      else List.eraseDupsBy.loop same xs found ++ [x] := by
    induction xs generalizing found with
    | nil =>
      simp only [List.nil_append, List.eraseDupsBy.loop, List.any_reverse]
      cases found.any (same x) <;> simp
    | cons y xs ih =>
      rw [List.cons_append, List.eraseDupsBy.loop, List.eraseDupsBy.loop]
      cases found.any (same y) <;> exact ih _
  exact hloop []

/-- Among elements that are told apart by a key, each key is kept once, and none is lost. -/
theorem keys_eraseDupsBy (hsame : ∀ x y, same x y = true ↔ key x = key y) (xs : List α) :
    ((xs.eraseDupsBy same).map key).Nodup ∧
      ∀ k, k ∈ (xs.eraseDupsBy same).map key ↔ k ∈ xs.map key := by
  induction xs using List.reverseRecOn with
  | nil => exact ⟨List.nodup_nil, fun k => Iff.rfl⟩
  | append_singleton xs x ih =>
    obtain ⟨hnodup, hmem⟩ := ih
    have hknown : (xs.eraseDupsBy same).any (same x) = true ↔ key x ∈ (xs.eraseDupsBy same).map key := by
      simp only [List.any_eq_true, hsame, List.mem_map, @eq_comm _ (key x)]
    rw [eraseDupsBy_concat]
    split_ifs with hany
    · refine ⟨hnodup, fun k => ?_⟩
      rw [hmem, List.map_append, List.mem_append, List.map_singleton, List.mem_singleton, iff_self_or]
      rintro rfl
      exact (hmem _).mp (hknown.mp hany)
    · rw [hknown] at hany
      refine ⟨?_, fun k => ?_⟩
      · rw [List.map_append, List.map_singleton, ← List.concat_eq_append]
        exact hnodup.concat hany
      · simp only [List.map_append, List.mem_append, hmem]

end Distinct

/-! ## Histories -/

/-- Insertions of paths under names, the first one first. -/
abbrev History := List (Text × FilePath)

/-- The registry that a history makes of the empty one. -/
def ofHistory (history : History) : Registry :=
  history.foldl (fun r insertion => r.insert insertion.1 insertion.2) empty

/-- The paths that were inserted under a name. -/
def inserted (name : Text) (history : History) : List FilePath :=
  (history.filter fun insertion => insertion.1 == name).map (·.2)

/-- A path was inserted under a name, perhaps as another text. -/
def Inserted (history : History) (name : Text) (path : FilePath) : Prop :=
  ∃ other ∈ inserted name history, FilePath.same path other = true

/-- The histories have the same insertions, in any order and any number of times. -/
def SameInsertions (history history' : History) : Prop :=
  ∀ name path, Inserted history name path ↔ Inserted history' name path

section History

variable (history : History) (name : Text) (path : FilePath)

theorem ofHistory_concat : ofHistory (history ++ [(name, path)]) = (ofHistory history).insert name path := by
  rw [ofHistory, List.foldl_append]
  rfl

theorem inserted_concat (other : Text) :
    inserted other (history ++ [(name, path)]) =
      if name = other then inserted other history ++ [path] else inserted other history := by
  rw [inserted, List.filter_append, List.map_append]
  by_cases hname : name = other
  · rw [if_pos hname]
    simp [hname, inserted]
  · rw [if_neg hname]
    simp [hname, inserted]

theorem sameInsertions_of_perm {history history' : History} (h : history.Perm history') :
    SameInsertions history history' := by
  intro name path
  have hperm : (inserted name history).Perm (inserted name history') := (h.filter _).map _
  simp only [Inserted, hperm.mem_iff]

/-- It makes no difference to make an insertion again. -/
theorem sameInsertions_concat {history : History} {name : Text} {path : FilePath} (h : Inserted history name path) :
    SameInsertions (history ++ [(name, path)]) history := by
  intro other path'
  rw [Inserted, inserted_concat]
  split_ifs with hname
  · subst hname
    obtain ⟨known, hknown, hsame⟩ := h
    simp only [List.mem_append, List.mem_singleton, or_and_right, exists_or, exists_eq_left, Inserted]
    refine or_iff_left_of_imp fun hpath => ⟨known, hknown, ?_⟩
    simp_all [FilePath.same]
  · exact Iff.rfl

/-- The registry of a directory is made by a history, so all that is said of histories holds of it. -/
theorem scan_eq_ofHistory (tree : FileTree) (directory : FilePath) :
    scan tree directory =
      ofHistory ((tree.allFiles directory).filterMap fun path => (componentName? path).map (·, path)) := by
  have hfold (paths : List FilePath) (r : Registry) :
      paths.foldl insertFile r =
        (paths.filterMap fun path => (componentName? path).map (·, path)).foldl
          (fun r insertion => r.insert insertion.1 insertion.2) r := by
    induction paths generalizing r with
    | nil => rfl
    | cons path paths ih =>
      rw [List.foldl_cons, ih, List.filterMap_cons, insertFile]
      cases componentName? path <;> rfl
  exact hfold _ _

/-! ## What a history makes of a name -/

/-- The files of a name are the paths that were inserted under it, each where it came first. -/
theorem files_ofHistory : (ofHistory history).files name = (inserted name history).eraseDupsBy FilePath.same := by
  induction history using List.reverseRecOn with
  | nil => rfl
  | append_singleton history insertion ih =>
    obtain ⟨other, path⟩ := insertion
    rw [ofHistory_concat, files_insert, inserted_concat]
    by_cases hname : name = other
    · subst hname
      rw [if_pos rfl, if_pos rfl, ih, eraseDupsBy_concat]
    · rw [if_neg hname, if_neg (Ne.symm hname), ih]

theorem populated_ofHistory : (ofHistory history).Populated := by
  induction history using List.reverseRecOn with
  | nil => exact populated_empty
  | append_singleton history insertion ih =>
    rw [ofHistory_concat]
    exact ih.insert _ _

theorem ascending_ofHistory : (ofHistory history).candidates.Ascending := by
  induction history using List.reverseRecOn with
  | nil => exact List.Pairwise.nil
  | append_singleton history insertion ih =>
    rw [ofHistory_concat]
    exact ih.insert _ _

/-- The files of a name are told apart by their parts, and they are the paths that were inserted under it. -/
theorem parts_files_ofHistory :
    (((ofHistory history).files name).map FilePath.parts).Nodup ∧
      ∀ path, FilePath.parts path ∈ ((ofHistory history).files name).map FilePath.parts ↔
        Inserted history name path := by
  have hsame (p q : FilePath) : FilePath.same p q = true ↔ FilePath.parts p = FilePath.parts q := by
    simp [FilePath.same]
  rw [files_ofHistory]
  obtain ⟨hnodup, hmem⟩ := keys_eraseDupsBy hsame (inserted name history)
  refine ⟨hnodup, fun path => (hmem _).trans ?_⟩
  simp only [List.mem_map, Inserted, hsame, @eq_comm _ (FilePath.parts path)]

theorem contains_ofHistory_iff : (ofHistory history).contains name = true ↔ ∃ path, Inserted history name path := by
  have hmem := (parts_files_ofHistory history name).2
  constructor
  · intro hcontains
    obtain ⟨path, hpath⟩ := List.exists_mem_of_ne_nil _ (populated_ofHistory history name hcontains)
    exact ⟨path, (hmem path).mp (List.mem_map_of_mem hpath)⟩
  · rintro ⟨path, hpath⟩
    by_contra hcontains
    rw [Bool.not_eq_true] at hcontains
    have hpath := (hmem path).mpr hpath
    rw [files_of_not_contains hcontains] at hpath
    exact absurd hpath List.not_mem_nil

end History

/-! ## One file, or a conflict -/

/-- The element of a list that has no other. -/
def only? {α : Type} : List α → Option α
  | [x] => some x
  | _ => none

theorem only?_eq_some_iff {α : Type} {xs : List α} {x : α} : only? xs = some x ↔ xs = [x] := by
  unfold only?
  split <;> simp_all

variable {r r' : Registry} {name : Text}

/-- A name resolves to the only one of its files. -/
theorem map_resolve? (r : Registry) (name : Text) :
    (r.resolve? name).map FilePath.parts = only? ((r.files name).map FilePath.parts) := by
  rw [resolve?]
  match r.files name with
  | [] => rfl
  | [_] => rfl
  | _ :: _ :: _ => rfl

theorem isConflict_iff (h : ((r.files name).map FilePath.parts).Nodup) :
    r.isConflict name = true ↔
      ∃ k ∈ (r.files name).map FilePath.parts, ∃ k' ∈ (r.files name).map FilePath.parts, k ≠ k' := by
  rw [isConflict, decide_eq_true_eq, ← List.length_map (f := FilePath.parts)]
  match (r.files name).map FilePath.parts, h with
  | [], _ => simp
  | [_], _ => simp
  | k :: k' :: _, h =>
    have hne : k ≠ k' := fun heq => (List.nodup_cons.mp h).1 (heq ▸ List.mem_cons_self)
    exact iff_of_true (by simp) ⟨k, List.mem_cons_self, k', by simp, hne⟩

/-- Each name is unknown, or resolves to a file, or is in conflict. -/
theorem count_cases (h : r.Populated) (name : Text) :
    [!r.contains name, (r.resolve? name).isSome, r.isConflict name].count true = 1 := by
  have hfiles : r.contains name = !(r.files name).isEmpty := by
    cases hcontains : r.contains name with
    | false => rw [files_of_not_contains hcontains]; rfl
    | true => simpa using h name hcontains
  rw [hfiles, resolve?, isConflict]
  match r.files name with
  | [] => rfl
  | [_] => rfl
  | _ :: _ :: _ => simp

/-- The registries answer alike, but for the order of files. -/
structure AnswersAlike (r r' : Registry) : Prop where
  contains : ∀ name, r.contains name = r'.contains name
  resolve : ∀ name, (r.resolve? name).map FilePath.parts = (r'.resolve? name).map FilePath.parts
  conflict : ∀ name, r.isConflict name = r'.isConflict name
  conflictNames : r.conflicts.names = r'.conflicts.names
  size : r.size = r'.size

theorem mem_conflicts_names_iff (h : r.candidates.Ascending) (name : Text) :
    name ∈ r.conflicts.names ↔ r.isConflict name = true := by
  simp only [Table.names, conflicts, List.mem_map, List.mem_filter, decide_eq_true_eq, isConflict]
  constructor
  · rintro ⟨⟨other, paths⟩, ⟨hmem, hmany⟩, rfl⟩
    have hget := Table.get?_of_mem h.nodup hmem
    simpa [files, hget] using hmany
  · intro hmany
    obtain ⟨path, hpath⟩ := List.exists_mem_of_length_pos (Nat.zero_lt_of_lt hmany)
    exact ⟨_, ⟨mem_candidates hpath, hmany⟩, rfl⟩

/-- The order of insertions and their repetition change no answer but the order of files. -/
theorem answersAlike_of_sameInsertions {history history' : History} (h : SameInsertions history history') :
    AnswersAlike (ofHistory history) (ofHistory history') := by
  have hperm (name : Text) : (((ofHistory history).files name).map FilePath.parts).Perm
      (((ofHistory history').files name).map FilePath.parts) := by
    obtain ⟨hnodup, hmem⟩ := parts_files_ofHistory history name
    obtain ⟨hnodup', hmem'⟩ := parts_files_ofHistory history' name
    refine (List.perm_ext_iff_of_nodup hnodup hnodup').mpr fun k => ⟨fun hk => ?_, fun hk => ?_⟩
    · obtain ⟨path, -, rfl⟩ := List.mem_map.mp hk
      exact (hmem' path).mpr ((h name path).mp ((hmem path).mp hk))
    · obtain ⟨path, -, rfl⟩ := List.mem_map.mp hk
      exact (hmem path).mpr ((h name path).mpr ((hmem' path).mp hk))
  have hcontains (name : Text) : (ofHistory history).contains name = (ofHistory history').contains name := by
    rw [Bool.eq_iff_iff, contains_ofHistory_iff, contains_ofHistory_iff]
    exact exists_congr (h name)
  have hconflict (name : Text) : (ofHistory history).isConflict name = (ofHistory history').isConflict name := by
    have hlength := (hperm name).length_eq
    rw [List.length_map, List.length_map] at hlength
    rw [isConflict, isConflict, hlength]
  have hascending := ascending_ofHistory history
  have hascending' := ascending_ofHistory history'
  refine ⟨hcontains, fun name => ?_, hconflict, ?_, ?_⟩
  · rw [map_resolve?, map_resolve?]
    ext k
    rw [only?_eq_some_iff, only?_eq_some_iff]
    exact ⟨fun hk => List.perm_singleton.mp (hk ▸ (hperm name).symm),
      fun hk => List.perm_singleton.mp (hk ▸ hperm name)⟩
  · refine Table.names_eq_of_mem_iff (hascending.filter _) (hascending'.filter _) fun name => ?_
    rw [mem_conflicts_names_iff hascending, mem_conflicts_names_iff hascending', hconflict]
  · have hnames : (ofHistory history).candidates.names = (ofHistory history').candidates.names := by
      refine Table.names_eq_of_mem_iff hascending hascending' fun name => ?_
      rw [← Table.contains_eq_true_iff, ← Table.contains_eq_true_iff]
      exact Bool.eq_iff_iff.mp (hcontains name)
    simpa [Table.names, size] using congrArg List.length hnames

/-- The only file of a name is the only path that was inserted under it. -/
theorem parts_files_eq_singleton_iff (history : History) (name : Text) (path : FilePath) :
    ((ofHistory history).files name).map FilePath.parts = [FilePath.parts path] ↔
      Inserted history name path ∧ ∀ other, Inserted history name other → FilePath.same other path = true := by
  obtain ⟨hnodup, hmem⟩ := parts_files_ofHistory history name
  rw [← List.perm_singleton, List.perm_ext_iff_of_nodup hnodup (List.nodup_singleton _)]
  simp only [List.mem_singleton, ← hmem, FilePath.same, beq_iff_eq]
  constructor
  · intro h
    exact ⟨(h _).mpr rfl, fun other => (h _).mp⟩
  · rintro ⟨hpath, hothers⟩ k
    refine ⟨fun hk => ?_, fun hk => hk ▸ hpath⟩
    obtain ⟨other, -, rfl⟩ := List.mem_map.mp hk
    exact hothers other hk

theorem exists_resolve?_iff (history : History) (name : Text) (path : FilePath) :
    (∃ found, (ofHistory history).resolve? name = some found ∧ FilePath.same found path = true) ↔
      Inserted history name path ∧ ∀ other, Inserted history name other → FilePath.same other path = true := by
  rw [← parts_files_eq_singleton_iff, ← only?_eq_some_iff, ← map_resolve?, Option.map_eq_some_iff]
  simp only [FilePath.same, beq_iff_eq]

theorem isConflict_ofHistory_iff (history : History) (name : Text) :
    (ofHistory history).isConflict name = true ↔
      ∃ path other, Inserted history name path ∧ Inserted history name other ∧ FilePath.same path other = false := by
  obtain ⟨hnodup, hmem⟩ := parts_files_ofHistory history name
  rw [isConflict_iff hnodup]
  simp only [← hmem, FilePath.same, beq_eq_false_iff_ne]
  constructor
  · rintro ⟨k, hk, k', hk', hne⟩
    obtain ⟨path, -, rfl⟩ := List.mem_map.mp hk
    obtain ⟨other, -, rfl⟩ := List.mem_map.mp hk'
    exact ⟨path, other, hk, hk', hne⟩
  · rintro ⟨path, other, hpath, hother, hne⟩
    exact ⟨_, hpath, _, hother, hne⟩

/-- What a registry knows is decided by its history. A name is unknown, or it resolves to the only path that was
inserted under it, or several paths were; its files are those paths, each where it came first; and only their order
tells in which order and how often the insertions were made. -/
theorem history_decides (history : History) :
    (∀ name,
      [!(ofHistory history).contains name, ((ofHistory history).resolve? name).isSome,
        (ofHistory history).isConflict name].count true = 1 ∧
      ((ofHistory history).contains name = true ↔ ∃ path, Inserted history name path) ∧
      (∀ path, (∃ found, (ofHistory history).resolve? name = some found ∧ FilePath.same found path = true) ↔
        Inserted history name path ∧ ∀ other, Inserted history name other → FilePath.same other path = true) ∧
      ((ofHistory history).isConflict name = true ↔
        ∃ path other, Inserted history name path ∧ Inserted history name other ∧ FilePath.same path other = false) ∧
      (ofHistory history).files name = (inserted name history).eraseDupsBy FilePath.same) ∧
    ∀ history', SameInsertions history history' → AnswersAlike (ofHistory history) (ofHistory history') := by
  refine ⟨fun name => ⟨?_, ?_, ?_, ?_, ?_⟩, fun history' h => answersAlike_of_sameInsertions h⟩
  · exact count_cases (populated_ofHistory history) name
  · exact contains_ofHistory_iff history name
  · exact exists_resolve?_iff history name
  · exact isConflict_ofHistory_iff history name
  · exact files_ofHistory history name

namespace TwoButtons

/-- A card that is inserted twice, in two spellings, and two buttons. -/
def history : History :=
  [("Card", "ui/Card.tsx"), ("Button", "b/Button.tsx"), ("Card", "ui//Card.tsx"), ("Button", "a/Button.tsx")]

/-- The same insertions in another order. -/
def reordered : History :=
  [("Button", "a/Button.tsx"), ("Card", "ui//Card.tsx"), ("Button", "b/Button.tsx"), ("Card", "ui/Card.tsx")]

/-- The card resolves and the buttons are in conflict, also in another order and with a button inserted again. -/
theorem same_answers_reordered :
    let repeated : History := reordered ++ [("Button".toList, "a/Button.tsx".toList)]
    SameInsertions history repeated ∧ AnswersAlike (ofHistory history) (ofHistory repeated) ∧
      (ofHistory history).conflicts.names = ["Button".toList] ∧
      (ofHistory history).files "Button" ≠ (ofHistory repeated).files "Button" := by
  intro repeated
  have hperm : history.Perm reordered := by decide
  have hagain : SameInsertions repeated reordered :=
    sameInsertions_concat ⟨"a/Button.tsx".toList, by decide, by decide⟩
  have hsame : SameInsertions history repeated := by
    intro name path
    exact (sameInsertions_of_perm hperm name path).trans (hagain name path).symm
  exact ⟨hsame, (history_decides history).2 repeated hsame, by decide, by decide⟩

end TwoButtons

end StaticSite.Registry
