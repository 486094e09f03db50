import StaticSite.Proofs.FileTree.Directories
import StaticSite.Proofs.FileTree.Files

/-!
# Removing from a tree

Removing takes away what stands at the place that a path names and below it, and nothing else, however the
path is written. While a directory is emptied its path may lose its way, but never takes another one.
-/
namespace StaticSite.FileTree

variable {t t' : FileTree} {follow : Bool} {p q : RealPath} {parts : List FilePath.Part} {path : FilePath}
  {item : Item}

/-! ## Trees with less -/

theorem get?_erase (p q : RealPath) (t : FileTree) :
    (t.erase p).get? q = if q = p ∧ q ≠ [] then none else t.get? q := by
  cases q with
  | nil => simp
  | cons n q =>
    simp only [get?, erase, lookup_filter (· != p)]
    by_cases hq : n :: q = p
    · subst hq
      simp
    · simp [hq]

theorem get?_clear (p q : RealPath) (t : FileTree) :
    (t.clear p).get? q = if p <+: q ∧ p.length < q.length then none else t.get? q := by
  cases q with
  | nil => simp
  | cons n q =>
    simp only [get?, clear, List.isEmpty_cons, Bool.false_eq_true, if_false]
    refine (lookup_filter (fun q => !(p.isPrefixOf q && p.length < q.length)) (n :: q) t.items).trans ?_
    have hkeep : (p.isPrefixOf (n :: q) && p.length < (n :: q).length) = true ↔
        p <+: n :: q ∧ p.length < (n :: q).length := by
      rw [Bool.and_eq_true, List.isPrefixOf_iff_prefix, decide_eq_true_eq]
    simp only [Bool.not_eq_true', ← Bool.not_eq_true, hkeep]
    split_ifs <;> rfl

/-- A tree has all that another one has. -/
def Contains (t t' : FileTree) : Prop := ∀ p item, t'.get? p = some item → t.get? p = some item

theorem contains_erase (p : RealPath) (t : FileTree) : Contains t (t.erase p) := by
  intro q item h
  rw [get?_erase] at h
  split_ifs at h
  exact h

theorem contains_clear (p : RealPath) (t : FileTree) : Contains t (t.clear p) := by
  intro q item h
  rw [get?_clear] at h
  split_ifs at h
  exact h

/-! ## Ways in trees with less -/

theorem Way.directory {w : Walk} {part : FilePath.Part} {rest : List FilePath.Part}
    (h : Way t follow p (part :: rest) w) (hpart : part ≠ .root) : t.get? p = some .directory := by
  cases h with
  | root _ => exact absurd rfl hpart
  | here hp _ => exact hp
  | up hp _ => exact hp
  | name hp _ _ => exact hp
  | link hp _ _ => exact hp
  | stay hp _ _ => exact hp

/-- A way that leads to something in a tree with less leads there in the whole tree. -/
theorem Way.of_contains {w : Walk} (hcontains : Contains t t') (h : Way t' follow p parts w)
    (hroot : ∀ part ∈ parts.tail, part ≠ .root) (hw : ∀ q, w = .arrived q → ∃ item, t'.get? q = some item) :
    Way t follow p parts w := by
  induction h with
  | arrived p => exact .arrived p
  | root _ ih => exact .root (ih (fun part hpart => hroot part (List.mem_of_mem_tail hpart)) hw)
  | here hp _ ih =>
    exact .here (hcontains _ _ hp) (ih (fun part hpart => hroot part (List.mem_of_mem_tail hpart)) hw)
  | up hp _ ih => exact .up (hcontains _ _ hp) (ih (fun part hpart => hroot part (List.mem_of_mem_tail hpart)) hw)
  | @name p n rest w hp hlink way ih =>
    -- something stands at the name, for the way ends or goes on there
    obtain ⟨item, hitem⟩ : ∃ item, t'.get? (p ++ [n]) = some item := by
      cases rest with
      | nil =>
        cases way
        exact hw _ rfl
      | cons part rest => exact ⟨.directory, way.directory (hroot part List.mem_cons_self)⟩
    refine .name (hcontains _ _ hp) (fun target htarget => ?_)
      (ih (fun part hpart => hroot part (List.mem_of_mem_tail hpart)) hw)
    rw [hcontains _ _ hitem] at htarget
    exact hlink target (htarget ▸ hitem)
  | link hp hlink hon => exact .link (hcontains _ _ hp) (hcontains _ _ hlink) hon
  | stay hp hlink hoff => exact .stay (hcontains _ _ hp) (hcontains _ _ hlink) hoff

theorem Way.rest_subset {d : RealPath} {target : FilePath} {rest : List FilePath.Part}
    (h : Way t follow p parts (.link d target rest)) : rest ⊆ parts.tail := by
  generalize hw : Walk.link d target rest = w at h
  induction h with
  | arrived _ => cases hw
  | root _ ih => exact fun part hpart => List.mem_of_mem_tail (ih hw hpart)
  | here _ _ ih => exact fun part hpart => List.mem_of_mem_tail (ih hw hpart)
  | up _ _ ih => exact fun part hpart => List.mem_of_mem_tail (ih hw hpart)
  | name _ _ _ ih => exact fun part hpart => List.mem_of_mem_tail (ih hw hpart)
  | link _ _ _ =>
    obtain ⟨-, -, rfl⟩ := Walk.link.inj hw
    exact List.Subset.refl rest
  | stay _ _ _ => cases hw

/-- Only the first part of a path is the root. -/
theorem ne_root_of_mem_tail_parts {part : FilePath.Part} (h : part ∈ (FilePath.parts path).tail) :
    part ≠ .root := by
  have hsegment (s : Text) : FilePath.partOf? s ≠ some .root := by
    unfold FilePath.partOf?
    split_ifs <;> simp
  have hsegments {ps : List Text} {part : FilePath.Part} (h : part ∈ ps.filterMap FilePath.partOf?) :
      part ≠ .root := by
    obtain ⟨s, -, hs⟩ := List.mem_filterMap.mp h
    rintro rfl
    exact hsegment s hs
  unfold FilePath.parts at h
  split at h
  · simp at h
  · rename_i first rest hsplit
    cases hfirst : FilePath.firstPart? first (!rest.isEmpty) with
    | none =>
      rw [hfirst] at h
      exact hsegments (List.mem_of_mem_tail h)
    | some start =>
      rw [hfirst] at h
      exact hsegments h

theorem resolveFrom_of_contains {links : Nat} (hcontains : Contains t t')
    (hroot : ∀ part ∈ parts.tail, part ≠ .root) (h : t'.resolveFrom follow links p parts = .ok q)
    (hq : t'.get? q = some item) : t.resolveFrom follow links p parts = .ok q := by
  induction links generalizing p parts with
  | zero => cases h
  | succ links ih =>
    rw [resolveFrom_eq_ok_iff] at h ⊢
    obtain hway | ⟨d, target, rest, hway, hrest⟩ := h
    · refine .inl (hway.of_contains hcontains hroot fun r hr => ?_)
      obtain rfl := Walk.arrived.inj hr
      exact ⟨item, hq⟩
    · refine .inr ⟨d, target, rest, hway.of_contains hcontains hroot nofun, ih (fun part hpart => ?_) hrest⟩
      have hrest (part : FilePath.Part) (hpart : part ∈ rest) : part ≠ .root := hroot part (hway.rest_subset hpart)
      cases htarget : FilePath.parts target with
      | nil =>
        rw [htarget] at hpart
        exact hrest part (List.mem_of_mem_tail hpart)
      | cons start more =>
        rw [htarget] at hpart
        rcases List.mem_append.mp hpart with hpart | hpart
        · have hmore : part ∈ (FilePath.parts target).tail := by simpa [htarget] using hpart
          exact ne_root_of_mem_tail_parts hmore
        · exact hrest part hpart

/-! ## Removing -/

theorem removeEmptied_cases (t : FileTree) (path : FilePath) :
    t.removeEmptied path = .ok t ∨ (∃ e, t.removeEmptied path = .error e) ∨
      ∃ q item, t.resolve false path = .ok q ∧ t.get? q = some item ∧ (∀ target, item ≠ .link target) ∧
        t.removeEmptied path = .ok (t.erase q) := by
  unfold removeEmptied
  cases hresolve : t.resolve false path with
  | error e =>
    dsimp only
    split_ifs
    · exact .inl rfl
    · exact .inr (.inl ⟨e, rfl⟩)
  | ok q =>
    dsimp only
    split
    · exact .inl rfl
    · exact .inr (.inl ⟨_, rfl⟩)
    · exact .inr (.inl ⟨_, rfl⟩)
    · exact .inr (.inl ⟨_, rfl⟩)
    · rename_i item hlink hget _ _
      exact .inr (.inr ⟨q, item, rfl, hget, hlink, rfl⟩)

/-- The path of an emptied directory still names it, or what it names is no directory. -/
theorem eq_of_resolve_clear (hfind : t.find? false path = .ok (p, .directory))
    (hq : (t.clear p).resolve false path = .ok q) (hitem : (t.clear p).get? q = some item)
    (hlink : ∀ target, item ≠ .link target) : q = p := by
  have hpath := ne_nil_of_resolve hq
  obtain ⟨hp, hdirectory⟩ := resolve_of_find?_follow hfind
  rw [resolve_eq hpath] at hp hq
  have hq := resolveFrom_of_contains (contains_clear p t) (fun _ => ne_root_of_mem_tail_parts) hq hitem
  have hitem := contains_clear p t q item hitem
  rw [Bool.false_or] at hp
  cases hslash : path.getLast? == some '/' with
  | false =>
    rw [hslash] at hp
    exact Except.ok.inj (hq.symm.trans hp)
  | true =>
    rw [hslash] at hp
    obtain ⟨r, other, hr, hother, hend⟩ := resolveFrom_unfollowed hp hdirectory
    obtain rfl := Except.ok.inj (hq.symm.trans hr)
    rcases hend with rfl | ⟨target, rfl⟩
    · rfl
    · exact absurd (Option.some.inj (hitem.symm.trans hother)) (hlink target)

/-- What removing leaves: the tree as it was, or without the link that the path names, or without what stands
below the directory that it names, and perhaps without this directory. -/
theorem removeAll_cases (t : FileTree) (path : FilePath) :
    (t.removeAll path).1 = t ∨ ∃ p item, t.find? false path = .ok (p, item) ∧
      ((∃ target, item = .link target ∧ (t.removeAll path).1 = t.erase p) ∨
        (item = .directory ∧
          ((t.removeAll path).1 = t.clear p ∨ (t.removeAll path).1 = (t.clear p).erase p))) := by
  unfold removeAll
  cases hfind : t.find? false path with
  | error e => exact .inl rfl
  | ok found =>
    obtain ⟨p, item⟩ := found
    cases item with
    | file content => exact .inl rfl
    | link target => exact .inr ⟨p, _, rfl, .inl ⟨target, rfl, rfl⟩⟩
    | directory =>
      refine .inr ⟨p, _, rfl, .inr ⟨rfl, ?_⟩⟩
      dsimp only
      rcases removeEmptied_cases (t.clear p) path with hkept | ⟨e, herror⟩ | ⟨q, item, hq, hitem, hlink, herased⟩
      · rw [hkept]
        exact .inl rfl
      · rw [herror]
        exact .inl rfl
      · obtain rfl := eq_of_resolve_clear hfind hq hitem hlink
        rw [herased]
        exact .inr rfl

theorem Rooted.clear (h : t.Rooted) (p : RealPath) : (t.clear p).Rooted := by
  intro q n item hget
  rw [get?_clear] at hget ⊢
  split_ifs at hget with hbelow
  rw [if_neg, h q n item hget]
  rintro ⟨hbegins, hlength⟩
  refine hbelow ⟨hbegins.trans (List.prefix_append q [n]), ?_⟩
  rw [List.length_append]
  omega

theorem Rooted.erase (h : t.Rooted) (hleaf : ∀ n, t.get? (p ++ [n]) = none) : (t.erase p).Rooted := by
  intro q n item hget
  have hitem := contains_erase p t _ item hget
  rw [get?_erase, if_neg, h q n item hitem]
  rintro ⟨rfl, -⟩
  rw [hleaf n] at hitem
  cases hitem

theorem removeAll_rooted (hrooted : t.Rooted) (path : FilePath) : (t.removeAll path).1.Rooted := by
  rcases removeAll_cases t path with htree | ⟨p, item, hfind, ⟨target, rfl, htree⟩ | ⟨-, htree | htree⟩⟩
  · rwa [htree]
  · rw [htree]
    refine hrooted.erase fun n => ?_
    by_contra hsome
    obtain ⟨item, hitem⟩ := Option.ne_none_iff_exists'.mp hsome
    have hdirectory := hrooted p n item hitem
    rw [(resolve_of_find?_follow hfind).2] at hdirectory
    cases hdirectory
  · rw [htree]
    exact hrooted.clear p
  · rw [htree]
    refine (hrooted.clear p).erase fun n => ?_
    rw [get?_clear, if_pos]
    exact ⟨List.prefix_append p [n], by simp⟩

/-! ## Paths of names -/

/-- A path that is written as the names that lead from the root to a place, through no link. -/
structure Written (t : FileTree) (path : FilePath) (ns : List Text) : Prop where
  parts : FilePath.parts path = .root :: ns.map .name
  plain : t.Plain [] ns

namespace Written

variable {ns ns' : List Text} {path' : FilePath}

end Written

end StaticSite.FileTree
