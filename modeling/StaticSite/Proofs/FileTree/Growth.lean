import StaticSite.Proofs.FileTree.Ways

/-!
# File trees that grow

Writing files and making directories keeps what a tree has, apart from the files that are written. A path
that leads somewhere in a tree leads to the same place in every tree that has grown from it.
-/
namespace StaticSite.FileTree

variable {t t' t'' : FileTree}

/-- A tree with all that another one has, apart from the content of files at some places, and with no more
links. -/
structure Extends (changed : List RealPath) (t t' : FileTree) : Prop where
  kept : ∀ p item, t.get? p = some item → (p ∈ changed → ∀ content, item ≠ .file content) →
    t'.get? p = some item
  no_more_links : ∀ p target, t'.get? p = some (.link target) → t.get? p = some (.link target)

namespace Extends

variable {changed changed' : List RealPath}

theorem refl (t : FileTree) : Extends [] t t := ⟨fun _ _ h _ => h, fun _ _ h => h⟩

theorem trans (h : Extends changed t t') (h' : Extends changed' t' t'') :
    Extends (changed ++ changed') t t'' where
  kept p item hp hchanged := by
    have hkept := h.kept p item hp fun hmem => hchanged (List.mem_append_left _ hmem)
    exact h'.kept p item hkept fun hmem => hchanged (List.mem_append_right _ hmem)
  no_more_links p target hp := h.no_more_links p target (h'.no_more_links p target hp)

theorem directory (h : Extends changed t t') {p : RealPath} (hp : t.get? p = some .directory) :
    t'.get? p = some .directory := h.kept p _ hp fun _ _ => nofun

theorem link (h : Extends changed t t') {p : RealPath} {target : FilePath}
    (hp : t.get? p = some (.link target)) : t'.get? p = some (.link target) :=
  h.kept p _ hp fun _ _ => nofun

theorem linkFree (h : Extends changed t t') {p : RealPath} (hfree : t'.LinkFree p) : t.LinkFree p :=
  fun ns hns target hlink => hfree ns hns target (h.link hlink)

theorem linkFree_iff (h : Extends changed t t') {p : RealPath} : t'.LinkFree p ↔ t.LinkFree p :=
  ⟨h.linkFree, fun hfree ns hns target hlink => hfree ns hns target (h.no_more_links _ _ hlink)⟩

theorem way (h : Extends changed t t') {follow : Bool} {p : RealPath} {parts : List FilePath.Part}
    {w : Walk} (hway : Way t follow p parts w) : Way t' follow p parts w := by
  induction hway with
  | arrived p => exact .arrived p
  | root _ ih => exact .root ih
  | here hp _ ih => exact .here (h.directory hp) ih
  | up hp _ ih => exact .up (h.directory hp) ih
  | name hp hlink _ ih =>
    exact .name (h.directory hp) (fun target hnew => hlink target (h.no_more_links _ target hnew)) ih
  | link hp hlink hon => exact .link (h.directory hp) (h.link hlink) hon
  | stay hp hlink hoff => exact .stay (h.directory hp) (h.link hlink) hoff

theorem resolveFrom (h : Extends changed t t') {follow : Bool} {links : Nat} {p q : RealPath}
    {parts : List FilePath.Part} (hq : t.resolveFrom follow links p parts = .ok q) :
    t'.resolveFrom follow links p parts = .ok q := by
  induction links generalizing p parts with
  | zero => cases hq
  | succ links ih =>
    rw [resolveFrom_eq_ok_iff] at hq ⊢
    obtain hway | ⟨d, target, rest, hway, hrest⟩ := hq
    · exact .inl (h.way hway)
    · exact .inr ⟨d, target, rest, h.way hway, ih hrest⟩

/-- A path that leads somewhere leads there in every tree that has grown from this one. -/
theorem resolve (h : Extends changed t t') {follow : Bool} {path : FilePath} {q : RealPath}
    (hq : t.resolve follow path = .ok q) : t'.resolve follow path = .ok q := by
  have hpath := ne_nil_of_resolve hq
  rw [resolve_eq hpath] at hq ⊢
  exact h.resolveFrom hq

end Extends

/-- No symbolic link lies below what a path names. -/
def LinkFreeBelow (t : FileTree) (path : FilePath) : Prop :=
  ∀ p, t.resolve true path = .ok p → t.LinkFree p

/-- A tree that grows to one without links below a path has none there. -/
theorem Extends.linkFreeBelow {changed : List RealPath} {path : FilePath} (h : Extends changed t t')
    (hfree : t'.LinkFreeBelow path) : t.LinkFreeBelow path :=
  fun p hp => h.linkFree (hfree p (h.resolve hp))

/-- Without links below a path, different names below it lead to different places. -/
theorem LinkFreeBelow.names_eq {path : FilePath} {ns ns' : List Text} {q : RealPath}
    (hfree : t.LinkFreeBelow path) (hpath : path ≠ []) (hns : ∀ n ∈ ns, FilePath.IsName n) (hne : ns ≠ [])
    (hns' : ∀ n ∈ ns', FilePath.IsName n) (hne' : ns' ≠ [])
    (h : t.resolve true (FilePath.join path (FilePath.ofNames ns)) = .ok q)
    (h' : t.resolve true (FilePath.join path (FilePath.ofNames ns')) = .ok q) : ns = ns' := by
  obtain ⟨p, hp, hplace⟩ := resolve_join_split hpath hns hne h
  obtain ⟨p', hp', hplace'⟩ := resolve_join_split hpath hns' hne' h'
  obtain rfl := Except.ok.inj (hp.symm.trans hp')
  exact List.append_cancel_left ((hplace (hfree p hp)).symm.trans (hplace' (hfree p hp)))

/-! ## Writing -/

/-- Where a path may lead: to a directory, or to a place in one; to a link only when links at the end are
not followed. -/
def Reached (t : FileTree) (follow : Bool) (p : RealPath) : Prop :=
  t.get? p = some .directory ∨ ∃ q n, p = q ++ [n] ∧ t.get? q = some .directory ∧
    (follow = true → ∀ target, t.get? p ≠ some (.link target))

theorem Way.reached {follow : Bool} {p q : RealPath} {parts : List FilePath.Part} (hrooted : t.Rooted)
    (h : Way t follow p parts (.arrived q)) (hp : t.Reached follow p) : t.Reached follow q := by
  generalize hw : Walk.arrived q = w at h
  induction h with
  | arrived p =>
    obtain rfl := Walk.arrived.inj hw
    exact hp
  | root _ ih => exact ih (.inl rfl) hw
  | here hdirectory _ ih => exact ih (.inl hdirectory) hw
  | up hdirectory _ ih => exact ih (.inl (hrooted.dropLast hdirectory)) hw
  | name hdirectory hlink _ ih => exact ih (.inr ⟨_, _, rfl, hdirectory, fun _ => hlink⟩) hw
  | link _ _ _ => cases hw
  | stay hdirectory _ hoff =>
    obtain rfl := Walk.arrived.inj hw
    exact .inr ⟨_, _, rfl, hdirectory, fun hon => absurd (hoff.symm.trans hon) Bool.false_ne_true⟩

/-- A link stands in a directory. -/
theorem Way.link_directory {follow : Bool} {p d : RealPath} {parts rest : List FilePath.Part}
    {target : FilePath} (h : Way t follow p parts (.link d target rest)) :
    t.get? d = some .directory := by
  generalize hw : Walk.link d target rest = w at h
  induction h with
  | arrived _ => cases hw
  | root _ ih => exact ih hw
  | here _ _ ih => exact ih hw
  | up _ _ ih => exact ih hw
  | name _ _ _ ih => exact ih hw
  | link hdirectory _ _ =>
    obtain ⟨rfl, -, -⟩ := Walk.link.inj hw
    exact hdirectory
  | stay _ _ _ => cases hw

theorem resolveFrom_reached {follow : Bool} {links : Nat} {p q : RealPath} {parts : List FilePath.Part}
    (hrooted : t.Rooted) (hp : t.Reached follow p) (h : t.resolveFrom follow links p parts = .ok q) :
    t.Reached follow q := by
  induction links generalizing p parts with
  | zero => cases h
  | succ links ih =>
    rw [resolveFrom_eq_ok_iff] at h
    obtain hway | ⟨d, target, rest, hway, hrest⟩ := h
    · exact hway.reached hrooted hp
    · exact ih (.inl hway.link_directory) hrest

theorem resolve_reached {follow : Bool} {path : FilePath} {q : RealPath} (hrooted : t.Rooted)
    (h : t.resolve follow path = .ok q) : t.Reached follow q := by
  rw [resolve_eq (ne_nil_of_resolve h)] at h
  exact resolveFrom_reached hrooted (.inl rfl) h

/-- A file takes the place of a file, or of nothing. -/
theorem extends_set_file {q : RealPath} (hne : q ≠ []) (hdirectory : t.get? q ≠ some .directory)
    (hlink : ∀ target, t.get? q ≠ some (.link target)) (content : List UInt8) :
    Extends [q] t (t.set q (.file content)) where
  kept p item hp hchanged := by
    rw [get?_set hne]
    by_cases hpq : p = q
    · subst hpq
      cases item with
      | file other => exact absurd rfl (hchanged List.mem_cons_self other)
      | directory => exact absurd hp hdirectory
      | link target => exact absurd hp (hlink target)
    · rw [if_neg hpq, hp]
  no_more_links p target hp := by
    rw [get?_set hne] at hp
    split_ifs at hp
    · cases hp
    · exact hp

/-- A directory takes the place of nothing. -/
theorem extends_set_directory {q : RealPath} (hne : q ≠ []) (hnone : t.get? q = none) :
    Extends [] t (t.set q .directory) where
  kept p item hp _ := by
    have hpq : p ≠ q := by
      rintro rfl
      rw [hnone] at hp
      cases hp
    rw [get?_set hne, if_neg hpq, hp]
  no_more_links p target hp := by
    rw [get?_set hne] at hp
    split_ifs at hp
    · cases hp
    · exact hp

/-- A file that is written stands in a directory, in the place of a file or of nothing. -/
theorem write_ok {path : FilePath} {content : List UInt8} (hrooted : t.Rooted) (h : t.write path content = .ok t') :
    ∃ p n, t.resolve true path = .ok (p ++ [n]) ∧ t.get? p = some .directory ∧
      t.get? (p ++ [n]) ≠ some .directory ∧ (∀ target, t.get? (p ++ [n]) ≠ some (.link target)) ∧
        t' = t.set (p ++ [n]) (.file content) := by
  unfold write at h
  cases hq : t.resolve true path with
  | error e =>
    rw [hq] at h
    cases h
  | ok q =>
    rw [hq] at h
    have hdirectory : t.get? q ≠ some .directory := by
      intro hdirectory
      simp only [bind, Except.bind, hdirectory] at h
      cases h
    obtain hreached | ⟨p, n, rfl, hp, hlink⟩ := resolve_reached hrooted hq
    · exact absurd hreached hdirectory
    · simp only [bind, Except.bind] at h
      exact ⟨p, n, rfl, hp, hdirectory, hlink rfl, (Except.ok.inj h).symm⟩

theorem write_spec {path : FilePath} {content : List UInt8} (hrooted : t.Rooted)
    (h : t.write path content = .ok t') :
    ∃ q, t.resolve true path = .ok q ∧ t'.get? q = some (.file content) ∧ t'.Rooted ∧ Extends [q] t t' := by
  obtain ⟨p, n, hresolve, hp, hdirectory, hlink, rfl⟩ := write_ok hrooted h
  have hne : p ++ [n] ≠ [] := by simp
  refine ⟨p ++ [n], hresolve, ?_, ?_, ?_⟩
  · rw [get?_set hne, if_pos rfl]
  · exact hrooted.set hp fun hget => absurd hget hdirectory
  · exact extends_set_file hne hdirectory hlink content

/-! ## Making directories -/

/-- A directory that is made stands in a directory, in the place of nothing. -/
theorem createDirectory_ok {path : FilePath} (hrooted : t.Rooted) (h : t.createDirectory path = .ok t') :
    ∃ p n, t.resolve false path = .ok (p ++ [n]) ∧ t.get? p = some .directory ∧ t.get? (p ++ [n]) = none ∧
      t' = t.set (p ++ [n]) .directory := by
  unfold createDirectory at h
  cases hq : t.resolve false path with
  | error e =>
    rw [hq] at h
    cases h
  | ok q =>
    rw [hq] at h
    simp only [bind, Except.bind] at h
    split at h
    · cases h
    · rename_i hnone
      obtain hreached | ⟨p, n, rfl, hp, -⟩ := resolve_reached hrooted hq
      · rw [hnone] at hreached
        cases hreached
      · exact ⟨p, n, rfl, hp, hnone, (Except.ok.inj h).symm⟩

theorem ensureDirectory_ok {path : FilePath} (h : t.ensureDirectory path = .ok t') :
    t' = t ∨ t.createDirectory path = .ok t' := by
  unfold ensureDirectory at h
  split at h
  · rename_i made hmade
    obtain rfl := Except.ok.inj h
    exact .inr hmade
  · split_ifs at h
    exact .inl (Except.ok.inj h).symm

/-- One step of making directories: none, or this one, or those above it and then this one. -/
theorem createDirectoriesFrom_succ_ok {fuel : Nat} {path : FilePath}
    (h : createDirectoriesFrom (fuel + 1) t path = .ok t') :
    t' = t ∨ t.createDirectory path = .ok t' ∨ ∃ parent above, FilePath.parent? path = some parent ∧
      createDirectoriesFrom fuel t parent = .ok above ∧ above.ensureDirectory path = .ok t' := by
  rw [createDirectoriesFrom] at h
  by_cases hpath : path.isEmpty = true
  · rw [if_pos hpath] at h
    exact .inl (Except.ok.inj h).symm
  rw [if_neg hpath] at h
  cases hmade : t.createDirectory path with
  | ok made =>
    rw [hmade] at h
    exact .inr (.inl h)
  | error e =>
    simp only [hmade] at h
    by_cases hmissing : e = .notFound
    · rw [if_pos hmissing] at h
      cases hparent : FilePath.parent? path with
      | none =>
        rw [hparent] at h
        cases h
      | some parent =>
        simp only [hparent] at h
        cases habove : createDirectoriesFrom fuel t parent with
        | error e =>
          rw [habove] at h
          cases h
        | ok above =>
          rw [habove] at h
          exact .inr (.inr ⟨parent, above, rfl, habove, h⟩)
    · rw [if_neg hmissing] at h
      split_ifs at h
      exact .inl (Except.ok.inj h).symm

/-- What is kept when one directory is made is kept when all are made that lead to a place. -/
theorem createDirectoriesFrom_preserves {P : FileTree → Prop} {fuel : Nat} {path : FilePath}
    (hcreate : ∀ t t' path, P t → t.createDirectory path = .ok t' → P t') (ht : P t)
    (h : createDirectoriesFrom fuel t path = .ok t') : P t' := by
  induction fuel generalizing path t' with
  | zero =>
    obtain rfl := Except.ok.inj h
    exact ht
  | succ fuel ih =>
    rcases createDirectoriesFrom_succ_ok h with rfl | hmade | ⟨parent, above, -, habove, hensured⟩
    · exact ht
    · exact hcreate t t' path ht hmade
    · rcases ensureDirectory_ok hensured with rfl | hmade
      · exact ih habove
      · exact hcreate above t' path (ih habove) hmade

theorem createDirectory_spec {path : FilePath} (hrooted : t.Rooted)
    (h : t.createDirectory path = .ok t') : t'.Rooted ∧ Extends [] t t' := by
  obtain ⟨p, n, -, hp, hnone, rfl⟩ := createDirectory_ok hrooted h
  have hne : p ++ [n] ≠ [] := by simp
  exact ⟨hrooted.set hp fun _ => rfl, extends_set_directory hne hnone⟩

theorem createDirectoriesFrom_spec {fuel : Nat} {path : FilePath} (hrooted : t.Rooted)
    (h : createDirectoriesFrom fuel t path = .ok t') : t'.Rooted ∧ Extends [] t t' := by
  refine createDirectoriesFrom_preserves (P := fun t' => t'.Rooted ∧ Extends [] t t') ?_ ⟨hrooted, .refl t⟩ h
  intro above made path habove hmade
  obtain ⟨hrooted', hextends⟩ := createDirectory_spec habove.1 hmade
  exact ⟨hrooted', habove.2.trans hextends⟩

/-- Making directories adds to a tree. -/
theorem createDirectories_spec {path : FilePath} (hrooted : t.Rooted)
    (h : t.createDirectories path = .ok t') : t'.Rooted ∧ Extends [] t t' :=
  createDirectoriesFrom_spec hrooted h

end StaticSite.FileTree
