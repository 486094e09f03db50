import Mathlib.Data.List.Induction
import StaticSite.FileTree.Basic
import StaticSite.Proofs.FilePath

/-!
# Ways through a file tree

How far the parts of a path lead, told part by part, and where paths of names lead: to the place that the
names say, as long as no symbolic link stands on the way.
-/
namespace StaticSite.FileTree

variable {t : FileTree}

/-! ## Places -/

/-- What is left of some items when places are filtered. -/
theorem lookup_filter (keep : RealPath → Bool) (p : RealPath) (items : List (RealPath × Item)) :
    (items.filter fun entry => keep entry.1).lookup p = if keep p then items.lookup p else none := by
  induction items with
  | nil => simp
  | cons entry items ih =>
    obtain ⟨r, item⟩ := entry
    by_cases hp : p = r
    · subst hp
      by_cases hkeep : keep p
      · simp [hkeep]
      · rw [if_neg hkeep] at ih ⊢
        simpa [hkeep] using ih
    · have hpr : (p == r) = false := by simpa using hp
      by_cases hkeep : keep r
      · simp [hkeep, List.lookup_cons, hpr, ih]
      · simp [hkeep, List.lookup_cons, hpr, ih]

@[simp] theorem get?_nil (t : FileTree) : t.get? [] = some .directory := rfl

theorem get?_set {q : RealPath} (hq : q ≠ []) (p : RealPath) (item : Item) (t : FileTree) :
    (t.set q item).get? p = if p = q then some item else t.get? p := by
  by_cases hp : p = q
  · subst hp
    simp [get?, set, hq]
  · have hpq : (p == q) = false := by simpa using hp
    cases p with
    | nil => simp [get?, hq.symm]
    | cons n p => simp [get?, set, List.lookup_cons, hpq, lookup_filter (· != q), hp]

/-- What stands anywhere stands in a directory. -/
def Rooted (t : FileTree) : Prop :=
  ∀ p n item, t.get? (p ++ [n]) = some item → t.get? p = some .directory

theorem Rooted.dropLast (h : t.Rooted) {p : RealPath} {item : Item} (hp : t.get? p = some item) :
    t.get? p.dropLast = some .directory := by
  rcases List.eq_nil_or_concat' p with rfl | ⟨q, n, rfl⟩
  · rfl
  · rw [List.dropLast_concat]
    exact h q n item hp

theorem Rooted.set (h : t.Rooted) {p : RealPath} {n : Text} {item : Item}
    (hp : t.get? p = some .directory) (hitem : t.get? (p ++ [n]) = some .directory → item = .directory) :
    (t.set (p ++ [n]) item).Rooted := by
  have hne : p ++ [n] ≠ [] := by simp
  intro q m other hother
  rw [get?_set hne] at hother ⊢
  by_cases hq : q = p ++ [n]
  · -- Something stands in the place itself only if that was a directory.
    have hlonger : q ++ [m] ≠ p ++ [n] := by
      intro heq
      have hlength := congrArg List.length (hq ▸ heq)
      simp at hlength
    rw [if_neg hlonger, hq] at hother
    rw [if_pos hq, hitem (h _ m other hother)]
  · rw [if_neg hq]
    by_cases hqm : q ++ [m] = p ++ [n]
    · obtain ⟨rfl, -⟩ := List.append_inj' hqm rfl
      exact hp
    · rw [if_neg hqm] at hother
      exact h q m other hother

/-! ## Ways -/

/-- How far some parts lead from a place, part by part. -/
inductive Way (t : FileTree) (follow : Bool) : RealPath → List FilePath.Part → Walk → Prop where
  | arrived (p : RealPath) : Way t follow p [] (.arrived p)
  | root {p : RealPath} {rest : List FilePath.Part} {w : Walk} (way : Way t follow [] rest w) :
      Way t follow p (.root :: rest) w
  | here {p : RealPath} {rest : List FilePath.Part} {w : Walk} (directory : t.get? p = some .directory)
      (way : Way t follow p rest w) : Way t follow p (.here :: rest) w
  | up {p : RealPath} {rest : List FilePath.Part} {w : Walk} (directory : t.get? p = some .directory)
      (way : Way t follow p.dropLast rest w) : Way t follow p (.up :: rest) w
  | name {p : RealPath} {n : Text} {rest : List FilePath.Part} {w : Walk}
      (directory : t.get? p = some .directory) (no_link : ∀ target, t.get? (p ++ [n]) ≠ some (.link target))
      (way : Way t follow (p ++ [n]) rest w) : Way t follow p (.name n :: rest) w
  | link {p : RealPath} {n : Text} {rest : List FilePath.Part} {target : FilePath}
      (directory : t.get? p = some .directory) (is_link : t.get? (p ++ [n]) = some (.link target))
      (on : rest ≠ [] ∨ follow = true) : Way t follow p (.name n :: rest) (.link p target rest)
  | stay {p : RealPath} {n : Text} {target : FilePath} (directory : t.get? p = some .directory)
      (is_link : t.get? (p ++ [n]) = some (.link target)) (off : follow = false) :
      Way t follow p [.name n] (.arrived (p ++ [n]))

/-- Whatever is not the root is looked for in a directory. -/
theorem directory_of_walk {follow : Bool} {p : RealPath} {part : FilePath.Part} {rest : List FilePath.Part} {w : Walk}
    (h : t.walk follow p (part :: rest) = .ok w) (hroot : part ≠ .root) : t.get? p = some .directory := by
  by_contra hp
  cases hget : t.get? p with
  | none => cases part <;> simp [walk, hget] at h hroot
  | some item =>
    cases item with
    | directory => exact hp hget
    | file content => cases part <;> simp [walk, hget] at h hroot
    | link target => cases part <;> simp [walk, hget] at h hroot

theorem way_of_walk {follow : Bool} {p : RealPath} {parts : List FilePath.Part} {w : Walk}
    (h : t.walk follow p parts = .ok w) : Way t follow p parts w := by
  induction parts generalizing p with
  | nil =>
    obtain rfl : Walk.arrived p = w := Except.ok.inj h
    exact .arrived p
  | cons part rest ih =>
    cases part with
    | root => exact .root (ih h)
    | here =>
      have hp := directory_of_walk h nofun
      simp only [walk, hp] at h
      exact .here hp (ih h)
    | up =>
      have hp := directory_of_walk h nofun
      simp only [walk, hp] at h
      exact .up hp (ih h)
    | name n =>
      have hp := directory_of_walk h nofun
      simp only [walk, hp] at h
      split at h
      · rename_i target hlink
        split_ifs at h with hon
        · obtain ⟨hrest, hfollow⟩ : rest = [] ∧ follow = false := by simpa using hon
          obtain rfl := Except.ok.inj h
          subst hrest
          exact .stay hp hlink hfollow
        · obtain rfl := Except.ok.inj h
          exact .link hp hlink (by simpa [imp_iff_not_or] using hon)
      · rename_i hlink
        exact .name hp hlink (ih h)

theorem Way.walk_eq {follow : Bool} {p : RealPath} {parts : List FilePath.Part} {w : Walk}
    (h : Way t follow p parts w) : t.walk follow p parts = .ok w := by
  induction h with
  | arrived p => rfl
  | root _ ih => exact ih
  | here hp _ ih => simpa only [walk, hp] using ih
  | up hp _ ih => simpa only [walk, hp] using ih
  | name hp hlink _ ih =>
    simp only [walk, hp]
    exact ih
  | link hp hlink hon =>
    simp only [walk, hp, hlink]
    rw [if_neg]
    simpa [imp_iff_not_or] using hon
  | stay hp hlink hoff => simp [walk, hp, hlink, hoff]

theorem walk_eq_ok_iff (t : FileTree) (follow : Bool) (p : RealPath) (parts : List FilePath.Part)
    (w : Walk) : t.walk follow p parts = .ok w ↔ Way t follow p parts w := ⟨way_of_walk, Way.walk_eq⟩

theorem Way.append {p q : RealPath} {xs ys : List FilePath.Part} {w : Walk}
    (h : Way t true p xs (.arrived q)) (h' : Way t true q ys w) : Way t true p (xs ++ ys) w := by
  induction xs generalizing p with
  | nil => cases h; exact h'
  | cons part xs ih =>
    cases h with
    | root way => exact .root (ih way)
    | here hp way => exact .here hp (ih way)
    | up hp way => exact .up hp (ih way)
    | name hp hlink way => exact .name hp hlink (ih way)
    | stay _ _ hoff => cases hoff

theorem Way.append_link {p d : RealPath} {xs ys rest : List FilePath.Part} {target : FilePath}
    (h : Way t true p xs (.link d target rest)) : Way t true p (xs ++ ys) (.link d target (rest ++ ys)) := by
  induction xs generalizing p with
  | nil => cases h
  | cons part xs ih =>
    cases h with
    | root way => exact .root (ih way)
    | here hp way => exact .here hp (ih way)
    | up hp way => exact .up hp (ih way)
    | name hp hlink way => exact .name hp hlink (ih way)
    | link hp hlink _ => exact .link hp hlink (.inr rfl)

/-- A way along some parts and then others. -/
theorem Way.split {p : RealPath} {xs ys : List FilePath.Part} {w : Walk} (h : Way t true p (xs ++ ys) w) :
    (∃ q, Way t true p xs (.arrived q) ∧ Way t true q ys w) ∨
      ∃ d target rest, Way t true p xs (.link d target rest) ∧ w = .link d target (rest ++ ys) := by
  induction xs generalizing p with
  | nil => exact .inl ⟨p, .arrived p, h⟩
  | cons part xs ih =>
    rw [List.cons_append] at h
    generalize hparts : xs ++ ys = parts at h
    cases h with
    | root way =>
      subst hparts
      obtain ⟨q, hxs, hys⟩ | ⟨d, target, rest, hxs, hw⟩ := ih way
      · exact .inl ⟨q, .root hxs, hys⟩
      · exact .inr ⟨d, target, rest, .root hxs, hw⟩
    | here hp way =>
      subst hparts
      obtain ⟨q, hxs, hys⟩ | ⟨d, target, rest, hxs, hw⟩ := ih way
      · exact .inl ⟨q, .here hp hxs, hys⟩
      · exact .inr ⟨d, target, rest, .here hp hxs, hw⟩
    | up hp way =>
      subst hparts
      obtain ⟨q, hxs, hys⟩ | ⟨d, target, rest, hxs, hw⟩ := ih way
      · exact .inl ⟨q, .up hp hxs, hys⟩
      · exact .inr ⟨d, target, rest, .up hp hxs, hw⟩
    | name hp hlink way =>
      subst hparts
      obtain ⟨q, hxs, hys⟩ | ⟨d, target, rest, hxs, hw⟩ := ih way
      · exact .inl ⟨q, .name hp hlink hxs, hys⟩
      · exact .inr ⟨d, target, rest, .name hp hlink hxs, hw⟩
    | link hp hlink _ =>
      subst hparts
      exact .inr ⟨p, _, xs, .link hp hlink (.inr rfl), rfl⟩
    | stay _ _ hoff => cases hoff

theorem resolveFrom_eq_ok_iff (t : FileTree) (follow : Bool) (links : Nat) (p : RealPath)
    (parts : List FilePath.Part) (q : RealPath) :
    t.resolveFrom follow (links + 1) p parts = .ok q ↔
      Way t follow p parts (.arrived q) ∨ ∃ d target rest, Way t follow p parts (.link d target rest) ∧
        t.resolveFrom follow links d (FilePath.parts target ++ rest) = .ok q := by
  simp only [← walk_eq_ok_iff, resolveFrom]
  cases hwalk : t.walk follow p parts with
  | error e => simp
  | ok w =>
    cases w with
    | arrived r => simp
    | link d target rest =>
      constructor
      · exact fun h => .inr ⟨d, target, rest, rfl, h⟩
      · rintro (h | ⟨_, _, _, heq, h⟩)
        · cases h
        · cases heq
          exact h

/-- Names that lead on from where a path leads. -/
theorem resolveFrom_append {links : Nat} {p q r : RealPath} {xs ys : List FilePath.Part}
    (h : t.resolveFrom true links p xs = .ok q) (h' : Way t true q ys (.arrived r)) :
    t.resolveFrom true links p (xs ++ ys) = .ok r := by
  induction links generalizing p xs with
  | zero => cases h
  | succ links ih =>
    rw [resolveFrom_eq_ok_iff] at h ⊢
    obtain hway | ⟨d, target, rest, hway, hrest⟩ := h
    · exact .inl (hway.append h')
    · refine .inr ⟨d, target, rest ++ ys, hway.append_link, ?_⟩
      rw [← List.append_assoc]
      exact ih hrest

/-- A path leads somewhere only by way of where its beginning leads. -/
theorem resolveFrom_split {links : Nat} {p r : RealPath} {xs ys : List FilePath.Part}
    (h : t.resolveFrom true links p (xs ++ ys) = .ok r) :
    ∃ q left, t.resolveFrom true links p xs = .ok q ∧ t.resolveFrom true (left + 1) q ys = .ok r := by
  induction links generalizing p xs with
  | zero => cases h
  | succ links ih =>
    rw [resolveFrom_eq_ok_iff] at h
    obtain hway | ⟨d, target, rest, hway, hrest⟩ := h
    · obtain ⟨q, hxs, hys⟩ | ⟨_, _, _, _, hw⟩ := hway.split
      · refine ⟨q, 0, (resolveFrom_eq_ok_iff ..).mpr (.inl hxs), (resolveFrom_eq_ok_iff ..).mpr (.inl hys)⟩
      · cases hw
    · obtain ⟨q, hxs, hys⟩ | ⟨d', target', rest', hxs, hw⟩ := hway.split
      · exact ⟨q, links, (resolveFrom_eq_ok_iff ..).mpr (.inl hxs),
          (resolveFrom_eq_ok_iff ..).mpr (.inr ⟨d, target, rest, hys, hrest⟩)⟩
      · cases hw
        rw [← List.append_assoc] at hrest
        obtain ⟨q, left, hq, hr⟩ := ih hrest
        exact ⟨q, left, (resolveFrom_eq_ok_iff ..).mpr (.inr ⟨d, target, rest', hxs, hq⟩), hr⟩

/-! ## Names -/

theorem Rooted.directory (h : t.Rooted) {p ns : RealPath} {item : Item} (hne : ns ≠ [])
    (hget : t.get? (p ++ ns) = some item) : t.get? p = some .directory := by
  induction ns using List.reverseRecOn generalizing item with
  | nil => exact absurd rfl hne
  | append_singleton ns n ih =>
    rw [← List.append_assoc] at hget
    have hparent := h _ n item hget
    by_cases hns : ns = []
    · simpa [hns] using hparent
    · exact ih hns hparent

/-- The way to what stands below a place. -/
theorem way_of_get? (h : t.Rooted) {p ns : RealPath} {item : Item} (hget : t.get? (p ++ ns) = some item)
    (hitem : ∀ target, item ≠ .link target) : Way t true p (ns.map .name) (.arrived (p ++ ns)) := by
  induction ns generalizing p with
  | nil => simpa using Way.arrived p
  | cons n ns ih =>
    have hp := h.directory (List.cons_ne_nil n ns) hget
    rw [List.append_cons] at hget ⊢
    refine .name hp (fun target hlink => ?_) (ih hget)
    cases ns with
    | nil =>
      rw [List.append_nil, hlink] at hget
      exact hitem target (Option.some.inj hget).symm
    | cons m ns =>
      rw [h.directory (List.cons_ne_nil m ns) hget] at hlink
      cases hlink

/-- No symbolic link stands below a place. -/
def LinkFree (t : FileTree) (p : RealPath) : Prop :=
  ∀ ns, ns ≠ [] → ∀ target, t.get? (p ++ ns) ≠ some (.link target)

theorem Way.of_linkFree {p : RealPath} {ns : List Text} {w : Walk} (hfree : t.LinkFree p)
    (h : Way t true p (ns.map .name) w) : w = .arrived (p ++ ns) := by
  induction ns generalizing p with
  | nil =>
    cases h
    rw [List.append_nil]
  | cons n ns ih =>
    rw [List.append_cons]
    rw [List.map_cons] at h
    generalize hparts : ns.map FilePath.Part.name = parts at h
    cases h with
    | name _ _ way =>
      subst hparts
      refine ih (fun ms hms target => ?_) way
      rw [← List.append_cons]
      exact hfree (n :: ms) (List.cons_ne_nil n ms) target
    | link _ hlink _ => exact absurd hlink (hfree [n] (List.cons_ne_nil n []) _)
    | stay _ _ hoff => cases hoff

theorem resolveFrom_of_linkFree {links : Nat} {p r : RealPath} {ns : List Text} (hfree : t.LinkFree p)
    (h : t.resolveFrom true (links + 1) p (ns.map .name) = .ok r) : r = p ++ ns := by
  rw [resolveFrom_eq_ok_iff] at h
  obtain hway | ⟨d, target, rest, hway, -⟩ := h
  · exact Walk.arrived.inj (hway.of_linkFree hfree)
  · cases hway.of_linkFree hfree

theorem ne_nil_of_resolve {follow : Bool} {p : FilePath} {q : RealPath}
    (h : t.resolve follow p = .ok q) : p ≠ [] := by
  rintro rfl
  cases h

theorem resolve_eq {p : FilePath} (hp : p ≠ []) (follow : Bool) :
    t.resolve follow p = t.resolveFrom follow 41 [] (FilePath.parts p) := by
  have hempty : p.isEmpty = false := by simpa using hp
  simp [resolve, hempty]

/-- What stands below the place that a path names is named by names below the path. -/
theorem resolve_join {p : FilePath} {q : RealPath} {ns : List Text} {item : Item} (hrooted : t.Rooted)
    (hns : ∀ n ∈ ns, FilePath.IsName n) (hne : ns ≠ []) (h : t.resolve true p = .ok q)
    (hget : t.get? (q ++ ns) = some item) (hitem : ∀ target, item ≠ .link target) :
    t.resolve true (FilePath.join p (FilePath.ofNames ns)) = .ok (q ++ ns) := by
  have hp := ne_nil_of_resolve h
  rw [resolve_eq hp] at h
  rw [resolve_eq (FilePath.join_ne_nil p hne hns), FilePath.parts_join hp hne hns]
  exact resolveFrom_append h (way_of_get? hrooted hget hitem)

/-- A path of names below a base leads somewhere only by way of the base, and without links below that,
the names lead on to the place that they say. -/
theorem resolve_join_split {p : FilePath} {r : RealPath} {ns : List Text} (hp : p ≠ [])
    (hns : ∀ n ∈ ns, FilePath.IsName n) (hne : ns ≠ [])
    (h : t.resolve true (FilePath.join p (FilePath.ofNames ns)) = .ok r) :
    ∃ q, t.resolve true p = .ok q ∧ (t.LinkFree q → r = q ++ ns) := by
  rw [resolve_eq (FilePath.join_ne_nil p hne hns), FilePath.parts_join hp hne hns] at h
  obtain ⟨q, left, hq, hr⟩ := resolveFrom_split h
  rw [resolve_eq hp]
  exact ⟨q, hq, fun hfree => resolveFrom_of_linkFree hfree hr⟩

end StaticSite.FileTree
