import StaticSite.Proofs.Url.References

/-!
# Normal paths

A path is told by whether it starts at the root and by its segments. It is normal if its segments are names, and then
it leads through them, one after the other; so two normal paths that start alike and lead to the same place are the same
path. Normalizing a path keeps both and makes it normal. That it can be done for a start of the path first is left to
be shown: what follows a slash leads on from where the start led, so only the root that a start stands for may change,
when a path that does not begin there climbs back to nothing.
-/
namespace StaticSite.Url

open FilePath (IsName ofNames isAbsolute)

variable {p q : Text} {ns : List Text} {absolute : Bool}

/-- A path without the slash that stands for the root. -/
def belowRoot (p : Text) : Text := if isAbsolute p then p.drop 1 else p

/-- The segments of a path. If nothing stands below the root, there are none. -/
def segments (p : Text) : List Text := if belowRoot p = [] then [] else Text.splitOn '/' (belowRoot p)

/-- The path of some segments. -/
def assemble (absolute : Bool) (ss : List Text) : Text := (if absolute then ['/'] else []) ++ Text.join "/" ss

/-- All segments of the path are names: none is empty, a dot or two dots. -/
def IsNormal (p : Text) : Prop := ∀ s ∈ segments p, IsName s

instance (p : Text) : Decidable (IsNormal p) := inferInstanceAs (Decidable (∀ s ∈ segments p, IsName s))

/-! ## Paths by their segments -/

theorem root_append_belowRoot (p : Text) : (if isAbsolute p then ['/'] else []) ++ belowRoot p = p := by
  unfold belowRoot
  split_ifs with h
  · obtain ⟨rest, rfl⟩ : ∃ rest, p = '/' :: rest := List.head?_eq_some_iff.mp (by simpa [isAbsolute] using h)
    rfl
  · rfl

/-- Between its slashes a path has its segments, an empty one before the slash of the root and an empty one if nothing
stands below it. -/
theorem splitOn_eq_segments (p : Text) :
    Text.splitOn '/' p =
      (if isAbsolute p then [[]] else []) ++ (if belowRoot p = [] then [[]] else segments p) := by
  have hbelow : (if belowRoot p = [] then [[]] else segments p) = Text.splitOn '/' (belowRoot p) := by
    unfold segments
    split_ifs with hnil
    · rw [hnil]
      rfl
    · rfl
  rw [hbelow]
  by_cases h : isAbsolute p = true
  · have hsplit : Text.splitOn '/' ('/' :: belowRoot p) = [] :: Text.splitOn '/' (belowRoot p) :=
      Text.splitOn_append_cons '/' [] (belowRoot p)
    have hpath := root_append_belowRoot p
    rw [if_pos h] at hpath ⊢
    rw [← List.singleton_append, hpath] at hsplit
    exact hsplit
  · rw [if_neg h, belowRoot, if_neg h, List.nil_append]

theorem assemble_segments (p : Text) : assemble (isAbsolute p) (segments p) = p := by
  have hjoin : Text.join "/" (segments p) = belowRoot p := by
    unfold segments
    split_ifs with hnil
    · exact hnil.symm
    · exact Text.join_splitOn '/' (belowRoot p)
  rw [assemble, hjoin]
  exact root_append_belowRoot p

theorem isAbsolute_assemble (absolute : Bool) (h : ∀ n ∈ ns, IsName n) :
    isAbsolute (assemble absolute ns) = absolute := by
  cases absolute with
  | true => rfl
  | false => exact FilePath.isAbsolute_ofNames h

theorem segments_assemble (absolute : Bool) (h : ∀ n ∈ ns, IsName n) : segments (assemble absolute ns) = ns := by
  have hbelow : belowRoot (assemble absolute ns) = ofNames ns := by
    rw [belowRoot, isAbsolute_assemble absolute h]
    cases absolute <;> rfl
  rw [segments, hbelow]
  by_cases hne : ns = []
  · subst hne
    rfl
  · rw [if_neg (FilePath.ofNames_ne_nil hne h), FilePath.splitOn_ofNames hne h]

/-- The segments lead where the path does: the empty ones that do not count lead nowhere. -/
theorem destination_eq_foldl_segments (p : Text) (names : List Text) :
    destination names p = (segments p).foldl enter names := by
  have hroot : (if isAbsolute p then [[]] else []).foldl enter names = names := by
    split_ifs <;> rfl
  rw [destination, splitOn_eq_segments, List.foldl_append, hroot]
  unfold segments
  split_ifs <;> rfl

/-! ## Normal paths -/

theorem IsNormal.destination_eq (h : IsNormal p) : destination [] p = segments p := by
  rw [destination_eq_foldl_segments, foldl_enter_names h, List.nil_append]

/-- Normal paths that start alike and lead to the same place are the same. -/
theorem IsNormal.eq (hp : IsNormal p) (hq : IsNormal q) (habsolute : isAbsolute p = isAbsolute q)
    (hdestination : destination [] p = destination [] q) : p = q := by
  have hsegments : segments p = segments q := hp.destination_eq.symm.trans (hdestination.trans hq.destination_eq)
  rw [← assemble_segments p, ← assemble_segments q, habsolute, hsegments]

/-! ## Normalizing -/

theorem normalizePath_eq (p : Text) : normalizePath p = assemble (isAbsolute p) (destination [] p) := by
  rw [normalizePath, resolve_eq_foldl, assemble]
  change (if isAbsolute p = true then '/' :: ofNames (destination [] p) else ofNames (destination [] p)) = _
  split_ifs <;> rfl

theorem isAbsolute_normalizePath (p : Text) : isAbsolute (normalizePath p) = isAbsolute p := by
  rw [normalizePath_eq]
  exact isAbsolute_assemble _ (isName_destination (by simp) p)

theorem segments_normalizePath (p : Text) : segments (normalizePath p) = destination [] p := by
  rw [normalizePath_eq]
  exact segments_assemble _ (isName_destination (by simp) p)

theorem isNormal_normalizePath (p : Text) : IsNormal (normalizePath p) := by
  rw [IsNormal, segments_normalizePath]
  exact isName_destination (by simp) p

theorem destination_normalizePath (p : Text) : destination [] (normalizePath p) = destination [] p :=
  (isNormal_normalizePath p).destination_eq.trans (segments_normalizePath p)

/-- The normal paths are those that normalizing keeps. -/
theorem normalizePath_eq_self_iff : normalizePath p = p ↔ IsNormal p := by
  constructor
  · intro h
    exact h ▸ isNormal_normalizePath p
  · intro h
    exact (isNormal_normalizePath p).eq h (isAbsolute_normalizePath p) (destination_normalizePath p)

example : IsNormal "/img/a.b" ∧ ¬IsNormal "img//a" ∧ ¬IsNormal "../img" := by decide

theorem normalizePath_eq_normalizePath_iff :
    normalizePath p = normalizePath q ↔ isAbsolute p = isAbsolute q ∧ destination [] p = destination [] q := by
  constructor
  · intro h
    rw [← isAbsolute_normalizePath p, ← isAbsolute_normalizePath q, ← destination_normalizePath p,
      ← destination_normalizePath q, h]
    exact ⟨rfl, rfl⟩
  · rintro ⟨habsolute, hdestination⟩
    rw [normalizePath_eq, normalizePath_eq, habsolute, hdestination]

/-! ## What follows a slash -/

theorem normalizePath_ne_nil (h : isAbsolute p = true) : normalizePath p ≠ [] := by
  intro hnil
  have habsolute := isAbsolute_normalizePath p
  rw [hnil, h] at habsolute
  cases habsolute

theorem isAbsolute_append_slash (p q : Text) : isAbsolute (p ++ '/' :: q) = (isAbsolute p || p.isEmpty) := by
  cases p with
  | nil => rfl
  | cons c p => simp [isAbsolute]

/-- What follows a slash leads on from where the path before the slash leads. -/
theorem destination_append_slash (names : List Text) (p q : Text) :
    destination names (p ++ '/' :: q) = destination (destination names p) q := by
  rw [destination, Text.splitOn_append_cons, List.foldl_append]
  rfl

/-- A path can be normalized before something is put behind it, unless nothing would be left of it: the slash that
follows would become the root. -/
theorem normalizePath_append_slash_iff (p q : Text) :
    normalizePath (p ++ '/' :: q) = normalizePath (normalizePath p ++ '/' :: q) ↔ (normalizePath p = [] → p = []) := by
  have hdestination : destination [] (p ++ '/' :: q) = destination [] (normalizePath p ++ '/' :: q) := by
    rw [destination_append_slash, destination_append_slash, destination_normalizePath]
  have hempty : p = [] → normalizePath p = [] := by
    rintro rfl
    rfl
  rw [normalizePath_eq_normalizePath_iff, isAbsolute_append_slash, isAbsolute_append_slash, isAbsolute_normalizePath]
  simp only [hdestination, and_true]
  by_cases hp : isAbsolute p = true
  · simp [hp, normalizePath_ne_nil hp]
  · rw [Bool.not_eq_true] at hp
    rw [hp, Bool.false_or, Bool.false_or, Bool.eq_iff_iff, List.isEmpty_iff, List.isEmpty_iff]
    exact ⟨fun h => h.mpr, fun h => ⟨hempty, h⟩⟩

example : normalizePath "img/../a" = "a" ∧ normalizePath (normalizePath "img/.." ++ "/a") = "/a" := by decide

/-- Normalizing leaves no segment but names, keeps whether the path starts at the root and where it leads, and is done
after one pass. A path from the root can be normalized up to any of its slashes first. -/
theorem normalizePath_normal (p q : Text) :
    (∀ s ∈ segments (normalizePath p), s ≠ [] ∧ s ≠ ['.'] ∧ s ≠ ['.', '.']) ∧
    (isAbsolute (normalizePath p) = true ↔ isAbsolute p = true) ∧
    segments (normalizePath p) = destination [] p ∧
    normalizePath (normalizePath p) = normalizePath p ∧
    (isAbsolute p = true → normalizePath (p ++ '/' :: q) = normalizePath (normalizePath p ++ '/' :: q)) := by
  refine ⟨fun s hs => ?_, by rw [isAbsolute_normalizePath], segments_normalizePath p, ?_, fun h => ?_⟩
  · have hname : IsName s := isNormal_normalizePath p s hs
    exact ⟨hname.ne_nil, hname.ne_dot, hname.ne_dots⟩
  · exact normalizePath_eq_self_iff.mpr (isNormal_normalizePath p)
  · exact (normalizePath_append_slash_iff p q).mpr fun hnil => absurd hnil (normalizePath_ne_nil h)

/-- A path that climbs past the root between runs of slashes, and one that climbs on from there. -/
theorem normalizePath_climbing :
    isAbsolute "//img/../..//./a/" = true ∧
    normalizePath "//img/../..//./a/" = "/a" ∧
    normalizePath "//img/../..//./a//../b" = normalizePath "/a/../b" := by
  have hroot : isAbsolute "//img/../..//./a/" = true := by decide
  have hstart : normalizePath "//img/../..//./a/" = "/a" := by decide
  obtain ⟨-, -, -, -, happend⟩ := normalizePath_normal "//img/../..//./a/" "../b"
  have hboth := happend hroot
  rw [hstart] at hboth
  exact ⟨hroot, hstart, hboth⟩

end StaticSite.Url
