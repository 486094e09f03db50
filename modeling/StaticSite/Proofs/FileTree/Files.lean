import StaticSite.Proofs.FileTree.Growth
import StaticSite.Proofs.Table

/-!
# The files of a tree

Which files a tree holds, and by which paths they are read.
-/
namespace StaticSite

/-- A real path reads as the names that it consists of. -/
theorem RealPath.parts_toPath {p : RealPath} (h : ∀ n ∈ p, FilePath.IsName n) :
    FilePath.parts p.toPath = .root :: p.map .name := by
  have hsplit : Text.splitOn '/' p.toPath = [] :: Text.splitOn '/' (FilePath.ofNames p) :=
    Text.splitOn_append_cons '/' [] (FilePath.ofNames p)
  rw [FilePath.parts, hsplit]
  by_cases hp : p = []
  · subst hp
    rfl
  · rw [FilePath.splitOn_ofNames hp h]
    simp [FilePath.firstPart?, hp, FilePath.filterMap_partOf? h]

theorem RealPath.toPath_inj {p q : RealPath} (hp : ∀ n ∈ p, FilePath.IsName n)
    (hq : ∀ n ∈ q, FilePath.IsName n) (h : FilePath.parts p.toPath = FilePath.parts q.toPath) : p = q := by
  rw [parts_toPath hp, parts_toPath hq] at h
  exact List.map_injective_iff.mpr (fun _ _ hname => FilePath.Part.name.inj hname) (List.tail_eq_of_cons_eq h)

namespace FileTree

variable {t : FileTree}

/-- A tree as it is on a disk: nothing stands twice, what stands anywhere stands in a directory, and all
places are reached by names. -/
structure WellFormed (t : FileTree) : Prop where
  nodup : (t.items.map (·.1)).Nodup
  rooted : t.Rooted
  isName : ∀ entry ∈ t.items, ∀ n ∈ entry.1, FilePath.IsName n

theorem mem_of_get? {p : RealPath} {item : Item} (hne : p ≠ []) (hp : t.get? p = some item) :
    (p, item) ∈ t.items := by
  have hempty : p.isEmpty = false := by simpa using hne
  have hlookup : t.items.lookup p = some item := by simpa [get?, hempty] using hp
  obtain ⟨before, after, hitems, -⟩ := List.lookup_eq_some_iff.mp hlookup
  simp [hitems]

theorem WellFormed.isName_of_get? (h : t.WellFormed) {p : RealPath} {item : Item}
    (hp : t.get? p = some item) : ∀ n ∈ p, FilePath.IsName n := by
  by_cases hne : p = []
  · simp [hne]
  · exact h.isName (p, item) (mem_of_get? hne hp)

theorem WellFormed.get?_of_mem (h : t.WellFormed) {p : RealPath} {item : Item} (hne : p ≠ [])
    (hmem : (p, item) ∈ t.items) : t.get? p = some item := by
  have hempty : p.isEmpty = false := by simpa using hne
  simpa [get?, hempty] using lookup_of_mem h.nodup hmem

/-- Whether a tree is well-formed can be read off its items. -/
theorem wellFormed_iff (t : FileTree) :
    t.WellFormed ↔ (t.items.map (·.1)).Nodup ∧
      (∀ entry ∈ t.items, t.get? entry.1.dropLast = some .directory) ∧
      ∀ entry ∈ t.items, ∀ n ∈ entry.1, FilePath.IsName n := by
  constructor
  · intro h
    refine ⟨h.nodup, fun entry hentry => ?_, h.isName⟩
    by_cases hne : entry.1 = []
    · simp [hne]
    · exact h.rooted.dropLast (h.get?_of_mem hne hentry)
  · rintro ⟨hnodup, hparent, hname⟩
    refine ⟨hnodup, fun p n item hget => ?_, hname⟩
    have hdirectory := hparent _ (mem_of_get? (by simp) hget)
    rwa [List.dropLast_concat] at hdirectory

instance (t : FileTree) : Decidable t.WellFormed := decidable_of_iff _ (wellFormed_iff t).symm

/-! ## Reading -/

variable {path : FilePath} {p : RealPath} {content : List UInt8}

theorem find?_file (hresolve : t.resolve true path = .ok p) (hget : t.get? p = some (.file content))
    (hslash : path.getLast? ≠ some '/') : t.find? true path = .ok (p, .file content) := by
  simp [find?, hresolve, hget, hslash, bind, Except.bind]

/-- What is found stands where the path leads; a link is followed when the path ends in a slash. -/
theorem resolve_of_find?_follow {follow : Bool} {item : Item} (h : t.find? follow path = .ok (p, item)) :
    t.resolve (follow || path.getLast? == some '/') path = .ok p ∧ t.get? p = some item := by
  rw [find?] at h
  cases hresolve : t.resolve (follow || path.getLast? == some '/') path with
  | error e =>
    rw [hresolve] at h
    cases h
  | ok q =>
    simp only [hresolve, bind, Except.bind] at h
    split at h
    · cases h
    · rename_i hget
      split_ifs at h
      obtain ⟨rfl, rfl⟩ := Prod.mk.inj (Except.ok.inj h)
      exact ⟨rfl, hget⟩
    · rename_i hget
      obtain ⟨rfl, rfl⟩ := Prod.mk.inj (Except.ok.inj h)
      exact ⟨rfl, hget⟩

theorem resolve_of_find? {item : Item} (h : t.find? true path = .ok (p, item)) :
    t.resolve true path = .ok p ∧ t.get? p = some item := resolve_of_find?_follow h

theorem find?_of_isDirectory (h : t.isDirectory path = true) :
    ∃ p, t.find? true path = .ok (p, .directory) := by
  unfold isDirectory at h
  split at h
  · rename_i p hfind
    exact ⟨p, hfind⟩
  · cases h

theorem readBytes_file (hresolve : t.resolve true path = .ok p) (hget : t.get? p = some (.file content))
    (hslash : path.getLast? ≠ some '/') : t.readBytes path = .ok content := by
  rw [readBytes, find?_file hresolve hget hslash]
  rfl

theorem find?_of_readBytes (h : t.readBytes path = .ok content) :
    ∃ p, t.find? true path = .ok (p, .file content) := by
  rw [readBytes] at h
  cases hfind : t.find? true path with
  | error e =>
    rw [hfind] at h
    cases h
  | ok found =>
    obtain ⟨p, item⟩ := found
    rw [hfind] at h
    cases item with
    | file other =>
      obtain rfl := Except.ok.inj h
      exact ⟨p, rfl⟩
    | directory => cases h
    | link target => cases h

theorem getLast?_of_find?_file (h : t.find? true path = .ok (p, .file content)) :
    path.getLast? ≠ some '/' := by
  obtain ⟨hresolve, hget⟩ := resolve_of_find? h
  intro hslash
  simp [find?, hresolve, hget, hslash, bind, Except.bind] at h

/-- A text that has been read is the content of a file. -/
theorem readText_eq_ok_iff (text : Text) :
    t.readText path = .ok text ↔ ∃ p content, t.resolve true path = .ok p ∧
      t.get? p = some (.file content) ∧ path.getLast? ≠ some '/' ∧ Text.ofBytes? content = some text := by
  constructor
  · intro h
    rw [readText] at h
    cases hbytes : t.readBytes path with
    | error e =>
      rw [hbytes] at h
      cases h
    | ok content =>
      obtain ⟨p, hfind⟩ := find?_of_readBytes hbytes
      obtain ⟨hresolve, hget⟩ := resolve_of_find? hfind
      refine ⟨p, content, hresolve, hget, getLast?_of_find?_file hfind, ?_⟩
      simp only [hbytes, bind, Except.bind] at h
      split at h
      · rename_i read htext
        rw [htext, Except.ok.inj h]
      · cases h
  · rintro ⟨p, content, hresolve, hget, hslash, htext⟩
    rw [readText, readBytes_file hresolve hget hslash]
    simp only [bind, Except.bind, htext]

/-- Paths of the same parts read alike. -/
theorem readText_congr {path' : FilePath} {text text' : Text}
    (hparts : FilePath.parts path = FilePath.parts path') (h : t.readText path = .ok text)
    (h' : t.readText path' = .ok text') : text = text' := by
  obtain ⟨p, content, hp, hget, -, htext⟩ := (readText_eq_ok_iff text).mp h
  obtain ⟨p', content', hp', hget', -, htext'⟩ := (readText_eq_ok_iff text').mp h'
  rw [resolve_eq (ne_nil_of_resolve hp)] at hp
  rw [resolve_eq (ne_nil_of_resolve hp'), ← hparts] at hp'
  obtain rfl := Except.ok.inj (hp.symm.trans hp')
  obtain rfl := FileTree.Item.file.inj (Option.some.inj (hget.symm.trans hget'))
  exact Option.some.inj (htext.symm.trans htext')

/-- A file that a tree keeps while it grows reads as before. -/
theorem Extends.readText {changed : List RealPath} {t' : FileTree} {text : Text} (h : Extends changed t t')
    (hchanged : ∀ q ∈ changed, t.resolve true path ≠ .ok q) (hread : t.readText path = .ok text) :
    t'.readText path = .ok text := by
  obtain ⟨p, content, hresolve, hget, hslash, htext⟩ := (readText_eq_ok_iff text).mp hread
  refine (readText_eq_ok_iff text).mpr ⟨p, content, h.resolve hresolve, ?_, hslash, htext⟩
  exact h.kept p _ hget fun hmem => absurd hresolve (hchanged p hmem)

theorem canonical_file (hresolve : t.resolve true path = .ok p) (hget : t.get? p = some (.file content))
    (hslash : path.getLast? ≠ some '/') : t.canonical path = p.toPath := by
  rw [canonical, canonical?, find?_file hresolve hget hslash]
  rfl

theorem canonical?_directory (hpath : t.resolve true path = .ok p) (hget : t.get? p = some .directory) :
    t.canonical? path = some p.toPath := by
  simp [canonical?, find?, hpath, hget, bind, Except.bind, Except.toOption]

end FileTree

end StaticSite
