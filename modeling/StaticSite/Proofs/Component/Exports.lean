import StaticSite.Component.Imports
import StaticSite.Proofs.FileTree.Files

/-!
# What is known about components

A component file is read for the first document that lacks its import, and what was found is remembered for
the others. As long as the files of the components stay as they are, this makes no difference: a document
is given the imports that it would be given alone.
-/
namespace StaticSite

variable {t t' : FileTree}

namespace ExportCache

variable {c : ExportCache}

/-- What is known about files that can be read in a tree is what stands in them. -/
def Agrees (t : FileTree) (c : ExportCache) : Prop :=
  ∀ path source, t.readText path = .ok source → ∀ found, c.find? path = some found →
    found = EsModule.hasDefaultExport source

/-- What is not known is read; a file that cannot be read has no default export. -/
theorem found_check (t : FileTree) (path : FilePath) (c : ExportCache) :
    (c.check t path).1.toOption.getD false = (c.find? path).getD
      (((t.readText path).toOption.map EsModule.hasDefaultExport).getD false) := by
  unfold check
  cases c.find? path with
  | some found => rfl
  | none => cases t.readText path <;> rfl

theorem find?_congr {path path' : FilePath} (h : FilePath.same path path' = true) (c : ExportCache) :
    c.find? path = c.find? path' := by
  have hparts : FilePath.parts path = FilePath.parts path' := by simpa [FilePath.same] using h
  simp only [find?, FilePath.same, hparts]

theorem agrees_empty (t : FileTree) : Agrees t .empty := by
  intro path source _ found hfound
  cases hfound

/-- A file that reads as it did is answered for by its content, known or not. -/
theorem check_of_agrees (h : c.Agrees t) {path : FilePath} {source : Text}
    (hread : t.readText path = .ok source) (hread' : t'.readText path = .ok source) :
    (c.check t' path).1 = .ok (EsModule.hasDefaultExport source) ∧ (c.check t' path).2.Agrees t := by
  cases hfind : c.find? path with
  | some found =>
    have hfound := h path source hread found hfind
    simp only [check, hfind]
    exact ⟨congrArg Except.ok hfound, h⟩
  | none =>
    have hcheck : c.check t' path = (.ok (EsModule.hasDefaultExport source),
        ⟨(path, EsModule.hasDefaultExport source) :: c.known⟩) := by
      simp only [check, hfind, hread']
    rw [hcheck]
    refine ⟨rfl, fun path' source' hsource' found hfound => ?_⟩
    by_cases hsame : FilePath.parts path = FilePath.parts path'
    · have hnew : find? path' ⟨(path, EsModule.hasDefaultExport source) :: c.known⟩ =
          some (EsModule.hasDefaultExport source) := by
        simp [find?, FilePath.same, hsame]
      obtain rfl := Option.some.inj (hnew.symm.trans hfound)
      rw [FileTree.readText_congr hsame hread hsource']
    · have hother : find? path' ⟨(path, EsModule.hasDefaultExport source) :: c.known⟩ = c.find? path' := by
        simp [find?, FilePath.same, hsame]
      exact h path' source' hsource' found (hother.symm.trans hfound)

end ExportCache

/-- The files of the components read alike in two trees. -/
def Registry.ReadAlike (r : Registry) (t t' : FileTree) : Prop :=
  ∀ name path, r.resolve? name = some path →
    ∃ source, t.readText path = .ok source ∧ t'.readText path = .ok source

theorem Registry.ReadAlike.refl_left {r : Registry} (h : r.ReadAlike t t') : r.ReadAlike t t := by
  intro name path hpath
  obtain ⟨source, hread, -⟩ := h name path hpath
  exact ⟨source, hread, hread⟩

namespace Injection

variable {registry : Registry} {c c' : ExportCache}

theorem importOf_of_agrees (h : c.Agrees t) {path : FilePath} {source : Text} (file : SourceFile) (name : Text)
    (hread : t.readText path = .ok source) (hread' : t'.readText path = .ok source) :
    (importOf t' file name path c).1 =
        ⟨name, if EsModule.hasDefaultExport source then .default else .named,
          FilePath.specifier file.directory path⟩ ∧
      (importOf t' file name path c).2.Agrees t := by
  obtain ⟨hfound, hagrees⟩ := ExportCache.check_of_agrees h hread hread'
  refine ⟨?_, hagrees⟩
  simp only [importOf, hfound]
  rfl

/-- What comes of a component depends on nothing that was read before. -/
theorem outcome_of_agrees (hcomponents : registry.ReadAlike t t') (h : c.Agrees t) (h' : c'.Agrees t)
    (file : SourceFile) (name : Text) :
    (outcome t' registry file name c).1 = (outcome t registry file name c').1 ∧
      (outcome t' registry file name c).2.Agrees t := by
  unfold outcome
  split_ifs
  · exact ⟨rfl, h⟩
  · exact ⟨rfl, h⟩
  · cases hresolve : registry.resolve? name with
    | none => exact ⟨rfl, h⟩
    | some path =>
      obtain ⟨source, hread, hread'⟩ := hcomponents name path hresolve
      obtain ⟨himport, hagrees⟩ := importOf_of_agrees h file name hread hread'
      obtain ⟨himport', -⟩ := importOf_of_agrees h' file name hread hread
      dsimp only
      rw [himport, himport']
      split
      · exact ⟨rfl, hagrees⟩
      · exact ⟨rfl, hagrees⟩

theorem outcomes_of_agrees (hcomponents : registry.ReadAlike t t') (h : c.Agrees t) (h' : c'.Agrees t)
    (file : SourceFile) (names : List Text) :
    (outcomes t' registry file names c).1 = (outcomes t registry file names c').1 ∧
      (outcomes t' registry file names c).2.Agrees t := by
  induction names generalizing c c' with
  | nil => exact ⟨rfl, h⟩
  | cons name names ih =>
    obtain ⟨hfirst, hagrees⟩ := outcome_of_agrees hcomponents h h' file name
    obtain ⟨-, hagrees'⟩ := outcome_of_agrees hcomponents.refl_left h' h file name
    obtain ⟨hrest, hlast⟩ := ih hagrees hagrees'
    exact ⟨congrArg₂ List.cons hfirst hrest, hlast⟩

/-- A document is given the imports that it would be given alone. -/
theorem inject_of_agrees (hcomponents : registry.ReadAlike t t') (h : c.Agrees t) (h' : c'.Agrees t)
    (wrapper : Option Text) (file : SourceFile) (doc : Document) :
    (inject t' registry wrapper file doc c).document = (inject t registry wrapper file doc c').document ∧
      (inject t' registry wrapper file doc c).exports.Agrees t := by
  have hall (names : List Text) := outcomes_of_agrees hcomponents h h' file names
  unfold inject
  dsimp only
  exact ⟨by rw [(hall _).1], (hall _).2⟩

end Injection

end StaticSite
