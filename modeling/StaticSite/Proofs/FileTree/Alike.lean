import StaticSite.Proofs.FileTree.Growth

/-!
# Trees that are alike

Trees in which the same stands at every place may differ in the order in which it was put there. Nothing that is
asked of them or done to them tells them apart.
-/
namespace StaticSite.FileTree

/-- The same stands at every place. -/
def Alike (t t' : FileTree) : Prop := ∀ p, t.get? p = t'.get? p

/-- The results of one change to two trees: alike trees, or one error. -/
inductive ChangeAlike : Except FileError FileTree → Except FileError FileTree → Prop where
  | changed {t t' : FileTree} (alike : Alike t t') : ChangeAlike (.ok t) (.ok t')
  | failed (e : FileError) : ChangeAlike (.error e) (.error e)

variable {t t' : FileTree} {follow : Bool}

namespace Alike

theorem refl (t : FileTree) : Alike t t := fun _ => rfl

theorem walk (h : Alike t t') (p : RealPath) (parts : List FilePath.Part) :
    t.walk follow p parts = t'.walk follow p parts := by
  induction parts generalizing p with
  | nil => rfl
  | cons part rest ih =>
    cases part with
    | root => exact ih []
    | here => simp only [FileTree.walk, h p, ih]
    | up => simp only [FileTree.walk, h p, ih]
    | name n => simp only [FileTree.walk, h p, h (p ++ [n]), ih]

theorem resolveFrom (h : Alike t t') (links : Nat) (p : RealPath) (parts : List FilePath.Part) :
    t.resolveFrom follow links p parts = t'.resolveFrom follow links p parts := by
  induction links generalizing p parts with
  | zero => rfl
  | succ links ih => simp only [FileTree.resolveFrom, h.walk, ih]

theorem resolve (h : Alike t t') (path : FilePath) : t.resolve follow path = t'.resolve follow path := by
  simp only [FileTree.resolve, h.resolveFrom]

theorem find? (h : Alike t t') (path : FilePath) : t.find? follow path = t'.find? follow path := by
  simp only [FileTree.find?, h.resolve, h _]

theorem canonical (h : Alike t t') (path : FilePath) : t.canonical path = t'.canonical path := by
  simp only [FileTree.canonical, canonical?, h.find?]

theorem isDirectory (h : Alike t t') (path : FilePath) : t.isDirectory path = t'.isDirectory path := by
  simp only [FileTree.isDirectory, h.find?]

theorem readText (h : Alike t t') (path : FilePath) : t.readText path = t'.readText path := by
  simp only [FileTree.readText, readBytes, h.find?]

theorem set (h : Alike t t') {q : RealPath} (hq : q ≠ []) (item : Item) : Alike (t.set q item) (t'.set q item) := by
  intro p
  rw [get?_set hq, get?_set hq, h p]

theorem write (h : Alike t t') (path : FilePath) (content : List UInt8) :
    ChangeAlike (t.write path content) (t'.write path content) := by
  unfold FileTree.write
  rw [← h.resolve]
  cases t.resolve true path with
  | error e => exact .failed e
  | ok q =>
    simp only [bind, Except.bind]
    rw [← h q]
    by_cases hq : q = []
    · subst hq
      exact .failed .isDirectory
    · have hset := ChangeAlike.changed (h.set hq (.file content))
      cases t.get? q with
      | none => exact hset
      | some item =>
        cases item with
        | directory => exact .failed .isDirectory
        | file other => exact hset
        | link target => exact hset

theorem createDirectory (h : Alike t t') (path : FilePath) :
    ChangeAlike (t.createDirectory path) (t'.createDirectory path) := by
  unfold FileTree.createDirectory
  rw [← h.resolve]
  cases t.resolve false path with
  | error e => exact .failed e
  | ok q =>
    simp only [bind, Except.bind]
    rw [← h q]
    by_cases hq : q = []
    · subst hq
      exact .failed .alreadyExists
    · cases t.get? q with
      | none => exact .changed (h.set hq .directory)
      | some item => exact .failed .alreadyExists

theorem ensureDirectory (h : Alike t t') (path : FilePath) :
    ChangeAlike (t.ensureDirectory path) (t'.ensureDirectory path) := by
  have hcreate := h.createDirectory path
  unfold FileTree.ensureDirectory
  rw [← h.isDirectory]
  generalize t.createDirectory path = made, t'.createDirectory path = made' at hcreate ⊢
  cases hcreate with
  | changed halike => exact .changed halike
  | failed e =>
    dsimp only
    split_ifs
    · exact .changed h
    · exact .failed e

theorem createDirectoriesFrom (h : Alike t t') (fuel : Nat) (path : FilePath) :
    ChangeAlike (FileTree.createDirectoriesFrom fuel t path) (FileTree.createDirectoriesFrom fuel t' path) := by
  induction fuel generalizing path with
  | zero => exact .changed h
  | succ fuel ih =>
    have hcreate := h.createDirectory path
    rw [FileTree.createDirectoriesFrom, FileTree.createDirectoriesFrom, ← h.isDirectory]
    generalize t.createDirectory path = made, t'.createDirectory path = made' at hcreate ⊢
    by_cases hpath : path.isEmpty = true
    · rw [if_pos hpath, if_pos hpath]
      exact .changed h
    rw [if_neg hpath, if_neg hpath]
    cases hcreate with
    | changed halike => exact .changed halike
    | failed e =>
      dsimp only
      by_cases he : e = .notFound
      · rw [if_pos he, if_pos he]
        cases FilePath.parent? path with
        | none => exact .failed e
        | some parent =>
          have habove := ih parent
          dsimp only
          generalize FileTree.createDirectoriesFrom fuel t parent = above,
            FileTree.createDirectoriesFrom fuel t' parent = above' at habove ⊢
          cases habove with
          | changed halike => exact halike.ensureDirectory path
          | failed e => exact .failed e
      · rw [if_neg he, if_neg he]
        split_ifs
        · exact .changed h
        · exact .failed e

end Alike

end StaticSite.FileTree
