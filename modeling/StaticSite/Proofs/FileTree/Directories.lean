import Mathlib.Data.List.Infix
import StaticSite.Proofs.FilePath.Parts
import StaticSite.Proofs.FileTree.Growth

/-!
# Directories below a base

What becomes of a path that leads by names from a directory that is there: making a directory, and writing a
file. As long as no symbolic link stands at these names, all depends on what stands at the places that they say.
-/
namespace StaticSite.FileTree

variable {t : FileTree} {follow : Bool} {p q r base : RealPath} {way parts : List FilePath.Part} {ns : List Text}
  {path : FilePath}

/-! ## Ways that go on -/

theorem Way.walk_append (h : Way t true p way (.arrived q)) (parts : List FilePath.Part) :
    t.walk follow p (way ++ parts) = t.walk follow q parts := by
  induction way generalizing p with
  | nil => cases h; rfl
  | cons part rest ih =>
    cases h with
    | root way => exact ih way
    | here hp way =>
      simp only [List.cons_append, walk, hp]
      exact ih way
    | up hp way =>
      simp only [List.cons_append, walk, hp]
      exact ih way
    | name hp hlink way =>
      simp only [List.cons_append, walk, hp]
      exact ih way
    | stay _ _ hoff => cases hoff

theorem Way.walk_append_link {d : RealPath} {target : FilePath} {rest : List FilePath.Part}
    (h : Way t true p way (.link d target rest)) (hparts : parts ≠ []) :
    t.walk follow p (way ++ parts) = .ok (.link d target (rest ++ parts)) := by
  have hon : ∀ xs : List FilePath.Part, (xs ++ parts).isEmpty = false := by simp [hparts]
  induction way generalizing p with
  | nil => cases h
  | cons part more ih =>
    cases h with
    | root way => exact ih way
    | here hp way =>
      simp only [List.cons_append, walk, hp]
      exact ih way
    | up hp way =>
      simp only [List.cons_append, walk, hp]
      exact ih way
    | name hp hlink way =>
      simp only [List.cons_append, walk, hp]
      exact ih way
    | link hp hlink _ =>
      simp [walk, hp, hlink, hon]

/-- Where a path leads by way of its beginning. -/
theorem resolveFrom_append_eq {links : Nat} {result : Except FileError RealPath}
    (h : t.resolveFrom true links p way = .ok q) (hparts : parts ≠ [])
    (hrest : t.walk follow q parts = result.map .arrived) :
    t.resolveFrom follow links p (way ++ parts) = result := by
  induction links generalizing p way with
  | zero => cases h
  | succ links ih =>
    rw [resolveFrom_eq_ok_iff] at h
    obtain hway | ⟨d, target, rest, hway, hrest'⟩ := h
    · rw [resolveFrom, hway.walk_append parts, hrest]
      cases result <;> rfl
    · rw [resolveFrom, hway.walk_append_link hparts]
      dsimp only
      rw [← List.append_assoc]
      exact ih hrest'

/-! ## Names below a base -/

/-- How far names lead where no link stands. -/
def along (t : FileTree) : RealPath → List Text → Except FileError RealPath
  | p, [] => .ok p
  | p, n :: ns =>
    match t.get? p with
    | none => .error .notFound
    | some .directory => t.along (p ++ [n]) ns
    | some _ => .error .notDirectory

/-- No symbolic link stands at names below a place. -/
def Plain (t : FileTree) (p : RealPath) (ns : List Text) : Prop :=
  ∀ ms, ms ≠ [] → ms <+: ns → ∀ target, t.get? (p ++ ms) ≠ some (.link target)

theorem Plain.tail {n : Text} (h : t.Plain p (n :: ns)) : t.Plain (p ++ [n]) ns := by
  intro ms _ hms target
  rw [List.append_assoc]
  exact h (n :: ms) (List.cons_ne_nil n ms) (List.cons_prefix_cons.mpr ⟨rfl, hms⟩) target

theorem Plain.shorten {ms : List Text} (h : t.Plain p ns) (hms : ms <+: ns) : t.Plain p ms :=
  fun ls hne hls => h ls hne (hls.trans hms)

theorem walk_names (h : t.Plain p ns) : t.walk follow p (ns.map .name) = (t.along p ns).map .arrived := by
  induction ns generalizing p with
  | nil => rfl
  | cons n ns ih =>
    have hlink := h [n] (List.cons_ne_nil n []) (by simp)
    rw [along]
    cases hp : t.get? p with
    | none =>
      simp only [List.map_cons, walk, hp]
      rfl
    | some item =>
      cases item with
      | directory =>
        simp only [List.map_cons, walk, hp]
        exact ih h.tail
      | file content =>
        simp only [List.map_cons, walk, hp]
        rfl
      | link target =>
        simp only [List.map_cons, walk, hp]
        rfl

theorem along_of_directory (h : ∀ ms, ms <+: ns → ms ≠ ns → t.get? (p ++ ms) = some .directory) :
    t.along p ns = .ok (p ++ ns) := by
  induction ns generalizing p with
  | nil => simp [along]
  | cons n ns ih =>
    have hp := h [] (List.nil_prefix) (by simp)
    rw [List.append_nil] at hp
    rw [along, hp]
    dsimp only
    rw [ih, List.append_assoc]
    · rfl
    · intro ms hms hne
      rw [List.append_assoc]
      exact h (n :: ms) (List.cons_prefix_cons.mpr ⟨rfl, hms⟩) (by simpa using hne)

/-- Names lead no further than to a file. -/
theorem along_of_file {ms : List Text} {content : List UInt8} (hrooted : t.Rooted) (hms : ms <+: ns)
    (hne : ms ≠ ns) (hfile : t.get? (p ++ ms) = some (.file content)) :
    t.along p ns = .error .notDirectory := by
  induction ns generalizing p ms with
  | nil => exact absurd (List.prefix_nil.mp hms) hne
  | cons n ns ih =>
    rw [along]
    cases ms with
    | nil =>
      rw [List.append_nil] at hfile
      rw [hfile]
    | cons m ms =>
      obtain ⟨rfl, hmore⟩ := List.cons_prefix_cons.mp hms
      rw [hrooted.directory (List.cons_ne_nil m ms) hfile]
      refine ih hmore (by simpa using hne) ?_
      rwa [List.append_assoc]

/-- Names do not lead past a place where nothing stands. -/
theorem along_of_missing {ms : List Text} (hms : ms <+: ns) (hne : ms ≠ ns)
    (hmissing : t.get? (p ++ ms) = none)
    (hopen : ∀ ls, ls <+: ms → t.get? (p ++ ls) = none ∨ t.get? (p ++ ls) = some .directory) :
    t.along p ns = .error .notFound := by
  induction ns generalizing p ms with
  | nil => exact absurd (List.prefix_nil.mp hms) hne
  | cons n ns ih =>
    rw [along]
    have hp := hopen [] List.nil_prefix
    rw [List.append_nil] at hp
    rcases hp with hp | hp
    · rw [hp]
    · rw [hp]
      cases ms with
      | nil =>
        rw [List.append_nil, hp] at hmissing
        cases hmissing
      | cons m ms =>
        obtain ⟨rfl, hmore⟩ := List.cons_prefix_cons.mp hms
        refine ih hmore (by simpa using hne) ?_ fun ls hls => ?_
        · rwa [List.append_assoc]
        · rw [List.append_assoc]
          exact hopen (m :: ls) (List.cons_prefix_cons.mpr ⟨rfl, hls⟩)

/-! ## Paths below a base -/

/-- A directory that some parts lead to. -/
structure Base (t : FileTree) (way : List FilePath.Part) (base : RealPath) : Prop where
  leads : t.resolveFrom true 41 [] way = .ok base
  directory : t.get? base = some .directory

theorem ne_nil_of_parts {ns : List Text} (hne : ns ≠ []) (hparts : FilePath.parts path = way ++ ns.map .name) :
    path ≠ [] := by
  rintro rfl
  have hnil : ([] : List FilePath.Part) = way ++ ns.map .name := hparts
  simp [hne] at hnil

/-- Names below a base lead as far as they do from it. -/
theorem Base.resolve (h : t.Base way base) (hplain : t.Plain base ns) (hne : ns ≠ [])
    (hparts : FilePath.parts path = way ++ ns.map .name) : t.resolve follow path = t.along base ns := by
  rw [resolve_eq (ne_nil_of_parts hne hparts), hparts]
  exact resolveFrom_append_eq h.leads (by simpa using hne) (walk_names hplain)

theorem Rooted.prefix_directory (h : t.Rooted) {ms : List Text} {item : Item}
    (hget : t.get? (p ++ ns) = some item) (hms : ms <+: ns) (hne : ms ≠ ns) :
    t.get? (p ++ ms) = some .directory := by
  obtain ⟨rest, rfl⟩ := hms
  rw [← List.append_assoc] at hget
  exact h.directory (fun hnil => hne (by simp [hnil])) hget

/-- What stands below a base is where its names say. -/
theorem Base.resolve_of_get? (h : t.Base way base) (hrooted : t.Rooted) (hplain : t.Plain base ns) (hne : ns ≠ [])
    (hparts : FilePath.parts path = way ++ ns.map .name) {item : Item}
    (hget : t.get? (base ++ ns) = some item) : t.resolve follow path = .ok (base ++ ns) := by
  rw [h.resolve hplain hne hparts]
  exact along_of_directory fun ms hms hms' => hrooted.prefix_directory hget hms hms'

/-- A place in a directory is where its names say. -/
theorem Base.resolve_of_parent (h : t.Base way base) (hrooted : t.Rooted) {n : Text}
    (hplain : t.Plain base (ns ++ [n])) (hparts : FilePath.parts path = way ++ (ns ++ [n]).map .name)
    (hparent : t.get? (base ++ ns) = some .directory) :
    t.resolve follow path = .ok (base ++ (ns ++ [n])) := by
  rw [h.resolve hplain (by simp) hparts]
  refine along_of_directory fun ms hms hne => ?_
  rcases List.prefix_concat_iff.mp hms with heq | hms
  · exact absurd heq hne
  · by_cases heq : ms = ns
    · rw [heq]
      exact hparent
    · exact hrooted.prefix_directory hparent hms heq

theorem Base.isDirectory (h : t.Base way base) (hrooted : t.Rooted) (hplain : t.Plain base ns) (hne : ns ≠ [])
    (hparts : FilePath.parts path = way ++ ns.map .name) (hget : t.get? (base ++ ns) = some .directory) :
    t.isDirectory path = true := by
  simp [FileTree.isDirectory, find?, h.resolve_of_get? hrooted hplain hne hparts hget, hget, bind, Except.bind]

theorem Base.not_isDirectory (h : t.Base way base) (hplain : t.Plain base ns) (hne : ns ≠ [])
    (hparts : FilePath.parts path = way ++ ns.map .name) {ms : List Text} {content : List UInt8}
    (hrooted : t.Rooted) (hms : ms <+: ns) (hfile : t.get? (base ++ ms) = some (.file content)) :
    t.isDirectory path = false := by
  by_cases heq : ms = ns
  · subst heq
    have hresolve : t.resolve true path = _ := h.resolve_of_get? hrooted hplain hne hparts hfile
    simp only [FileTree.isDirectory, find?, Bool.true_or, hresolve, bind, Except.bind, hfile]
    split_ifs <;> rfl
  · have hresolve : t.resolve true path = _ := h.resolve hplain hne hparts
    rw [along_of_file hrooted hms heq hfile] at hresolve
    simp [FileTree.isDirectory, find?, hresolve, bind, Except.bind]

/-! ## Making one directory -/

theorem Base.createDirectory_of_get? (h : t.Base way base) (hrooted : t.Rooted) (hplain : t.Plain base ns)
    (hne : ns ≠ []) (hparts : FilePath.parts path = way ++ ns.map .name) {item : Item}
    (hget : t.get? (base ++ ns) = some item) : t.createDirectory path = .error .alreadyExists := by
  simp [createDirectory, h.resolve_of_get? hrooted hplain hne hparts hget, hget, bind, Except.bind]

theorem Base.createDirectory_of_file (h : t.Base way base) (hrooted : t.Rooted) (hplain : t.Plain base ns)
    (hne : ns ≠ []) (hparts : FilePath.parts path = way ++ ns.map .name) {ms : List Text}
    {content : List UInt8} (hms : ms <+: ns) (hne' : ms ≠ ns)
    (hfile : t.get? (base ++ ms) = some (.file content)) :
    t.createDirectory path = .error .notDirectory := by
  have hresolve : t.resolve false path = _ := h.resolve hplain hne hparts
  rw [along_of_file hrooted hms hne' hfile] at hresolve
  simp [createDirectory, hresolve, bind, Except.bind]

theorem Base.createDirectory_of_missing (h : t.Base way base) (hplain : t.Plain base ns)
    (hne : ns ≠ []) (hparts : FilePath.parts path = way ++ ns.map .name) {ms : List Text}
    (hms : ms <+: ns) (hne' : ms ≠ ns) (hmissing : t.get? (base ++ ms) = none)
    (hopen : ∀ ls, ls <+: ms → t.get? (base ++ ls) = none ∨ t.get? (base ++ ls) = some .directory) :
    t.createDirectory path = .error .notFound := by
  have hresolve : t.resolve false path = _ := h.resolve hplain hne hparts
  rw [along_of_missing hms hne' hmissing hopen] at hresolve
  simp [createDirectory, hresolve, bind, Except.bind]

theorem Base.createDirectory_of_parent (h : t.Base way base) (hrooted : t.Rooted) {n : Text}
    (hplain : t.Plain base (ns ++ [n])) (hparts : FilePath.parts path = way ++ (ns ++ [n]).map .name)
    (hparent : t.get? (base ++ ns) = some .directory) (hnone : t.get? (base ++ (ns ++ [n])) = none) :
    t.createDirectory path = .ok (t.set (base ++ (ns ++ [n])) .directory) := by
  simp [createDirectory, h.resolve_of_parent hrooted hplain hparts hparent, hnone, bind, Except.bind]

/-- A file is written in a directory, unless a directory stands in its place. -/
theorem Base.writeText (h : t.Base way base) (hrooted : t.Rooted) {n : Text}
    (hplain : t.Plain base (ns ++ [n])) (hparts : FilePath.parts path = way ++ (ns ++ [n]).map .name)
    (hparent : t.get? (base ++ ns) = some .directory) (content : Text) :
    t.writeText path content =
      if t.get? (base ++ (ns ++ [n])) = some .directory then .error .isDirectory
      else .ok (t.set (base ++ (ns ++ [n])) (.file (Text.bytes content))) := by
  have hresolve : t.resolve true path = _ := h.resolve_of_parent hrooted hplain hparts hparent
  simp only [FileTree.writeText, write, hresolve, bind, Except.bind]
  cases t.get? (base ++ (ns ++ [n])) with
  | none => rfl
  | some item => cases item <;> rfl

/-! ## The base itself -/

/-- A way whose last link is not followed ends there, or where it ends otherwise. -/
theorem Way.unfollowed {w : Walk} (h : Way t true p parts w) :
    Way t false p parts w ∨ ∃ q target, Way t false p parts (.arrived q) ∧ t.get? q = some (.link target) := by
  induction h with
  | arrived p => exact .inl (.arrived p)
  | root _ ih =>
    rcases ih with ih | ⟨q, target, ih, hq⟩
    · exact .inl (.root ih)
    · exact .inr ⟨q, target, .root ih, hq⟩
  | here hp _ ih =>
    rcases ih with ih | ⟨q, target, ih, hq⟩
    · exact .inl (.here hp ih)
    · exact .inr ⟨q, target, .here hp ih, hq⟩
  | up hp _ ih =>
    rcases ih with ih | ⟨q, target, ih, hq⟩
    · exact .inl (.up hp ih)
    · exact .inr ⟨q, target, .up hp ih, hq⟩
  | name hp hlink _ ih =>
    rcases ih with ih | ⟨q, target, ih, hq⟩
    · exact .inl (.name hp hlink ih)
    · exact .inr ⟨q, target, .name hp hlink ih, hq⟩
  | @link p n rest target hp hlink _ =>
    by_cases hrest : rest = []
    · subst hrest
      exact .inr ⟨p ++ [n], target, .stay hp hlink rfl, hlink⟩
    · exact .inl (.link hp hlink (.inl hrest))
  | stay _ _ hoff => cases hoff

/-- Without following a link at the end, a path leads to that link, or where it leads otherwise. -/
theorem resolveFrom_unfollowed {links : Nat} {item : Item} (h : t.resolveFrom true links p parts = .ok q)
    (hq : t.get? q = some item) :
    ∃ r item', t.resolveFrom false links p parts = .ok r ∧ t.get? r = some item' ∧
      (r = q ∨ ∃ target, item' = .link target) := by
  induction links generalizing p parts with
  | zero => cases h
  | succ links ih =>
    rw [resolveFrom_eq_ok_iff] at h
    obtain hway | ⟨d, target, rest, hway, hrest⟩ := h
    · rcases hway.unfollowed with hway | ⟨r, target, hway, hr⟩
      · exact ⟨q, item, (resolveFrom_eq_ok_iff ..).mpr (.inl hway), hq, .inl rfl⟩
      · exact ⟨r, .link target, (resolveFrom_eq_ok_iff ..).mpr (.inl hway), hr, .inr ⟨target, rfl⟩⟩
    · rcases hway.unfollowed with hway | ⟨r, target, hway, hr⟩
      · obtain ⟨r, item', hr, hitem, hend⟩ := ih hrest
        exact ⟨r, item', (resolveFrom_eq_ok_iff ..).mpr (.inr ⟨d, target, rest, hway, hr⟩), hitem, hend⟩
      · exact ⟨r, .link target, (resolveFrom_eq_ok_iff ..).mpr (.inl hway), hr, .inr ⟨target, rfl⟩⟩

/-- The base is there. -/
theorem Base.createDirectory_self (h : t.Base way base) (hpath : path ≠ []) (hparts : FilePath.parts path = way) :
    t.createDirectory path = .error .alreadyExists ∧ t.isDirectory path = true := by
  obtain ⟨r, item, hr, hitem, -⟩ := resolveFrom_unfollowed h.leads h.directory
  have hunfollowed : t.resolve false path = .ok r := by rw [resolve_eq hpath, hparts, hr]
  have hresolve : t.resolve true path = .ok base := by rw [resolve_eq hpath, hparts, h.leads]
  refine ⟨?_, ?_⟩
  · simp [createDirectory, hunfollowed, hitem, bind, Except.bind]
  · simp [FileTree.isDirectory, find?, hresolve, h.directory, bind, Except.bind]

/-! ## Making all directories -/

/-- Nothing but directories stands at names below a place, so far as anything does. -/
def Open (t : FileTree) (p : RealPath) (ns : List Text) : Prop :=
  ∀ ms, ms <+: ns → t.get? (p ++ ms) = none ∨ t.get? (p ++ ms) = some .directory

instance (t : FileTree) (p : RealPath) (ns : List Text) : Decidable (t.Open p ns) :=
  decidable_of_iff (∀ ms ∈ ns.inits, t.get? (p ++ ms) = none ∨ t.get? (p ++ ms) = some .directory)
    (by simp [Open, List.mem_inits])

theorem Open.plain (h : t.Open p ns) : t.Plain p ns := by
  intro ms _ hms target hlink
  rcases h ms hms with hnone | hdirectory
  · rw [hnone] at hlink
    cases hlink
  · rw [hdirectory] at hlink
    cases hlink

theorem Open.shorten {ms : List Text} (h : t.Open p ns) (hms : ms <+: ns) : t.Open p ms :=
  fun ls hls => h ls (hls.trans hms)

theorem Open.of_growth {t' : FileTree} (h : t.Open p ns)
    (hgrowth : ∀ q, t'.get? q = t.get? q ∨ t'.get? q = some .directory) : t'.Open p ns := by
  intro ms hms
  rcases hgrowth (p ++ ms) with hsame | hdirectory
  · rw [hsame]
    exact h ms hms
  · exact .inr hdirectory

theorem Base.of_extends {changed : List RealPath} {t' : FileTree} (h : t.Base way base)
    (hextends : Extends changed t t') : t'.Base way base :=
  ⟨hextends.resolveFrom h.leads, hextends.directory h.directory⟩

theorem get?_set_directory (hne : p ≠ []) (t : FileTree) (q : RealPath) :
    (t.set p .directory).get? q = t.get? q ∨ q = p ∧ (t.set p .directory).get? q = some .directory := by
  rw [get?_set hne]
  split_ifs with hq
  · exact .inr ⟨hq, rfl⟩
  · exact .inl rfl

/-- Where a directory can be made, or is. -/
theorem Base.ensureDirectory (h : t.Base way base) (hrooted : t.Rooted) {n : Text} (hopen : t.Open base (ns ++ [n]))
    (hparts : FilePath.parts path = way ++ (ns ++ [n]).map .name)
    (hparent : t.get? (base ++ ns) = some .directory) :
    ∃ t', t.ensureDirectory path = .ok t' ∧ t'.get? (base ++ (ns ++ [n])) = some .directory ∧
      ∀ q, t'.get? q = t.get? q ∨ q = base ++ (ns ++ [n]) ∧ t'.get? q = some .directory := by
  have hplain := hopen.plain
  unfold FileTree.ensureDirectory
  rcases hopen (ns ++ [n]) List.prefix_rfl with hnone | hthere
  · have hne : base ++ (ns ++ [n]) ≠ [] := by simp
    rw [h.createDirectory_of_parent hrooted hplain hparts hparent hnone]
    refine ⟨_, rfl, ?_, get?_set_directory hne t⟩
    rw [get?_set hne, if_pos rfl]
  · rw [h.createDirectory_of_get? hrooted hplain (by simp) hparts hthere]
    dsimp only
    rw [h.isDirectory hrooted hplain (by simp) hparts hthere, if_pos rfl]
    exact ⟨t, rfl, hthere, fun q => .inl rfl⟩

/-- In a directory another one can be made, or something stands there. -/
theorem Base.createDirectory_ne_notFound (h : t.Base way base) (hrooted : t.Rooted) {n : Text}
    (hopen : t.Open base (ns ++ [n])) (hparts : FilePath.parts path = way ++ (ns ++ [n]).map .name)
    (hparent : t.get? (base ++ ns) = some .directory) : t.createDirectory path ≠ .error .notFound := by
  rcases hopen (ns ++ [n]) List.prefix_rfl with hnone | hthere
  · rw [h.createDirectory_of_parent hrooted hopen.plain hparts hparent hnone]
    rintro ⟨⟩
  · rw [h.createDirectory_of_get? hrooted hopen.plain (by simp) hparts hthere]
    rintro ⟨⟩

/-- Where nothing is missing above a directory, it alone is made. -/
theorem createDirectoriesFrom_eq_ensureDirectory (hpath : path.isEmpty = false)
    (hcreate : t.createDirectory path ≠ .error .notFound) (fuel : Nat) :
    FileTree.createDirectoriesFrom (fuel + 1) t path = t.ensureDirectory path := by
  rw [FileTree.createDirectoriesFrom, hpath, if_neg Bool.false_ne_true, FileTree.ensureDirectory]
  cases hmade : t.createDirectory path with
  | ok made => rfl
  | error e =>
    have he : e ≠ .notFound := fun heq => hcreate (by rw [hmade, heq])
    dsimp only
    rw [if_neg he]

theorem Base.createDirectoriesFrom_self (h : t.Base way base) (hparts : FilePath.parts path = way) (fuel : Nat) :
    FileTree.createDirectoriesFrom (fuel + 1) t path = .ok t := by
  cases hpath : path.isEmpty with
  | true => rw [FileTree.createDirectoriesFrom, if_pos hpath]
  | false =>
    obtain ⟨hthere, hdirectory⟩ := h.createDirectory_self (by simpa using hpath) hparts
    have hfound : t.createDirectory path ≠ .error .notFound := by
      rw [hthere]
      rintro ⟨⟩
    rw [createDirectoriesFrom_eq_ensureDirectory hpath hfound, FileTree.ensureDirectory, hthere]
    exact if_pos hdirectory

/-- The base is there, so something is left of the way to what is missing. -/
theorem Base.ne_nil_of_missing (h : t.Base way base) (hmissing : t.get? (base ++ ns) = none) : ns ≠ [] := by
  rintro rfl
  rw [List.append_nil, h.directory] at hmissing
  cases hmissing

/-- Fuel for some names is enough for those before the last one, with a step to spare. -/
theorem exists_fuel_of_concat {init : List Text} {n : Text} {fuel : Nat} (hinit : init ≠ [])
    (hfuel : (init ++ [n]).length ≤ fuel + 1) : ∃ k, fuel = k + 1 ∧ init.length ≤ k + 1 := by
  have hlength := List.length_pos_of_ne_nil hinit
  rw [List.length_append, List.length_singleton] at hfuel
  exact ⟨fuel - 1, by omega, by omega⟩

/-- Directories can be made where nothing else stands in the way, and nothing else is made. -/
theorem Base.createDirectoriesFrom {fuel : Nat} (h : t.Base way base) (hrooted : t.Rooted)
    (hopen : t.Open base ns) (hparts : FilePath.parts path = way ++ ns.map .name)
    (hfuel : ns.length ≤ fuel + 1) :
    ∃ t', FileTree.createDirectoriesFrom (fuel + 1) t path = .ok t' ∧
      t'.get? (base ++ ns) = some .directory ∧
        ∀ q, t'.get? q = t.get? q ∨ q <+: base ++ ns ∧ t'.get? q = some .directory := by
  induction ns using List.reverseRecOn generalizing fuel path with
  | nil =>
    rw [List.map_nil, List.append_nil] at hparts
    rw [List.append_nil]
    exact ⟨t, h.createDirectoriesFrom_self hparts fuel, h.directory, fun q => .inl rfl⟩
  | append_singleton init n ih =>
    have hne : init ++ [n] ≠ [] := by simp
    have hpath : path.isEmpty = false := by simpa using ne_nil_of_parts hne hparts
    have hinit : init <+: init ++ [n] := List.prefix_append init [n]
    rcases hopen init hinit with hmissing | hparent
    · -- what stands above is missing, and is made first
      have hup : FilePath.parts path = (way ++ init.map .name) ++ [.name n] := by simp [hparts]
      obtain ⟨parent, hparent, hparts'⟩ := FilePath.parts_parent? hup
      have hnotFound := h.createDirectory_of_missing hopen.plain hne hparts hinit (by simp) hmissing
        fun ls hls => hopen ls (hls.trans hinit)
      obtain ⟨k, rfl, hfuel'⟩ := exists_fuel_of_concat (h.ne_nil_of_missing hmissing) hfuel
      obtain ⟨above, habove, hdirectory, hgrowth⟩ := ih (hopen.shorten hinit) hparts' hfuel'
      obtain ⟨hrooted', hextends⟩ := createDirectoriesFrom_spec hrooted habove
      obtain ⟨t', ht', hlast, hgrowth'⟩ := (h.of_extends hextends).ensureDirectory hrooted'
        (hopen.of_growth fun q => (hgrowth q).imp_right And.right) hparts hdirectory
      refine ⟨t', ?_, hlast, fun q => ?_⟩
      · rw [FileTree.createDirectoriesFrom, hpath, hnotFound, hparent]
        simp only [if_true, habove]
        exact ht'
      · rcases hgrowth' q with hsame | ⟨rfl, hnew⟩
        · rw [hsame]
          refine (hgrowth q).imp_right fun hq => ⟨hq.1.trans ?_, hq.2⟩
          exact (List.prefix_append_right_inj base).mpr hinit
        · exact .inr ⟨List.prefix_rfl, hnew⟩
    · have hfound := h.createDirectory_ne_notFound hrooted hopen hparts hparent
      obtain ⟨t', ht', hlast, hgrowth⟩ := h.ensureDirectory hrooted hopen hparts hparent
      refine ⟨t', ?_, hlast, fun q => (hgrowth q).imp_right ?_⟩
      · rw [createDirectoriesFrom_eq_ensureDirectory hpath hfound, ht']
      · rintro ⟨rfl, hnew⟩
        exact ⟨List.prefix_rfl, hnew⟩

/-- Names below a base lead through directories and free places, or there is a first file on the way. -/
theorem Plain.open_or_file (h : t.Plain base ns) (hbase : t.get? base = some .directory) :
    t.Open base ns ∨ ∃ ms content, ms <+: ns ∧ t.get? (base ++ ms) = some (.file content) := by
  by_contra hnot
  rw [not_or] at hnot
  refine hnot.1 fun ms hms => ?_
  cases hget : t.get? (base ++ ms) with
  | none => exact .inl rfl
  | some item =>
    cases item with
    | directory => exact .inr rfl
    | file content => exact absurd ⟨ms, content, hms, hget⟩ hnot.2
    | link target =>
      by_cases hne : ms = []
      · rw [hne, List.append_nil, hbase] at hget
        cases hget
      · exact absurd hget (h ms hne hms target)

end StaticSite.FileTree
