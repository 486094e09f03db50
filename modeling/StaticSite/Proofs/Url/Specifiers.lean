import StaticSite.Proofs.Url.NormalForm

/-!
# Where import specifiers lead

A specifier climbs from the directory of a document, one step for each part of it that the path of the component does
not share, and goes down from there. So it leads to the component if all those parts are names. A part of two dots has
itself climbed, and the step for it goes too far: from such a directory the specifier leads elsewhere, unless the two
paths part at the root.
-/
namespace StaticSite

open FilePath (IsName IsSegment Part isAbsolute ofNames parts partOf? dropCommon specifier)

variable {directory target p q : FilePath} {steps : List Part} {part : Part}

/-! ## Parts as steps -/

namespace FilePath

/-- A part that leads from one directory to another. -/
def Part.IsStep : Part → Prop
  | .name n => IsName n
  | .up => True
  | .root | .here => False

/-- Where a part leads from a directory, which is given by the names on the way to it. -/
def Part.enter (names : List Text) : Part → List Text
  | .name n => names ++ [n]
  | .up => names.dropLast
  | .root | .here => names

theorem exists_segments_of_isAbsolute (h : isAbsolute p = true) :
    ∃ segments, Text.splitOn '/' p = [] :: segments ∧ parts p = .root :: segments.filterMap partOf? := by
  obtain ⟨rest, rfl⟩ : ∃ rest, p = '/' :: rest := List.head?_eq_some_iff.mp (by simpa [isAbsolute] using h)
  have hsplit : Text.splitOn '/' ('/' :: rest) = [] :: Text.splitOn '/' rest := Text.splitOn_append_cons '/' [] rest
  obtain ⟨first, segments, hrest⟩ := exists_splitOn rest
  refine ⟨_, hsplit, ?_⟩
  rw [parts_of_splitOn hsplit, hrest]
  rfl

theorem exists_steps_of_isAbsolute (h : isAbsolute p = true) :
    ∃ steps, parts p = .root :: steps ∧ ∀ part ∈ steps, part.IsStep := by
  obtain ⟨segments, hsplit, hparts⟩ := exists_segments_of_isAbsolute h
  refine ⟨_, hparts, fun part hpart => ?_⟩
  obtain ⟨segment, hsegment, hpart⟩ := List.mem_filterMap.mp hpart
  have hsegment : segment ∈ Text.splitOn '/' p := hsplit ▸ List.mem_cons_of_mem _ hsegment
  cases part with
  | name n => exact isName_of_partOf? (isSegment_of_mem hsegment) hpart
  | up => trivial
  | root | here =>
    unfold partOf? at hpart
    split_ifs at hpart <;> cases hpart

/-- Behind the root, all parts of a path are steps. -/
theorem isStep_dropCommon (hdirectory : isAbsolute directory = true) (htarget : isAbsolute target = true) :
    (∀ part ∈ (dropCommon (parts directory) (parts target)).1, part.IsStep) ∧
    ∀ part ∈ (dropCommon (parts directory) (parts target)).2, part.IsStep := by
  obtain ⟨as, has, hsteps⟩ := exists_steps_of_isAbsolute hdirectory
  obtain ⟨bs, hbs, hsteps'⟩ := exists_steps_of_isAbsolute htarget
  have hdrop : dropCommon (parts directory) (parts target) = dropCommon as bs := by
    rw [has, hbs, dropCommon, if_pos rfl]
  obtain ⟨hleft, hright⟩ := shared_append_dropCommon as bs
  rw [hdrop]
  exact ⟨fun part hpart => hsteps part (hleft ▸ List.mem_append_right _ hpart),
    fun part hpart => hsteps' part (hright ▸ List.mem_append_right _ hpart)⟩

theorem Part.IsStep.isSegment (h : part.IsStep) : IsSegment part.text := by
  cases part with
  | name n => exact IsName.no_slash h
  | up => simp [IsSegment, Part.text]
  | root | here => exact h.elim

/-! ## Climbing -/

theorem foldl_enter_up (k : ℕ) (names : List Text) :
    (List.replicate k Part.up).foldl Part.enter names = names.take (names.length - k) := by
  induction k generalizing names with
  | zero => simp
  | succ k ih =>
    rw [List.replicate_succ, List.foldl_cons, ih]
    simp only [Part.enter, List.dropLast_eq_take, List.take_take, List.length_take]
    congr 1
    omega

/-- Names lead down, one after the other. -/
theorem exists_foldl_enter_eq (hsteps : ∀ part ∈ steps, part.IsStep) (hup : .up ∉ steps) :
    ∃ ns : List Text, ns.length = steps.length ∧ ∀ names, steps.foldl Part.enter names = names ++ ns := by
  induction steps with
  | nil => exact ⟨[], rfl, fun names => (List.append_nil names).symm⟩
  | cons part steps ih =>
    obtain ⟨hpart, hsteps⟩ := List.forall_mem_cons.mp hsteps
    rw [List.mem_cons, not_or] at hup
    obtain ⟨ns, hlength, hns⟩ := ih hsteps hup.2
    cases part with
    | name n =>
      refine ⟨n :: ns, by simp [hlength], fun names => ?_⟩
      rw [List.foldl_cons, hns, Part.enter, List.append_assoc, List.singleton_append]
    | up => exact absurd rfl hup.1
    | root | here => exact hpart.elim

theorem length_enter_le (names : List Text) (part : Part) : (part.enter names).length ≤ names.length + 1 := by
  cases part <;> simp [Part.enter]
  omega

theorem length_foldl_enter_le (steps : List Part) (names : List Text) :
    (steps.foldl Part.enter names).length ≤ names.length + steps.length := by
  induction steps generalizing names with
  | nil => simp
  | cons part steps ih =>
    have hrest := ih (part.enter names)
    have hpart := length_enter_le names part
    rw [List.foldl_cons, List.length_cons]
    omega

/-- A step that climbs adds no name. -/
theorem length_foldl_enter_lt (hup : .up ∈ steps) (names : List Text) :
    (steps.foldl Part.enter names).length < names.length + steps.length := by
  induction steps generalizing names with
  | nil => cases hup
  | cons part steps ih =>
    rw [List.foldl_cons, List.length_cons]
    rcases List.mem_cons.mp hup with rfl | hup
    · have hrest := length_foldl_enter_le steps (Part.up.enter names)
      have hclimb : (Part.up.enter names).length ≤ names.length := by simp [Part.enter]
      omega
    · have hrest := ih hup (part.enter names)
      have hpart := length_enter_le names part
      omega

/-- The way down some steps and up again, one step for each. -/
def thereAndBack (steps : List Part) (names : List Text) : List Text :=
  (List.replicate steps.length Part.up).foldl Part.enter (steps.foldl Part.enter names)

/-- The way ends where it started if it goes down by names. A step that climbs leaves too little to climb back, so then
the way ends above its start, unless that is the root. -/
theorem thereAndBack_eq_iff (hsteps : ∀ part ∈ steps, part.IsStep) (names : List Text) :
    thereAndBack steps names = names ↔ .up ∉ steps ∨ names = [] := by
  by_cases hup : .up ∈ steps
  · have hlength : (thereAndBack steps names).length = (steps.foldl Part.enter names).length - steps.length := by
      rw [thereAndBack, foldl_enter_up, List.length_take]
      omega
    have hlt := length_foldl_enter_lt hup names
    simp only [hup, not_true_eq_false, false_or]
    constructor
    · intro h
      rw [h] at hlength
      exact List.eq_nil_of_length_eq_zero (by omega)
    · rintro rfl
      rw [List.length_nil] at hlt
      exact List.eq_nil_of_length_eq_zero (by omega)
  · obtain ⟨ns, hlength, hns⟩ := exists_foldl_enter_eq hsteps hup
    simp only [hup, not_false_eq_true, true_or, iff_true]
    rw [thereAndBack, hns, foldl_enter_up, ← hlength, List.length_append, Nat.add_sub_cancel, List.take_left]

theorem isAbsolute_join (hp : isAbsolute p = true) (q : FilePath) : isAbsolute (join p q) = true := by
  obtain ⟨rest, rfl⟩ : ∃ rest, p = '/' :: rest := List.head?_eq_some_iff.mp (by simpa [isAbsolute] using hp)
  by_cases hq : isAbsolute q = true
  · simp [join, hq]
  · rw [join, if_neg (by simpa using hq)]
    split_ifs <;> rfl

end FilePath

namespace Url

open FilePath (shared thereAndBack)

/-! ## Paths as steps -/

theorem foldl_enter_eq (segments names : List Text) :
    segments.foldl enter names = (segments.filterMap partOf?).foldl Part.enter names := by
  induction segments generalizing names with
  | nil => rfl
  | cons s segments ih =>
    rw [List.foldl_cons, ih, enter, List.filterMap_cons]
    unfold partOf?
    by_cases hnil : s = []
    · simp [hnil]
    · by_cases hdot : s = ['.']
      · simp [hdot]
      · by_cases hdots : s = ['.', '.']
        · simp [hdots, Part.enter]
        · simp [hnil, hdot, hdots, Part.enter]

theorem destination_of_isAbsolute (h : isAbsolute p = true) : destination [] p = (parts p).foldl Part.enter [] := by
  obtain ⟨segments, hsplit, hparts⟩ := FilePath.exists_segments_of_isAbsolute h
  rw [destination, hsplit, hparts, List.foldl_cons, foldl_enter_eq]
  rfl

/-- Two paths from the root collapse to the same one just when they lead to the same place. -/
theorem normalizePath_eq_iff (hp : isAbsolute p = true) (hq : isAbsolute q = true) :
    normalizePath p = normalizePath q ↔ destination [] p = destination [] q := by
  rw [normalizePath_eq_normalizePath_iff, hp, hq]
  exact and_iff_right rfl

theorem destination_join (hp : p ≠ []) (hq : isAbsolute q = false) (names : List Text) :
    destination names (FilePath.join p q) = destination (destination names p) q := by
  have hleading : (FilePath.leading p).foldl enter names = destination names p := by
    unfold FilePath.leading
    split_ifs with hslash
    · obtain ⟨start, rfl⟩ := List.getLast?_eq_some_iff.mp (by simpa using hslash)
      rw [List.dropLast_concat, destination, Text.splitOn_append_cons, List.foldl_append]
      rfl
    · rfl
  rw [destination, FilePath.splitOn_join hp hq, List.foldl_append, hleading]
  rfl

theorem destination_dot (names : List Text) (q : Text) : destination names ("./" ++ q) = destination names q := by
  have hsplit : Text.splitOn '/' ("./" ++ q) = ['.'] :: Text.splitOn '/' q := Text.splitOn_append_cons '/' ['.'] q
  rw [destination, hsplit, List.foldl_cons]
  rfl

/-- Steps that are written as a path lead where they lead one after the other. -/
theorem destination_steps (hsteps : ∀ part ∈ steps, part.IsStep) (names : List Text) :
    destination names (Text.join "/" (steps.map Part.text)) = steps.foldl Part.enter names := by
  by_cases hnil : steps = []
  · subst hnil
    rfl
  · have hsegments : ∀ t ∈ steps.map Part.text, IsSegment t := by
      rw [List.forall_mem_map]
      exact fun part hpart => (hsteps part hpart).isSegment
    have hparts : (steps.map Part.text).filterMap partOf? = steps := by
      rw [List.filterMap_map]
      refine (List.filterMap_congr fun part hpart => ?_).trans List.filterMap_some
      have hstep := hsteps part hpart
      cases part with
      | name n => exact IsName.partOf? hstep
      | up => rfl
      | root | here => exact hstep.elim
    rw [destination, FilePath.splitOn_join_segments (by simpa using hnil) hsegments, foldl_enter_eq, hparts]

/-- Two paths lead the same way as far as they have their parts in common. -/
theorem destination_parting (hdirectory : isAbsolute directory = true) (htarget : isAbsolute target = true) :
    let start := (shared (parts directory) (parts target)).foldl Part.enter []
    let (up, down) := dropCommon (parts directory) (parts target)
    destination [] directory = up.foldl Part.enter start ∧ destination [] target = down.foldl Part.enter start := by
  obtain ⟨hup, hdown⟩ := FilePath.shared_append_dropCommon (parts directory) (parts target)
  dsimp only
  rw [← List.foldl_append, ← List.foldl_append, hup, hdown]
  exact ⟨destination_of_isAbsolute hdirectory, destination_of_isAbsolute htarget⟩

/-! ## Specifiers -/

/-- The steps of a specifier: up once for each part of the directory that is not shared, then down. -/
def specifierSteps (directory target : FilePath) : List Part :=
  let (up, down) := dropCommon (parts directory) (parts target)
  List.replicate up.length .up ++ down

theorem specifier_eq (directory target : FilePath) :
    specifier directory target =
      let path := Text.join "/" ((specifierSteps directory target).map Part.text)
      if Text.startsWith ".." path then path else "./" ++ path := by
  simp [specifier, specifierSteps, List.map_const']

theorem isAbsolute_specifier (directory target : FilePath) : isAbsolute (specifier directory target) = false := by
  rw [specifier_eq]
  dsimp only
  split_ifs with hdots
  · obtain ⟨rest, hrest⟩ := Text.startsWith_iff.mp hdots
    rw [← hrest]
    rfl
  · rfl

theorem isStep_specifierSteps (hdirectory : isAbsolute directory = true) (htarget : isAbsolute target = true) :
    ∀ part ∈ specifierSteps directory target, part.IsStep := by
  refine List.forall_mem_append.mpr ⟨fun part hpart => ?_, (FilePath.isStep_dropCommon hdirectory htarget).2⟩
  rw [List.eq_of_mem_replicate hpart]
  trivial

/-- A specifier leads up from the directory, then down. -/
theorem destination_join_specifier (hdirectory : isAbsolute directory = true) (htarget : isAbsolute target = true) :
    destination [] (FilePath.join directory (specifier directory target)) =
      (dropCommon (parts directory) (parts target)).2.foldl Part.enter
        (thereAndBack (dropCommon (parts directory) (parts target)).1
          ((shared (parts directory) (parts target)).foldl Part.enter [])) := by
  have hne : directory ≠ [] := by
    rintro rfl
    exact absurd hdirectory (by decide)
  have hsteps := isStep_specifierSteps hdirectory htarget
  have hspecifier (names : List Text) :
      destination names (specifier directory target) = (specifierSteps directory target).foldl Part.enter names := by
    rw [specifier_eq]
    dsimp only
    split_ifs
    · exact destination_steps hsteps names
    · rw [destination_dot, destination_steps hsteps]
  rw [destination_join hne (isAbsolute_specifier directory target), hspecifier, (destination_parting hdirectory htarget).1,
    specifierSteps, List.foldl_append, thereAndBack]

/-- A name does not bring the slash that a prefix of two dots and a slash needs. -/
theorem startsWith_dots_name {n : Text} (hn : IsName n) (hdots : Text.startsWith ".." n = true) (t : Text) :
    Text.startsWith "./" (n ++ t) = false ∧ Text.startsWith "../" (n ++ t) = false := by
  obtain ⟨rest, rfl⟩ := Text.startsWith_iff.mp hdots
  cases rest with
  | nil => exact absurd rfl hn.ne_dots
  | cons c rest =>
    have hc : '/' ≠ c := fun hc => hn.no_slash (List.mem_append_right _ (hc ▸ List.mem_cons_self))
    simp [Text.startsWith, Text.after?, hc]

/-- Steps are written with a dot or two and a slash in front, unless they are one step up, or begin with a name of two
dots and more. -/
theorem starts_relative_iff (hsteps : ∀ part ∈ steps, part.IsStep) :
    let path := Text.join "/" (steps.map Part.text)
    let s := if Text.startsWith ".." path then path else "./" ++ path
    Text.startsWith "./" s = true ∨ Text.startsWith "../" s = true ↔
      steps ≠ [.up] ∧ ∀ n rest, steps = .name n :: rest → Text.startsWith ".." n = false := by
  cases steps with
  | nil => simpa using .inl (by rfl)
  | cons part steps =>
    obtain ⟨hpart, -⟩ := List.forall_mem_cons.mp hsteps
    cases part with
    | up =>
      cases steps with
      | nil => simpa using by decide
      | cons part steps => simpa [Text.join, Part.text] using .inr (by rfl)
    | name n =>
      obtain ⟨t, ht, hjoin⟩ : ∃ t, (t = [] ∨ ∃ u, t = '/' :: u) ∧
          Text.join "/" (((Part.name n) :: steps).map Part.text) = n ++ t := by
        cases steps with
        | nil => exact ⟨[], .inl rfl, by simp [Text.join, Part.text]⟩
        | cons part steps => exact ⟨_, .inr ⟨_, rfl⟩, List.append_assoc n "/".toList _⟩
      have hdots : Text.startsWith ".." (n ++ t) = Text.startsWith ".." n := by
        rw [Bool.eq_iff_iff, Text.startsWith_iff, Text.startsWith_iff]
        rcases ht with rfl | ⟨u, rfl⟩
        · rw [List.append_nil]
        · exact Text.prefix_append_cons_iff (by decide) (by decide)
      simp only [hjoin, hdots]
      cases hname : Text.startsWith ".." n with
      | true =>
        obtain ⟨hdot, hdots⟩ := startsWith_dots_name hpart hname t
        rw [if_pos rfl, hdot, hdots]
        simpa using hname
      | false =>
        have hdot : Text.startsWith "./" ("./" ++ (n ++ t)) = true := rfl
        rw [if_neg Bool.false_ne_true, hdot]
        simpa using hname
    | root | here => exact hpart.elim
theorem isSpecifierStart_iff (hdirectory : isAbsolute directory = true) (htarget : isAbsolute target = true) :
    Text.startsWith "./" (specifier directory target) = true ∨ Text.startsWith "../" (specifier directory target) = true ↔
      specifierSteps directory target ≠ [.up] ∧
        ∀ n rest, specifierSteps directory target = .name n :: rest → Text.startsWith ".." n = false := by
  rw [specifier_eq]
  exact starts_relative_iff (isStep_specifierSteps hdirectory htarget)

/-- One step up alone leads above the directory, unless the part that it is for climbs itself. -/
theorem specifierSteps_eq_up_iff (hdirectory : isAbsolute directory = true) (htarget : isAbsolute target = true)
    (habove : ¬destination [] target <+: destination [] directory) :
    specifierSteps directory target = [.up] ↔ dropCommon (parts directory) (parts target) = ([.up], []) := by
  obtain ⟨hdestination, hdestination'⟩ := destination_parting hdirectory htarget
  have hsteps := (FilePath.isStep_dropCommon hdirectory htarget).1
  rw [hdestination, hdestination'] at habove
  rw [specifierSteps]
  generalize dropCommon (parts directory) (parts target) = parting at habove hsteps ⊢
  generalize (shared (parts directory) (parts target)).foldl Part.enter [] = start at habove
  obtain ⟨up, down⟩ := parting
  constructor
  · intro h
    match up, down, h with
    | [], [.up], _ => exact absurd (List.dropLast_prefix start) habove
    | [.up], [], _ => rfl
    | [.name n], [], _ => exact absurd (List.prefix_append start [n]) habove
    | [.root], [], _ | [.here], [], _ => exact (hsteps _ List.mem_cons_self).elim
  · intro h
    rw [(Prod.mk.inj h).1, (Prod.mk.inj h).2]
    rfl

theorem specifierSteps_eq_name_iff {n : Text} {rest : List Part} :
    specifierSteps directory target = .name n :: rest ↔
      (dropCommon (parts directory) (parts target)).1 = [] ∧
        (dropCommon (parts directory) (parts target)).2 = .name n :: rest := by
  rw [specifierSteps]
  generalize dropCommon (parts directory) (parts target) = parting
  obtain ⟨_ | ⟨part, up⟩, down⟩ := parting
  · simp
  · simp [List.replicate_succ]

/-- A specifier leads from the directory to the target if the parts of the directory that it climbs from are names. For
parts that climb themselves it leads elsewhere, unless the two paths part at the root. It starts with a dot or two and a
slash, save for a lone step up from a part that climbs, and for a way down that begins with a name of two dots and
more. -/
theorem specifier_leads (hdirectory : isAbsolute directory = true) (htarget : isAbsolute target = true) :
    let start := (shared (parts directory) (parts target)).foldl Part.enter []
    let (up, down) := dropCommon (parts directory) (parts target)
    let s := specifier directory target
    (.up ∉ up → normalizePath (FilePath.join directory s) = normalizePath target) ∧
    (.up ∉ down → (normalizePath (FilePath.join directory s) = normalizePath target ↔ .up ∉ up ∨ start = [])) ∧
    (¬destination [] target <+: destination [] directory →
      (Text.startsWith "./" s = true ∨ Text.startsWith "../" s = true ↔
        ¬(up = [.up] ∧ down = []) ∧
          ∀ n rest, up = [] ∧ down = .name n :: rest → Text.startsWith ".." n = false)) := by
  obtain ⟨hup, hdown⟩ := FilePath.isStep_dropCommon hdirectory htarget
  have hleads := normalizePath_eq_iff (FilePath.isAbsolute_join hdirectory (specifier directory target)) htarget
  rw [destination_join_specifier hdirectory htarget, (destination_parting hdirectory htarget).2] at hleads
  refine ⟨fun hnames => ?_, fun hnames => ?_, fun habove => ?_⟩
  · rw [hleads, (FilePath.thereAndBack_eq_iff hup _).mpr (.inl hnames)]
  · obtain ⟨ns, -, hns⟩ := FilePath.exists_foldl_enter_eq hdown hnames
    rw [hleads, hns, hns, List.append_left_inj, FilePath.thereAndBack_eq_iff hup]
  · rw [isSpecifierStart_iff hdirectory htarget, Ne, specifierSteps_eq_up_iff hdirectory htarget habove, Prod.ext_iff]
    simp only [specifierSteps_eq_name_iff]

/-- Two dots in what the paths share do no harm. -/
theorem sibling_of_climbing_directory :
    normalizePath (FilePath.join "/p/../docs/blog" (specifier "/p/../docs/blog" "/p/../shared/./Card.tsx")) =
        normalizePath "/p/../shared/./Card.tsx" ∧
      (Text.startsWith "./" (specifier "/p/../docs/blog" "/p/../shared/./Card.tsx") = true ∨
        Text.startsWith "../" (specifier "/p/../docs/blog" "/p/../shared/./Card.tsx") = true) := by
  obtain ⟨hleads, -, hstart⟩ := @specifier_leads "/p/../docs/blog" "/p/../shared/./Card.tsx" (by decide) (by decide)
  exact ⟨hleads (by decide), (hstart (by decide)).mpr ⟨by decide, fun n rest h => absurd h.1 (by decide)⟩⟩

/-- Out of a directory that is reached by a step up, a specifier climbs too far. Into a directory whose name starts with
two dots, it starts with that name. -/
theorem climbing_directory_misses :
    specifier "/p/site/../docs/blog" "/p/site/components/Card.tsx" = "../../../components/Card.tsx".toList ∧
    normalizePath (FilePath.join "/p/site/../docs/blog" "../../../components/Card.tsx") = "/components/Card.tsx".toList ∧
    normalizePath "/p/site/components/Card.tsx" = "/p/site/components/Card.tsx".toList ∧
    specifier "/p/content" "/p/content/..parts/Card.mdx" = "..parts/Card.mdx".toList ∧
    Text.startsWith "./" "..parts/Card.mdx" = false ∧ Text.startsWith "../" "..parts/Card.mdx" = false := by
  decide

end Url

end StaticSite
