import StaticSite.Proofs.FilePath.Parts
import StaticSite.Url

/-!
# The files of pages

The page of an entry is an index file in a directory of the entry's names, where an entry that is called an
index stands for its directory. Names with a dot are a file themselves. So two entries have one page if one of
them is the index of the directory that the other one is called like, or if one is called like the file of
the other.
-/
namespace StaticSite.Url

open FilePath (IsName ofNames)

variable {ns ns' : List Text} {n : Text}

/-- The name of an entry that stands for its directory. -/
abbrev indexName : Text := "index".toList

/-- The name of the file of a page in its directory. -/
abbrev pageName : Text := "index.html".toList

/-- The names of the URL of an entry. -/
def directoryNames (ns : List Text) : List Text := if ns.getLast? = some indexName then ns.dropLast else ns

/-- The names of the file that answers a URL of some names: those with a dot are a file themselves. -/
def fileNames (ds : List Text) : List Text := if ∃ d ∈ ds, '.' ∈ d then ds else ds ++ [pageName]

/-- The names of the file of an entry's page, below the output directory. -/
def pageNames (ns : List Text) : List Text := fileNames (directoryNames ns)

theorem directoryNames_concat (ds : List Text) (n : Text) :
    directoryNames (ds ++ [n]) = if n = indexName then ds else ds ++ [n] := by
  simp [directoryNames]

theorem directoryNames_subset (ns : List Text) : directoryNames ns ⊆ ns := by
  unfold directoryNames
  split_ifs
  · exact List.dropLast_subset ns
  · exact List.Subset.refl ns

theorem isName_directoryNames (h : ∀ n ∈ ns, IsName n) : ∀ d ∈ directoryNames ns, IsName d :=
  fun d hd => h d (directoryNames_subset ns hd)

theorem pageNames_ne_nil (ns : List Text) : pageNames ns ≠ [] := by
  unfold pageNames fileNames
  split_ifs with hdot
  · intro hnil
    simp [hnil] at hdot
  · simp

theorem isName_pageNames (h : ∀ n ∈ ns, IsName n) : ∀ n ∈ pageNames ns, IsName n := by
  unfold pageNames fileNames
  split_ifs
  · exact isName_directoryNames h
  · exact List.forall_mem_append.mpr ⟨isName_directoryNames h, List.forall_mem_singleton.mpr (by decide)⟩

/-! ## The page of an entry -/

theorem dropEndWhile_slash {t : Text} (h : t.getLast? ≠ some '/') :
    Text.dropEndWhile (· == '/') (t ++ ['/']) = t := by
  rw [Text.dropEndWhile_concat_of_pos (by simp)]
  refine Text.dropEndWhile_of_getLast? fun c hc => ?_
  rw [beq_eq_false_iff_ne]
  rintro rfl
  exact h hc

/-- A text is cut at its last slash in one way. -/
theorem eq_of_append_slash_eq {t u n m : Text} (hn : '/' ∉ n) (hm : '/' ∉ m)
    (h : t ++ '/' :: n = u ++ '/' :: m) : t = u ∧ n = m := by
  rcases List.append_eq_append_iff.mp h with ⟨between, hu, hbetween⟩ | ⟨between, ht, hbetween⟩
  · cases between with
    | nil => exact ⟨by simpa using hu.symm, (List.cons.inj hbetween).2⟩
    | cons c cs => exact absurd (by simp [(List.cons.inj hbetween).2]) hn
  · cases between with
    | nil => exact ⟨by simpa using ht, (List.cons.inj hbetween).2.symm⟩
    | cons c cs => exact absurd (by simp [(List.cons.inj hbetween).2]) hm

theorem indexDirectory_of_not_mem (hn : '/' ∉ n) : indexDirectory n = if n = indexName then [] else n := by
  have hnot : Text.endsWith "/index" n = false := by
    rw [← Bool.not_eq_true, Text.endsWith_iff]
    rintro ⟨start, rfl⟩
    exact hn (by simp)
  rw [indexDirectory, hnot]
  simp only [Bool.false_or, decide_eq_true_eq]
  split_ifs with hindex
  · subst hindex
    decide
  · rfl

theorem indexDirectory_append {t : Text} (ht : t.getLast? ≠ some '/') (hn : '/' ∉ n) :
    indexDirectory (t ++ '/' :: n) = if n = indexName then t else t ++ '/' :: n := by
  have hends : Text.endsWith "/index" (t ++ '/' :: n) = true ↔ n = indexName := by
    rw [Text.endsWith_iff]
    constructor
    · rintro ⟨start, hstart⟩
      exact (eq_of_append_slash_eq hn (by decide) hstart).2
    · rintro rfl
      exact ⟨t, rfl⟩
  have hwhole : t ++ '/' :: n ≠ "index".toList := by
    intro hindex
    have hmem : '/' ∈ "index".toList := by simp [← hindex]
    exact absurd hmem (by decide)
  rw [indexDirectory]
  simp only [Bool.or_eq_true, decide_eq_true_eq, hends, hwhole, or_false]
  split_ifs with hindex
  · have hbefore : Text.before? "index" (t ++ '/' :: n) = some (t ++ ['/']) := by
      rw [hindex, List.append_cons]
      exact Text.before?_append _ _
    rw [hbefore]
    exact dropEndWhile_slash ht
  · rfl

theorem indexDirectory_ofNames (hne : ns ≠ []) (h : ∀ n ∈ ns, IsName n) :
    indexDirectory (ofNames ns) = ofNames (directoryNames ns) := by
  obtain ⟨ds, n, rfl⟩ := List.eq_nil_or_concat' ns |>.resolve_left hne
  obtain ⟨hds, hn⟩ := List.forall_mem_append.mp h
  have hn : '/' ∉ n := (hn n (by simp)).no_slash
  rw [directoryNames_concat]
  cases ds with
  | nil =>
    refine (indexDirectory_of_not_mem hn).trans ?_
    split_ifs <;> rfl
  | cons d ds =>
    rw [FilePath.ofNames_append (List.cons_ne_nil d ds) (List.cons_ne_nil n [])]
    refine (indexDirectory_append (FilePath.getLast?_ofNames (List.cons_ne_nil d ds) hds) hn).trans ?_
    split_ifs
    · rfl
    · exact (FilePath.ofNames_append (List.cons_ne_nil d ds) (List.cons_ne_nil n [])).symm

theorem mem_ofNames_iff {c : Char} (hc : c ≠ '/') : c ∈ ofNames ns ↔ ∃ n ∈ ns, c ∈ n := by
  induction ns with
  | nil => simp [ofNames, Text.join]
  | cons n ns ih =>
    cases ns with
    | nil => simp [ofNames, Text.join]
    | cons m ns =>
      have happend : ofNames (n :: m :: ns) = n ++ '/' :: ofNames (m :: ns) :=
        FilePath.ofNames_append (List.cons_ne_nil n []) (List.cons_ne_nil m ns)
      rw [happend, List.mem_append, List.mem_cons, ih, List.exists_mem_cons_iff]
      simp [hc]

/-- The URL of an entry is a slash before the names of its directory. -/
theorem ofEntry_ofNames (hne : ns ≠ []) (h : ∀ n ∈ ns, IsName n) :
    ofEntry (ofNames ns) none = '/' :: ofNames (directoryNames ns) := by
  have hds := isName_directoryNames h
  rw [ofEntry, indexDirectory_ofNames hne h, Option.getD_none, List.nil_append, dropLastSlash]
  apply if_neg
  rw [Bool.and_eq_true, not_and]
  intro hlength hslash
  have hnil : directoryNames ns ≠ [] := by
    intro hnil
    simp [hnil, ofNames, Text.join] at hlength
  obtain ⟨c, cs, hcs⟩ := List.exists_cons_of_ne_nil (FilePath.ofNames_ne_nil hnil hds)
  rw [beq_iff_eq, hcs, List.getLast?_cons_cons, ← hcs] at hslash
  exact FilePath.getLast?_ofNames hnil hds hslash

/-- The file that answers the URL of an entry is at the names of its page. -/
theorem outputFile_ofEntry (hne : ns ≠ []) (h : ∀ n ∈ ns, IsName n) (output : FilePath) :
    outputFile (ofEntry (ofNames ns) none) output = FilePath.join output (ofNames (pageNames ns)) := by
  have hds := isName_directoryNames h
  have hurl := ofEntry_ofNames hne h
  have hpath : (ofEntry (ofNames ns) none).dropWhile (· == '/') = ofNames (directoryNames ns) := by
    have habsolute := FilePath.isAbsolute_ofNames hds
    rw [hurl, List.dropWhile_cons_of_pos (by simp)]
    cases hcs : ofNames (directoryNames ns) with
    | nil => rfl
    | cons c cs =>
      rw [hcs] at habsolute
      apply List.dropWhile_cons_of_neg
      simpa [FilePath.isAbsolute] using habsolute
  have hdot : (ofNames (directoryNames ns)).contains '.' = true ↔ ∃ d ∈ directoryNames ns, '.' ∈ d := by
    rw [List.contains_iff_mem, mem_ofNames_iff (by decide)]
  have hempty : (ofNames (directoryNames ns)).isEmpty = true ↔ directoryNames ns = [] := by
    rw [List.isEmpty_iff]
    constructor
    · exact fun hnil => not_not.mp fun hne => FilePath.ofNames_ne_nil hne hds hnil
    · intro hnil
      rw [hnil]
      rfl
  rw [outputFile, hpath]
  simp only [hempty, hdot, pageNames, fileNames]
  by_cases hnil : directoryNames ns = []
  · simp only [hnil, if_true, List.not_mem_nil, false_and, exists_false, if_false]
    rfl
  · rw [if_neg hnil]
    split_ifs
    · rfl
    · exact FilePath.join_join output hnil (List.cons_ne_nil pageName [])
        (List.forall_mem_append.mpr ⟨hds, List.forall_mem_singleton.mpr (by decide)⟩)

/-! ## Entries with one page -/

/-- Names of which the page of the second would take the place of that of the first: they are those of the index
of the directory that the first are called like, or they are called like the file of the first. -/
def ShadowsNames (ns ns' : List Text) : Prop :=
  (ns' = ns ++ [indexName] ∧ ns.getLast? ≠ some indexName) ∨
    (directoryNames ns' = directoryNames ns ++ [pageName] ∧ ∀ d ∈ directoryNames ns, '.' ∉ d)

instance (ns ns' : List Text) : Decidable (ShadowsNames ns ns') := inferInstanceAs (Decidable (_ ∨ _))

/-- The page of the second entry would take the place of that of the first. -/
def Shadows (entry entry' : Text) : Prop := ShadowsNames (Text.splitOn '/' entry) (Text.splitOn '/' entry')

instance (entry entry' : Text) : Decidable (Shadows entry entry') :=
  inferInstanceAs (Decidable (ShadowsNames (Text.splitOn '/' entry) (Text.splitOn '/' entry')))

theorem directoryNames_eq_iff (hne : ns ≠ []) (hne' : ns' ≠ []) :
    directoryNames ns = directoryNames ns' ↔ ns = ns' ∨
      (ns' = ns ++ [indexName] ∧ ns.getLast? ≠ some indexName) ∨
        (ns = ns' ++ [indexName] ∧ ns'.getLast? ≠ some indexName) := by
  obtain ⟨ds, n, rfl⟩ := List.eq_nil_or_concat' ns |>.resolve_left hne
  obtain ⟨ds', n', rfl⟩ := List.eq_nil_or_concat' ns' |>.resolve_left hne'
  simp only [directoryNames_concat, List.getLast?_concat, List.append_singleton_inj, ne_eq, Option.some.injEq]
  by_cases hn : n = indexName
  · by_cases hn' : n' = indexName
    · simp [hn, hn']
    · simp [hn, hn', eq_comm]
  · by_cases hn' : n' = indexName
    · simp [hn, hn', eq_comm]
    · simp [hn, hn']

theorem fileNames_eq_iff (ds ds' : List Text) :
    fileNames ds = fileNames ds' ↔ ds = ds' ∨ (ds' = ds ++ [pageName] ∧ ∀ d ∈ ds, '.' ∉ d) ∨
      (ds = ds' ++ [pageName] ∧ ∀ d ∈ ds', '.' ∉ d) := by
  have hpage (es : List Text) : ∃ d ∈ es ++ [pageName], '.' ∈ d := ⟨pageName, by simp, by decide⟩
  unfold fileNames
  constructor
  · intro h
    split_ifs at h with hdot hdot' hdot'
    · exact .inl h
    · exact .inr (.inr ⟨h, by simpa using hdot'⟩)
    · exact .inr (.inl ⟨h.symm, by simpa using hdot⟩)
    · exact .inl (List.append_singleton_inj.mp h).1
  · rintro (rfl | ⟨rfl, hplain⟩ | ⟨rfl, hplain⟩)
    · rfl
    · rw [if_neg (by simpa using hplain), if_pos (hpage ds)]
    · rw [if_pos (hpage ds'), if_neg (by simpa using hplain)]

/-- Two entries have one page just when one shadows the other. -/
theorem pageNames_eq_iff (hne : ns ≠ []) (hne' : ns' ≠ []) :
    pageNames ns = pageNames ns' ↔ ns = ns' ∨ ShadowsNames ns ns' ∨ ShadowsNames ns' ns := by
  have hdirectory := directoryNames_eq_iff hne hne'
  rw [pageNames, pageNames, fileNames_eq_iff, ShadowsNames, ShadowsNames]
  tauto

end StaticSite.Url
