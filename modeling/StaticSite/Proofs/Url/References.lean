import StaticSite.Proofs.Document.Markers
import StaticSite.Proofs.Url

/-!
# References to images

A reference to an image leads from the directory of its document to a place in the site, one segment after the other,
and never above the root of the content. Under a base path it stays a path of the site. No reference that leads
elsewhere becomes one that stays, or the other way round.
-/
namespace StaticSite.Url

open FilePath (IsName ofNames)

variable {reference directory t : Text} {names ds : List Text} {base : Option Text}

/-! ## Segments -/

/-- Where one segment of a reference leads from a directory, which is given by the names on the way to it. -/
def enter (names : List Text) (segment : Text) : List Text :=
  if segment = [] ∨ segment = ['.'] then names
  else if segment = ['.', '.'] then names.dropLast
  else names ++ [segment]

/-- Where a reference leads from a directory. -/
def destination (names : List Text) (reference : Text) : List Text :=
  (Text.splitOn '/' reference).foldl enter names

theorem enter_name {n : Text} (h : IsName n) (names : List Text) : enter names n = names ++ [n] := by
  simp [enter, h.ne_nil, h.ne_dot, h.ne_dots]

theorem isName_enter (h : ∀ n ∈ names, IsName n) {segment : Text} (hslash : '/' ∉ segment) :
    ∀ n ∈ enter names segment, IsName n := by
  unfold enter
  split_ifs with hsilent hdots
  · exact h
  · exact fun n hn => h n (List.mem_of_mem_dropLast hn)
  · rw [not_or] at hsilent
    exact List.forall_mem_append.mpr ⟨h, List.forall_mem_singleton.mpr ⟨hsilent.1, hslash, hsilent.2, hdots⟩⟩

/-- The segments so far are kept last first. -/
theorem resolve_eq_foldl (done segments : List Text) : resolve done segments = segments.foldl enter done.reverse := by
  induction segments generalizing done with
  | nil => rfl
  | cons s segments ih =>
    rw [resolve, List.foldl_cons]
    split_ifs with hnil hdot hdots
    · rw [ih, enter, if_pos (.inl hnil)]
    · rw [ih, enter, if_pos (.inr hdot)]
    · have hup : (done.drop 1).reverse = done.reverse.dropLast := by simp
      rw [ih, enter, if_neg (by simp [hnil, hdot]), if_pos hdots, hup]
    · rw [ih, enter, if_neg (by simp [hnil, hdot]), if_neg hdots, List.reverse_cons]

theorem foldl_enter_names (h : ∀ n ∈ ds, IsName n) (names : List Text) : ds.foldl enter names = names ++ ds := by
  induction ds generalizing names with
  | nil => simp
  | cons d ds ih =>
    obtain ⟨hd, hds⟩ := List.forall_mem_cons.mp h
    rw [List.foldl_cons, enter_name hd, ih hds, List.append_assoc, List.singleton_append]

/-- The directory of a document leads from the root to itself. -/
theorem destination_ofNames (h : ∀ d ∈ ds, IsName d) : destination [] (ofNames ds) = ds := by
  by_cases hne : ds = []
  · subst hne
    rfl
  · rw [destination, FilePath.splitOn_ofNames hne h, foldl_enter_names h, List.nil_append]

theorem isName_foldl_enter (h : ∀ n ∈ names, IsName n) {segments : List Text} (hslash : ∀ s ∈ segments, '/' ∉ s) :
    ∀ n ∈ segments.foldl enter names, IsName n := by
  induction segments generalizing names with
  | nil => exact h
  | cons s segments ih =>
    obtain ⟨hs, hsegments⟩ := List.forall_mem_cons.mp hslash
    exact ih (isName_enter h hs) hsegments

theorem isName_destination (h : ∀ n ∈ names, IsName n) (reference : Text) :
    ∀ n ∈ destination names reference, IsName n :=
  isName_foldl_enter h fun _ hs => FilePath.isSegment_of_mem hs

/-- A path from the root is where its parts lead, one after the other. -/
theorem normalizePath_slash (directory reference : Text) :
    normalizePath ('/' :: directory ++ '/' :: reference) =
      '/' :: ofNames (destination (destination [] directory) reference) := by
  have hroot : Text.splitOn '/' ('/' :: directory) = [] :: Text.splitOn '/' directory :=
    Text.splitOn_append_cons '/' [] directory
  have hsegments : resolve [] (Text.splitOn '/' ('/' :: directory ++ '/' :: reference)) =
      destination (destination [] directory) reference := by
    rw [resolve_eq_foldl, Text.splitOn_append_cons, List.foldl_append, hroot]
    rfl
  rw [normalizePath, hsegments]
  rfl

/-! ## Paths of the site -/

/-- A path from the root of the site, as opposed to one that starts with the name of a host. -/
def IsSitePath (t : Text) : Prop := ∃ rest, t = '/' :: rest ∧ rest.head? ≠ some '/'

theorem IsSitePath.not_external (h : IsSitePath t) : isExternal t = false := by
  obtain ⟨rest, rfl, hrest⟩ := h
  have hscheme : hasScheme ('/' :: rest) = false := by
    simp [hasScheme, Text.isAsciiLetter]
  cases rest with
  | nil => decide
  | cons c rest =>
    have hc : '/' ≠ c := fun hc => hrest (by rw [hc]; rfl)
    simp [isExternal, hscheme, Text.startsWith, Text.after?, hc]

theorem isSitePath_of_not_external (hslash : t.head? = some '/') (h : isExternal t = false) : IsSitePath t := by
  obtain ⟨rest, rfl⟩ : ∃ rest, t = '/' :: rest := List.head?_eq_some_iff.mp hslash
  refine ⟨rest, rfl, fun hrest => ?_⟩
  obtain ⟨rest, rfl⟩ := List.head?_eq_some_iff.mp hrest
  simp [isExternal, Text.startsWith, Text.after?] at h

theorem isSitePath_ofNames (h : ∀ n ∈ names, IsName n) : IsSitePath ('/' :: ofNames names) := by
  refine ⟨ofNames names, rfl, fun hslash => ?_⟩
  have habsolute := FilePath.isAbsolute_ofNames h
  rw [FilePath.isAbsolute, hslash] at habsolute
  exact absurd habsolute (by decide)

/-- A base path is a slash and a name, at least. -/
theorem exists_of_normalizeBase? {raw : Option Text} {base : Text} (h : normalizeBase? raw = some base) :
    ∃ c rest, base = '/' :: c :: rest ∧ c ≠ '/' := by
  obtain ⟨raw, -, hraw⟩ := Option.bind_eq_some_iff.mp h
  dsimp only at hraw
  split_ifs at hraw with hempty
  obtain rfl := Option.some.inj hraw
  obtain ⟨c, rest, htrimmed⟩ := List.exists_cons_of_ne_nil (mt List.isEmpty_iff.mpr hempty)
  refine ⟨c, rest, by rw [htrimmed], ?_⟩
  have hhead := List.head?_dropWhile_not (· == '/') (Text.trim raw)
  obtain ⟨more, hmore⟩ := Text.prefix_dropEndWhile (· == '/') ((Text.trim raw).dropWhile (· == '/'))
  have hfront : c :: rest = Text.dropEndWhile (· == '/') ((Text.trim raw).dropWhile (· == '/')) := htrimmed.symm
  rw [← hmore, ← hfront] at hhead
  simpa using hhead

theorem withBase_of_slash (hslash : t.head? = some '/') (base : Option Text) : withBase t base = base.getD [] ++ t := by
  cases base with
  | none => rfl
  | some base => simp [withBase, hslash]

theorem IsSitePath.withBase (h : IsSitePath t) (raw : Option Text) : IsSitePath (withBase t (normalizeBase? raw)) := by
  obtain ⟨rest, rfl, -⟩ := id h
  rw [withBase_of_slash rfl]
  cases hbase : normalizeBase? raw with
  | none => exact h
  | some base =>
    obtain ⟨c, name, rfl, hc⟩ := exists_of_normalizeBase? hbase
    exact ⟨c :: name ++ '/' :: rest, rfl, by simpa using hc⟩

/-! ## References -/

theorem rebaseImage_of_kept (h : reference = [] ∨ isExternal reference = true) (directory : Text) (base : Option Text) :
    rebaseImage reference directory base = reference := by
  rw [rebaseImage, if_pos (by simpa using h)]

theorem rebaseImage_of_slash (hslash : reference.head? = some '/') (h : isExternal reference = false) (directory : Text)
    (base : Option Text) : rebaseImage reference directory base = base.getD [] ++ reference := by
  have hne : reference ≠ [] := by
    rintro rfl
    cases hslash
  rw [rebaseImage, if_neg (by simp [hne, h]), if_pos (by rw [hslash, beq_self_eq_true]), withBase_of_slash hslash]

theorem rebaseImage_of_relative (hne : reference ≠ []) (h : isExternal reference = false)
    (hslash : reference.head? ≠ some '/') (hds : ∀ d ∈ ds, IsName d) (base : Option Text) :
    rebaseImage reference (ofNames ds) base = base.getD [] ++ '/' :: ofNames (destination ds reference) := by
  rw [rebaseImage, if_neg (by simp [hne, h]), if_neg (by simpa using hslash), normalizePath_slash,
    destination_ofNames hds, withBase_of_slash rfl]

/-- A reference that is rewritten becomes a path of the site, whatever it was. -/
theorem isSitePath_rebaseImage (hne : reference ≠ []) (h : isExternal reference = false) (hds : ∀ d ∈ ds, IsName d)
    (raw : Option Text) : IsSitePath (rebaseImage reference (ofNames ds) (normalizeBase? raw)) := by
  by_cases hslash : reference.head? = some '/'
  · rw [rebaseImage_of_slash hslash h, ← withBase_of_slash hslash]
    exact (isSitePath_of_not_external hslash h).withBase raw
  · have hsite := isSitePath_ofNames (isName_destination hds reference)
    rw [rebaseImage_of_relative hne h hslash hds, ← withBase_of_slash rfl]
    exact hsite.withBase raw

/-- Without a base path, paths of the site stay as they are. -/
theorem IsSitePath.rebaseImage (h : IsSitePath t) (directory : Text) : rebaseImage t directory none = t := by
  obtain ⟨rest, rfl, -⟩ := id h
  exact rebaseImage_of_slash rfl h.not_external directory none

/-- A reference that has been rebased without a base path stays as it is, in any directory. -/
theorem rebaseImage_rebaseImage_none (hds : ∀ d ∈ ds, IsName d) (reference directory : Text) :
    rebaseImage (rebaseImage reference (ofNames ds) none) directory none = rebaseImage reference (ofNames ds) none := by
  by_cases hkept : reference = [] ∨ isExternal reference = true
  · rw [rebaseImage_of_kept hkept, rebaseImage_of_kept hkept]
  · obtain ⟨hne, h⟩ := not_or.mp hkept
    rw [Bool.not_eq_true] at h
    exact (isSitePath_rebaseImage hne h hds none).rebaseImage directory

/-- A reference with a base path put in front of it, if it is one of the site that starts at its root. -/
def underBase (base t : Text) : Text := if t.head? == some '/' && !isExternal t then base ++ t else t

theorem underBase_of_kept (h : t = [] ∨ isExternal t = true) (base : Text) : underBase base t = t := by
  rcases h with rfl | h
  · rfl
  · simp [underBase, h]

theorem IsSitePath.underBase (h : IsSitePath t) (base : Text) : underBase base t = base ++ t := by
  obtain ⟨rest, rfl, -⟩ := id h
  simp [Url.underBase, h.not_external]

/-- The base path comes in at one place: in front of what the reference is without it. -/
theorem rebaseImage_some (hds : ∀ d ∈ ds, IsName d) (reference base : Text) :
    rebaseImage reference (ofNames ds) (some base) = underBase base (rebaseImage reference (ofNames ds) none) := by
  by_cases hkept : reference = [] ∨ isExternal reference = true
  · rw [rebaseImage_of_kept hkept, rebaseImage_of_kept hkept, underBase_of_kept hkept]
  · obtain ⟨hne, h⟩ := not_or.mp hkept
    rw [Bool.not_eq_true] at h
    have hsite : IsSitePath (rebaseImage reference (ofNames ds) none) := isSitePath_rebaseImage hne h hds none
    rw [hsite.underBase]
    by_cases hslash : reference.head? = some '/'
    · rw [rebaseImage_of_slash hslash h, rebaseImage_of_slash hslash h]
      rfl
    · rw [rebaseImage_of_relative hne h hslash hds, rebaseImage_of_relative hne h hslash hds]
      rfl

theorem rebaseLink_some (reference base : Text) :
    rebaseLink reference (some base) = underBase base (rebaseLink reference none) := by
  unfold rebaseLink underBase
  simp only [Option.isSome_some, Option.isSome_none, Bool.true_and, Bool.false_and, Bool.false_eq_true, if_false]
  split_ifs with h
  · exact withBase_of_slash (by simpa using (Bool.and_eq_true_iff.mp h).1) _
  · rfl

/-! ## Characters -/

/-- Every name on the way comes from the directory or from the reference. -/
theorem mem_of_mem_destination {n : Text} (h : n ∈ destination names reference) :
    n ∈ names ∨ n ∈ Text.splitOn '/' reference := by
  rw [destination] at h
  generalize Text.splitOn '/' reference = segments at h ⊢
  induction segments generalizing names with
  | nil => exact .inl h
  | cons s segments ih =>
    rcases ih h with hmem | hmem
    · unfold enter at hmem
      split_ifs at hmem
      · exact .inl hmem
      · exact .inl (List.mem_of_mem_dropLast hmem)
      · rcases List.mem_append.mp hmem with hmem | hmem
        · exact .inl hmem
        · exact .inr (List.mem_singleton.mp hmem ▸ List.mem_cons_self)
    · exact .inr (List.mem_cons_of_mem _ hmem)

theorem mem_withBase {c : Char} (h : c ∈ withBase t base) : c ∈ base.getD [] ∨ c = '/' ∨ c ∈ t := by
  unfold withBase at h
  split at h
  · exact .inr (.inr h)
  · split_ifs at h
    · exact (List.mem_append.mp h).imp_right .inr
    · exact (List.mem_append.mp h).imp_right List.mem_cons.mp

/-- The characters of a reference to an image come from the base path, the directory and the reference. -/
theorem mem_rebaseImage {c : Char} (h : c ∈ rebaseImage reference directory base) (hc : c ≠ '/') :
    c ∈ base.getD [] ∨ c ∈ directory ∨ c ∈ reference := by
  unfold rebaseImage at h
  split_ifs at h
  · exact .inr (.inr h)
  · rcases mem_withBase h with h | h | h
    · exact .inl h
    · exact absurd h hc
    · exact .inr (.inr h)
  · rcases mem_withBase h with h | h | h
    · exact .inl h
    · exact absurd h hc
    · rw [normalizePath_slash, List.mem_cons, mem_ofNames_iff hc] at h
      obtain ⟨n, hn, hcn⟩ := h.resolve_left hc
      rcases mem_of_mem_destination hn with hn | hn
      · rcases mem_of_mem_destination hn with hn | hn
        · cases hn
        · exact .inr (.inl (Text.mem_of_mem_splitBy hn hcn))
      · exact .inr (.inr (Text.mem_of_mem_splitBy hn hcn))

theorem mem_rebaseLink {c : Char} (h : c ∈ rebaseLink reference base) (hc : c ≠ '/') :
    c ∈ base.getD [] ∨ c ∈ reference := by
  unfold rebaseLink at h
  split_ifs at h
  · exact (mem_withBase h).imp_right fun h => h.resolve_left hc
  · exact .inr h

/-- Where a reference to an image in a document leads under a base path: elsewhere if it did, to a path of the site
if it was one, and else to a place in the content, of which all segments are names. Doing it again without a base
path changes nothing. -/
theorem rebaseImage_leads (hds : ∀ d ∈ ds, IsName d) (reference : Text) (raw : Option Text) :
    let base := normalizeBase? raw
    let result := rebaseImage reference (ofNames ds) base
    (reference = [] ∨ isExternal reference = true → result = reference) ∧
    (isExternal reference = false → reference.head? = some '/' → result = base.getD [] ++ reference) ∧
    (reference ≠ [] → isExternal reference = false → reference.head? ≠ some '/' →
      result = base.getD [] ++ '/' :: ofNames (destination ds reference)) ∧
    (∀ n ∈ destination ds reference, IsName n) ∧
    isExternal result = isExternal reference ∧
    ∀ directory, rebaseImage (rebaseImage reference (ofNames ds) none) directory none =
      rebaseImage reference (ofNames ds) none := by
  refine ⟨fun hkept => rebaseImage_of_kept hkept _ _, fun h hslash => rebaseImage_of_slash hslash h _ _,
    fun hne h hslash => rebaseImage_of_relative hne h hslash hds _, isName_destination hds reference, ?_, ?_⟩
  · by_cases hkept : reference = [] ∨ isExternal reference = true
    · rw [rebaseImage_of_kept hkept]
    · obtain ⟨hne, h⟩ := not_or.mp hkept
      rw [Bool.not_eq_true] at h
      rw [(isSitePath_rebaseImage hne h hds raw).not_external, h]
  · exact rebaseImage_rebaseImage_none hds reference

/-- A reference that climbs above the content, with a colon that makes no scheme, in a directory of two names. -/
theorem diagram_above_content :
    (∀ d ∈ ["blog".toList, "2024".toList], IsName d) ∧
    rebaseImage "../.././..//img/a:b.png" "blog/2024" (normalizeBase? (some "docs/".toList)) = "/docs/img/a:b.png" ∧
    isExternal "/docs/img/a:b.png" = isExternal "../.././..//img/a:b.png" := by
  have hds : ∀ d ∈ ["blog".toList, "2024".toList], IsName d := by decide
  obtain ⟨-, -, hrelative, -, hexternal, -⟩ := rebaseImage_leads hds "../.././..//img/a:b.png" (some "docs/".toList)
  have hresult := hrelative (by decide) (by decide) (by decide)
  have htext : (normalizeBase? (some "docs/".toList)).getD [] ++
      '/' :: ofNames (destination ["blog".toList, "2024".toList] "../.././..//img/a:b.png") = "/docs/img/a:b.png".toList := by
    decide
  rw [htext] at hresult
  exact ⟨hds, hresult, hresult ▸ hexternal⟩

end StaticSite.Url
