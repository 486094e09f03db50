import StaticSite.Proofs.Url.References

/-!
# Page URLs under a base path

A base path is what is left of a configured text between its blanks and slashes, behind one slash. The URL of a page
under a base path is its URL without one behind the base path; only for the root is it the base path itself, with no
slash at its end. So the base path can be taken off again, and what is left is answered by the same file.
-/
namespace StaticSite.Url

open FilePath (IsName ofNames)

variable {raw base : Option Text} {b : Text} {ns : List Text}

/-! ## Base paths -/

/-- A base path has one slash at its start and none at its end. -/
structure IsBase (b : Text) : Prop where
  starts : ∃ c rest, b = '/' :: c :: rest ∧ c ≠ '/'
  ends : b.getLast? ≠ some '/'

theorem IsBase.ne_nil (h : IsBase b) : b ≠ [] := by
  obtain ⟨c, rest, rfl, -⟩ := h.starts
  exact List.cons_ne_nil _ _

theorem isBase_of_normalizeBase? (h : normalizeBase? raw = some b) : IsBase b := by
  refine ⟨exists_of_normalizeBase? h, ?_⟩
  obtain ⟨t, -, ht⟩ := Option.bind_eq_some_iff.mp h
  dsimp only at ht
  split_ifs at ht with hempty
  obtain rfl := Option.some.inj ht
  obtain ⟨c, rest, htrimmed⟩ := List.exists_cons_of_ne_nil (mt List.isEmpty_iff.mpr hempty)
  rw [htrimmed, List.getLast?_cons_cons, ← htrimmed]
  exact fun hlast => absurd (Text.getLast?_dropEndWhile hlast) (by decide)

/-- What a configured text is made of: blanks and slashes around the names of its base path. -/
theorem normalizeBase?_eq (t : Text) :
    ∃ front inner back, t = front ++ inner ++ back ∧ (∀ c ∈ front ++ back, Text.isBlank c = true ∨ c = '/') ∧
      normalizeBase? (some t) = if inner = [] then none else some ('/' :: inner) := by
  obtain ⟨blanks, blanks', ht, hblanks⟩ := Text.exists_dropped_around Text.isBlank t
  obtain ⟨slashes, slashes', htrimmed, hslashes⟩ := Text.exists_dropped_around (· == '/') (Text.trim t)
  refine ⟨blanks ++ slashes, Text.trimChar '/' (Text.trim t), slashes' ++ blanks', ?_, fun c hc => ?_, ?_⟩
  · calc t = blanks ++ Text.trim t ++ blanks' := ht
      _ = blanks ++ (slashes ++ Text.trimChar '/' (Text.trim t) ++ slashes') ++ blanks' := by
        exact congrArg (blanks ++ · ++ blanks') htrimmed
      _ = _ := by simp only [List.append_assoc]
  · have hblank : c ∈ blanks ++ blanks' → Text.isBlank c = true := hblanks c
    have hslash : c ∈ slashes ++ slashes' → c = '/' := fun hmem => by simpa using hslashes c hmem
    simp only [List.mem_append] at hc hblank hslash
    tauto
  · change (if (Text.trimChar '/' (Text.trim t)).isEmpty = true then none else _) = _
    simp only [List.isEmpty_iff]

/-! ## Pages under a base path -/

theorem directoryNames_eq_nil_iff (hne : ns ≠ []) : directoryNames ns = [] ↔ ns = [indexName] := by
  obtain ⟨ds, n, rfl⟩ := List.eq_nil_or_concat' ns |>.resolve_left hne
  rw [directoryNames_concat, ← List.nil_append [indexName], List.append_singleton_inj]
  split_ifs with hindex
  · exact (and_iff_left hindex).symm
  · exact iff_of_false hne fun hboth => hindex hboth.2

theorem ofNames_eq_indexName_iff (hne : ns ≠ []) (h : ∀ n ∈ ns, IsName n) :
    ofNames ns = indexName ↔ directoryNames ns = [] := by
  rw [directoryNames_eq_nil_iff hne]
  constructor
  · intro hindex
    rw [← FilePath.splitOn_ofNames hne h, hindex]
    decide
  · rintro rfl
    rfl

/-- The last character of the names of a path is no slash, whatever stands before them. -/
theorem getLast?_append_ofNames (hne : ns ≠ []) (h : ∀ n ∈ ns, IsName n) (t : Text) :
    (t ++ '/' :: ofNames ns).getLast? ≠ some '/' := by
  obtain ⟨c, cs, hcs⟩ := List.exists_cons_of_ne_nil (FilePath.ofNames_ne_nil hne h)
  rw [List.getLast?_append_of_ne_nil _ (List.cons_ne_nil _ _), hcs, List.getLast?_cons_cons, ← hcs]
  exact FilePath.getLast?_ofNames hne h

theorem dropLastSlash_concat (hb : b ≠ []) : dropLastSlash (b ++ ['/']) = b := by
  have hlength : 0 < b.length := List.length_pos_iff.mpr hb
  rw [dropLastSlash, if_pos (by simpa using hlength), List.dropLast_concat]

theorem dropLastSlash_of_getLast? (h : b.getLast? ≠ some '/') : dropLastSlash b = b :=
  if_neg (by simp [h])

/-- Under a base path, the page of the root is at the base path and any other one behind it. -/
theorem ofEntry_some (hb : b ≠ []) (hne : ns ≠ []) (h : ∀ n ∈ ns, IsName n) :
    ofEntry (ofNames ns) (some b) =
      if ofNames ns = indexName then b else b ++ ofEntry (ofNames ns) none := by
  rw [ofEntry_ofNames hne h, ofEntry, indexDirectory_ofNames hne h, Option.getD_some]
  simp only [ofNames_eq_indexName_iff hne h]
  split_ifs with hnil
  · rw [hnil]
    exact dropLastSlash_concat hb
  · exact dropLastSlash_of_getLast? (getLast?_append_ofNames hnil (isName_directoryNames h) b)

theorem isSitePath_ofEntry (raw : Option Text) (hne : ns ≠ []) (h : ∀ n ∈ ns, IsName n) :
    IsSitePath (ofEntry (ofNames ns) (normalizeBase? raw)) := by
  have hbare : IsSitePath (ofEntry (ofNames ns) none) := by
    rw [ofEntry_ofNames hne h]
    exact isSitePath_ofNames (isName_directoryNames h)
  cases hbase : normalizeBase? raw with
  | none => exact hbare
  | some b =>
    have hb := isBase_of_normalizeBase? hbase
    rw [ofEntry_some hb.ne_nil hne h]
    split_ifs
    · obtain ⟨c, rest, hslash, hc⟩ := hb.starts
      exact ⟨c :: rest, hslash, by simpa using hc⟩
    · have hunder := hbare.withBase raw
      obtain ⟨rest, hslash, -⟩ := hbare
      rwa [withBase_of_slash (by simp [hslash]), hbase, Option.getD_some] at hunder

theorem getLast?_ofEntry (hbase : ∀ b ∈ base, IsBase b) (hne : ns ≠ []) (h : ∀ n ∈ ns, IsName n)
    (hlast : (ofEntry (ofNames ns) base).getLast? = some '/') : ofEntry (ofNames ns) base = "/".toList := by
  have hds := isName_directoryNames h
  cases base with
  | none =>
    rw [ofEntry_ofNames hne h] at hlast ⊢
    by_cases hnil : directoryNames ns = []
    · rw [hnil]
      rfl
    · exact absurd hlast (getLast?_append_ofNames hnil hds [])
  | some b =>
    have hb := hbase b rfl
    rw [ofEntry_some hb.ne_nil hne h, ofEntry_ofNames hne h] at hlast
    split_ifs at hlast with hindex
    · exact absurd hlast hb.ends
    · rw [ofNames_eq_indexName_iff hne h] at hindex
      exact absurd hlast (getLast?_append_ofNames hindex hds b)

/-- With the base path taken off, what is left of the URL is answered by the same file. -/
theorem exists_after_base (hbase : ∀ b ∈ base, IsBase b) (hne : ns ≠ []) (h : ∀ n ∈ ns, IsName n)
    (output : FilePath) :
    ∃ rest, Text.after? (base.getD []) (ofEntry (ofNames ns) base) = some rest ∧
      outputFile rest output = outputFile (ofEntry (ofNames ns) none) output := by
  cases base with
  | none => exact ⟨_, rfl, rfl⟩
  | some b =>
    rw [ofEntry_some (hbase b rfl).ne_nil hne h, Option.getD_some]
    split_ifs with hindex
    · refine ⟨[], by simpa using Text.after?_append b [], ?_⟩
      rw [hindex]
      rfl
    · exact ⟨_, Text.after?_append b _, rfl⟩

end StaticSite.Url
