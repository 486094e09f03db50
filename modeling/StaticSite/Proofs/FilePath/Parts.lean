import StaticSite.Proofs.FilePath

/-!
# Paths by their parts

What is taken from a path depends on its parts alone, in whatever way the path is written: what stands above
it, what stands below a base, and how it is joined to another path.
-/
namespace StaticSite

namespace Text

theorem length_splitBy_le (p : Char → Bool) (t : Text) : (splitBy p t).length ≤ t.length + 1 := by
  induction t with
  | nil => simp [splitBy]
  | cons c cs ih =>
    rw [splitBy]
    split_ifs
    · simpa using ih
    · cases hpieces : splitBy p cs with
      | nil => simp
      | cons piece pieces =>
        rw [hpieces] at ih
        simp only [List.length_cons] at ih ⊢
        omega

theorem not_of_mem_splitBy {p : Char → Bool} {t piece : Text} (h : piece ∈ splitBy p t) :
    ∀ c ∈ piece, p c = false := by
  induction t generalizing piece with
  | nil => simp_all [splitBy]
  | cons d ds ih =>
    rw [splitBy] at h
    split_ifs at h with hd
    · rcases List.mem_cons.mp h with rfl | h
      · simp
      · exact ih h
    · have hfirst : p d = false := by simpa using hd
      cases hpieces : splitBy p ds with
      | nil =>
        rw [hpieces] at h
        obtain rfl := List.mem_singleton.mp h
        simpa using hfirst
      | cons first pieces =>
        simp only [hpieces, List.mem_cons] at h
        rcases h with rfl | h
        · have hrest := ih (hpieces ▸ List.mem_cons_self)
          exact List.forall_mem_cons.mpr ⟨hfirst, hrest⟩
        · exact ih (hpieces ▸ List.mem_cons_of_mem _ h)

theorem mem_of_mem_splitBy {p : Char → Bool} {t segment : Text} {x : Char}
    (h : segment ∈ splitBy p t) (hx : x ∈ segment) : x ∈ t := by
  induction t generalizing segment with
  | nil => simp_all [splitBy]
  | cons c cs ih =>
    rw [splitBy] at h
    split_ifs at h
    · rcases List.mem_cons.mp h with rfl | h
      · cases hx
      · exact List.mem_cons_of_mem _ (ih h hx)
    · cases hpieces : splitBy p cs with
      | nil =>
        simp only [hpieces, List.mem_singleton] at h
        subst h
        rw [List.mem_singleton.mp hx]
        exact List.mem_cons_self
      | cons piece pieces =>
        have hpiece : piece ∈ splitBy p cs := hpieces ▸ List.mem_cons_self
        simp only [hpieces, List.mem_cons] at h
        rcases h with rfl | h
        · rcases List.mem_cons.mp hx with rfl | hx
          · exact List.mem_cons_self
          · exact List.mem_cons_of_mem _ (ih hpiece hx)
        · exact List.mem_cons_of_mem _ (ih (hpieces ▸ List.mem_cons_of_mem _ h) hx)

end Text

namespace FilePath

variable {p q base : FilePath} {ns ds : List Text} {first : Text} {segments : List Text}

/-- A text between slashes. -/
def IsSegment (t : Text) : Prop := '/' ∉ t

theorem isSegment_of_mem {t : Text} (h : t ∈ Text.splitOn '/' p) : IsSegment t := by
  intro hmem
  simpa using Text.not_of_mem_splitBy h '/' hmem

theorem exists_splitOn (p : FilePath) : ∃ first rest, Text.splitOn '/' p = first :: rest :=
  List.exists_cons_of_ne_nil (Text.splitBy_ne_nil _ _)

theorem parts_of_splitOn (h : Text.splitOn '/' p = first :: segments) :
    parts p = (firstPart? first (!segments.isEmpty)).toList ++ segments.filterMap partOf? := by
  rw [parts, h]

theorem firstPart?_of_ne_nil (h : first ≠ []) (more : Bool) : firstPart? first more = firstPart? first true := by
  simp [firstPart?, h]

theorem firstPart?_of_partOf?_eq_name {s n : Text} (h : partOf? s = some (.name n)) (more : Bool) :
    firstPart? s more = some (.name n) := by
  have hne : s ≠ [] := by
    rintro rfl
    cases h
  have hdot : s ≠ ['.'] := by
    rintro rfl
    cases h
  simp [firstPart?, hne, hdot, h]

theorem splitOn_join_segments {ts : List Text} (hne : ts ≠ []) (h : ∀ t ∈ ts, IsSegment t) :
    Text.splitOn '/' (Text.join "/" ts) = ts := by
  rw [Text.join_eq, Text.splitOn_eq]
  exact List.splitOn_intercalate '/' (fun t ht => h t ht) hne

theorem parts_join_segments (h : ∀ t ∈ first :: segments, IsSegment t) :
    parts (Text.join "/" (first :: segments)) =
      (firstPart? first (!segments.isEmpty)).toList ++ segments.filterMap partOf? :=
  parts_of_splitOn (splitOn_join_segments (List.cons_ne_nil _ _) h)

/-- A path is cut at its slashes into a first segment and the others, and has the parts that these say. -/
theorem exists_segments (p : FilePath) : ∃ first segments, Text.splitOn '/' p = first :: segments ∧
    (∀ t ∈ first :: segments, IsSegment t) ∧
    parts p = (firstPart? first (!segments.isEmpty)).toList ++ segments.filterMap partOf? := by
  obtain ⟨first, segments, hsplit⟩ := exists_splitOn p
  exact ⟨first, segments, hsplit, fun t ht => isSegment_of_mem (hsplit ▸ ht), parts_of_splitOn hsplit⟩

/-- Whether more segments follow matters for an empty path only. -/
theorem firstPart?_of_splitOn (hp : p ≠ []) (hsplit : Text.splitOn '/' p = first :: segments) :
    firstPart? first (!segments.isEmpty) = firstPart? first true := by
  by_cases hfirst : first = []
  · have hsegments : segments ≠ [] := by
      rintro rfl
      have hjoin : ['/'].intercalate (List.splitOn '/' p) = p := List.intercalate_splitOn '/'
      rw [← Text.splitOn_eq, hsplit, hfirst] at hjoin
      exact hp (by simpa using hjoin.symm)
    have hmore : (!segments.isEmpty) = true := by simpa using hsegments
    rw [hmore]
  · exact firstPart?_of_ne_nil hfirst _

theorem ne_nil_of_firstPart?_eq_name {n : Text} {more : Bool} (h : firstPart? first more = some (.name n)) :
    first ≠ [] := by
  rintro rfl
  cases more <;> cases h

/-- The number of parts is limited by the length of the text. -/
theorem length_parts_le (p : FilePath) : (parts p).length ≤ p.length + 1 := by
  obtain ⟨first, rest, hsplit⟩ := exists_splitOn p
  have hlength : (first :: rest).length ≤ p.length + 1 := hsplit ▸ Text.length_splitBy_le _ p
  have hfirst : (firstPart? first (!rest.isEmpty)).toList.length ≤ 1 := Option.length_toList_le
  have hrest : (rest.filterMap partOf?).length ≤ rest.length := List.length_filterMap_le _ _
  rw [parts_of_splitOn hsplit, List.length_append]
  simp only [List.length_cons] at hlength
  omega

/-! ## Segments that say nothing -/

theorem dropSilent_begins (segments : List Text) : dropSilent segments <+: segments := by
  have hsuffix := List.dropWhile_suffix (fun s => (partOf? s).isNone) (l := segments.reverse)
  simpa [dropSilent] using List.reverse_prefix.mpr hsuffix

theorem filterMap_dropSilent (segments : List Text) :
    (dropSilent segments).filterMap partOf? = segments.filterMap partOf? := by
  have hsilent : (segments.reverse.takeWhile fun s => (partOf? s).isNone).filterMap partOf? = [] := by
    refine List.filterMap_eq_nil_iff.mpr fun s hs => ?_
    simpa using List.mem_takeWhile_imp hs
  have hsplit := List.takeWhile_append_dropWhile (p := fun s => (partOf? s).isNone) (l := segments.reverse)
  have hreverse := congrArg (List.filterMap partOf?) hsplit
  rw [List.filterMap_append, hsilent, List.nil_append] at hreverse
  rw [dropSilent, ← List.reverse_inj, ← List.filterMap_reverse, ← List.filterMap_reverse, List.reverse_reverse]
  exact hreverse

/-- The last segment that is left says something. -/
theorem dropSilent_eq_concat {init : List Text} {s : Text} (h : dropSilent segments = init ++ [s]) :
    ∃ part, partOf? s = some part ∧ segments.filterMap partOf? = init.filterMap partOf? ++ [part] := by
  have hlast : ∃ part, partOf? s = some part := by
    have hhead : (segments.reverse.dropWhile fun s => (partOf? s).isNone) = s :: init.reverse := by
      rw [← List.reverse_inj]
      simpa [dropSilent] using h
    have hnot := List.head_dropWhile_not (fun s => (partOf? s).isNone) (l := segments.reverse) (by simp [hhead])
    simp only [hhead, List.head_cons] at hnot
    exact Option.isSome_iff_exists.mp (by simpa using hnot)
  obtain ⟨part, hpart⟩ := hlast
  refine ⟨part, hpart, ?_⟩
  rw [← filterMap_dropSilent, h, List.filterMap_append]
  simp [hpart]

theorem mem_of_mem_dropSilent {t : Text} (h : t ∈ dropSilent segments) : t ∈ segments :=
  (dropSilent_begins segments).subset h

theorem filterMap_of_dropSilent_eq_nil (h : dropSilent segments = []) : segments.filterMap partOf? = [] := by
  rw [← filterMap_dropSilent, h]
  rfl

/-- Where no later segment says anything, the last part is the only one. -/
theorem firstPart?_of_dropSilent_eq_nil {ps : List Part} {part : Part} (hnil : dropSilent segments = [])
    (h : (firstPart? first (!segments.isEmpty)).toList ++ segments.filterMap partOf? = ps ++ [part]) :
    ps = [] ∧ firstPart? first (!segments.isEmpty) = some part := by
  rw [filterMap_of_dropSilent_eq_nil hnil, List.append_nil] at h
  cases hfirst : firstPart? first (!segments.isEmpty) with
  | none => simp [hfirst] at h
  | some only =>
    rw [hfirst] at h
    have hone : [] ++ [only] = ps ++ [part] := h
    obtain ⟨rfl, hlast⟩ := List.append_inj' hone rfl
    exact ⟨rfl, congrArg some (List.cons.inj hlast).1⟩

/-- The parts before the last one are said before the last segment that says something. -/
theorem initialParts_of_dropSilent_eq_concat {ps : List Part} {part : Part} {init : List Text} {s : Text}
    (hconcat : dropSilent segments = init ++ [s])
    (h : (firstPart? first (!segments.isEmpty)).toList ++ segments.filterMap partOf? = ps ++ [part]) :
    (firstPart? first true).toList ++ init.filterMap partOf? = ps := by
  obtain ⟨last, -, hfilter⟩ := dropSilent_eq_concat hconcat
  have hsegments : segments ≠ [] := by
    rintro rfl
    simp [dropSilent] at hconcat
  have hmore : (!segments.isEmpty) = true := by simpa using hsegments
  rw [hmore, hfilter, ← List.append_assoc] at h
  exact (List.append_inj' h rfl).1

/-! ## Above and below -/

theorem parts_ofSegments (h : ∀ t ∈ first :: segments, IsSegment t) :
    parts (ofSegments first segments) = (firstPart? first true).toList ++ segments.filterMap partOf? := by
  unfold ofSegments
  by_cases hroot : (first.isEmpty && segments.isEmpty) = true
  · obtain ⟨rfl, rfl⟩ : first = [] ∧ segments = [] := by simpa using hroot
    rfl
  · rw [if_neg hroot, parts_join_segments h]
    by_cases hfirst : first = []
    · have hmore : segments.isEmpty = false := by simpa [hfirst] using hroot
      rw [hmore]
      rfl
    · rw [firstPart?_of_ne_nil hfirst]

/-- What stands above a path has its parts without the last one. -/
theorem parts_parent? {ps : List Part} {n : Text} (h : parts p = ps ++ [.name n]) :
    ∃ parent, parent? p = some parent ∧ parts parent = ps := by
  obtain ⟨first, rest, hsplit, hsegments, hall⟩ := exists_segments p
  rw [hall] at h
  unfold parent?
  rw [hsplit]
  dsimp only
  rcases List.eq_nil_or_concat' (dropSilent rest) with hnil | ⟨init, s, hconcat⟩
  · obtain ⟨rfl, hfirst⟩ := firstPart?_of_dropSilent_eq_nil hnil h
    have hempty : first.isEmpty = false := by simpa using ne_nil_of_firstPart?_eq_name hfirst
    refine ⟨[], ?_, rfl⟩
    rw [hnil, hempty]
    rfl
  · refine ⟨ofSegments first (dropSilent init), ?_, ?_⟩
    · rw [hconcat]
      cases init with
      | nil => rfl
      | cons d ds =>
        change some (ofSegments first (dropSilent (d :: ds ++ [s]).dropLast)) = _
        rw [List.dropLast_concat]
    · have hinit : ∀ t ∈ first :: dropSilent init, IsSegment t := by
        have hsubset : dropSilent init ⊆ rest := fun t ht =>
          mem_of_mem_dropSilent (hconcat ▸ List.mem_append_left _ (mem_of_mem_dropSilent ht))
        exact fun t ht => hsegments t (List.cons_subset_cons first hsubset ht)
      rw [parts_ofSegments hinit, filterMap_dropSilent]
      exact initialParts_of_dropSilent_eq_concat hconcat h

/-- A path that is made of names starts with one, if it is not empty. -/
theorem splitOn_of_parts_eq_names (h : parts q = ns.map .name) :
    isAbsolute q = false ∧ (Text.splitOn '/' q).filterMap partOf? = ns.map .name := by
  obtain ⟨first, rest, hsplit⟩ := exists_splitOn q
  rw [parts_of_splitOn hsplit] at h
  have hfirst : firstPart? first (!rest.isEmpty) = partOf? first := by
    unfold firstPart?
    split_ifs with hnil hmore hdot
    · have hroot : Part.root ∈ ns.map Part.name := h ▸ by simp [firstPart?, hnil, hmore]
      simp at hroot
    · simp [partOf?, hnil]
    · have hhere : Part.here ∈ ns.map Part.name := h ▸ by simp [firstPart?, hdot]
      simp at hhere
    · rfl
  refine ⟨?_, ?_⟩
  · by_contra habsolute
    obtain ⟨cs, rfl⟩ : ∃ cs, q = '/' :: cs := by
      cases q with
      | nil => simp [isAbsolute] at habsolute
      | cons c cs => exact ⟨cs, by simpa [isAbsolute] using habsolute⟩
    have hslash : Text.splitOn '/' ('/' :: cs) = [] :: Text.splitOn '/' cs := Text.splitOn_append_cons '/' [] cs
    obtain ⟨rfl, rfl⟩ := List.cons.inj (hsplit.symm.trans hslash)
    obtain ⟨first', rest', hsplit'⟩ := exists_splitOn cs
    simp [hsplit', firstPart?, partOf?] at hfirst
  · rw [hfirst] at h
    rw [hsplit, ← h]
    cases hpart : partOf? first <;> simp [hpart]

/-- The parts of a path of names that is joined to another path follow the parts of that path. -/
theorem parts_join_of_names (p : FilePath) (h : parts q = ns.map .name) :
    parts (join p q) = parts p ++ ns.map .name := by
  obtain ⟨habsolute, hsplit⟩ := splitOn_of_parts_eq_names h
  by_cases hp : p = []
  · subst hp
    have hjoin : join [] q = q := by simp [join]
    rw [hjoin, h]
    rfl
  · rw [parts_join_relative hp habsolute, hsplit]

/-! ## Relative paths -/

theorem filterMap_dropWhile_silent (segments : List Text) :
    (segments.dropWhile fun s => (partOf? s).isNone).filterMap partOf? = segments.filterMap partOf? := by
  induction segments with
  | nil => rfl
  | cons s segments ih =>
    cases hs : partOf? s with
    | none => simp [hs, ih]
    | some part => simp [hs]

/-- Dropping parts leaves the others, and starts with a segment that says something. -/
theorem filterMap_dropParts (k : Nat) (segments : List Text) :
    (dropParts k segments).filterMap partOf? = (segments.filterMap partOf?).drop k := by
  induction segments generalizing k with
  | nil => simp [dropParts]
  | cons s segments ih =>
    cases k with
    | zero =>
      rw [dropParts_zero, filterMap_dropWhile_silent]
      rfl
    | succ k =>
      cases hs : partOf? s with
      | none => simp [dropParts, hs, ih]
      | some part => simp [dropParts, hs, ih]

theorem dropParts_suffix (k : Nat) (segments : List Text) : dropParts k segments <:+ segments := by
  induction segments generalizing k with
  | nil => exact List.suffix_rfl
  | cons s segments ih =>
    cases k with
    | zero =>
      rw [dropParts_zero]
      exact List.dropWhile_suffix _
    | succ k => exact (ih _).trans (List.suffix_cons s segments)

theorem partOf?_head_dropParts {k : Nat} {s : Text} {rest : List Text} (h : dropParts k segments = s :: rest) :
    ∃ part, partOf? s = some part := by
  induction segments generalizing k with
  | nil => cases h
  | cons t segments ih =>
    cases k with
    | zero =>
      rw [dropParts_zero] at h
      have hnot := List.head_dropWhile_not (fun s => (partOf? s).isNone) (l := t :: segments) (by simp [h])
      simp only [h, List.head_cons] at hnot
      exact Option.isSome_iff_exists.mp (by simpa using hnot)
    | succ k => exact ih h

theorem partOf?_head_dropSilent_dropParts {k : Nat} {s : Text} {rest : List Text}
    (h : dropSilent (dropParts k segments) = s :: rest) : ∃ part, partOf? s = some part := by
  obtain ⟨after, hafter⟩ := dropSilent_begins (dropParts k segments)
  rw [h, List.cons_append] at hafter
  exact partOf?_head_dropParts hafter.symm

/-- Segments that say names, the first of them included, are these names when they are joined. -/
theorem parts_join_of_filterMap (hne : ns ≠ []) (hsegments : ∀ t ∈ segments, IsSegment t)
    (hhead : ∀ s rest, segments = s :: rest → ∃ part, partOf? s = some part)
    (h : segments.filterMap partOf? = ns.map .name) : parts (Text.join "/" segments) = ns.map .name := by
  cases segments with
  | nil => exact absurd (List.map_eq_nil_iff.mp h.symm) hne
  | cons s rest =>
    obtain ⟨part, hs⟩ := hhead s rest rfl
    have hall := h
    rw [List.filterMap_cons_some hs] at hall
    have hmem : part ∈ ns.map Part.name := hall ▸ List.mem_cons_self
    obtain ⟨n, -, rfl⟩ := List.mem_map.mp hmem
    rw [parts_join_segments hsegments, firstPart?_of_partOf?_eq_name hs, ← hall]
    rfl

/-- What stands below a base is found by its parts. -/
theorem parts_relativeTo? (hne : ns ≠ []) (h : parts p = parts base ++ ns.map .name) :
    ∃ relative, relativeTo? base p = some relative ∧ parts relative = ns.map .name := by
  obtain ⟨first, rest, hsplit, hsegments, hall⟩ := exists_segments p
  have hbegins : (parts base).isPrefixOf (parts p) = true := by
    rw [h, List.isPrefixOf_iff_prefix]
    exact List.prefix_append _ _
  have hp : p ≠ [] := by
    rintro rfl
    have hempty : ([] : List Part) = parts base ++ ns.map .name := h
    simp [hne] at hempty
  rw [firstPart?_of_splitOn hp hsplit] at hall
  unfold relativeTo?
  simp only [hbegins, if_true, hsplit]
  cases hlength : (parts base).length with
  | zero =>
    have hbase : parts base = [] := List.eq_nil_of_length_eq_zero hlength
    have hempty : p.isEmpty = false := by simpa using hp
    have hsilent : ∀ t ∈ first :: dropSilent rest, IsSegment t := fun t ht =>
      hsegments t (List.cons_subset_cons first (fun _ => mem_of_mem_dropSilent) ht)
    refine ⟨ofSegments first (dropSilent rest), by simp [hempty], ?_⟩
    rw [parts_ofSegments hsilent, filterMap_dropSilent, ← hall, h, hbase, List.nil_append]
  | succ k =>
    obtain ⟨part, hpart⟩ := exists_firstPart? first
    have hrest : rest.filterMap partOf? = (parts base).tail ++ ns.map .name := by
      rw [hall, hpart] at h
      obtain ⟨b, bs, hbase⟩ : ∃ b bs, parts base = b :: bs := List.exists_cons_of_length_eq_add_one hlength
      rw [hbase] at h ⊢
      exact (List.cons.inj h).2
    have hdrop : (dropSilent (dropParts k rest)).filterMap partOf? = ns.map .name := by
      have htail : (parts base).tail.length = k := by simp [hlength]
      rw [filterMap_dropSilent, filterMap_dropParts, hrest, ← htail, List.drop_left]
    have hsub : ∀ t ∈ dropSilent (dropParts k rest), IsSegment t := fun t ht =>
      hsegments t (List.mem_cons_of_mem _ ((dropParts_suffix k rest).subset (mem_of_mem_dropSilent ht)))
    exact ⟨_, rfl, parts_join_of_filterMap hne hsub (fun _ _ => partOf?_head_dropSilent_dropParts) hdrop⟩

/-! ## Parts in common -/

/-- The parts that two paths have in common at their start. -/
def shared : List Part → List Part → List Part
  | a :: as, b :: bs => if a = b then a :: shared as bs else []
  | _, _ => []

theorem shared_append_dropCommon (as bs : List Part) :
    shared as bs ++ (dropCommon as bs).1 = as ∧ shared as bs ++ (dropCommon as bs).2 = bs := by
  fun_induction dropCommon as bs with
  | case1 a as bs ih => simpa [shared] using ih
  | case2 a as b bs hne => simp [shared, hne]
  | case3 as bs hnot =>
    have hnil : shared as bs = [] := by
      unfold shared
      split
      · exact absurd rfl (hnot _ _ _ _ rfl)
      · rfl
    simp [hnil]

/-! ## File names -/

theorem fileName?_of_parts {n : Text} (h : parts p = (ds ++ [n]).map .name) : fileName? p = some n := by
  simp [fileName?, h]

theorem fileStem?_of_parts {n : Text} (h : parts p = (ds ++ [n]).map .name) :
    fileStem? p = some (cutExtension n).1 := by
  rw [fileStem?, fileName?_of_parts h]
  rfl

/-- A file name cut at its last dot leaves some text without a slash. -/
theorem cutExtension_isSegment {n : Text} (hne : n ≠ []) (hn : IsSegment n) :
    (cutExtension n).1 ≠ [] ∧ IsSegment (cutExtension n).1 := by
  unfold cutExtension
  dsimp only
  split_ifs with hwhole
  · exact ⟨hne, hn⟩
  · simp only [Bool.or_eq_true, beq_iff_eq, List.isEmpty_iff, not_or] at hwhole
    exact ⟨hwhole.2, fun hmem => hn (List.mem_of_mem_take hmem)⟩

/-- The name that a part is. -/
def Part.name? : Part → Option Text
  | .name t => some t
  | _ => none

theorem toSlash_eq (p : FilePath) : toSlash p = Text.join "/" ((parts p).filterMap Part.name?) := rfl

theorem filterMap_name?_names (ns : List Text) : (ns.map Part.name).filterMap Part.name? = ns := by
  rw [List.filterMap_map]
  exact List.filterMap_some

theorem isName_of_partOf? {s n : Text} (hs : IsSegment s) (h : partOf? s = some (.name n)) : IsName n := by
  unfold partOf? at h
  split_ifs at h with hnil hdot hdots
  · cases h
  · obtain rfl := Part.name.inj (Option.some.inj h)
    exact ⟨hnil, hs, hdot, hdots⟩

/-- The names in a path are names. -/
theorem isName_of_mem_parts {n : Text} (h : .name n ∈ parts p) : IsName n := by
  obtain ⟨first, rest, -, hsegments, hall⟩ := exists_segments p
  obtain ⟨hfirst, hrest⟩ := List.forall_mem_cons.mp hsegments
  rw [hall] at h
  rcases List.mem_append.mp h with h | h
  · have hpart := Option.mem_toList.mp h
    unfold firstPart? at hpart
    split_ifs at hpart
    · cases hpart
    · cases hpart
    · exact isName_of_partOf? hfirst hpart
  · obtain ⟨s, hs, hpart⟩ := List.mem_filterMap.mp h
    exact isName_of_partOf? (hrest s hs) hpart

theorem dropExtension_of_concat {stem s : Text} {rest init : List Text} (hstem : fileStem? p = some stem)
    (hsplit : Text.splitOn '/' p = first :: rest) (hconcat : dropSilent rest = init ++ [s]) :
    dropExtension p = Text.join "/" (first :: (init ++ [stem])) := by
  rw [dropExtension, hstem, hsplit]
  dsimp only
  rw [hconcat]
  cases init with
  | nil => rfl
  | cons d ds =>
    change Text.join "/" (first :: (d :: ds ++ [s]).dropLast ++ [stem]) = _
    rw [List.dropLast_concat]
    rfl

/-- A path without its extension, in slashes, is made of its directories and its stem. -/
theorem toSlash_dropExtension {n : Text} (h : parts p = (ds ++ [n]).map .name) :
    toSlash (dropExtension p) =
      Text.join "/" (ds ++ ((partOf? (cutExtension n).1).toList.filterMap Part.name?)) := by
  have hn : IsName n := isName_of_mem_parts (p := p) (h ▸ by simp)
  obtain ⟨hne, hstem⟩ := cutExtension_isSegment hn.ne_nil hn.no_slash
  obtain ⟨first, rest, hsplit, hsegments, hall⟩ := exists_segments p
  obtain ⟨hfirst, hrest⟩ := List.forall_mem_cons.mp hsegments
  rw [h, List.map_append] at hall
  rw [toSlash_eq]
  have hcut := fileStem?_of_parts h
  generalize (cutExtension n).1 = stem at hne hstem hcut ⊢
  rcases List.eq_nil_or_concat' (dropSilent rest) with hnil | ⟨init, s, hconcat⟩
  · have hds : ds = [] := List.map_eq_nil_iff.mp (firstPart?_of_dropSilent_eq_nil hnil hall.symm).1
    have hsplit' : Text.splitOn '/' stem = [stem] :=
      splitOn_join_segments (List.cons_ne_nil stem []) (by simpa using hstem)
    have hpath : dropExtension p = stem := by
      simp only [dropExtension, hcut, hsplit, hnil]
    rw [hpath, hds, parts_of_splitOn hsplit']
    unfold firstPart? partOf?
    split_ifs <;> rfl
  · have hinit : ∀ t ∈ first :: (init ++ [stem]), IsSegment t := by
      refine List.forall_mem_cons.mpr ⟨hfirst, List.forall_mem_append.mpr ⟨fun t ht => ?_, by simpa using hstem⟩⟩
      exact hrest t (mem_of_mem_dropSilent (hconcat ▸ List.mem_append_left _ ht))
    have hdirectories : (firstPart? first true).toList ++ init.filterMap partOf? = ds.map .name :=
      initialParts_of_dropSilent_eq_concat hconcat hall.symm
    have hlonger : (!(init ++ [stem]).isEmpty) = true := by simp
    have hparts : (firstPart? first true).toList ++ (init ++ [stem]).filterMap partOf? =
        ds.map .name ++ (partOf? stem).toList := by
      rw [List.filterMap_append, ← List.append_assoc, hdirectories]
      cases hpart : partOf? stem <;> simp [hpart]
    rw [dropExtension_of_concat hcut hsplit hconcat, parts_join_segments hinit, hlonger, hparts,
      List.filterMap_append, filterMap_name?_names]

end FilePath

end StaticSite
