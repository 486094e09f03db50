import Mathlib.Data.List.Basic
import Mathlib.Data.List.TakeWhile
import StaticSite.FilePath

/-!
# File paths of names

A path that is some names below a base reads back as its base and these names, in whatever way the base is
written. Names are the segments that mean what they say: they are not empty, hold no slash, and are not
dots.
-/
namespace StaticSite

namespace Text

theorem splitOn_eq (c : Char) (t : Text) : splitOn c t = List.splitOn c t := by
  rw [List.splitOn_eq_splitOnP]
  induction t with
  | nil => rfl
  | cons d ds ih =>
    have hrest : splitBy (· == c) ds = List.splitOnP (· == c) ds := ih
    change splitBy (· == c) (d :: ds) = _
    rw [splitBy, List.splitOnP_cons_eq_if_modifyHead, hrest]
    cases hpieces : List.splitOnP (· == c) ds with
    | nil => exact absurd hpieces (List.splitOnP_ne_nil _ _)
    | cons piece pieces => rfl

theorem join_eq (separator : Text) (ts : List Text) : join separator ts = separator.intercalate ts := by
  fun_induction join separator ts with
  | case1 => rfl
  | case2 t => simp
  | case3 t u ts ih => simp [ih]

theorem splitOn_append_cons (c : Char) (t u : Text) :
    splitOn c (t ++ c :: u) = splitOn c t ++ splitOn c u := by
  simp only [splitOn_eq, List.splitOn_append_cons_self]

/-- Text without the character joins the first piece of what follows it. -/
theorem splitOn_append_of_not_mem {c : Char} {t u first : Text} {pieces : List Text} (ht : c ∉ t)
    (hu : splitOn c u = first :: pieces) : splitOn c (t ++ u) = (t ++ first) :: pieces := by
  induction t with
  | nil => exact hu
  | cons d t ih =>
    rw [List.mem_cons, not_or] at ht
    have hd : (d == c) = false := by simpa using Ne.symm ht.1
    have hrest : splitBy (· == c) (t ++ u) = (t ++ first) :: pieces := ih ht.2
    rw [splitOn, List.cons_append, splitBy]
    simp only [hd, Bool.false_eq_true, if_false, hrest]
    rfl

theorem splitOn_of_not_mem {c : Char} {t : Text} (h : c ∉ t) : splitOn c t = [t] := by
  have hsplit : splitOn c (t ++ []) = [t ++ []] := splitOn_append_of_not_mem h rfl
  rwa [List.append_nil] at hsplit

theorem dropEndWhile_concat_of_pos {p : Char → Bool} {c : Char} (h : p c = true) (t : Text) :
    dropEndWhile p (t ++ [c]) = dropEndWhile p t := by
  simp [dropEndWhile, h]

theorem dropEndWhile_concat_of_neg {p : Char → Bool} {c : Char} (h : p c = false) (t : Text) :
    dropEndWhile p (t ++ [c]) = t ++ [c] := by
  simp [dropEndWhile, h]

theorem dropEndWhile_of_getLast? {p : Char → Bool} {t : Text} (h : ∀ c ∈ t.getLast?, p c = false) :
    dropEndWhile p t = t := by
  rcases List.eq_nil_or_concat' t with rfl | ⟨u, c, rfl⟩
  · rfl
  · exact dropEndWhile_concat_of_neg (h c (by simp)) u

theorem before?_append (start ending : Text) : before? ending (start ++ ending) = some start := by
  rw [before?, List.reverse_append, after?_append]
  simp

theorem before?_of_getLast? {c : Char} {t : Text} (h : t.getLast? ≠ some c) : before? [c] t = none := by
  rcases List.eq_nil_or_concat' t with rfl | ⟨u, d, rfl⟩
  · rfl
  · have hne : c ≠ d := fun heq => h (by simp [heq])
    simp [before?, after?, hne]

theorem endsWith_iff (ending t : Text) : endsWith ending t = true ↔ ∃ start, t = start ++ ending := by
  constructor
  · intro h
    obtain ⟨start, hstart⟩ := Option.isSome_iff_exists.mp h
    obtain ⟨rest, hrest, -⟩ := Option.map_eq_some_iff.mp hstart
    have heq := eq_append_of_after? hrest
    exact ⟨rest.reverse, by rw [← List.reverse_inj, heq]; simp⟩
  · rintro ⟨start, rfl⟩
    rw [endsWith, before?_append]
    rfl

/-- Text appended to the last of some joined texts. -/
theorem join_append_last (separator : Text) (ts : List Text) (t u : Text) :
    join separator (ts ++ [t ++ u]) = join separator (ts ++ [t]) ++ u := by
  induction ts with
  | nil => rfl
  | cons s ts ih =>
    cases ts with
    | nil => simp [join]
    | cons s' ts =>
      simp only [List.cons_append, join] at ih ⊢
      rw [ih]
      simp only [List.append_assoc]

end Text

namespace FilePath

/-- A segment that leads from a directory to something in it. -/
structure IsName (n : Text) : Prop where
  ne_nil : n ≠ []
  no_slash : '/' ∉ n
  ne_dot : n ≠ ['.']
  ne_dots : n ≠ ['.', '.']

instance (n : Text) : Decidable (IsName n) :=
  decidable_of_iff (n ≠ [] ∧ '/' ∉ n ∧ n ≠ ['.'] ∧ n ≠ ['.', '.'])
    ⟨fun ⟨h, hslash, hdot, hdots⟩ => ⟨h, hslash, hdot, hdots⟩,
      fun ⟨h, hslash, hdot, hdots⟩ => ⟨h, hslash, hdot, hdots⟩⟩

/-- The relative path that some names form. -/
def ofNames (ns : List Text) : FilePath := Text.join "/" ns

theorem IsName.partOf? {n : Text} (h : IsName n) : partOf? n = some (.name n) := by
  simp [FilePath.partOf?, h.ne_nil, h.ne_dot, h.ne_dots]

/-- A segment that a slash follows says something when it is the first one. -/
theorem exists_firstPart? (segment : Text) : ∃ part, firstPart? segment true = some part := by
  unfold FilePath.firstPart? FilePath.partOf?
  by_cases hnil : segment = []
  · exact ⟨.root, by simp [hnil]⟩
  · simp only [if_neg hnil]
    split_ifs <;> exact ⟨_, rfl⟩

theorem IsName.firstPart? {n : Text} (h : IsName n) (more : Bool) :
    firstPart? n more = some (.name n) := by
  simp [FilePath.firstPart?, h.ne_nil, h.ne_dot, h.partOf?]

variable {ns ds : List Text}

theorem filterMap_partOf? (h : ∀ n ∈ ns, IsName n) : ns.filterMap partOf? = ns.map .name := by
  rw [← List.filterMap_eq_map]
  exact List.filterMap_congr fun n hn => (h n hn).partOf?

theorem splitOn_ofNames (hne : ns ≠ []) (h : ∀ n ∈ ns, IsName n) : Text.splitOn '/' (ofNames ns) = ns := by
  rw [ofNames, Text.join_eq, Text.splitOn_eq]
  exact List.splitOn_intercalate '/' (fun n hn => (h n hn).no_slash) hne

@[simp] theorem parts_ofNames (h : ∀ n ∈ ns, IsName n) : parts (ofNames ns) = ns.map .name := by
  cases ns with
  | nil => rfl
  | cons n ns =>
    obtain ⟨hn, hns⟩ := List.forall_mem_cons.mp h
    rw [parts, splitOn_ofNames (List.cons_ne_nil n ns) h]
    simp [hn.firstPart?, filterMap_partOf? hns]

theorem toSlash_ofNames (h : ∀ n ∈ ns, IsName n) : toSlash (ofNames ns) = ofNames ns := by
  rw [toSlash, parts_ofNames h, List.filterMap_map]
  exact congrArg (Text.join "/") (List.filterMap_some)

theorem ofNames_ne_nil (hne : ns ≠ []) (h : ∀ n ∈ ns, IsName n) : ofNames ns ≠ [] := by
  intro hnil
  have hparts := parts_ofNames h
  rw [hnil] at hparts
  exact hne (List.map_eq_nil_iff.mp hparts.symm)

theorem ofNames_append (hds : ds ≠ []) (hne : ns ≠ []) :
    ofNames (ds ++ ns) = ofNames ds ++ '/' :: ofNames ns := by
  obtain ⟨n, rest, rfl⟩ := List.exists_cons_of_ne_nil hne
  induction ds with
  | nil => exact absurd rfl hds
  | cons d ds ih =>
    cases ds with
    | nil => simp [ofNames, Text.join]
    | cons d' ds =>
      have htail := ih (List.cons_ne_nil d' ds)
      simp only [ofNames, List.cons_append, Text.join] at htail ⊢
      rw [htail]
      simp only [List.append_assoc]

theorem getLast?_ofNames (hne : ns ≠ []) (h : ∀ n ∈ ns, IsName n) :
    (ofNames ns).getLast? ≠ some '/' := by
  obtain ⟨init, n, rfl⟩ := List.eq_nil_or_concat' ns |>.resolve_left hne
  have hn := h n (by simp)
  have hlast : (ofNames (init ++ [n])).getLast? = n.getLast? := by
    cases init with
    | nil => rfl
    | cons d ds =>
      rw [ofNames_append (List.cons_ne_nil d ds) (List.cons_ne_nil n [])]
      obtain ⟨c, cs, hcs⟩ := List.exists_cons_of_ne_nil hn.ne_nil
      simp [ofNames, Text.join, List.getLast?_append, List.getLast?_cons, hcs]
  rw [hlast]
  exact fun hslash => hn.no_slash (List.mem_of_getLast? hslash)

/-- A path of names does not start at the root. -/
theorem isAbsolute_ofNames (h : ∀ n ∈ ns, IsName n) : isAbsolute (ofNames ns) = false := by
  cases ns with
  | nil => rfl
  | cons n ns =>
    have hn := (List.forall_mem_cons.mp h).1
    obtain ⟨c, cs, rfl⟩ := List.exists_cons_of_ne_nil hn.ne_nil
    have hc : c ≠ '/' := fun hc => hn.no_slash (by simp [hc])
    cases ns with
    | nil => simpa [isAbsolute, ofNames, Text.join] using hc
    | cons m ns => simpa [isAbsolute, ofNames, Text.join] using hc

/-! ## Bases -/

/-- The segments of a base, without an empty one at its end. -/
def leading (p : FilePath) : List Text :=
  if p.getLast? == some '/' then Text.splitOn '/' p.dropLast else Text.splitOn '/' p

theorem exists_leading (p : FilePath) : ∃ first rest, leading p = first :: rest := by
  unfold leading
  split
  · exact List.exists_cons_of_ne_nil (Text.splitBy_ne_nil _ _)
  · exact List.exists_cons_of_ne_nil (Text.splitBy_ne_nil _ _)

theorem splitOn_join {p q : FilePath} (hp : p ≠ []) (hq : isAbsolute q = false) :
    Text.splitOn '/' (join p q) = leading p ++ Text.splitOn '/' q := by
  have hempty : p.isEmpty = false := by simpa using hp
  by_cases hslash : p.getLast? = some '/'
  · have hp' : p.dropLast ++ ['/'] = p := by
      obtain ⟨init, rfl⟩ := List.getLast?_eq_some_iff.mp hslash
      simp
    have hjoin : join p q = p.dropLast ++ '/' :: q := by
      rw [List.append_cons, hp']
      simp [join, hq, hempty, hslash]
    rw [hjoin, Text.splitOn_append_cons, leading, if_pos (by simpa using hslash)]
  · have hjoin : join p q = p ++ '/' :: q := by simp [join, hq, hempty, hslash]
    rw [hjoin, Text.splitOn_append_cons, leading, if_neg (by simpa using hslash)]

theorem parts_eq_of_leading {p : FilePath} (hp : p ≠ []) {first : Text} {rest : List Text}
    (h : leading p = first :: rest) :
    parts p = (firstPart? first true).toList ++ rest.filterMap partOf? := by
  by_cases hslash : p.getLast? = some '/'
  · obtain ⟨init, rfl⟩ := List.getLast?_eq_some_iff.mp hslash
    have hinit : Text.splitOn '/' init = first :: rest := by simpa [leading] using h
    have hsplit : Text.splitOn '/' (init ++ ['/']) = first :: (rest ++ [[]]) := by
      rw [Text.splitOn_append_cons, hinit]
      rfl
    have hmore : (rest ++ [[]]).isEmpty = false := by simp
    simp [parts, hsplit, hmore, partOf?, List.filterMap_append]
  · have hsplit : Text.splitOn '/' p = first :: rest := by simpa [leading, hslash] using h
    rw [parts, hsplit]
    cases rest with
    | cons segment rest => rfl
    | nil =>
      -- A base of one segment is that segment, so it is not empty.
      have hfirst : first ≠ [] := by
        have hjoin : ['/'].intercalate (List.splitOn '/' p) = p := List.intercalate_splitOn '/'
        rw [← Text.splitOn_eq, hsplit] at hjoin
        rintro rfl
        exact hp (by simpa using hjoin.symm)
      simp [firstPart?, hfirst]

/-- What is joined to a base is read behind it, without a first segment of its own. -/
theorem parts_join_relative {p q : FilePath} (hp : p ≠ []) (hq : isAbsolute q = false) :
    parts (join p q) = parts p ++ (Text.splitOn '/' q).filterMap partOf? := by
  obtain ⟨first, rest, hleading⟩ := exists_leading p
  have hsplit := splitOn_join hp hq
  rw [hleading] at hsplit
  have hmore : (rest ++ Text.splitOn '/' q).isEmpty = false := by simp [Text.splitOn, Text.splitBy_ne_nil]
  rw [parts, hsplit, parts_eq_of_leading hp hleading]
  simp [hmore, List.filterMap_append]

/-- The parts of names below a base follow those of the base. -/
theorem parts_join {p : FilePath} (hp : p ≠ []) (hne : ns ≠ []) (h : ∀ n ∈ ns, IsName n) :
    parts (join p (ofNames ns)) = parts p ++ ns.map .name := by
  rw [parts_join_relative hp (isAbsolute_ofNames h), splitOn_ofNames hne h, filterMap_partOf? h]

theorem dropSilent_names (h : ∀ n ∈ ns, IsName n) : dropSilent ns = ns := by
  rw [dropSilent]
  cases hreverse : ns.reverse with
  | nil => simpa using hreverse
  | cons n rest =>
    have hn : IsName n := h n (List.mem_reverse.mp (hreverse ▸ List.mem_cons_self))
    rw [List.dropWhile_cons_of_neg (by simp [hn.partOf?]), ← hreverse, List.reverse_reverse]

theorem dropParts_zero (segments : List Text) :
    dropParts 0 segments = segments.dropWhile fun s => (partOf? s).isNone := by
  cases segments with
  | nil => rfl
  | cons s segments => rfl

/-- Dropping as many parts as some segments have drops exactly these segments. -/
theorem dropParts_append (segments : List Text) (h : ∀ n ∈ ns, IsName n) :
    dropParts (segments.filterMap partOf?).length (segments ++ ns) = ns := by
  induction segments with
  | nil =>
    cases ns with
    | nil => rfl
    | cons n ns => simp [dropParts, (h n List.mem_cons_self).partOf?]
  | cons s segments ih =>
    cases hs : partOf? s with
    | some part => simpa [dropParts, hs] using ih
    | none =>
      -- A segment that says nothing is passed over, whether parts are left to drop or not.
      rw [List.filterMap_cons_none hs, List.cons_append]
      cases hlength : (segments.filterMap partOf?).length with
      | zero =>
        rw [hlength, dropParts_zero] at ih
        rw [dropParts_zero, List.dropWhile_cons_of_pos (by simp [hs]), ih]
      | succ k =>
        rw [hlength] at ih
        simpa [dropParts, hs] using ih

/-- Names below a base are the path relative to it. -/
theorem relativeTo?_join {p : FilePath} (hp : p ≠ []) (hne : ns ≠ []) (h : ∀ n ∈ ns, IsName n) :
    relativeTo? p (join p (ofNames ns)) = some (ofNames ns) := by
  obtain ⟨first, rest, hleading⟩ := exists_leading p
  have hsplit := splitOn_join hp (isAbsolute_ofNames h)
  rw [splitOn_ofNames hne h, hleading] at hsplit
  have hlength : (parts p).length = (rest.filterMap partOf?).length + 1 := by
    obtain ⟨part, hpart⟩ := exists_firstPart? first
    rw [parts_eq_of_leading hp hleading, hpart]
    simp
  have hprefix : (parts p).isPrefixOf (parts (join p (ofNames ns))) = true := by
    rw [parts_join hp hne h, List.isPrefixOf_iff_prefix]
    exact List.prefix_append _ _
  simp only [relativeTo?, hprefix, if_true, hsplit, List.cons_append, hlength]
  rw [dropParts_append rest h, dropSilent_names h]
  rfl

/-- A path of names below a base ends with the last name. -/
theorem getLast?_join (p : FilePath) (hne : ns ≠ []) (h : ∀ n ∈ ns, IsName n) :
    (join p (ofNames ns)).getLast? = (ofNames ns).getLast? := by
  obtain ⟨c, cs, hcs⟩ := List.exists_cons_of_ne_nil (ofNames_ne_nil hne h)
  unfold join
  rw [hcs]
  split_ifs <;> simp [List.getLast?_append, List.getLast?_cons]

theorem join_ne_nil (p : FilePath) (hne : ns ≠ []) (h : ∀ n ∈ ns, IsName n) :
    join p (ofNames ns) ≠ [] := by
  have hnames := ofNames_ne_nil hne h
  unfold join
  split_ifs <;> simp [hnames]

/-- Names below names below a base. -/
theorem join_join (p : FilePath) (hds : ds ≠ []) (hne : ns ≠ []) (h : ∀ n ∈ ds ++ ns, IsName n) :
    join (join p (ofNames ds)) (ofNames ns) = join p (ofNames (ds ++ ns)) := by
  obtain ⟨hd, hn⟩ := List.forall_mem_append.mp h
  have hempty : (join p (ofNames ds)).isEmpty = false := by simpa using join_ne_nil p hds hd
  have houter : join (join p (ofNames ds)) (ofNames ns) = join p (ofNames ds) ++ '/' :: ofNames ns := by
    have hslash := getLast?_ofNames hds hd
    rw [← getLast?_join p hds hd] at hslash
    rw [join, isAbsolute_ofNames hn, hempty]
    simp [hslash]
  rw [houter, ofNames_append hds hne]
  have habs := isAbsolute_ofNames hd
  have habs' : isAbsolute (ofNames ds ++ '/' :: ofNames ns) = false := by
    rw [← ofNames_append hds hne]
    exact isAbsolute_ofNames h
  simp only [join, habs, habs']
  split_ifs <;> simp

/-- An empty path below a base makes no difference to what is below it. -/
theorem join_nil_join {p : FilePath} (hp : p ≠ []) (q : FilePath) : join (join p []) q = join p q := by
  have hempty : p.isEmpty = false := by simpa using hp
  by_cases hslash : p.getLast? = some '/'
  · simp [join, isAbsolute, hempty, hslash]
  · simp [join, isAbsolute, hempty, hslash]

/-- Going down from a base name by name. -/
theorem foldl_join {p : FilePath} (hp : p ≠ []) (hne : ns ≠ []) (h : ∀ n ∈ ns, IsName n) :
    ns.foldl join p = join p (ofNames ns) := by
  induction ns generalizing p with
  | nil => exact absurd rfl hne
  | cons n ns ih =>
    cases ns with
    | nil => rfl
    | cons m ns =>
      have hp' : join p n ≠ [] := by
        unfold join
        split_ifs <;> simp [hp, (h n List.mem_cons_self).ne_nil]
      rw [List.foldl_cons, ih hp' (List.cons_ne_nil m ns) (List.forall_mem_cons.mp h).2]
      exact join_join p (List.cons_ne_nil n []) (List.cons_ne_nil m ns) h

/-! ## Last names -/

theorem fileName?_ofNames {n : Text} (h : ∀ m ∈ ds ++ [n], IsName m) :
    fileName? (ofNames (ds ++ [n])) = some n := by
  simp [fileName?, parts_ofNames h]

theorem fileName?_join {p : FilePath} {n : Text} (hp : p ≠ []) (h : ∀ m ∈ ds ++ [n], IsName m) :
    fileName? (join p (ofNames (ds ++ [n]))) = some n := by
  have hne : ds ++ [n] ≠ [] := by simp
  simp [fileName?, parts_join hp hne h]

theorem parent?_ofNames {n : Text} (h : ∀ m ∈ ds ++ [n], IsName m) :
    parent? (ofNames (ds ++ [n])) = some (ofNames ds) := by
  have hne : ds ++ [n] ≠ [] := by simp
  have hsplit := splitOn_ofNames hne h
  cases ds with
  | nil =>
    have hn := h n (by simp)
    rw [parent?, hsplit]
    simp [dropSilent, ofNames, Text.join, hn.ne_nil]
  | cons d ds =>
    have hrest : ∀ m ∈ ds ++ [n], IsName m := (List.forall_mem_cons.mp h).2
    have hds : ∀ m ∈ ds, IsName m := (List.forall_mem_append.mp hrest).1
    have hd : d ≠ [] := (h d (by simp)).ne_nil
    rw [parent?, hsplit]
    simp only [List.cons_append, dropSilent_names hrest]
    split
    · rename_i hnil
      simp at hnil
    · rw [List.dropLast_concat, dropSilent_names hds]
      simp [ofSegments, hd, ofNames]

theorem cutExtension_of_not_mem {name : Text} (h : '.' ∉ name) : cutExtension name = (name, none) := by
  have htake : name.reverse.takeWhile (· != '.') = name.reverse := by
    rw [List.takeWhile_eq_self_iff]
    intro c hc
    simpa using fun hdot : c = '.' => h (hdot ▸ List.mem_reverse.mp hc)
  simp [cutExtension, htake]

/-- A file name is cut at its last dot. -/
theorem cutExtension_dot (stem : Text) {extension : Text} (hdot : '.' ∉ extension) :
    cutExtension (stem ++ '.' :: extension) =
      if stem = [] then ('.' :: extension, none) else (stem, some extension) := by
  have htake : (stem ++ '.' :: extension).reverse.takeWhile (· != '.') = extension.reverse := by
    rw [List.reverse_append, List.reverse_cons, List.append_assoc, List.takeWhile_append_of_pos]
    · simp
    · intro c hc
      simpa using fun hc' : c = '.' => hdot (hc' ▸ List.mem_reverse.mp hc)
  have hstem : (stem ++ '.' :: extension).length - extension.length - 1 = stem.length := by
    simp only [List.length_append, List.length_cons]
    omega
  have hlonger : (extension.length == (stem ++ '.' :: extension).length) = false := by
    simp only [List.length_append, List.length_cons, beq_eq_false_iff_ne]
    omega
  simp only [cutExtension, htake, List.reverse_reverse, hstem, hlonger, List.take_left]
  by_cases hnil : stem = []
  · simp [hnil]
  · simp [hnil]

/-- A file name with a stem and an extension. -/
theorem cutExtension_append {stem extension : Text} (hstem : stem ≠ []) (hdot : '.' ∉ extension) :
    cutExtension (stem ++ '.' :: extension) = (stem, some extension) := by
  rw [cutExtension_dot stem hdot, if_neg hstem]

/-- A file name with an extension is a stem, a dot and the extension. -/
theorem eq_append_of_cutExtension {name extension : Text} (h : (cutExtension name).2 = some extension) :
    name = (cutExtension name).1 ++ '.' :: extension ∧ (cutExtension name).1 ≠ [] := by
  by_cases hmem : '.' ∈ name
  · obtain ⟨after, stem, hsplit, hnot⟩ := List.eq_append_cons_of_mem (List.mem_reverse.mpr hmem)
    have hname : name = stem.reverse ++ '.' :: after.reverse := by
      rw [← List.reverse_inj, hsplit]
      simp
    have hafter : '.' ∉ after.reverse := by simpa using hnot
    have hcut := cutExtension_dot stem.reverse hafter
    rw [← hname] at hcut
    by_cases hstem : stem.reverse = []
    · rw [hcut, if_pos hstem] at h
      cases h
    · rw [if_neg hstem] at hcut
      rw [hcut] at h ⊢
      obtain rfl := Option.some.inj h
      exact ⟨hname, hstem⟩
  · rw [cutExtension_of_not_mem hmem] at h
    cases h

theorem dropExtension_ofNames {n : Text} (h : ∀ m ∈ ds ++ [n], IsName m) :
    dropExtension (ofNames (ds ++ [n])) = ofNames (ds ++ [(cutExtension n).1]) := by
  have hne : ds ++ [n] ≠ [] := by simp
  have hsplit := splitOn_ofNames hne h
  have hstem : fileStem? (ofNames (ds ++ [n])) = some (cutExtension n).1 := by
    rw [fileStem?, fileName?_ofNames h]
    rfl
  rw [dropExtension, hstem, hsplit]
  cases ds with
  | nil => rfl
  | cons d ds =>
    have hrest : ∀ m ∈ ds ++ [n], IsName m := (List.forall_mem_cons.mp h).2
    simp only [List.cons_append, dropSilent_names hrest]
    split
    · rename_i hnil
      simp at hnil
    · rw [List.dropLast_concat]
      rfl

end FilePath

end StaticSite
