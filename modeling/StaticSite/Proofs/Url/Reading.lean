import StaticSite.Build.Pages
import StaticSite.Proofs.Text.Bytes
import StaticSite.Proofs.Text.Parts

/-!
# URLs that are read

Whoever reads a URL drops its query and its fragment, and takes a percent sign and two hexadecimal digits for a
byte. A text that was put into a URL as it is comes out again if it is plain, which means that nothing in it is taken
that way; otherwise what is read is shorter than the text. So the URL of a file leads back to the file just when its
path is plain.
-/
namespace StaticSite

namespace FilePath

variable {p q : FilePath} {ns : List Text}

theorem eq_of_partOf? {s n : Text} (h : partOf? s = some (.name n)) : n = s := by
  unfold partOf? at h
  split_ifs at h
  · cases h
  · exact (Part.name.inj (Option.some.inj h)).symm

theorem filterMap_name?_partOf?_sublist (segments : List Text) :
    ((segments.filterMap partOf?).filterMap Part.name?).Sublist segments := by
  rw [List.filterMap_filterMap]
  induction segments with
  | nil => exact List.Sublist.refl _
  | cons s segments ih =>
    rw [List.filterMap_cons]
    split
    · exact ih.cons s
    · rename_i n hn
      obtain ⟨part, hpart, hname⟩ := Option.bind_eq_some_iff.mp hn
      cases part with
      | name m =>
        obtain rfl := Option.some.inj hname
        rw [eq_of_partOf? hpart]
        exact ih.cons_cons s
      | root | here | up => cases hname

/-- The names in a path stand between its slashes. -/
theorem filterMap_name?_parts_sublist (p : FilePath) :
    ((parts p).filterMap Part.name?).Sublist (Text.splitOn '/' p) := by
  obtain ⟨first, rest, hsplit⟩ := exists_splitOn p
  have hfirst : ((firstPart? first (!rest.isEmpty)).toList.filterMap Part.name?).Sublist [first] := by
    unfold firstPart?
    split_ifs
    · exact List.nil_sublist _
    · exact List.nil_sublist _
    · exact List.nil_sublist _
    · have hsegment := filterMap_name?_partOf?_sublist [first]
      rwa [List.filterMap_cons, List.filterMap_nil] at hsegment
  rw [parts_of_splitOn hsplit, hsplit, List.filterMap_append]
  exact hfirst.append (filterMap_name?_partOf?_sublist rest)

/-- Whatever leads from a path to names below it contains these names. -/
theorem ofNames_sublist_of_parts_join (h : parts (join p q) = parts p ++ ns.map .name) : (ofNames ns).Sublist q := by
  have hnames : ns.Sublist (Text.splitOn '/' q) := by
    by_cases hstart : isAbsolute q = true ∨ p = []
    · -- the path is thrown away, or is none
      have hjoin : join p q = q := by
        rcases hstart with hq | rfl
        · simp [join, hq]
        · simp [join]
      have hall := filterMap_name?_parts_sublist q
      rw [← hjoin, h, List.filterMap_append, filterMap_name?_names, hjoin] at hall
      exact (List.sublist_append_right _ _).trans hall
    · rw [not_or, Bool.not_eq_true] at hstart
      rw [parts_join_relative hstart.2 hstart.1, List.append_cancel_left_eq] at h
      have hall := filterMap_name?_partOf?_sublist (Text.splitOn '/' q)
      rwa [h, filterMap_name?_names] at hall
  have hjoin : (ofNames ns).Sublist (Text.join ['/'] (Text.splitOn '/' q)) := Text.join_sublist hnames
  rwa [Text.join_splitOn] at hjoin

end FilePath

namespace Url

open FilePath (IsName ofNames parts)

variable {t u url base : Text} {c : Char} {output file : FilePath} {ns : List Text}

/-! ## Reading -/

/-- The path of a URL stands before its query and its fragment. -/
def pathOf (url : Text) : Text := url.takeWhile fun c => c != '?' && c != '#'

/-- The byte that three characters stand for, if they are a percent sign and two hexadecimal digits. -/
def escapedByte? (c a b : Char) : Option UInt8 :=
  if c = '%' then do
    let high ← Text.hexValue? a
    let low ← Text.hexValue? b
    some (16 * high + low).toUInt8
  else none

/-- The bytes that a text in a URL stands for. -/
def percentDecode : Text → List UInt8
  | c :: a :: b :: rest =>
    match escapedByte? c a b with
    | some byte => byte :: percentDecode rest
    | none => Text.bytes [c] ++ percentDecode (a :: b :: rest)
  | t => Text.bytes t

/-- No three characters in the text stand for a byte. -/
def NoEscape (t : Text) : Prop := ∀ c a b, [c, a, b] <:+: t → escapedByte? c a b = none

/-- The text has no query and no fragment, and nothing in it is taken for a byte. -/
structure IsPlain (t : Text) : Prop where
  no_query : '?' ∉ t
  no_fragment : '#' ∉ t
  no_escape : NoEscape t

theorem noEscape_cons_iff {a b : Char} :
    NoEscape (c :: a :: b :: t) ↔ escapedByte? c a b = none ∧ NoEscape (a :: b :: t) := by
  constructor
  · intro h
    exact ⟨h c a b ⟨[], t, rfl⟩, fun c' a' b' hwithin => h c' a' b' (hwithin.trans (List.suffix_cons c _).isInfix)⟩
  · rintro ⟨hfirst, hrest⟩ c' a' b' hwithin
    rcases List.infix_cons_iff.mp hwithin with hprefix | hwithin
    · obtain ⟨rfl, rfl, rfl⟩ : c' = c ∧ a' = a ∧ b' = b := by simpa using hprefix
      exact hfirst
    · exact hrest c' a' b' hwithin

theorem percentDecode_of_noEscape (h : NoEscape t) : percentDecode t = Text.bytes t := by
  fun_induction percentDecode t with
  | case1 c a b rest byte hbyte =>
    rw [(noEscape_cons_iff.mp h).1] at hbyte
    cases hbyte
  | case2 c a b rest hnone ih =>
    rw [ih (noEscape_cons_iff.mp h).2, ← Text.bytes_cons]
  | case3 t => rfl

/-- An escape takes three characters, each of a byte or more. -/
theorem length_bytes_escape (c a b : Char) (rest : Text) :
    (Text.bytes rest).length + 3 ≤ (Text.bytes (c :: a :: b :: rest)).length := by
  have hc := Text.length_bytes_cons c (a :: b :: rest)
  have ha := Text.length_bytes_cons a (b :: rest)
  have hb := Text.length_bytes_cons b rest
  omega

theorem length_percentDecode_le (t : Text) : (percentDecode t).length ≤ (Text.bytes t).length := by
  fun_induction percentDecode t with
  | case1 c a b rest byte hbyte ih =>
    have hescape := length_bytes_escape c a b rest
    rw [List.length_cons]
    omega
  | case2 c a b rest hnone ih =>
    rw [Text.bytes_cons c (a :: b :: rest), List.length_append, List.length_append]
    omega
  | case3 t => exact le_rfl

/-- Something is lost where three characters stand for a byte. -/
theorem noEscape_of_length_le (h : (Text.bytes t).length ≤ (percentDecode t).length) : NoEscape t := by
  fun_induction percentDecode t with
  | case1 c a b rest byte hbyte ih =>
    have hescape := length_bytes_escape c a b rest
    have hrest := length_percentDecode_le rest
    rw [List.length_cons] at h
    omega
  | case2 c a b rest hnone ih =>
    rw [Text.bytes_cons c (a :: b :: rest), List.length_append, List.length_append] at h
    exact noEscape_cons_iff.mpr ⟨hnone, ih (by omega)⟩
  | case3 t hshort =>
    intro c a b hwithin
    obtain ⟨d, e, f, rest, rfl⟩ : ∃ d e f rest, t = d :: e :: f :: rest := by
      have hlength : 3 ≤ t.length := hwithin.length_le
      match t, hlength with
      | d :: e :: f :: rest, _ => exact ⟨d, e, f, rest, rfl⟩
    exact absurd rfl (hshort d e f rest)

/-! ## Plain texts -/

/-- A plain URL is read as it is. -/
theorem read_of_isPlain (h : IsPlain url) : percentDecode (pathOf url) = Text.bytes url := by
  have hpath : pathOf url = url := by
    refine List.takeWhile_eq_self_iff.mpr fun c hc => ?_
    have hquery : c ≠ '?' := fun heq => h.no_query (heq ▸ hc)
    have hfragment : c ≠ '#' := fun heq => h.no_fragment (heq ▸ hc)
    simp [hquery, hfragment]
  rw [hpath, percentDecode_of_noEscape h.no_escape]

/-- Whatever is not plain gets shorter when it is read. -/
theorem isPlain_of_length_le (h : (Text.bytes url).length ≤ (percentDecode (pathOf url)).length) : IsPlain url := by
  have hsplit : pathOf url ++ url.dropWhile (fun c => c != '?' && c != '#') = url := List.takeWhile_append_dropWhile
  have hdecode := length_percentDecode_le (pathOf url)
  have hpath : pathOf url = url := by
    cases hrest : url.dropWhile (fun c => c != '?' && c != '#') with
    | nil => rwa [hrest, List.append_nil] at hsplit
    | cons c rest =>
      rw [hrest] at hsplit
      have hcut := Text.length_bytes_cons c rest
      rw [← hsplit, Text.bytes_append, List.length_append, hsplit] at h
      omega
  have hkept : ∀ c ∈ url, (c != '?' && c != '#') = true := List.takeWhile_eq_self_iff.mp hpath
  rw [hpath] at h
  refine ⟨fun hmem => ?_, fun hmem => ?_, noEscape_of_length_le h⟩
  · exact absurd (hkept _ hmem) (by decide)
  · exact absurd (hkept _ hmem) (by decide)

theorem isPlain_iff_read : IsPlain url ↔ percentDecode (pathOf url) = Text.bytes url :=
  ⟨read_of_isPlain, fun h => isPlain_of_length_le (by rw [h])⟩

/-- A character that no escape contains. -/
structure Inert (c : Char) : Prop where
  ne_percent : c ≠ '%'
  no_digit : Text.hexValue? c = none
  ne_query : c ≠ '?'
  ne_fragment : c ≠ '#'

theorem inert_slash : Inert '/' := ⟨by decide, by decide, by decide, by decide⟩

theorem Inert.escapedByte? (hc : Inert c) {x y z : Char} (hmem : c ∈ [x, y, z]) : escapedByte? x y z = none := by
  unfold Url.escapedByte?
  split_ifs with hx
  · subst hx
    have hdigit : c = y ∨ c = z := by simpa [hc.ne_percent] using hmem
    rcases hdigit with rfl | rfl
    · simp [hc.no_digit]
    · simp [hc.no_digit]
  · rfl

theorem IsPlain.of_infix (h : IsPlain u) (hwithin : t <:+: u) : IsPlain t where
  no_query hmem := h.no_query (hwithin.subset hmem)
  no_fragment hmem := h.no_fragment (hwithin.subset hmem)
  no_escape c a b hescape := h.no_escape c a b (hescape.trans hwithin)

/-- A text is plain if both sides of a character are that no escape contains. -/
theorem isPlain_append_cons_iff (hc : Inert c) : IsPlain (t ++ c :: u) ↔ IsPlain t ∧ IsPlain u := by
  constructor
  · intro h
    exact ⟨h.of_infix (List.prefix_append t _).isInfix,
      h.of_infix ((List.suffix_cons c u).trans (List.suffix_append t _)).isInfix⟩
  · rintro ⟨ht, hu⟩
    refine ⟨?_, ?_, fun x y z hwithin => ?_⟩
    · simpa using ⟨ht.no_query, hc.ne_query.symm, hu.no_query⟩
    · simpa using ⟨ht.no_fragment, hc.ne_fragment.symm, hu.no_fragment⟩
    · by_cases hmem : c ∈ [x, y, z]
      · exact hc.escapedByte? hmem
      · obtain ⟨front, back, hsplit⟩ := hwithin
        rcases Text.append_cons_eq_append hmem (List.cons_ne_nil x _) hsplit.symm with ⟨b', rfl⟩ | ⟨a', -, rfl⟩
        · exact ht.no_escape x y z ⟨front, b', rfl⟩
        · exact hu.no_escape x y z ⟨a', back, rfl⟩

theorem isPlain_of_not_mem (hpercent : '%' ∉ t) (hquery : '?' ∉ t) (hfragment : '#' ∉ t) : IsPlain t where
  no_query := hquery
  no_fragment := hfragment
  no_escape c a b hwithin := by
    have hc : c ≠ '%' := fun hc => hpercent (hc ▸ hwithin.subset List.mem_cons_self)
    exact if_neg hc

/-! ## From a URL to a file -/

/-- Where a URL leads: it is read, the base path is taken off, and the rest is taken from the output directory. -/
def LeadsTo (url base : Text) (output file : FilePath) : Prop :=
  ∃ rest, percentDecode (pathOf url) = Text.bytes (base ++ '/' :: rest) ∧
    FilePath.same (FilePath.join output rest) file = true

theorem assetUrl_eq (hne : ns ≠ []) (hfile : parts file = parts output ++ ns.map .name) :
    Step.assetUrl file output = '/' :: ofNames ns := by
  obtain ⟨relative, hrelative, hparts⟩ := FilePath.parts_relativeTo? hne hfile
  rw [Step.assetUrl, hrelative, Option.getD_some, FilePath.toSlash_eq, hparts, FilePath.filterMap_name?_names]
  rfl

/-- A path of names behind the base path leads to the file of these names just when both are plain. -/
theorem leadsTo_iff (hnames : ∀ n ∈ ns, IsName n) (hfile : parts file = parts output ++ ns.map .name) (base : Text) :
    LeadsTo (base ++ '/' :: ofNames ns) base output file ↔ IsPlain (base ++ '/' :: ofNames ns) := by
  constructor
  · rintro ⟨rest, hread, hsame⟩
    have hparts : parts (FilePath.join output rest) = parts output ++ ns.map .name := by
      rw [← hfile]
      exact beq_iff_eq.mp hsame
    have hlonger : (base ++ '/' :: ofNames ns).Sublist (base ++ '/' :: rest) :=
      ((FilePath.ofNames_sublist_of_parts_join hparts).cons_cons '/').append_left base
    refine isPlain_of_length_le ?_
    rw [hread]
    exact Text.length_bytes_le hlonger
  · intro h
    refine ⟨ofNames ns, read_of_isPlain h, ?_⟩
    rw [FilePath.same, beq_iff_eq, FilePath.parts_join_of_names output (FilePath.parts_ofNames hnames), hfile]

end Url

end StaticSite
