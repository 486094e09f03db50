import Mathlib.Data.List.Infix
import StaticSite.Document.Markup
import StaticSite.Proofs.Text.Parts

/-!
# Markers of dotted names

While Markdown is read, the dots of component names are written as markers. Text is encoded so that each marker
stands in the name of a tag, decoding takes the encoding back, and what is decoded holds no marker. The attributes
of a tag are read from behind its name and hold none either.
-/
namespace StaticSite.Markup

variable {t u : Text} {c : Char}

/-- Text without a marker. -/
def Unmarked (t : Text) : Prop := ¬dotMarker <:+: t

instance : Decidable (Unmarked t) := inferInstanceAs (Decidable (¬_))

theorem Unmarked.of_infix (h : Unmarked u) (ht : t <:+: u) : Unmarked t := fun hmarker => h (hmarker.trans ht)

theorem unmarked_of_not_mem (h : '-' ∉ t) : Unmarked t := fun hmarker => h (hmarker.subset (by decide))

theorem unmarked_append_cons (hc : c ∉ dotMarker) : Unmarked (t ++ c :: u) ↔ Unmarked t ∧ Unmarked u := by
  refine ⟨fun h => ⟨h.of_infix ⟨[], c :: u, rfl⟩, h.of_infix ⟨t ++ [c], [], by simp⟩⟩, ?_⟩
  rintro ⟨ht, hu⟩ ⟨a, b, h⟩
  rcases Text.append_cons_eq_append hc (by decide) h.symm with ⟨b', rfl⟩ | ⟨a', -, rfl⟩
  · exact ht ⟨a, b', rfl⟩
  · exact hu ⟨a', b, rfl⟩

/-! ## Decoding -/

theorem decodeDots_marker_append (t : Text) : decodeDots (dotMarker ++ t) = '.' :: decodeDots t := by
  simp [decodeDots, Text.replace, dotMarker, Text.replaceFrom, Text.startsWith, Text.after?]

theorem decodeDots_cons (h : ¬dotMarker <+: c :: t) : decodeDots (c :: t) = c :: decodeDots t := by
  unfold decodeDots Text.replace
  rw [Text.replaceFrom, if_neg]
  rw [Bool.and_eq_true, Text.startsWith_iff]
  exact fun hmarker => h hmarker.2

/-- Decoding goes through a text marker by marker and character by character. -/
theorem decoding_induction {motive : Text → Prop} (nil : motive [])
    (marker : ∀ t, motive t → motive (dotMarker ++ t))
    (other : ∀ c t, ¬dotMarker <+: c :: t → motive t → motive (c :: t)) (t : Text) : motive t := by
  induction hlength : t.length using Nat.strong_induction_on generalizing t with
  | _ n ih =>
    subst hlength
    cases t with
    | nil => exact nil
    | cons c t =>
      by_cases hmarker : dotMarker <+: c :: t
      · obtain ⟨rest, hrest⟩ := hmarker
        rw [← hrest] at ih ⊢
        have hlt : rest.length < (dotMarker ++ rest).length := by
          rw [List.length_append]
          exact Nat.lt_add_of_pos_left (by decide)
        exact marker rest (ih _ hlt rest rfl)
      · exact other c t hmarker (ih _ (Nat.lt_succ_self _) t rfl)

/-- What stands at the front of decoded text stood there before, if it holds no dot. -/
theorem prefix_of_prefix_decodeDots {part : Text} (hdot : '.' ∉ part) (h : part <+: decodeDots t) : part <+: t := by
  induction t using decoding_induction generalizing part with
  | nil => exact h
  | marker t ih =>
    cases part with
    | nil => exact List.nil_prefix
    | cons d part =>
      rw [decodeDots_marker_append] at h
      obtain ⟨rfl, -⟩ := List.cons_prefix_cons.mp h
      exact absurd List.mem_cons_self hdot
  | other c t hmarker ih =>
    cases part with
    | nil => exact List.nil_prefix
    | cons d part =>
      rw [decodeDots_cons hmarker] at h
      obtain ⟨rfl, hrest⟩ := List.cons_prefix_cons.mp h
      exact List.cons_prefix_cons.mpr ⟨rfl, ih (fun hmem => hdot (List.mem_cons_of_mem _ hmem)) hrest⟩

/-- Decoded text holds no marker. -/
theorem unmarked_decodeDots (t : Text) : Unmarked (decodeDots t) := by
  induction t using decoding_induction with
  | nil => exact (by decide : Unmarked [])
  | marker t ih =>
    rw [decodeDots_marker_append]
    exact (unmarked_append_cons (t := []) (by decide)).mpr ⟨by decide, ih⟩
  | other c t hmarker ih =>
    intro h
    have hcons := decodeDots_cons hmarker
    rw [hcons] at h
    rcases List.infix_cons_iff.mp h with hfront | hrest
    · exact hmarker (prefix_of_prefix_decodeDots (by decide) (hcons ▸ hfront))
    · exact ih hrest

theorem decodeDots_of_unmarked (h : Unmarked t) : decodeDots t = t := by
  induction t with
  | nil => rfl
  | cons c t ih =>
    rw [decodeDots_cons fun hmarker => h hmarker.isInfix, ih (h.of_infix ⟨[c], [], by simp⟩)]

theorem decodeDots_append_of_not_mem (h : '-' ∉ t) (u : Text) : decodeDots (t ++ u) = t ++ decodeDots u := by
  induction t with
  | nil => rfl
  | cons c t ih =>
    have hfront : ¬dotMarker <+: c :: (t ++ u) := by
      intro hmarker
      obtain ⟨rfl, -⟩ := List.cons_prefix_cons.mp hmarker
      exact h List.mem_cons_self
    rw [List.cons_append, decodeDots_cons hfront, ih fun hmem => h (List.mem_cons_of_mem _ hmem), List.cons_append]

/-- A character that is not of the marker divides what is decoded. -/
theorem decodeDots_append_cons (hc : c ∉ dotMarker) (t u : Text) :
    decodeDots (t ++ c :: u) = decodeDots t ++ c :: decodeDots u := by
  induction t using decoding_induction with
  | nil =>
    refine decodeDots_cons fun hmarker => ?_
    obtain ⟨rfl, -⟩ := List.cons_prefix_cons.mp hmarker
    exact hc List.mem_cons_self
  | marker t ih => rw [List.append_assoc, decodeDots_marker_append, decodeDots_marker_append, ih, List.cons_append]
  | other d t hmarker ih =>
    have hfront : ¬dotMarker <+: d :: (t ++ c :: u) :=
      fun h => hmarker ((Text.prefix_append_cons_iff (t := d :: t) hc (by decide)).mp h)
    rw [List.cons_append, decodeDots_cons hfront, decodeDots_cons hmarker, ih, List.cons_append]

/-! ## Encoding -/

theorem isTagNameChar_of_isAsciiAlphanumeric (h : Text.isAsciiAlphanumeric c = true) : isTagNameChar c = true := by
  have hascii : c.val < 0x80 := by
    simp only [Text.isAsciiAlphanumeric, Text.isAsciiLetter, Text.isAsciiDigit, Bool.or_eq_true, Bool.and_eq_true,
      decide_eq_true_eq] at h
    have hle : c.val.toNat ≤ 'z'.val.toNat := by
      rcases h with (⟨-, h⟩ | ⟨-, h⟩) | ⟨-, h⟩
      · exact h
      · exact Nat.le_trans h (by decide)
      · exact Nat.le_trans h (by decide)
    exact Nat.lt_of_le_of_lt hle (by decide)
  simp [isTagNameChar, Text.isWord, hascii, h]

theorem takeWhile_alphanumeric (t : Text) :
    (t.takeWhile Text.isAsciiAlphanumeric).all isTagNameChar = true ∧ '-' ∉ t.takeWhile Text.isAsciiAlphanumeric := by
  refine ⟨List.all_eq_true.mpr fun c hc => ?_, fun hmem => ?_⟩
  · exact isTagNameChar_of_isAsciiAlphanumeric (List.mem_takeWhile_imp hc)
  · exact absurd (List.mem_takeWhile_imp hmem) (by decide)

/-- The encoded parts of a name are characters of a tag name, and decoding gives back what they encode. -/
theorem encodeParts_spec (fuel : Nat) (t : Text) :
    (encodeParts fuel t).1.all isTagNameChar = true ∧
      ∃ plain, t = plain ++ (encodeParts fuel t).2 ∧
        ∀ u, decodeDots ((encodeParts fuel t).1 ++ u) = plain ++ decodeDots u := by
  fun_induction encodeParts fuel t with
  | case1 t => exact ⟨rfl, [], rfl, fun u => rfl⟩
  | case2 fuel t => exact ⟨rfl, [], rfl, fun u => rfl⟩
  | case3 fuel t part _ more rest hmore ih =>
    obtain ⟨hname, plain, hplain, hdecode⟩ := ih
    rw [hmore] at hname hplain hdecode
    obtain ⟨hpart, hmark⟩ := takeWhile_alphanumeric t
    refine ⟨?_, '.' :: part ++ plain, ?_, fun u => ?_⟩
    · rw [List.all_append, List.all_append, hname, hpart]
      decide +kernel
    · rw [List.append_assoc, ← hplain, List.cons_append, Text.takeWhile_append_drop]
    · rw [List.append_assoc, List.append_assoc, decodeDots_marker_append, decodeDots_append_of_not_mem hmark,
        hdecode, List.cons_append, List.cons_append, List.append_assoc]
  | case4 fuel t => exact ⟨rfl, [], rfl, fun u => rfl⟩

/-- Encoding touches the name alone, which may follow a slash. -/
theorem encodeName_eq (t : Text) :
    ∃ slash body plain rest : Text, (slash = [] ∨ slash = ['/']) ∧ t = slash ++ (plain ++ rest) ∧
      encodeName t = slash ++ (body ++ rest) ∧ body.all isTagNameChar = true ∧
        ∀ u, decodeDots (body ++ u) = plain ++ decodeDots u := by
  unfold encodeName
  split
  rename_i slash t' hsplit
  obtain ⟨hslash, ht⟩ : (slash = [] ∨ slash = ['/']) ∧ t = slash ++ t' := by
    split at hsplit <;> obtain ⟨rfl, rfl⟩ := Prod.mk.inj hsplit
    · exact ⟨.inr rfl, rfl⟩
    · exact ⟨.inl rfl, rfl⟩
  cases t' with
  | nil => exact ⟨slash, [], [], [], hslash, ht, (List.append_nil _).symm, rfl, fun u => rfl⟩
  | cons c t' =>
    by_cases hupper : Text.isAsciiUpper c = true
    · let word := t'.takeWhile Text.isAsciiAlphanumeric
      obtain ⟨⟨parts, rest⟩, hfound⟩ : ∃ found, encodeParts t'.length (t'.drop word.length) = found := ⟨_, rfl⟩
      obtain ⟨hparts, plain, hplain, hdecode⟩ := encodeParts_spec t'.length (t'.drop word.length)
      rw [hfound] at hparts hplain hdecode
      have hc : Text.isAsciiAlphanumeric c = true := by
        simp only [Text.isAsciiUpper, Bool.and_eq_true] at hupper
        simp [Text.isAsciiAlphanumeric, Text.isAsciiLetter, hupper]
      obtain ⟨hname, hmark⟩ := takeWhile_alphanumeric (c :: t')
      rw [List.takeWhile_cons_of_pos hc] at hname hmark
      refine ⟨slash, c :: word ++ parts, c :: word ++ plain, rest, hslash, ?_, ?_, ?_, fun u => ?_⟩
      · rw [ht, List.append_assoc, ← hplain, List.cons_append, Text.takeWhile_append_drop]
      · refine (if_pos hupper).trans ?_
        change slash ++ c :: word ++ (encodeParts t'.length (t'.drop word.length)).1 ++
          (encodeParts t'.length (t'.drop word.length)).2 = _
        rw [hfound]
        simp only [List.append_assoc, List.cons_append]
      · rw [List.all_append, hname, hparts, Bool.and_self]
      · rw [List.append_assoc, decodeDots_append_of_not_mem hmark, hdecode, List.append_assoc]
    · exact ⟨slash, [], [], c :: t', hslash, ht, if_neg hupper, rfl, fun u => rfl⟩

/-- What stands between an opening bracket and a place in the name after it. -/
def InName (t : Text) : Prop := ∃ name : Text, name.all isTagNameChar = true ∧ (t = name ∨ t = '/' :: name)

/-- An encoded name: the markers that stand in it are part of the name, and decoding gives back the name. -/
theorem encodeName_spec (h : Unmarked t) :
    (∀ u v, encodeName t = u ++ dotMarker ++ v → InName u) ∧ decodeDots (encodeName t) = t := by
  obtain ⟨slash, body, plain, rest, hslash, ht, hencoded, hbody, hdecode⟩ := encodeName_eq t
  have hrest : Unmarked rest := h.of_infix ⟨slash ++ plain, [], by simp [ht]⟩
  have hbefore (u v : Text) (hu : body ++ rest = u ++ dotMarker ++ v) : u.all isTagNameChar = true := by
    rw [List.append_assoc, List.append_eq_append_iff] at hu
    rcases hu with ⟨u', -, hu⟩ | ⟨u', rfl, -⟩
    · exact absurd ⟨u', v, by rw [hu, List.append_assoc]⟩ hrest
    · rw [List.all_append, Bool.and_eq_true] at hbody
      exact hbody.1
  refine ⟨fun u v hu => ?_, ?_⟩
  · rw [hencoded] at hu
    rcases hslash with rfl | rfl
    · exact ⟨u, hbefore u v hu, .inl rfl⟩
    · cases u with
      | nil => cases hu
      | cons d u =>
        obtain ⟨hd, hu⟩ := List.cons.inj hu
        exact ⟨u, hbefore u v hu, .inr (by rw [← hd])⟩
  · have hmark : '-' ∉ slash := by rcases hslash with rfl | rfl <;> decide
    rw [hencoded, decodeDots_append_of_not_mem hmark, hdecode, decodeDots_of_unmarked hrest, ht]

/-! ## Text whose markers stand in tag names -/

/-- Every marker of a text stands in the name of a tag. -/
def MarkedInTags (t : Text) : Prop :=
  ∀ u v, t = u ++ dotMarker ++ v → ∃ before name, u = before ++ '<' :: name ∧ InName name

/-- A character that ends the name of a tag. -/
structure EndsName (c : Char) : Prop where
  no_name : isTagNameChar c = false
  ne_bracket : c ≠ '<'
  ne_slash : c ≠ '/'

theorem not_mem_of_all {p : Char → Bool} (hall : t.all p = true) (hc : p c = false) : c ∉ t := by
  intro hmem
  exact Bool.false_ne_true (hc.symm.trans (List.all_eq_true.mp hall c hmem))

theorem EndsName.not_mem_marker (hc : EndsName c) : c ∉ dotMarker := not_mem_of_all (by decide +kernel) hc.no_name

theorem EndsName.not_mem_inName (hc : EndsName c) {name : Text} (hname : InName name) : c ∉ name := by
  obtain ⟨name, hall, rfl | rfl⟩ := hname
  · exact not_mem_of_all hall hc.no_name
  · exact List.not_mem_cons_of_ne_of_not_mem hc.ne_slash (not_mem_of_all hall hc.no_name)

theorem InName.no_bracket {name : Text} (hname : InName name) : '<' ∉ name := by
  have hbracket : isTagNameChar '<' = false := by decide +kernel
  obtain ⟨name, hall, rfl | rfl⟩ := hname
  · exact not_mem_of_all hall hbracket
  · exact List.not_mem_cons_of_ne_of_not_mem (by decide) (not_mem_of_all hall hbracket)

/-- Where the bracket stands that a name follows. -/
theorem append_eq_append_bracket {a b before name : Text} (h : a ++ b = before ++ '<' :: name) :
    (∃ before', b = before' ++ '<' :: name) ∨ ∃ a', a = before ++ '<' :: a' ∧ name = a' ++ b := by
  rcases List.append_eq_append_iff.mp h with ⟨before', -, hb⟩ | ⟨a', rfl, hname⟩
  · exact .inl ⟨before', hb⟩
  · cases a' with
    | nil => exact .inl ⟨[], hname.symm⟩
    | cons d a' =>
      obtain ⟨rfl, hrest⟩ := List.cons.inj hname
      exact .inr ⟨a', rfl, hrest⟩

namespace MarkedInTags

theorem of_unmarked (h : Unmarked t) : MarkedInTags t := by
  rintro u v rfl
  exact absurd ⟨u, v, rfl⟩ h

theorem of_initial (h : MarkedInTags u) (ht : t <+: u) : MarkedInTags t := by
  obtain ⟨rest, rfl⟩ := ht
  rintro a b rfl
  exact h a (b ++ rest) (by simp)

/-- Text from an opening bracket on. -/
theorem of_bracket (h : MarkedInTags (t ++ '<' :: u)) : MarkedInTags ('<' :: u) := by
  intro a b hu
  obtain ⟨before, name, ha, hname⟩ := h (t ++ a) b (by rw [hu]; simp)
  rcases append_eq_append_bracket ha with ⟨before', ha⟩ | ⟨t', -, ha⟩
  · exact ⟨before', name, ha, hname⟩
  · cases a with
    | nil => cases hu
    | cons d a =>
      obtain ⟨rfl, -⟩ := List.cons.inj hu
      exact absurd (ha ▸ List.mem_append_right _ List.mem_cons_self) hname.no_bracket

/-- Text that follows text without brackets. -/
theorem of_append (h : MarkedInTags (t ++ u)) (ht : '<' ∉ t) : MarkedInTags u := by
  rintro a b rfl
  obtain ⟨before, name, ha, hname⟩ := h (t ++ a) b (by simp)
  rcases append_eq_append_bracket ha with ⟨before', ha⟩ | ⟨t', rfl, -⟩
  · exact ⟨before', name, ha, hname⟩
  · exact absurd (by simp) ht

/-- A character that ends names divides the text. -/
theorem append_cons_iff (hc : EndsName c) : MarkedInTags (t ++ c :: u) ↔ MarkedInTags t ∧ MarkedInTags u := by
  constructor
  · refine fun h => ⟨h.of_initial (List.prefix_append _ _), ?_⟩
    rintro a b rfl
    obtain ⟨before, name, ha, hname⟩ := h (t ++ c :: a) b (by simp)
    rcases append_eq_append_bracket ha with ⟨before', ha⟩ | ⟨t', -, rfl⟩
    · cases before' with
      | nil => exact absurd (List.cons.inj ha).1 hc.ne_bracket
      | cons d before' => exact ⟨before', name, (List.cons.inj ha).2, hname⟩
    · exact absurd (List.mem_append_right _ List.mem_cons_self) (hc.not_mem_inName hname)
  · rintro ⟨ht, hu⟩ a b h
    rcases Text.append_cons_eq_append hc.not_mem_marker (by decide) h with ⟨b', rfl⟩ | ⟨a', rfl, rfl⟩
    · exact ht a b' rfl
    · obtain ⟨before, name, rfl, hname⟩ := hu a' b rfl
      exact ⟨t ++ c :: before, name, by simp, hname⟩

/-- A bracket may follow, and after it text whose markers stand in a name. -/
theorem append_bracket (ht : MarkedInTags t) (hu : ∀ a b, u = a ++ dotMarker ++ b → InName a) :
    MarkedInTags (t ++ '<' :: u) := by
  intro a b h
  rcases Text.append_cons_eq_append (by decide) (by decide) h with ⟨b', rfl⟩ | ⟨a', rfl, rfl⟩
  · exact ht a b' rfl
  · exact ⟨t, a', rfl, hu a' b rfl⟩

/-- In the text between two brackets, markers stand in the name that follows the first of them. -/
theorem inName_of_mem_tail (h : MarkedInTags t) {piece : Text} (hpiece : piece ∈ (Text.splitOn '<' t).tail) {a b : Text}
    (hmarker : piece = a ++ dotMarker ++ b) : InName a := by
  have hno : '<' ∉ piece := fun hmem => by
    simpa using Text.not_of_mem_splitBy (List.mem_of_mem_tail hpiece) '<' hmem
  obtain ⟨before', after, ht⟩ := Text.exists_of_mem_tail_splitOn hpiece
  obtain ⟨before, name, ha, hname⟩ := h (before' ++ '<' :: a) (b ++ after) (by rw [ht, hmarker]; simp)
  rcases append_eq_append_bracket ha with ⟨before'', ha⟩ | ⟨t', -, ha⟩
  · cases before'' with
    | nil =>
      obtain ⟨-, rfl⟩ := List.cons.inj ha
      exact hname
    | cons d before'' =>
      obtain ⟨-, rfl⟩ := List.cons.inj ha
      exact absurd (by rw [hmarker]; simp) hno
  · exact absurd (ha ▸ List.mem_append_right _ List.mem_cons_self) hname.no_bracket

end MarkedInTags

theorem join_cons_cons (t u : Text) (ts : List Text) :
    Text.join "<" (t :: u :: ts) = Text.join "<" ((t ++ '<' :: u) :: ts) := by
  cases ts <;> simp [Text.join]

theorem decodeDots_join (ts : List Text) : decodeDots (Text.join "<" ts) = Text.join "<" (ts.map decodeDots) := by
  fun_induction Text.join "<" ts with
  | case1 => rfl
  | case2 t => rfl
  | case3 t u ts ih =>
    rw [List.append_assoc, List.map_cons, List.map_cons, Text.join, List.append_assoc, ← List.map_cons, ← ih]
    exact decodeDots_append_cons (by decide) _ _

/-- What is encoded are the parts of a text behind its brackets. -/
theorem exists_encodeDots_eq (h : Unmarked t) :
    ∃ first parts, (∀ p ∈ first :: parts, Unmarked p) ∧ t = Text.join "<" (first :: parts) ∧
      encodeDots t = Text.join "<" (first :: parts.map encodeName) := by
  obtain ⟨first, parts, hsplit⟩ : ∃ first parts, Text.splitOn '<' t = first :: parts :=
    List.exists_cons_of_ne_nil (Text.splitBy_ne_nil _ _)
  have hjoin : t = Text.join "<" (Text.splitOn '<' t) := (Text.join_splitOn '<' t).symm
  refine ⟨first, parts, fun p hp => h.of_infix ?_, hsplit ▸ hjoin, by rw [encodeDots, hsplit]⟩
  rw [hjoin, hsplit]
  exact Text.infix_join_of_mem _ hp

/-- Text without markers is encoded so that every marker stands in the name of a tag. -/
theorem markedInTags_encodeDots (h : Unmarked t) : MarkedInTags (encodeDots t) := by
  obtain ⟨first, parts, hunmarked, -, hencoded⟩ := exists_encodeDots_eq h
  rw [hencoded]
  have hfirst := MarkedInTags.of_unmarked (hunmarked first List.mem_cons_self)
  have hparts := fun p hp => hunmarked p (List.mem_cons_of_mem first hp)
  clear hunmarked hencoded
  induction parts generalizing first with
  | nil => exact hfirst
  | cons p parts ih =>
    have hp := (encodeName_spec (hparts p List.mem_cons_self)).1
    rw [List.map_cons, join_cons_cons]
    exact ih _ (hfirst.append_bracket hp) fun q hq => hparts q (List.mem_cons_of_mem _ hq)

/-- Decoding takes the encoding back. -/
theorem decodeDots_encodeDots (h : Unmarked t) : decodeDots (encodeDots t) = t := by
  obtain ⟨first, parts, hunmarked, ht, hencoded⟩ := exists_encodeDots_eq h
  have hparts : parts.map (decodeDots ∘ encodeName) = parts.map id :=
    List.map_congr_left fun p hp => (encodeName_spec (hunmarked p (List.mem_cons_of_mem first hp))).2
  rw [hencoded, decodeDots_join, List.map_cons, List.map_map, hparts, List.map_id,
    decodeDots_of_unmarked (hunmarked first List.mem_cons_self), ← ht]

end StaticSite.Markup
