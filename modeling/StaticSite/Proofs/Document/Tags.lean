import StaticSite.Proofs.Document.Markers
import StaticSite.Proofs.Markdown.Suffixes

/-!
# Tags in marked text

Where markers stand in the names of tags alone, the attributes of the tags hold none: they are read from behind the
name, and no other tag can begin in them.
-/
namespace StaticSite

def AttributeValue.Unmarked : AttributeValue → Prop
  | string value => Markup.Unmarked value
  | expression source => Markup.Unmarked source
  | flag => True

structure Attribute.Unmarked (a : Attribute) : Prop where
  name : Markup.Unmarked a.name
  value : a.value.Unmarked

namespace Markup

variable {t rest : Text}

theorem exists_of_upTo? {c : Char} {inside : Text} (h : upTo? c t = some (inside, rest)) :
    ∃ d, t = inside ++ d :: rest := by
  unfold upTo? at h
  dsimp only at h
  split at h
  · cases h
  · rename_i d rest' hdrop
    obtain ⟨rfl, rfl⟩ := Prod.mk.inj (Option.some.inj h)
    exact ⟨d, by rw [← hdrop, Text.takeWhile_append_drop]⟩

theorem bareValue?_spec {value : AttributeValue} (h : bareValue? t = some (value, rest)) :
    (Unmarked t → value.Unmarked) ∧ rest <:+ t := by
  unfold bareValue? at h
  dsimp only at h
  split_ifs at h
  obtain ⟨rfl, rfl⟩ := Prod.mk.inj (Option.some.inj h)
  exact ⟨fun ht => ht.of_infix (List.takeWhile_prefix _).isInfix, List.drop_suffix ..⟩

theorem attributeValue?_spec {value : AttributeValue} (h : attributeValue? t = some (value, rest)) :
    (Unmarked t → value.Unmarked) ∧ rest <:+ t := by
  have hquoted {quote : Char} {t : Text} {value : AttributeValue}
      (h : (upTo? quote t).map (fun found => (AttributeValue.string found.1, found.2)) = some (value, rest)) :
      (Unmarked (quote :: t) → value.Unmarked) ∧ rest <:+ quote :: t := by
    obtain ⟨⟨inside, rest'⟩, hfound, hpair⟩ := Option.map_eq_some_iff.mp h
    obtain ⟨rfl, rfl⟩ := Prod.mk.inj hpair
    obtain ⟨d, rfl⟩ := exists_of_upTo? hfound
    exact ⟨fun ht => ht.of_infix ⟨[quote], d :: rest', by simp⟩, ⟨quote :: inside ++ [d], by simp⟩⟩
  unfold attributeValue? at h
  split at h
  · exact hquoted h
  · exact hquoted h
  · split at h
    · rename_i inside rest' hfound
      obtain ⟨rfl, rfl⟩ := Prod.mk.inj (Option.some.inj h)
      obtain ⟨d, rfl⟩ := exists_of_upTo? hfound
      refine ⟨fun ht => ht.of_infix ((Text.trim_infix inside).trans ?_), ⟨'\x7b' :: inside ++ [d], by simp⟩⟩
      exact ⟨['\x7b'], d :: rest', by simp⟩
    · exact bareValue?_spec h
  · exact bareValue?_spec h

/-- What is read after a name stands in the text, and what is left ends the text. -/
theorem valueAfterName_spec (t : Text) :
    (Unmarked t → (valueAfterName t).1.Unmarked) ∧ (valueAfterName t).2 <:+ t := by
  unfold valueAfterName
  split
  · rename_i value hequals
    have htrim : Text.trimStart t <:+ t := List.dropWhile_suffix _
    have hvalue : value <:+ t := Markdown.suffix_of_cons (hequals ▸ htrim)
    have htrimmed : Text.trimStart value <:+ t := (List.dropWhile_suffix _).trans hvalue
    split
    · rename_i found hfound
      obtain ⟨hunmarked, hrest⟩ := attributeValue?_spec hfound
      exact ⟨fun ht => hunmarked (ht.of_infix htrimmed.isInfix), hrest.trans htrimmed⟩
    · exact ⟨fun _ => trivial, List.suffix_refl _⟩
  · exact ⟨fun _ => trivial, List.suffix_refl _⟩

theorem unmarked_attributes (ht : Unmarked t) : ∀ a ∈ attributes t, a.Unmarked := by
  have hfuel (fuel : Nat) (t : Text) (ht : Unmarked t) : ∀ a ∈ attributesFrom fuel t, a.Unmarked := by
    fun_induction attributesFrom fuel t with
    | case1 => exact nofun
    | case2 => exact nofun
    | case3 fuel c t hc name value rest hvalue ih =>
      have hafter : t.dropWhile isNameChar <:+ c :: t := (List.dropWhile_suffix _).trans (List.suffix_cons ..)
      obtain ⟨hunmarked, hrest⟩ := valueAfterName_spec (t.dropWhile isNameChar)
      rw [hvalue] at hunmarked hrest
      have hname : name <+: c :: t := List.cons_prefix_cons.mpr ⟨rfl, List.takeWhile_prefix _⟩
      have hvalue : value.Unmarked := hunmarked (ht.of_infix hafter.isInfix)
      refine List.forall_mem_cons.mpr ⟨⟨ht.of_infix hname.isInfix, hvalue⟩, ih (ht.of_infix ?_)⟩
      exact (hrest.trans hafter).isInfix
    | case4 fuel c t hc ih => exact ih (ht.of_infix (List.suffix_cons ..).isInfix)
  exact hfuel t.length t ht

/-- What stands behind the name of a tag. -/
theorem unmarked_dropWhile {slash : Text} {c : Char} (hslash : slash = [] ∨ slash = ['/'])
    (hc : isTagNameChar c = true) (hpart : ∀ a b, slash ++ c :: t = a ++ dotMarker ++ b → InName a) :
    Unmarked ((c :: t).dropWhile isTagNameChar) := by
  rintro ⟨a, b, hmarker⟩
  have hhead := List.head?_dropWhile_not isTagNameChar (c :: t)
  have hslashChar : isTagNameChar '/' = false := by decide +kernel
  have hwhole : slash ++ c :: t = slash ++ (c :: t).takeWhile isTagNameChar ++ a ++ dotMarker ++ b := by
    rw [List.append_assoc, List.append_assoc, List.append_assoc, ← List.append_assoc a, hmarker,
      List.takeWhile_append_dropWhile]
  obtain ⟨name, hall, heq⟩ := hpart _ _ hwhole
  have hname : (c :: t).takeWhile isTagNameChar ++ a = name := by
    rw [List.append_assoc] at heq
    rcases hslash with rfl | rfl <;> rcases heq with heq | heq
    · exact heq
    · -- without a slash the name starts with a character of names
      rw [List.takeWhile_cons_of_pos hc, List.nil_append] at heq
      obtain ⟨rfl, -⟩ := List.cons.inj heq
      exact absurd hc (by simp [hslashChar])
    · exact absurd (heq ▸ List.mem_cons_self) (not_mem_of_all hall hslashChar)
    · exact (List.cons.inj heq).2
  rw [← hmarker] at hhead
  cases a with
  | nil =>
    have hmark : isTagNameChar '-' = false := hhead
    exact absurd hmark (by decide +kernel)
  | cons d a =>
    have hd : isTagNameChar d = true := List.all_eq_true.mp hall d (by rw [← hname]; simp)
    exact absurd hd (by simpa using hhead)

/-- The inside of a tag begins behind its name, and markers stand in the name alone. -/
theorem componentTag?_spec {part : Text} {tag : Tag} (hpart : ∀ a b, part = a ++ dotMarker ++ b → InName a)
    (h : componentTag? part = some (tag, rest)) : Unmarked tag.name ∧ Unmarked tag.attributes := by
  unfold componentTag? at h
  split at h
  rename_i closing t hsplit
  obtain ⟨slash, hslash, rfl⟩ : ∃ slash : Text, (slash = [] ∨ slash = ['/']) ∧ part = slash ++ t := by
    split at hsplit <;> obtain ⟨-, rfl⟩ := Prod.mk.inj hsplit
    · exact ⟨['/'], .inr rfl, rfl⟩
    · exact ⟨[], .inl rfl, rfl⟩
  split at h
  · cases h
  · rename_i c t
    split_ifs at h with hc
    have hafter : Unmarked ((c :: t).drop ((c :: t).takeWhile isTagNameChar).length) := by
      rw [Text.drop_takeWhile]
      refine unmarked_dropWhile hslash (isTagNameChar_of_isAsciiAlphanumeric ?_) hpart
      rw [Text.isAsciiAlphanumeric, hc, Bool.true_or]
    dsimp only at h
    split at h
    · cases h
    · rename_i inside rest' hfound
      obtain ⟨d, hinside⟩ := exists_of_upTo? hfound
      have hunmarked : Unmarked inside := hafter.of_infix ⟨[], d :: rest', by simp [hinside]⟩
      split_ifs at h
      split at h
      · rename_i inside' hslash
        obtain ⟨rfl, rfl⟩ := Prod.mk.inj (Option.some.inj h)
        exact ⟨unmarked_decodeDots _, hunmarked.of_infix (Text.prefix_of_before? hslash).isInfix⟩
      · obtain ⟨rfl, rfl⟩ := Prod.mk.inj (Option.some.inj h)
        exact ⟨unmarked_decodeDots _, hunmarked⟩

/-- The tags in a chunk of markup hold no marker. -/
theorem unmarked_of_mem_pieces (ht : MarkedInTags t) {tag : Tag} {whole : Text} (h : .tag tag whole ∈ pieces t) :
    Unmarked tag.name ∧ Unmarked tag.attributes := by
  have hparts (raw : Text) (parts : List Text) (h : .tag tag whole ∈ piecesFrom raw parts) :
      ∃ part ∈ parts, ∃ rest, componentTag? part = some (tag, rest) := by
    fun_induction piecesFrom raw parts with
    | case1 raw => simp at h
    | case2 raw part parts tag' rest htag ih =>
      simp only [List.mem_cons, reduceCtorEq, false_or] at h
      rcases h with h | h
      · obtain ⟨rfl, -⟩ := Piece.tag.inj h
        exact ⟨part, List.mem_cons_self, rest, htag⟩
      · obtain ⟨part', hmem, hfound⟩ := ih h
        exact ⟨part', List.mem_cons_of_mem _ hmem, hfound⟩
    | case3 raw part parts htag ih =>
      obtain ⟨part', hmem, hfound⟩ := ih h
      exact ⟨part', List.mem_cons_of_mem _ hmem, hfound⟩
  unfold pieces at h
  split at h
  · cases h
  · rename_i first parts hsplit
    obtain ⟨part, hpart, rest, htag⟩ := hparts first parts h
    refine componentTag?_spec (fun a b hmarker => ht.inName_of_mem_tail ?_ hmarker) htag
    rw [hsplit]
    exact hpart

end Markup

end StaticSite
