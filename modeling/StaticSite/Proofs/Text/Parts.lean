import Mathlib.Data.List.Infix
import StaticSite.Proofs.FilePath.Parts

/-!
# Parts of texts

Where a part stands in a text: at its start, between two cuts, at its first occurrence, or in one of its lines.
-/
namespace StaticSite.Text

variable {part t u : Text} {c : Char}

/-- Where a part stands in a text that a character outside the part divides. -/
theorem append_cons_eq_append {a b : Text} (hc : c ∉ part) (hne : part ≠ []) (h : t ++ c :: u = a ++ part ++ b) :
    (∃ b', t = a ++ part ++ b') ∨ ∃ a', a = t ++ c :: a' ∧ u = a' ++ part ++ b := by
  rw [List.append_assoc, List.append_eq_append_iff] at h
  rcases h with ⟨a', rfl, hrest⟩ | ⟨t', rfl, hrest⟩
  · cases a' with
    | nil =>
      cases part with
      | nil => exact absurd rfl hne
      | cons d part => exact absurd (List.mem_cons.mpr (.inl (List.cons.inj hrest).1)) hc
    | cons d a' =>
      obtain ⟨rfl, rfl⟩ := List.cons.inj hrest
      exact .inr ⟨a', rfl, (List.append_assoc ..).symm⟩
  · rcases List.append_eq_append_iff.mp hrest with ⟨b', rfl, -⟩ | ⟨part', rfl, hb⟩
    · exact .inl ⟨b', (List.append_assoc ..).symm⟩
    · cases part' with
      | nil => exact .inl ⟨[], by simp⟩
      | cons d part' =>
        obtain ⟨rfl, -⟩ := List.cons.inj hb
        exact absurd (by simp) hc

theorem startsWith_iff : startsWith part t = true ↔ part <+: t := by
  rw [startsWith, Option.isSome_iff_exists]
  constructor
  · rintro ⟨rest, h⟩
    exact ⟨rest, (eq_append_of_after? h).symm⟩
  · rintro ⟨rest, rfl⟩
    exact ⟨rest, after?_append _ _⟩

theorem prefix_append_cons_iff (hc : c ∉ part) (hne : part ≠ []) : part <+: t ++ c :: u ↔ part <+: t := by
  refine ⟨fun ⟨b, h⟩ => ?_, fun h => h.trans (List.prefix_append _ _)⟩
  rcases append_cons_eq_append (a := []) hc hne h.symm with ⟨b', rfl⟩ | ⟨a', ha, -⟩
  · exact ⟨b', rfl⟩
  · simp at ha

theorem takeWhile_append_drop (p : Char → Bool) (t : Text) : t.takeWhile p ++ t.drop (t.takeWhile p).length = t :=
  List.prefix_iff_eq_append.mp (List.takeWhile_prefix p)

theorem drop_takeWhile (p : Char → Bool) (t : Text) : t.drop (t.takeWhile p).length = t.dropWhile p :=
  List.append_cancel_left ((takeWhile_append_drop p t).trans List.takeWhile_append_dropWhile.symm)

theorem prefix_of_before? {ending : Text} (h : before? ending t = some u) : u <+: t := by
  obtain ⟨rest, hafter, rfl⟩ := Option.map_eq_some_iff.mp h
  have hreverse : t = rest.reverse ++ ending := by
    rw [← List.reverse_reverse t, eq_append_of_after? hafter, List.reverse_append, List.reverse_reverse]
  exact ⟨ending, hreverse.symm⟩

theorem prefix_dropEndWhile (p : Char → Bool) (t : Text) : dropEndWhile p t <+: t := by
  have hsuffix := List.reverse_prefix.mpr (List.dropWhile_suffix (l := t.reverse) p)
  rwa [List.reverse_reverse] at hsuffix

/-- What is dropped at the ends of a text stands around what is left. -/
theorem exists_dropped_around (p : Char → Bool) (t : Text) :
    ∃ front back, t = front ++ dropEndWhile p (t.dropWhile p) ++ back ∧ ∀ c ∈ front ++ back, p c = true := by
  have hend (u : Text) : dropEndWhile p u ++ (u.reverse.takeWhile p).reverse = u := by
    rw [dropEndWhile, ← List.reverse_append, List.takeWhile_append_dropWhile, List.reverse_reverse]
  refine ⟨t.takeWhile p, ((t.dropWhile p).reverse.takeWhile p).reverse, ?_, fun c hc => ?_⟩
  · rw [List.append_assoc, hend, List.takeWhile_append_dropWhile]
  · rcases List.mem_append.mp hc with hc | hc
    · exact List.mem_takeWhile_imp hc
    · exact List.mem_takeWhile_imp (List.mem_reverse.mp hc)

theorem getLast?_dropEndWhile {p : Char → Bool} (h : (dropEndWhile p t).getLast? = some c) : p c = false := by
  rw [dropEndWhile, List.getLast?_reverse] at h
  have hhead := List.head?_dropWhile_not p t.reverse
  rw [h] at hhead
  exact hhead

theorem trim_infix (t : Text) : trim t <:+: t :=
  (prefix_dropEndWhile ..).isInfix.trans (List.dropWhile_suffix _).isInfix

theorem join_splitOn (c : Char) (t : Text) : join [c] (splitOn c t) = t := by
  rw [join_eq, splitOn_eq, List.intercalate_splitOn]

/-- Between separators, fewer texts make less text. -/
theorem join_sublist {separator : Text} {ts us : List Text} (h : ts.Sublist us) :
    (join separator ts).Sublist (join separator us) := by
  have hcons (t : Text) (us : List Text) : (join separator us).Sublist (join separator (t :: us)) := by
    cases us with
    | nil => exact List.nil_sublist _
    | cons u us => exact List.sublist_append_right _ _
  induction h with
  | slnil => exact List.Sublist.refl _
  | cons u h ih => exact ih.trans (hcons u _)
  | @cons_cons ts us t h ih =>
    cases ts with
    | nil =>
      cases us with
      | nil => exact List.Sublist.refl _
      | cons u us => exact (List.sublist_append_left t separator).trans (List.sublist_append_left _ _)
    | cons t' ts =>
      obtain ⟨u, us', rfl⟩ : ∃ u us', us = u :: us' := List.exists_cons_of_ne_nil fun hnil => by simp [hnil] at h
      exact ih.append_left (t ++ separator)

theorem infix_join_of_mem (separator : Text) {ts : List Text} (h : t ∈ ts) : t <:+: join separator ts := by
  fun_induction join separator ts with
  | case1 => cases h
  | case2 u => rw [List.mem_singleton.mp h]
  | case3 u v ts ih =>
    rcases List.mem_cons.mp h with rfl | h
    · exact ⟨[], separator ++ join separator (v :: ts), by simp⟩
    · exact (ih h).trans (List.suffix_append _ _).isInfix

/-- A line is a text between newlines, perhaps without its end. -/
theorem exists_of_mem_lines {line : Text} (h : line ∈ lines t) : ∃ piece ∈ splitOn '\n' t, line <+: piece := by
  have hended (hmem : line ∈ (splitOn '\n' t).dropLast.map fun l => (before? ['\r'] l).getD l) :
      ∃ piece ∈ splitOn '\n' t, line <+: piece := by
    obtain ⟨piece, hbefore, rfl⟩ := List.mem_map.mp hmem
    refine ⟨piece, List.mem_of_mem_dropLast hbefore, ?_⟩
    cases hstart : before? ['\r'] piece with
    | none => exact List.prefix_rfl
    | some start => exact prefix_of_before? hstart
  unfold lines at h
  dsimp only at h
  split at h
  · exact hended h
  · exact hended h
  · rename_i last _ hlast
    rcases List.mem_append.mp h with h | h
    · exact hended h
    · exact ⟨last, List.mem_of_getLast? hlast, List.mem_singleton.mp h ▸ List.prefix_rfl⟩

theorem infix_of_mem_lines {line : Text} (h : line ∈ lines t) : line <:+: t := by
  obtain ⟨piece, hpiece, hline⟩ := exists_of_mem_lines h
  have hpart := infix_join_of_mem ['\n'] hpiece
  rw [join_splitOn] at hpart
  exact hline.isInfix.trans hpart

/-- A text between characters of a kind, but for the first one, follows such a character. -/
theorem exists_of_mem_tail_splitOn {piece : Text} (h : piece ∈ (splitOn c t).tail) :
    ∃ a b, t = a ++ c :: piece ++ b := by
  obtain ⟨first, rest, hsplit⟩ : ∃ first rest, splitOn c t = first :: rest :=
    List.exists_cons_of_ne_nil (splitBy_ne_nil _ _)
  have hjoin := (join_splitOn c t).symm
  rw [hsplit] at h hjoin
  obtain ⟨above, below, rfl⟩ := List.append_of_mem h
  refine ⟨join [c] (first :: above), join [c] ([] :: below), ?_⟩
  rw [hjoin]
  clear hjoin hsplit h
  induction above generalizing first with
  | nil => cases below <;> simp [join]
  | cons next above ih => simpa [join] using ih next

theorem eq_of_cut? {left right : Text} (h : cut? part t = some (left, right)) :
    t = left ++ part ++ right := by
  induction t generalizing left with
  | nil =>
    simp only [cut?] at h
    split_ifs at h with hempty
    obtain ⟨rfl, rfl⟩ := Prod.mk.inj (Option.some.inj h)
    simpa using hempty
  | cons c t ih =>
    rw [cut?] at h
    split at h
    · rename_i rest hafter
      obtain ⟨rfl, rfl⟩ := Prod.mk.inj (Option.some.inj h)
      exact eq_append_of_after? hafter
    · obtain ⟨⟨left', right'⟩, hcut, hpair⟩ := Option.map_eq_some_iff.mp h
      obtain ⟨rfl, rfl⟩ := Prod.mk.inj hpair
      rw [ih hcut]
      rfl

theorem after?_eq_none_iff : after? part t = none ↔ ¬part <+: t := by
  rw [← startsWith_iff, startsWith, Bool.not_eq_true, Option.isSome_eq_false_iff, Option.isNone_iff_eq_none]

/-- A part is found where it stands first, if its first character does not return in it. -/
theorem cut?_append {left rest : Text} (hc : c ∉ rest) (hleft : ¬c :: rest <:+: left) (right : Text) :
    cut? (c :: rest) (left ++ c :: rest ++ right) = some (left, right) := by
  induction left with
  | nil => simp [cut?, after?, after?_append]
  | cons d left ih =>
    have hnot : ¬c :: rest <+: d :: (left ++ c :: (rest ++ right)) := by
      rw [List.cons_prefix_cons]
      rintro ⟨rfl, hrest⟩
      by_cases hne : rest = []
      · exact hleft (hne ▸ ⟨[], left, rfl⟩)
      · rw [prefix_append_cons_iff hc hne] at hrest
        exact hleft (List.cons_prefix_cons.mpr ⟨rfl, hrest⟩).isInfix
    have hrest := ih fun hpart => hleft (hpart.trans (List.suffix_cons d left).isInfix)
    simp only [List.append_assoc, List.cons_append] at hrest ⊢
    rw [cut?, after?_eq_none_iff.mpr hnot, hrest]
    rfl

/-- A line, without the carriage return that it may end in, and the lines after it. -/
theorem lines_append_cons {line : Text} (hline : '\n' ∉ line) (rest : Text) :
    lines (line ++ '\n' :: rest) = (before? ['\r'] line).getD line :: lines rest := by
  have hrest : splitOn '\n' rest ≠ [] := splitBy_ne_nil _ _
  obtain ⟨piece, pieces, hpieces⟩ := List.exists_cons_of_ne_nil hrest
  have hcut : splitOn '\n' (line ++ '\n' :: rest) = line :: piece :: pieces := by
    rw [splitOn_append_cons, splitOn_of_not_mem hline, hpieces]
    rfl
  -- the last piece, which no line end follows, is the same with and without the line before
  simp only [lines, hcut, hpieces, List.dropLast_cons_cons, List.map_cons, List.getLast?_cons_cons]
  split <;> simp

end StaticSite.Text
