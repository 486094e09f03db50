import StaticSite.Markdown.Inline
import StaticSite.Proofs.Text.Parts

/-!
# What readers leave over

The readers of Markdown take something off the front of a text. What they leave over is the end of the text as it
was.
-/
namespace StaticSite

namespace Markdown

variable {t u rest : Text} {c : Char}

theorem suffix_of_cons (h : c :: rest <:+ t) : rest <:+ t := (List.suffix_cons c rest).trans h

/-! ## Tags -/

theorem suffix_skipWhite (t : Text) : skipWhite t <:+ t := List.dropWhile_suffix _

theorem suffix_of_afterChar? (h : afterChar? c t = some rest) : rest <:+ t := by
  unfold afterChar? at h
  split at h
  · cases h
  · rename_i d rest' hdrop
    obtain rfl := Option.some.inj h
    exact suffix_of_cons (hdrop ▸ List.dropWhile_suffix _)

theorem suffix_of_afterPart? {part : Text} (h : afterPart? part t = some rest) : rest <:+ t := by
  obtain ⟨⟨left, right⟩, hcut, rfl⟩ := Option.map_eq_some_iff.mp h
  exact ⟨left ++ part, (Text.eq_of_cut? hcut).symm⟩

theorem suffix_of_attributeValue? (h : attributeValue? t = some rest) : rest <:+ t := by
  unfold attributeValue? at h
  split at h
  · cases h
  · exact (suffix_of_afterChar? h).trans (List.suffix_cons ..)
  · exact (suffix_of_afterChar? h).trans (List.suffix_cons ..)
  · split_ifs at h
    obtain rfl := Option.some.inj h
    exact (List.dropWhile_suffix _).trans (List.suffix_cons ..)

theorem suffix_of_attribute? (h : attribute? t = some rest) : rest <:+ t := by
  unfold attribute? at h
  split at h
  · cases h
  · rename_i d t
    split_ifs at h
    have hname : t.dropWhile isAttributeChar <:+ d :: t := (List.dropWhile_suffix _).trans (List.suffix_cons ..)
    simp only at h
    split at h
    · rename_i value hvalue
      have hequals := hvalue ▸ suffix_skipWhite (t.dropWhile isAttributeChar)
      exact (suffix_of_attributeValue? h).trans <|
        (suffix_skipWhite value).trans <| (suffix_of_cons hequals).trans hname
    · obtain rfl := Option.some.inj h
      exact hname

theorem suffix_of_attributes? {fuel : Nat} (h : attributes? fuel t = some rest) : rest <:+ t := by
  induction fuel generalizing t with
  | zero => cases h
  | succ fuel ih =>
    rw [attributes?] at h
    have hwhite := suffix_skipWhite t
    split at h
    · cases h
    · rename_i hslash
      obtain rfl := Option.some.inj h
      exact hslash ▸ hwhite
    · rename_i hbracket
      obtain rfl := Option.some.inj h
      exact hbracket ▸ hwhite
    · rename_i d rest' _ _ hother
      split_ifs at h
      obtain ⟨next, hnext, hmore⟩ := Option.bind_eq_some_iff.mp h
      exact (ih hmore).trans ((suffix_of_attribute? hnext).trans (hother ▸ hwhite))

theorem suffix_of_tag? (h : tag? t = some rest) : rest <:+ t := by
  unfold tag? at h
  split at h
  · rename_i d t
    split_ifs at h
    split at h
    · rename_i rest' hend
      obtain rfl := Option.some.inj h
      have hname := (List.dropWhile_suffix isSpace).trans (List.dropWhile_suffix (l := t) isTagNameChar)
      exact (suffix_of_cons (hend ▸ hname)).trans ((List.suffix_cons ..).trans (List.suffix_cons ..))
    · cases h
  · rename_i d t _
    split_ifs at h
    have hname := (List.dropWhile_suffix (l := t) isTagNameChar).trans (List.suffix_cons d t)
    split at h
    · rename_i hend
      obtain rfl := Option.some.inj h
      exact (suffix_of_cons (suffix_of_cons (suffix_of_attributes? hend))).trans hname
    · rename_i hend
      obtain rfl := Option.some.inj h
      exact (suffix_of_cons (suffix_of_attributes? hend)).trans hname
    · cases h
  · cases h

theorem suffix_of_cdataRest? (h : cdataRest? t = some rest) : rest <:+ t := by
  unfold cdataRest? at h
  split at h
  · cases h
  · split at h
    · rename_i rest' hend
      obtain rfl := Option.some.inj h
      exact (suffix_of_cons (hend ▸ List.dropWhile_suffix _)).trans (List.dropWhile_suffix _)
    · cases h

/-- After a comment, a declaration or a tag. -/
theorem suffix_of_markup? (h : markup? t = some rest) : rest <:+ t := by
  unfold markup? at h
  split at h
  · exact (suffix_of_afterPart? h).trans (List.suffix_cons ..)
  · obtain ⟨section', hsection, hrest⟩ := Option.bind_eq_some_iff.mp h
    rw [Text.eq_append_of_after? hsection]
    exact (suffix_of_cdataRest? hrest).trans <|
      (List.suffix_append ..).trans ((List.suffix_cons ..).trans (List.suffix_cons ..))
  · split_ifs at h
    exact (suffix_of_afterChar? h).trans ((List.suffix_cons ..).trans (List.suffix_cons ..))
  · exact (suffix_of_afterPart? h).trans (List.suffix_cons ..)
  · exact suffix_of_tag? h

/-- What stands after the next character of what is left over. -/
theorem suffix_of_drop {n : Nat} (h : t.drop n = c :: rest) : rest <:+ t :=
  suffix_of_cons (h ▸ List.drop_suffix n t)

/-- After a link between angle brackets. -/
theorem suffix_of_autolink? {url : Text} (h : autolink? t = some (url, rest)) : rest <:+ t := by
  rcases Option.or_eq_some_iff.mp h with h | ⟨-, h⟩
  · unfold urlAutolink? at h
    simp only at h
    split at h
    · rename_i after _ hcolon
      split_ifs at h
      split at h
      · rename_i hend
        obtain ⟨-, rfl⟩ := Prod.mk.inj (Option.some.inj h)
        exact (suffix_of_drop hend).trans (suffix_of_drop hcolon)
      · cases h
    · cases h
  · unfold mailAutolink? at h
    simp only at h
    split at h
    · rename_i hat
      split at h
      · rename_i hend
        split_ifs at h
        obtain ⟨-, rfl⟩ := Prod.mk.inj (Option.some.inj h)
        exact (suffix_of_drop hend).trans (suffix_of_drop hat)
      · cases h
    · cases h

/-! ## Character references -/

theorem suffix_of_numeric? {isDigit : Char → Bool} {value : Text → Nat} {most : Nat} {out : Text}
    (h : numeric? isDigit value most t = some (out, rest)) : rest <:+ t := by
  unfold numeric? at h
  simp only at h
  split at h
  · rename_i hend
    split_ifs at h
    obtain ⟨c, -, hpair⟩ := Option.map_eq_some_iff.mp h
    obtain ⟨-, rfl⟩ := Prod.mk.inj hpair
    exact suffix_of_drop hend
  · cases h

theorem suffix_of_entity? {out : Text} (h : entity? t = some (out, rest)) : rest <:+ t := by
  unfold entity? at h
  split at h
  · exact (suffix_of_numeric? h).trans ((List.suffix_cons ..).trans (List.suffix_cons ..))
  · exact (suffix_of_numeric? h).trans ((List.suffix_cons ..).trans (List.suffix_cons ..))
  · exact (suffix_of_numeric? h).trans (List.suffix_cons ..)
  · simp only at h
    split at h
    · rename_i hend
      split_ifs at h
      obtain ⟨out, -, hpair⟩ := Option.map_eq_some_iff.mp h
      obtain ⟨-, rfl⟩ := Prod.mk.inj hpair
      exact suffix_of_drop hend
    · cases h

/-! ## Links -/

/-- A reader may add to what another reader finds in the end of a text. -/
theorem suffix_of_map {α β : Type} {read : Option (α × Text)} {add : α × Text → β × Text} {found : β}
    (h : read.map add = some (found, rest)) (hadd : ∀ x, (add x).2 = x.2)
    (hread : ∀ {a}, read = some (a, rest) → rest <:+ u) (hu : u <:+ t) : rest <:+ t := by
  obtain ⟨⟨a, rest'⟩, hsome, hpair⟩ := Option.map_eq_some_iff.mp h
  obtain rfl : rest' = rest := (hadd (a, rest')).symm.trans (congrArg Prod.snd hpair)
  exact (hread hsome).trans hu

theorem suffix_cons_cons (c d : Char) (t : Text) : t <:+ c :: d :: t := (List.suffix_cons ..).trans (List.suffix_cons ..)

theorem suffix_of_pointyUrl? {url : Text} (h : pointyUrl? t = some (url, rest)) : rest <:+ t := by
  fun_induction pointyUrl? t generalizing url with
  | case1 => cases h
  | case2 rest' =>
    obtain ⟨-, rfl⟩ := Prod.mk.inj (Option.some.inj h)
    exact List.suffix_cons ..
  | case3 => cases h
  | case4 => cases h
  | case5 => cases h
  | case6 c t _ ih => exact suffix_of_map h (fun _ => rfl) ih (suffix_cons_cons ..)
  | case7 => cases h
  | case8 c t _ _ ih => exact suffix_of_map h (fun _ => rfl) ih (suffix_cons_cons ..)
  | case9 c t _ _ _ _ _ ih => exact suffix_of_map h (fun _ => rfl) ih (List.suffix_cons ..)

theorem suffix_of_plainUrl? {most nest : Nat} {url : Text} (h : plainUrl? most nest t = some (url, rest)) :
    rest <:+ t := by
  fun_induction plainUrl? most nest t generalizing url with
  | case1 | case4 | case7 | case11 =>
    -- the target ends here
    obtain ⟨-, rfl⟩ := Prod.mk.inj (Option.some.inj h)
    first | exact List.suffix_refl _ | exact List.suffix_cons ..
  | case2 | case5 | case8 | case9 => cases h
  | case3 nest c t _ ih => exact suffix_of_map h (fun _ => rfl) ih (suffix_cons_cons ..)
  | case6 nest c t _ _ ih => exact suffix_of_map h (fun _ => rfl) ih (suffix_cons_cons ..)
  | case10 nest c t _ _ _ _ ih => exact suffix_of_map h (fun _ => rfl) ih (List.suffix_cons ..)
  | case12 nest c t _ _ _ _ _ ih => exact suffix_of_map h (fun _ => rfl) ih (List.suffix_cons ..)
  | case13 nest c t _ _ _ _ ih => exact suffix_of_map h (fun _ => rfl) ih (List.suffix_cons ..)

theorem suffix_of_url? {most : Nat} {url : Text} (h : url? most t = some (url, rest)) : rest <:+ t := by
  unfold url? at h
  split at h
  · exact (suffix_of_pointyUrl? h).trans (List.suffix_cons ..)
  · exact suffix_of_plainUrl? h

theorem suffix_of_titleRest? {opening closing : Char} {fuel : Nat} {title : Text}
    (h : titleRest? opening closing fuel t = some (title, rest)) : rest <:+ t := by
  fun_induction titleRest? opening closing fuel t generalizing title with
  | case1 | case2 => cases h
  | case3 =>
    obtain ⟨-, rfl⟩ := Prod.mk.inj (Option.some.inj h)
    exact List.suffix_cons ..
  | case4 => cases h
  | case5 fuel t _ _ ih =>
    exact suffix_of_map h (fun _ => rfl) ih ((List.dropWhile_suffix _).trans (List.suffix_cons ..))
  | case6 fuel t out t' hentity _ _ ih =>
    exact suffix_of_map h (fun _ => rfl) ih ((suffix_of_entity? hentity).trans (List.suffix_cons ..))
  | case7 fuel t _ _ _ ih => exact suffix_of_map h (fun _ => rfl) ih (List.suffix_cons ..)
  | case8 fuel d t _ _ _ ih => exact suffix_of_map h (fun _ => rfl) ih (suffix_cons_cons ..)
  | case9 fuel d t _ _ _ ih => exact suffix_of_map h (fun _ => rfl) ih (List.suffix_cons ..)
  | case10 fuel c t _ _ _ _ _ ih => exact suffix_of_map h (fun _ => rfl) ih (List.suffix_cons ..)

theorem suffix_of_title? {title : Text} (h : title? t = some (title, rest)) : rest <:+ t := by
  unfold title? at h
  split at h
  · cases h
  · obtain ⟨closing, -, hrest⟩ := Option.bind_eq_some_iff.mp h
    exact (suffix_of_titleRest? hrest).trans (List.suffix_cons ..)

theorem suffix_skipSeparator (t : Text) : skipSeparator t <:+ t := by
  unfold skipSeparator
  have hspaces : skipSpaces t <:+ t := List.dropWhile_suffix _
  split
  · rename_i rest hnewline
    exact (List.dropWhile_suffix _).trans (suffix_of_cons (hnewline ▸ hspaces))
  · exact hspaces

theorem suffix_of_inlineTarget? {target : Target} (h : inlineTarget? t = some (target, rest)) : rest <:+ t := by
  unfold inlineTarget? at h
  split at h
  · rename_i t
    obtain ⟨⟨url, afterUrl⟩, hurl, hrest⟩ := Option.bind_eq_some_iff.mp h
    have hend : skipSeparator afterUrl <:+ '(' :: t :=
      (suffix_skipSeparator _).trans <| (suffix_of_url? hurl).trans <|
        (suffix_skipSeparator t).trans (List.suffix_cons ..)
    simp only at hrest
    split at hrest
    · rename_i hclose
      obtain ⟨-, rfl⟩ := Prod.mk.inj (Option.some.inj hrest)
      refine (suffix_of_cons (c := ')') ?_).trans hend
      rw [← hclose]
      split
      · rename_i htitle
        exact (suffix_skipSeparator _).trans (suffix_of_title? htitle)
      · exact List.suffix_refl _
    · cases hrest
  · cases h

theorem suffix_of_labelRest? {fuel : Nat} {label : Text} (h : labelRest? fuel t = some (label, rest)) : rest <:+ t := by
  fun_induction labelRest? fuel t generalizing label with
  | case1 | case2 | case3 => cases h
  | case4 =>
    obtain ⟨-, rfl⟩ := Prod.mk.inj (Option.some.inj h)
    exact List.suffix_cons ..
  | case5 fuel c t ih => exact suffix_of_map h (fun _ => rfl) ih (suffix_cons_cons ..)
  | case6 => cases h
  | case7 =>
    rename_i ih
    exact suffix_of_map h (fun _ => rfl) ih (List.drop_suffix ..)
  | case8 fuel c t _ _ _ _ ih => exact suffix_of_map h (fun _ => rfl) ih (List.suffix_cons ..)

theorem suffix_of_label? {label : Text} (h : label? t = some (label, rest)) : rest <:+ t := by
  unfold label? at h
  split at h
  · obtain ⟨⟨label', rest'⟩, hlabel, hrest⟩ := Option.bind_eq_some_iff.mp h
    simp only at hrest
    split_ifs at hrest
    obtain ⟨-, rfl⟩ := Prod.mk.inj (Option.some.inj hrest)
    exact (suffix_of_labelRest? hlabel).trans (List.suffix_cons ..)
  · cases h

/-- After the target of a link, which may be a label or nothing at all. -/
theorem suffix_of_target? {links : Definitions} {b : Bracket} {target : Target}
    (h : Scan.target? links b t = some (target, rest)) : rest <:+ t := by
  have hshortcut {next : Text} (hnext : ((label? b.label).bind fun found =>
      if found.2.length == t.length then (links.lookup found.1).map fun target => (target, next) else none) =
      some (target, rest)) : rest = next := by
    obtain ⟨⟨label, after⟩, -, hfound⟩ := Option.bind_eq_some_iff.mp hnext
    simp only at hfound
    split_ifs at hfound
    obtain ⟨target', -, hpair⟩ := Option.map_eq_some_iff.mp hfound
    exact (Prod.mk.inj hpair).2.symm
  unfold Scan.target? at h
  split at h
  · rename_i hinline
    exact suffix_of_inlineTarget? (h ▸ hinline)
  · simp only at h
    split at h
    · rw [hshortcut h]
      exact suffix_cons_cons ..
    · split at h
      · rename_i hlabel
        obtain ⟨target', -, hpair⟩ := Option.map_eq_some_iff.mp h
        obtain ⟨-, rfl⟩ := Prod.mk.inj hpair
        exact suffix_of_label? hlabel
      · rw [hshortcut h]

/-! ## Code spans -/

theorem suffix_of_codeEnd? {n fuel : Nat} {code : Text} (h : codeEnd? n fuel t = some (code, rest)) : rest <:+ t := by
  fun_induction codeEnd? n fuel t generalizing code with
  | case1 | case2 => cases h
  | case3 =>
    obtain ⟨-, rfl⟩ := Prod.mk.inj (Option.some.inj h)
    exact List.drop_suffix ..
  | case4 =>
    rename_i ih
    exact suffix_of_map h (fun _ => rfl) ih (List.drop_suffix ..)
  | case5 fuel c t _ ih => exact suffix_of_map h (fun _ => rfl) ih (List.suffix_cons ..)

end Markdown

end StaticSite
