import StaticSite.Proofs.Document.Printing
import StaticSite.Proofs.Document.Tags

/-!
# Expressions between braces

The value of an attribute may be an expression between braces, in which braces are balanced. It is read up to the
first closing brace, and what follows that is read as further attributes. So an expression without braces of its own
is read as it was written, and one with braces is cut.
-/
namespace StaticSite

/-- Text in which every brace has its counterpart. -/
inductive Text.Balanced : Text → Prop
  | nil : Balanced []
  | char {c : Char} {t : Text} (hopen : c ≠ '\x7b') (hclose : c ≠ '\x7d') (ht : Balanced t) : Balanced (c :: t)
  | braces {inside t : Text} (hinside : Balanced inside) (ht : Balanced t) :
      Balanced ('\x7b' :: inside ++ '\x7d' :: t)

namespace Text

variable {t : Text}

theorem Balanced.mem_iff (h : Balanced t) : '\x7b' ∈ t ↔ '\x7d' ∈ t := by
  induction h with
  | nil => simp
  | char hopen hclose _ ih => simp [hopen.symm, hclose.symm, ih]
  | braces => simp

/-- Text without braces is balanced. -/
theorem balanced_of_not_mem (hopen : '\x7b' ∉ t) (hclose : '\x7d' ∉ t) : Balanced t := by
  induction t with
  | nil => exact .nil
  | cons c t ih =>
    rw [List.mem_cons, not_or] at hopen hclose
    exact .char (Ne.symm hopen.1) (Ne.symm hclose.1) (ih hopen.2 hclose.2)

theorem mem_dropWhile {p : Char → Bool} {c : Char} (h : c ∈ t) (hc : p c = false) : c ∈ t.dropWhile p := by
  rw [← List.takeWhile_append_dropWhile (p := p) (l := t), List.mem_append] at h
  refine h.resolve_left fun hmem => ?_
  exact absurd (List.mem_takeWhile_imp hmem) (by simp [hc])

/-- Only blanks are trimmed away. -/
theorem mem_trim {c : Char} (h : c ∈ t) (hc : isBlank c = false) : c ∈ trim t := by
  rw [trim, trimEnd, dropEndWhile, List.mem_reverse]
  exact mem_dropWhile (List.mem_reverse.mpr (mem_dropWhile h hc)) hc

end Text

namespace Markup

variable {t gap name attr source value : Text}

/-! ## Reading on behind an attribute -/

theorem attributesFrom_congr {fuel fuel' : Nat} (h : t.length ≤ fuel) (h' : t.length ≤ fuel') :
    attributesFrom fuel t = attributesFrom fuel' t := by
  induction fuel generalizing fuel' t with
  | zero =>
    obtain rfl := List.length_eq_zero_iff.mp (Nat.le_zero.mp h)
    cases fuel' <;> rfl
  | succ fuel ih =>
    cases t with
    | nil => cases fuel' <;> rfl
    | cons c t =>
      rw [List.length_cons] at h h'
      obtain ⟨fuel', rfl⟩ : ∃ n, fuel' = n + 1 := ⟨fuel' - 1, by omega⟩
      rw [attributesFrom, attributesFrom]
      split_ifs
      · have hrest : (valueAfterName (t.dropWhile isNameChar)).2.length ≤ t.length :=
          ((valueAfterName_spec _).2.trans (List.dropWhile_suffix _)).length_le
        exact congrArg _ (ih (hrest.trans (Nat.le_of_succ_le_succ h)) (hrest.trans (Nat.le_of_succ_le_succ h')))
      · exact ih (by omega) (by omega)

theorem attributesFrom_eq {fuel : Nat} (h : t.length ≤ fuel) : attributesFrom fuel t = attributes t :=
  attributesFrom_congr h le_rfl

/-- The name of an attribute, as it is written. -/
def IsAttributeName (attr : Text) : Prop := attr.head?.any isNameStart = true ∧ attr.all isNameChar = true

instance : Decidable (IsAttributeName attr) := inferInstanceAs (Decidable (_ ∧ _))

/-- A value in braces is read up to the first closing brace, and attributes again behind it. -/
theorem attributes_braced (hattr : IsAttributeName attr) (hvalue : '\x7d' ∉ value) (rest : Text) :
    attributes (' ' :: attr ++ '=' :: '\x7b' :: (value ++ '\x7d' :: rest)) =
      ⟨attr, .expression (Text.trim value)⟩ :: attributes rest := by
  obtain ⟨hstart, hchars⟩ := hattr
  obtain ⟨c, t, rfl⟩ : ∃ c t, attr = c :: t := by
    cases attr with
    | nil => exact absurd hstart (by decide)
    | cons c t => exact ⟨c, t, rfl⟩
  rw [List.all_cons, Bool.and_eq_true] at hchars
  have hc : isNameStart c = true := hstart
  have hspace : isNameStart ' ' = false := by decide
  have hstop : ∀ d ∈ ('=' :: '\x7b' :: (value ++ '\x7d' :: rest)).head?, isNameChar d = false := by
    rintro _ ⟨⟩
    decide
  have hread : attributeValue? ('\x7b' :: (value ++ '\x7d' :: rest)) = some (.expression (Text.trim value), rest) := by
    rw [attributeValue?, upTo?_append hvalue]
  have hrest : rest.length ≤ (t ++ '=' :: '\x7b' :: (value ++ '\x7d' :: rest)).length := by
    simp only [List.length_append, List.length_cons]
    omega
  rw [attributes, List.cons_append, List.cons_append, List.length_cons, List.length_cons,
    attributesFrom_of_not_start hspace, attributesFrom, if_pos hc, Text.takeWhile_append_of_head? hchars.2 hstop,
    Text.dropWhile_append_of_head? hchars.2 hstop, valueAfterName_equals rfl hread]
  exact congrArg _ (attributesFrom_eq hrest)

/-! ## Tags with an expression -/

/-- What stands in a tag behind its name: one attribute, whose value is an expression. -/
def expressionInside (gap attr source : Text) : Text := ' ' :: attr ++ '=' :: '\x7b' :: (source ++ '\x7d' :: gap)

/-- The tag of an element without children behind its bracket. -/
def expressionTag (gap name attr source : Text) : Text := name ++ (expressionInside gap attr source ++ "/>")

theorem not_mem_expressionInside {d : Char} (hattr : d ∉ attr) (hsource : d ∉ source) (hgap : d ∉ gap)
    (hd : d ∉ [' ', '=', '\x7b', '\x7d']) : d ∉ expressionInside gap attr source := by
  simp only [List.mem_cons, not_or] at hd
  simp [expressionInside, hd, hattr, hsource, hgap]

theorem isTag_expressionTag (hcapital : isComponentName name = true) (hchars : name.all isTagNameChar = true)
    (hattr : IsAttributeName attr) (hopen : '<' ∉ source) (hclose : '>' ∉ source) (hgap : Text.allBlank gap = true) :
    IsTag (expressionTag gap name attr source) ⟨false, true, decodeDots name, expressionInside gap attr source⟩ := by
  have hname {d : Char} (hd : isNameChar d = false) : d ∉ attr := not_mem_of_all hattr.2 hd
  have hblank {d : Char} (hd : Text.isBlank d = false) : d ∉ gap := not_mem_of_all hgap hd
  have hleft : '<' ∉ expressionInside gap attr source :=
    not_mem_expressionInside (hname (by decide)) hopen (hblank (by decide)) (by decide)
  have hright : '>' ∉ expressionInside gap attr source :=
    not_mem_expressionInside (hname (by decide)) hclose (hblank (by decide)) (by decide)
  have hstart : ∀ c ∈ (expressionInside gap attr source ++ ['/']).head?, isTagNameChar c = false := by
    rintro _ ⟨⟩
    decide
  constructor
  · have hno : '<' ∉ name := not_mem_of_all hchars (by decide)
    simp [expressionTag, hno, hleft]
  · intro rest
    have hread := componentTag?_named hcapital hchars false hstart (by simp [hleft]) (by simp [hright]) rest
    rw [Text.before?_append] at hread
    simpa [expressionTag] using hread

end Markup

namespace Builder

open Markup

variable {gap name attr source : Text}

/-- An element with an expression for a value. The expression is cut at its first closing brace, and attributes are
read from what is behind it; it is read as it was written just if it holds no braces. -/
theorem markup_expression (hcapital : isComponentName name = true) (hchars : name.all isTagNameChar = true)
    (hattr : IsAttributeName attr) (hsource : Text.Balanced source) (hopen : '<' ∉ source) (hclose : '>' ∉ source)
    (hgap : Text.allBlank gap = true) (rest : Text) (b : Builder) :
    ∃ value behind, source ++ '\x7d' :: gap = value ++ '\x7d' :: behind ∧ '\x7d' ∉ value ∧
      b.markup ('<' :: (expressionTag gap name attr source ++ rest)) =
        (b.push (.element (decodeDots name) (⟨attr, .expression (Text.trim value)⟩ :: attributes behind) [])).markup rest ∧
      ((⟨attr, .expression (Text.trim value)⟩ :: attributes behind : List Attribute) =
          [⟨attr, .expression (Text.trim source)⟩] ↔ '\x7b' ∉ source) := by
  have hread {value behind : Text} (hcut : source ++ '\x7d' :: gap = value ++ '\x7d' :: behind) (hvalue : '\x7d' ∉ value) :
      b.markup ('<' :: (expressionTag gap name attr source ++ rest)) =
        (b.push (.element (decodeDots name) (⟨attr, .expression (Text.trim value)⟩ :: attributes behind) [])).markup rest := by
    have hinside := attributes_braced hattr hvalue behind
    rw [← hcut] at hinside
    rw [markup_tag (isTag_expressionTag hcapital hchars hattr hopen hclose hgap)]
    simp only [markupPiece, Bool.false_eq_true, if_false, if_true, expressionInside, hinside]
  by_cases hbrace : '\x7d' ∈ source
  · obtain ⟨value, behind, hcut, hvalue⟩ := List.eq_append_cons_of_mem hbrace
    have hwhole : source ++ '\x7d' :: gap = value ++ '\x7d' :: (behind ++ '\x7d' :: gap) := by simp [hcut]
    refine ⟨value, behind ++ '\x7d' :: gap, hwhole, hvalue, hread hwhole hvalue, iff_of_false ?_ ?_⟩
    · -- what was written between the braces holds a closing one
      intro hsame
      have htrim : Text.trim value = Text.trim source := by
        simpa using (List.cons.inj hsame).1
      have hmem : '\x7d' ∈ Text.trim value := htrim ▸ Text.mem_trim hbrace (by decide)
      exact hvalue ((Text.trim_infix value).subset hmem)
    · rw [hsource.mem_iff]
      exact not_not.mpr hbrace
  · have hgapAttributes : attributes gap = [] := attributesFrom_of_allBlank hgap _
    refine ⟨source, gap, rfl, hbrace, hread rfl hbrace, iff_of_true (by rw [hgapAttributes]) ?_⟩
    rwa [hsource.mem_iff]

end Builder

namespace BracedValues

/-- An expression without braces is kept, whatever else it holds. -/
theorem sum_kept :
    Text.Balanced " a[0] + \"/\" " ∧
    (Builder.start.markup "<Ui.Card data=\x7b a[0] + \"/\" \x7d />").finish =
      [.element "Ui.Card" [⟨"data", .expression "a[0] + \"/\""⟩] []] := by
  have hsource : Text.Balanced " a[0] + \"/\" " := Text.balanced_of_not_mem (by decide) (by decide)
  obtain ⟨value, behind, -, -, hread, hkept⟩ := @Builder.markup_expression " " "Ui.Card" "data" " a[0] + \"/\" "
    (by decide) (by decide) (by decide) hsource (by decide) (by decide) (by decide) [] Builder.start
  rw [hkept.mpr (by decide)] at hread
  exact ⟨hsource, congrArg Builder.finish hread⟩

/-- An object that holds an object is cut behind the inner one, and the name there is taken for an attribute. -/
theorem object_cut :
    Text.Balanced "\x7ba:\x7bb:1\x7d,c\x7d" ∧
    (Builder.start.markup "<Card data=\x7b\x7ba:\x7bb:1\x7d,c\x7d\x7d />").finish =
      [.element "Card" [⟨"data", .expression "\x7ba:\x7bb:1"⟩, ⟨"c", .flag⟩] []] ∧
    (Builder.start.markup "<Card data=\x7b\x7ba:\x7bb:1\x7d,c\x7d\x7d />").finish ≠
      [.element "Card" [⟨"data", .expression "\x7ba:\x7bb:1\x7d,c\x7d"⟩] []] := by
  have hinner : Text.Balanced "\x7bb:1\x7d,c" :=
    .braces (Text.balanced_of_not_mem (t := "b:1") (by decide) (by decide))
      (Text.balanced_of_not_mem (t := ",c") (by decide) (by decide))
  have hsource : Text.Balanced "\x7ba:\x7bb:1\x7d,c\x7d" :=
    .braces (.char (by decide) (by decide) (.char (by decide) (by decide) hinner)) .nil
  have hread : (Builder.start.markup "<Card data=\x7b\x7ba:\x7bb:1\x7d,c\x7d\x7d />").finish =
      [.element "Card" [⟨"data", .expression "\x7ba:\x7bb:1"⟩, ⟨"c", .flag⟩] []] := rfl
  refine ⟨hsource, hread, ?_⟩
  rw [hread]
  simp

end BracedValues

end StaticSite
