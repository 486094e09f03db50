import StaticSite.Document.Builder
import StaticSite.Proofs.Document.Markers
import StaticSite.Proofs.FilePath

/-!
# Attributes as they are written

Attributes are written in a tag one after the other, with a blank before each and its value in delimiters. They are
read as they were, in order, whatever blank text follows the last one.
-/
namespace StaticSite

/-! ## Characters -/

namespace Text

/-- The codes of the blank characters. -/
def blankCodes : List Nat :=
  List.range' 9 5 ++ [0x20, 0x85, 0xA0, 0x1680] ++ List.range' 0x2000 11 ++ [0x2028, 0x2029, 0x202F, 0x205F, 0x3000]

theorem mem_blankCodes {c : Char} (h : isBlank c = true) : c.toNat ∈ blankCodes := by
  simp only [isBlank, Bool.or_eq_true, Bool.and_eq_true, decide_eq_true_eq, beq_iff_eq] at h
  change c.val.toNat ∈ _
  simp only [blankCodes, List.mem_append, List.mem_range'_1, List.mem_cons, List.not_mem_nil, or_false]
  omega

theorem isWord_of_isBlank {c : Char} (h : isBlank c = true) : isWord c = false := by
  have hcodes : ∀ n ∈ blankCodes, isWord (Char.ofNat n) = false := by decide +kernel
  rw [← Char.ofNat_toNat c]
  exact hcodes _ (mem_blankCodes h)

/-- A run of characters of a class, before a character of another class or the end. -/
theorem takeWhile_append_of_head? {p : Char → Bool} {t u : Text} (ht : t.all p = true)
    (hu : ∀ c ∈ u.head?, p c = false) : (t ++ u).takeWhile p = t := by
  rw [List.takeWhile_append_of_pos (List.all_eq_true.mp ht)]
  cases u with
  | nil => simp
  | cons c u => simp [hu c rfl]

theorem dropWhile_append_of_head? {p : Char → Bool} {t u : Text} (ht : t.all p = true)
    (hu : ∀ c ∈ u.head?, p c = false) : (t ++ u).dropWhile p = u := by
  rw [List.dropWhile_append_of_pos (List.all_eq_true.mp ht)]
  cases u with
  | nil => rfl
  | cons c u => simp [hu c rfl]

end Text

/-- A value that can be written between its delimiters inside a tag. -/
def AttributeValue.Writable : AttributeValue → Prop
  | string value => '"' ∉ value ∧ '<' ∉ value ∧ '>' ∉ value
  | expression source => '\x7d' ∉ source ∧ '<' ∉ source ∧ '>' ∉ source ∧ Text.trim source = source
  | flag => True

instance : DecidablePred AttributeValue.Writable
  | .string _ => inferInstanceAs (Decidable (_ ∧ _ ∧ _))
  | .expression _ => inferInstanceAs (Decidable (_ ∧ _ ∧ _ ∧ _))
  | .flag => inferInstanceAs (Decidable True)

/-- An attribute that can be written in a tag. -/
structure Attribute.Writable (a : Attribute) : Prop where
  start : a.name.head?.any Markup.isNameStart = true
  chars : a.name.all Markup.isNameChar = true
  value : a.value.Writable

instance : DecidablePred Attribute.Writable := fun a =>
  decidable_of_iff
    (a.name.head?.any Markup.isNameStart = true ∧ a.name.all Markup.isNameChar = true ∧ a.value.Writable)
    ⟨fun h => ⟨h.1, h.2.1, h.2.2⟩, fun h => ⟨h.start, h.chars, h.value⟩⟩

namespace Markup

variable {c : Char} {name t rest gap : Text} {a : Attribute} {as : List Attribute}

theorem isNameChar_of_isBlank (h : Text.isBlank c = true) : isNameChar c = false := by
  have hne {d : Char} (hd : Text.isBlank d = false) : (c == d) = false := by
    rw [beq_eq_false_iff_ne]
    rintro rfl
    exact Bool.false_ne_true (hd.symm.trans h)
  simp only [isNameChar, Text.isWord_of_isBlank h, hne (by decide : Text.isBlank ':' = false),
    hne (by decide : Text.isBlank '.' = false), hne (by decide : Text.isBlank '$' = false),
    hne (by decide : Text.isBlank '-' = false), Bool.or_false]

theorem isNameChar_of_isNameStart (h : isNameStart c = true) : isNameChar c = true := by
  simp only [isNameStart, Bool.or_eq_true, beq_iff_eq] at h
  rcases h with ((hletter | rfl) | rfl) | rfl
  · have htag : isTagNameChar c = true :=
      isTagNameChar_of_isAsciiAlphanumeric (by simp [Text.isAsciiAlphanumeric, hletter])
    simp only [isTagNameChar, Bool.or_eq_true] at htag
    simp only [isNameChar, Bool.or_eq_true]
    tauto
  · decide
  · decide
  · decide

theorem isTagNameChar_of_isBlank (h : Text.isBlank c = true) : isTagNameChar c = false := by
  have hname := isNameChar_of_isBlank h
  simp only [isNameChar, Bool.or_eq_false_iff] at hname
  simp only [isTagNameChar, hname, Bool.or_false]

/-! ## Attributes -/

def printValue : AttributeValue → Text
  | .string value => "=\"" ++ value ++ "\""
  | .expression source => "=\x7b" ++ source ++ "\x7d"
  | .flag => []

def printAttribute (a : Attribute) : Text := ' ' :: a.name ++ printValue a.value

def printAttributes (as : List Attribute) : Text := as.flatMap printAttribute

/-- What may follow an attribute: a blank or nothing, and then no value. -/
structure EndsAttribute (t : Text) : Prop where
  blank : ∀ c ∈ t.head?, Text.isBlank c = true
  no_value : (Text.trimStart t).head? ≠ some '='

theorem endsAttribute_of_allBlank (h : Text.allBlank gap = true) : EndsAttribute gap := by
  have hblank : ∀ c ∈ gap, Text.isBlank c = true := List.all_eq_true.mp h
  constructor
  · exact fun c hc => hblank c (List.mem_of_mem_head? hc)
  · rw [Text.trimStart, List.dropWhile_eq_nil_iff.mpr hblank]
    exact nofun

/-- The name of an attribute has a first character, which is no blank. -/
theorem exists_name (h : a.Writable) :
    ∃ c t, a.name = c :: t ∧ isNameStart c = true ∧ Text.isBlank c = false ∧ t.all isNameChar = true := by
  obtain ⟨hstart, hchars, -⟩ := h
  cases hname : a.name with
  | nil => simp [hname] at hstart
  | cons c t =>
    rw [hname] at hstart hchars
    have hc : isNameStart c = true := hstart
    rw [List.all_cons, Bool.and_eq_true] at hchars
    refine ⟨c, t, rfl, hc, ?_, hchars.2⟩
    cases hblank : Text.isBlank c with
    | false => rfl
    | true => exact absurd hchars.1 (by simp [isNameChar_of_isBlank hblank])

theorem endsAttribute_print (h : a.Writable) (rest : Text) : EndsAttribute (printAttribute a ++ rest) := by
  obtain ⟨c, t, hname, hc, hblank, -⟩ := exists_name h
  have hspace : Text.isBlank ' ' = true := by decide
  constructor
  · rintro _ ⟨⟩
    exact hspace
  · simp only [printAttribute, hname, Text.trimStart, List.cons_append, List.dropWhile_cons, hspace, hblank, if_true,
      Bool.false_eq_true, if_false, List.head?_cons, ne_eq, Option.some.injEq]
    rintro rfl
    exact absurd hc (by decide)

theorem upTo?_append {d : Char} (h : d ∉ t) (u : Text) : upTo? d (t ++ d :: u) = some (t, u) := by
  have htake : (t ++ d :: u).takeWhile (· != d) = t := by
    rw [List.takeWhile_append_of_pos (by grind)]
    simp
  simp only [upTo?, htake, List.drop_left]

theorem valueAfterName_equals {found : AttributeValue × Text} (hstart : Text.trimStart t = t)
    (h : attributeValue? t = some found) : valueAfterName ('=' :: t) = found := by
  have hequals : Text.trimStart ('=' :: t) = '=' :: t := rfl
  simp only [valueAfterName, hequals, hstart, h]

/-- A written value is read up to its end. -/
theorem valueAfterName_print {value : AttributeValue} (h : value.Writable) (hrest : EndsAttribute rest) :
    valueAfterName (printValue value ++ rest) = (value, rest) := by
  cases value with
  | string value =>
    have hread : attributeValue? ('"' :: (value ++ '"' :: rest)) = some (.string value, rest) := by
      rw [attributeValue?, upTo?_append h.1]
      rfl
    have hprint : printValue (.string value) ++ rest = '=' :: '"' :: (value ++ '"' :: rest) := by simp [printValue]
    rw [hprint]
    exact valueAfterName_equals rfl hread
  | expression source =>
    have hread : attributeValue? ('\x7b' :: (source ++ '\x7d' :: rest)) = some (.expression source, rest) := by
      obtain ⟨hbrace, -, -, htrim⟩ := h
      simp only [attributeValue?, upTo?_append hbrace, htrim]
    have hprint : printValue (.expression source) ++ rest = '=' :: '\x7b' :: (source ++ '\x7d' :: rest) := by
      simp [printValue]
    rw [hprint]
    exact valueAfterName_equals rfl hread
  | flag =>
    rw [printValue, List.nil_append, valueAfterName]
    split
    · rename_i value hequals
      exact absurd (by rw [hequals]; rfl) hrest.no_value
    · rfl

theorem attributesFrom_of_not_start (hc : isNameStart c = false) (fuel : Nat) (t : Text) :
    attributesFrom (fuel + 1) (c :: t) = attributesFrom fuel t := by
  simp only [attributesFrom, hc, Bool.false_eq_true, if_false]

/-- Blank text holds no attributes. -/
theorem attributesFrom_of_allBlank (h : Text.allBlank gap = true) (fuel : Nat) : attributesFrom fuel gap = [] := by
  induction gap generalizing fuel with
  | nil => cases fuel <;> rfl
  | cons c gap ih =>
    cases fuel with
    | zero => rfl
    | succ fuel =>
      rw [Text.allBlank, List.all_cons, Bool.and_eq_true] at h
      have hc : isNameStart c = false := by
        cases hstart : isNameStart c with
        | false => rfl
        | true => exact absurd (isNameChar_of_isNameStart hstart) (by simp [isNameChar_of_isBlank h.1])
      rw [attributesFrom_of_not_start hc, ih h.2]

/-- A written attribute is read, and then what follows it. -/
theorem attributesFrom_cons (h : a.Writable) (hrest : EndsAttribute rest) (fuel : Nat) :
    attributesFrom (fuel + 2) (printAttribute a ++ rest) = a :: attributesFrom fuel rest := by
  obtain ⟨c, t, hname, hc, -, ht⟩ := exists_name h
  have hstop : ∀ d ∈ (printValue a.value ++ rest).head?, isNameChar d = false := by
    cases a.value with
    | flag => exact fun d hd => isNameChar_of_isBlank (hrest.blank d hd)
    | _ => rintro _ ⟨⟩; decide
  have hspace : isNameStart ' ' = false := by decide
  have htext : printAttribute a ++ rest = ' ' :: c :: (t ++ (printValue a.value ++ rest)) := by
    simp only [printAttribute, hname, List.cons_append, List.append_assoc]
  rw [htext, attributesFrom_of_not_start hspace, attributesFrom, if_pos hc,
    Text.takeWhile_append_of_head? ht hstop, Text.dropWhile_append_of_head? ht hstop, valueAfterName_print h.value hrest,
    ← hname]

theorem printAttributes_cons_append (a : Attribute) (as : List Attribute) (rest : Text) :
    printAttributes (a :: as) ++ rest = printAttribute a ++ (printAttributes as ++ rest) := by
  rw [printAttributes, List.flatMap_cons, List.append_assoc, printAttributes]

/-- Written attributes are read as they were, in order. -/
theorem attributesFrom_print (h : ∀ a ∈ as, a.Writable) (hgap : Text.allBlank gap = true) {fuel : Nat}
    (hfuel : (printAttributes as ++ gap).length ≤ fuel) : attributesFrom fuel (printAttributes as ++ gap) = as := by
  induction as generalizing fuel with
  | nil => exact attributesFrom_of_allBlank hgap fuel
  | cons a as ih =>
    obtain ⟨ha, has⟩ := List.forall_mem_cons.mp h
    have hends : EndsAttribute (printAttributes as ++ gap) := by
      cases as with
      | nil => exact endsAttribute_of_allBlank hgap
      | cons b as =>
        rw [printAttributes_cons_append]
        exact endsAttribute_print (has b List.mem_cons_self) _
    obtain ⟨c, t, hname, -⟩ := exists_name ha
    rw [printAttributes_cons_append] at hfuel ⊢
    simp only [printAttribute, hname, List.length_append, List.length_cons] at hfuel
    -- the blank and the name are two steps, and an attribute has at least two characters
    obtain ⟨fuel, rfl⟩ : ∃ n, fuel = n + 2 := ⟨fuel - 2, by omega⟩
    rw [attributesFrom_cons ha hends, ih has (by rw [List.length_append]; omega)]

theorem attributes_print (h : ∀ a ∈ as, a.Writable) (hgap : Text.allBlank gap = true) :
    attributes (printAttributes as ++ gap) = as :=
  attributesFrom_print h hgap le_rfl

/-! ### Characters in written attributes -/

theorem not_mem_printAttributes {d : Char} (hspace : d ≠ ' ') (hname : isNameChar d = false)
    (hvalue : ∀ a ∈ as, d ∉ printValue a.value) (h : ∀ a ∈ as, a.Writable) : d ∉ printAttributes as := by
  intro hmem
  obtain ⟨a, ha, hd⟩ := List.mem_flatMap.mp hmem
  rw [printAttribute, List.mem_append, List.mem_cons] at hd
  rcases hd with (hd | hd) | hd
  · exact hspace hd
  · exact Bool.false_ne_true (hname.symm.trans (List.all_eq_true.mp (h a ha).chars d hd))
  · exact hvalue a ha hd

theorem no_bracket_printValue {value : AttributeValue} (h : value.Writable) :
    '<' ∉ printValue value ∧ '>' ∉ printValue value := by
  cases value with
  | string value =>
    obtain ⟨-, hopen, hclose⟩ := h
    simp [printValue, hopen, hclose]
  | expression source =>
    obtain ⟨-, hopen, hclose, -⟩ := h
    simp [printValue, hopen, hclose]
  | flag => simp [printValue]

theorem no_bracket_printAttributes (h : ∀ a ∈ as, a.Writable) : '<' ∉ printAttributes as ∧ '>' ∉ printAttributes as := by
  have hvalue : ∀ a ∈ as, '<' ∉ printValue a.value ∧ '>' ∉ printValue a.value :=
    fun a ha => no_bracket_printValue (h a ha).value
  exact ⟨not_mem_printAttributes (by decide) (by decide) (fun a ha => (hvalue a ha).1) h,
    not_mem_printAttributes (by decide) (by decide) (fun a ha => (hvalue a ha).2) h⟩

/-- A written attribute does not end in the slash that closes a tag. -/
theorem getLast?_printAttribute (h : a.Writable) : (printAttribute a).getLast? ≠ some '/' := by
  unfold printAttribute
  cases a.value with
  | flag =>
    rw [printValue, List.append_nil]
    intro hlast
    rcases List.mem_cons.mp (List.mem_of_getLast? hlast) with hslash | hslash
    · exact absurd hslash (by decide)
    · exact absurd (List.all_eq_true.mp h.chars _ hslash) (by decide)
  | _ => simp [printValue, List.getLast?_cons, List.getLast?_append]

theorem getLast?_printAttributes (h : ∀ a ∈ as, a.Writable) : (printAttributes as).getLast? ≠ some '/' := by
  rcases List.eq_nil_or_concat' as with rfl | ⟨before, a, rfl⟩
  · exact nofun
  · have hne : printAttribute a ≠ [] := List.cons_ne_nil _ _
    rw [printAttributes, List.flatMap_append, List.flatMap_singleton, List.getLast?_append_of_ne_nil _ hne]
    exact getLast?_printAttribute (h a (by simp))

end Markup

end StaticSite
