import StaticSite.Proofs.Document.Attributes

/-!
# Printing component elements

Elements of components nest to any depth, with text between them. Printed as tags and read again as one chunk of
markup, they are what they were: every tag is read as the tag it is, whatever follows it, and by induction a forest
is what its text adds to a tree under construction.
-/
namespace StaticSite

namespace Markup

variable {name t rest gap : Text} {as : List Attribute}

/-! ## Tags -/

/-- A name that a component may have. -/
structure IsComponent (name : Text) : Prop where
  capital : isComponentName name = true
  chars : name.all isTagNameChar = true
  unmarked : Unmarked name

/-- What follows an opening bracket is read as a tag, whatever follows it. -/
structure IsTag (body : Text) (tag : Tag) : Prop where
  no_bracket : '<' ∉ body
  reads : ∀ rest, componentTag? (body ++ rest) = some (tag, rest)

/-- The name that a component has once its dots are back. -/
theorem isComponentName_decodeDots (h : isComponentName name = true) : isComponentName (decodeDots name) = true := by
  obtain ⟨c, t, rfl⟩ : ∃ c t, name = c :: t := by
    cases name with
    | nil => exact absurd h (by decide)
    | cons c t => exact ⟨c, t, rfl⟩
  have hc : Text.isAsciiUpper c = true := h
  have hmarker : ¬dotMarker <+: c :: t := by
    intro hmarker
    obtain ⟨rfl, -⟩ := List.cons_prefix_cons.mp hmarker
    exact absurd hc (by decide)
  rw [decodeDots_cons hmarker]
  exact h

/-- What the tag of a name is read as: a slash at its end closes it. -/
theorem componentTag?_named (hcapital : isComponentName name = true) (hchars : name.all isTagNameChar = true)
    (closing : Bool) {inside : Text} (hstart : ∀ c ∈ inside.head?, isTagNameChar c = false) (hopen : '<' ∉ inside)
    (hclose : '>' ∉ inside) (rest : Text) :
    componentTag? ((if closing then ['/'] else []) ++ (name ++ (inside ++ '>' :: rest))) =
      some ((Text.before? ['/'] inside).elim ⟨closing, false, decodeDots name, inside⟩
        (⟨closing, true, decodeDots name, ·⟩), rest) := by
  have hdecoded := isComponentName_decodeDots hcapital
  obtain ⟨c, t, rfl⟩ : ∃ c t, name = c :: t := by
    cases name with
    | nil => exact absurd hcapital (by decide)
    | cons c t => exact ⟨c, t, rfl⟩
  have hc : Text.isAsciiUpper c = true := hcapital
  have hletter : Text.isAsciiLetter c = true := (Bool.or_eq_true _ _).mpr (.inr hc)
  have hslash : c ≠ '/' := by
    rintro rfl
    exact absurd hc (by decide)
  have hstop : ∀ d ∈ (inside ++ '>' :: rest).head?, isTagNameChar d = false := by
    cases inside with
    | nil => rintro _ ⟨⟩; decide
    | cons d inside => exact hstart
  have htake := Text.takeWhile_append_of_head? hchars hstop
  have hcontains : inside.contains '<' = false := by simpa using hopen
  unfold componentTag?
  split
  rename_i closing' u hsplit
  obtain ⟨rfl, rfl⟩ : closing' = closing ∧ u = c :: t ++ (inside ++ '>' :: rest) := by
    cases closing with
    | true => exact ⟨(Prod.mk.inj hsplit).1.symm, (Prod.mk.inj hsplit).2.symm⟩
    | false =>
      split at hsplit
      · rename_i hstart
        exact absurd (List.cons.inj hstart).1 hslash
      · exact ⟨(Prod.mk.inj hsplit).1.symm, (Prod.mk.inj hsplit).2.symm⟩
  rw [List.cons_append] at htake ⊢
  simp only [hletter, if_true, htake]
  rw [← List.cons_append, List.drop_left, upTo?_append hclose]
  simp only [hcontains, hdecoded, Bool.not_true, Bool.or_self, Bool.false_eq_true, if_false]
  cases Text.before? ['/'] inside <;> rfl

/-- What a component tag is read as: a slash at its end closes it. -/
theorem componentTag?_append (hname : IsComponent name) (closing : Bool) {inside : Text}
    (hstart : ∀ c ∈ inside.head?, isTagNameChar c = false) (hopen : '<' ∉ inside) (hclose : '>' ∉ inside) (rest : Text) :
    componentTag? ((if closing then ['/'] else []) ++ (name ++ (inside ++ '>' :: rest))) =
      some ((Text.before? ['/'] inside).elim ⟨closing, false, name, inside⟩ (⟨closing, true, name, ·⟩), rest) := by
  have hread := componentTag?_named hname.capital hname.chars closing hstart hopen hclose rest
  rwa [decodeDots_of_unmarked hname.unmarked] at hread

/-- The start tag of an element behind its bracket. -/
def startTag (name : Text) (as : List Attribute) : Text := name ++ (printAttributes as ++ ">")

/-- The end tag of an element behind its bracket. -/
def endTag (name : Text) : Text := "/" ++ (name ++ ">")

/-- The tag of an element without children behind its bracket. -/
def emptyTag (gap name : Text) (as : List Attribute) : Text := name ++ (printAttributes as ++ (gap ++ "/>"))

theorem no_bracket_name (h : IsComponent name) : '<' ∉ name := not_mem_of_all h.chars (by decide)

/-- Attributes and what follows them do not go on with the name of the tag. -/
theorem head?_printAttributes_append (hrest : ∀ c ∈ rest.head?, isTagNameChar c = false) :
    ∀ c ∈ (printAttributes as ++ rest).head?, isTagNameChar c = false := by
  cases as with
  | nil => exact hrest
  | cons a as =>
    rintro _ ⟨⟩
    decide

theorem isTag_startTag (hname : IsComponent name) (has : ∀ a ∈ as, a.Writable) :
    IsTag (startTag name as) ⟨false, false, name, printAttributes as⟩ := by
  obtain ⟨hopen, hclose⟩ := no_bracket_printAttributes has
  have hstart : ∀ c ∈ (printAttributes as ++ []).head?, isTagNameChar c = false :=
    head?_printAttributes_append nofun
  rw [List.append_nil] at hstart
  constructor
  · simp [startTag, no_bracket_name hname, hopen]
  · intro rest
    have hread := componentTag?_append hname false hstart hopen hclose rest
    rw [Text.before?_of_getLast? (getLast?_printAttributes has)] at hread
    simpa [startTag] using hread

theorem isTag_endTag (hname : IsComponent name) : IsTag (endTag name) ⟨true, false, name, []⟩ := by
  constructor
  · simp [endTag, no_bracket_name hname]
  · intro rest
    have hread := @componentTag?_append name hname true [] nofun List.not_mem_nil List.not_mem_nil rest
    have hempty : Text.before? ['/'] [] = none := rfl
    rw [hempty] at hread
    simpa [endTag] using hread

theorem isTag_emptyTag (hname : IsComponent name) (has : ∀ a ∈ as, a.Writable) (hgap : Text.allBlank gap = true) :
    IsTag (emptyTag gap name as) ⟨false, true, name, printAttributes as ++ gap⟩ := by
  obtain ⟨hopen, hclose⟩ := no_bracket_printAttributes has
  have hblank : ∀ c ∈ gap, Text.isBlank c = true := List.all_eq_true.mp hgap
  have hno {d : Char} (hd : Text.isBlank d = false) : d ∉ gap := fun hmem =>
    Bool.false_ne_true (hd.symm.trans (hblank d hmem))
  have hstart : ∀ c ∈ (printAttributes as ++ gap ++ ['/']).head?, isTagNameChar c = false := by
    rw [List.append_assoc]
    refine head?_printAttributes_append ?_
    cases gap with
    | nil => rintro _ ⟨⟩; decide
    | cons d gap => rintro _ ⟨⟩; exact isTagNameChar_of_isBlank (hblank d List.mem_cons_self)
  constructor
  · simp [emptyTag, no_bracket_name hname, hopen, hno (by decide : Text.isBlank '<' = false)]
  · intro rest
    have hread := componentTag?_append hname false hstart (by simp [hopen, hno (by decide : Text.isBlank '<' = false)])
      (by simp [hclose, hno (by decide : Text.isBlank '>' = false)]) rest
    rw [Text.before?_append] at hread
    simpa [emptyTag] using hread

/-! ## Forests -/

/-- Text that stays as it is between tags. -/
structure IsLeaf (t : Text) : Prop where
  not_blank : Text.allBlank t = false
  no_bracket : '<' ∉ t
  unmarked : Unmarked t

/-- Component elements, one after the other and inside each other, with text between them. -/
inductive IsForest : List Node → Prop
  | nil : IsForest []
  | leaf {t : Text} {rest : List Node} (ht : IsLeaf t) (hnext : ∀ u, rest.head? ≠ some (.html u))
      (hrest : IsForest rest) : IsForest (.html t :: rest)
  | element {name : Text} {as : List Attribute} {children rest : List Node} (hname : IsComponent name)
      (has : ∀ a ∈ as, a.Writable) (hchildren : IsForest children) (hrest : IsForest rest) :
      IsForest (.element name as children :: rest)

mutual

/-- The markup of an element. The gap stands before the slash that closes an element without children. -/
def printNode (gap : Text) : Node → Text
  | .html t => t
  | .element name as children =>
    if children.isEmpty then '<' :: emptyTag gap name as
    else '<' :: startTag name as ++ printNodes gap children ++ '<' :: endTag name
  | _ => []

def printNodes (gap : Text) : List Node → Text
  | [] => []
  | n :: ns => printNode gap n ++ printNodes gap ns

end

variable {children ns : List Node}

theorem printNodes_empty_append (name : Text) (as : List Attribute) (ns : List Node) (rest : Text) :
    printNodes gap (.element name as [] :: ns) ++ rest =
      '<' :: (emptyTag gap name as ++ (printNodes gap ns ++ rest)) := by
  simp [printNodes, printNode]

theorem printNodes_element_append (name : Text) (as : List Attribute) (hchildren : children ≠ []) (ns : List Node)
    (rest : Text) :
    printNodes gap (.element name as children :: ns) ++ rest =
      '<' :: (startTag name as ++
        (printNodes gap children ++ '<' :: (endTag name ++ (printNodes gap ns ++ rest)))) := by
  simp [printNodes, printNode, hchildren]

/-! ### Pieces -/

/-- Where text without tags ends: with a tag, or with the chunk. -/
def Continues (t : Text) : Prop := t = [] ∨ ∃ body tag rest, IsTag body tag ∧ t = '<' :: (body ++ rest)

theorem IsTag.continues {body : Text} {tag : Tag} (h : IsTag body tag) (rest : Text) :
    Continues ('<' :: (body ++ rest)) := .inr ⟨body, tag, rest, h, rfl⟩

/-- Text may stand before a forest that does not begin with text. -/
theorem IsForest.continues (h : IsForest ns) (hgap : Text.allBlank gap = true)
    (hnext : ∀ u, ns.head? ≠ some (.html u)) (hrest : Continues rest) : Continues (printNodes gap ns ++ rest) := by
  cases h with
  | nil => exact hrest
  | leaf => exact absurd rfl (hnext _)
  | @element name as children ns hname has =>
    by_cases hchildren : children = []
    · rw [hchildren, printNodes_empty_append]
      exact (isTag_emptyTag hname has hgap).continues _
    · rw [printNodes_element_append name as hchildren]
      exact (isTag_startTag hname has).continues _

theorem pieces_of_no_bracket (ht : '<' ∉ t) : pieces t = [.raw t] := by
  rw [pieces, Text.splitOn_of_not_mem ht]
  rfl

/-- A tag is cut out of the text around it. -/
theorem pieces_append_tag {body : Text} {tag : Tag} (ht : '<' ∉ t) (h : IsTag body tag) (rest : Text) :
    pieces (t ++ '<' :: (body ++ rest)) = .raw t :: .tag tag ('<' :: body) :: pieces rest := by
  obtain ⟨first, parts, hsplit⟩ := List.exists_cons_of_ne_nil (Text.splitBy_ne_nil (· == '<') rest)
  have hbody : Text.splitOn '<' (body ++ rest) = (body ++ first) :: parts :=
    Text.splitOn_append_of_not_mem h.no_bracket hsplit
  rw [pieces, Text.splitOn_append_cons, Text.splitOn_of_not_mem ht, hbody, pieces, Text.splitOn, hsplit]
  simp only [List.singleton_append, piecesFrom, h.reads]
  simp

end Markup

namespace Builder

open Markup

variable {b : Builder} {t rest gap : Text} {ns : List Node}

/-- Adds some nodes to the innermost frame, one after the other. -/
def pushAll (ns : List Node) (b : Builder) : Builder := ns.foldl (fun b n => b.push n) b

theorem pushAll_root (ns root : List Node) : pushAll ns ⟨[], root⟩ = ⟨[], root ++ ns⟩ := by
  induction ns generalizing root with
  | nil => simp [pushAll]
  | cons n ns ih => simpa [pushAll, push] using ih (root ++ [n])

theorem pushAll_frame (ns : List Node) (f : Frame) (fs : List Frame) (root : List Node) :
    pushAll ns ⟨f :: fs, root⟩ = ⟨{ f with children := f.children ++ ns } :: fs, root⟩ := by
  induction ns generalizing f with
  | nil => simp [pushAll]
  | cons n ns ih => simpa [pushAll, push] using ih { f with children := f.children ++ [n] }

/-! ### Markup in turn -/

theorem markup_of_no_bracket (ht : '<' ∉ t) (b : Builder) : b.markup t = b.pushHtml t := by
  rw [markup, pieces_of_no_bracket ht]
  rfl

/-- A tag is taken in after the text before it, and then what follows it. -/
theorem markup_append_tag {body : Text} {tag : Tag} (ht : '<' ∉ t) (h : IsTag body tag) (rest : Text) (b : Builder) :
    b.markup (t ++ '<' :: (body ++ rest)) = ((b.pushHtml t).markupPiece (.tag tag ('<' :: body))).markup rest := by
  rw [markup, pieces_append_tag ht h]
  rfl

/-- A tag that no text precedes. -/
theorem markup_tag {body : Text} {tag : Tag} (h : IsTag body tag) (rest : Text) (b : Builder) :
    b.markup ('<' :: (body ++ rest)) = (b.markupPiece (.tag tag ('<' :: body))).markup rest :=
  markup_append_tag List.not_mem_nil h rest b

/-- Text between tags is taken in as raw markup. -/
theorem markup_append (ht : '<' ∉ t) (h : Continues rest) (b : Builder) :
    b.markup (t ++ rest) = (b.pushHtml t).markup rest := by
  rcases h with rfl | ⟨body, tag, rest, htag, rfl⟩
  · rw [List.append_nil, markup_of_no_bracket ht]
    rfl
  · rw [markup_append_tag ht htag, markup_tag htag]

theorem pushHtml_leaf (h : IsLeaf t) (b : Builder) : b.pushHtml t = b.push (.html t) := by
  simp only [pushHtml, h.not_blank, Bool.false_eq_true, if_false, decodeDots_of_unmarked h.unmarked]

/-! ### What each tag does -/

variable {name : Text} {as : List Attribute} {children : List Node}

theorem markup_emptyTag (hname : IsComponent name) (has : ∀ a ∈ as, a.Writable) (hgap : Text.allBlank gap = true)
    (rest : Text) (b : Builder) :
    b.markup ('<' :: (emptyTag gap name as ++ rest)) = (b.push (.element name as [])).markup rest := by
  have hattributes : attributes (printAttributes as ++ gap) = as := attributes_print has hgap
  rw [markup_tag (isTag_emptyTag hname has hgap)]
  simp only [markupPiece, Bool.false_eq_true, if_false, if_true, hattributes]

theorem markup_startTag (hname : IsComponent name) (has : ∀ a ∈ as, a.Writable) (rest : Text) (b : Builder) :
    b.markup ('<' :: (startTag name as ++ rest)) = (b.open' (.element name as)).markup rest := by
  have hattributes : attributes (printAttributes as ++ []) = as := attributes_print has rfl
  rw [List.append_nil] at hattributes
  rw [markup_tag (isTag_startTag hname has)]
  simp only [markupPiece, Bool.false_eq_true, if_false, hattributes]

/-- An end tag closes the innermost element, with the children that it has got. -/
theorem markup_endTag (hname : IsComponent name) (rest : Text) (b : Builder) :
    (pushAll children (b.open' (.element name as))).markup ('<' :: (endTag name ++ rest)) =
      (b.push (.element name as children)).markup rest := by
  have hopened : pushAll children (b.open' (.element name as)) =
      ⟨⟨.element name as, children, []⟩ :: b.frames, b.root⟩ := pushAll_frame children _ b.frames b.root
  rw [hopened, markup_tag (isTag_endTag hname)]
  simp [markupPiece, closeElement, depthOf?, popMany, pop, Frame.node]

/-- What a forest is printed to adds the forest to a tree, and then what follows it is taken in. -/
theorem markup_printNodes (hgap : Text.allBlank gap = true) (h : IsForest ns) (hrest : Continues rest) (b : Builder) :
    b.markup (printNodes gap ns ++ rest) = (b.pushAll ns).markup rest := by
  -- on the forest, for every tree and every text after it: the children are followed by the end tag of their element
  induction h generalizing b rest with
  | nil => rfl
  | @leaf t ns ht hnext hns ih =>
    have hprint : printNodes gap (.html t :: ns) ++ rest = t ++ (printNodes gap ns ++ rest) := List.append_assoc ..
    rw [hprint, markup_append ht.no_bracket (hns.continues hgap hnext hrest), pushHtml_leaf ht]
    exact ih hrest _
  | @element name as children ns hname has hchildren hns ihchildren ihns =>
    by_cases hempty : children = []
    · subst hempty
      rw [printNodes_empty_append, markup_emptyTag hname has hgap]
      exact ihns hrest _
    · -- the children are read while their element is open
      have hinner : Continues ('<' :: (endTag name ++ (printNodes gap ns ++ rest))) :=
        (isTag_endTag hname).continues _
      rw [printNodes_element_append name as hempty, markup_startTag hname has, ihchildren hinner, markup_endTag hname]
      exact ihns hrest _

/-- A forest of component elements is read from its markup as it was. -/
theorem finish_markup_printNodes (hgap : Text.allBlank gap = true) (h : IsForest ns) :
    (start.markup (printNodes gap ns)).finish = ns := by
  have hread := markup_printNodes hgap h (.inl rfl) start
  rw [List.append_nil] at hread
  rw [hread, start, pushAll_root]
  rfl

end Builder

namespace NestedCards

/-- Elements of one name inside and beside each other. There are slashes and equals signs in values, and flags before
the slash of a tag. -/
def forest : List Node :=
  [.html "before ",
    .element "Card" [⟨"href", .string "/a=b/"⟩, ⟨"open", .flag⟩]
      [.element "Card" [⟨"open", .flag⟩] [], .html " > ", .element "Ui.Card$" [⟨"n", .expression "1 + 1"⟩] [.html "x"]],
    .element "Card" [] []]

theorem isForest : Markup.IsForest forest := by
  have hcard : Markup.IsComponent "Card" := ⟨by decide, by decide, by decide⟩
  have hdotted : Markup.IsComponent "Ui.Card$" := ⟨by decide, by decide, by decide⟩
  refine .leaf ⟨by decide, by decide, by decide⟩ nofun (.element hcard (by decide) ?_ (.element hcard nofun .nil .nil))
  refine .element hcard (by decide) .nil (.leaf ⟨by decide, by decide, by decide⟩ nofun ?_)
  exact .element hdotted (by decide) (.leaf ⟨by decide, by decide, by decide⟩ nofun .nil) .nil

/-- With and without a blank before the slash of a tag, they are read back. -/
theorem read_back :
    Markup.printNodes [] forest =
      "before <Card href=\"/a=b/\" open><Card open/> > <Ui.Card$ n=\x7b1 + 1\x7d>x</Ui.Card$></Card><Card/>" ∧
    (Builder.start.markup (Markup.printNodes [] forest)).finish = forest ∧
    (Builder.start.markup (Markup.printNodes " " forest)).finish = forest :=
  ⟨by decide, Builder.finish_markup_printNodes rfl isForest, Builder.finish_markup_printNodes rfl isForest⟩

end NestedCards

end StaticSite
