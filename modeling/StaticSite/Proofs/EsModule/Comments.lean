import StaticSite.Proofs.EsModule.ImportBlock
import StaticSite.Proofs.EsModule.Places

/-!
# Comments in blocks

A block is searched with its comments in it, so a comment can bind what it mentions, and hide what follows it. Where
nothing is read in a comment, it changes nothing that the block binds: what stands before it is settled at its place,
and what stands behind it is found as before. So it is with every comment in a block of imports that mentions neither
imports nor exports.
-/
namespace StaticSite.EsModule

variable {α : Type} {read : Text → Option (α × Text)} {t u comment : Text} {previous other : Option Char}

/-! ## Comments -/

/-- A comment before a text. A line comment has its newline with it, or it finds it in the text. -/
inductive IsComment (u : Text) : Text → Prop
  | block (content : Text) (h : ¬"*/".toList <:+: content) : IsComment u ("/*" ++ (content ++ "*/"))
  | line (content : Text) (h : '\n' ∉ content) : IsComment u ("//" ++ (content ++ ['\n']))
  | lineEnd (content : Text) (h : '\n' ∉ content) (hu : ∀ d ∈ u.head?, d = '\n') : IsComment u ("//" ++ content)

/-- No declaration is read from any word of a comment on. -/
def DeclaresNothing (u comment : Text) : Prop :=
  ∀ start ∈ wordStarts none comment, importClause? (start ++ u) = none ∧ exportName? (start ++ u) = none

instance (u comment : Text) : Decidable (DeclaresNothing u comment) :=
  List.decidableBAll (fun start => importClause? (start ++ u) = none ∧ exportName? (start ++ u) = none) _

namespace IsComment

theorem head? (h : IsComment u comment) : ∀ d ∈ (comment ++ u).head?, d = '/' := by
  cases h <;> simp

/-- Behind a comment a word may start, or none starts there. -/
theorem last (h : IsComment u comment) :
    (∀ c ∈ comment.getLast?, Text.isWord c = false) ∨ ∀ d ∈ u.head?, Text.isWord d = false := by
  cases h with
  | block content =>
    have hlast : ("/*" ++ (content ++ "*/")).getLast? = some '/' := by
      rw [List.getLast?_append_of_ne_nil _ (by simp), List.getLast?_append_of_ne_nil _ (by decide)]
      rfl
    exact .inl fun c hc => by obtain rfl := Option.some.inj (hlast ▸ hc); rfl
  | line content =>
    have hlast : ("//" ++ (content ++ ['\n'])).getLast? = some '\n' := by
      rw [← List.append_assoc, List.getLast?_concat]
    exact .inl fun c hc => by obtain rfl := Option.some.inj (hlast ▸ hc); rfl
  | lineEnd content _ hu => exact .inr fun d hd => hu d hd ▸ rfl

end IsComment

/-! ## The search behind a comment -/

theorem mem_wordStarts_none {start : Text} (h : start ∈ wordStarts previous t) : start ∈ wordStarts none t := by
  cases t with
  | nil => exact h
  | cons c t =>
    rw [wordStarts] at h
    split_ifs at h
    · exact List.mem_cons_of_mem _ h
    · exact h

/-- What is found does not depend on the character before it, if this ends no word or no word starts behind it. -/
theorem foundFrom_previous (hread : Advances read) (hword : ∀ c t, Text.isWord c = false → read (c :: t) = none)
    (h : previous.any Text.isWord = other.any Text.isWord ∨ ∀ d ∈ u.head?, Text.isWord d = false) :
    foundFrom read previous u = foundFrom read other u := by
  cases u with
  | nil => rfl
  | cons d u =>
    rw [foundFrom_cons hread, foundFrom_cons hread other]
    rcases h with hsame | hhead
    · rw [hsame]
    · rw [hword d u (hhead d rfl)]
      simp

theorem any_isWord_last (h : ∀ c ∈ t.getLast?, Text.isWord c = false) (hprevious : previous.any Text.isWord = false) :
    (t.getLast?.or previous).any Text.isWord = false := by
  cases hlast : t.getLast? with
  | none => exact hprevious
  | some c => exact h c hlast

/-- A comment at a place changes nothing that is found before it and behind it. -/
theorem foundFrom_comment (hread : Advances read) (hword : ∀ c t, Text.isWord c = false → read (c :: t) = none)
    (hplace : Apart t u) (hcomment : IsComment u comment) (hbefore : ∀ v, Apart t v → Settled read none t v)
    (hnothing : ∀ start ∈ wordStarts none comment, read (start ++ u) = none) :
    foundFrom read none (t ++ (comment ++ u)) = foundFrom read none (t ++ u) := by
  have hslash : Apart t (comment ++ u) := .inr fun d hd => .inr (hcomment.head? d hd)
  have hpast : foundFrom read (t.getLast?.or none) (comment ++ u) =
      foundFrom read (comment.getLast?.or (t.getLast?.or none)) u :=
    foundFrom_append_of_starts hread fun start hstart => hnothing start (mem_wordStarts_none hstart)
  have hsame : foundFrom read (comment.getLast?.or (t.getLast?.or none)) u = foundFrom read (t.getLast?.or none) u := by
    refine foundFrom_previous hread hword ?_
    rcases hplace with hend | hhead
    · refine hcomment.last.imp_left fun hlast => ?_
      have hbefore : (t.getLast?.or none).any Text.isWord = false :=
        any_isWord_last (fun c hc => (Bool.or_eq_false_iff.mp (hend c hc)).1) rfl
      rw [any_isWord_last hlast hbefore, hbefore]
    · refine .inr fun d hd => ?_
      rcases hhead d hd with hblank | rfl
      · exact Text.isWord_of_isBlank hblank
      · rfl
  rw [foundFrom_append_of_settled hread (hbefore _ hslash), foundFrom_append_of_settled hread (hbefore u hplace), hpast,
    hsame]

/-- A comment in which nothing is read changes nothing that a block binds. -/
theorem boundIdentifiers_comment (hplace : IsPlace t u) (hcomment : IsComment u comment)
    (hnothing : DeclaresNothing u comment) :
    boundIdentifiers (t ++ (comment ++ u)) = boundIdentifiers (t ++ u) := by
  have himports : findAll importClause? (t ++ (comment ++ u)) = findAll importClause? (t ++ u) := by
    rw [findAll_eq_foundFrom advances_importClause?, findAll_eq_foundFrom advances_importClause?]
    exact foundFrom_comment advances_importClause?
      (fun c t hc => importClause?_eq_none (afterWord?_cons_of_not_isWord (by decide) hc t))
      hplace.apart hcomment (fun _ hv => hplace.settled_imports hv) fun start hstart => (hnothing start hstart).1
  have hexports : findAll exportName? (t ++ (comment ++ u)) = findAll exportName? (t ++ u) := by
    rw [findAll_eq_foundFrom advances_exportName?, findAll_eq_foundFrom advances_exportName?]
    exact foundFrom_comment advances_exportName?
      (fun c t hc => exportName?_eq_none (afterWord?_cons_of_not_isWord (by decide) hc t))
      hplace.apart hcomment (fun _ hv => hplace.settled_exports hv) fun start hstart => (hnothing start hstart).2
  rw [boundIdentifiers, himports, hexports, boundIdentifiers]

/-! ## Comments in blocks of imports -/

theorem ImportDeclaration.exists_end (d : ImportDeclaration) : ∃ t c, EndsClause c ∧ d.text = t ++ [c] := by
  have hends (s : Specifier) : EndsClause s.quote := s.quotes.elim (fun h => .inr (.inl h)) .inl
  cases d with
  | sideEffect gap s =>
    exact ⟨"import" ++ (gap.text ++ s.quote :: s.text), s.quote, hends s, by simp [text, Specifier.closed]⟩
  | binding afterImport clause beforeFrom afterFrom s =>
    exact ⟨"import" ++ (afterImport.text ++ (clause.text ++ (beforeFrom.text ++ ("from" ++ (afterFrom.text ++
      s.quote :: s.text))))), s.quote, hends s, by simp [text, Specifier.closed]⟩

/-- A line ends with the quote behind its specifier or with its semicolon, and with white space. -/
theorem ImportLine.exists_end (l : ImportLine) :
    ∃ t c gap, EndsClause c ∧ (∀ d ∈ gap, Text.isBlank d = true) ∧ l.text = t ++ c :: gap := by
  cases h : l.semicolon with
  | none =>
    obtain ⟨t, c, hends, htext⟩ := l.declaration.exists_end
    exact ⟨t, c, l.after.text, hends, l.after.blank, by simp [text, ending, h, htext]⟩
  | some gap =>
    exact ⟨l.declaration.text ++ gap.text, ';', l.after.text, .inr (.inr rfl), l.after.blank, by simp [text, ending, h]⟩

/-- Every line of a block of imports ends at a place. -/
theorem isPlace_blockText (block : List ImportLine) (u : Text) : IsPlace (blockText block) u := by
  rcases List.eq_nil_or_concat' block with rfl | ⟨block, l, rfl⟩
  · exact ⟨by simp [blockText, wordStarts], by simp [blockText, wordStarts], .inl (by simp [blockText])⟩
  · obtain ⟨t, c, gap, hends, hgap, htext⟩ := l.exists_end
    have hblock : blockText (block ++ [l]) = (blockText block ++ t) ++ c :: gap := by simp [blockText, htext]
    rw [hblock]
    exact isPlace_of_end hends hgap _ u

/-- A keyword that a comment does not hold starts nowhere in it, whatever follows the comment. -/
theorem IsComment.afterWord?_eq_none {word start : Text} (h : IsComment u comment) (hword : IsKeyword word)
    (hnot : ¬word <:+: comment) (hstart : start ∈ wordStarts none comment) : afterWord? word (start ++ u) = none := by
  obtain ⟨hsuffix, hne⟩ := suffix_of_mem_wordStarts hstart
  have hended : ∀ d ∈ u.head?, ¬start ++ [d] <+: word := by
    intro d hd hbegin
    rcases h.last with hlast | hhead
    · obtain ⟨init, last, rfl⟩ := (List.eq_nil_or_concat' start).resolve_left hne
      obtain ⟨before, rfl⟩ := hsuffix
      have hend : Text.isWord last = false := hlast last (by simp [← List.append_assoc])
      exact not_mem_of_isWord hword hend (hbegin.subset (by simp))
    · exact not_mem_of_isWord hword (hhead d hd) (hbegin.subset (by simp))
  have hnone : Text.after? word start = none :=
    Text.after?_eq_none_iff.mpr fun hbegin => hnot (hbegin.isInfix.trans hsuffix.isInfix)
  rw [afterWord?, Text.after?_append_of_ended hended, hnone]
  rfl

theorem IsComment.declaresNothing (h : IsComment u comment) (himport : ¬"import".toList <:+: comment)
    (hexport : ¬"export".toList <:+: comment) : DeclaresNothing u comment := fun _ hstart =>
  ⟨importClause?_eq_none (h.afterWord?_eq_none (by decide) himport hstart),
    exportName?_eq_none (h.afterWord?_eq_none (by decide) hexport hstart)⟩

/-- A comment that mentions neither imports nor exports can stand behind any line of a block of imports, and before any
other text. -/
theorem boundIdentifiers_remark (block : List ImportLine) (h : IsComment u comment)
    (himport : ¬"import".toList <:+: comment) (hexport : ¬"export".toList <:+: comment) :
    boundIdentifiers (blockText block ++ (comment ++ u)) = boundIdentifiers (blockText block ++ u) :=
  boundIdentifiers_comment (isPlace_blockText block u) h (h.declaresNothing himport hexport)

end StaticSite.EsModule
