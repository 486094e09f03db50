import StaticSite.Proofs.EsModule.Found
import StaticSite.Proofs.EsModule.ImportClause

/-!
# Blocks of import declarations

A block of import declarations binds the local names of its clauses, and no others. A side-effect import starts no
clause, so the search goes past it to the next declaration; a clause ends at the `from` that a quote follows, whatever
its names are; and no name of a clause, nor a specifier, leads to an exported declaration.
-/
namespace StaticSite.EsModule

/-! ## Blocks as they are written -/

/-- A specifier without white space, between quotes. -/
structure Specifier where
  quote : Char
  text : Text
  quotes : quote = '"' ∨ quote = '\''
  unspaced : text.Unspaced

/-- An import declaration, with the white space between its words. -/
inductive ImportDeclaration where
  | sideEffect (gap : Blanks) (specifier : Specifier)
  | binding (afterImport : Break) (clause : ImportClause) (beforeFrom : Break) (afterFrom : Blanks)
      (specifier : Specifier)

/-- A declaration with the white space before its semicolon, if it has one, and the line ends after it. -/
structure ImportLine where
  declaration : ImportDeclaration
  semicolon : Option Blanks
  after : Blanks

/-- The specifier from its first character to the quote behind it. -/
def Specifier.closed (s : Specifier) : Text := s.text ++ [s.quote]

namespace ImportDeclaration

def text : ImportDeclaration → Text
  | sideEffect gap specifier => "import" ++ (gap.text ++ specifier.quote :: specifier.closed)
  | binding afterImport clause beforeFrom afterFrom specifier =>
    "import" ++ (afterImport.text ++ (clause.text ++ (beforeFrom.text ++ ("from" ++ (afterFrom.text ++
      specifier.quote :: specifier.closed)))))

/-- The names that the declaration binds. -/
def localNames : ImportDeclaration → List LocalName
  | sideEffect _ _ => []
  | binding _ clause _ _ _ => clause.localNames

end ImportDeclaration

namespace ImportLine

/-- What follows the declaration on its line, and the line ends. -/
def ending (l : ImportLine) : Text := (l.semicolon.map fun gap => gap.text ++ [';']).getD [] ++ l.after.text

def text (l : ImportLine) : Text := l.declaration.text ++ l.ending

def localNames (l : ImportLine) : List LocalName := l.declaration.localNames

end ImportLine

/-- The text of a block, line by line. -/
def blockText (block : List ImportLine) : Text := block.flatMap ImportLine.text

/-! ## The clause of a declaration -/

variable {t u : Text} {quote : Char}

theorem specifierFollows?_of_from (gap : Break) (gap' : Blanks) (hquote : quote = '"' ∨ quote = '\'') (u : Text) :
    specifierFollows? (gap.text ++ ("from" ++ (gap'.text ++ quote :: u))) = some u := by
  have hfrom : Text.trimStart ("from" ++ (gap'.text ++ quote :: u)) = "from" ++ (gap'.text ++ quote :: u) :=
    Text.trimStart_of_unspaced (by decide) (by decide) _
  have hquoted : Text.trimStart (gap'.text ++ quote :: u) = quote :: u := by
    rw [Text.trimStart_append_of_blank gap'.blank]
    rcases hquote with rfl | rfl <;> exact Text.trimStart_cons_of_not_blank rfl _
  rw [specifierFollows?, afterBlanks?_of_blank gap.blank gap.ne_nil, hfrom]
  dsimp only [Option.bind_eq_bind, Option.bind_some]
  rw [Text.after?_append]
  dsimp only [Option.bind_some]
  rw [hquoted]
  rcases hquote with rfl | rfl <;> rfl

/-- The text may stand before `from` as a clause, or at the end of one. -/
structure IsClauseEnd (t : Text) : Prop where
  mark : ∀ c ∈ t, ¬EndsClause c
  last : ∀ c ∈ t.getLast?, Text.isBlank c = false

theorem IsClauseEnd.of_cons {c : Char} (h : IsClauseEnd (c :: t)) : IsClauseEnd t where
  mark d hd := h.mark d (List.mem_cons_of_mem c hd)
  last d hd := by
    cases t with
    | nil => cases hd
    | cons e t => exact h.last d (by simpa [List.getLast?_cons] using hd)

theorem ne_quotes_of_isBlank {c : Char} (h : Text.isBlank c = true) : c ≠ '\'' ∧ c ≠ '"' := by
  constructor <;> (rintro rfl; cases h)

/-- What stands before the `from` of the first quote in a text is told by the text. -/
theorem eq_of_from {v w gap gap' next next' : Text} {quote' : Char} (hv : ∀ c ∈ v, c ≠ '\'' ∧ c ≠ '"')
    (hw : ∀ c ∈ w, c ≠ '\'' ∧ c ≠ '"') (hgap : ∀ c ∈ gap, Text.isBlank c = true)
    (hgap' : ∀ c ∈ gap', Text.isBlank c = true) (hquote : quote = '"' ∨ quote = '\'')
    (hquote' : quote' = '"' ∨ quote' = '\'')
    (h : v ++ ("from" ++ (gap ++ quote :: next)) = w ++ ("from" ++ (gap' ++ quote' :: next'))) : v = w := by
  -- Of both sides the part before the first quote is taken, and the white space at its end is dropped.
  have hbefore {v gap next : Text} {quote : Char} (hquote : quote = '"' ∨ quote = '\'')
      (hv : ∀ c ∈ v, c ≠ '\'' ∧ c ≠ '"') (hgap : ∀ c ∈ gap, Text.isBlank c = true) :
      (v ++ ("from" ++ (gap ++ quote :: next))).takeWhile (fun c => c != '\'' && c != '"') = v ++ "from" ++ gap := by
    have hfrom : ∀ c ∈ "from".toList, c ≠ '\'' ∧ c ≠ '"' := by
      intro c hc
      constructor <;> (rintro rfl; revert hc; decide)
    have htext : v ++ ("from" ++ (gap ++ quote :: next)) = v ++ "from" ++ gap ++ quote :: next := by simp
    rw [htext]
    refine Text.takeWhile_append_of_head? (List.all_eq_true.mpr fun c hc => ?_) fun c hc => ?_
    · rw [List.mem_append, List.mem_append] at hc
      simpa using hc.elim (fun hc => hc.elim (hv c) (hfrom c)) fun hc => ne_quotes_of_isBlank (hgap c hc)
    · obtain rfl := Option.some.inj hc
      rcases hquote with rfl | rfl <;> rfl
  have hlast (v : Text) : ∀ c ∈ (v ++ "from").getLast?, Text.isBlank c = false := by
    intro c hc
    rw [List.getLast?_append_of_ne_nil _ (by decide)] at hc
    obtain rfl := Option.some.inj hc
    rfl
  have htext : v ++ "from" ++ gap = w ++ "from" ++ gap' := by
    rw [← hbefore hquote hv hgap, h, hbefore hquote' hw hgap']
  have hfrom : v ++ "from" = w ++ "from" := by
    rw [← Text.trimEnd_append_of_blank hgap (hlast v), htext, Text.trimEnd_append_of_blank hgap' (hlast w)]
  exact List.append_cancel_right hfrom

/-- No specifier follows before the end of a clause. -/
theorem specifierFollows?_eq_none (ht : IsClauseEnd t) (hne : t ≠ []) (gap : Break) (gap' : Blanks)
    (hquote : quote = '"' ∨ quote = '\'') (u : Text) :
    specifierFollows? (t ++ (gap.text ++ ("from" ++ (gap'.text ++ quote :: u)))) = none := by
  cases hfollows : specifierFollows? (t ++ (gap.text ++ ("from" ++ (gap'.text ++ quote :: u)))) with
  | none => rfl
  | some next =>
    obtain ⟨b, b', quote', -, hb, hb', hquote', hsplit⟩ := exists_of_specifierFollows? hfollows
    have hmarks : ∀ c ∈ t ++ gap.text, c ≠ '\'' ∧ c ≠ '"' := by
      intro c hc
      rcases List.mem_append.mp hc with hc | hc
      · exact (not_endsClause_iff.mp (ht.mark c hc)).imp_right And.left
      · exact ne_quotes_of_isBlank (gap.blank c hc)
    have hgap : t ++ gap.text = b :=
      eq_of_from hmarks (fun c hc => ne_quotes_of_isBlank (hb c hc)) gap'.blank hb' hquote hquote'
        ((List.append_assoc _ _ _).trans hsplit)
    obtain ⟨init, last, rfl⟩ := (List.eq_nil_or_concat' t).resolve_left hne
    have hlast : Text.isBlank last = false := ht.last last (by simp)
    have hmem : last ∈ b := by simp [← hgap]
    simp [hb last hmem] at hlast

/-- A clause is read up to the `from` that a quote follows. -/
theorem clause?_of_from (ht : IsClauseEnd t) (hne : t ≠ []) (gap : Break) (gap' : Blanks)
    (hquote : quote = '"' ∨ quote = '\'') (u : Text) :
    clause? (t ++ (gap.text ++ ("from" ++ (gap'.text ++ quote :: u)))) = some (t, u) := by
  induction t with
  | nil => exact absurd rfl hne
  | cons c t ih =>
    obtain ⟨hsingle, hdouble, hend⟩ := not_endsClause_iff.mp (ht.mark c List.mem_cons_self)
    rw [List.cons_append]
    by_cases hnil : t = []
    · subst hnil
      exact clause?_cons_of_some hsingle hdouble hend (specifierFollows?_of_from gap gap' hquote u)
    · rw [clause?_cons_of_none hsingle hdouble hend (specifierFollows?_eq_none ht.of_cons hnil gap gap' hquote u),
        ih ht.of_cons hnil]
      rfl

theorem ImportClause.isClauseEnd (clause : ImportClause) : IsClauseEnd clause.text where
  mark c hc hends := by
    have h := clause.mem_text hc
    rcases hends with rfl | rfl | rfl <;> (revert h; decide)
  last := clause.getLast?_text

/-- What is read of a declaration that binds names is its clause. -/
theorem importClause?_binding (afterImport : Break) (clause : ImportClause) (beforeFrom : Break) (afterFrom : Blanks)
    (hquote : quote = '"' ∨ quote = '\'') (u : Text) :
    importClause? ("import" ++ (afterImport.text ++ (clause.text ++ (beforeFrom.text ++ ("from" ++ (afterFrom.text ++
      quote :: u)))))) = some (clause.text, u) := by
  have hstart : Text.trimStart (clause.text ++ (beforeFrom.text ++ ("from" ++ (afterFrom.text ++ quote :: u)))) =
      clause.text ++ (beforeFrom.text ++ ("from" ++ (afterFrom.text ++ quote :: u))) := by
    obtain ⟨c, rest, htext⟩ := List.exists_cons_of_ne_nil clause.ne_nil
    rw [htext]
    exact Text.trimStart_cons_of_not_blank (clause.head?_text c (by rw [htext]; rfl)) _
  rw [importClause?, afterWord?, Text.after?_append, Option.bind_some,
    afterBlanks?_of_blank afterImport.blank afterImport.ne_nil, hstart]
  exact clause?_of_from clause.isClauseEnd clause.ne_nil beforeFrom afterFrom hquote u

/-! ## Where nothing is read -/

section Quiet

variable {α : Type} {read : Text → Option (α × Text)} {word : Text}

/-- A word before something that is no part of a word starts nothing, unless it ends with the reader's own word. -/
theorem quiet_word (hread : ∀ t, afterWord? word t = none → read t = none)
    (hchars : word.all isIdentifierChar = true) (ht : t.Unspaced) (hu : ∀ d ∈ u.head?, isIdentifierChar d = false)
    (hword : word <:+ t → read (word ++ u) = none) : Quiet read t u := by
  intro start hsuffix _
  by_cases heq : start = word
  · subst heq
    exact hword hsuffix
  · have hstart : Text.Unspaced start := fun c hc => ht c (hsuffix.subset hc)
    refine hread _ ((afterWord?_append_of_unspaced hstart fun d hd hmem => ?_).trans (if_neg heq))
    exact Bool.false_ne_true ((hu d hd).symm.trans (List.all_eq_true.mp hchars d hmem))

theorem quiet_of_not_mem (w : Char) (rest : Text) (hread : ∀ t, afterWord? (w :: rest) t = none → read t = none)
    (ht : w ∉ t) (u : Text) : Quiet read t u := by
  intro start hsuffix hne
  obtain ⟨c, start, rfl⟩ := List.exists_cons_of_ne_nil hne
  have hc : w ≠ c := by
    rintro rfl
    exact ht (hsuffix.subset List.mem_cons_self)
  refine hread _ ?_
  simp [afterWord?, Text.after?, hc]

/-- A specifier starts nothing: no white space follows a word before its closing quote. -/
theorem Specifier.quiet_closed (hread : ∀ t, afterWord? word t = none → read t = none) (hword : IsKeyword word)
    (s : Specifier) (u : Text) : Quiet read s.closed u := by
  have hquote : Text.isBlank s.quote = false ∧ Text.isWord s.quote = false := by
    rcases s.quotes with h | h <;> rw [h] <;> decide
  have hclosed : s.closed.Unspaced := s.unspaced.append (by simpa [Text.Unspaced] using hquote.1)
  intro start hsuffix hne
  have hmem : s.quote ∈ start := by
    obtain ⟨init, hinit⟩ := hsuffix
    have hlast : (init ++ start).getLast? = some s.quote := by
      rw [hinit, closed, List.getLast?_concat]
    rw [List.getLast?_append_of_ne_nil _ hne] at hlast
    exact List.mem_of_getLast? hlast
  have hnot : s.quote ∉ word := not_mem_of_isWord hword hquote.2
  have hstart : Text.Unspaced start := fun c hc => hclosed c (hsuffix.subset hc)
  refine hread _ ((afterWord?_append_of_ended hstart fun d _ hbegin => ?_).trans (if_neg ?_))
  · exact hnot (hbegin.subset (List.mem_append_left _ hmem))
  · rintro rfl
    exact hnot hmem

end Quiet

theorem importClause?_eq_none (h : afterWord? "import".toList t = none) : importClause? t = none := by
  rw [importClause?, h]
  rfl

/-! ## No export in a clause -/

/-- The text leads from `export` to no declared name. -/
structure Undeclaring (t : Text) : Prop where
  trimmed : Text.trimStart t = t
  no_default : Text.after? "default".toList t = none
  no_async : Text.after? "async".toList t = none
  no_declarator : afterDeclarator? t = none

theorem undeclaring_from (u : Text) : Undeclaring ("from" ++ u) :=
  ⟨Text.trimStart_cons_of_not_blank rfl _, rfl, rfl, rfl⟩

theorem undeclaring_as (u : Text) : Undeclaring ("as" ++ ' ' :: u) :=
  ⟨Text.trimStart_cons_of_not_blank rfl _, rfl, rfl, rfl⟩

theorem undeclaring_mark {c : Char} (hc : c = ',' ∨ c = '\x7d') (u : Text) : Undeclaring (c :: u) := by
  rcases hc with rfl | rfl <;> exact ⟨Text.trimStart_cons_of_not_blank rfl _, rfl, rfl, rfl⟩

theorem afterBlanks?_of_trimmed (h : Text.trimStart t = t) : afterBlanks? t = none := by
  cases t with
  | nil => rfl
  | cons c t =>
    cases hc : Text.isBlank c with
    | false => simp [afterBlanks?, hc]
    | true =>
      have hlength : (Text.trimStart t).length ≤ t.length := (List.dropWhile_suffix _).length_le
      have htrim := congrArg List.length h
      rw [trimStart_cons_blank hc, List.length_cons] at htrim
      omega

/-- Behind `export` and white space no declaration is read in a text that leads to no name. -/
theorem exportName?_export_blanks (b : Blanks) (hu : Undeclaring u) :
    exportName? ("export" ++ (b.text ++ u)) = none := by
  by_cases hb : b.text = []
  · refine exportName?_eq_none ?_
    rw [hb, afterWord?, Text.after?_append]
    exact afterBlanks?_of_trimmed hu.trimmed
  · have hword : afterWord? "export".toList ("export" ++ (b.text ++ u)) =
        afterWord? "export".toList ("export" ++ ' ' :: u) := by
      rw [afterWord?, afterWord?, Text.after?_append, Text.after?_append, Option.bind_some, Option.bind_some,
        afterBlanks?_of_blank b.blank hb, afterBlanks?_cons isBlank_space]
    have hspace := exportName?_export isBlank_space hu.trimmed hu.no_default hu.no_async hu.no_declarator
    rw [exportName?, hword, ← exportName?]
    exact hspace

/-- Nothing is exported where the first letter of `export` is missing. -/
theorem quiet_exportName?_of_not_mem (ht : 'e' ∉ t) (u : Text) : Quiet exportName? t u :=
  quiet_of_not_mem 'e' "xport" (fun _ => exportName?_eq_none) ht u

theorem Blanks.quiet (b : Blanks) (u : Text) : Quiet exportName? b.text u :=
  quiet_exportName?_of_not_mem (b.not_mem rfl) u

/-! A name of a clause may end in `export`, and then white space may follow it; but the next word declares nothing. -/

theorem LocalName.quiet (n : LocalName) (b : Blanks) (hu : Undeclaring u)
    (hhead : ∀ d ∈ (b.text ++ u).head?, isIdentifierChar d = false) : Quiet exportName? n.text (b.text ++ u) :=
  quiet_word (fun _ => exportName?_eq_none) (by decide) n.unspaced hhead fun _ => exportName?_export_blanks b hu

theorem NamedItem.quiet (i : NamedItem) {c : Char} (hc : c = ',' ∨ c = '\x7d') (u : Text) :
    Quiet exportName? i.text (c :: u) := by
  have hmark : ∀ d ∈ (c :: u).head?, isIdentifierChar d = false := by
    intro d hd
    obtain rfl := Option.some.inj hd
    rcases hc with rfl | rfl <;> rfl
  have hname (n : LocalName) : Quiet exportName? n.text (i.after.text ++ c :: u) :=
    n.quiet i.after (undeclaring_mark hc u) (i.after.head?_append hmark)
  have hcore : Quiet exportName? i.core (i.after.text ++ c :: u) := by
    cases h : i.renamed with
    | none =>
      rw [i.core_of_not_renamed h]
      exact hname i.name
    | some n =>
      have hspace :
          ∀ d ∈ (" as ".toList ++ (n.text ++ (i.after.text ++ c :: u))).head?, isIdentifierChar d = false := by
        intro d hd
        obtain rfl : ' ' = d := Option.some.inj hd
        rfl
      have hfirst := i.name.quiet ⟨[' '], by simp [isBlank_space]⟩
        (undeclaring_as (n.text ++ (i.after.text ++ c :: u))) hspace
      have has : Quiet exportName? (" as ".toList ++ n.text) (i.after.text ++ c :: u) :=
        (quiet_exportName?_of_not_mem (by decide) _).append (hname n)
      rw [i.core_of_renamed h]
      refine Quiet.append ?_ has
      rw [List.append_assoc]
      exact hfirst
  exact (i.before.quiet _).append (hcore.append (i.after.quiet _))

theorem quiet_join {parts : List Text}
    (h : ∀ part ∈ parts, ∀ c u, (c = ',' ∨ c = '\x7d') → Quiet exportName? part (c :: u)) (u : Text) :
    Quiet exportName? (Text.join "," parts) ('\x7d' :: u) := by
  fun_induction Text.join ",".toList parts with
  | case1 => exact Quiet.nil
  | case2 part => exact h part List.mem_cons_self '\x7d' u (.inr rfl)
  | case3 part part' parts ih =>
    have hrest := ih fun p hp => h p (List.mem_cons_of_mem part hp)
    have hcomma := quiet_exportName?_of_not_mem (t := [',']) (by decide) (Text.join "," (part' :: parts) ++ '\x7d' :: u)
    rw [List.append_assoc]
    exact (h part List.mem_cons_self ',' _ (.inl rfl)).append (hcomma.append hrest)

theorem BindingGroup.quiet (g : BindingGroup) (gap : Break) (hu : Undeclaring u) :
    Quiet exportName? g.text (gap.text ++ u) := by
  cases g with
  | star beforeAs afterAs name =>
    have hstart : 'e' ∉ '*' :: (beforeAs.text ++ ("as" ++ afterAs.text)) := by
      simp [beforeAs.not_mem (c := 'e') rfl, afterAs.not_mem (c := 'e') rfl]
    have hname : Quiet exportName? name.text (gap.text ++ u) := name.quiet gap.toBlanks hu (gap.head?_append u)
    have htext : (star beforeAs afterAs name).text = '*' :: (beforeAs.text ++ ("as" ++ afterAs.text)) ++ name.text := by
      simp [text]
    rw [htext]
    exact (quiet_exportName?_of_not_mem hstart _).append hname
  | named items trailing =>
    have hparts : ∀ part ∈ parts items trailing, ∀ c u, (c = ',' ∨ c = '\x7d') →
        Quiet exportName? part (c :: u) := by
      intro part hpart c u hc
      rw [parts, List.mem_append, List.mem_map] at hpart
      rcases hpart with ⟨i, -, rfl⟩ | hlast
      · exact i.quiet hc u
      · obtain ⟨b, -, rfl⟩ := Option.map_eq_some_iff.mp (Option.mem_toList.mp hlast)
        exact b.quiet _
    have hopen : Quiet exportName? ['\x7b'] (Text.join "," (parts items trailing) ++ ['\x7d'] ++ (gap.text ++ u)) :=
      quiet_exportName?_of_not_mem (by decide) _
    have hclose : Quiet exportName? ['\x7d'] (gap.text ++ u) := quiet_exportName?_of_not_mem (by decide) _
    exact hopen.append ((quiet_join hparts _).append hclose)

theorem ImportClause.quiet (clause : ImportClause) (gap : Break) (hu : Undeclaring u) :
    Quiet exportName? clause.text (gap.text ++ u) := by
  cases clause with
  | default name => exact name.quiet gap.toBlanks hu (gap.head?_append u)
  | group g => exact g.quiet gap hu
  | both name before after g =>
    have hcomma : ∀ d ∈ (',' :: (after.text ++ g.text ++ (gap.text ++ u))).head?, isIdentifierChar d = false := by
      intro d hd
      obtain rfl : ',' = d := Option.some.inj hd
      rfl
    have hname : Quiet exportName? name.text (before.text ++ ',' :: (after.text ++ g.text ++ (gap.text ++ u))) :=
      name.quiet before (undeclaring_mark (.inl rfl) _) (before.head?_append hcomma)
    have hbetween : Quiet exportName? (before.text ++ ',' :: after.text) (g.text ++ (gap.text ++ u)) :=
      quiet_exportName?_of_not_mem (by simp [before.not_mem (c := 'e') rfl, after.not_mem (c := 'e') rfl]) _
    have hrest := hbetween.append (g.quiet gap hu)
    have htext : (both name before after g).text = name.text ++ (before.text ++ ',' :: after.text ++ g.text) := by
      simp [text]
    rw [htext]
    refine Quiet.append ?_ hrest
    simpa using hname

/-- No declaration is exported in a block of imports. -/
theorem ImportDeclaration.quiet (d : ImportDeclaration) (u : Text) : Quiet exportName? d.text u := by
  have hclosed (s : Specifier) : Quiet exportName? (s.quote :: s.closed) u := by
    have hquote : 'e' ∉ [s.quote] := by rcases s.quotes with h | h <;> simp [h]
    exact (quiet_exportName?_of_not_mem hquote _).append
      (s.quiet_closed (fun _ => exportName?_eq_none) (by decide) u)
  cases d with
  | sideEffect gap specifier =>
    exact (quiet_exportName?_of_not_mem (by decide) _).append ((gap.quiet _).append (hclosed specifier))
  | binding afterImport clause beforeFrom afterFrom specifier =>
    have hfrom : Quiet exportName? ("from" ++ (afterFrom.text ++ specifier.quote :: specifier.closed)) u :=
      (quiet_exportName?_of_not_mem (by decide) _).append ((afterFrom.quiet _).append (hclosed specifier))
    have hclause := clause.quiet beforeFrom
      (undeclaring_from (afterFrom.text ++ (specifier.quote :: specifier.closed ++ u)))
    refine (quiet_exportName?_of_not_mem (by decide) _).append ((afterImport.quiet _).append (Quiet.append ?_
      ((beforeFrom.quiet _).append hfrom)))
    simpa using hclause

/-! ## The names of a block -/

/-- The clause of a declaration that has one. -/
def ImportDeclaration.clauses : ImportDeclaration → List ImportClause
  | sideEffect _ _ => []
  | binding _ clause _ _ _ => [clause]

theorem importClause?_sideEffect (gap : Blanks) (hquote : quote = '"' ∨ quote = '\'') (u : Text) :
    importClause? ("import" ++ (gap.text ++ quote :: u)) = none := by
  have hclause : clause? (quote :: u) = none := by rcases hquote with rfl | rfl <;> rfl
  have hblank : Text.isBlank quote = false := by rcases hquote with rfl | rfl <;> rfl
  by_cases hgap : gap.text = []
  · refine importClause?_eq_none ?_
    rw [hgap, afterWord?, Text.after?_append]
    simp [afterBlanks?, hblank]
  · rw [importClause?, afterWord?, Text.after?_append, Option.bind_some, afterBlanks?_of_blank gap.blank hgap,
      Text.trimStart_cons_of_not_blank hblank]
    exact hclause

theorem quiet_importClause?_of_not_mem (ht : 'i' ∉ t) (u : Text) : Quiet importClause? t u :=
  quiet_of_not_mem 'i' "mport" (fun _ => importClause?_eq_none) ht u

/-- A side-effect import starts no clause, so it does not take the clause of the next declaration. -/
theorem quiet_sideEffect (gap : Blanks) (hquote : quote = '"' ∨ quote = '\'') (u : Text) :
    Quiet importClause? ("import" ++ (gap.text ++ [quote])) u := by
  have hhead : ∀ d ∈ (gap.text ++ [quote] ++ u).head?, isIdentifierChar d = false := by
    rw [List.append_assoc]
    refine gap.head?_append fun d hd => ?_
    obtain rfl := Option.some.inj hd
    rcases hquote with rfl | rfl <;> rfl
  have hquoted : 'i' ∉ gap.text ++ [quote] := by
    have hne : 'i' ≠ quote := by rcases hquote with rfl | rfl <;> decide
    simp [gap.not_mem (c := 'i') rfl, hne]
  refine (quiet_word (fun _ => importClause?_eq_none) (by decide) (by decide) hhead fun _ => ?_).append
    (quiet_importClause?_of_not_mem hquoted u)
  rw [List.append_assoc]
  exact importClause?_sideEffect gap hquote u

namespace ImportLine

variable (l : ImportLine) (s : Specifier) {c : Char}

theorem mem_ending (h : c ∈ l.ending) : Text.isBlank c = true ∨ c = ';' := by
  rw [ending, List.mem_append] at h
  rcases h with h | h
  · cases hsemicolon : l.semicolon with
    | none => simp [hsemicolon] at h
    | some gap =>
      rw [hsemicolon, Option.map_some, Option.getD_some, List.mem_append, List.mem_singleton] at h
      exact h.imp_left (gap.blank c)
  · exact .inl (l.after.blank c h)

theorem not_mem_ending (hblank : Text.isBlank c = false) (hc : c ≠ ';') : c ∉ l.ending := fun hmem =>
  (l.mem_ending hmem).elim (by simp [hblank]) hc

/-- Behind a line a word may start. -/
theorem last_ending (previous : Option Char) :
    ((s.closed ++ l.ending).getLast?.or previous).any Text.isWord = false := by
  have htext : s.closed ++ l.ending = s.text ++ s.quote :: l.ending := by simp [Specifier.closed]
  obtain ⟨last, hlast⟩ : ∃ last, (s.quote :: l.ending).getLast? = some last :=
    ⟨_, List.getLast?_eq_getLast_of_ne_nil (List.cons_ne_nil _ _)⟩
  rw [htext, List.getLast?_append_of_ne_nil _ (List.cons_ne_nil _ _), hlast, Option.some_or, Option.any_some]
  rcases List.mem_cons.mp (List.mem_of_getLast? hlast) with rfl | hmem
  · rcases s.quotes with h | h <;> (rw [h]; rfl)
  · rcases l.mem_ending hmem with hblank | rfl
    · exact Text.isWord_of_isBlank hblank
    · rfl

/-- What is found of a line is its clause. -/
theorem foundFrom_text {previous : Option Char} (hprevious : previous.any Text.isWord = false) (u : Text) :
    ∃ last : Option Char, last.any Text.isWord = false ∧
      foundFrom importClause? previous (l.text ++ u) =
        l.declaration.clauses.map ImportClause.text ++ foundFrom importClause? last u := by
  have hrest (s : Specifier) : Quiet importClause? (s.closed ++ l.ending) u :=
    (s.quiet_closed (fun _ => importClause?_eq_none) (by decide) _).append
      (quiet_importClause?_of_not_mem (l.not_mem_ending rfl (by decide)) u)
  rw [text]
  cases l.declaration with
  | sideEffect gap s =>
    have htext : (ImportDeclaration.sideEffect gap s).text ++ l.ending ++ u =
        "import" ++ (gap.text ++ [s.quote]) ++ (s.closed ++ l.ending ++ u) := by
      simp [ImportDeclaration.text]
    refine ⟨_, l.last_ending s (("import" ++ (gap.text ++ [s.quote])).getLast?.or previous), ?_⟩
    rw [htext, foundFrom_append_of_quiet advances_importClause? (quiet_sideEffect gap s.quotes _),
      foundFrom_append_of_quiet advances_importClause? (hrest s)]
    rfl
  | binding afterImport clause beforeFrom afterFrom s =>
    have htext : (ImportDeclaration.binding afterImport clause beforeFrom afterFrom s).text ++ l.ending ++ u =
        "import" ++ (afterImport.text ++ (clause.text ++ (beforeFrom.text ++ ("from" ++ afterFrom.text)))) ++
          s.quote :: (s.closed ++ l.ending ++ u) := by
      simp [ImportDeclaration.text]
    have hread := importClause?_binding afterImport clause beforeFrom afterFrom s.quotes (s.closed ++ l.ending ++ u)
    refine ⟨_, l.last_ending s (some s.quote), ?_⟩
    rw [htext, foundFrom_of_read advances_importClause? hprevious (a := clause.text) ?_,
      foundFrom_append_of_quiet advances_importClause? (hrest s)]
    · rfl
    · simpa using hread

end ImportLine

/-- What is found of a block is the clauses of its declarations, in order. -/
theorem foundFrom_blockText (block : List ImportLine) {previous : Option Char}
    (hprevious : previous.any Text.isWord = false) :
    foundFrom importClause? previous (blockText block) =
      block.flatMap fun l => l.declaration.clauses.map ImportClause.text := by
  induction block generalizing previous with
  | nil => rfl
  | cons l block ih =>
    obtain ⟨last, hlast, hfound⟩ := l.foundFrom_text hprevious (blockText block)
    rw [blockText, List.flatMap_cons, ← blockText, hfound, ih hlast, List.flatMap_cons]

theorem quiet_blockText (block : List ImportLine) : Quiet exportName? (blockText block) [] := by
  induction block with
  | nil => exact Quiet.nil
  | cons l block ih =>
    rw [blockText, List.flatMap_cons, ← blockText]
    have hending := quiet_exportName?_of_not_mem (l.not_mem_ending (c := 'e') rfl (by decide)) (blockText block ++ [])
    exact Quiet.append ((l.declaration.quiet _).append hending) ih

theorem flatMap_clauseNames (d : ImportDeclaration) :
    (d.clauses.map ImportClause.text).flatMap clauseNames = d.localNames.map LocalName.text := by
  cases d with
  | sideEffect => rfl
  | binding _ clause _ _ _ => simp [ImportDeclaration.clauses, ImportDeclaration.localNames, clause.clauseNames_text]

/-- A block of import declarations binds the local names of its clauses, each once, and no others. -/
theorem boundIdentifiers_importBlock (block : List ImportLine) :
    (boundIdentifiers (blockText block)).Pairwise (· < ·) ∧
      ∀ name, name ∈ boundIdentifiers (blockText block) ↔ ∃ l ∈ block, ∃ n ∈ l.localNames, n.text = name := by
  refine ⟨pairwise_sortNames _, fun name => ?_⟩
  have hexports : findAll exportName? (blockText block) = [] := by
    have hquiet := foundFrom_append_of_quiet advances_exportName? (quiet_blockText block) none
    rw [List.append_nil] at hquiet
    rw [findAll_eq_foundFrom advances_exportName?, hquiet]
    rfl
  rw [boundIdentifiers, mem_sortNames, hexports, List.append_nil, findAll_eq_foundFrom advances_importClause?,
    foundFrom_blockText block rfl]
  simp only [List.flatMap_assoc, flatMap_clauseNames, List.mem_flatMap, List.mem_map]
  rfl

example :
    boundIdentifiers
        "import './a.css'\nimport Layout, \x7b\n  Tab as Item,\n\x7d from './tabs';\nimport * as UI from './ui'" =
      ["Item".toList, "Layout".toList, "UI".toList] := by decide +kernel

end StaticSite.EsModule
