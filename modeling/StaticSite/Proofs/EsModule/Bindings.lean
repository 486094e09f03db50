import StaticSite.EsModule.Bindings
import StaticSite.Proofs.Document.References
import StaticSite.Proofs.EsModule.Statement
import StaticSite.Proofs.FilePath

/-!
# Bindings of import statements

A block that consists of the import of one name binds this name and nothing else, if there is no white space
in its specifier: what a reader of bindings looks for has white space in it.
-/
namespace StaticSite.EsModule

variable {α : Type} {read : Text → Option (α × Text)} {name t u : Text} {c : Char}

/-! ## Where nothing is found -/

/-- A reader finds nothing, wherever it starts in a text. -/
def Silent (read : Text → Option (α × Text)) (t : Text) : Prop := ∀ u, u <:+ t → read u = none

theorem findFrom_eq_nil (h : Silent read t) (fuel : Nat) (previous : Option Char) :
    findFrom read fuel previous t = [] := by
  induction fuel generalizing previous t with
  | zero => rfl
  | succ fuel ih =>
    cases t with
    | nil => rfl
    | cons c rest =>
      have hrest : Silent read rest := fun u hu => h u (hu.trans (List.suffix_cons c rest))
      rw [findFrom, h (c :: rest) List.suffix_rfl, ih hrest]
      split <;> rfl

theorem Silent.cons (hread : read (c :: t) = none) (h : Silent read t) : Silent read (c :: t) := by
  intro u hu
  rcases List.suffix_cons_iff.mp hu with rfl | hu
  · exact hread
  · exact h u hu

theorem afterWord?_of_unspaced (ht : t.Unspaced) (word : Text) : afterWord? word t = none := by
  induction word generalizing t with
  | nil => simp [afterWord?, Text.after?, afterBlanks?_of_unspaced ht]
  | cons w ws ih =>
    cases t with
    | nil => rfl
    | cons d ds =>
      have hds := ih (t := ds) fun x hx => ht x (List.mem_cons_of_mem _ hx)
      by_cases hw : w = d
      · simpa [afterWord?, Text.after?, hw] using hds
      · simp [afterWord?, Text.after?, hw]

theorem Silent.of_unspaced (hread : ∀ u : Text, u.Unspaced → read u = none) (ht : t.Unspaced) :
    Silent read t := fun u hu => hread u fun x hx => ht x (hu.subset hx)

theorem exportName?_eq_none (h : afterWord? "export".toList t = none) : exportName? t = none := by
  rw [exportName?, h]
  rfl

/-- An export is found in a word before white space only where `export` ends the word. -/
theorem silent_exportName?_append (hname : name.Unspaced) (hc : Text.isBlank c = true)
    (hexport : "export".toList <:+ name → exportName? ("export".toList ++ c :: t) = none)
    (ht : Silent exportName? t) : Silent exportName? (name ++ c :: t) := by
  have hword : Text.Unspaced "export".toList := by decide
  induction name with
  | nil =>
    refine Silent.cons ?_ ht
    have hempty : Text.Unspaced [] := by decide
    have hnone := afterWord?_append hword hempty hc t
    exact exportName?_eq_none (hnone.trans (if_neg (by decide)))
  | cons n ns ih =>
    have hns : Text.Unspaced ns := fun x hx => hname x (List.mem_cons_of_mem _ hx)
    refine Silent.cons ?_ (ih hns fun h => hexport (h.trans (List.suffix_cons n ns)))
    by_cases heq : n :: ns = "export".toList
    · have hexport := hexport (heq ▸ List.suffix_rfl)
      rwa [← heq] at hexport
    · have hnone := afterWord?_append hword hname hc t
      exact exportName?_eq_none (hnone.trans (if_neg heq))

/-! ## The clause of a statement -/

/-- A character that may stand in a clause and is not white space. -/
def IsClauseChar (c : Char) : Prop :=
  c ≠ '\'' ∧ c ≠ '"' ∧ c ≠ ';' ∧ Text.isBlank c = false

theorem specifierFollows?_of_not_blank (hc : Text.isBlank c = false) (t : Text) :
    specifierFollows? (c :: t) = none := by
  simp [specifierFollows?, afterBlanks?, hc]

theorem clause?_cons_of_none (hquote : c ≠ '\'') (hquote' : c ≠ '"') (hend : c ≠ ';')
    (h : specifierFollows? t = none) :
    clause? (c :: t) = (clause? t).map fun (clause, next) => (c :: clause, next) := by
  simp [clause?, hquote, hquote', hend, h]

/-- The reader of a clause goes through a word after which no specifier follows. -/
theorem clause?_append (hname : ∀ c ∈ name, IsClauseChar c) (h : specifierFollows? t = none) :
    clause? (name ++ t) = (clause? t).map fun (clause, next) => (name ++ clause, next) := by
  induction name with
  | nil => simp
  | cons n ns ih =>
    obtain ⟨hquote, hquote', hend, -⟩ := hname n List.mem_cons_self
    have hrest : specifierFollows? (ns ++ t) = none := by
      cases ns with
      | nil => exact h
      | cons m ms =>
        exact specifierFollows?_of_not_blank (hname m (by simp)).2.2.2 _
    rw [List.cons_append, clause?_cons_of_none hquote hquote' hend hrest,
      ih fun c hc => hname c (List.mem_cons_of_mem _ hc), Option.map_map]
    rfl

/-- A clause ends with the character that a specifier follows. -/
theorem clause?_cons_of_some (hquote : c ≠ '\'') (hquote' : c ≠ '"') (hend : c ≠ ';') {next : Text}
    (h : specifierFollows? t = some next) : clause? (c :: t) = some ([c], next) := by
  simp [clause?, hquote, hquote', hend, h]

theorem specifierFollows?_fromClause (specifier : Text) :
    specifierFollows? (fromClause specifier) = some (specifier ++ ['"', ';']) := by
  simp [specifierFollows?, fromClause, afterBlanks?, Text.after?, Text.trimStart, Text.isBlank]

theorem isClauseChar_of_isIdentifier (h : isIdentifier name = true) : ∀ c ∈ name, IsClauseChar c := by
  intro c hc
  have hblank := unspaced_of_isIdentifier h c hc
  have hchar : isIdentifierChar c = true := by
    simp only [isIdentifier, Bool.and_eq_true, List.all_eq_true] at h
    exact h.2 c hc
  refine ⟨?_, ?_, ?_, hblank⟩ <;> (rintro rfl; revert hchar; decide)

theorem importClause?_default (hident : isIdentifier name = true) (specifier : Text) :
    importClause? (Import.statement ⟨name, .default, specifier⟩) =
      some (name, specifier ++ ['"', ';']) := by
  have himport : Text.Unspaced "import".toList := by decide
  have hchars := isClauseChar_of_isIdentifier hident
  have hne : name ≠ [] := by
    rintro rfl
    simp [isIdentifier] at hident
  rw [statement_default, importClause?, afterWord?_append himport himport isBlank_space, if_pos rfl,
    Text.trimStart_of_unspaced (unspaced_of_isIdentifier hident) hne]
  obtain ⟨init, last, rfl⟩ : ∃ init last, name = init ++ [last] :=
    ⟨_, _, (List.dropLast_concat_getLast hne).symm⟩
  obtain ⟨hquote, hquote', hend, hblank⟩ := hchars last (by simp)
  have hlast := clause?_cons_of_some hquote hquote' hend (specifierFollows?_fromClause specifier)
  rw [List.append_assoc, List.singleton_append]
  dsimp only [Option.bind_eq_bind, Option.bind_some]
  rw [clause?_append (fun c hc => hchars c (by simp [hc])) (specifierFollows?_of_not_blank hblank _), hlast]
  rfl

/-- What follows a word in a name before white space is the rest of the name, and all after it. -/
theorem after?_append {word : Text} (hword : word.Unspaced) (hc : Text.isBlank c = true)
    (h : Text.after? word (name ++ c :: t) = some u) : ∃ rest, rest <:+ name ∧ u = rest ++ c :: t := by
  induction word generalizing name with
  | nil => exact ⟨name, List.suffix_rfl, (Option.some.inj h).symm⟩
  | cons w ws ih =>
    have hws : Text.Unspaced ws := fun x hx => hword x (List.mem_cons_of_mem _ hx)
    cases name with
    | nil =>
      have hw : w ≠ c := by
        rintro rfl
        simp [hword w List.mem_cons_self] at hc
      simp [Text.after?, hw] at h
    | cons n ns =>
      by_cases hn : w = n
      · have hrest : Text.after? ws (ns ++ c :: t) = some u := by simpa [Text.after?, hn] using h
        obtain ⟨rest, hsuffix, hu⟩ := ih hws hrest
        exact ⟨rest, hsuffix.trans (List.suffix_cons n ns), hu⟩
      · simp [Text.after?, hn] at h

/-- After a name that does not stand before a quote there is no specifier, even if it starts with `from`. -/
theorem specifierFollows?_brace (hchars : ∀ c ∈ name, IsClauseChar c) (hne : name ≠ []) (t : Text) :
    specifierFollows? (' ' :: (name ++ ' ' :: '\x7d' :: t)) = none := by
  have hname : name.Unspaced := fun c hc => (hchars c hc).2.2.2
  have hfrom : Text.Unspaced "from".toList := by decide
  rw [specifierFollows?, afterBlanks?_cons isBlank_space, Text.trimStart_of_unspaced hname hne]
  dsimp only [Option.bind_eq_bind, Option.bind_some]
  cases hafter : Text.after? "from".toList (name ++ ' ' :: '\x7d' :: t) with
  | none => rfl
  | some u =>
    obtain ⟨rest, hsuffix, rfl⟩ := after?_append hfrom isBlank_space hafter
    cases rest with
    | nil => simp [Text.trimStart, Text.isBlank]
    | cons r rs =>
      obtain ⟨hquote, hquote', -, hblank⟩ := hchars r (hsuffix.subset List.mem_cons_self)
      simp [Text.trimStart, hblank, hquote, hquote']

theorem importClause?_named (hident : isIdentifier name = true) (specifier : Text) :
    importClause? (Import.statement ⟨name, .named, specifier⟩) =
      some ('\x7b' :: ' ' :: (name ++ [' ', '\x7d']), specifier ++ ['"', ';']) := by
  have himport : Text.Unspaced "import".toList := by decide
  have hopen : Text.Unspaced ['\x7b'] := by decide
  have hchars := isClauseChar_of_isIdentifier hident
  have hne : name ≠ [] := by
    rintro rfl
    simp [isIdentifier] at hident
  have hname : specifierFollows? (name ++ ' ' :: '\x7d' :: fromClause specifier) = none := by
    cases name with
    | nil => exact absurd rfl hne
    | cons n ns => exact specifierFollows?_of_not_blank (hchars n List.mem_cons_self).2.2.2 _
  have hbrace : specifierFollows? (' ' :: '\x7d' :: fromClause specifier) = none := by
    simp [specifierFollows?, afterBlanks?, Text.trimStart, Text.isBlank, Text.after?]
  have hclose : specifierFollows? ('\x7d' :: fromClause specifier) = none :=
    specifierFollows?_of_not_blank rfl _
  have hlast := clause?_cons_of_some (c := '\x7d') (by decide) (by decide) (by decide)
    (specifierFollows?_fromClause specifier)
  rw [statement_named, importClause?, afterWord?_append himport himport isBlank_space, if_pos rfl,
    ← List.singleton_append, Text.trimStart_of_unspaced hopen (by decide), List.singleton_append]
  dsimp only [Option.bind_eq_bind, Option.bind_some]
  rw [clause?_cons_of_none (by decide) (by decide) (by decide) (specifierFollows?_brace hchars hne _),
    clause?_cons_of_none (by decide) (by decide) (by decide) hname, clause?_append hchars hbrace,
    clause?_cons_of_none (by decide) (by decide) (by decide) hclose, hlast]
  rfl

/-! ## The names in a clause -/

theorem trimEnd_append_of_unspaced (hname : name.Unspaced) (hne : name ≠ []) (t : Text) (ht : t.all Text.isBlank) :
    Text.trimEnd (name ++ t) = name := by
  have hreverse : Text.Unspaced name.reverse := fun c hc => hname c (List.mem_reverse.mp hc)
  have hdrop : (t.reverse ++ name.reverse).dropWhile Text.isBlank = name.reverse := by
    rw [List.dropWhile_append_of_pos (by simpa using ht)]
    simpa [Text.trimStart] using Text.trimStart_of_unspaced hreverse (by simpa using hne) []
  rw [Text.trimEnd, Text.dropEndWhile, List.reverse_append, hdrop, List.reverse_reverse]

/-- A name between blanks is what is left when these are trimmed. -/
theorem trim_of_unspaced (hname : name.Unspaced) (hne : name ≠ []) {t u : Text} (ht : t.all Text.isBlank)
    (hu : u.all Text.isBlank) : Text.trim (t ++ (name ++ u)) = name := by
  have hstart : Text.trimStart (t ++ (name ++ u)) = name ++ u := by
    rw [Text.trimStart, List.dropWhile_append_of_pos (by simpa using ht)]
    exact Text.trimStart_of_unspaced hname hne u
  rw [Text.trim, hstart, trimEnd_append_of_unspaced hname hne u hu]

theorem trim_name (hname : name.Unspaced) (hne : name ≠ []) : Text.trim name = name := by
  simpa using trim_of_unspaced hname hne (t := []) (u := []) rfl rfl

theorem after?_eq_none_of_unspaced {word : Text} (hword : ¬word.Unspaced) (ht : t.Unspaced) :
    Text.after? word t = none := by
  induction word generalizing t with
  | nil => exact absurd (by simp [Text.Unspaced]) hword
  | cons w ws ih =>
    cases t with
    | nil => rfl
    | cons d ds =>
      by_cases hw : w = d
      · have hws : ¬Text.Unspaced ws := by
          intro hws
          refine hword fun x hx => ?_
          rcases List.mem_cons.mp hx with rfl | hx
          · exact ht x (hw ▸ List.mem_cons_self)
          · exact hws x hx
        simpa [Text.after?, hw] using ih hws fun x hx => ht x (List.mem_cons_of_mem _ hx)
      · simp [Text.after?, hw]

theorem cut?_eq_none_of_unspaced {part : Text} (hpart : ¬part.Unspaced) (ht : t.Unspaced) :
    Text.cut? part t = none := by
  induction t with
  | nil =>
    have hne : part.isEmpty = false := by
      cases part with
      | nil => exact absurd (by simp [Text.Unspaced]) hpart
      | cons => rfl
    simp [Text.cut?, hne]
  | cons c cs ih =>
    rw [Text.cut?, after?_eq_none_of_unspaced hpart ht, ih fun x hx => ht x (List.mem_cons_of_mem _ hx)]
    rfl

theorem dropTypeKeyword_name (hname : name.Unspaced) (hne : name ≠ []) : dropTypeKeyword name = name := by
  rw [dropTypeKeyword, after?_eq_none_of_unspaced (by decide) hname, Option.getD_none, trim_name hname hne]

/-- No character that a clause is cut at stands in a name. -/
theorem not_mem_of_isIdentifier (hident : isIdentifier name = true) (hc : isIdentifierChar c = false) :
    c ∉ name := by
  intro hmem
  simp only [isIdentifier, Bool.and_eq_true, List.all_eq_true] at hident
  simp [hident.2 c hmem] at hc

theorem ne_nil_of_isIdentifier (hident : isIdentifier name = true) : name ≠ [] := by
  rintro rfl
  simp [isIdentifier] at hident

theorem headName?_name (hident : isIdentifier name = true) : headName? name = some name := by
  have hstar : '*' ∉ name := not_mem_of_isIdentifier hident (by decide)
  rw [headName?, trim_name (unspaced_of_isIdentifier hident) (ne_nil_of_isIdentifier hident)]
  split
  · exact absurd rfl (ne_nil_of_isIdentifier hident)
  · simp at hstar
  · rfl

theorem itemName?_name (hident : isIdentifier name = true) :
    itemName? (' ' :: (name ++ [' '])) = some name := by
  have hname := unspaced_of_isIdentifier hident
  have hne := ne_nil_of_isIdentifier hident
  have htrim : Text.trim (' ' :: (name ++ [' '])) = name := trim_of_unspaced hname hne (t := [' ']) rfl rfl
  rw [itemName?, htrim, dropTypeKeyword_name hname hne]
  split
  · exact absurd rfl hne
  · rw [cut?_eq_none_of_unspaced (by decide) hname]

theorem clauseNames_default (hident : isIdentifier name = true) : clauseNames name = [name] := by
  have hname := unspaced_of_isIdentifier hident
  have hne := ne_nil_of_isIdentifier hident
  have hbrace : '\x7b' ∉ name := not_mem_of_isIdentifier hident (by decide)
  have hcut : cutBraces name = (name, []) := by
    have hall : name.takeWhile (· != '\x7b') = name := by
      refine List.takeWhile_eq_self_iff.mpr fun c hc => ?_
      simpa using fun heq : c = '\x7b' => hbrace (heq ▸ hc)
    simp [cutBraces, hall]
  rw [clauseNames, trim_name hname hne, dropTypeKeyword_name hname hne, hcut]
  dsimp only
  rw [Text.splitOn_of_not_mem (not_mem_of_isIdentifier hident (by decide)), Text.splitOn_of_not_mem (by simp)]
  have hempty : itemName? [] = none := by decide
  simp [headName?_name hident, hempty, hident]

theorem clauseNames_named (hident : isIdentifier name = true) :
    clauseNames ('\x7b' :: ' ' :: (name ++ [' ', '\x7d'])) = [name] := by
  have hbrace : '\x7d' ∉ name := not_mem_of_isIdentifier hident (by decide)
  have htrim : Text.trim ('\x7b' :: ' ' :: (name ++ [' ', '\x7d'])) =
      '\x7b' :: ' ' :: (name ++ [' ', '\x7d']) := by
    simp [Text.trim, Text.trimStart, Text.trimEnd, Text.dropEndWhile, Text.isBlank]
  have htype : dropTypeKeyword ('\x7b' :: ' ' :: (name ++ [' ', '\x7d'])) =
      '\x7b' :: ' ' :: (name ++ [' ', '\x7d']) := by
    simp [dropTypeKeyword, Text.after?, htrim]
  have hcut : cutBraces ('\x7b' :: ' ' :: (name ++ [' ', '\x7d'])) = ([], ' ' :: (name ++ [' '])) := by
    have hall : ∀ c ∈ name, (c != '\x7d') = true := by
      intro c hc
      simpa using fun heq : c = '\x7d' => hbrace (heq ▸ hc)
    simp [cutBraces, List.takeWhile_append_of_pos hall]
  have hcomma : ',' ∉ ' ' :: (name ++ [' ']) := by
    simpa using not_mem_of_isIdentifier hident (by decide)
  have hempty : headName? [] = none := by decide
  rw [clauseNames, htrim, htype, hcut]
  dsimp only
  rw [Text.splitOn_of_not_mem hcomma, Text.splitOn_of_not_mem (t := []) (by simp)]
  simp [itemName?_name hident, hempty, hident]

/-! ## The block of a statement -/

theorem importClause?_statement {i : Import} (hident : isIdentifier i.binding = true) :
    ∃ clause, importClause? i.statement = some (clause, i.specifier ++ ['"', ';']) ∧
      clauseNames clause = [i.binding] := by
  obtain ⟨name, kind, specifier⟩ := i
  cases kind with
  | default => exact ⟨_, importClause?_default hident specifier, clauseNames_default hident⟩
  | named => exact ⟨_, importClause?_named hident specifier, clauseNames_named hident⟩

theorem findAll_statement {i : Import} {clause next : Text} (h : importClause? i.statement = some (clause, next)) :
    ∃ fuel last, findAll importClause? i.statement = clause :: findFrom importClause? fuel last next := by
  cases hstatement : i.statement with
  | nil => simp [hstatement, importClause?, afterWord?, Text.after?] at h
  | cons c rest =>
    rw [hstatement] at h
    simp only [findAll, findFrom, h]
    exact ⟨_, _, rfl⟩

/-- A statement binds the name that it imports, whatever else is read in its specifier. -/
theorem mem_boundIdentifiers_statement {i : Import} (hident : isIdentifier i.binding = true) :
    i.binding ∈ boundIdentifiers i.statement := by
  obtain ⟨clause, hclause, hnames⟩ := importClause?_statement hident
  have hfound : clause ∈ findAll importClause? i.statement := by
    obtain ⟨fuel, last, hfound⟩ := findAll_statement hclause
    exact hfound ▸ List.mem_cons_self
  rw [boundIdentifiers, mem_sortNames, List.mem_append, List.mem_flatMap]
  left
  exact ⟨clause, hfound, hnames ▸ List.mem_singleton_self _⟩

theorem silent_exportName?_fromClause {specifier : Text} (h : specifier.Unspaced) :
    Silent exportName? (fromClause specifier) := by
  have hquoted : Text.Unspaced ('"' :: (specifier ++ ['"', ';'])) :=
    Text.Unspaced.append (t := ['"']) (by decide) (h.append (by decide))
  have hrest : Silent exportName? ("from".toList ++ ' ' :: '"' :: (specifier ++ ['"', ';'])) :=
    silent_exportName?_append (by decide) isBlank_space (fun h => absurd h (by decide))
      (Silent.of_unspaced (fun _ hu => exportName?_eq_none (afterWord?_of_unspaced hu _)) hquoted)
  have hempty : Text.Unspaced [] := by decide
  exact silent_exportName?_append hempty isBlank_space (fun h => absurd h (by decide)) hrest

/-- Nothing is exported after the keyword where no word that leads to a name follows. -/
theorem exportName?_export (hc : Text.isBlank c = true) (htrim : Text.trimStart t = t)
    (hdefault : Text.after? "default".toList t = none) (hasync : Text.after? "async".toList t = none)
    (hdeclarator : afterDeclarator? t = none) : exportName? ("export".toList ++ c :: t) = none := by
  have hexport : afterWord? "export".toList ("export".toList ++ c :: t) = some t := by
    rw [afterWord?_append (by decide) (by decide) hc, if_pos rfl, htrim]
  have hdefault : skipWord "default".toList t = t := by
    rw [skipWord, afterWord?, hdefault]
    rfl
  have hasync : skipWord "async".toList t = t := by
    rw [skipWord, afterWord?, hasync]
    rfl
  rw [exportName?, hexport]
  dsimp only [Option.bind_eq_bind, Option.bind_some]
  rw [hdefault, hasync, hdeclarator]
  rfl

/-- No declaration is exported in a statement, whatever name it imports: `from` or a brace follows the name. -/
theorem silent_exportName?_statement {i : Import} (hident : isIdentifier i.binding = true)
    (hspecifier : i.specifier.Unspaced) : Silent exportName? i.statement := by
  obtain ⟨name, kind, specifier⟩ := i
  have hname := unspaced_of_isIdentifier hident
  have hfrom := silent_exportName?_fromClause hspecifier
  have himport : ¬"export".toList <:+ "import".toList := by decide
  cases kind with
  | default =>
    have hexport : exportName? ("export".toList ++ fromClause specifier) = none := by
      have htrim : Text.trimStart ("from".toList ++ ' ' :: '"' :: (specifier ++ ['"', ';'])) =
          "from".toList ++ ' ' :: '"' :: (specifier ++ ['"', ';']) :=
        Text.trimStart_of_unspaced (by decide) (by decide) _
      exact exportName?_export isBlank_space htrim rfl rfl rfl
    have hafter : Silent exportName? (name ++ fromClause specifier) :=
      silent_exportName?_append hname isBlank_space (fun _ => hexport)
        fun u hu => hfrom u (hu.trans (List.suffix_cons _ _))
    rw [statement_default]
    exact silent_exportName?_append (by decide) isBlank_space (fun h => absurd h himport) hafter
  | named =>
    have hexport : exportName? ("export".toList ++ ' ' :: '\x7d' :: fromClause specifier) = none := by
      have htrim : Text.trimStart ('\x7d' :: fromClause specifier) = '\x7d' :: fromClause specifier :=
        Text.trimStart_of_unspaced (t := ['\x7d']) (by decide) (by decide) _
      exact exportName?_export isBlank_space htrim rfl rfl rfl
    have hclose : Silent exportName? ('\x7d' :: fromClause specifier) :=
      Silent.cons (exportName?_eq_none (by simp [afterWord?, Text.after?])) hfrom
    have hafter : Silent exportName? ('\x7b' :: ' ' :: (name ++ ' ' :: '\x7d' :: fromClause specifier)) :=
      Silent.cons (exportName?_eq_none (by simp [afterWord?, Text.after?]))
        (Silent.cons (exportName?_eq_none (by simp [afterWord?, Text.after?]))
          (silent_exportName?_append hname isBlank_space (fun _ => hexport) hclose))
    rw [statement_named]
    exact silent_exportName?_append (by decide) isBlank_space (fun h => absurd h himport) hafter

/-- A statement binds the name that it imports, and no other. -/
theorem boundIdentifiers_statement {i : Import} (hident : isIdentifier i.binding = true)
    (hspecifier : i.specifier.Unspaced) : boundIdentifiers i.statement = [i.binding] := by
  obtain ⟨clause, hclause, hnames⟩ := importClause?_statement hident
  have hrest : Silent importClause? (i.specifier ++ ['"', ';']) := by
    refine Silent.of_unspaced (fun u hu => ?_) (hspecifier.append (by decide))
    rw [importClause?, afterWord?_of_unspaced hu]
    rfl
  have himports : findAll importClause? i.statement = [clause] := by
    obtain ⟨fuel, last, hfound⟩ := findAll_statement hclause
    rw [hfound, findFrom_eq_nil hrest]
  have hexports : findAll exportName? i.statement = [] :=
    findFrom_eq_nil (silent_exportName?_statement hident hspecifier) _ _
  rw [boundIdentifiers, himports, hexports]
  simp [hnames, sortNames, insertName]

end StaticSite.EsModule
