import StaticSite.Proofs.EsModule.Found

/-!
# Places between declarations

At a place between two declarations nothing is left open: an import has met its specifier, an export its name, and no
name runs on. What is read before such a place does not depend on what stands behind it.
-/
namespace StaticSite.EsModule

variable {t u v word : Text}

/-! ## Places -/

/-- What follows the longest beginning of an exported declaration that a text has after `export`. -/
def exported? (t : Text) : Option Text :=
  (afterWord? "export".toList t).map fun t =>
    let t := skipWord "async" (skipWord "default" t)
    (afterDeclarator? t).getD t

/-- A character of the names that are read in exported declarations. -/
def isNameChar (c : Char) : Bool := Text.isWord c || c == '$'

/-- No name runs on from one text into the other. -/
def Apart (t u : Text) : Prop :=
  (∀ c ∈ t.getLast?, isNameChar c = false) ∨ ∀ d ∈ u.head?, Text.isBlank d = true ∨ d = '/'

/-- A place between declarations, with what stands before it and behind it. What stands before it is read with a space
behind it, so that a last word counts as well. -/
structure IsPlace (t u : Text) : Prop where
  /-- An import before the place has met the quote of a specifier or a semicolon. -/
  imports : ∀ start ∈ wordStarts none t, ∀ rest ∈ afterWord? "import".toList (start ++ [' ']),
    ∃ c ∈ rest, EndsClause c
  /-- An export before the place has met what it exports. -/
  exports : ∀ start ∈ wordStarts none t, exported? (start ++ [' ']) ≠ some []
  apart : Apart t u

/-! ## Words before a place -/

theorem Apart.of_suffix (h : Apart t u) (hsuffix : v <:+ t) (hne : v ≠ []) : Apart v u := by
  obtain ⟨init, rfl⟩ := hsuffix
  rwa [Apart, List.getLast?_append_of_ne_nil _ hne] at h

theorem apart_space (t : Text) : Apart t [' '] := .inr (by simp [isBlank_space])

/-- The word can be cut only where a name would be cut. -/
structure IsOneName (word : Text) : Prop where
  inner : ∀ c ∈ word.dropLast, isNameChar c = true
  outer : ∀ c ∈ word, Text.isBlank c = false ∧ c ≠ '/'

theorem Apart.ended (h : Apart t u) (hne : t ≠ []) (hword : IsOneName word) :
    ∀ d ∈ u.head?, ¬t ++ [d] <+: word := by
  rintro d hd ⟨rest, hrest⟩
  have hmem : d ∈ word := by simp [← hrest]
  rcases h with hlast | hhead
  · obtain ⟨init, last, rfl⟩ := (List.eq_nil_or_concat' t).resolve_left hne
    have hname : isNameChar last = true := by
      refine hword.inner last ?_
      rw [← hrest]
      cases rest using List.reverseRecOn <;> simp [← List.append_assoc, List.dropLast_append_of_ne_nil]
    simp [hlast last (by simp)] at hname
  · obtain ⟨hblank, hslash⟩ := hword.outer d hmem
    rcases hhead d hd with hd | hd
    · simp [hd] at hblank
    · exact hslash hd

theorem trimStart_append_of_open (h : ∃ c ∈ t, Text.isBlank c = false) (u : Text) :
    Text.trimStart (t ++ u) = Text.trimStart t ++ u := by
  obtain ⟨c, hc, hblank⟩ := h
  have hne : t.dropWhile Text.isBlank ≠ [] := fun hnil => by
    simp [List.dropWhile_eq_nil_iff.mp hnil c hc] at hblank
  rw [Text.trimStart, List.dropWhile_append, if_neg (by simpa using hne)]
  rfl

theorem afterBlanks?_append_of_open (h : ∃ c ∈ t, Text.isBlank c = false) (u : Text) :
    afterBlanks? (t ++ u) = (afterBlanks? t).map (· ++ u) ∧ afterBlanks? t ≠ some [] := by
  obtain ⟨c, hc, hblank⟩ := h
  have hhead : (t ++ u).head? = t.head? := List.head?_append_of_ne_nil _ (List.ne_nil_of_mem hc)
  rw [afterBlanks?, afterBlanks?, hhead, trimStart_append_of_open ⟨c, hc, hblank⟩]
  split_ifs
  · refine ⟨rfl, fun hnil => ?_⟩
    simp [List.dropWhile_eq_nil_iff.mp (Option.some.inj hnil) c hc] at hblank
  · exact ⟨rfl, by simp⟩

theorem exists_of_afterBlanks?_space (h : afterBlanks? (t ++ [' ']) ≠ some []) : ∃ c ∈ t, Text.isBlank c = false := by
  by_contra! hall
  have hblank : ∀ c ∈ t ++ [' '], Text.isBlank c = true := by
    simpa [or_imp, forall_and, isBlank_space] using hall
  have hnone := afterBlanks?_of_blank hblank (by simp) []
  rw [List.append_nil] at hnone
  exact h hnone

/-- Of a word with white space and something else behind it before the place, it is told there what follows it. -/
theorem afterWord?_append_of_open (h : Apart t u) (hne : t ≠ []) (hword : IsOneName word)
    (hopen : afterWord? word (t ++ [' ']) ≠ some []) :
    afterWord? word (t ++ u) = (afterWord? word t).map (· ++ u) ∧ afterWord? word t ≠ some [] := by
  have hafter (v : Text) (hv : Apart t v) : Text.after? word (t ++ v) = (Text.after? word t).map (· ++ v) :=
    Text.after?_append_of_ended (hv.ended hne hword)
  rw [afterWord?, hafter _ (apart_space t)] at hopen
  rw [afterWord?, afterWord?, hafter u h]
  cases hrest : Text.after? word t with
  | none => exact ⟨rfl, by simp⟩
  | some rest =>
    rw [hrest] at hopen
    exact afterBlanks?_append_of_open (exists_of_afterBlanks?_space hopen) u

/-- The same of the first of some words that stands at the start. -/
theorem firstWord_append_of_open {words : List Text} (h : Apart t u) (hne : t ≠ [])
    (hwords : ∀ word ∈ words, IsOneName word) (hopen : words.findSome? (afterWord? · (t ++ [' '])) ≠ some []) :
    words.findSome? (afterWord? · (t ++ u)) = (words.findSome? (afterWord? · t)).map (· ++ u) ∧
      words.findSome? (afterWord? · t) ≠ some [] := by
  induction words with
  | nil => exact ⟨rfl, by simp⟩
  | cons word words ih =>
    obtain ⟨hword, hwords⟩ := List.forall_mem_cons.mp hwords
    have hfirst : afterWord? word (t ++ [' ']) ≠ some [] := fun hsome => hopen (by
      rw [List.findSome?_cons, hsome])
    obtain ⟨happend, hsome⟩ := afterWord?_append_of_open h hne hword hfirst
    obtain ⟨hspace, -⟩ := afterWord?_append_of_open (apart_space t) hne hword hfirst
    cases hcase : afterWord? word t with
    | some rest =>
      rw [hcase] at happend hsome
      simp [happend, hcase]
      exact fun hnil => hsome (congrArg some hnil)
    | none =>
      rw [hcase] at happend hspace
      rw [List.findSome?_cons, hspace] at hopen
      have hrest := ih hwords hopen
      simpa [List.findSome?_cons, happend, hcase] using hrest

theorem skipWord_append_of_open (h : Apart t u) (hne : t ≠ []) (hword : IsOneName word)
    (hopen : skipWord word (t ++ [' ']) ≠ []) :
    skipWord word (t ++ u) = skipWord word t ++ u ∧ skipWord word t ≠ [] := by
  have hfirst : afterWord? word (t ++ [' ']) ≠ some [] := fun hsome => hopen (by rw [skipWord, hsome]; rfl)
  obtain ⟨happend, hsome⟩ := afterWord?_append_of_open h hne hword hfirst
  rw [skipWord, skipWord, happend]
  cases hcase : afterWord? word t with
  | none => exact ⟨rfl, hne⟩
  | some rest => exact ⟨rfl, fun hnil => hsome (hcase.trans (congrArg some hnil))⟩

/-! ## Declarations before a place -/

theorem isNameChar_of_isIdentifierStart {c : Char} (h : isIdentifierStart c = true) : isNameChar c = true := by
  simp only [isIdentifierStart, Bool.or_eq_true, beq_iff_eq] at h
  rcases h with (hletter | rfl) | rfl
  · have hascii : c.val < 0x80 := by
      simp only [Text.isAsciiLetter, Bool.or_eq_true, Bool.and_eq_true, decide_eq_true_eq, Char.le_def,
        UInt32.le_iff_toNat_le] at hletter
      rw [UInt32.lt_iff_toNat_lt]
      simp at hletter ⊢
      omega
    simp [isNameChar, Text.isWord, hascii, Text.isAsciiAlphanumeric, hletter]
  · rfl
  · rfl

/-- A name that is read before the place ends there, if not before. -/
theorem takeWhile_append_of_apart {c : Char} (h : Apart (c :: t) u) (hc : isNameChar c = true) :
    (t ++ u).takeWhile isNameChar = t.takeWhile isNameChar := by
  by_cases hall : t.all isNameChar = true
  · have hhead : ∀ d ∈ u.head?, isNameChar d = false := by
      rcases h with hlast | hhead
      · obtain ⟨last, hsome⟩ : ∃ last, (c :: t).getLast? = some last :=
          ⟨_, List.getLast?_eq_getLast_of_ne_nil (List.cons_ne_nil c t)⟩
        have hname : isNameChar last = true := by
          rcases List.mem_cons.mp (List.mem_of_getLast? hsome) with rfl | hmem
          · exact hc
          · exact List.all_eq_true.mp hall last hmem
        simp [hlast last hsome] at hname
      · intro d hd
        rcases hhead d hd with hblank | rfl
        · have hdollar : d ≠ '$' := by
            rintro rfl
            cases hblank
          simp [isNameChar, Text.isWord_of_isBlank hblank, hdollar]
        · rfl
    rw [Text.takeWhile_append_of_head? hall hhead, List.takeWhile_eq_self_iff.mpr (List.all_eq_true.mp hall)]
  · rw [List.takeWhile_append, if_neg fun hlength => hall (List.all_eq_true.mpr (List.takeWhile_eq_self_iff.mp ?_))]
    exact (List.takeWhile_prefix _).eq_of_length hlength

/-- The words that declare a name. -/
def declarators : List Text :=
  ["const".toList, "let".toList, "var".toList, "function*".toList, "function".toList, "class".toList]

theorem afterDeclarator?_eq (t : Text) : afterDeclarator? t = declarators.findSome? (afterWord? · t) := by
  simp only [afterDeclarator?, declarators, List.findSome?_cons, List.findSome?_nil]
  cases afterWord? "const".toList t <;> cases afterWord? "let".toList t <;> cases afterWord? "var".toList t <;>
    cases afterWord? "function*".toList t <;> cases afterWord? "function".toList t <;>
    cases afterWord? "class".toList t <;> rfl

instance : DecidablePred IsOneName := fun word =>
  decidable_of_iff (word.dropLast.all isNameChar = true ∧ word.all (fun c => !Text.isBlank c && c != '/') = true)
    ⟨fun h => ⟨List.all_eq_true.mp h.1, by simpa using h.2⟩,
      fun h => ⟨List.all_eq_true.mpr h.inner, by simpa using h.outer⟩⟩

/-- What stands behind `export` before the place is told there, up to the name. -/
theorem afterDeclarator?_append_of_open (h : Apart t u) (hne : t ≠ [])
    (hopen : (let s := skipWord "async" (skipWord "default" (t ++ [' '])); (afterDeclarator? s).getD s) ≠ []) :
    afterDeclarator? (skipWord "async" (skipWord "default" (t ++ u))) =
        (afterDeclarator? (skipWord "async" (skipWord "default" t))).map (· ++ u) ∧
      afterDeclarator? (skipWord "async" (skipWord "default" t)) ≠ some [] := by
  dsimp only at hopen
  have hdefault : skipWord "default" (t ++ [' ']) ≠ [] := fun hnil => hopen (by rw [hnil]; rfl)
  obtain ⟨hskip, hrest⟩ := skipWord_append_of_open h hne (by decide) hdefault
  obtain ⟨hskip', -⟩ := skipWord_append_of_open (apart_space t) hne (by decide) hdefault
  have hsuffix : skipWord "default" t <:+ t := suffix_skipWord _ t
  rw [hskip'] at hopen
  rw [hskip]
  generalize skipWord "default" t = r at hopen hrest hsuffix
  have hr : Apart r u := h.of_suffix hsuffix hrest
  have hasync : skipWord "async" (r ++ [' ']) ≠ [] := fun hnil => hopen (by rw [hnil]; rfl)
  obtain ⟨hskip, hrest'⟩ := skipWord_append_of_open hr hrest (by decide) hasync
  obtain ⟨hskip', -⟩ := skipWord_append_of_open (apart_space r) hrest (by decide) hasync
  have hsuffix' : skipWord "async" r <:+ r := suffix_skipWord _ r
  rw [hskip'] at hopen
  rw [hskip]
  generalize skipWord "async" r = r' at hopen hrest' hsuffix'
  rw [afterDeclarator?_eq] at hopen
  rw [afterDeclarator?_eq, afterDeclarator?_eq]
  refine firstWord_append_of_open (hr.of_suffix hsuffix' hrest') hrest' (by decide) fun hsome => hopen ?_
  rw [hsome]
  rfl

theorem exportName?_append_of_open (h : Apart t u) (hne : t ≠ []) (hopen : exported? (t ++ [' ']) ≠ some []) :
    exportName? (t ++ u) = (exportName? t).map fun (name, next) => (name, next ++ u) := by
  have hexport : afterWord? "export".toList (t ++ [' ']) ≠ some [] := fun hsome => hopen (by rw [exported?, hsome]; rfl)
  obtain ⟨happend, hsome⟩ := afterWord?_append_of_open h hne (by decide) hexport
  obtain ⟨hspace, -⟩ := afterWord?_append_of_open (apart_space t) hne (by decide) hexport
  rw [exportName?, exportName?, happend]
  cases hcase : afterWord? "export".toList t with
  | none => rfl
  | some r =>
    have hr : r ≠ [] := fun hnil => hsome (hcase.trans (congrArg some hnil))
    have hsuffix : r <:+ t := by
      obtain ⟨gap, -, -, rfl⟩ := exists_of_afterWord? hcase
      exact ⟨"export".toList ++ gap, by simp⟩
    have hrest : (let s := skipWord "async" (skipWord "default" (r ++ [' '])); (afterDeclarator? s).getD s) ≠ [] := by
      intro hnil
      rw [exported?, hspace, hcase] at hopen
      exact hopen (congrArg some hnil)
    obtain ⟨hdeclarator, hname⟩ := afterDeclarator?_append_of_open (h.of_suffix hsuffix hr) hr hrest
    dsimp only [Option.map_some, Option.bind_eq_bind, Option.bind_some]
    rw [hdeclarator]
    cases hfound : afterDeclarator? (skipWord "async" (skipWord "default" r)) with
    | none => rfl
    | some s =>
      cases s with
      | nil => exact absurd hfound hname
      | cons c rest =>
        have hc : Apart (c :: rest) u := by
          refine h.of_suffix (((suffix_of_afterDeclarator? hfound).trans ?_).trans hsuffix) (List.cons_ne_nil c rest)
          exact (suffix_skipWord _ _).trans (suffix_skipWord _ _)
        dsimp only [Option.map_some, Option.bind_some]
        rw [List.cons_append]
        dsimp only
        split_ifs with hstart
        · have htake := takeWhile_append_of_apart hc (isNameChar_of_isIdentifierStart hstart)
          have hname : (fun x => Text.isWord x || x == '$') = isNameChar := rfl
          rw [hname, htake, Option.map_some, List.drop_append_of_le_length (List.takeWhile_prefix _).length_le]
        · rfl

theorem EndsClause.not_mem {c : Char} (h : EndsClause c) (hword : '\'' ∉ word ∧ '"' ∉ word ∧ ';' ∉ word) :
    c ∉ word := by
  obtain ⟨hsingle, hdouble, hend⟩ := hword
  rcases h with rfl | rfl | rfl
  · exact hsingle
  · exact hdouble
  · exact hend

/-- Whether a specifier follows is told before the character that ends the clause. -/
theorem specifierFollows?_append_of_ends {c : Char} (hends : EndsClause c) (hc : c ∈ t) (u : Text) :
    specifierFollows? (t ++ u) = (specifierFollows? t).map (· ++ u) := by
  rw [specifierFollows?, specifierFollows?, (afterBlanks?_append_of_open ⟨c, hc, hends.not_blank⟩ u).1]
  cases hblanks : afterBlanks? t with
  | none => rfl
  | some r =>
    obtain ⟨gap, -, hgap, rfl⟩ := exists_of_afterBlanks? hblanks
    have hr : c ∈ r := (List.mem_append.mp hc).resolve_left fun hmem => by
      simpa [hgap c hmem] using hends.not_blank
    have hfrom : c ∉ "from".toList := hends.not_mem (by decide)
    have happend : Text.after? "from" (r ++ u) = (Text.after? "from" r).map (· ++ u) :=
      Text.after?_append_of_ended fun d _ hbegin => hfrom (hbegin.subset (List.mem_append_left _ hr))
    dsimp only [Option.map_some, Option.bind_eq_bind, Option.bind_some]
    rw [happend]
    cases hafter : Text.after? "from" r with
    | none => rfl
    | some r' =>
      have hr' : c ∈ r' := by
        rw [Text.eq_append_of_after? hafter] at hr
        exact (List.mem_append.mp hr).resolve_left hfrom
      have htrim := trimStart_append_of_open ⟨c, hr', hends.not_blank⟩ u
      dsimp only [Option.map_some, Option.bind_some]
      rw [htrim]
      cases hstart : Text.trimStart r' with
      | nil =>
        have hblank := hends.not_blank
        simp [List.dropWhile_eq_nil_iff.mp hstart c hr'] at hblank
      | cons d rest =>
        by_cases hdouble : d = '"'
        · subst hdouble
          rfl
        by_cases hsingle : d = '\''
        · subst hsingle
          rfl
        simp [hdouble, hsingle]

/-- A clause is read or refused before the character that ends it. -/
theorem clause?_append_of_ends {c : Char} (hends : EndsClause c) (hc : c ∈ t) (u : Text) :
    clause? (t ++ u) = (clause? t).map fun (clause, next) => (clause, next ++ u) := by
  induction t with
  | nil => cases hc
  | cons d t ih =>
    rw [List.cons_append, clause?, clause?]
    split_ifs with hd
    · rfl
    · have hmem : c ∈ t := (List.mem_cons.mp hc).resolve_left fun heq => hd (by
        rcases hends with rfl | rfl | rfl <;> rw [← heq] <;> rfl)
      rw [specifierFollows?_append_of_ends hends hmem, ih hmem]
      cases specifierFollows? t with
      | some next => rfl
      | none => cases clause? t <;> rfl

theorem importClause?_append_of_open (h : Apart t u) (hne : t ≠ [])
    (hopen : ∀ rest ∈ afterWord? "import".toList (t ++ [' ']), ∃ c ∈ rest, EndsClause c) :
    importClause? (t ++ u) = (importClause? t).map fun (clause, next) => (clause, next ++ u) := by
  have himport : afterWord? "import".toList (t ++ [' ']) ≠ some [] := fun hsome => by
    obtain ⟨c, hc, -⟩ := hopen [] hsome
    cases hc
  obtain ⟨happend, -⟩ := afterWord?_append_of_open h hne (by decide) himport
  obtain ⟨hspace, -⟩ := afterWord?_append_of_open (apart_space t) hne (by decide) himport
  rw [importClause?, importClause?, happend]
  cases hcase : afterWord? "import".toList t with
  | none => rfl
  | some rest =>
    rw [hcase] at hspace
    obtain ⟨c, hc, hends⟩ := hopen (rest ++ [' ']) hspace
    have hmem : c ∈ rest := (List.mem_append.mp hc).resolve_right fun hc' => by
      rw [List.mem_singleton.mp hc'] at hends
      exact absurd hends.not_blank (by decide)
    exact clause?_append_of_ends hends hmem u

/-- A reader reads the same before a place, whatever stands behind it. -/
def Settled {α : Type} (read : Text → Option (α × Text)) (previous : Option Char) (t u : Text) : Prop :=
  ∀ start ∈ wordStarts previous t, read (start ++ u) = (read start).map fun (a, next) => (a, next ++ u)

section Settled

variable {α : Type} {read : Text → Option (α × Text)} {previous : Option Char} {c : Char}

theorem Settled.of_word (h : Settled read previous (c :: t) u) (hprevious : previous.any Text.isWord = true) :
    Settled read (some c) t u := by
  rwa [Settled, wordStarts, if_pos hprevious] at h

/-- Where a word starts, it is read the same, and so are the words behind its first character. -/
theorem Settled.of_start (h : Settled read previous (c :: t) u) (hprevious : previous.any Text.isWord = false) :
    (read (c :: t ++ u) = (read (c :: t)).map fun (a, next) => (a, next ++ u)) ∧ Settled read (some c) t u := by
  rw [Settled, wordStarts, hprevious, if_neg Bool.false_ne_true] at h
  exact List.forall_mem_cons.mp h

/-- The words behind a part are among those of the whole. -/
theorem Settled.behind {init next : Text} {last : Char} (h : Settled read previous (init ++ last :: next) u) :
    Settled read (some last) next u := by
  intro start hstart
  refine h start ?_
  rw [List.append_cons, wordStarts_append, List.getLast?_concat]
  exact List.mem_append_right _ hstart

theorem foundFrom_append_of_settled (hread : Advances read) (h : Settled read previous t u) :
    foundFrom read previous (t ++ u) = foundFrom read previous t ++ foundFrom read (t.getLast?.or previous) u := by
  induction hlength : t.length using Nat.strong_induction_on generalizing previous t with
  | h n ih =>
    subst hlength
    cases t with
    | nil => rfl
    | cons c t =>
      have hlater (hrest : Settled read (some c) t u) :
          foundFrom read (some c) (t ++ u) =
            foundFrom read (some c) t ++ foundFrom read ((c :: t).getLast?.or previous) u := by
        rw [getLast?_cons_or]
        exact ih t.length (by simp) hrest rfl
      cases hprevious : previous.any Text.isWord with
      | true =>
        rw [List.cons_append, foundFrom_cons hread, if_pos hprevious, foundFrom_cons hread previous c t,
          if_pos hprevious]
        exact hlater (h.of_word hprevious)
      | false =>
        obtain ⟨hfirst, hrest⟩ := h.of_start hprevious
        cases hcase : read (c :: t) with
        | none =>
          rw [hcase] at hfirst
          rw [List.cons_append] at hfirst ⊢
          rw [foundFrom_cons hread, hprevious, if_neg Bool.false_ne_true, foundFrom_cons hread previous c t, hprevious,
            if_neg Bool.false_ne_true, hfirst, hcase]
          exact hlater hrest
        | some found =>
          obtain ⟨a, next⟩ := found
          obtain ⟨init, last, hsplit⟩ := hread _ _ _ hcase
          have hbehind := ih next.length (hread.length_lt hcase) (hsplit ▸ h).behind rfl
          have htext : c :: t ++ u = init ++ last :: (next ++ u) := by simp [hsplit]
          rw [hcase, htext] at hfirst
          rw [htext, foundFrom_of_read hread hprevious hfirst, hbehind, hsplit,
            foundFrom_of_read hread hprevious (hsplit ▸ hcase), getLast?_append_cons_or, List.cons_append]

end Settled

namespace IsPlace

variable (h : IsPlace t u)
include h

theorem settled_imports (hv : Apart t v) : Settled importClause? none t v := by
  intro start hstart
  obtain ⟨hsuffix, hne⟩ := suffix_of_mem_wordStarts hstart
  exact importClause?_append_of_open (hv.of_suffix hsuffix hne) hne (h.imports start hstart)

theorem settled_exports (hv : Apart t v) : Settled exportName? none t v := by
  intro start hstart
  obtain ⟨hsuffix, hne⟩ := suffix_of_mem_wordStarts hstart
  exact exportName?_append_of_open (hv.of_suffix hsuffix hne) hne (h.exports start hstart)

end IsPlace

/-! ## Places behind a semicolon or a specifier -/

variable {c : Char}

theorem mem_of_afterWord? (h : afterWord? word t = some u) (hends : EndsClause c)
    (hword : '\'' ∉ word ∧ '"' ∉ word ∧ ';' ∉ word) (hc : c ∈ t) : c ∈ u := by
  obtain ⟨gap, -, hgap, rfl⟩ := exists_of_afterWord? h
  have hblank : c ∉ gap := fun hmem => by simpa [hgap c hmem] using hends.not_blank
  simpa [hends.not_mem hword, hblank] using hc

theorem mem_skipWord (hends : EndsClause c) (hword : '\'' ∉ word ∧ '"' ∉ word ∧ ';' ∉ word) (hc : c ∈ t) :
    c ∈ skipWord word t := by
  rw [skipWord]
  cases h : afterWord? word t with
  | none => exact hc
  | some rest => exact mem_of_afterWord? h hends hword hc

theorem mem_of_exported? (h : exported? t = some u) (hends : EndsClause c) (hc : c ∈ t) : c ∈ u := by
  obtain ⟨rest, hexport, rfl⟩ := Option.map_eq_some_iff.mp h
  have hrest := mem_of_afterWord? hexport hends (by decide) hc
  have hskip : c ∈ skipWord "async" (skipWord "default" rest) :=
    mem_skipWord hends (by decide) (mem_skipWord hends (by decide) hrest)
  dsimp only
  cases hdeclarator : afterDeclarator? (skipWord "async" (skipWord "default" rest)) with
  | none => exact hskip
  | some rest' =>
    rw [afterDeclarator?_eq] at hdeclarator
    obtain ⟨word, hword, hafter⟩ := List.exists_of_findSome?_eq_some hdeclarator
    have hchars : ∀ word ∈ declarators, '\'' ∉ word ∧ '"' ∉ word ∧ ';' ∉ word := by decide
    exact mem_of_afterWord? hafter hends (hchars word hword) hskip

/-- A declaration that ends with a semicolon, or with the quote behind a specifier, leaves nothing open. -/
theorem isPlace_of_end {gap : Text} (hends : EndsClause c) (hgap : ∀ d ∈ gap, Text.isBlank d = true) (t u : Text) :
    IsPlace (t ++ c :: gap) u := by
  have hstart {start : Text} (h : start ∈ wordStarts none (t ++ c :: gap)) :
      (∃ d rest, start = d :: rest ∧ Text.isBlank d = true) ∨ c ∈ start := by
    obtain ⟨⟨init, hinit⟩, hne⟩ := suffix_of_mem_wordStarts h
    rcases List.append_eq_append_iff.mp hinit with ⟨y, -, rfl⟩ | ⟨y, -, hy⟩
    · exact .inr (by simp)
    · cases y with
      | nil => exact .inr ((List.nil_append start ▸ hy) ▸ List.mem_cons_self)
      | cons e y =>
        obtain ⟨d, rest, rfl⟩ := List.exists_cons_of_ne_nil hne
        have hmem : d ∈ gap := by
          rw [List.cons_append] at hy
          rw [(List.cons.inj hy).2]
          simp
        exact .inl ⟨d, rest, rfl, hgap d hmem⟩
  have hnone {word : Text} {d : Char} (rest : Text) (hword : IsKeyword word) (hd : Text.isBlank d = true) :
      afterWord? word (d :: rest) = none :=
    afterWord?_cons_of_not_isWord hword (Text.isWord_of_isBlank hd) rest
  refine ⟨fun start h rest hrest => ?_, fun start h hnil => ?_, .inl fun d hd => ?_⟩
  · rcases hstart h with ⟨d, tail, rfl, hd⟩ | hc
    · rw [List.cons_append, hnone _ (by decide) hd] at hrest
      cases hrest
    · exact ⟨c, mem_of_afterWord? hrest hends (by decide) (List.mem_append_left _ hc), hends⟩
  · rcases hstart h with ⟨d, tail, rfl, hd⟩ | hc
    · rw [exported?, List.cons_append, hnone _ (by decide) hd] at hnil
      cases hnil
    · exact List.not_mem_nil (mem_of_exported? hnil hends (List.mem_append_left _ hc))
  · rw [List.getLast?_append_of_ne_nil _ (by simp)] at hd
    rcases List.mem_cons.mp (List.mem_of_getLast? hd) with rfl | hmem
    · rcases hends with rfl | rfl | rfl <;> rfl
    · have hdollar : d ≠ '$' := by
        rintro rfl
        cases hgap _ hmem
      simp [isNameChar, Text.isWord_of_isBlank (hgap d hmem), hdollar]

end StaticSite.EsModule
