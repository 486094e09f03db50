import StaticSite.Proofs.EsModule.Bindings
import StaticSite.Proofs.EsModule.Words

/-!
# What is found in a text, part by part

A reader that goes through a text leaves each part of it with the character before the next part, and finds there
what it finds in the rest. So what it finds is told part by part: nothing where it can start nowhere, and one thing,
with all that follows it, where it starts.
-/
namespace StaticSite.EsModule

/-! ## The search from a place on -/

section Search

variable {α : Type} {read : Text → Option (α × Text)} {previous : Option Char} {t u next : Text} {a : α} {c : Char}

/-- What a reader goes past is the beginning of the text that it reads, and not empty. -/
def Advances (read : Text → Option (α × Text)) : Prop :=
  ∀ t a next, read t = some (a, next) → ∃ init last, t = init ++ last :: next

theorem Advances.length_lt (hread : Advances read) (h : read t = some (a, next)) : next.length < t.length := by
  obtain ⟨init, last, rfl⟩ := hread _ _ _ h
  rw [List.length_append, List.length_cons]
  omega

/-- What a reader finds from a place on, behind a character. -/
def foundFrom (read : Text → Option (α × Text)) (previous : Option Char) (t : Text) : List α :=
  findFrom read t.length previous t

/-- Two amounts that both suffice for a text are as good as each other. -/
theorem findFrom_congr (hread : Advances read) {fuel fuel' : Nat} (h : t.length ≤ fuel) (h' : t.length ≤ fuel') :
    findFrom read fuel previous t = findFrom read fuel' previous t := by
  induction fuel generalizing fuel' previous t with
  | zero =>
    obtain rfl : t = [] := List.length_eq_zero_iff.mp (by omega)
    cases fuel' <;> rfl
  | succ fuel ih =>
    cases t with
    | nil => cases fuel' <;> rfl
    | cons c t =>
      obtain ⟨fuel', rfl⟩ : ∃ k, fuel' = k + 1 := Nat.exists_eq_add_one.mpr (Nat.lt_of_lt_of_le (by simp) h')
      rw [List.length_cons] at h h'
      have hrest : findFrom read fuel (some c) t = findFrom read fuel' (some c) t := ih (by omega) (by omega)
      rw [findFrom, findFrom, hrest]
      cases hsome : read (c :: t) with
      | none => rfl
      | some found =>
        obtain ⟨a, next⟩ := found
        have hshorter : next.length < t.length + 1 := hread.length_lt hsome
        have hnext (last : Option Char) : findFrom read fuel last next = findFrom read fuel' last next :=
          ih (by omega) (by omega)
        dsimp only
        rw [hnext]

theorem findFrom_eq_foundFrom (hread : Advances read) {fuel : Nat} (h : t.length ≤ fuel) :
    findFrom read fuel previous t = foundFrom read previous t := findFrom_congr hread h le_rfl

theorem findAll_eq_foundFrom (hread : Advances read) (t : Text) : findAll read t = foundFrom read none t :=
  findFrom_eq_foundFrom hread (Nat.le_succ _)

theorem foundFrom_cons (hread : Advances read) (previous : Option Char) (c : Char) (t : Text) :
    foundFrom read previous (c :: t) =
      if previous.any Text.isWord then foundFrom read (some c) t
      else match read (c :: t) with
        | some (a, next) => a :: foundFrom read ((c :: t).take (t.length + 1 - next.length)).getLast? next
        | none => foundFrom read (some c) t := by
  rw [foundFrom, List.length_cons, findFrom]
  cases hsome : read (c :: t) with
  | none => rfl
  | some found =>
    obtain ⟨a, next⟩ := found
    have hshorter : next.length < t.length + 1 := hread.length_lt hsome
    have hnext (last : Option Char) : findFrom read t.length last next = foundFrom read last next :=
      findFrom_eq_foundFrom hread (by omega)
    dsimp only
    rw [hnext]
    rfl

/-- What a reader reads at the start of a word is found, and the search goes on behind it. -/
theorem foundFrom_of_read (hread : Advances read) (hprevious : previous.any Text.isWord = false) {init : Text}
    {last : Char} (h : read (init ++ last :: next) = some (a, next)) :
    foundFrom read previous (init ++ last :: next) = a :: foundFrom read (some last) next := by
  obtain ⟨c, t, hsplit⟩ : ∃ c t, init ++ last :: next = c :: t := List.exists_cons_of_ne_nil (by simp)
  have htake : ((c :: t).take (t.length + 1 - next.length)).getLast? = some last := by
    have hlength := congrArg List.length hsplit
    simp only [List.length_cons, List.length_append] at hlength
    have hcount : t.length + 1 - next.length = (init ++ [last]).length := by
      rw [List.length_append, List.length_singleton]
      omega
    have htext : init ++ last :: next = init ++ [last] ++ next := by simp
    rw [← hsplit, hcount, htext, List.take_left]
    simp
  rw [hsplit, foundFrom_cons hread, hprevious, if_neg Bool.false_ne_true, ← hsplit, h]
  dsimp only
  rw [hsplit, htake]

/-- Where no word of a part starts anything, the search goes past the part. -/
theorem foundFrom_append_of_starts (hread : Advances read)
    (h : ∀ start ∈ wordStarts previous t, read (start ++ u) = none) :
    foundFrom read previous (t ++ u) = foundFrom read (t.getLast?.or previous) u := by
  induction t generalizing previous with
  | nil => rfl
  | cons c t ih =>
    rw [List.cons_append, foundFrom_cons hread, getLast?_cons_or]
    rw [wordStarts] at h
    split_ifs with hprevious
    · rw [if_pos hprevious] at h
      exact ih h
    · rw [if_neg hprevious] at h
      obtain ⟨hfirst, hrest⟩ := List.forall_mem_cons.mp h
      rw [List.cons_append] at hfirst
      rw [hfirst]
      exact ih hrest

/-- Nothing is read from anywhere in a part, with what follows it. -/
def Quiet (read : Text → Option (α × Text)) (t u : Text) : Prop :=
  ∀ start, start <:+ t → start ≠ [] → read (start ++ u) = none

theorem Quiet.nil : Quiet read [] u := fun _ hsuffix hne => absurd (List.suffix_nil.mp hsuffix) hne

theorem Quiet.cons (h : read (c :: (t ++ u)) = none) (ht : Quiet read t u) : Quiet read (c :: t) u := by
  intro start hsuffix hne
  rcases List.suffix_cons_iff.mp hsuffix with rfl | hsuffix
  · exact h
  · exact ht start hsuffix hne

theorem Quiet.append {v : Text} (ht : Quiet read t (u ++ v)) (hu : Quiet read u v) : Quiet read (t ++ u) v := by
  induction t with
  | nil => exact hu
  | cons c t ih =>
    have hrest : Quiet read t (u ++ v) := fun start hsuffix hne => ht start (hsuffix.trans (List.suffix_cons c t)) hne
    rw [List.cons_append]
    refine Quiet.cons ?_ (ih hrest)
    rw [List.append_assoc]
    exact ht (c :: t) List.suffix_rfl (by simp)

theorem foundFrom_append_of_quiet (hread : Advances read) (h : Quiet read t u) (previous : Option Char) :
    foundFrom read previous (t ++ u) = foundFrom read (t.getLast?.or previous) u :=
  foundFrom_append_of_starts hread fun start hstart =>
    h start (suffix_of_mem_wordStarts hstart).1 (suffix_of_mem_wordStarts hstart).2

end Search

/-! ## What the readers of declarations go past -/

variable {t u next clause : Text} {c : Char}

/-- The character ends a clause, or it starts the specifier behind one. -/
def EndsClause (c : Char) : Prop := c = '\'' ∨ c = '"' ∨ c = ';'

theorem not_endsClause_iff : ¬EndsClause c ↔ c ≠ '\'' ∧ c ≠ '"' ∧ c ≠ ';' := by simp [EndsClause]

theorem EndsClause.not_blank (h : EndsClause c) : Text.isBlank c = false := by
  rcases h with rfl | rfl | rfl <;> rfl

theorem exists_of_afterBlanks? (h : afterBlanks? t = some u) :
    ∃ gap, gap ≠ [] ∧ (∀ c ∈ gap, Text.isBlank c = true) ∧ t = gap ++ u := by
  cases t with
  | nil => cases h
  | cons c t =>
    rw [afterBlanks?] at h
    split_ifs at h with hc
    obtain rfl := Option.some.inj h
    refine ⟨(c :: t).takeWhile Text.isBlank, ?_, fun d hd => List.mem_takeWhile_imp hd,
      List.takeWhile_append_dropWhile.symm⟩
    rw [List.head?_cons, Option.any_some] at hc
    simp [hc]

theorem exists_of_afterWord? {word : Text} (h : afterWord? word t = some u) :
    ∃ gap, gap ≠ [] ∧ (∀ c ∈ gap, Text.isBlank c = true) ∧ t = word ++ (gap ++ u) := by
  rw [afterWord?, Option.bind_eq_some_iff] at h
  obtain ⟨rest, hafter, hblanks⟩ := h
  obtain ⟨gap, hne, hgap, rfl⟩ := exists_of_afterBlanks? hblanks
  exact ⟨gap, hne, hgap, Text.eq_append_of_after? hafter⟩

/-- A specifier that follows is white space, `from`, perhaps white space, and a quote. -/
theorem exists_of_specifierFollows? (h : specifierFollows? t = some next) :
    ∃ gap gap' quote, gap ≠ [] ∧ (∀ c ∈ gap, Text.isBlank c = true) ∧ (∀ c ∈ gap', Text.isBlank c = true) ∧
      (quote = '"' ∨ quote = '\'') ∧ t = gap ++ ("from".toList ++ (gap' ++ quote :: next)) := by
  simp only [specifierFollows?, Option.bind_eq_bind, Option.bind_eq_some_iff] at h
  obtain ⟨rest, hblanks, rest', hfrom, hquote⟩ := h
  obtain ⟨gap, hne, hgap, rfl⟩ := exists_of_afterBlanks? hblanks
  have hrest : rest' = rest'.takeWhile Text.isBlank ++ Text.trimStart rest' := List.takeWhile_append_dropWhile.symm
  obtain ⟨quote, hquotes, htrim⟩ : ∃ quote, (quote = '"' ∨ quote = '\'') ∧ Text.trimStart rest' = quote :: next := by
    split at hquote
    · rename_i heq
      exact ⟨'"', .inl rfl, by rw [heq, Option.some.inj hquote]⟩
    · rename_i heq
      exact ⟨'\'', .inr rfl, by rw [heq, Option.some.inj hquote]⟩
    · cases hquote
  refine ⟨gap, rest'.takeWhile Text.isBlank, quote, hne, hgap, fun c hc => List.mem_takeWhile_imp hc, hquotes, ?_⟩
  rw [Text.eq_append_of_after? hfrom, ← htrim, ← hrest]

theorem exists_of_clause? (h : clause? t = some (clause, next)) : ∃ init last, t = init ++ last :: next := by
  induction t generalizing clause with
  | nil => cases h
  | cons c t ih =>
    rw [clause?] at h
    split at h
    · cases h
    · split at h
      · rename_i hfollows
        obtain ⟨-, rfl⟩ := Prod.mk.inj (Option.some.inj h)
        obtain ⟨gap, gap', quote, -, -, -, -, rfl⟩ := exists_of_specifierFollows? hfollows
        exact ⟨c :: (gap ++ ("from".toList ++ gap')), quote, by simp⟩
      · obtain ⟨⟨clause', next'⟩, hclause, hpair⟩ := Option.map_eq_some_iff.mp h
        obtain ⟨-, rfl⟩ := Prod.mk.inj hpair
        obtain ⟨init, last, rfl⟩ := ih hclause
        exact ⟨c :: init, last, rfl⟩

theorem advances_importClause? : Advances importClause? := by
  intro t clause next h
  simp only [importClause?, Option.bind_eq_bind, Option.bind_eq_some_iff] at h
  obtain ⟨rest, hword, hclause⟩ := h
  obtain ⟨gap, -, -, rfl⟩ := exists_of_afterWord? hword
  obtain ⟨init, last, rfl⟩ := exists_of_clause? hclause
  exact ⟨"import".toList ++ (gap ++ init), last, by simp⟩

theorem suffix_skipWord (word t : Text) : skipWord word t <:+ t := by
  rw [skipWord]
  cases h : afterWord? word t with
  | none => exact List.suffix_rfl
  | some rest =>
    obtain ⟨gap, -, -, rfl⟩ := exists_of_afterWord? h
    exact ⟨word ++ gap, by simp⟩

theorem suffix_of_afterDeclarator? (h : afterDeclarator? t = some u) : u <:+ t := by
  have hword {word : Text} (h : afterWord? word t = some u) : u <:+ t := by
    obtain ⟨gap, -, -, rfl⟩ := exists_of_afterWord? h
    exact ⟨word ++ gap, by simp⟩
  simp only [afterDeclarator?, Option.or_eq_some_iff] at h
  rcases h with h | ⟨-, h | ⟨-, h | ⟨-, h | ⟨-, h | ⟨-, h⟩⟩⟩⟩⟩ <;> exact hword h

theorem advances_exportName? : Advances exportName? := by
  intro t name next h
  simp only [exportName?, Option.bind_eq_bind, Option.bind_eq_some_iff] at h
  obtain ⟨rest, hword, rest', hdeclarator, hname⟩ := h
  obtain ⟨gap, -, -, rfl⟩ := exists_of_afterWord? hword
  have hsuffix : rest' <:+ rest :=
    (suffix_of_afterDeclarator? hdeclarator).trans ((suffix_skipWord _ _).trans (suffix_skipWord _ _))
  obtain ⟨start, rfl⟩ := hsuffix
  cases rest' with
  | nil => cases hname
  | cons c rest' =>
    dsimp only at hname
    split_ifs at hname
    obtain ⟨-, rfl⟩ := Prod.mk.inj (Option.some.inj hname)
    rcases List.eq_nil_or_concat' (c :: rest'.takeWhile fun x => Text.isWord x || x == '$') with
      hnil | ⟨init, last, hinit⟩
    · cases hnil
    · refine ⟨"export".toList ++ (gap ++ (start ++ init)), last, ?_⟩
      have hrest : c :: rest' = init ++ last ::
          rest'.drop (rest'.takeWhile fun x => Text.isWord x || x == '$').length := by
        rw [← List.singleton_append (x := last), ← List.append_assoc, ← hinit, List.cons_append,
          Text.takeWhile_append_drop]
      simp only [List.append_assoc, ← hrest]

end StaticSite.EsModule
