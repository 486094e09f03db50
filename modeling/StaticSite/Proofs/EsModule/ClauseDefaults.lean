import StaticSite.Proofs.EsModule.ExportClause

/-!
# Default exports in a clause

In a module that is one export clause two shapes are looked for: an item renamed to `default`, and a list that is
the item `default` alone. So whether the clause has a default export can be told by the names that its items are
exported under, where `default` is passed on alone and no item is renamed to a longer name that begins with this word.
-/
namespace StaticSite.EsModule

/-! ## A keyword before `default` -/

/-- The next word of a text is no `default`. -/
def NoDefaultNext (t : Text) : Prop := afterWholeWord? "default" (Text.trimStart t) = none

/-- Somewhere in a text a keyword stands before the word `default`. -/
def leadsToDefault (word : Text) (previous : Option Char) (t : Text) : Bool :=
  (wordStarts previous t).any fun start => ((afterWord? word start).bind (afterWholeWord? "default")).isSome

variable {word t u : Text} {previous : Option Char}

theorem leadsToDefault_append (word : Text) (previous : Option Char) (t u : Text) :
    leadsToDefault word previous (t ++ u) =
      (((wordStarts previous t).any fun start =>
        ((afterWord? word (start ++ u)).bind (afterWholeWord? "default")).isSome) ||
      leadsToDefault word (t.getLast?.or previous) u) := by
  rw [leadsToDefault, wordStarts_append, List.any_append, List.any_map]
  rfl

/-- No keyword starts in what divides words. -/
theorem leadsToDefault_divider (hword : IsKeyword word) (ht : ∀ c ∈ t, Text.isWord c = false)
    (hprevious : previous.any Text.isWord = false) (u : Text) :
    leadsToDefault word previous (t ++ u) = leadsToDefault word none u := by
  refine any_wordStarts_divider (fun c start hc => ?_) ht hprevious u
  rw [afterWord?_cons_of_not_isWord hword hc]
  rfl

theorem leadsToDefault_of_head? (hword : IsKeyword word) (hu : ∀ d ∈ u.head?, Text.isWord d = false)
    (previous : Option Char) : leadsToDefault word previous u = leadsToDefault word none u := by
  refine any_wordStarts_of_head? (fun c start hc => ?_) hu previous
  rw [afterWord?_cons_of_not_isWord hword hc]
  rfl

/-- A word does not lead to `default` if it does not end in the keyword, or if something else comes next. -/
theorem leadsToDefault_token (hword : IsKeyword word) (ht : t.Unspaced) (hu : ∀ d ∈ u.head?, Text.isWord d = false)
    (h : word <:+ t → NoDefaultNext u) (previous : Option Char) :
    leadsToDefault word previous (t ++ u) = leadsToDefault word none u := by
  have hnone : ((wordStarts previous t).any fun start =>
      ((afterWord? word (start ++ u)).bind (afterWholeWord? "default")).isSome) = false := by
    refine List.any_eq_false.mpr fun start hstart => ?_
    obtain ⟨hsuffix, -⟩ := suffix_of_mem_wordStarts hstart
    have hunspaced : start.Unspaced := fun c hc => ht c (hsuffix.subset hc)
    rw [afterWord?_append_of_unspaced hunspaced fun d hd => not_mem_of_isWord hword (hu d hd)]
    split_ifs with heq
    · have hnext : NoDefaultNext u := h (heq ▸ hsuffix)
      rw [afterBlanks?]
      split_ifs
      · rw [Option.bind_some, show afterWholeWord? "default" (Text.trimStart u) = none from hnext]
        simp
      · simp
    · simp
  rw [leadsToDefault_append, hnone, Bool.false_or, leadsToDefault_of_head? hword hu]

/-! ## Items -/

theorem noDefaultNext_spacing (s : Spacing) (h : EndsItem t) : NoDefaultNext (codeOf s.pieces ++ t) := by
  rw [NoDefaultNext, Text.trimStart_append_of_blank s.blank_code, h.trimStart_eq]
  cases t with
  | nil => rfl
  | cons c t => rcases h c rfl with rfl | rfl <;> rfl

/-- What stands in an item behind its first name leads on to something other than `default`. -/
theorem noDefaultNext_afterName (i : ExportItem) (h : EndsItem u) :
    NoDefaultNext (codeOf ((i.renamed.map Renaming.pieces).getD []) ++ (codeOf i.after.pieces ++ u)) := by
  cases i.renamed with
  | none => exact noDefaultNext_spacing i.after h
  | some r =>
    simp only [Option.map_some, Option.getD_some, r.code_eq, List.append_assoc]
    rw [NoDefaultNext, Text.trimStart_append_of_blank r.beforeAs.blank_code]
    rfl

/-- A text that begins with what sets words apart does not begin with a word. -/
theorem head?_break (s : Spacing) (h : codeOf s.pieces ≠ []) (u : Text) :
    ∀ c ∈ (codeOf s.pieces ++ u).head?, Text.isWord c = false := by
  obtain ⟨d, code, hcode⟩ := List.exists_cons_of_ne_nil h
  intro c hc
  rw [hcode] at hc
  obtain rfl : d = c := Option.some.inj hc
  exact s.no_word d (hcode ▸ List.mem_cons_self)

theorem head?_afterName (i : ExportItem) (h : EndsItem u) :
    ∀ c ∈ (codeOf ((i.renamed.map Renaming.pieces).getD []) ++ (codeOf i.after.pieces ++ u)).head?,
      Text.isWord c = false := by
  cases i.renamed with
  | none => exact head?_spacing_append i.after h.no_word
  | some r =>
    simp only [Option.map_some, Option.getD_some, r.code_eq, List.append_assoc]
    exact head?_break r.beforeAs r.apart.1 _

theorem leadsToDefault_item (hword : IsKeyword word) (hprevious : previous.any Text.isWord = false)
    (hu : EndsItem u) (i : ExportItem) :
    leadsToDefault word previous (codeOf i.pieces ++ u) = leadsToDefault word none
      (codeOf ((i.renamed.map Renaming.pieces).getD []) ++ (codeOf i.after.pieces ++ u)) := by
  simp only [i.code_eq, List.append_assoc]
  rw [leadsToDefault_divider hword i.before.no_word hprevious,
    leadsToDefault_token hword i.name.unspaced (head?_afterName i hu) fun _ => noDefaultNext_afterName i hu]

/-- The keyword `as` leads to `default` if this is the word behind it. -/
theorem leadsToDefault_as (hprevious : previous.any Text.isWord = false) (hu : ∀ d ∈ u.head?, Text.isWord d = false) :
    leadsToDefault "as" previous ("as" ++ u) =
      (((afterBlanks? u).bind (afterWholeWord? "default")).isSome || leadsToDefault "as" none u) := by
  have hstarts : wordStarts previous "as".toList = ["as".toList] := by
    have hlater : wordStarts (some 'a') ['s'] = [] := by decide
    change wordStarts previous ('a' :: ['s']) = _
    rw [wordStarts, hprevious, hlater]
    rfl
  have hword : IsKeyword "as".toList := by decide
  have hunspaced : Text.Unspaced "as".toList := by decide
  rw [leadsToDefault_append, hstarts, List.any_cons, List.any_nil, Bool.or_false,
    afterWord?_append_of_unspaced hunspaced fun d hd => not_mem_of_isWord hword (hu d hd), if_pos rfl,
    leadsToDefault_of_head? hword hu]

theorem leadsToDefault_afterAs (hword : IsKeyword word) (r : Renaming) (s : Spacing) (hu : EndsItem u) :
    leadsToDefault word none (codeOf r.afterAs.pieces ++ (r.name.text ++ (codeOf s.pieces ++ u))) =
      leadsToDefault word none u := by
  rw [leadsToDefault_divider hword r.afterAs.no_word rfl,
    leadsToDefault_token hword r.name.unspaced (head?_spacing_append s hu.no_word) fun _ => noDefaultNext_spacing s hu,
    leadsToDefault_divider hword s.no_word rfl]

/-- An item does not put `export` before `default`. -/
theorem leadsToDefault_export_item (hprevious : previous.any Text.isWord = false) (hu : EndsItem u) (i : ExportItem) :
    leadsToDefault "export" previous (codeOf i.pieces ++ u) = leadsToDefault "export" none u := by
  have hword : IsKeyword "export".toList := by decide
  rw [leadsToDefault_item hword hprevious hu]
  cases i.renamed with
  | none => exact leadsToDefault_divider hword i.after.no_word rfl u
  | some r =>
    have hunspaced : Text.Unspaced "as".toList := by decide
    have hend : ¬"export".toList <:+ "as".toList := by decide
    simp only [Option.map_some, Option.getD_some, r.code_eq, List.append_assoc]
    rw [leadsToDefault_divider hword r.beforeAs.no_word rfl,
      leadsToDefault_token hword hunspaced (head?_break r.afterAs r.apart.2 _) fun h => absurd h hend,
      leadsToDefault_afterAs hword r i.after hu]

/-- An item puts `as` before `default` if it is renamed to a name that begins with this word. -/
theorem leadsToDefault_as_item (hprevious : previous.any Text.isWord = false) (hu : EndsItem u) (i : ExportItem) :
    leadsToDefault "as" previous (codeOf i.pieces ++ u) =
      ((i.renamed.any fun r => (afterWholeWord? "default" r.name.text).isSome) || leadsToDefault "as" none u) := by
  have hword : IsKeyword "as".toList := by decide
  rw [leadsToDefault_item hword hprevious hu]
  cases i.renamed with
  | none => exact leadsToDefault_divider hword i.after.no_word rfl u
  | some r =>
    have hdefault : IsKeyword "default".toList := by decide
    have hnext : afterBlanks? (codeOf r.afterAs.pieces ++ (r.name.text ++ (codeOf i.after.pieces ++ u))) =
        some (r.name.text ++ (codeOf i.after.pieces ++ u)) := by
      rw [afterBlanks?_of_blank r.afterAs.blank_code r.apart.2,
        Text.trimStart_of_unspaced r.name.unspaced r.name.ne_nil]
    simp only [Option.map_some, Option.getD_some, r.code_eq, List.append_assoc, Option.any_some]
    rw [leadsToDefault_divider hword r.beforeAs.no_word rfl, leadsToDefault_as rfl (head?_break r.afterAs r.apart.2 _), hnext,
      Option.bind_some, afterWholeWord?_append hdefault (head?_spacing_append i.after hu.no_word), Option.isSome_map,
      leadsToDefault_afterAs hword r i.after hu]

/-! ## The list -/

theorem leadsToDefault_join {β : Type} {code : β → Text} {p : β → Bool} {bs : List β} (hword : IsKeyword word)
    (h : ∀ b ∈ bs, ∀ previous u, Option.any Text.isWord previous = false → EndsItem u →
      leadsToDefault word previous (code b ++ u) = (p b || leadsToDefault word none u))
    (hprevious : previous.any Text.isWord = false) (hu : EndsItem u) :
    leadsToDefault word previous (Text.join "," (bs.map code) ++ u) = (bs.any p || leadsToDefault word none u) := by
  have hnone (t : Text) : leadsToDefault word none t = leadsToDefault word previous t :=
    (leadsToDefault_divider (t := []) hword (by simp) hprevious t).symm
  induction bs with
  | nil => exact (hnone u).symm
  | cons b bs ih =>
    obtain ⟨hb, hbs⟩ := List.forall_mem_cons.mp h
    cases bs with
    | nil => simpa [Text.join] using hb previous u hprevious hu
    | cons b' bs =>
      have hcomma : EndsItem (',' :: (Text.join "," ((b' :: bs).map code) ++ u)) := fun c hc =>
        .inl (by simpa using hc.symm)
      have hdivider : leadsToDefault word none (',' :: (Text.join "," ((b' :: bs).map code) ++ u)) =
          leadsToDefault word none (Text.join "," ((b' :: bs).map code) ++ u) :=
        leadsToDefault_divider hword (isWord_singleton rfl) rfl _
      have htext : Text.join "," ((b :: b' :: bs).map code) ++ u =
          code b ++ ',' :: (Text.join "," ((b' :: bs).map code) ++ u) := by
        simp [Text.join]
      rw [htext, hb _ _ hprevious hcomma, hdivider, hnone, ih hbs]
      simp only [List.any_cons, Bool.or_assoc]

namespace ExportClause

variable {c : ExportClause}

theorem leadsToDefault_export_inside (c : ExportClause) (hu : EndsItem u) :
    leadsToDefault "export" none (c.inside ++ u) = leadsToDefault "export" none u := by
  have hword : IsKeyword "export".toList := by decide
  have hpart : ∀ ps ∈ c.parts, ∀ previous v, Option.any Text.isWord previous = false → EndsItem v →
      leadsToDefault "export" previous (codeOf ps ++ v) = (false || leadsToDefault "export" none v) := by
    intro ps hps previous v hprevious hv
    rcases exists_part hps with ⟨i, -, rfl⟩ | ⟨s, -, rfl⟩
    · exact leadsToDefault_export_item hprevious hv i
    · exact leadsToDefault_divider hword s.no_word hprevious v
  have hnone : (c.parts.any fun _ => false) = false := by simp
  rw [inside, leadsToDefault_join hword hpart rfl hu, hnone, Bool.false_or]

/-- In the list `as` stands before `default` where an item is renamed to a name that begins with this word. -/
theorem renamesToDefault_inside (c : ExportClause) :
    renamesToDefault c.inside =
      c.items.any fun i => i.renamed.any fun r => (afterWholeWord? "default" r.name.text).isSome := by
  have hword : IsKeyword "as".toList := by decide
  have hend : EndsItem [] := by simp [EndsItem]
  have halone {t : Text} {b : Bool} (h : leadsToDefault "as" none (t ++ []) = (b || leadsToDefault "as" none [])) :
      leadsToDefault "as" none t = b := by
    rwa [List.append_nil, show leadsToDefault "as" none [] = false from rfl, Bool.or_false] at h
  have hitem (i : ExportItem) : leadsToDefault "as" none (codeOf i.pieces) =
      i.renamed.any fun r => (afterWholeWord? "default" r.name.text).isSome :=
    halone (leadsToDefault_as_item rfl hend i)
  have hspacing (s : Spacing) : leadsToDefault "as" none (codeOf s.pieces) = false :=
    halone (leadsToDefault_divider hword s.no_word rfl [])
  have hpart : ∀ ps ∈ c.parts, ∀ previous v, Option.any Text.isWord previous = false → EndsItem v →
      leadsToDefault "as" previous (codeOf ps ++ v) =
        (leadsToDefault "as" none (codeOf ps) || leadsToDefault "as" none v) := by
    intro ps hps previous v hprevious hv
    rcases exists_part hps with ⟨i, -, rfl⟩ | ⟨s, -, rfl⟩
    · rw [leadsToDefault_as_item hprevious hv, hitem]
    · rw [leadsToDefault_divider hword s.no_word hprevious, hspacing, Bool.false_or]
  have htrailing :
      ((c.trailing.map Spacing.pieces).toList.any fun ps => leadsToDefault "as" none (codeOf ps)) = false := by
    cases c.trailing with
    | none => rfl
    | some s => exact (Bool.or_false _).trans (hspacing s)
  have hlist : leadsToDefault "as" none c.inside = c.parts.any fun ps => leadsToDefault "as" none (codeOf ps) :=
    halone (leadsToDefault_join hword hpart rfl hend)
  calc renamesToDefault c.inside
    _ = c.parts.any fun ps => leadsToDefault "as" none (codeOf ps) := hlist
    _ = c.items.any fun i => leadsToDefault "as" none (codeOf i.pieces) := by
      rw [parts, List.any_append, List.any_map, htrailing, Bool.or_false]
      rfl
    _ = _ := congrArg c.items.any (funext hitem)

end ExportClause

/-! ## Where a clause is looked for -/

/-- The text begins with an export clause that has a default export. -/
def opensDefault (t : Text) : Bool :=
  (Text.after? "export" t).any fun rest => clauseExportsDefault (Text.trimStart rest)

theorem startsDefaultExport_eq (t : Text) :
    startsDefaultExport t =
      (((afterWord? "export" t).bind (afterWholeWord? "default")).isSome || opensDefault t) := by
  rw [startsDefaultExport, afterWord?, opensDefault]
  cases Text.after? "export" t with
  | none => rfl
  | some rest => rfl

theorem declaresDefault_eq (code : Text) :
    declaresDefault code = (leadsToDefault "export" none code || (wordStarts none code).any opensDefault) := by
  rw [declaresDefault, leadsToDefault, Bool.eq_iff_iff]
  simp only [startsDefaultExport_eq, List.any_eq_true, Bool.or_eq_true]
  constructor
  · rintro ⟨start, hstart, hleads | hopens⟩
    · exact .inl ⟨start, hstart, hleads⟩
    · exact .inr ⟨start, hstart, hopens⟩
  · rintro (⟨start, hstart, hleads⟩ | ⟨start, hstart, hopens⟩)
    · exact ⟨start, hstart, .inl hleads⟩
    · exact ⟨start, hstart, .inr hopens⟩

theorem opensDefault_cons_of_not_isWord {c : Char} (hc : Text.isWord c = false) (t : Text) :
    opensDefault (c :: t) = false := by
  have hword : IsKeyword "export".toList := by decide
  rw [opensDefault, after?_cons_of_not_isWord hword hc]
  rfl

theorem opensDefault_eq_false (h : '\x7b' ∉ t) : opensDefault t = false := by
  rw [opensDefault]
  cases hafter : Text.after? "export".toList t with
  | none => rfl
  | some rest =>
    have hrest : '\x7b' ∉ Text.trimStart rest := by
      intro hmem
      rw [Text.eq_append_of_after? hafter] at h
      exact h (List.mem_append_right _ ((List.dropWhile_suffix _).subset hmem))
    rw [Option.any_some, clauseExportsDefault.eq_def]
    split
    · rename_i heq
      exact absurd (heq ▸ List.mem_cons_self) hrest
    · rfl

theorem isWord_of_isQuote {q : Char} (h : isQuote q = true) : Text.isWord q = false := by
  simp only [isQuote, Bool.or_eq_true, beq_iff_eq] at h
  rcases h with (rfl | rfl) | rfl <;> rfl

namespace ExportClause

variable {c : ExportClause}

/-- Behind the list stands `from` if the clause has a module that its items are passed on from. -/
theorem from_follows_iff (hquote : ∀ s ∈ c.source, isQuote s.quote = true) :
    (afterWholeWord? "from" (Text.trimStart (codeOf c.ending))).isSome = c.source.isSome := by
  have hfrom : IsKeyword "from".toList := by decide
  rw [ending_code_eq]
  cases hsource : c.source with
  | none =>
    rw [Option.map_none, Option.getD_none]
    change (afterWholeWord? "from" (Text.trimStart (codeOf c.after.pieces ++ _))).isSome = false
    rw [Text.trimStart_append_of_blank c.after.blank_code]
    cases c.semicolon with
    | none => rfl
    | some s => rfl
  | some s =>
    have hq := isWord_of_isQuote (hquote s hsource)
    have hhead : ∀ d ∈ ([s.quote, s.quote] ++ (codeOf c.after.pieces ++
        codeOf ((c.semicolon.map fun s => .code ";" :: s.pieces).getD []))).head?, Text.isWord d = false := by
      intro d hd
      obtain rfl : s.quote = d := Option.some.inj hd
      exact hq
    rw [Option.map_some, Option.getD_some, source_code_eq, List.append_assoc, List.append_assoc, List.append_assoc,
      Text.trimStart_append_of_blank s.beforeFrom.blank_code,
      Text.trimStart_of_unspaced (t := "from".toList) (by decide) (by decide),
      afterWholeWord?_append hfrom (head?_spacing_append s.afterFrom hhead)]
    rfl

theorem head?_afterExport (c : ExportClause) (u : Text) :
    ∀ d ∈ (codeOf c.afterExport.pieces ++ (['\x7b'] ++ u)).head?, Text.isWord d = false :=
  head?_spacing_append c.afterExport fun d hd => by
    obtain rfl : '\x7b' = d := Option.some.inj hd
    rfl

/-- Nowhere in a module with one export clause does `default` follow `export`. -/
theorem leadsToDefault_export_code (hquote : ∀ s ∈ c.source, isQuote s.quote = true) :
    leadsToDefault "export" none (codeOf c.pieces) = false := by
  have hword : IsKeyword "export".toList := by decide
  have hunspaced : Text.Unspaced "export".toList := by decide
  have hnext (u : Text) : NoDefaultNext (codeOf c.afterExport.pieces ++ (['\x7b'] ++ u)) := by
    rw [NoDefaultNext, Text.trimStart_append_of_blank c.afterExport.blank_code]
    rfl
  have hend : EndsItem ('\x7d' :: codeOf c.ending) := fun d hd => .inr (Option.some.inj hd).symm
  have hnone : leadsToDefault "export" none (codeOf c.ending) = false := by
    refine List.any_eq_false.mpr fun start hstart => ?_
    have hafter : Text.after? "export".toList start = none := by
      rw [Text.after?_eq_none_iff]
      intro hbegin
      exact (not_mem_ending hquote).1 ((suffix_of_mem_wordStarts hstart).1.subset (hbegin.subset (by decide)))
    rw [afterWord?, hafter]
    simp
  rw [code_eq, leadsToDefault_divider hword c.before.no_word rfl,
    leadsToDefault_token hword hunspaced (c.head?_afterExport _) fun _ => hnext _,
    leadsToDefault_divider hword c.afterExport.no_word rfl, leadsToDefault_divider hword (isWord_singleton rfl) rfl,
    leadsToDefault_export_inside c hend]
  exact (leadsToDefault_divider hword (isWord_singleton (c := '\x7d') rfl) rfl _).trans hnone

/-- What is read of the clause itself decides. -/
theorem any_opensDefault_code (hquote : ∀ s ∈ c.source, isQuote s.quote = true) :
    (wordStarts none (codeOf c.pieces)).any opensDefault =
      clauseExportsDefault ('\x7b' :: (c.inside ++ '\x7d' :: codeOf c.ending)) := by
  have hstarts : wordStarts none "export".toList = ["export".toList] := by decide
  have hdivide (d : Char) (start : Text) (hd : Text.isWord d = false) : opensDefault (d :: start) = false :=
    opensDefault_cons_of_not_isWord hd start
  have hlater : (wordStarts none (c.inside ++ '\x7d' :: codeOf c.ending)).any opensDefault = false := by
    refine List.any_eq_false.mpr fun start hstart => ?_
    have hbrace : '\x7b' ∉ c.inside ++ '\x7d' :: codeOf c.ending := by
      rw [List.mem_append, List.mem_cons, not_or, not_or]
      exact ⟨c.not_mem_inside.1, by decide, (not_mem_ending hquote).2⟩
    rw [opensDefault_eq_false fun h => hbrace ((suffix_of_mem_wordStarts hstart).1.subset h)]
    exact Bool.false_ne_true
  have hclause : opensDefault ("export".toList ++ (codeOf c.afterExport.pieces ++
      (['\x7b'] ++ (c.inside ++ '\x7d' :: codeOf c.ending)))) =
      clauseExportsDefault ('\x7b' :: (c.inside ++ '\x7d' :: codeOf c.ending)) := by
    rw [opensDefault, Text.after?_append, Option.any_some, Text.trimStart_append_of_blank c.afterExport.blank_code]
    rfl
  rw [code_eq, any_wordStarts_divider hdivide c.before.no_word rfl, wordStarts_append, hstarts, List.any_append,
    any_wordStarts_of_head? hdivide (c.head?_afterExport _), any_wordStarts_divider hdivide c.afterExport.no_word rfl,
    any_wordStarts_divider hdivide (isWord_singleton rfl) rfl, hlater, Bool.or_false, List.map_cons, List.map_nil,
    List.any_cons, List.any_nil, Bool.or_false, hclause]

theorem clauseExportsDefault_list (h : '\x7d' ∉ t) (u : Text) :
    clauseExportsDefault ('\x7b' :: (t ++ '\x7d' :: u)) =
      (renamesToDefault t ||
        (Text.trim t = "default".toList && (afterWholeWord? "from" (Text.trimStart u)).isSome)) := by
  have htake : (t ++ '\x7d' :: u).takeWhile (· != '\x7d') = t := by
    rw [List.takeWhile_append_of_pos fun d hd => by simpa using fun heq : d = '\x7d' => h (heq ▸ hd)]
    simp
  rw [clauseExportsDefault]
  simp only [htake, List.drop_left]

/-- A module with one export clause is taken to have a default export if an item is renamed to a name that begins
with the word `default`, or if `default` is all that is passed on. -/
theorem hasDefaultExport_clause (h : Sequence c.pieces) :
    hasDefaultExport (sourceOf c.pieces) = true ↔
      (∃ i ∈ c.items, ∃ r ∈ i.renamed, (afterWholeWord? "default" r.name.text).isSome = true) ∨
        ∃ i, c.items = [i] ∧ i.IsBareDefault ∧ c.trailing = none := by
  have hquote := isQuote_of_sequence h
  have hpassed {i : ExportItem} (hitems : c.items = [i]) (hbare : i.IsBareDefault) : c.source.isSome = true :=
    c.default_passed_on i (by simp [hitems]) hbare.2
  rw [hasDefaultExport_sourceOf h, declaresDefault_eq, leadsToDefault_export_code hquote, Bool.false_or,
    any_opensDefault_code hquote, clauseExportsDefault_list c.not_mem_inside.2, from_follows_iff hquote,
    renamesToDefault_inside]
  simp only [Bool.or_eq_true, Bool.and_eq_true, decide_eq_true_eq, List.any_eq_true, Option.any_eq_true,
    trim_inside_eq_default_iff]
  constructor
  · rintro (⟨i, hi, r, hr, hdefault⟩ | ⟨halone, -⟩)
    · exact .inl ⟨i, hi, r, hr, hdefault⟩
    · exact .inr halone
  · rintro (⟨i, hi, r, hr, hdefault⟩ | ⟨i, hitems, hbare, htrailing⟩)
    · exact .inl ⟨i, hi, r, hr, hdefault⟩
    · exact .inr ⟨⟨i, hitems, hbare, htrailing⟩, hpassed hitems hbare⟩

/-- Whether an export clause has a default export is told by the names that its items are exported under, wherever
the item stands in the list, if `default` is passed on alone and no item is renamed to a longer name that begins with
this word. -/
theorem default_told_by_names (h : Sequence c.pieces) (halone : c.DefaultAlone) (hwhole : c.DefaultWhole) :
    hasDefaultExport (sourceOf c.pieces) = true ↔ ∃ i ∈ c.items, i.exported = "default".toList := by
  have hself : (afterWholeWord? "default" "default".toList).isSome = true := by decide
  rw [hasDefaultExport_clause h]
  constructor
  · rintro (⟨i, hi, r, hr, hdefault⟩ | ⟨i, hitems, hbare, -⟩)
    · refine ⟨i, hi, ?_⟩
      rw [ExportItem.exported, Option.mem_def.mp hr]
      exact hwhole i hi r hr hdefault
    · refine ⟨i, by simp [hitems], ?_⟩
      rw [ExportItem.exported, hbare.1]
      exact hbare.2
  · rintro ⟨i, hi, hexported⟩
    rw [ExportItem.exported] at hexported
    cases hrenamed : i.renamed with
    | none =>
      have hbare : i.IsBareDefault := ⟨hrenamed, by simpa [hrenamed] using hexported⟩
      obtain ⟨hitems, htrailing⟩ := halone i hi hbare
      exact .inr ⟨i, hitems, hbare, htrailing⟩
    | some r =>
      have hname : r.name.text = "default".toList := by simpa [hrenamed] using hexported
      exact .inl ⟨i, hi, r, hrenamed, hname ▸ hself⟩

end ExportClause

namespace CardModule

def nothing : Spacing := ⟨[], by simp⟩

def space : Spacing := ⟨[.code " "], by simp [WrittenPiece.IsSpacing]; rfl⟩

def note (content : Text) : Spacing :=
  ⟨[.code " ", .blockComment content, .code " "], by simp [WrittenPiece.IsSpacing]; rfl⟩

/-- Items passed on from the module that has the card. -/
def passedOn (items : List ExportItem) : ExportClause where
  before := nothing
  afterExport := space
  items := items
  trailing := none
  source := some ⟨space, space, '\'', "./Impl".toList.map .plain⟩
  after := nothing
  semicolon := some nothing
  default_passed_on _ _ _ := rfl

def card : ExportName := ⟨"Card", by decide, by decide⟩

def defaultName : ExportName := ⟨"default", by decide, by decide⟩

/-- An item that is named like the keyword, one that hides the default export of its module, and one behind a
comment that is the default export. -/
def listed : List ExportItem :=
  [⟨space, ⟨"$as", by decide, by decide⟩, some ⟨space, space, ⟨"defaults", by decide, by decide⟩, by decide⟩, nothing⟩,
   ⟨space, defaultName, some ⟨space, space, ⟨"Inner", by decide, by decide⟩, by decide⟩, nothing⟩,
   ⟨space, card, some ⟨note ", default \x7d", space, defaultName, by decide⟩, space⟩]

theorem card_is_default :
    Sequence (passedOn listed).pieces ∧ (passedOn listed).DefaultAlone ∧ (passedOn listed).DefaultWhole ∧
      hasDefaultExport (sourceOf (passedOn listed).pieces) = true := by
  have hsequence : Sequence (passedOn listed).pieces := by decide
  have halone : (passedOn listed).DefaultAlone := by
    intro i hi hbare
    simp only [passedOn, listed, List.mem_cons, List.not_mem_nil, or_false] at hi
    rcases hi with rfl | rfl | rfl <;> cases hbare.1
  have hwhole : (passedOn listed).DefaultWhole := by
    intro i hi r hr hdefault
    simp only [passedOn, listed, List.mem_cons, List.not_mem_nil, or_false] at hi
    rcases hi with rfl | rfl | rfl <;> cases hr
    · exact absurd hdefault (by decide)
    · exact absurd hdefault (by decide)
    · rfl
  refine ⟨hsequence, halone, hwhole, ?_⟩
  exact (ExportClause.default_told_by_names hsequence halone hwhole).mpr
    ⟨_, List.mem_cons_of_mem _ (List.mem_cons_of_mem _ List.mem_cons_self), rfl⟩

/-- The default export and the card, both passed on: `export \x7b default, Card \x7d from './Impl';`. -/
def both : ExportClause := passedOn [⟨space, defaultName, none, nothing⟩, ⟨space, card, none, space⟩]

/-- The card under a name that begins with the word: `export \x7b Card as default$ \x7d from './Impl';`. -/
def marked : ExportClause :=
  passedOn [⟨space, card, some ⟨space, space, ⟨"default$", by decide, by decide⟩, by decide⟩, space⟩]

/-- A default export that is passed on beside another item is not found, and a name that begins with the word is
taken for one. -/
theorem default_missed_beside_card :
    (Sequence both.pieces ∧ (∃ i ∈ both.items, i.exported = "default".toList) ∧
      hasDefaultExport (sourceOf both.pieces) = false) ∧
    Sequence marked.pieces ∧ (¬∃ i ∈ marked.items, i.exported = "default".toList) ∧
      hasDefaultExport (sourceOf marked.pieces) = true := by
  refine ⟨⟨by decide, ⟨_, List.mem_cons_self, rfl⟩, by decide +kernel⟩, by decide, ?_, by decide +kernel⟩
  rintro ⟨i, hi, hexported⟩
  obtain rfl := List.mem_singleton.mp hi
  exact absurd hexported (by decide)

end CardModule

end StaticSite.EsModule
