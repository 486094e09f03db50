import StaticSite.Proofs.Document.Expressions
import StaticSite.Proofs.EsModule.Literals
import StaticSite.Proofs.EsModule.Words

/-!
# Export clauses

A module that is one export clause: a list of items between braces, each under its own name or renamed, with or
without another module that they are passed on from. Comments may stand wherever white space may, and the code of
the module has white space for them.
-/
namespace StaticSite.EsModule

/-! ## Clauses as they are written -/

/-- The piece is white space or a comment. -/
def WrittenPiece.IsSpacing : WrittenPiece → Prop
  | .code t => ∀ c ∈ t, Text.isBlank c = true
  | .blockComment _ => True
  | .lineComment _ => True
  | .string _ _ => False

/-- What may stand between two words: white space and comments. -/
structure Spacing where
  pieces : List WrittenPiece
  isSpacing : ∀ p ∈ pieces, p.IsSpacing

/-- The text holds no white space and none of the characters that divide a clause. -/
def IsPlainName (t : Text) : Prop := ∀ c ∈ t, Text.isBlank c = false ∧ c ≠ ',' ∧ c ≠ '\x7b' ∧ c ≠ '\x7d'

instance : DecidablePred IsPlainName :=
  List.decidableBAll fun c => Text.isBlank c = false ∧ c ≠ ',' ∧ c ≠ '\x7b' ∧ c ≠ '\x7d'

/-- A name in an export clause. -/
structure ExportName where
  text : Text
  ne_nil : text ≠ []
  plain : IsPlainName text

/-- `as` and the name behind it. -/
structure Renaming where
  beforeAs : Spacing
  afterAs : Spacing
  name : ExportName
  apart : codeOf beforeAs.pieces ≠ [] ∧ codeOf afterAs.pieces ≠ []

structure ExportItem where
  before : Spacing
  name : ExportName
  renamed : Option Renaming
  after : Spacing

/-- `from` and the module behind it. -/
structure ExportSource where
  beforeFrom : Spacing
  afterFrom : Spacing
  quote : Char
  specifier : List StringChar

/-- An export clause, with what stands before and behind it in its module. A comma behind the last item has spacing
behind it, as the semicolon has. The name `default` is that of an item of another module. -/
structure ExportClause where
  before : Spacing
  afterExport : Spacing
  items : List ExportItem
  trailing : Option Spacing
  source : Option ExportSource
  after : Spacing
  semicolon : Option Spacing
  default_passed_on : ∀ i ∈ items, i.name.text = "default".toList → source.isSome = true

def Renaming.pieces (r : Renaming) : List WrittenPiece :=
  r.beforeAs.pieces ++ .code "as" :: (r.afterAs.pieces ++ [.code r.name.text])

namespace ExportItem

def pieces (i : ExportItem) : List WrittenPiece :=
  i.before.pieces ++ .code i.name.text :: ((i.renamed.map Renaming.pieces).getD [] ++ i.after.pieces)

/-- The name that the item is exported under. -/
def exported (i : ExportItem) : Text := ((i.renamed.map Renaming.name).getD i.name).text

/-- The item is passed on as the default export that it is of its own module. -/
def IsBareDefault (i : ExportItem) : Prop := i.renamed = none ∧ i.name.text = "default".toList

end ExportItem

def ExportSource.pieces (s : ExportSource) : List WrittenPiece :=
  s.beforeFrom.pieces ++ .code "from" :: (s.afterFrom.pieces ++ [.string s.quote s.specifier])

namespace ExportClause

/-- What stands between commas. -/
def parts (c : ExportClause) : List (List WrittenPiece) :=
  c.items.map ExportItem.pieces ++ (c.trailing.map Spacing.pieces).toList

/-- What stands behind the list. -/
def ending (c : ExportClause) : List WrittenPiece :=
  (c.source.map ExportSource.pieces).getD [] ++ c.after.pieces ++
    (c.semicolon.map fun s => .code ";" :: s.pieces).getD []

def pieces (c : ExportClause) : List WrittenPiece :=
  c.before.pieces ++ .code "export" :: c.afterExport.pieces ++ .code ['\x7b'] ::
    [.code [',']].intercalate c.parts ++ .code ['\x7d'] :: c.ending

/-- The clause passes on a default export in a list of its own, if it does so. -/
def DefaultAlone (c : ExportClause) : Prop :=
  ∀ i ∈ c.items, i.IsBareDefault → c.items = [i] ∧ c.trailing = none

/-- No item is renamed to a longer name in which the word `default` ends behind its first seven letters. -/
def DefaultWhole (c : ExportClause) : Prop :=
  ∀ i ∈ c.items, ∀ r ∈ i.renamed, (afterWholeWord? "default" r.name.text).isSome = true →
    r.name.text = "default".toList

end ExportClause

/-! ## The code of an item -/

variable {t u : Text}

theorem Spacing.blank_code (s : Spacing) : ∀ c ∈ codeOf s.pieces, Text.isBlank c = true := by
  intro c hc
  obtain ⟨p, hp, hc⟩ := List.mem_flatMap.mp hc
  have hspacing := s.isSpacing p hp
  cases p with
  | code t => exact hspacing c hc
  | blockComment t | lineComment t =>
    rw [WrittenPiece.bare, List.mem_singleton] at hc
    rw [hc]
    rfl
  | string quote content => exact hspacing.elim

theorem Spacing.no_word (s : Spacing) : ∀ c ∈ codeOf s.pieces, Text.isWord c = false :=
  fun c hc => Text.isWord_of_isBlank (s.blank_code c hc)

theorem ExportName.unspaced (n : ExportName) : n.text.Unspaced := fun c hc => (n.plain c hc).1

/-- A text that begins like what follows an item: with a comma or the closing brace, if with anything. -/
def EndsItem (t : Text) : Prop := ∀ c ∈ t.head?, c = ',' ∨ c = '\x7d'

theorem EndsItem.no_word (h : EndsItem t) : ∀ c ∈ t.head?, Text.isWord c = false := by
  intro c hc
  rcases h c hc with rfl | rfl <;> rfl

theorem EndsItem.trimStart_eq (h : EndsItem t) : Text.trimStart t = t := by
  cases t with
  | nil => rfl
  | cons c t => rcases h c rfl with rfl | rfl <;> rfl

theorem head?_spacing_append (s : Spacing) (h : ∀ c ∈ t.head?, Text.isWord c = false) :
    ∀ c ∈ (codeOf s.pieces ++ t).head?, Text.isWord c = false := by
  cases hcode : codeOf s.pieces with
  | nil => exact h
  | cons d code =>
    intro c hc
    obtain rfl : d = c := Option.some.inj hc
    exact s.no_word d (hcode ▸ List.mem_cons_self)

theorem codeOf_append (ps qs : List WrittenPiece) : codeOf (ps ++ qs) = codeOf ps ++ codeOf qs := List.flatMap_append

theorem codeOf_code_cons (t : Text) (ps : List WrittenPiece) : codeOf (.code t :: ps) = t ++ codeOf ps := rfl

theorem Renaming.code_eq (r : Renaming) :
    codeOf r.pieces = codeOf r.beforeAs.pieces ++ ("as".toList ++ (codeOf r.afterAs.pieces ++ r.name.text)) := by
  rw [Renaming.pieces, codeOf_append, codeOf_code_cons, codeOf_append, codeOf_code_cons]
  simp [codeOf]

theorem ExportItem.code_eq (i : ExportItem) :
    codeOf i.pieces = codeOf i.before.pieces ++
      (i.name.text ++ (codeOf ((i.renamed.map Renaming.pieces).getD []) ++ codeOf i.after.pieces)) := by
  rw [ExportItem.pieces, codeOf_append, codeOf_code_cons, codeOf_append]

theorem codeOf_intercalate (ps : List WrittenPiece) (pss : List (List WrittenPiece)) :
    codeOf (ps.intercalate pss) = Text.join (codeOf ps) (pss.map codeOf) := by
  rw [Text.join_eq]
  induction pss with
  | nil => rfl
  | cons qs pss ih =>
    cases pss with
    | nil => simp [codeOf]
    | cons rs pss =>
      simp only [List.map_cons, List.intercalate_cons_cons, codeOf_append] at ih ⊢
      rw [ih]

/-- The text holds none of the characters that divide a clause. -/
def Undivided (t : Text) : Prop := ∀ c ∈ t, c ≠ ',' ∧ c ≠ '\x7b' ∧ c ≠ '\x7d'

theorem Undivided.append (ht : Undivided t) (hu : Undivided u) : Undivided (t ++ u) :=
  List.forall_mem_append.mpr ⟨ht, hu⟩

theorem Spacing.undivided (s : Spacing) : Undivided (codeOf s.pieces) := by
  intro c hc
  have hblank := s.blank_code c hc
  refine ⟨?_, ?_, ?_⟩ <;> (rintro rfl; exact absurd hblank (by decide))

theorem Renaming.undivided (r : Renaming) : Undivided (codeOf r.pieces) := by
  have has : Undivided "as".toList := by simp [Undivided]
  rw [r.code_eq]
  exact r.beforeAs.undivided.append
    (has.append (r.afterAs.undivided.append fun c hc => (r.name.plain c hc).2))

theorem ExportItem.undivided (i : ExportItem) : Undivided (codeOf i.pieces) := by
  have hrenamed : Undivided (codeOf ((i.renamed.map Renaming.pieces).getD [])) := by
    cases i.renamed with
    | none => simp [Undivided, codeOf]
    | some r => exact r.undivided
  have hname : Undivided i.name.text := fun c hc => (i.name.plain c hc).2
  rw [i.code_eq]
  exact i.before.undivided.append (hname.append (hrenamed.append i.after.undivided))

/-- Trimming leaves the name of an item, and its new name if it has one. -/
theorem ExportItem.trim_code (i : ExportItem) :
    Text.trim (codeOf i.pieces) = i.name.text ++ codeOf ((i.renamed.map Renaming.pieces).getD []) := by
  have hhead :
      ∀ c ∈ (i.name.text ++ codeOf ((i.renamed.map Renaming.pieces).getD [])).head?, Text.isBlank c = false := by
    obtain ⟨d, name, hname⟩ := List.exists_cons_of_ne_nil i.name.ne_nil
    intro c hc
    rw [hname] at hc
    obtain rfl : d = c := Option.some.inj hc
    exact i.name.unspaced d (hname ▸ List.mem_cons_self)
  have hlast : ∀ c ∈ (i.name.text ++ codeOf ((i.renamed.map Renaming.pieces).getD [])).getLast?,
      Text.isBlank c = false := by
    intro c hc
    cases hrenamed : i.renamed with
    | none =>
      rw [hrenamed] at hc
      exact i.name.unspaced c (List.mem_of_getLast? (by simpa [codeOf] using hc))
    | some r =>
      rw [hrenamed, Option.map_some, Option.getD_some, r.code_eq, ← List.append_assoc, ← List.append_assoc,
        ← List.append_assoc, List.getLast?_append_of_ne_nil _ r.name.ne_nil] at hc
      exact r.name.unspaced c (List.mem_of_getLast? hc)
  have hcode : codeOf i.pieces = codeOf i.before.pieces ++
      ((i.name.text ++ codeOf ((i.renamed.map Renaming.pieces).getD [])) ++ codeOf i.after.pieces) := by
    rw [i.code_eq, List.append_assoc]
  rw [hcode, Text.trim_between i.before.blank_code i.after.blank_code hhead hlast]

theorem ExportItem.trim_code_eq_default_iff (i : ExportItem) :
    Text.trim (codeOf i.pieces) = "default".toList ↔ i.IsBareDefault := by
  rw [i.trim_code, IsBareDefault]
  cases i.renamed with
  | none => simp [codeOf]
  | some r =>
    -- there is white space before `as`, but none in `default`
    have hne : i.name.text ++ codeOf r.pieces ≠ "default".toList := by
      obtain ⟨d, code, hcode⟩ := List.exists_cons_of_ne_nil r.apart.1
      intro heq
      have hd : d ∈ "default".toList := by
        rw [← heq, r.code_eq, hcode]
        simp
      have hunspaced : Text.Unspaced "default".toList := by decide
      have hblank := r.beforeAs.blank_code d (hcode ▸ List.mem_cons_self)
      rw [hunspaced d hd] at hblank
      cases hblank
    simpa using hne

/-! ## The code of a clause -/

namespace ExportClause

variable {c : ExportClause}

/-- The text between the braces. -/
def inside (c : ExportClause) : Text := Text.join "," (c.parts.map codeOf)

theorem exists_part {ps : List WrittenPiece} (h : ps ∈ c.parts) :
    (∃ i ∈ c.items, ps = i.pieces) ∨ ∃ s ∈ c.trailing, ps = s.pieces := by
  rw [parts, List.mem_append, List.mem_map, Option.mem_toList, Option.map_eq_some_iff] at h
  rcases h with ⟨i, hi, rfl⟩ | ⟨s, hs, rfl⟩
  · exact .inl ⟨i, hi, rfl⟩
  · exact .inr ⟨s, hs, rfl⟩

theorem undivided_part {ps : List WrittenPiece} (h : ps ∈ c.parts) : Undivided (codeOf ps) := by
  rcases exists_part h with ⟨i, -, rfl⟩ | ⟨s, -, rfl⟩
  · exact i.undivided
  · exact s.undivided

theorem not_mem_inside (c : ExportClause) : '\x7b' ∉ c.inside ∧ '\x7d' ∉ c.inside := by
  have hmem {d : Char} (hd : d ∈ c.inside) : d ≠ '\x7b' ∧ d ≠ '\x7d' := by
    rcases Text.mem_join hd with hcomma | ⟨t, ht, hd⟩
    · obtain rfl : d = ',' := List.mem_singleton.mp hcomma
      decide
    · obtain ⟨ps, hps, rfl⟩ := List.mem_map.mp ht
      exact (undivided_part hps d hd).2
  exact ⟨fun h => (hmem h).1 rfl, fun h => (hmem h).2 rfl⟩

/-- Between the braces stands `default` alone if this is the only item, passed on under its own name. -/
theorem trim_inside_eq_default_iff (c : ExportClause) :
    Text.trim c.inside = "default".toList ↔ ∃ i, c.items = [i] ∧ i.IsBareDefault ∧ c.trailing = none := by
  constructor
  · intro h
    have hcomma : ',' ∉ c.inside := by
      intro hmem
      have hdefault : ',' ∈ "default".toList := h ▸ Text.mem_trim hmem rfl
      exact absurd hdefault (by decide)
    cases hitems : c.items with
    | nil =>
      have hblank : ∀ d ∈ c.inside, Text.isBlank d = true := by
        intro d hd
        rw [inside, parts, hitems] at hd
        cases htrailing : c.trailing with
        | none => simp [htrailing, Text.join] at hd
        | some s =>
          rw [htrailing] at hd
          exact s.blank_code d hd
      have hnil : Text.trim (c.inside ++ ([] ++ [])) = [] :=
        Text.trim_between hblank (by simp) (by simp) (by simp)
      rw [List.append_nil, List.append_nil, h] at hnil
      cases hnil
    | cons i items =>
      have hrest : items.map ExportItem.pieces ++ (c.trailing.map Spacing.pieces).toList = [] := by
        by_contra hne
        obtain ⟨ps, pss, hps⟩ := List.exists_cons_of_ne_nil hne
        refine hcomma ?_
        rw [inside, parts, hitems, List.map_cons, List.cons_append, hps, List.map_cons, List.map_cons, Text.join]
        simp
      obtain ⟨hnil, htrailing⟩ := List.append_eq_nil_iff.mp hrest
      have hinside : c.inside = codeOf i.pieces := by
        rw [inside, parts, hitems, List.map_cons, List.cons_append, hrest]
        rfl
      refine ⟨i, ?_, i.trim_code_eq_default_iff.mp (hinside ▸ h), ?_⟩
      · rw [List.map_eq_nil_iff.mp hnil]
      · simpa using htrailing
  · rintro ⟨i, hitems, hbare, htrailing⟩
    have hinside : c.inside = codeOf i.pieces := by
      rw [inside, parts, hitems, htrailing]
      rfl
    rw [hinside, i.trim_code_eq_default_iff]
    exact hbare

/-- The code of a module with one export clause. -/
theorem code_eq (c : ExportClause) :
    codeOf c.pieces = codeOf c.before.pieces ++ ("export".toList ++ (codeOf c.afterExport.pieces ++
      (['\x7b'] ++ (c.inside ++ '\x7d' :: codeOf c.ending)))) := by
  have hinside : codeOf ([.code [',']].intercalate c.parts) = c.inside := codeOf_intercalate _ _
  simp only [pieces, codeOf_append, codeOf_code_cons, hinside, List.append_assoc]
  rfl

theorem closed_of_mem {ps : List WrittenPiece} (h : Sequence ps) {p : WrittenPiece} (hp : p ∈ ps) : p.Closed := by
  induction ps with
  | nil => cases hp
  | cons q ps ih =>
    rcases List.mem_cons.mp hp with rfl | hp
    · exact h.1
    · exact ih h.2.2 hp

theorem isQuote_of_sequence (h : Sequence c.pieces) : ∀ s ∈ c.source, isQuote s.quote = true := by
  intro s hs
  have hmem : WrittenPiece.string s.quote s.specifier ∈ c.pieces := by
    simp [pieces, ending, ExportSource.pieces, Option.mem_def.mp hs]
  exact (closed_of_mem h hmem).1

theorem source_code_eq (s : ExportSource) :
    codeOf s.pieces =
      codeOf s.beforeFrom.pieces ++ ("from".toList ++ (codeOf s.afterFrom.pieces ++ [s.quote, s.quote])) := by
  rw [ExportSource.pieces, codeOf_append, codeOf_code_cons, codeOf_append]
  rfl

theorem ending_code_eq (c : ExportClause) :
    codeOf c.ending = codeOf ((c.source.map ExportSource.pieces).getD []) ++
      (codeOf c.after.pieces ++ codeOf ((c.semicolon.map fun s => .code ";" :: s.pieces).getD [])) := by
  rw [ending, codeOf_append, codeOf_append, List.append_assoc]

/-- Behind the list there is no character of `export` but those of `from`, and no brace. -/
theorem not_mem_ending (hquote : ∀ s ∈ c.source, isQuote s.quote = true) :
    'e' ∉ codeOf c.ending ∧ '\x7b' ∉ codeOf c.ending := by
  have hspacing (s : Spacing) {d : Char} (hd : Text.isBlank d = false) : d ∉ codeOf s.pieces := by
    intro hmem
    rw [s.blank_code d hmem] at hd
    cases hd
  have hboth {d : Char} (hblank : Text.isBlank d = false) (hd : d = 'e' ∨ d = '\x7b') : d ∉ codeOf c.ending := by
    rw [ending_code_eq, List.mem_append, List.mem_append, not_or, not_or]
    refine ⟨?_, hspacing c.after hblank, ?_⟩
    · cases hsource : c.source with
      | none => simp [codeOf]
      | some s =>
        have hclosed := hquote s hsource
        have hne : d ≠ s.quote := by
          rintro rfl
          rcases hd with hd | hd <;> (rw [hd] at hclosed; exact absurd hclosed (by decide))
        have hfrom : d ∉ "from".toList := by
          rcases hd with rfl | rfl <;> decide
        rw [Option.map_some, Option.getD_some, source_code_eq, List.mem_append, List.mem_append, List.mem_append]
        rintro (h | h | h | h)
        · exact hspacing s.beforeFrom hblank h
        · exact hfrom h
        · exact hspacing s.afterFrom hblank h
        · exact hne (by simpa using h)
    · cases c.semicolon with
      | none => simp [codeOf]
      | some s =>
        have hsemicolon : d ≠ ';' := by rcases hd with rfl | rfl <;> decide
        rw [Option.map_some, Option.getD_some, codeOf_code_cons, List.mem_append]
        rintro (h | h)
        · exact hsemicolon (by simpa using h)
        · exact hspacing s hblank h
  exact ⟨hboth rfl (.inl rfl), hboth rfl (.inr rfl)⟩

end ExportClause

end StaticSite.EsModule
