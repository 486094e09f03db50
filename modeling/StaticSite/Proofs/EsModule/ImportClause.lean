import StaticSite.Proofs.EsModule.Bindings
import StaticSite.Proofs.EsModule.Words

/-!
# Import clauses

The clause of an import declaration as it is written: a default binding, a binding of the namespace, a list of named
bindings, or a default binding with one of the other two. Cut at its braces and commas, it gives the local names of
its bindings, in order.
-/
namespace StaticSite.EsModule

/-! ## Clauses as they are written -/

/-- White space, perhaps none. -/
structure Blanks where
  text : Text
  blank : ∀ c ∈ text, Text.isBlank c = true

/-- White space that sets words apart. -/
structure Break extends Blanks where
  ne_nil : text ≠ []

/-- A name in a clause. The word `type` is left out, for it may be read as a keyword. -/
structure LocalName where
  text : Text
  identifier : isIdentifier text = true
  not_type : text ≠ "type".toList

/-- A named binding, and the local name behind `as` if it has one. -/
structure NamedItem where
  before : Blanks
  name : LocalName
  renamed : Option LocalName
  after : Blanks

/-- The bindings behind a star or between braces. White space behind the last comma stands for no binding. -/
inductive BindingGroup where
  | star (beforeAs : Blanks) (afterAs : Break) (name : LocalName)
  | named (items : List NamedItem) (trailing : Option Blanks)

inductive ImportClause where
  | default (name : LocalName)
  | group (g : BindingGroup)
  | both (name : LocalName) (before after : Blanks) (g : BindingGroup)

namespace NamedItem

/-- What is left of the item when the white space around it is trimmed. -/
def core (i : NamedItem) : Text := i.name.text ++ (i.renamed.map fun n => " as ".toList ++ n.text).getD []

def text (i : NamedItem) : Text := i.before.text ++ (i.core ++ i.after.text)

def localName (i : NamedItem) : LocalName := i.renamed.getD i.name

end NamedItem

namespace BindingGroup

/-- What stands between the commas of a list. -/
def parts (items : List NamedItem) (trailing : Option Blanks) : List Text :=
  items.map NamedItem.text ++ (trailing.map Blanks.text).toList

def text : BindingGroup → Text
  | star beforeAs afterAs name => '*' :: (beforeAs.text ++ ("as" ++ (afterAs.text ++ name.text)))
  | named items trailing => '\x7b' :: (Text.join "," (parts items trailing) ++ ['\x7d'])

def localNames : BindingGroup → List LocalName
  | star _ _ name => [name]
  | named items _ => items.map NamedItem.localName

end BindingGroup

namespace ImportClause

def text : ImportClause → Text
  | default name => name.text
  | group g => g.text
  | both name before after g => name.text ++ (before.text ++ ',' :: (after.text ++ g.text))

/-- The names that the clause binds. -/
def localNames : ImportClause → List LocalName
  | default name => [name]
  | group g => g.localNames
  | both name _ _ g => name :: g.localNames

end ImportClause

/-! ## Names and items -/

variable {t u : Text} {c : Char}

theorem isIdentifierChar_of_isBlank (h : Text.isBlank c = true) : isIdentifierChar c = false := by
  by_contra hchar
  have hident : isIdentifier ['_', c] = true := by
    rw [Bool.not_eq_false] at hchar
    simp only [isIdentifier, List.head?_cons, Option.any_some, List.all_cons, hchar]
    rfl
  have hblank := unspaced_of_isIdentifier hident c (by simp)
  simp [h] at hblank

theorem Blanks.not_mem (b : Blanks) (hc : Text.isBlank c = false) : c ∉ b.text := fun hmem => by
  simp [b.blank c hmem] at hc

/-- No name goes on in white space, nor behind it where no name starts. -/
theorem Blanks.head?_append (b : Blanks) (hu : ∀ d ∈ u.head?, isIdentifierChar d = false) :
    ∀ d ∈ (b.text ++ u).head?, isIdentifierChar d = false := by
  intro d hd
  rw [List.head?_append, Option.mem_def, Option.or_eq_some_iff] at hd
  rcases hd with hd | ⟨-, hd⟩
  · exact isIdentifierChar_of_isBlank (b.blank d (List.mem_of_mem_head? hd))
  · exact hu d hd

theorem Break.head?_append (b : Break) (u : Text) : ∀ d ∈ (b.text ++ u).head?, isIdentifierChar d = false := by
  intro d hd
  rw [List.head?_append_of_ne_nil _ b.ne_nil] at hd
  exact isIdentifierChar_of_isBlank (b.blank d (List.mem_of_mem_head? hd))

namespace LocalName

theorem unspaced (n : LocalName) : n.text.Unspaced := unspaced_of_isIdentifier n.identifier

theorem ne_nil (n : LocalName) : n.text ≠ [] := ne_nil_of_isIdentifier n.identifier

theorem not_mem (n : LocalName) (hc : isIdentifierChar c = false) : c ∉ n.text :=
  not_mem_of_isIdentifier n.identifier hc

theorem head?_append (n : LocalName) (u : Text) : ∀ c ∈ (n.text ++ u).head?, Text.isBlank c = false := by
  obtain ⟨d, name, hname⟩ := List.exists_cons_of_ne_nil n.ne_nil
  intro c hc
  rw [hname] at hc
  obtain rfl : d = c := Option.some.inj hc
  exact n.unspaced d (hname ▸ List.mem_cons_self)

theorem getLast?_append (n : LocalName) (t : Text) : ∀ c ∈ (t ++ n.text).getLast?, Text.isBlank c = false := by
  intro c hc
  rw [List.getLast?_append_of_ne_nil _ n.ne_nil] at hc
  exact n.unspaced c (List.mem_of_getLast? hc)

/-- The keyword `type` is not taken for a name, nor a name for it. -/
theorem after?_type (n : LocalName) (hu : ∀ d ∈ u.head?, isIdentifierChar d = false) :
    Text.after? "type ".toList (n.text ++ u) = none := by
  have hnone : Text.after? "type ".toList n.text = none := after?_eq_none_of_unspaced (by decide) n.unspaced
  rw [Text.after?_append_of_ended, hnone]
  · rfl
  · intro d hd hbegin
    have hword : "type ".toList = "type".toList ++ [' '] := rfl
    rw [hword, List.prefix_concat_iff] at hbegin
    rcases hbegin with heq | hbegin
    · exact n.not_type (List.append_inj_left' heq rfl)
    · have hmem : d ∈ "type".toList := hbegin.subset (by simp)
      have hchars : ∀ d ∈ "type".toList, isIdentifierChar d = true := List.all_eq_true.mp (by decide)
      have hd' := hu d hd
      rw [hchars d hmem] at hd'
      cases hd'

end LocalName

/-- A text is trimmed where no white space stands at its ends. -/
theorem trim_of_ends (hhead : ∀ c ∈ t.head?, Text.isBlank c = false)
    (hlast : ∀ c ∈ t.getLast?, Text.isBlank c = false) : Text.trim t = t := by
  have htrim := Text.trim_between (t := []) (v := []) (by simp) (by simp) hhead hlast
  simpa using htrim

theorem dropTypeKeyword_of_ends (htype : Text.after? "type ".toList t = none)
    (hhead : ∀ c ∈ t.head?, Text.isBlank c = false) (hlast : ∀ c ∈ t.getLast?, Text.isBlank c = false) :
    dropTypeKeyword t = t := by
  rw [dropTypeKeyword, htype, Option.getD_none, trim_of_ends hhead hlast]

/-- A part is found where its first character stands first. -/
theorem cut?_append_of_not_mem {rest : Text} (hc : c ∉ t) (u : Text) :
    Text.cut? (c :: rest) (t ++ (c :: rest ++ u)) = some (t, u) := by
  induction t with
  | nil => simp [Text.cut?, Text.after?, Text.after?_append]
  | cons d t ih =>
    obtain ⟨hd, ht⟩ := List.ne_and_not_mem_of_not_mem_cons hc
    rw [List.cons_append, Text.cut?, Text.after?, if_neg hd, ih ht]
    rfl

theorem takeWhile_bne {d : Char} (ht : d ∉ t) (hu : ∀ e ∈ u.head?, e = d) : (t ++ u).takeWhile (· != d) = t := by
  refine Text.takeWhile_append_of_head? (List.all_eq_true.mpr fun c hc => ?_) fun e he => ?_
  · simpa using fun heq : c = d => ht (heq ▸ hc)
  · simpa using hu e he

namespace NamedItem

variable (i : NamedItem)

theorem core_of_renamed {n : LocalName} (h : i.renamed = some n) :
    i.core = i.name.text ++ (" as ".toList ++ n.text) := by
  rw [core, h]
  rfl

theorem core_of_not_renamed (h : i.renamed = none) : i.core = i.name.text := by
  rw [core, h]
  exact List.append_nil _

theorem getLast?_core : ∀ c ∈ i.core.getLast?, Text.isBlank c = false := by
  cases h : i.renamed with
  | none =>
    rw [i.core_of_not_renamed h]
    exact i.name.getLast?_append []
  | some n =>
    rw [i.core_of_renamed h, ← List.append_assoc]
    exact n.getLast?_append _

theorem dropTypeKeyword_core : dropTypeKeyword i.core = i.core := by
  refine dropTypeKeyword_of_ends (i.name.after?_type ?_) (i.name.head?_append _) i.getLast?_core
  cases h : i.renamed with
  | none => simp
  | some n =>
    intro d hd
    obtain rfl : ' ' = d := Option.some.inj hd
    rfl

/-- An item binds the name behind `as`, or the name it begins with. -/
theorem itemName?_text : itemName? i.text = some i.localName.text := by
  have htrim : Text.trim i.text = i.core :=
    Text.trim_between i.before.blank i.after.blank (i.name.head?_append _) i.getLast?_core
  have hne : i.core ≠ [] := fun hnil => i.name.ne_nil (List.append_eq_nil_iff.mp hnil).1
  obtain ⟨d, rest, hcore⟩ := List.exists_cons_of_ne_nil hne
  rw [itemName?, htrim, dropTypeKeyword_core, hcore]
  dsimp only
  rw [← hcore]
  cases h : i.renamed with
  | none =>
    rw [i.core_of_not_renamed h, cut?_eq_none_of_unspaced (by decide) i.name.unspaced]
    simp [localName, h]
  | some n =>
    have hcut : Text.cut? " as ".toList (i.name.text ++ (" as ".toList ++ n.text)) = some (i.name.text, n.text) :=
      cut?_append_of_not_mem (i.name.not_mem (by decide)) n.text
    rw [i.core_of_renamed h, hcut]
    dsimp only
    rw [trim_name n.unspaced n.ne_nil]
    simp [localName, h]

theorem mem_text (h : c ∈ i.text) : isIdentifierChar c = true ∨ Text.isBlank c = true := by
  have hname (n : LocalName) (hc : c ∈ n.text) : isIdentifierChar c = true ∨ Text.isBlank c = true := by
    refine .inl (Bool.not_eq_false _ ▸ fun hfalse => n.not_mem hfalse hc)
  have hword : ∀ c ∈ " as ".toList, (isIdentifierChar c || Text.isBlank c) = true := List.all_eq_true.mp (by decide)
  rw [text, List.mem_append, List.mem_append] at h
  rcases h with h | h | h
  · exact .inr (i.before.blank c h)
  · rw [core, List.mem_append] at h
    rcases h with h | h
    · exact hname i.name h
    · cases hrenamed : i.renamed with
      | none => simp [hrenamed] at h
      | some n =>
        rw [hrenamed, Option.map_some, Option.getD_some, List.mem_append] at h
        exact h.elim (fun h => Bool.or_eq_true_iff.mp (hword c h)) (hname n)
  · exact .inr (i.after.blank c h)

end NamedItem

/-! ## The names in a clause -/

theorem trim_blanks (b : Blanks) : Text.trim b.text = [] := by
  have htrim := Text.trim_between (t := b.text) (u := []) (v := []) b.blank (by simp) (by simp) (by simp)
  simpa using htrim

theorem itemName?_nil : itemName? [] = none := rfl

theorem itemName?_blanks (b : Blanks) : itemName? b.text = none := by
  rw [itemName?, trim_blanks]
  rfl

theorem headName?_congr (h : Text.trim t = Text.trim u) : headName? t = headName? u := by rw [headName?, h, headName?]

theorem filterMap_headName? (h : ',' ∉ t) : (Text.splitOn ',' t).filterMap headName? = (headName? t).toList := by
  rw [Text.splitOn_of_not_mem h]
  cases hname : headName? t <;> simp [hname]

namespace BindingGroup

variable (items : List NamedItem) (trailing : Option Blanks)

theorem mem_parts {part : Text} (h : part ∈ parts items trailing) (hc : c ∈ part) :
    isIdentifierChar c = true ∨ Text.isBlank c = true := by
  rw [parts, List.mem_append, List.mem_map] at h
  rcases h with ⟨i, -, rfl⟩ | h
  · exact i.mem_text hc
  · obtain ⟨b, -, rfl⟩ := Option.map_eq_some_iff.mp (Option.mem_toList.mp h)
    exact .inr (b.blank c hc)

theorem not_mem_list (hname : isIdentifierChar c = false) (hblank : Text.isBlank c = false) (hcomma : c ≠ ',') :
    c ∉ Text.join ",".toList (parts items trailing) := by
  intro hmem
  rcases Text.mem_join hmem with hseparator | ⟨part, hpart, hc⟩
  · exact hcomma (List.mem_singleton.mp hseparator)
  · rcases mem_parts items trailing hpart hc with h | h
    · simp [h] at hname
    · simp [h] at hblank

/-- The items of a list bind their local names. -/
theorem filterMap_itemName?_list :
    (Text.splitOn ',' (Text.join ",".toList (parts items trailing))).filterMap itemName? =
      items.map fun i => i.localName.text := by
  have hparts : (parts items trailing).filterMap itemName? = items.map fun i => i.localName.text := by
    have hlast : (trailing.map Blanks.text).toList.filterMap itemName? = [] := by
      cases trailing with
      | none => rfl
      | some b => simp [itemName?_blanks]
    rw [parts, List.filterMap_append, hlast, List.append_nil, List.filterMap_map]
    have hitems : (itemName? ∘ NamedItem.text) = fun i => some i.localName.text := funext NamedItem.itemName?_text
    rw [hitems, List.filterMap_eq_map']
  cases hempty : parts items trailing with
  | nil =>
    rw [← hparts, hempty, Text.join, Text.splitOn_of_not_mem List.not_mem_nil, List.filterMap_cons_none itemName?_nil]
  | cons first rest =>
    have hsplit : Text.splitOn ',' (Text.join [','] (first :: rest)) = first :: rest := by
      rw [Text.join_eq, Text.splitOn_eq]
      refine List.splitOn_intercalate ',' (fun part hpart hcomma => ?_) (by simp)
      rcases mem_parts items trailing (hempty ▸ hpart) hcomma with h | h
      · exact absurd h (by decide)
      · exact absurd h (by decide)
    rw [← hparts, hempty]
    exact congrArg _ hsplit

/-- What stands before the braces of the group. -/
def head : BindingGroup → Text
  | star beforeAs afterAs name => '*' :: (beforeAs.text ++ ("as" ++ (afterAs.text ++ name.text)))
  | named _ _ => []

/-- What stands between them. -/
def listed : BindingGroup → Text
  | star _ _ _ => []
  | named items trailing => Text.join "," (parts items trailing)

variable (g : BindingGroup)

theorem not_mem_head (hname : isIdentifierChar c = false) (hblank : Text.isBlank c = false) (hstar : c ≠ '*') :
    c ∉ g.head := by
  cases g with
  | named => exact List.not_mem_nil
  | star beforeAs afterAs name =>
    have hword : c ∉ "as".toList := fun hc => by
      have hchars : ∀ c ∈ "as".toList, isIdentifierChar c = true := List.all_eq_true.mp (by decide)
      simp [hchars c hc] at hname
    simp only [head, List.mem_cons, List.mem_append, not_or]
    exact ⟨hstar, beforeAs.not_mem hblank, hword, afterAs.not_mem hblank, name.not_mem hname⟩

theorem cutBraces_append (ht : '\x7b' ∉ t) : cutBraces (t ++ g.text) = (t ++ g.head, g.listed) := by
  cases g with
  | star beforeAs afterAs name =>
    have hbrace : '\x7b' ∉ t ++ (star beforeAs afterAs name).head :=
      List.mem_append.not.mpr (not_or.mpr ⟨ht, not_mem_head _ rfl rfl (by decide)⟩)
    have hwhole := takeWhile_bne (u := []) hbrace (by simp)
    rw [List.append_nil] at hwhole
    have htext : (star beforeAs afterAs name).text = (star beforeAs afterAs name).head := rfl
    rw [cutBraces, htext, hwhole]
    simp [listed]
  | named items trailing =>
    have hopen : (t ++ (named items trailing).text).takeWhile (· != '\x7b') = t := takeWhile_bne ht (by simp [text])
    have hdrop : (t ++ (named items trailing).text).drop (t.length + 1) =
        Text.join "," (parts items trailing) ++ ['\x7d'] := by
      rw [← List.drop_drop, List.drop_left]
      rfl
    have hclose := takeWhile_bne (u := ['\x7d']) (not_mem_list items trailing (c := '\x7d') rfl rfl (by decide))
      (by simp)
    rw [cutBraces, hopen, hdrop, hclose, head, listed, List.append_nil]

/-- A group gives its names, with white space before it or none. -/
theorem names_group (b : Blanks) :
    (headName? (b.text ++ g.head)).toList ++ (Text.splitOn ',' g.listed).filterMap itemName? =
      g.localNames.map LocalName.text := by
  cases g with
  | named items trailing =>
    have hnone : headName? (b.text ++ []) = none := by
      rw [List.append_nil, headName?, trim_blanks]
    rw [head, hnone, listed, filterMap_itemName?_list, localNames, List.map_map]
    rfl
  | star beforeAs afterAs name =>
    have hstar : Text.trim (b.text ++ (star beforeAs afterAs name).head) = (star beforeAs afterAs name).head := by
      have hlast : ∀ c ∈ (star beforeAs afterAs name).head.getLast?, Text.isBlank c = false := by
        have hlast := name.getLast?_append ('*' :: (beforeAs.text ++ ("as" ++ afterAs.text)))
        simpa [head] using hlast
      have htrim := Text.trim_between (v := []) b.blank (by simp) (by simp [head, Text.isBlank]) hlast
      rwa [List.append_nil] at htrim
    have hword : Text.trim (beforeAs.text ++ ("as" ++ (afterAs.text ++ name.text))) =
        "as" ++ (afterAs.text ++ name.text) := by
      have hlast : ∀ c ∈ ("as" ++ (afterAs.text ++ name.text)).getLast?, Text.isBlank c = false := by
        have hlast := name.getLast?_append ("as" ++ afterAs.text)
        rwa [List.append_assoc] at hlast
      have htrim := Text.trim_between (v := []) beforeAs.blank (by simp) (by simp [Text.isBlank]) hlast
      rwa [List.append_nil] at htrim
    have hname : Text.trim (afterAs.text ++ name.text) = name.text := by
      have htrim := trim_of_unspaced name.unspaced name.ne_nil (t := afterAs.text) (u := [])
        (List.all_eq_true.mpr afterAs.blank) rfl
      rwa [List.append_nil] at htrim
    have hhead : headName? (b.text ++ (star beforeAs afterAs name).head) = some name.text := by
      rw [headName?, hstar]
      change (Text.after? "as".toList (Text.trim (beforeAs.text ++ ("as" ++ (afterAs.text ++ name.text))))).map
        Text.trim = _
      rw [hword, Text.after?_append, Option.map_some, hname]
    rw [hhead, listed, Text.splitOn_of_not_mem List.not_mem_nil]
    simp [itemName?_nil, localNames]

/-- A group starts with a star or a brace. -/
theorem head?_text : ∀ c ∈ g.text.head?, c = '*' ∨ c = '\x7b' := by
  cases g <;> simp [text]

theorem ne_nil : g.text ≠ [] := by
  cases g <;> simp [text]

theorem getLast?_append (t : Text) : ∀ c ∈ (t ++ g.text).getLast?, Text.isBlank c = false := by
  cases g with
  | named items trailing =>
    have htext : t ++ (named items trailing).text =
        t ++ '\x7b' :: Text.join "," (parts items trailing) ++ ['\x7d'] := by
      simp [text]
    intro c hc
    rw [htext, List.getLast?_concat] at hc
    obtain rfl := Option.some.inj hc
    rfl
  | star beforeAs afterAs name =>
    have hlast := name.getLast?_append (t ++ '*' :: (beforeAs.text ++ ("as" ++ afterAs.text)))
    simpa [text] using hlast

theorem mem_text (h : c ∈ g.text) :
    isIdentifierChar c = true ∨ Text.isBlank c = true ∨ c ∈ ['*', '\x7b', '\x7d', ','] := by
  by_contra! hnot
  obtain ⟨hname, hblank, hmark⟩ := hnot
  replace hname := Bool.eq_false_of_not_eq_true hname
  replace hblank := Bool.eq_false_of_not_eq_true hblank
  cases g with
  | star beforeAs afterAs name =>
    exact not_mem_head (star beforeAs afterAs name) hname hblank (fun heq => hmark (by simp [heq])) h
  | named items trailing =>
    rw [text, List.mem_cons, List.mem_append, List.mem_singleton] at h
    rcases h with rfl | h | rfl
    · exact hmark (by simp)
    · exact not_mem_list items trailing hname hblank (fun heq => hmark (by simp [heq])) h
    · exact hmark (by simp)

end BindingGroup

namespace ImportClause

variable (clause : ImportClause)

theorem head?_text : ∀ c ∈ clause.text.head?, Text.isBlank c = false := by
  cases clause with
  | default name =>
    have hhead := name.head?_append []
    rwa [List.append_nil] at hhead
  | both name before after g => exact name.head?_append _
  | group g =>
    intro c hc
    rcases g.head?_text c hc with rfl | rfl <;> rfl

theorem getLast?_text : ∀ c ∈ clause.text.getLast?, Text.isBlank c = false := by
  cases clause with
  | default name => exact name.getLast?_append []
  | group g => exact g.getLast?_append []
  | both name before after g =>
    have hlast := g.getLast?_append (name.text ++ (before.text ++ ',' :: after.text))
    simpa [text] using hlast

theorem ne_nil : clause.text ≠ [] := by
  cases clause with
  | default name => exact name.ne_nil
  | group g => exact g.ne_nil
  | both name before after g => simp [text]

theorem mem_text (h : c ∈ clause.text) :
    isIdentifierChar c = true ∨ Text.isBlank c = true ∨ c ∈ ['*', '\x7b', '\x7d', ','] := by
  have hname (n : LocalName) (hc : c ∈ n.text) : isIdentifierChar c = true :=
    Bool.not_eq_false _ ▸ fun hfalse => n.not_mem hfalse hc
  cases clause with
  | default name => exact .inl (hname name h)
  | group g => exact g.mem_text h
  | both name before after g =>
    simp only [text, List.mem_append, List.mem_cons] at h
    rcases h with h | h | rfl | h | h
    · exact .inl (hname name h)
    · exact .inr (.inl (before.blank c h))
    · exact .inr (.inr (by simp))
    · exact .inr (.inl (after.blank c h))
    · exact g.mem_text h

theorem dropTypeKeyword_text : dropTypeKeyword (Text.trim clause.text) = clause.text := by
  rw [trim_of_ends clause.head?_text clause.getLast?_text]
  refine dropTypeKeyword_of_ends ?_ clause.head?_text clause.getLast?_text
  cases clause with
  | default name =>
    have htype := name.after?_type (u := []) (by simp)
    rwa [List.append_nil] at htype
  | group g => cases g <;> rfl
  | both name before after g =>
    refine name.after?_type (before.head?_append fun d hd => ?_)
    obtain rfl : ',' = d := Option.some.inj hd
    rfl

/-- The parts of a clause give the names that it binds. -/
theorem names_of_cut : ∃ head named, cutBraces clause.text = (head, named) ∧
    (Text.splitOn ',' head).filterMap headName? ++ (Text.splitOn ',' named).filterMap itemName? =
      clause.localNames.map LocalName.text := by
  cases clause with
  | default name =>
    refine ⟨name.text, [], ?_, ?_⟩
    · have hwhole := takeWhile_bne (u := []) (name.not_mem (c := '\x7b') rfl) (by simp)
      rw [List.append_nil] at hwhole
      rw [text, cutBraces, hwhole]
      simp
    · rw [filterMap_headName? (name.not_mem rfl), headName?_name name.identifier,
        Text.splitOn_of_not_mem List.not_mem_nil, List.filterMap_cons_none itemName?_nil]
      rfl
  | group g =>
    have hnames := g.names_group ⟨[], by simp⟩
    refine ⟨g.head, g.listed, g.cutBraces_append (t := []) List.not_mem_nil, ?_⟩
    rw [filterMap_headName? (g.not_mem_head rfl rfl (by decide))]
    exact hnames
  | both name before after g =>
    have hbrace : '\x7b' ∉ name.text ++ (before.text ++ ',' :: after.text) := by
      simp only [List.mem_append, List.mem_cons, not_or]
      exact ⟨name.not_mem rfl, before.not_mem rfl, by decide, after.not_mem rfl⟩
    have hcut := g.cutBraces_append hbrace
    have hfirst : headName? (name.text ++ before.text) = some name.text := by
      have htrim := trim_of_unspaced name.unspaced name.ne_nil (t := []) rfl (List.all_eq_true.mpr before.blank)
      rw [← headName?_name name.identifier]
      exact headName?_congr (htrim.trans (trim_name name.unspaced name.ne_nil).symm)
    have hcomma : ',' ∉ name.text ++ before.text := by
      rw [List.mem_append, not_or]
      exact ⟨name.not_mem rfl, before.not_mem rfl⟩
    have hcomma' : ',' ∉ after.text ++ g.head := by
      rw [List.mem_append, not_or]
      exact ⟨after.not_mem rfl, g.not_mem_head rfl rfl (by decide)⟩
    refine ⟨name.text ++ before.text ++ ',' :: (after.text ++ g.head), g.listed, ?_, ?_⟩
    · simpa [text] using hcut
    · rw [Text.splitOn_append_cons, List.filterMap_append, filterMap_headName? hcomma, filterMap_headName? hcomma',
        hfirst, List.append_assoc, g.names_group after]
      rfl

/-- A clause gives the names that it binds. -/
theorem clauseNames_text : clauseNames clause.text = clause.localNames.map LocalName.text := by
  obtain ⟨head, named, hcut, hnames⟩ := clause.names_of_cut
  rw [clauseNames, dropTypeKeyword_text, hcut]
  dsimp only
  rw [hnames, List.filter_eq_self]
  intro t ht
  obtain ⟨n, -, rfl⟩ := List.mem_map.mp ht
  exact n.identifier

end ImportClause

end StaticSite.EsModule
