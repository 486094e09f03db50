import Mathlib.Data.List.TakeWhile
import StaticSite.EsModule.ImportStatement

/-!
# Import statements read back

An import of a name without white space is written as a statement that the reader accepts exactly when the
name may be imported and the specifier may stand between quotes; what is read is the import.
-/
namespace StaticSite

namespace Text

variable {t u : Text}

/-- The text holds no white space. -/
def Unspaced (t : Text) : Prop := ∀ c ∈ t, isBlank c = false

instance : DecidablePred Unspaced := List.decidableBAll fun c => isBlank c = false

theorem Unspaced.append (ht : t.Unspaced) (hu : u.Unspaced) : (t ++ u).Unspaced := by
  intro c hc
  rcases List.mem_append.mp hc with hc | hc
  · exact ht c hc
  · exact hu c hc

theorem trimStart_of_unspaced (ht : t.Unspaced) (hne : t ≠ []) (u : Text) : trimStart (t ++ u) = t ++ u := by
  cases t with
  | nil => exact absurd rfl hne
  | cons c cs =>
    have hc := ht c List.mem_cons_self
    simp [trimStart, hc]

end Text

namespace EsModule

variable {name t u : Text} {c : Char}

theorem afterBlanks?_of_unspaced (ht : t.Unspaced) : afterBlanks? t = none := by
  cases t with
  | nil => rfl
  | cons c cs => simp [afterBlanks?, ht c List.mem_cons_self]

theorem afterBlanks?_cons (hc : Text.isBlank c = true) (t : Text) : afterBlanks? (c :: t) = some (Text.trimStart t) := by
  simp [afterBlanks?, Text.trimStart, hc]

/-- A word is found before white space only where it is all that stands there. -/
theorem afterWord?_append {word : Text} (hword : word.Unspaced) (hname : name.Unspaced)
    (hc : Text.isBlank c = true) (t : Text) :
    afterWord? word (name ++ c :: t) = if name = word then some (Text.trimStart t) else none := by
  induction word generalizing name with
  | nil =>
    cases name with
    | nil => simp [afterWord?, Text.after?, afterBlanks?_cons hc]
    | cons n ns => simp [afterWord?, Text.after?, afterBlanks?, hname n List.mem_cons_self]
  | cons w ws ih =>
    cases name with
    | nil =>
      have hw : w ≠ c := by
        rintro rfl
        simp [hword w List.mem_cons_self] at hc
      simp [afterWord?, Text.after?, hw]
    | cons n ns =>
      have hws : Text.Unspaced ws := fun x hx => hword x (List.mem_cons_of_mem _ hx)
      have hns : Text.Unspaced ns := fun x hx => hname x (List.mem_cons_of_mem _ hx)
      have ih := ih hws hns
      by_cases hn : w = n
      · subst hn
        simpa [afterWord?, Text.after?] using ih
      · have hne : ¬n = w := fun h => hn h.symm
        simp [afterWord?, Text.after?, hn, hne]

theorem takeWord_append (hname : name.Unspaced) (hc : Text.isBlank c = true) (t : Text) :
    takeWord (name ++ c :: t) = (name, c :: t) := by
  have hall : ∀ x ∈ name, (!Text.isBlank x) = true := fun x hx => by simp [hname x hx]
  have hword : (name ++ c :: t).takeWhile (fun x => !Text.isBlank x) = name := by
    rw [List.takeWhile_append_of_pos hall]
    simp [hc]
  simp [takeWord, hword]

theorem unspaced_of_isIdentifier (h : isIdentifier name = true) : name.Unspaced := by
  intro c hc
  have hchar : isIdentifierChar c = true := by
    simp only [isIdentifier, Bool.and_eq_true, List.all_eq_true] at h
    exact h.2 c hc
  simp [isIdentifierChar, Text.isAsciiAlphanumeric, Text.isAsciiLetter, Text.isAsciiDigit, Char.le_def,
    UInt32.le_iff_toNat_le] at hchar
  rcases hchar with (hrange | rfl) | rfl
  · simp [Text.isBlank]
    omega
  · decide
  · decide

/-! ## The specifier -/

/-- The text may stand between double quotes. -/
def Quotable (t : Text) : Prop := ∀ c ∈ t, c ≠ '"' ∧ c ≠ '\r' ∧ c ≠ '\n'

instance : DecidablePred Quotable := List.decidableBAll fun c => c ≠ '"' ∧ c ≠ '\r' ∧ c ≠ '\n'

/-- The end of a statement, from the white space after its binding on. -/
def fromClause (specifier : Text) : Text :=
  ' ' :: ("from".toList ++ ' ' :: '"' :: (specifier ++ ['"', ';']))

theorem statement_default (name specifier : Text) :
    Import.statement ⟨name, .default, specifier⟩ = "import".toList ++ ' ' :: (name ++ fromClause specifier) := by
  simp [Import.statement, fromClause]

theorem statement_named (name specifier : Text) :
    Import.statement ⟨name, .named, specifier⟩ =
      "import".toList ++ ' ' :: '\x7b' :: ' ' :: (name ++ ' ' :: '\x7d' :: fromClause specifier) := by
  simp [Import.statement, fromClause]

/-- Whether the reader of a specifier goes past a character. -/
def isQuotableChar (c : Char) : Bool := !(c == '"' || c == '\r' || c == '\n')

theorem quotable_iff (t : Text) : Quotable t ↔ ∀ c ∈ t, isQuotableChar c = true := by
  simp [Quotable, isQuotableChar, and_assoc]

theorem takeWhile_isQuotableChar_length_lt (h : ¬Quotable t) (u : Text) :
    ((t ++ u).takeWhile isQuotableChar).length < t.length := by
  have hle := (List.takeWhile_prefix (l := t) isQuotableChar).length_le
  have hne : (t.takeWhile isQuotableChar).length ≠ t.length := by
    intro hlength
    have hall := (List.takeWhile_prefix isQuotableChar).eq_of_length hlength
    exact h ((quotable_iff t).mpr (List.takeWhile_eq_self_iff.mp hall))
  rw [List.takeWhile_append, if_neg hne]
  omega

/-- A specifier is read up to its closing quote, when there is no quote and no end of line before. -/
theorem specifier?_fromClause (specifier : Text) :
    specifier? (fromClause specifier) = if Quotable specifier then some specifier else none := by
  have hread : specifier? (fromClause specifier) =
      if (specifier ++ ['"', ';']).drop ((specifier ++ ['"', ';']).takeWhile isQuotableChar).length = ['"', ';']
      then some ((specifier ++ ['"', ';']).takeWhile isQuotableChar) else none := by
    have hchar : isQuotableChar = fun c => !(c == '"' || c == '\r' || c == '\n') := rfl
    simp [specifier?, fromClause, afterWord?, Text.after?, afterBlanks?, Text.trimStart, Text.isBlank, hchar]
  rw [hread]
  by_cases h : Quotable specifier
  · have hbody : (specifier ++ ['"', ';']).takeWhile isQuotableChar = specifier := by
      rw [List.takeWhile_append_of_pos ((quotable_iff specifier).mp h)]
      simp [isQuotableChar]
    rw [hbody, List.drop_left, if_pos rfl, if_pos h]
  · have hlt := takeWhile_isQuotableChar_length_lt h ['"', ';']
    have hdrop : (specifier ++ ['"', ';']).drop
        ((specifier ++ ['"', ';']).takeWhile isQuotableChar).length ≠ ['"', ';'] := by
      intro heq
      have hlength := congrArg List.length heq
      simp only [List.length_drop, List.length_append, List.length_cons, List.length_nil] at hlength
      omega
    rw [if_neg hdrop, if_neg h]

/-! ## The binding -/

theorem isBlank_space : Text.isBlank ' ' = true := rfl

theorem trimStart_cons_blank (hc : Text.isBlank c = true) (t : Text) :
    Text.trimStart (c :: t) = Text.trimStart t := by
  simp [Text.trimStart, hc]

theorem namedBinding?_cons_blank (hc : Text.isBlank c = true) (t : Text) :
    namedBinding? (c :: t) = namedBinding? t := by
  rw [namedBinding?, trimStart_cons_blank hc, namedBinding?]

/-- No binding between braces is read without a closing brace. -/
theorem namedBinding?_eq_none (hname : name.Unspaced) (hne : name ≠ []) (hc : Text.isBlank c = true)
    (hspecifier : specifier? (c :: t) = none) (hclose : (Text.trimStart t).head? ≠ some '\x7d') :
    namedBinding? (name ++ c :: t) = none := by
  have hrest : Text.trimStart (c :: t) = Text.trimStart t := trimStart_cons_blank hc t
  have hempty : name.isEmpty = false := by simpa using hne
  simp only [namedBinding?, Text.trimStart_of_unspaced hname hne, takeWord_append hname hc, hempty,
    hspecifier, hrest]
  cases hhead : Text.trimStart t with
  | nil => simp
  | cons d u =>
    have hd : d ≠ '\x7d' := by simpa [hhead] using hclose
    simp [hd]

/-- A default binding is no named one, whatever characters it is made of. -/
theorem namedBinding?_fromClause (hname : name.Unspaced) {specifier : Text} (h : ¬Quotable specifier) :
    namedBinding? (name ++ fromClause specifier) = none := by
  have hfrom : Text.Unspaced "from".toList := by decide
  by_cases hne : name = []
  · have hspecifier : specifier? (' ' :: '"' :: (specifier ++ ['"', ';'])) = none := by
      simp [specifier?, afterBlanks?, afterWord?, Text.after?, Text.trimStart, Text.isBlank]
    have hclose : (Text.trimStart ('"' :: (specifier ++ ['"', ';']))).head? ≠ some '\x7d' := by
      simp [Text.trimStart, Text.isBlank]
    rw [hne, List.nil_append, fromClause, namedBinding?_cons_blank isBlank_space]
    exact namedBinding?_eq_none hfrom (by decide) isBlank_space hspecifier hclose
  · have hspecifier := specifier?_fromClause specifier
    rw [if_neg h] at hspecifier
    have hclose : (Text.trimStart ("from".toList ++ ' ' :: '"' :: (specifier ++ ['"', ';']))).head? ≠
        some '\x7d' := by
      simp [Text.trimStart, Text.isBlank]
    exact namedBinding?_eq_none hname hne isBlank_space hspecifier hclose

theorem shape?_default (hname : name.Unspaced) (specifier : Text) :
    shape? (Import.statement ⟨name, .default, specifier⟩) =
      if name ≠ [] ∧ Quotable specifier then some ⟨name, .default, specifier⟩ else none := by
  have himport : Text.Unspaced "import".toList := by decide
  rw [statement_default, shape?, afterWord?_append himport himport isBlank_space, if_pos rfl]
  dsimp only [Option.bind_eq_bind, Option.bind_some]
  cases name with
  | nil =>
    -- without a name the reader takes the word `from` for it
    have hfrom : Text.Unspaced "from".toList := by decide
    have hspecifier : specifier? (' ' :: '"' :: (specifier ++ ['"', ';'])) = none := by
      simp [specifier?, afterBlanks?, afterWord?, Text.after?, Text.trimStart, Text.isBlank]
    rw [List.nil_append, fromClause, trimStart_cons_blank isBlank_space,
      Text.trimStart_of_unspaced hfrom (by decide), takeWord_append hfrom isBlank_space]
    simp [hspecifier]
  | cons n ns =>
    have hns : Text.Unspaced ns := fun x hx => hname x (List.mem_cons_of_mem _ hx)
    have hword : takeWord (n :: ns ++ fromClause specifier) = (n :: ns, fromClause specifier) :=
      takeWord_append hname isBlank_space _
    rw [Text.trimStart_of_unspaced hname (List.cons_ne_nil n ns), hword]
    simp only [specifier?_fromClause, List.isEmpty_cons]
    by_cases hquotable : Quotable specifier
    · simp [hquotable]
    · by_cases hn : n = '\x7b'
      · simp [hn, hquotable, namedBinding?_fromClause hns hquotable]
      · simp [hn, hquotable]

/-- A closing brace does not begin the end of a statement. -/
theorem specifier?_brace (hname : name.Unspaced) (t : Text) :
    specifier? (' ' :: (name ++ ' ' :: '\x7d' :: t)) = none := by
  have hfrom : Text.Unspaced "from".toList := by decide
  rw [specifier?, afterBlanks?_cons isBlank_space]
  by_cases hne : name = []
  · simp [hne, Text.trimStart, Text.isBlank, afterWord?, Text.after?]
  · rw [Text.trimStart_of_unspaced hname hne]
    simp only [Option.bind_eq_bind, Option.bind_some, afterWord?_append hfrom hname isBlank_space]
    split_ifs
    · simp [Text.trimStart, Text.isBlank]
    · rfl

theorem shape?_named (hname : name.Unspaced) (specifier : Text) :
    shape? (Import.statement ⟨name, .named, specifier⟩) =
      if name ≠ [] ∧ Quotable specifier then some ⟨name, .named, specifier⟩ else none := by
  have himport : Text.Unspaced "import".toList := by decide
  have hopen : Text.Unspaced ['\x7b'] := by decide
  have hclose : Text.Unspaced ['\x7d'] := by decide
  rw [statement_named, shape?, afterWord?_append himport himport isBlank_space, if_pos rfl]
  dsimp only [Option.bind_eq_bind, Option.bind_some]
  rw [← List.singleton_append, Text.trimStart_of_unspaced hopen (by decide),
    takeWord_append hopen isBlank_space]
  simp only [specifier?_brace hname, List.isEmpty_cons, List.singleton_append,
    namedBinding?_cons_blank isBlank_space]
  by_cases hne : name = []
  · rw [hne, List.nil_append, namedBinding?_cons_blank isBlank_space, ← List.singleton_append, fromClause,
      namedBinding?, Text.trimStart_of_unspaced hclose (by decide), takeWord_append hclose isBlank_space]
    simp [Text.trimStart, Text.isBlank, Text.before?, Text.after?]
  · have hempty : name.isEmpty = false := by simpa using hne
    have hattached : specifier? (' ' :: '\x7d' :: fromClause specifier) = none := by
      simp [specifier?, afterBlanks?, afterWord?, Text.after?, Text.trimStart, Text.isBlank]
    have hbrace : Text.trimStart ('\x7d' :: fromClause specifier) = '\x7d' :: fromClause specifier := by
      simp [Text.trimStart, Text.isBlank]
    simp only [namedBinding?, Text.trimStart_of_unspaced hname hne, takeWord_append hname isBlank_space, hempty,
      hattached, trimStart_cons_blank isBlank_space, hbrace, specifier?_fromClause]
    by_cases hquotable : Quotable specifier
    · simp [hquotable, hne]
    · simp [hquotable]

theorem shape?_statement (i : Import) (hname : i.binding.Unspaced) :
    shape? i.statement = if i.binding ≠ [] ∧ Quotable i.specifier then some i else none := by
  obtain ⟨name, kind, specifier⟩ := i
  cases kind with
  | default => exact shape?_default hname specifier
  | named => exact shape?_named hname specifier

/-- The statement of an import without white space in its name is accepted when the name may be imported and
the specifier may be quoted, and then it is read as the import that it was written for. -/
theorem parse_statement_eq_ok_iff {i : Import} (hname : i.binding.Unspaced) (j : Import) :
    Import.parse i.statement = .ok j ↔
      j = i ∧ isIdentifier i.binding = true ∧ isReserved i.binding = false ∧ i.specifier ≠ [] ∧
        Quotable i.specifier := by
  rw [Import.parse, shape?_statement i hname]
  by_cases hshape : i.binding ≠ [] ∧ Quotable i.specifier
  · rw [if_pos hshape]
    dsimp only
    split_ifs with hident hreserved hempty
    · have hident : isIdentifier i.binding = false := by simpa using hident
      simp [hident]
    · simp [hreserved]
    · have hempty : i.specifier = [] := by simpa using hempty
      simp [hempty]
    · have hident : isIdentifier i.binding = true := by simpa using hident
      have hempty : i.specifier ≠ [] := by simpa using hempty
      simp [hident, hreserved, hempty, hshape.2, eq_comm]
  · rw [if_neg hshape]
    refine ⟨fun h => by simp at h, fun ⟨_, hident, _, _, hquotable⟩ => absurd ⟨?_, hquotable⟩ hshape⟩
    rintro hnil
    simp [hnil, isIdentifier] at hident

/-- The statement of an import, written for any name without white space and any specifier, is accepted if and only
if the name may be imported and the specifier is a text, not empty, that may stand between double quotes; and it is
read as the import that it was written for, whatever else its characters could be taken for. -/
theorem statement_accepted_iff {i : Import} (hname : i.binding.Unspaced) :
    ((∃ j, Import.parse i.statement = .ok j) ↔
      isIdentifier i.binding = true ∧ isReserved i.binding = false ∧ i.specifier ≠ [] ∧
        ∀ c ∈ i.specifier, c ≠ '"' ∧ c ≠ '\r' ∧ c ≠ '\n') ∧
      ∀ j, Import.parse i.statement = .ok j →
        j.binding = i.binding ∧ j.kind = i.kind ∧ j.specifier = i.specifier := by
  constructor
  · constructor
    · rintro ⟨j, hj⟩
      exact ((parse_statement_eq_ok_iff hname j).mp hj).2
    · intro hallowed
      exact ⟨i, (parse_statement_eq_ok_iff hname i).mpr ⟨rfl, hallowed⟩⟩
  · intro j hj
    obtain ⟨rfl, -⟩ := (parse_statement_eq_ok_iff hname j).mp hj
    exact ⟨rfl, rfl, rfl⟩

namespace Deceptive

/-- A name that is a keyword of the statement, and a specifier that reads like another statement. -/
def lookalike : Import := ⟨"from", .named, "\x7d from 'x'; import y from"⟩

/-- The same with a double quote in the specifier, which would end there. -/
def cutShort : Import := ⟨"from", .default, "x\"; import y from \"y"⟩

theorem lookalike_accepted :
    lookalike.binding.Unspaced ∧ (∃ j, Import.parse lookalike.statement = .ok j) ∧
      cutShort.binding.Unspaced ∧ ¬∃ j, Import.parse cutShort.statement = .ok j := by
  have hname : Text.Unspaced lookalike.binding := by decide
  have hname' : Text.Unspaced cutShort.binding := by decide
  have hquotable : Quotable lookalike.specifier := by decide
  have hquotable' : ¬Quotable cutShort.specifier := by decide
  refine ⟨hname, (statement_accepted_iff hname).1.mpr ⟨by decide, by decide, by decide, hquotable⟩, hname', fun h => ?_⟩
  exact hquotable' ((statement_accepted_iff hname').1.mp h).2.2.2

end Deceptive

end EsModule

end StaticSite
