import StaticSite.EsModule.DefaultExport
import StaticSite.Proofs.Text.Parts

/-!
# What strings and comments hold

Module source that is written as closed strings, comments and plain code is read as these pieces, whatever the
strings and the comments hold: the reader is at the end of one piece just when it is at the start of the next. So
what they hold has no bearing on whether a default export is found.
-/
namespace StaticSite.EsModule

/-- A character of a string literal, as it is written. -/
inductive StringChar where
  | plain (c : Char)
  /-- A character behind a backslash. -/
  | escaped (c : Char)

namespace StringChar

def text : StringChar → Text
  | plain c => [c]
  | escaped c => ['\\', c]

/-- The character does not end a literal, nor does it break one off: a template alone may hold a newline. -/
def Inside (quote : Char) : StringChar → Prop
  | plain c => c ≠ quote ∧ c ≠ '\\' ∧ (c = '\n' → quote = '\x60')
  | escaped _ => True

instance (quote : Char) : DecidablePred (Inside quote)
  | plain c => inferInstanceAs (Decidable (c ≠ quote ∧ c ≠ '\\' ∧ (c = '\n' → quote = '\x60')))
  | escaped _ => inferInstanceAs (Decidable True)

end StringChar

/-- A piece of module source, as it is written. -/
inductive WrittenPiece where
  | string (quote : Char) (content : List StringChar)
  | blockComment (content : Text)
  | lineComment (content : Text)
  | code (t : Text)

namespace WrittenPiece

def text : WrittenPiece → Text
  | string quote content => quote :: content.flatMap StringChar.text ++ [quote]
  | blockComment content => "/*" ++ content ++ "*/"
  | lineComment content => "//" ++ content
  | code t => t

/-- The piece ends where it is written to end, and code holds nothing that starts a string or a comment. -/
def Closed : WrittenPiece → Prop
  | string quote content => isQuote quote = true ∧ ∀ x ∈ content, x.Inside quote
  | blockComment content => ¬ "*/".toList <:+: content
  | lineComment content => '\n' ∉ content
  | code t => ∀ c ∈ t, isQuote c = false ∧ c ≠ '/'

instance : DecidablePred Closed
  | string quote content => inferInstanceAs (Decidable (isQuote quote = true ∧ ∀ x ∈ content, x.Inside quote))
  | blockComment content => inferInstanceAs (Decidable (¬ "*/".toList <:+: content))
  | lineComment content => inferInstanceAs (Decidable ('\n' ∉ content))
  | code t => List.decidableBAll (fun c => isQuote c = false ∧ c ≠ '/') t

def isLineComment : WrittenPiece → Bool
  | lineComment _ => true
  | _ => false

/-- What is read of the piece. -/
def pieces : WrittenPiece → List SourcePiece
  | string quote content => [.string quote (content.flatMap StringChar.text)]
  | blockComment content => [.comment content]
  | lineComment content => [.comment content]
  | code t => t.map .code

/-- The piece without content: an empty string, a space for a comment, and code as it is. -/
def bare : WrittenPiece → Text
  | string quote _ => [quote, quote]
  | blockComment _ => [' ']
  | lineComment _ => [' ']
  | code t => t

/-- Two pieces that differ at most in what a string or a comment holds. -/
inductive SameButContent : WrittenPiece → WrittenPiece → Prop
  | string (quote : Char) (content content' : List StringChar) :
      SameButContent (string quote content) (string quote content')
  | blockComment (content content' : Text) : SameButContent (blockComment content) (blockComment content')
  | lineComment (content content' : Text) : SameButContent (lineComment content) (lineComment content')
  | code (t : Text) : SameButContent (code t) (code t)

theorem flatMap_blanked_pieces (p : WrittenPiece) : p.pieces.flatMap SourcePiece.blanked = p.bare := by
  cases p with
  | code t => simp [pieces, bare, SourcePiece.blanked, List.flatMap_map]
  | string | blockComment | lineComment => rfl

theorem SameButContent.bare_eq {p q : WrittenPiece} (h : SameButContent p q) : p.bare = q.bare := by
  cases h <;> rfl

end WrittenPiece

open WrittenPiece

/-- The source that pieces make up. -/
def sourceOf (ps : List WrittenPiece) : Text := ps.flatMap text

/-- The code of pieces alone. -/
def codeOf (ps : List WrittenPiece) : Text := ps.flatMap bare

/-- Pieces that are closed, one by one; behind a line comment there is a newline or nothing. -/
def Sequence : List WrittenPiece → Prop
  | [] => True
  | p :: ps => p.Closed ∧ (p.isLineComment = true → ∀ c ∈ (sourceOf ps).head?, c = '\n') ∧ Sequence ps

instance decidableSequence : DecidablePred Sequence
  | [] => inferInstanceAs (Decidable True)
  | p :: ps =>
    have := decidableSequence ps
    have : Decidable (∀ c ∈ (sourceOf ps).head?, c = '\n') := Option.decidableForallMem _
    inferInstanceAs
      (Decidable (p.Closed ∧ (p.isLineComment = true → ∀ c ∈ (sourceOf ps).head?, c = '\n') ∧ Sequence ps))

variable {quote c : Char} {t rest : Text} {content : List StringChar} {piece : SourcePiece} {fuel : Nat}

/-! ## Reading one piece -/

theorem stringRest?_cons (hc : c ≠ '\\') (t : Text) :
    stringRest? quote (c :: t) =
      if c = quote then some ([], t)
      else if c = '\n' ∧ quote ≠ '\x60' then none
      else (stringRest? quote t).map fun (content, rest) => (c :: content, rest) := by
  have hback : (c == '\\') = false := by simpa using hc
  rw [stringRest?.eq_def]
  split
  · simp_all
  · simp_all
  · rename_i heq
    obtain ⟨rfl, rfl⟩ := List.cons.inj heq
    simp [hback]

/-- A literal is read up to the quote that closes it. -/
theorem stringRest?_append (hquote : quote ≠ '\\') (h : ∀ x ∈ content, x.Inside quote) (rest : Text) :
    stringRest? quote (content.flatMap StringChar.text ++ quote :: rest) =
      some (content.flatMap StringChar.text, rest) := by
  induction content with
  | nil => rw [List.flatMap_nil, List.nil_append, stringRest?_cons hquote, if_pos rfl]
  | cons x content ih =>
    obtain ⟨hx, hcontent⟩ := List.forall_mem_cons.mp h
    rw [List.flatMap_cons, List.append_assoc]
    cases x with
    | plain c =>
      obtain ⟨hend, hback, hnewline⟩ := hx
      have hopen : ¬(c = '\n' ∧ quote ≠ '\x60') := fun hbreak => hbreak.2 (hnewline hbreak.1)
      simp only [StringChar.text, List.cons_append, List.nil_append]
      rw [stringRest?_cons hback, if_neg hend, if_neg hopen, ih hcontent]
      rfl
    | escaped c =>
      simp only [StringChar.text, List.cons_append, List.nil_append]
      rw [stringRest?, ih hcontent]
      rfl

theorem literal?_cons (hc : c ≠ '/') (t : Text) :
    literal? (c :: t) =
      if isQuote c then (stringRest? c t).map fun (content, rest) => (.string c content, rest) else none := by
  unfold literal?
  split <;> simp_all

theorem literal?_string (hquote : isQuote quote = true) (h : ∀ x ∈ content, x.Inside quote) (rest : Text) :
    literal? ((string quote content).text ++ rest) =
      some (.string quote (content.flatMap StringChar.text), rest) := by
  have hne : quote ≠ '/' ∧ quote ≠ '\\' := by
    constructor <;> (rintro rfl; exact absurd hquote (by decide))
  have htext : (string quote content).text ++ rest = quote :: (content.flatMap StringChar.text ++ quote :: rest) := by
    simp [text]
  rw [htext, literal?_cons hne.1, if_pos hquote, stringRest?_append hne.2 h]
  rfl

theorem literal?_blockComment (h : ¬ "*/".toList <:+: t) (rest : Text) :
    literal? ((blockComment t).text ++ rest) = some (.comment t, rest) := by
  have hcut : Text.cut? "*/" (t ++ "*/" ++ rest) = some (t, rest) := Text.cut?_append (by decide) h rest
  have htext : (blockComment t).text ++ rest = '/' :: '*' :: (t ++ "*/" ++ rest) := by
    simp [text]
  rw [htext, literal?, hcut]
  rfl

theorem literal?_lineComment (h : '\n' ∉ t) (hrest : ∀ c ∈ rest.head?, c = '\n') :
    literal? ((lineComment t).text ++ rest) = some (.comment t, rest) := by
  have hline : (t ++ rest).takeWhile (· != '\n') = t := by
    rw [List.takeWhile_append_of_pos fun c hc => by simpa using fun heq : c = '\n' => h (heq ▸ hc)]
    cases rest with
    | nil => simp
    | cons c rest => simp [hrest c rfl]
  have htext : (lineComment t).text ++ rest = '/' :: '/' :: (t ++ rest) := by simp [text]
  rw [htext, literal?, hline, List.drop_left]

/-! ## Reading pieces in turn -/

theorem sourcePiecesFrom_of_literal? (h : literal? t = some (piece, rest)) (hne : t ≠ []) (fuel : Nat) :
    sourcePiecesFrom (fuel + 1) t = piece :: sourcePiecesFrom fuel rest := by
  cases t with
  | nil => exact absurd rfl hne
  | cons c t => simp only [sourcePiecesFrom, h]

theorem sourcePiecesFrom_code (h : ∀ c ∈ t, isQuote c = false ∧ c ≠ '/') (hfuel : (t ++ rest).length ≤ fuel) :
    ∃ left, rest.length ≤ left ∧
      sourcePiecesFrom fuel (t ++ rest) = t.map .code ++ sourcePiecesFrom left rest := by
  induction t generalizing fuel with
  | nil => exact ⟨fuel, hfuel, rfl⟩
  | cons c t ih =>
    obtain ⟨⟨hquote, hslash⟩, ht⟩ := List.forall_mem_cons.mp h
    obtain ⟨fuel, rfl⟩ : ∃ k, fuel = k + 1 := Nat.exists_eq_add_one.mpr (Nat.lt_of_lt_of_le (by simp) hfuel)
    obtain ⟨left, hleft, hpieces⟩ := ih ht (Nat.le_of_succ_le_succ hfuel)
    have hcode : literal? (c :: (t ++ rest)) = none := by rw [literal?_cons hslash, hquote]; rfl
    refine ⟨left, hleft, ?_⟩
    rw [List.cons_append, sourcePiecesFrom, hcode, hpieces]
    rfl

/-- The reader is behind a piece when it has read that piece. -/
theorem sourcePiecesFrom_append {p : WrittenPiece} (hclosed : p.Closed)
    (hline : p.isLineComment = true → ∀ c ∈ rest.head?, c = '\n') (hfuel : (p.text ++ rest).length ≤ fuel) :
    ∃ left, rest.length ≤ left ∧
      sourcePiecesFrom fuel (p.text ++ rest) = p.pieces ++ sourcePiecesFrom left rest := by
  have hliteral {piece : SourcePiece} (h : literal? (p.text ++ rest) = some (piece, rest)) (hp : 0 < p.text.length) :
      ∃ left, rest.length ≤ left ∧
        sourcePiecesFrom fuel (p.text ++ rest) = [piece] ++ sourcePiecesFrom left rest := by
    rw [List.length_append] at hfuel
    obtain ⟨left, rfl⟩ : ∃ k, fuel = k + 1 := Nat.exists_eq_add_one.mpr (by omega)
    refine ⟨left, by omega, sourcePiecesFrom_of_literal? h ?_ left⟩
    exact List.append_ne_nil_of_left_ne_nil (List.ne_nil_of_length_pos hp) rest
  cases p with
  | string quote content => exact hliteral (literal?_string hclosed.1 hclosed.2 rest) (by simp [text])
  | blockComment content => exact hliteral (literal?_blockComment hclosed rest) (by simp [text])
  | lineComment content => exact hliteral (literal?_lineComment hclosed (hline rfl)) (by simp [text])
  | code t => exact sourcePiecesFrom_code hclosed hfuel

variable {ps : List WrittenPiece}

theorem sourcePiecesFrom_sourceOf (h : Sequence ps) (hfuel : (sourceOf ps).length ≤ fuel) :
    sourcePiecesFrom fuel (sourceOf ps) = ps.flatMap pieces := by
  induction ps generalizing fuel with
  | nil => cases fuel <;> rfl
  | cons p ps ih =>
    obtain ⟨hclosed, hline, hps⟩ := h
    obtain ⟨left, hleft, hread⟩ := sourcePiecesFrom_append hclosed hline hfuel
    exact hread.trans (congrArg (p.pieces ++ ·) (ih hps hleft))

/-- The pieces of module source are read as they are written. -/
theorem sourcePieces_sourceOf (h : Sequence ps) : sourcePieces (sourceOf ps) = ps.flatMap pieces :=
  sourcePiecesFrom_sourceOf h le_rfl

theorem hasDefaultExport_sourceOf (h : Sequence ps) : hasDefaultExport (sourceOf ps) = declaresDefault (codeOf ps) := by
  simp only [hasDefaultExport, sourcePieces_sourceOf h, codeOf, List.flatMap_assoc, flatMap_blanked_pieces]

/-- Whether module source declares a default export can be read off its code, with a space for each comment and an
empty string for each string; it is the same for all strings and comments that may stand there instead. -/
theorem default_export_of_code_alone (h : Sequence ps) :
    hasDefaultExport (sourceOf ps) = declaresDefault (codeOf ps) ∧
      ∀ qs, Sequence qs → List.Forall₂ SameButContent ps qs →
        hasDefaultExport (sourceOf qs) = hasDefaultExport (sourceOf ps) := by
  refine ⟨hasDefaultExport_sourceOf h, fun qs hqs hsame => ?_⟩
  have hcode : codeOf qs = codeOf ps := by
    clear h hqs
    induction hsame with
    | nil => rfl
    | cons hpiece _ ih => exact congrArg₂ (· ++ ·) hpiece.bare_eq.symm ih
  rw [hasDefaultExport_sourceOf hqs, hasDefaultExport_sourceOf h, hcode]

namespace Misleading

/-- Pieces of module source that hold the marks of other pieces; in between, a default export is declared. -/
def written (inString inTemplate : List StringChar) (inBlock inLine : Text) : List WrittenPiece :=
  [.code "const a = ", .string '"' inString, .code ";", .lineComment inLine, .code "\nconst b = ",
    .string '\x60' inTemplate, .code ";\nexport ", .blockComment inBlock, .code " default a"]

/-- A string and a comment that would start a comment and a string, and quotes behind backslashes. -/
def marked : List WrittenPiece :=
  written [.plain '/', .plain '*', .escaped '"', .escaped '\\'] [.plain '\n', .plain '/', .plain '/', .escaped '\x60']
    " \" * / ` " " it's /* no end"

/-- The same with other content. -/
def plain : List WrittenPiece := written [] [.plain '\''] "* export \x7b a as default \x7d *" " export default a"

theorem default_export_found :
    Sequence marked ∧ Sequence plain ∧ List.Forall₂ SameButContent marked plain ∧
      hasDefaultExport (sourceOf marked) = true ∧ hasDefaultExport (sourceOf plain) = true := by
  have hmarked : Sequence marked := by decide
  have hplain : Sequence plain := by decide
  have hsame : List.Forall₂ SameButContent marked plain := by
    repeat' constructor
  have hcode : declaresDefault (codeOf marked) = true := by decide +kernel
  obtain ⟨halone, hother⟩ := default_export_of_code_alone hmarked
  rw [hcode] at halone
  exact ⟨hmarked, hplain, hsame, halone, (hother plain hplain hsame).trans halone⟩

end Misleading

end StaticSite.EsModule
