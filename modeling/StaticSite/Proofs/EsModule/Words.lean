import StaticSite.Proofs.Document.Attributes
import StaticSite.Proofs.EsModule.Statement
import StaticSite.Proofs.Text.Parts

/-!
# Words in a text that goes on

What the readers of words find in a text, when another text follows it: a word is found where it stands in the
first text, unless it runs on from there into the second one.
-/
namespace StaticSite

namespace Text

variable {word t u : Text}

/-- What a text begins with can be told without what follows the text, unless the beginning runs on into it. -/
theorem after?_append_of_ended (h : ∀ d ∈ u.head?, ¬t ++ [d] <+: word) :
    after? word (t ++ u) = (after? word t).map (· ++ u) := by
  induction word generalizing t with
  | nil => rfl
  | cons w word ih =>
    cases t with
    | nil =>
      cases u with
      | nil => rfl
      | cons d u =>
        have hd : w ≠ d := by
          rintro rfl
          exact h w rfl ⟨word, rfl⟩
        simp [after?, hd]
    | cons c t =>
      by_cases hc : w = c
      · subst hc
        have hrest := ih fun d hd hbegin => h d hd (List.cons_prefix_cons.mpr ⟨rfl, hbegin⟩)
        simpa [after?] using hrest
      · simp [after?, hc]

theorem after?_append_of_not_mem (h : ∀ d ∈ u.head?, d ∉ word) :
    after? word (t ++ u) = (after? word t).map (· ++ u) :=
  after?_append_of_ended fun d hd hbegin => h d hd (hbegin.subset (by simp))

theorem trimStart_append_of_blank (h : ∀ c ∈ t, isBlank c = true) (u : Text) : trimStart (t ++ u) = trimStart u :=
  List.dropWhile_append_of_pos h

theorem trimStart_cons_of_not_blank {c : Char} (h : isBlank c = false) (t : Text) : trimStart (c :: t) = c :: t := by
  simp [trimStart, h]

theorem trimEnd_append_of_blank {v : Text} (hv : ∀ c ∈ v, isBlank c = true)
    (hlast : ∀ c ∈ u.getLast?, isBlank c = false) : trimEnd (u ++ v) = u := by
  have hblank : ∀ c ∈ v.reverse, isBlank c = true := fun c hc => hv c (List.mem_reverse.mp hc)
  rw [trimEnd, dropEndWhile, List.reverse_append, List.dropWhile_append_of_pos hblank]
  exact dropEndWhile_of_getLast? hlast

/-- What is left of a text when the white space around it is trimmed. -/
theorem trim_between {v : Text} (ht : ∀ c ∈ t, isBlank c = true) (hv : ∀ c ∈ v, isBlank c = true)
    (hhead : ∀ c ∈ u.head?, isBlank c = false) (hlast : ∀ c ∈ u.getLast?, isBlank c = false) :
    trim (t ++ (u ++ v)) = u := by
  have hstart : trimStart (u ++ v) = u ++ v ∨ u = [] := by
    cases u with
    | nil => exact .inr rfl
    | cons c u => exact .inl (trimStart_cons_of_not_blank (hhead c rfl) _)
  rw [trim, trimStart_append_of_blank ht]
  rcases hstart with hstart | rfl
  · rw [hstart, trimEnd_append_of_blank hv hlast]
  · have hnone : trimStart v = [] := List.dropWhile_eq_nil_iff.mpr hv
    rw [List.nil_append, hnone]
    rfl

theorem mem_join {ts : List Text} {separator : Text} {c : Char} (h : c ∈ join separator ts) :
    c ∈ separator ∨ ∃ t ∈ ts, c ∈ t := by
  fun_induction join separator ts with
  | case1 => cases h
  | case2 t => exact .inr ⟨t, List.mem_cons_self, h⟩
  | case3 t u ts ih =>
    rw [List.mem_append, List.mem_append] at h
    rcases h with (h | h) | h
    · exact .inr ⟨t, List.mem_cons_self, h⟩
    · exact .inl h
    · rcases ih h with hseparator | ⟨v, hv, hmem⟩
      · exact .inl hseparator
      · exact .inr ⟨v, List.mem_cons_of_mem t hv, hmem⟩

end Text

namespace EsModule

variable {word t u : Text} {previous : Option Char}

theorem afterBlanks?_of_blank (h : ∀ c ∈ t, Text.isBlank c = true) (hne : t ≠ []) (u : Text) :
    afterBlanks? (t ++ u) = some (Text.trimStart u) := by
  cases t with
  | nil => exact absurd rfl hne
  | cons c t =>
    obtain ⟨hc, ht⟩ := List.forall_mem_cons.mp h
    rw [List.cons_append, afterBlanks?_cons hc, Text.trimStart_append_of_blank ht]

/-- A word is found at the start of a text without white space if it is all of that text, and white space follows;
what follows does not complete the word. -/
theorem afterWord?_append_of_ended (ht : t.Unspaced) (hu : ∀ d ∈ u.head?, ¬t ++ [d] <+: word) :
    afterWord? word (t ++ u) = if t = word then afterBlanks? u else none := by
  rw [afterWord?, Text.after?_append_of_ended hu]
  split_ifs with heq
  · have hall : Text.after? word word = some [] := by simpa using Text.after?_append word []
    rw [heq, hall]
    rfl
  · cases hafter : Text.after? word t with
    | none => rfl
    | some rest =>
      have hsplit := Text.eq_append_of_after? hafter
      cases rest with
      | nil => exact absurd (by simpa using hsplit) heq
      | cons r rest =>
        have hr : Text.isBlank r = false := ht r (by simp [hsplit])
        simp [afterBlanks?, hr]

theorem afterWord?_append_of_unspaced (ht : t.Unspaced) (hu : ∀ d ∈ u.head?, d ∉ word) :
    afterWord? word (t ++ u) = if t = word then afterBlanks? u else none :=
  afterWord?_append_of_ended ht fun d hd hbegin => hu d hd (hbegin.subset (by simp))

/-! ## Where words start -/

theorem getLast?_append_cons_or (previous : Option Char) (init : Text) (c : Char) (t : Text) :
    (init ++ c :: t).getLast?.or previous = t.getLast?.or (some c) := by
  cases t <;> simp [List.getLast?_cons]

/-- The character before what follows a text is its last one, or the one before the text. -/
theorem getLast?_cons_or (previous : Option Char) (c : Char) (t : Text) :
    (c :: t).getLast?.or previous = t.getLast?.or (some c) := getLast?_append_cons_or previous [] c t

theorem wordStarts_append (previous : Option Char) (t u : Text) :
    wordStarts previous (t ++ u) =
      (wordStarts previous t).map (· ++ u) ++ wordStarts (t.getLast?.or previous) u := by
  induction t generalizing previous with
  | nil => rfl
  | cons c t ih =>
    rw [List.cons_append, wordStarts, wordStarts, ih, getLast?_cons_or]
    split <;> simp

theorem suffix_of_mem_wordStarts {start : Text} (h : start ∈ wordStarts previous t) : start <:+ t ∧ start ≠ [] := by
  induction t generalizing previous with
  | nil => simp [wordStarts] at h
  | cons c t ih =>
    rw [wordStarts] at h
    have hlater (hmem : start ∈ wordStarts (some c) t) : start <:+ c :: t ∧ start ≠ [] :=
      ⟨(ih hmem).1.trans (List.suffix_cons c t), (ih hmem).2⟩
    split at h
    · exact hlater h
    · rcases List.mem_cons.mp h with rfl | h
      · exact ⟨List.suffix_rfl, by simp⟩
      · exact hlater h

theorem wordStarts_congr {other : Option Char} (h : previous.any Text.isWord = other.any Text.isWord) (t : Text) :
    wordStarts previous t = wordStarts other t := by
  cases t with
  | nil => rfl
  | cons c t => rw [wordStarts, wordStarts, h]

variable {p : Text → Bool}

/-- What is not found where no word starts is not found in what divides words. -/
theorem any_wordStarts_divider (hp : ∀ c start, Text.isWord c = false → p (c :: start) = false)
    (ht : ∀ c ∈ t, Text.isWord c = false) (hprevious : previous.any Text.isWord = false) (u : Text) :
    (wordStarts previous (t ++ u)).any p = (wordStarts none u).any p := by
  induction t generalizing previous with
  | nil =>
    have hstarts : wordStarts previous u = wordStarts none u := wordStarts_congr hprevious u
    rw [List.nil_append, hstarts]
  | cons c t ih =>
    obtain ⟨hc, ht⟩ := List.forall_mem_cons.mp ht
    have hrest : (wordStarts (some c) (t ++ u)).any p = (wordStarts none u).any p := ih ht hc
    rw [List.cons_append, wordStarts, hprevious, if_neg Bool.false_ne_true, List.any_cons, hp c _ hc, Bool.false_or,
      hrest]

theorem any_wordStarts_of_head? (hp : ∀ c start, Text.isWord c = false → p (c :: start) = false)
    (hu : ∀ d ∈ u.head?, Text.isWord d = false) (previous : Option Char) :
    (wordStarts previous u).any p = (wordStarts none u).any p := by
  cases u with
  | nil => rfl
  | cons d u =>
    rw [wordStarts, wordStarts]
    cases previous.any Text.isWord <;> simp [hp d u (hu d rfl)]

theorem isWord_singleton {c : Char} (hc : Text.isWord c = false) : ∀ d ∈ [c], Text.isWord d = false := by
  simpa using hc

/-! ## Keywords -/

/-- The text may be looked for as a whole word: it is made of word characters. -/
def IsKeyword (word : Text) : Prop := word ≠ [] ∧ ∀ c ∈ word, Text.isWord c = true

instance : DecidablePred IsKeyword := fun word =>
  decidable_of_iff ((!word.isEmpty && word.all Text.isWord) = true) (by simp [IsKeyword])

theorem not_mem_of_isWord {c : Char} (hword : IsKeyword word) (hc : Text.isWord c = false) : c ∉ word := by
  intro hmem
  simp [hword.2 c hmem] at hc

theorem after?_cons_of_not_isWord {c : Char} (hword : IsKeyword word) (hc : Text.isWord c = false) (t : Text) :
    Text.after? word (c :: t) = none := by
  cases word with
  | nil => exact absurd rfl hword.1
  | cons w word =>
    have hne : w ≠ c := by
      rintro rfl
      exact not_mem_of_isWord hword hc List.mem_cons_self
    simp [Text.after?, hne]

theorem afterWord?_cons_of_not_isWord {c : Char} (hword : IsKeyword word) (hc : Text.isWord c = false) (t : Text) :
    afterWord? word (c :: t) = none := by
  rw [afterWord?, after?_cons_of_not_isWord hword hc]
  rfl

theorem afterWholeWord?_append (hword : IsKeyword word) (hu : ∀ d ∈ u.head?, Text.isWord d = false) (t : Text) :
    afterWholeWord? word (t ++ u) = (afterWholeWord? word t).map (· ++ u) := by
  have hafter : Text.after? word (t ++ u) = (Text.after? word t).map (· ++ u) :=
    Text.after?_append_of_not_mem fun d hd => not_mem_of_isWord hword (hu d hd)
  rw [afterWholeWord?, afterWholeWord?, hafter]
  cases Text.after? word t with
  | none => rfl
  | some rest =>
    cases rest with
    | nil =>
      have hhead : u.head?.any Text.isWord = false := by
        cases u with
        | nil => rfl
        | cons d u => exact hu d rfl
      simp [hhead]
    | cons r rest =>
      cases hr : Text.isWord r <;> simp [hr]

end EsModule

end StaticSite
