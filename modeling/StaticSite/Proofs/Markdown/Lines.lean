import StaticSite.Proofs.Markdown.Grammar

/-!
# Lines

A container takes its own marks off the front of a line, and no bracket with them. So where the markers of a text
stand in the names of tags alone, they do so in its lines, in what containers leave of these, and in the cells of
tables.
-/
namespace StaticSite

/-- A text is another one less some characters in front, none of which is a bracket. -/
def Text.SkipsTo (t u : Text) : Prop := ∃ skipped, t = skipped ++ u ∧ '<' ∉ skipped

namespace Text.SkipsTo

variable {t u v : Text}

theorem refl (t : Text) : SkipsTo t t := ⟨[], rfl, nofun⟩

theorem trans (h : SkipsTo t u) (h' : SkipsTo u v) : SkipsTo t v := by
  obtain ⟨skipped, rfl, hno⟩ := h
  obtain ⟨more, rfl, hmore⟩ := h'
  exact ⟨skipped ++ more, by simp, by simp [hno, hmore]⟩

theorem cons {c : Char} (hc : c ≠ '<') (t : Text) : SkipsTo (c :: t) t := ⟨[c], rfl, by simpa using hc.symm⟩

theorem dropWhile {p : Char → Bool} (hp : p '<' = false) (t : Text) : SkipsTo t (t.dropWhile p) := by
  refine ⟨t.takeWhile p, List.takeWhile_append_dropWhile.symm, fun hmem => ?_⟩
  exact Bool.false_ne_true (hp.symm.trans (List.mem_takeWhile_imp hmem))

theorem drop {n : Nat} (h : '<' ∉ t.take n) : SkipsTo t (t.drop n) := ⟨t.take n, (List.take_append_drop n t).symm, h⟩

theorem markedInTags (h : SkipsTo t u) (ht : Markup.MarkedInTags t) : Markup.MarkedInTags u := by
  obtain ⟨skipped, rfl, hno⟩ := h
  exact ht.of_append hno

end Text.SkipsTo

namespace Markdown

open Markup (MarkedInTags)

/-! ## Cursors -/

namespace Cursor

open Text.SkipsTo

theorem skipsTo_walk (n column : Nat) (t : Text) : t.SkipsTo (walk n column t).2.rest := by
  fun_induction walk n column t with
  | case1 => exact refl _
  | case2 => exact refl _
  | case3 n column rest ih => exact (cons (by decide) rest).trans ih
  | case4 n column rest width hle ih => exact (cons (by decide) rest).trans ih
  | case5 => exact cons (by decide) _
  | case6 => exact refl _

theorem skipsTo_skip (n : Nat) (c : Cursor) : c.rest.SkipsTo (c.skip n).2.rest := by
  unfold skip
  split_ifs
  · exact refl _
  · exact skipsTo_walk ..

theorem skipsTo_indent? {n : Nat} {c c' : Cursor} (h : c.indent? n = some c') : c.rest.SkipsTo c'.rest := by
  have hskip := skipsTo_skip n c
  unfold indent? at h
  split at h
  · rename_i after hafter
    obtain rfl := Option.some.inj h
    rwa [hafter] at hskip
  · cases h

theorem skipsTo_skipAll (c : Cursor) : c.rest.SkipsTo c.skipAll.rest := dropWhile (by decide) _

theorem skipsTo_quote? {c c' : Cursor} (h : c.quote? = some c') : c.rest.SkipsTo c'.rest := by
  unfold quote? at h
  split at h
  · rename_i rest hrest
    obtain rfl := Option.some.inj h
    have hmark : c.rest.SkipsTo (c.advance 1).rest := by
      rw [advance, hrest]
      exact cons (by decide) rest
    exact hmark.trans (skipsTo_skip 1 _)
  · cases h

end Cursor

open Text.SkipsTo

theorem skipsTo_continueThrough (holders : List Holder) (c : Cursor) :
    c.rest.SkipsTo (continueThrough holders c).2.rest := by
  fun_induction continueThrough holders c with
  | case1 => exact refl _
  | case2 => exact refl _
  | case3 c holders after hafter n c' hc ih =>
    rw [hc] at ih
    exact (Cursor.skipsTo_skip ..).trans ((Cursor.skipsTo_quote? hafter).trans ih)
  | case4 mark ordered holders c n c' hc ih =>
    rwa [hc] at ih
  | case5 indent holders c missing after hskip _ n c' hc ih =>
    have hafter := Cursor.skipsTo_skip indent c
    rw [hc] at ih
    rw [hskip] at hafter
    exact hafter.trans ih
  | case6 => exact refl _

theorem skipsTo_markerContent (mark : Char) (number indent : Nat) (c : Cursor) :
    c.rest.SkipsTo (markerContent mark number indent c).2.rest := by
  unfold markerContent
  split_ifs
  · exact refl _
  · dsimp only
    split_ifs
    · exact refl _
    · exact Cursor.skipsTo_skip ..

theorem not_mem_take_number {t after : Text} {last : Char} (hlast : last ≠ '<')
    (hafter : t.drop (t.takeWhile Text.isAsciiDigit).length = last :: after) :
    '<' ∉ t.take ((t.takeWhile Text.isAsciiDigit).length + 1) := by
  have hdigits : t.take (t.takeWhile Text.isAsciiDigit).length = t.takeWhile Text.isAsciiDigit :=
    (List.prefix_iff_eq_take.mp (List.takeWhile_prefix _)).symm
  rw [List.take_add, hdigits, hafter]
  intro hmem
  rcases List.mem_append.mp hmem with hmem | hmem
  · exact absurd (List.mem_takeWhile_imp hmem) (by decide)
  · exact hlast (List.mem_singleton.mp hmem).symm

theorem skipsTo_marker? {indent : Nat} {c c' : Cursor} {marker : Marker} (h : marker? indent c = some (marker, c')) :
    c.rest.SkipsTo c'.rest := by
  unfold marker? at h
  split at h
  · cases h
  · rename_i first rest hrest
    dsimp only at h
    split at h
    · cases h
    · rename_i mark number width hwidth
      have hno : '<' ∉ c.rest.take width := by
        split_ifs at hwidth with hbullet
        · cases hwidth
          rw [hrest]
          intro hmem
          obtain rfl := List.mem_singleton.mp hmem
          simp at hbullet
        · split at hwidth
          · rename_i hdot
            cases hwidth
            exact not_mem_take_number (Char.ne_of_val_ne (by decide)) hdot
          · rename_i hparenthesis
            cases hwidth
            exact not_mem_take_number (Char.ne_of_val_ne (by decide)) hparenthesis
          · cases hwidth
      have hadvance : c.rest.SkipsTo (c.advance width).rest := drop hno
      split at h
      · rename_i after hafter
        obtain ⟨-, rfl⟩ := Prod.mk.inj (Option.some.inj h)
        exact hadvance.trans ((Cursor.skipsTo_indent? hafter).trans (skipsTo_markerContent ..))
      · split_ifs at h
        obtain ⟨-, rfl⟩ := Prod.mk.inj (Option.some.inj h)
        exact hadvance.trans (skipsTo_markerContent ..)

theorem skipsTo_taskMarker? {c c' : Cursor} {checked : Bool} (h : taskMarker? c = some (checked, c')) :
    c.rest.SkipsTo c'.rest := by
  have hskip := Cursor.skipsTo_skip 3 c
  unfold taskMarker? at h
  dsimp only at h
  split at h
  · rename_i mark space rest hrest
    have hmark (hno : mark ≠ '<') : c.rest.SkipsTo ((c.skip 3).2.advance 3).rest := by
      refine hskip.trans (drop ?_)
      rw [hrest]
      simp [hno.symm]
    split_ifs at h with hspace hblank hx
    · obtain ⟨-, rfl⟩ := Prod.mk.inj (Option.some.inj h)
      exact hmark fun hbracket => by simp [hbracket, isSpace] at hblank
    · obtain ⟨-, rfl⟩ := Prod.mk.inj (Option.some.inj h)
      exact hmark fun hbracket => by simp [hbracket] at hx
  · cases h

/-! ## Lines -/

/-- Lines in which markers stand in the names of tags alone. -/
def MarkedLines (lines : List Text) : Prop := ∀ line ∈ lines, MarkedInTags line

namespace MarkedLines

variable {line : Text} {lines : List Text}

theorem nil : MarkedLines [] := nofun

theorem cons (h : MarkedInTags line) (hs : MarkedLines lines) : MarkedLines (line :: lines) :=
  List.forall_mem_cons.mpr ⟨h, hs⟩

theorem head (h : MarkedLines (line :: lines)) : MarkedInTags line := h line List.mem_cons_self

theorem tail (h : MarkedLines (line :: lines)) : MarkedLines lines := fun l hl => h l (List.mem_cons_of_mem _ hl)

theorem of_suffix {lines' : List Text} (h : MarkedLines lines) (hsuffix : lines' <:+ lines) : MarkedLines lines' :=
  fun l hl => h l (hsuffix.subset hl)

/-- What containers leave of a line. -/
theorem through (h : MarkedLines (line :: lines)) (holders : List Holder) :
    MarkedInTags (continueThrough holders (.ofLine line)).2.rest :=
  (skipsTo_continueThrough holders (.ofLine line)).markedInTags h.head

end MarkedLines

theorem endsName_newline : Markup.EndsName '\n' := ⟨by decide +kernel, by decide, by decide⟩

theorem endsName_return : Markup.EndsName '\r' := ⟨by decide +kernel, by decide, by decide⟩

theorem endsName_bar : Markup.EndsName '|' := ⟨by decide +kernel, by decide, by decide⟩

theorem endsName_backslash : Markup.EndsName '\\' := ⟨by decide +kernel, by decide, by decide⟩

/-- A paragraph takes lines from the front. -/
theorem paragraphRest_spec (holders : List Holder) {lines : List Text} (h : MarkedLines lines) :
    MarkedLines (paragraphRest holders lines).1 ∧ (paragraphRest holders lines).2.2 <:+ lines := by
  fun_induction paragraphRest holders lines with
  | case1 => exact ⟨.nil, List.suffix_refl _⟩
  | case2 => exact ⟨.nil, List.suffix_cons ..⟩
  | case3 => exact ⟨.nil, List.suffix_refl _⟩
  | case4 => exact ⟨.nil, List.suffix_refl _⟩
  | case5 line lines n c hthrough =>
    rename_i more level rest hrest ih
    have hline := h.through holders
    obtain ⟨hmore, hleft⟩ := ih h.tail
    rw [hthrough] at hline
    rw [hrest] at hmore hleft
    exact ⟨.cons hline hmore, hleft.trans (List.suffix_cons ..)⟩

theorem suffix_fencedLines (holders : List Holder) (indent : Nat) (mark : Char) (length : Nat) (lines : List Text) :
    (fencedLines holders indent mark length lines).2 <:+ lines := by
  fun_induction fencedLines holders indent mark length lines with
  | case1 => exact List.suffix_refl _
  | case2 => exact List.suffix_refl _
  | case3 => exact List.suffix_cons ..
  | case4 =>
    rename_i hrest ih
    rw [hrest] at ih
    exact ih.trans (List.suffix_cons ..)

theorem suffix_indentedLines (holders : List Holder) (lines : List Text) :
    (indentedLines holders lines).2.2 <:+ lines := by
  fun_induction indentedLines holders lines with
  | case1 => exact List.suffix_refl _
  | case2 => exact List.suffix_refl _
  | case3 | case4 =>
    rename_i hrest _ _ ih
    rw [hrest] at ih
    exact ih.trans (List.suffix_cons ..)

/-- A block of raw markup takes lines from the front. -/
theorem htmlLines_spec (holders : List Holder) (ending : Option Text) (ended : Bool) {lines : List Text}
    (h : MarkedLines lines) :
    (∀ line ∈ (htmlLines holders ending ended lines).1, MarkedInTags line.2) ∧
      (htmlLines holders ending ended lines).2 <:+ lines := by
  fun_induction htmlLines holders ending ended lines with
  | case1 => exact ⟨nofun, List.suffix_refl _⟩
  | case2 => exact ⟨nofun, List.suffix_refl _⟩
  | case3 ended line lines n c hthrough _ more rest hrest ih =>
    have hline := h.through holders
    obtain ⟨hmore, hleft⟩ := ih h.tail
    rw [hthrough] at hline
    rw [hrest] at hmore hleft
    refine ⟨List.forall_mem_cons.mpr ⟨?_, hmore⟩, hleft.trans (List.suffix_cons ..)⟩
    exact (MarkedInTags.append_cons_iff endsName_newline).mpr ⟨hline, .of_unmarked (by decide)⟩

/-! ### Rows of tables -/

/-- Pieces in which markers stand in the names of tags alone, the first behind other text. -/
def MarkedPieces (before : Text) (pieces : List Text) : Prop :=
  ∃ first rest, pieces = first :: rest ∧ MarkedInTags (before ++ first) ∧ MarkedLines rest

theorem MarkedPieces.lines {pieces : List Text} (h : MarkedPieces [] pieces) : MarkedLines pieces := by
  obtain ⟨first, rest, rfl, hfirst, hrest⟩ := h
  exact .cons hfirst hrest

/-- A piece that a character outside names ends. -/
theorem MarkedPieces.end {b : Text} {c : Char} {rest : Text} {pieces : List Text} (hc : Markup.EndsName c)
    (h : MarkedInTags (b ++ c :: rest)) (hpieces : MarkedInTags rest → MarkedPieces [] pieces) :
    MarkedPieces b ([] :: pieces) := by
  obtain ⟨hbefore, hrest⟩ := (MarkedInTags.append_cons_iff hc).mp h
  exact ⟨[], pieces, rfl, by rwa [List.append_nil], (hpieces hrest).lines⟩

theorem marked_barPieces {b row : Text} (h : MarkedInTags (b ++ row)) :
    MarkedPieces b (barPieces row) := by
  fun_induction barPieces row generalizing b with
  | case1 => exact ⟨[], [], rfl, h, .nil⟩
  | case2 rest hrest ih =>
    obtain ⟨-, hbar⟩ := (MarkedInTags.append_cons_iff endsName_backslash).mp h
    obtain ⟨-, hafter⟩ := (MarkedInTags.append_cons_iff (t := []) endsName_bar).mp hbar
    obtain ⟨first, pieces, heq, -⟩ := ih (b := []) hafter
    cases hrest.symm.trans heq
  | case3 rest piece pieces hrest ih =>
    -- the bar is a character of the piece, and the backslash goes
    obtain ⟨hbefore, hbar⟩ := (MarkedInTags.append_cons_iff endsName_backslash).mp h
    obtain ⟨-, hafter⟩ := (MarkedInTags.append_cons_iff (t := []) endsName_bar).mp hbar
    obtain ⟨first, pieces', heq, hfirst, hpieces⟩ := ih (b := []) hafter
    obtain ⟨rfl, rfl⟩ := List.cons.inj (hrest.symm.trans heq)
    exact ⟨_, _, rfl, (MarkedInTags.append_cons_iff endsName_bar).mpr ⟨hbefore, hfirst⟩, hpieces⟩
  | case4 rest ih => exact .end endsName_bar h fun hafter => ih (b := []) hafter
  | case5 c rest _ _ hrest ih =>
    obtain ⟨first, pieces, heq, -⟩ := ih (b := b ++ [c]) (by simpa using h)
    cases hrest.symm.trans heq
  | case6 c rest _ _ piece pieces hrest ih =>
    obtain ⟨first, pieces', heq, hfirst, hpieces⟩ := ih (b := b ++ [c]) (by simpa using h)
    obtain ⟨rfl, rfl⟩ := List.cons.inj (hrest.symm.trans heq)
    exact ⟨_, _, rfl, by simpa using hfirst, hpieces⟩

theorem markedLines_rowCells {row : Text} (h : MarkedInTags row) : MarkedLines (rowCells row) := by
  have hrow := (dropWhile (p := isSpace) (by decide) row).markedInTags h
  have hbars : MarkedLines (barPieces (skipSpaces row)) := (marked_barPieces (b := []) hrow).lines
  intro cell hcell
  obtain ⟨piece, hpiece, rfl⟩ := List.mem_map.mp hcell
  have hmem : piece ∈ barPieces (skipSpaces row) := by
    split_ifs at hpiece
    · exact List.mem_of_mem_drop (List.mem_of_mem_dropLast hpiece)
    · exact List.mem_of_mem_drop hpiece
    · exact List.mem_of_mem_dropLast hpiece
    · exact hpiece
  have hpiece := (dropWhile (p := isSpace) (by decide) piece).markedInTags (hbars piece hmem)
  exact hpiece.of_initial (Text.prefix_dropEndWhile ..)

theorem markedLines_fitRow (columns : Nat) {cells : List Text} (h : MarkedLines cells) :
    MarkedLines (fitRow columns cells) := by
  intro cell hcell
  rcases List.mem_append.mp hcell with hcell | hcell
  · exact h cell (List.mem_of_mem_take hcell)
  · rw [(List.mem_replicate.mp hcell).2]
    exact .of_unmarked (by decide)

/-- A table takes lines from the front. -/
theorem tableRows_spec (holders : List Holder) (columns : Nat) {lines : List Text} (h : MarkedLines lines) :
    (∀ row ∈ (tableRows holders columns lines).1, MarkedLines row) ∧ (tableRows holders columns lines).2 <:+ lines := by
  fun_induction tableRows holders columns lines with
  | case1 => exact ⟨nofun, List.suffix_refl _⟩
  | case2 => exact ⟨nofun, List.suffix_refl _⟩
  | case3 line lines n c hthrough text cells _ rows rest hrest ih =>
    have hline := h.through holders
    obtain ⟨hrows, hleft⟩ := ih h.tail
    rw [hthrough] at hline
    rw [hrest] at hrows hleft
    have hcells := markedLines_rowCells ((Cursor.skipsTo_skipAll c).markedInTags hline)
    exact ⟨List.forall_mem_cons.mpr ⟨markedLines_fitRow columns hcells, hrows⟩, hleft.trans (List.suffix_cons ..)⟩

/-! ### The lines of a text -/

theorem marked_splitBy {p : Char → Bool} (hp : ∀ c, p c = true → Markup.EndsName c) {b t : Text}
    (h : MarkedInTags (b ++ t)) : MarkedPieces b (Text.splitBy p t) := by
  induction t generalizing b with
  | nil => exact ⟨[], [], rfl, h, .nil⟩
  | cons c t ih =>
    rw [Text.splitBy]
    split_ifs with hc
    · exact .end (hp c hc) h fun hafter => ih (b := []) hafter
    · obtain ⟨first, pieces, heq, hfirst, hpieces⟩ := ih (b := b ++ [c]) (by simpa using h)
      rw [heq]
      exact ⟨_, _, rfl, by simpa using hfirst, hpieces⟩

/-- Line ends of two characters are made one. -/
theorem marked_replace_lineEnds {b t : Text} (h : MarkedInTags (b ++ t)) :
    MarkedInTags (b ++ Text.replaceFrom "\r\n" "\n" 0 t) := by
  induction hlength : t.length using Nat.strong_induction_on generalizing b t with
  | _ n ih =>
    subst hlength
    cases t with
    | nil => exact h
    | cons c t =>
      rw [Text.replaceFrom]
      split_ifs with hend
      · rw [Bool.and_eq_true, Text.startsWith_iff] at hend
        obtain ⟨rest, hrest⟩ := hend.2
        obtain ⟨rfl, rfl⟩ : '\r' = c ∧ '\n' :: rest = t := List.cons.inj hrest
        obtain ⟨hbefore, hnewline⟩ := (MarkedInTags.append_cons_iff endsName_return).mp h
        obtain ⟨-, hafter⟩ := (MarkedInTags.append_cons_iff (t := []) endsName_newline).mp hnewline
        have hshorter : rest.length < ('\r' :: '\n' :: rest).length := Nat.lt_succ_of_lt (Nat.lt_succ_self _)
        have hmore := ih rest.length hshorter (b := []) hafter rfl
        exact (MarkedInTags.append_cons_iff endsName_newline).mpr ⟨hbefore, hmore⟩
      · have hmore := ih t.length (Nat.lt_succ_self _) (b := b ++ [c]) (t := t) (by simpa using h) rfl
        simpa using hmore

theorem markedLines_textLines {t : Text} (h : MarkedInTags t) : MarkedLines (textLines t) := by
  have hp (c : Char) (hc : (c == '\n' || c == '\r') = true) : Markup.EndsName c := by
    rcases Bool.or_eq_true_iff.mp hc with hc | hc <;> obtain rfl := eq_of_beq hc
    · exact endsName_newline
    · exact endsName_return
  have hpieces := (marked_splitBy hp (b := []) (marked_replace_lineEnds (b := []) h)).lines
  intro line hline
  unfold textLines at hline
  dsimp only at hline
  split_ifs at hline
  · exact hpieces line (List.mem_of_mem_dropLast hline)
  · exact hpieces line hline

end Markdown

end StaticSite
