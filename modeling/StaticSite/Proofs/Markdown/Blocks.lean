import StaticSite.Proofs.Markdown.Lines

/-!
# Blocks

Blocks are made of what is left of lines. Where the markers of a text stand in the names of tags alone, the events
of its blocks are orderly, whatever the containers, the link definitions and the tightness of lists.
-/
namespace StaticSite.Markdown

open Markup (MarkedInTags)

/-- A block with orderly events, under any definitions and in any list. -/
def Block.Orderly (b : Block) : Prop := ∀ links tight, Markdown.Orderly (b.events links tight)

def OrderlyBlocks (blocks : List Block) : Prop := ∀ b ∈ blocks, b.Orderly

namespace OrderlyBlocks

variable {b : Block} {blocks : List Block}

theorem nil : OrderlyBlocks [] := nofun

theorem cons (hb : b.Orderly) (h : OrderlyBlocks blocks) : OrderlyBlocks (b :: blocks) :=
  List.forall_mem_cons.mpr ⟨hb, h⟩

theorem reverse (h : OrderlyBlocks blocks) : OrderlyBlocks blocks.reverse := fun b hb => h b (List.mem_reverse.mp hb)

theorem events (h : OrderlyBlocks blocks) (links : Definitions) (tight : Bool) :
    Orderly (blockEvents links tight blocks) := by
  induction blocks with
  | nil => exact .nil
  | cons b blocks ih => exact (h b List.mem_cons_self links tight).append (ih fun b' hb' => h b' (List.mem_cons_of_mem _ hb'))

end OrderlyBlocks

theorem orderly_sourceEvents {source : Text} (h : MarkedInTags source) (links : Definitions) (task : Option Bool) :
    Orderly (sourceEvents links task source) := by
  refine Orderly.append ?_ (orderly_inlines h links).events
  cases task with
  | none => exact .nil
  | some checked => exact .single trivial

theorem orderly_rowEvents {row : Container} (hrow : row.isCode = false) {cells : List Text} (h : MarkedLines cells)
    (links : Definitions) : Orderly (rowEvents links row cells) :=
  .within hrow (.flatMap fun cell hcell => .within rfl (orderly_sourceEvents (h cell hcell) links none))

namespace Block

theorem orderly_paragraph (task : Option Bool) {source : Text} (h : MarkedInTags source) :
    (paragraph task source).Orderly := by
  intro links tight
  change Markdown.Orderly (if tight then _ else _)
  split_ifs
  · exact orderly_sourceEvents h links task
  · exact .within rfl (orderly_sourceEvents h links task)

theorem orderly_heading (level : Nat) (task : Option Bool) {source : Text} (h : MarkedInTags source) :
    (heading level task source).Orderly :=
  fun links _ => .within rfl (orderly_sourceEvents h links task)

theorem orderly_code (info body : Text) : (code info body).Orderly := by
  intro links tight
  have hcode := @Markdown.Orderly.code info body [] .nil
  rwa [List.append_nil] at hcode

theorem orderly_html {lines : List (Text × Text)} (h : ∀ line ∈ lines, MarkedInTags line.2) :
    (html lines).Orderly := by
  intro links tight
  refine .within rfl (.flatMap fun line hline => ?_)
  dsimp only
  split_ifs
  · exact .single (h line hline)
  · exact .leaf trivial (.single (h line hline))

theorem orderly_table {head : List Text} {rows : List (List Text)} (hhead : MarkedLines head)
    (hrows : ∀ row ∈ rows, MarkedLines row) : (table head rows).Orderly := by
  intro links tight
  refine .within rfl ((orderly_rowEvents rfl hhead links).append (.flatMap fun row hrow => ?_))
  exact orderly_rowEvents rfl (hrows row hrow) links

theorem orderly_rule : rule.Orderly := fun _ _ => .single trivial

theorem orderly_task (checked : Bool) : (task checked).Orderly := fun _ _ => .single trivial

end Block

/-! ## The reading of blocks -/

/-- Progress in which all blocks are orderly. -/
structure Progress.Orderly (p : Progress) : Prop where
  top : OrderlyBlocks p.top
  stack : ∀ o ∈ p.stack, OrderlyBlocks o.children

namespace Progress

variable {p : Progress}

namespace Orderly

theorem start : Progress.start.Orderly := ⟨.nil, nofun⟩

/-- What changes neither the stack nor the blocks of the top level. -/
theorem of_eq {p' : Progress} (h : p.Orderly) (htop : p'.top = p.top) (hstack : p'.stack = p.stack) : p'.Orderly :=
  ⟨htop ▸ h.top, hstack ▸ h.stack⟩

theorem add (h : p.Orderly) {b : Block} (hb : b.Orderly) : (p.add b).Orderly := by
  unfold Progress.add
  split
  · exact ⟨.cons hb h.top, h.stack⟩
  · rename_i o os hopen
    obtain ⟨ho, hos⟩ := List.forall_mem_cons.mp (hopen ▸ h.stack)
    exact ⟨h.top, List.forall_mem_cons.mpr ⟨.cons hb ho, hos⟩⟩


theorem closed {o : OpenBlock} (h : OrderlyBlocks o.children) : (Progress.closed o).Orderly := by
  intro links tight
  unfold Progress.closed
  split
  · exact .within rfl (h.reverse.events links false)
  · exact .within rfl (h.reverse.events links _)
  · exact .within rfl (h.reverse.events links tight)

theorem pop (h : p.Orderly) : p.pop.Orderly := by
  unfold Progress.pop
  split
  · exact h
  · rename_i o os hopen
    obtain ⟨ho, hos⟩ := List.forall_mem_cons.mp (hopen ▸ h.stack)
    exact add (p := { p with stack := os }) ⟨h.top, hos⟩ (closed ho)

theorem popTo (depth n : Nat) (h : p.Orderly) : (p.popTo depth n).Orderly := by
  induction n generalizing p with
  | zero => exact h
  | succ n ih =>
    rw [Progress.popTo]
    split_ifs
    · exact ih h.pop
    · exact h

theorem push (h : p.Orderly) (holder : Holder) : (p.push holder).Orderly :=
  ⟨h.top, List.forall_mem_cons.mpr ⟨.nil, h.stack⟩⟩

theorem loosen (h : p.Orderly) : p.loosen.Orderly := by
  unfold Progress.loosen
  split
  · rename_i inner outer os hopen
    obtain ⟨hinner, hrest⟩ := List.forall_mem_cons.mp (hopen ▸ h.stack)
    obtain ⟨houter, hos⟩ := List.forall_mem_cons.mp hrest
    exact ⟨h.top, List.forall_mem_cons.mpr ⟨hinner, List.forall_mem_cons.mpr ⟨houter, hos⟩⟩⟩
  · exact h

theorem finishList (h : p.Orderly) : p.finishList.Orderly := by
  unfold Progress.finishList
  dsimp only
  split
  · split_ifs
    · exact h.pop.loosen.of_eq rfl rfl
    · exact h.pop
  · split_ifs
    · exact h.loosen.of_eq rfl rfl
    · exact h

theorem continueList (h : p.Orderly) (mark : Char) : (p.continueList mark).Orderly := by
  have hfresh {q : Progress} (hq : q.Orderly) :
      ({ q.push (.list mark (mark == '.' || mark == ')')) with lastBlank := false } : Progress).Orderly :=
    (hq.push _).of_eq rfl rfl
  unfold Progress.continueList
  dsimp only
  split
  · rename_i hopen
    split_ifs
    · obtain ⟨ho, hos⟩ := List.forall_mem_cons.mp (hopen ▸ h.stack)
      exact ⟨h.top, List.forall_mem_cons.mpr ⟨ho, hos⟩⟩
    · exact h
    · exact hfresh h.finishList
  · exact hfresh h
  · exact hfresh h.finishList

theorem blankLine (h : p.Orderly) : p.blankLine.Orderly := by
  unfold Progress.blankLine
  split
  · exact h
  · split_ifs
    · exact h.pop.of_eq rfl rfl
    · exact h.of_eq rfl rfl
  · exact h.of_eq rfl rfl

end Orderly

end Progress

/-- Containers that are opened hold nothing yet but task markers, and take no brackets off the line. -/
theorem openContainers_spec {p : Progress} (h : p.Orderly) (fuel : Nat) (c : Cursor) :
    (openContainers fuel c p).2.2.Orderly ∧ c.rest.SkipsTo (openContainers fuel c p).2.1.rest := by
  induction fuel generalizing c p with
  | zero => exact ⟨h, .refl _⟩
  | succ fuel ih =>
    have hnear := Cursor.skipsTo_skip 4 c
    rw [openContainers]
    split
    rename_i missing near hskip
    rw [hskip] at hnear
    split_ifs
    · exact ⟨h, .refl _⟩
    · split
      · rename_i marker after hmarker
        have hitem := (h.continueList marker.mark).push (.item marker.indent)
        have hafter := hnear.trans (skipsTo_marker? hmarker)
        dsimp only
        split_ifs
        · exact ⟨hitem.of_eq rfl rfl, hafter⟩
        · split
          · rename_i checked next htask
            have hnext := hafter.trans (skipsTo_taskMarker? htask)
            split_ifs
            · exact ⟨(hitem.add (Block.orderly_task checked)).of_eq rfl rfl, hnext⟩
            · have hpending : Progress.Orderly { (p.continueList marker.mark).push (.item marker.indent) with
                  pendingTask := some checked } := hitem.of_eq rfl rfl
              obtain ⟨hmore, hleft⟩ := ih hpending next
              exact ⟨hmore, hnext.trans hleft⟩
          · obtain ⟨hmore, hleft⟩ := ih hitem after
            exact ⟨hmore, hafter.trans hleft⟩
      · split
        · rename_i after hquote
          obtain ⟨hmore, hleft⟩ := ih (h.finishList.push .quote) after
          exact ⟨hmore, (hnear.trans (Cursor.skipsTo_quote? hquote)).trans hleft⟩
        · exact ⟨h, .refl _⟩

theorem marked_headingText {t : Text} (h : MarkedInTags t) : MarkedInTags (headingText t) := by
  have ht := ((Text.SkipsTo.dropWhile (p := isSpace) (by decide) t).markedInTags h).of_initial
    (Text.prefix_dropEndWhile (fun c => c == ' ') _)
  unfold headingText
  dsimp only
  split_ifs
  · exact .of_unmarked (by decide)
  · exact ht.of_initial ((Text.prefix_dropEndWhile ..).trans (Text.prefix_dropEndWhile ..))
  · exact ht

theorem marked_join {lines : List Text} (h : MarkedLines lines) : MarkedInTags (Text.join ['\n'] lines) := by
  fun_induction Text.join ['\n'] lines with
  | case1 => exact .of_unmarked (by decide)
  | case2 line => exact h.head
  | case3 line next lines ih =>
    rw [List.append_assoc]
    exact (MarkedInTags.append_cons_iff endsName_newline).mpr ⟨h.head, ih h.tail⟩

theorem marked_headingBody {t : Text} (h : MarkedInTags t) {level : Nat} (hlevel : headingLevel? t = some level) :
    MarkedInTags (headingText (t.drop level)) := by
  unfold headingLevel? at hlevel
  dsimp only at hlevel
  split_ifs at hlevel
  obtain rfl := Option.some.inj hlevel
  have hsigns : '<' ∉ t.take (t.takeWhile (· == '#')).length := by
    rw [← List.prefix_iff_eq_take.mp (List.takeWhile_prefix _)]
    exact fun hmem => absurd (List.mem_takeWhile_imp hmem) (by decide)
  exact marked_headingText ((Text.SkipsTo.drop hsigns).markedInTags h)

/-- A block is made of the line and of lines after it. -/
theorem readLeaf_spec {p : Progress} (h : p.Orderly) {c : Cursor} (hc : MarkedInTags c.rest) {lines : List Text}
    (hlines : MarkedLines lines) : (readLeaf c lines p).1.Orderly ∧ (readLeaf c lines p).2 <:+ lines := by
  have hnear := (Cursor.skipsTo_skip 4 c).markedInTags hc
  unfold readLeaf
  split
  rename_i missing near hskip
  rw [hskip] at hnear
  have hp := h.finishList
  dsimp only
  split
  · exact ⟨(hp.add (Block.orderly_code _ _)).of_eq rfl rfl, suffix_indentedLines ..⟩
  split
  · -- raw markup
    rename_i ending _
    obtain ⟨hmore, hleft⟩ := htmlLines_spec p.finishList.holders ending (ending.any fun e => Text.hasPart e near.rest) hlines
    have hfirst : MarkedInTags (near.rest ++ ['\n']) :=
      (MarkedInTags.append_cons_iff endsName_newline).mpr ⟨hnear, .of_unmarked (by decide)⟩
    exact ⟨hp.add (Block.orderly_html (List.forall_mem_cons.mpr ⟨hfirst, hmore⟩)), hleft⟩
  split
  · exact ⟨hp.add Block.orderly_rule, List.suffix_refl _⟩
  split
  · rename_i level hlevel
    exact ⟨hp.add (Block.orderly_heading level none (marked_headingBody hnear hlevel)), List.suffix_refl _⟩
  split
  · exact ⟨hp.add (Block.orderly_code _ _), suffix_fencedLines ..⟩
  -- a paragraph, which may turn out to be a definition or a table
  obtain ⟨hmore, hleft⟩ := paragraphRest_spec p.finishList.holders hlines
  have hsource := marked_join (hmore.cons hnear)
  split
  · exact ⟨hp.of_eq rfl rfl, List.drop_suffix ..⟩
  have hcleared : Progress.Orderly { p.finishList with pendingTask := none } := hp.of_eq rfl rfl
  split
  · rename_i columns _
    obtain ⟨hrows, hbelow⟩ := tableRows_spec p.finishList.holders columns (hlines.of_suffix (List.drop_suffix 1 _))
    have hhead := markedLines_fitRow columns (markedLines_rowCells hnear)
    exact ⟨hcleared.add (Block.orderly_table hhead hrows), hbelow.trans (List.drop_suffix ..)⟩
  · refine ⟨hcleared.add ?_, hleft⟩
    split
    · exact Block.orderly_heading _ _ hsource
    · exact Block.orderly_paragraph _ hsource

theorem readBlock_spec {p : Progress} (h : p.Orderly) {line : Text} {lines : List Text}
    (hlines : MarkedLines (line :: lines)) : (readBlock line lines p).1.Orderly ∧ (readBlock line lines p).2 <:+ lines := by
  have hthrough := hlines.through p.holders
  unfold readBlock
  split
  rename_i n c hc
  rw [hc] at hthrough
  dsimp only
  obtain ⟨hopened, hskips⟩ := openContainers_spec (h.popTo n p.stack.length) (line.length + 1) c
  split_ifs
  · exact ⟨hopened, List.suffix_refl _⟩
  · exact ⟨hopened.blankLine.of_eq rfl rfl, List.suffix_refl _⟩
  · refine readLeaf_spec ?_ (hskips.markedInTags hthrough) hlines.tail
    exact hopened.of_eq rfl rfl

theorem orderly_readBlocks {p : Progress} (h : p.Orderly) (fuel : Nat) {lines : List Text} (hlines : MarkedLines lines) :
    (readBlocks fuel lines p).Orderly := by
  induction fuel generalizing p lines with
  | zero => exact h
  | succ fuel ih =>
    cases lines with
    | nil => exact h
    | cons line lines =>
      obtain ⟨hblock, hleft⟩ := readBlock_spec h hlines
      exact ih hblock (hlines.tail.of_suffix hleft)

/-- The events of a text in whose tags alone markers stand. -/
theorem orderly_events {t : Text} (h : MarkedInTags t) : Orderly (events t) := by
  have hblocks := orderly_readBlocks .start (textLines t).length (markedLines_textLines h)
  exact (hblocks.popTo 0 _).top.reverse.events _ false

end StaticSite.Markdown
