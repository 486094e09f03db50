import StaticSite.Proofs.Document.Markers
import StaticSite.Proofs.Document.Nesting
import StaticSite.Proofs.Markdown.Suffixes

/-!
# The grammar of events

The events of a Markdown text are orderly: what is entered is left, around orderly events, and a code block holds at
most one piece of text. Raw markup among them is taken from the text as it is, so where the markers of a text all
stand in the names of tags, they do so in its raw markup. This module has the grammar and the inline content.
-/
namespace StaticSite.Markdown

open Markup (MarkedInTags)

variable {es es' : List Event}

/-- An event that is a leaf of its own. Markers in raw markup stand in the names of tags. -/
def Event.Stands : Event → Prop
  | enter _ | leave _ | footnote _ | math _ => False
  | html t | inlineHtml t => MarkedInTags t
  | _ => True

/-- Events that a reader can come upon, from the start of a text or container to its end. -/
inductive Orderly : List Event → Prop
  | nil : Orderly []
  | leaf {e : Event} {es : List Event} (he : e.Stands) (hes : Orderly es) : Orderly (e :: es)
  | container {c : Container} {inner es : List Event} (hc : c.isCode = false) (hinner : Orderly inner)
      (hes : Orderly es) : Orderly (within c inner ++ es)
  | code {info body : Text} {es : List Event} (hes : Orderly es) :
      Orderly (within (.code info) (if body.isEmpty then [] else [.text body]) ++ es)

namespace Orderly

theorem append (h : Orderly es) (h' : Orderly es') : Orderly (es ++ es') := by
  induction h with
  | nil => exact h'
  | leaf he _ ih => exact .leaf he ih
  | container hc hinner _ _ ih =>
    rw [List.append_assoc]
    exact .container hc hinner ih
  | code _ ih =>
    rw [List.append_assoc]
    exact .code ih

theorem flatMap {α : Type} {xs : List α} {f : α → List Event} (h : ∀ x ∈ xs, Orderly (f x)) :
    Orderly (xs.flatMap f) := by
  induction xs with
  | nil => exact .nil
  | cons x xs ih =>
    exact (h x List.mem_cons_self).append (ih fun y hy => h y (List.mem_cons_of_mem _ hy))

theorem within {c : Container} (hc : c.isCode = false) (h : Orderly es) : Orderly (within c es) := by
  have hcontainer := container hc h .nil
  rwa [List.append_nil] at hcontainer

theorem single {e : Event} (he : e.Stands) : Orderly [e] := .leaf he .nil

end Orderly

/-! ## Nesting -/

/-- Events that leave what they enter, and nothing else. -/
structure Balanced (opened : List Container) (es : List Event) : Prop where
  nested : WellNested opened es
  back : es.foldl Event.openAfter opened = opened

theorem WellNested.append {opened : List Container} (h : WellNested opened es)
    (h' : WellNested (es.foldl Event.openAfter opened) es') : WellNested opened (es ++ es') := by
  induction es generalizing opened with
  | nil => exact h'
  | cons e es ih => exact ⟨h.1, ih h.2 h'⟩

namespace Balanced

variable {opened : List Container}

theorem append (h : Balanced opened es) (h' : Balanced opened es') : Balanced opened (es ++ es') where
  nested := h.nested.append (by rw [h.back]; exact h'.nested)
  back := by rw [List.foldl_append, h.back, h'.back]

theorem leaf {e : Event} (he : e.Stands) (hopened : opened.head?.any Container.isCode = false) :
    Balanced opened [e] where
  nested := by cases e <;> first | exact he.elim | exact ⟨hopened, trivial⟩ | exact ⟨trivial, trivial⟩
  back := by cases e <;> first | exact he.elim | rfl

theorem within {c : Container} (h : Balanced (c :: opened) es) (hopened : opened.head?.any Container.isCode = false) :
    Balanced opened (within c es) where
  nested := by
    refine ⟨hopened, h.nested.append ?_⟩
    rw [h.back]
    exact ⟨rfl, trivial⟩
  back := by
    rw [Markdown.within, List.cons_append, List.foldl_cons, List.foldl_append]
    exact congrArg (fun o => [Event.leave c].foldl Event.openAfter o) h.back

end Balanced

theorem Orderly.balanced (h : Orderly es) {opened : List Container}
    (hopened : opened.head?.any Container.isCode = false) : Balanced opened es := by
  induction h generalizing opened with
  | nil => exact ⟨trivial, rfl⟩
  | leaf he _ ih => exact (Balanced.leaf he hopened).append (ih hopened)
  | @container c _ _ hc _ _ ihinner ih =>
    have hinner : Balanced (c :: opened) _ := ihinner hc
    exact (hinner.within hopened).append (ih hopened)
  | code _ ih =>
    refine Balanced.append (Balanced.within ?_ hopened) (ih hopened)
    split_ifs
    · exact ⟨trivial, rfl⟩
    · exact ⟨⟨trivial, trivial⟩, rfl⟩

/-! ## Inline content -/

/-- Inline content with orderly events. -/
def Inline.Orderly (i : Inline) : Prop := Markdown.Orderly i.events

/-- Inline content of orderly parts. -/
def OrderlyContent (content : List Inline) : Prop := ∀ i ∈ content, i.Orderly

theorem inlineEvents_eq (content : List Inline) : inlineEvents content = content.flatMap Inline.events := by
  induction content with
  | nil => rfl
  | cons i content ih => rw [inlineEvents, ih, List.flatMap_cons]

namespace OrderlyContent

variable {content content' : List Inline}

theorem events (h : OrderlyContent content) : Orderly (inlineEvents content) := by
  rw [inlineEvents_eq]
  exact .flatMap h

theorem nil : OrderlyContent [] := nofun

theorem single {i : Inline} (h : i.Orderly) : OrderlyContent [i] := fun _ hj => List.mem_singleton.mp hj ▸ h

theorem append (h : OrderlyContent content) (h' : OrderlyContent content') : OrderlyContent (content ++ content') :=
  fun i hi => (List.mem_append.mp hi).elim (h i) (h' i)

theorem reverse (h : OrderlyContent content) : OrderlyContent content.reverse :=
  fun i hi => h i (List.mem_reverse.mp hi)

end OrderlyContent

theorem Inline.orderly_text (t : Text) : (Inline.text t).Orderly := .single trivial

/-- Pairings, in which all content is orderly. -/
structure Pairing.Orderly (p : Pairing) : Prop where
  base : OrderlyContent p.base
  openers : ∀ o ∈ p.openers, OrderlyContent o.content

namespace Pairing

variable {p : Pairing}

theorem Orderly.add (h : p.Orderly) {added : List Inline} (hadded : OrderlyContent added) : (p.add added).Orderly := by
  unfold Pairing.add
  split
  · exact ⟨hadded.append h.base, h.openers⟩
  · rename_i o os hopeners
    have hos := h.openers
    rw [hopeners] at hos
    refine ⟨h.base, List.forall_mem_cons.mpr ⟨?_, fun o' ho' => hos o' (List.mem_cons_of_mem _ ho')⟩⟩
    exact hadded.append (hos o List.mem_cons_self)

theorem orderly_plainMarks (mark : Char) (n : Nat) : OrderlyContent (plainMarks mark n) :=
  fun _ hi => (List.mem_replicate.mp hi).2 ▸ Inline.orderly_text _

theorem orderly_flatten {openers : List Opener} {content : List Inline} (hopeners : ∀ o ∈ openers, OrderlyContent o.content)
    (hcontent : OrderlyContent content) : OrderlyContent (flatten openers content) := by
  induction openers generalizing content with
  | nil => exact hcontent
  | cons o os ih =>
    refine ih (fun o' ho' => hopeners o' (List.mem_cons_of_mem _ ho')) ?_
    exact (hcontent.append (hopeners o List.mem_cons_self)).append (orderly_plainMarks _ _)

theorem orderly_wrap (mark : Char) (n : Nat) {content : List Inline} (h : OrderlyContent content) :
    OrderlyContent (wrap mark n content) := by
  fun_induction wrap mark n content with
  | case1 => exact h
  | case2 content =>
    refine .single ?_
    split_ifs
    · exact .within rfl h.events
    · exact .within rfl h.events
  | case3 content n ih =>
    refine ih (.single ?_)
    split_ifs
    · exact .within rfl h.events
    · exact .within rfl h.events

/-- The openers above the one that is found, this one, and those below it. -/
theorem eq_of_split? {test : Opener → Bool} {openers above below : List Opener} {found : Opener}
    (h : split? test openers = some (above, found, below)) : openers = above ++ found :: below := by
  induction openers generalizing above with
  | nil => cases h
  | cons o os ih =>
    rw [split?] at h
    split_ifs at h
    · obtain ⟨rfl, hrest⟩ := Prod.mk.inj (Option.some.inj h)
      obtain ⟨rfl, rfl⟩ := Prod.mk.inj hrest
      rfl
    · obtain ⟨⟨above', found', below'⟩, hsplit, hfound⟩ := Option.map_eq_some_iff.mp h
      obtain ⟨rfl, hrest⟩ := Prod.mk.inj hfound
      obtain ⟨rfl, rfl⟩ := Prod.mk.inj hrest
      rw [ih hsplit]
      rfl

/-- A closing run pairs its marks with those of openers, around what stands between. -/
theorem orderly_close (mark : Char) (length : Nat) (both : Bool) (fuel left : Nat) (h : p.Orderly) :
    (close mark length both fuel left p).2.Orderly := by
  fun_induction close mark length both fuel left p with
  | case1 => exact h
  | case2 => exact h
  | case3 =>
    dsimp only
    split_ifs
    · exact ⟨h.base, h.openers⟩
    · exact h
  | case4 fuel left p _ floor visible above found _ hsplit below matched content kept p' =>
    rename_i ih
    have hvisible : ∀ o ∈ visible, OrderlyContent o.content := fun o ho => h.openers o (List.mem_of_mem_take ho)
    rw [eq_of_split? hsplit] at hvisible
    have hcontent : OrderlyContent content := by
      refine (OrderlyContent.append (orderly_flatten ?_ .nil) (hvisible found (by simp))).reverse
      exact fun o ho => hvisible o (List.mem_append_left _ ho)
    have hbelow : ∀ o ∈ below, OrderlyContent o.content := fun o ho => h.openers o (List.mem_of_mem_drop ho)
    have hkept : ∀ o ∈ kept, OrderlyContent o.content := by
      intro o ho
      simp only [kept] at ho
      split_ifs at ho
      · rcases List.mem_cons.mp ho with rfl | ho
        · exact .nil
        · exact hbelow o ho
      · exact hbelow o ho
    have hopen : Orderly ⟨kept, p.base, min p.tildeFloor below.length⟩ := ⟨h.base, hkept⟩
    exact ih (hopen.add (orderly_wrap mark matched hcontent))

end Pairing

/-- Scanned content of orderly parts. -/
def Piece.Orderly : Piece → Prop
  | node content => content.Orderly
  | run _ _ _ _ => True

theorem Pairing.orderly_step {p : Pairing} (h : p.Orderly) {piece : Piece} (hpiece : piece.Orderly) :
    (p.step piece).Orderly := by
  cases piece with
  | node content => exact h.add (.single hpiece)
  | run mark length opens closes =>
    obtain ⟨⟨left, p'⟩, hfound⟩ : ∃ found, (if closes then close mark length (opens && closes) (length + 1) length p
        else (length, p)) = found := ⟨_, rfl⟩
    have hclosed : p'.Orderly := by
      change (left, p').2.Orderly
      rw [← hfound]
      split_ifs
      · exact orderly_close _ _ _ _ _ h
      · exact h
    simp only [step, hfound]
    split_ifs
    · exact hclosed
    · exact ⟨hclosed.base, List.forall_mem_cons.mpr ⟨.nil, hclosed.openers⟩⟩
    · exact hclosed.add (orderly_plainMarks mark left)

theorem orderly_pairMarks {pieces : List Piece} (h : ∀ piece ∈ pieces, piece.Orderly) :
    OrderlyContent (pairMarks pieces) := by
  have hpaired : (pieces.foldl Pairing.step ⟨[], [], 0⟩).Orderly := by
    have hstart : Pairing.Orderly ⟨[], [], 0⟩ := ⟨.nil, nofun⟩
    generalize (⟨[], [], 0⟩ : Pairing) = p at hstart ⊢
    induction pieces generalizing p with
    | nil => exact hstart
    | cons piece pieces ih =>
      exact ih (fun q hq => h q (List.mem_cons_of_mem _ hq)) _
        (Pairing.orderly_step hstart (h piece List.mem_cons_self))
  exact ((Pairing.orderly_flatten hpaired.openers .nil).append hpaired.base).reverse

/-! ## The scan -/

/-- Scans of orderly parts. -/
structure Scan.Orderly (s : Scan) : Prop where
  pieces : ∀ piece ∈ s.pieces, piece.Orderly
  brackets : ∀ b ∈ s.brackets, ∀ piece ∈ b.before, piece.Orderly

namespace Scan

variable {s : Scan}

theorem Orderly.flush (h : s.Orderly) : s.flush.Orderly := by
  unfold Scan.flush
  split_ifs
  · exact h
  · exact ⟨List.forall_mem_cons.mpr ⟨Inline.orderly_text _, h.pieces⟩, h.brackets⟩

theorem Orderly.push (h : s.Orderly) {piece : Piece} (hpiece : piece.Orderly) : (s.push piece).Orderly :=
  ⟨List.forall_mem_cons.mpr ⟨hpiece, h.flush.pieces⟩, h.flush.brackets⟩

theorem Orderly.trimChunk (h : s.Orderly) : s.trimChunk.2.Orderly := ⟨h.pieces, h.brackets⟩

theorem Orderly.lineBreak (h : s.Orderly) (hard : Bool) : (s.lineBreak hard).Orderly := by
  have hpiece : Piece.Orderly (.node (if hard then .hardBreak else .softBreak)) := by
    split_ifs <;> exact .single trivial
  exact ⟨(h.push hpiece).pieces, (h.push hpiece).brackets⟩

theorem orderly_bracketText (b : Bracket) : (bracketText b).Orderly := Inline.orderly_text _

theorem Orderly.dropBracket {b : Bracket} {below : List Bracket} (h : s.Orderly)
    (hbrackets : ∀ b' ∈ b :: below, ∀ piece ∈ b'.before, piece.Orderly) : (s.dropBracket b below).Orderly where
  pieces := by
    intro piece hpiece
    rcases List.mem_append.mp hpiece with hpiece | hpiece
    · exact h.pieces piece hpiece
    · rcases List.mem_cons.mp hpiece with rfl | hpiece
      · exact orderly_bracketText b
      · exact hbrackets b List.mem_cons_self piece hpiece
  brackets := fun b' hb' => hbrackets b' (List.mem_cons_of_mem _ hb')

theorem Orderly.closeBracket {b : Bracket} {below : List Bracket} (h : s.Orderly)
    (hbrackets : ∀ b' ∈ b :: below, ∀ piece ∈ b'.before, piece.Orderly) (target : Target) :
    (s.closeBracket b below target).Orderly where
  pieces := by
    have hchildren := orderly_pairMarks fun piece hpiece => h.pieces piece (List.mem_reverse.mp hpiece)
    refine List.forall_mem_cons.mpr ⟨?_, hbrackets b List.mem_cons_self⟩
    change Inline.Orderly _
    split_ifs
    · exact .within rfl hchildren.events
    · exact .within rfl hchildren.events
  brackets := by
    have hbelow := fun b' hb' => hbrackets b' (List.mem_cons_of_mem b hb')
    unfold Scan.closeBracket
    dsimp only
    split_ifs
    · exact hbelow
    · intro b' hb'
      obtain ⟨o, ho, rfl⟩ := List.mem_map.mp hb'
      exact hbelow o ho

/-- After a closing bracket, with what it leaves over. -/
theorem Orderly.closing (h : s.Orderly) (links : Definitions) (rest : Text) :
    (s.closing links rest).1.Orderly ∧ (s.closing links rest).2 <:+ rest := by
  unfold Scan.closing
  split
  · exact ⟨⟨h.pieces, h.brackets⟩, List.suffix_refl _⟩
  · rename_i b below hopen
    have hbrackets := hopen ▸ h.brackets
    dsimp only
    split
    · have hdropped := h.flush.dropBracket hbrackets
      exact ⟨⟨hdropped.pieces, hdropped.brackets⟩, List.suffix_refl _⟩
    · rename_i target next hfound
      split_ifs at hfound
      have hclosed := h.flush.closeBracket hbrackets target
      exact ⟨⟨hclosed.pieces, hclosed.brackets⟩, suffix_of_target? hfound⟩

theorem orderly_dropBrackets {brackets : List Bracket} {pieces : List Piece}
    (hbrackets : ∀ b ∈ brackets, ∀ piece ∈ b.before, piece.Orderly) (hpieces : ∀ piece ∈ pieces, piece.Orderly) :
    ∀ piece ∈ dropBrackets brackets pieces, piece.Orderly := by
  induction brackets generalizing pieces with
  | nil => exact hpieces
  | cons b below ih =>
    refine ih (fun b' hb' => hbrackets b' (List.mem_cons_of_mem _ hb')) fun piece hpiece => ?_
    rcases List.mem_append.mp hpiece with hpiece | hpiece
    · exact hpieces piece hpiece
    · rcases List.mem_cons.mp hpiece with rfl | hpiece
      · exact orderly_bracketText b
      · exact hbrackets b List.mem_cons_self piece hpiece

theorem Orderly.finish (h : s.Orderly) : OrderlyContent s.finish := by
  have hflushed := h.trimChunk.flush
  refine orderly_pairMarks fun piece hpiece => ?_
  exact orderly_dropBrackets hflushed.brackets hflushed.pieces piece (List.mem_reverse.mp hpiece)

end Scan

theorem orderly_scan {source : Text} (hsource : MarkedInTags source) (links : Definitions) (fuel : Nat) (rest : Text)
    (s : Scan) (hrest : rest <:+ source) (hs : s.Orderly) : OrderlyContent (scan links fuel rest s) := by
  induction fuel generalizing rest s with
  | zero => exact hs.finish
  | succ fuel ih =>
    cases rest with
    | nil => exact hs.finish
    | cons c rest =>
      have hnext : rest <:+ source := suffix_of_cons hrest
      have hplain : OrderlyContent (scan links fuel rest (s.char c)) := ih _ _ hnext ⟨hs.pieces, hs.brackets⟩
      have hpush {piece : Piece} (hpiece : piece.Orderly) (last : Char) : ((s.push piece).passed last).Orderly :=
        ⟨(hs.push hpiece).pieces, (hs.push hpiece).brackets⟩
      rw [scan.eq_def]
      dsimp only
      split
      · exact ih _ _ ((List.dropWhile_suffix _).trans hnext) (hs.trimChunk.lineBreak _)
      · split
        · exact ih _ _ ((List.dropWhile_suffix _).trans (suffix_of_cons hnext)) (hs.lineBreak true)
        · split_ifs
          · exact ih _ _ (suffix_of_cons hnext) ⟨hs.pieces, hs.brackets⟩
          · exact hplain
        · exact hplain
      · split
        · rename_i hcode
          refine ih _ _ ((suffix_of_codeEnd? hcode).trans ((List.drop_suffix ..).trans hrest)) (hpush ?_ _)
          exact .single trivial
        · exact ih _ _ ((List.drop_suffix ..).trans hrest) ⟨hs.pieces, hs.brackets⟩
      · split
        · rename_i hlink
          refine ih _ _ ((suffix_of_autolink? hlink).trans hnext) (hpush ?_ _)
          exact .within rfl (.single trivial)
        · split
          · -- raw markup, as it stands in the source behind a bracket
            rename_i hmarkup
            refine ih _ _ ((suffix_of_markup? hmarkup).trans hnext) (hpush ?_ _)
            obtain ⟨before, hbefore⟩ := hrest
            rw [← hbefore] at hsource
            exact .single (hsource.of_bracket.of_initial (List.take_prefix ..))
          · exact hplain
      · split
        · refine ih _ _ (suffix_of_cons hnext) ⟨nofun, ?_⟩
          exact List.forall_mem_cons.mpr ⟨hs.flush.pieces, hs.flush.brackets⟩
        · exact hplain
      · refine ih _ _ hnext ⟨nofun, ?_⟩
        exact List.forall_mem_cons.mpr ⟨hs.flush.pieces, hs.flush.brackets⟩
      · obtain ⟨hclosing, hleft⟩ := hs.closing links rest
        exact ih _ _ (hleft.trans hnext) hclosing
      · split
        · rename_i hentity
          refine ih _ _ ((suffix_of_entity? hentity).trans hnext) (hpush ?_ _)
          exact Inline.orderly_text _
        · exact hplain
      · split_ifs
        · refine ih _ _ ((List.drop_suffix ..).trans hrest) (hpush ?_ c)
          trivial
        · exact ih _ _ ((List.drop_suffix ..).trans hrest) ⟨hs.pieces, hs.brackets⟩
        · exact hplain

/-- The inline content of a text in whose tags alone markers stand. -/
theorem orderly_inlines {source : Text} (hsource : MarkedInTags source) (links : Definitions) :
    OrderlyContent (inlines links source) :=
  orderly_scan hsource links _ _ _ (List.suffix_refl _) ⟨nofun, nofun⟩

end StaticSite.Markdown
