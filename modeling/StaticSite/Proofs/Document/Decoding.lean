import StaticSite.Document.Parser
import StaticSite.Proofs.Document.Fences
import StaticSite.Proofs.Document.Segments
import StaticSite.Proofs.Document.Tags
import StaticSite.Proofs.Markdown.Blocks

/-!
# Decoding

The markers of dotted names do not outlive the reading of a document that holds none: raw markup, code, and the
names and attributes of elements are free of them, and so is every piece of text. Where a link or an image leads and
its title are taken over from Markdown as they stand, and so is the language of a code block; markers stay in them.
-/
namespace StaticSite

open Markdown (Event Container)

/-- No marker in a node, the nodes below it left aside. Text is put together from pieces, and links, images and the
language of code are as Markdown gives them. -/
def Node.Unmarked : Node → Prop
  | html t | inlineCode t => Markup.Unmarked t
  | declarations source => Markup.Unmarked source
  | frontMatter yaml => Markup.Unmarked yaml
  | element name attributes _ => Markup.Unmarked name ∧ ∀ a ∈ attributes, a.Unmarked
  | block tag _ => Markup.Unmarked tag
  | code _ body => Markup.Unmarked body
  | _ => True

/-- Documents in whose nodes no marker is left. -/
def Document.Unmarked (doc : Document) : Prop := ∀ n ∈ Node.flattenAll doc, n.Unmarked

namespace Document.Unmarked

variable {doc doc' : Document}

theorem nil : Document.Unmarked [] := nofun

theorem append (h : Document.Unmarked doc) (h' : Document.Unmarked doc') : Document.Unmarked (doc ++ doc') := by
  intro n hn
  rw [Node.flattenAll_append] at hn
  exact (List.mem_append.mp hn).elim (h n) (h' n)

theorem of_append (h : Document.Unmarked (doc ++ doc')) : Document.Unmarked doc :=
  fun n hn => h n (by rw [Node.flattenAll_append]; exact List.mem_append_left _ hn)

theorem singleton {n : Node} (h : n.Unmarked) (hchildren : Document.Unmarked n.children) : Document.Unmarked [n] := by
  intro m hm
  rw [Node.flattenAll_singleton] at hm
  rcases List.mem_cons.mp hm with rfl | hm
  · exact h
  · exact hchildren m hm

end Document.Unmarked

/-! ## Building -/

/-- No marker in what a frame becomes, its children left aside. -/
def FrameKind.Unmarked : FrameKind → Prop
  | block tag => Markup.Unmarked tag
  | element name attributes => Markup.Unmarked name ∧ ∀ a ∈ attributes, a.Unmarked
  | link _ _ | image _ _ => True
  | code _ => False

namespace Builder

/-- Between events of text no code block is open, and no marker is left in the nodes so far. -/
structure Unmarked (b : Builder) : Prop where
  root : Document.Unmarked b.root
  frames : ∀ f ∈ b.frames, f.kind.Unmarked ∧ Document.Unmarked f.children

namespace Unmarked

variable {b : Builder}

theorem start : Builder.start.Unmarked := ⟨.nil, nofun⟩

theorem push (h : b.Unmarked) {n : Node} (hn : Document.Unmarked [n]) : (b.push n).Unmarked := by
  unfold Builder.push
  split
  · exact ⟨h.root.append hn, h.frames⟩
  · rename_i f fs hopen
    obtain ⟨⟨hkind, hchildren⟩, hfs⟩ := List.forall_mem_cons.mp (hopen ▸ h.frames)
    exact ⟨h.root, List.forall_mem_cons.mpr ⟨⟨hkind, hchildren.append hn⟩, hfs⟩⟩

theorem openKind (h : b.Unmarked) {kind : FrameKind} (hkind : kind.Unmarked) : (b.open' kind).Unmarked :=
  ⟨h.root, List.forall_mem_cons.mpr ⟨⟨hkind, .nil⟩, h.frames⟩⟩

theorem appendText {nodes : List Node} (h : Document.Unmarked nodes) (t : Text) :
    Document.Unmarked (Builder.appendText t nodes) := by
  unfold Builder.appendText
  split
  · rename_i before hlast
    rw [← List.dropLast_append_getLast? _ hlast] at h
    exact h.of_append.append (.singleton trivial .nil)
  · exact h.append (.singleton trivial .nil)

theorem pushText (h : b.Unmarked) (t : Text) : (b.pushText t).Unmarked := by
  unfold Builder.pushText
  split
  · exact ⟨appendText h.root t, h.frames⟩
  · rename_i f fs hopen
    obtain ⟨⟨hkind, hchildren⟩, hfs⟩ := List.forall_mem_cons.mp (hopen ▸ h.frames)
    split
    · rename_i hcode
      rw [hcode] at hkind
      exact hkind.elim
    · exact ⟨h.root, List.forall_mem_cons.mpr ⟨⟨hkind, appendText hchildren t⟩, hfs⟩⟩

theorem pushHtml (h : b.Unmarked) (t : Text) : (b.pushHtml t).Unmarked := by
  unfold Builder.pushHtml
  split_ifs
  · exact h
  · exact h.push (.singleton (Markup.unmarked_decodeDots t) .nil)

theorem node {f : Frame} (hkind : f.kind.Unmarked) (hchildren : Document.Unmarked f.children) :
    Document.Unmarked [f.node] := by
  unfold Frame.node
  split <;> rename_i hf <;> rw [hf] at hkind
  · exact .singleton hkind hchildren
  · exact .singleton trivial hchildren
  · exact .singleton trivial .nil
  · exact .singleton hkind hchildren
  · exact hkind.elim

theorem pop (h : b.Unmarked) : b.pop.Unmarked := by
  unfold Builder.pop
  split
  · exact h
  · rename_i f fs hopen
    obtain ⟨⟨hkind, hchildren⟩, hfs⟩ := List.forall_mem_cons.mp (hopen ▸ h.frames)
    exact push (b := ⟨fs, b.root⟩) ⟨h.root, hfs⟩ (node hkind hchildren)

theorem popMany (h : b.Unmarked) (n : Nat) : (Builder.popMany n b).Unmarked := by
  induction n generalizing b with
  | zero => exact h
  | succ n ih => exact ih h.pop

theorem markupPiece (h : b.Unmarked) {piece : Markup.Piece}
    (hpiece : ∀ tag whole, piece = .tag tag whole → Markup.Unmarked tag.name ∧ Markup.Unmarked tag.attributes) :
    (b.markupPiece piece).Unmarked := by
  unfold Builder.markupPiece
  split
  · exact h.pushHtml _
  · rename_i tag whole
    obtain ⟨hname, hattributes⟩ := hpiece tag whole rfl
    have helement := And.intro hname (Markup.unmarked_attributes hattributes)
    split_ifs
    · unfold closeElement
      split
      · exact h.popMany _
      · exact h.pushHtml whole
    · exact h.push (.singleton helement .nil)
    · exact h.openKind helement

/-- Raw markup whose markers stand in the names of tags. -/
theorem markup (h : b.Unmarked) {t : Text} (ht : Markup.MarkedInTags t) : (b.markup t).Unmarked := by
  have hpieces : ∀ piece ∈ Markup.pieces t, ∀ tag whole, piece = .tag tag whole →
      Markup.Unmarked tag.name ∧ Markup.Unmarked tag.attributes := by
    rintro piece hpiece tag whole rfl
    exact Markup.unmarked_of_mem_pieces ht hpiece
  unfold Builder.markup
  generalize Markup.pieces t = pieces at hpieces ⊢
  induction pieces generalizing b with
  | nil => exact h
  | cons piece pieces ih =>
    exact ih (h.markupPiece (hpieces piece List.mem_cons_self)) fun p hp => hpieces p (List.mem_cons_of_mem _ hp)

theorem unmarked_heading (level : Nat) : Markup.Unmarked ('h' :: Text.ofNat level) := by
  refine Markup.unmarked_of_not_mem fun hmem => ?_
  rcases List.mem_cons.mp hmem with h | hdigit
  · exact absurd h (by decide)
  · exact absurd (Nat.isDigit_of_mem_toDigits (by decide) (by decide) hdigit) (by decide)

theorem frameKind {c : Container} (hc : c.isCode = false) {kind : FrameKind} (h : frameKind? c = some kind) :
    kind.Unmarked := by
  cases c <;> cases h
  case heading level => exact unmarked_heading level
  case code info => cases hc
  case list ordered => cases ordered <;> exact Markup.unmarked_of_not_mem (by decide)
  all_goals first | trivial | exact Markup.unmarked_of_not_mem (by decide)

/-- An event that is a leaf of its own. -/
theorem leaf (h : b.Unmarked) {e : Event} (he : e.Stands) : (b.event e).Unmarked := by
  cases e with
  | enter c => exact he.elim
  | leave c => exact he.elim
  | text t => exact h.pushText _
  | code t => exact h.push (.singleton (Markup.unmarked_decodeDots t) .nil)
  | html t => exact h.markup he
  | inlineHtml t => exact h.markup he
  | softBreak => exact h.push (.singleton trivial .nil)
  | hardBreak => exact h.push (.singleton trivial .nil)
  | rule => exact h.push (.singleton trivial .nil)
  | task checked =>
    refine h.push (.singleton ?_ .nil)
    cases checked <;> exact Markup.unmarked_of_not_mem (by decide)
  | footnote label => exact he.elim
  | math source => exact he.elim

theorem enter (h : b.Unmarked) {c : Container} (hc : c.isCode = false) : (b.event (.enter c)).Unmarked := by
  simp only [event]
  split
  · rename_i kind hkind
    exact h.openKind (frameKind hc hkind)
  · exact h

theorem leave (h : b.Unmarked) (c : Container) : (b.event (.leave c)).Unmarked := by
  simp only [event]
  split_ifs
  · exact h.popMany _
  · exact h

/-- A code block is one node by the time it is left. -/
theorem foldl_code (info body : Text) (b : Builder) :
    (Markdown.within (.code info) (if body.isEmpty then [] else [.text body])).foldl event b =
      b.push (.code info (Markup.decodeDots body)) := by
  cases body <;> rfl

/-- Orderly events, from the start of a text or container to its end. -/
theorem events (h : b.Unmarked) {es : List Event} (hes : Markdown.Orderly es) : (es.foldl event b).Unmarked := by
  induction hes generalizing b with
  | nil => exact h
  | leaf he _ ih => exact ih (h.leaf he)
  | container hc _ _ ihinner ih =>
    rw [List.foldl_append, Markdown.within, List.cons_append, List.foldl_cons, List.foldl_append]
    exact ih ((ihinner (h.enter hc)).leave _)
  | @code info body es _ ih =>
    rw [List.foldl_append, foldl_code]
    exact ih (h.push (.singleton (Markup.unmarked_decodeDots body) .nil))

end Unmarked

end Builder

namespace Markdown

/-- An event whose text is decoded. -/
def Event.Decoded (e : Event) : Prop := ∀ opened, ∀ p ∈ e.pieces opened, Markup.Unmarked p.text

theorem Event.decoded_of_piece? {e : Event} (h : ∀ opened p, e.piece? opened = some p → Markup.Unmarked p.text) :
    e.Decoded := by
  intro opened p hp
  unfold Event.pieces at hp
  split_ifs at hp
  · cases hp
  · exact h opened p (Option.mem_toList.mp hp)

theorem Event.decoded_text (t : Text) : (Event.text t).Decoded :=
  decoded_of_piece? fun _ _ hp => Option.some.inj hp ▸ Markup.unmarked_decodeDots t

theorem Event.Stands.decoded {e : Event} (he : e.Stands) : e.Decoded := by
  cases e with
  | text t => exact decoded_text t
  | code t => exact decoded_of_piece? fun _ _ hp => Option.some.inj hp ▸ Markup.unmarked_decodeDots t
  | footnote label => exact he.elim
  | math source => exact he.elim
  | _ => exact decoded_of_piece? nofun

theorem decoded_within {c : Container} {es : List Event} (h : ∀ e ∈ es, e.Decoded) : ∀ e ∈ within c es, e.Decoded := by
  refine List.forall_mem_cons.mpr ⟨Event.decoded_of_piece? nofun, fun e he => ?_⟩
  rcases List.mem_append.mp he with he | he
  · exact h e he
  · exact List.mem_singleton.mp he ▸ Event.decoded_of_piece? nofun

theorem Orderly.decoded {es : List Event} (h : Orderly es) : ∀ e ∈ es, e.Decoded := by
  induction h with
  | nil => exact nofun
  | leaf he _ ih => exact List.forall_mem_cons.mpr ⟨he.decoded, ih⟩
  | container _ _ _ ihinner ih =>
    exact fun e he => (List.mem_append.mp he).elim (decoded_within ihinner e) (ih e)
  | code _ ih =>
    refine fun e he => (List.mem_append.mp he).elim (decoded_within (fun e' he' => ?_) e) (ih e)
    split_ifs at he'
    · cases he'
    · exact List.mem_singleton.mp he' ▸ Event.decoded_text _

/-- The pieces of text of orderly events hold no marker. -/
theorem Orderly.unmarked_pieces {es : List Event} (h : Orderly es) (opened : List Container) :
    ∀ p ∈ pieces opened es, Markup.Unmarked p.text := by
  have hdecoded := h.decoded
  clear h
  induction es generalizing opened with
  | nil => exact nofun
  | cons e es ih =>
    intro p hp
    rcases List.mem_append.mp hp with hp | hp
    · exact hdecoded e List.mem_cons_self opened p hp
    · exact ih _ (fun e' he' => hdecoded e' (List.mem_cons_of_mem _ he')) p hp

end Markdown

/-! ## Segments -/

namespace Segment

namespace Cutter

/-- No marker in what has been cut; the Markdown so far ends with a line. -/
structure Unmarked (c : Cutter) : Prop where
  segments : ∀ s ∈ c.segments, Markup.Unmarked s.source
  block : ∀ b ∈ c.block, Markup.Unmarked b
  markdown : ∀ t, Markup.Unmarked t → Markup.Unmarked (c.markdown ++ t)

namespace Unmarked

variable {c : Cutter}

theorem addSegment {segments : List Segment} (h : ∀ s ∈ segments, Markup.Unmarked s.source) {segment : Segment}
    (hs : Markup.Unmarked segment.source) : ∀ s ∈ segments ++ [segment], Markup.Unmarked s.source := by
  intro s hmem
  rcases List.mem_append.mp hmem with hmem | hmem
  · exact h s hmem
  · exact List.mem_singleton.mp hmem ▸ hs

theorem endMarkdown (h : c.Unmarked) : c.endMarkdown.Unmarked where
  segments := by
    have hmarkdown := h.markdown [] (by decide)
    rw [List.append_nil] at hmarkdown
    unfold Cutter.endMarkdown
    dsimp only
    split_ifs
    · exact h.segments
    · exact addSegment h.segments hmarkdown
  block := h.block
  markdown := fun _ ht => ht

theorem line (h : c.Unmarked) {line : Text} (hline : Markup.Unmarked line) : (c.line line).Unmarked := by
  cases hblock : c.block with
  | some block =>
    have hunmarked := h.block block hblock
    by_cases hblank : Text.allBlank line = true
    · rw [Cutter.line_of_blank hblock hblank]
      exact ⟨addSegment h.segments hunmarked, nofun, h.markdown⟩
    · rw [Cutter.line_of_filled hblock (by simpa using hblank)]
      refine ⟨h.segments, fun b hb => ?_, h.markdown⟩
      obtain rfl := Option.some.inj hb
      exact (Markup.unmarked_append_cons (by decide)).mpr ⟨hunmarked, hline⟩
  | none =>
    by_cases hstarts : (c.fenceAfter line).2 = true
    · rw [Cutter.line_of_starts hblock hstarts]
      refine ⟨h.endMarkdown.segments, fun b hb => ?_, h.endMarkdown.markdown⟩
      obtain rfl := Option.some.inj hb
      exact hline
    · rw [Cutter.line_of_prose hblock (by simpa using hstarts)]
      refine ⟨h.segments, h.block, fun t ht => ?_⟩
      have hsplit : c.markdown ++ line ++ ['\n'] ++ t = (c.markdown ++ line) ++ '\n' :: t := by simp
      rw [hsplit]
      exact (Markup.unmarked_append_cons (by decide)).mpr ⟨h.markdown line hline, ht⟩

theorem finish (h : c.Unmarked) : ∀ s ∈ c.finish, Markup.Unmarked s.source := by
  unfold Cutter.finish
  dsimp only
  split
  · rename_i block hblock
    have hclosed : Cutter.Unmarked { c with segments := c.segments ++ [.declarations block] } :=
      ⟨addSegment h.segments (h.block block hblock), h.block, h.markdown⟩
    exact hclosed.endMarkdown.segments
  · exact h.endMarkdown.segments

end Unmarked

end Cutter

theorem unmarked_ofBody {body : Text} (h : Markup.Unmarked body) :
    ∀ s ∈ ofBody body, Markup.Unmarked s.source := by
  have hlines : ∀ line ∈ Text.lines body, Markup.Unmarked line := fun line hline =>
    h.of_infix (Text.infix_of_mem_lines hline)
  have hstart : Cutter.start.Unmarked := ⟨nofun, nofun, fun _ ht => ht⟩
  unfold ofBody
  generalize Cutter.start = c at hstart ⊢
  generalize Text.lines body = lines at hlines ⊢
  induction lines generalizing c with
  | nil => exact hstart.finish
  | cons line lines ih =>
    exact ih _ (hstart.line (hlines line List.mem_cons_self)) fun l hl => hlines l (List.mem_cons_of_mem _ hl)

end Segment

/-! ## Documents -/

/-- The pieces of text that Markdown makes of a segment, outside images. -/
def Segment.pieces : Segment → List Leaf
  | declarations _ => []
  | markdown source => Markdown.pieces [] (Markdown.events (Markup.encodeDots source))

namespace Document

/-- The pieces of text in a document, outside images. -/
def pieces (source : Text) : List Leaf := (Segment.ofBody (Fences.cut source).body).flatMap Segment.pieces

theorem unmarked_ofSegment {segment : Segment} (h : Markup.Unmarked segment.source) :
    Document.Unmarked (ofSegment segment) ∧ WrittenBy segment.pieces (leaves (ofSegment segment)) ∧
      ∀ p ∈ segment.pieces, Markup.Unmarked p.text := by
  cases segment with
  | declarations source => exact ⟨.singleton h .nil, .nil, nofun⟩
  | markdown source =>
    have horderly : Markdown.Orderly (Markdown.events (Markup.encodeDots source)) :=
      Markdown.orderly_events (Markup.markedInTags_encodeDots h)
    refine ⟨((Builder.Unmarked.start.events horderly).popMany _).root, ?_, horderly.unmarked_pieces []⟩
    have hfollows := Builder.follows_start.events (horderly.balanced rfl).nested
    rw [List.nil_append] at hfollows
    rw [ofSegment, ofMarkdown, Builder.build, hfollows.leaves_finish]
    exact hfollows.written

theorem unmarked_ofSegments {segments : List Segment} (h : ∀ s ∈ segments, Markup.Unmarked s.source) :
    Document.Unmarked (segments.flatMap ofSegment) ∧
      WrittenBy (segments.flatMap Segment.pieces) (leaves (segments.flatMap ofSegment)) ∧
        ∀ p ∈ segments.flatMap Segment.pieces, Markup.Unmarked p.text := by
  induction segments with
  | nil => exact ⟨.nil, .nil, nofun⟩
  | cons segment segments ih =>
    obtain ⟨hnodes, hwritten, hpieces⟩ := unmarked_ofSegment (h segment List.mem_cons_self)
    obtain ⟨hmore, hwrittenMore, hpiecesMore⟩ := ih fun s hs => h s (List.mem_cons_of_mem _ hs)
    simp only [List.flatMap_cons, leaves_append]
    refine ⟨hnodes.append hmore, hwritten.append hwrittenMore, fun p hp => ?_⟩
    exact (List.mem_append.mp hp).elim (hpieces p) (hpiecesMore p)

/-- A document without markers. None is left in raw markup, code, declarations and front matter, nor in the names and
attributes of elements; its text is put together from the pieces that Markdown makes of it, and no piece holds a
marker; and the encoding of each piece of Markdown is taken back by decoding. -/
theorem unmarked_parse {source : Text} (h : Markup.Unmarked source) :
    (∀ n ∈ Node.flattenAll (parse source), n.Unmarked) ∧
      WrittenBy (pieces source) (leaves (parse source)) ∧ (∀ p ∈ pieces source, Markup.Unmarked p.text) ∧
        ∀ t, .markdown t ∈ Segment.ofBody (Fences.cut source).body → Markup.decodeDots (Markup.encodeDots t) = t := by
  obtain ⟨hyaml, hbody⟩ := Fences.infix_cut source
  have hsegments := Segment.unmarked_ofBody (h.of_infix hbody)
  obtain ⟨hnodes, hwritten, hpieces⟩ := unmarked_ofSegments hsegments
  have hfront : Document.Unmarked ((Fences.cut source).frontMatter.toList.map .frontMatter) ∧
      leaves ((Fences.cut source).frontMatter.toList.map .frontMatter) = [] := by
    cases hfound : (Fences.cut source).frontMatter with
    | none => exact ⟨.nil, rfl⟩
    | some yaml => exact ⟨.singleton (h.of_infix (hyaml yaml hfound)) .nil, rfl⟩
  refine ⟨hfront.1.append hnodes, ?_, hpieces, fun t ht => Markup.decodeDots_encodeDots (hsegments _ ht)⟩
  have hleaves : leaves (parse source) = _ := leaves_append _ _
  rw [hleaves, hfront.2, List.nil_append]
  exact hwritten

namespace DottedNames

/-- Dotted names in a tag, in code, in text and where a link leads. -/
def source : Text := "<Tabs.Tab label=\"a.b\">`<A.B>` <A.B\n</Tabs.Tab>\n\n[x](<Foo.Bar>)\n"

def elementName? : Node → Option Text
  | .element name _ _ => some name
  | _ => none

def linkTarget? : Node → Option Text
  | .link target _ _ => some target
  | _ => none

theorem element_decoded :
    Markup.Unmarked source ∧ (Node.flattenAll (parse source)).filterMap elementName? = ["Tabs.Tab".toList] ∧
      (∀ n ∈ Node.flattenAll (parse source), n.Unmarked) ∧ WrittenBy (pieces source) (leaves (parse source)) := by
  have hsource : Markup.Unmarked source := by decide +kernel
  obtain ⟨hnodes, hwritten, -⟩ := unmarked_parse hsource
  exact ⟨hsource, by decide +kernel, hnodes, hwritten⟩

/-- Where a link leads is not decoded. -/
theorem link_not_decoded :
    Markup.Unmarked "[x](<Foo.Bar>)".toList ∧
      (Node.flattenAll (parse "[x](<Foo.Bar>)")).filterMap linkTarget? = ["Foo-x2e-Bar".toList] ∧
        ¬Markup.Unmarked "Foo-x2e-Bar".toList := by
  decide +kernel

end DottedNames

end Document

end StaticSite
