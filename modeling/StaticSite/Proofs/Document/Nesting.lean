import Mathlib.Data.List.Infix
import StaticSite.Proofs.Document.Leaves

/-!
# Markdown containers and component tags

Component tags open and close frames in any order, and share one stack with the Markdown containers. However
they stand, leaving a container closes the frame of this container and no other one, and every piece of text
finds its place in the tree, in order. A tree is followed from event to event: what each event does to the frames
and to the leaves, and by induction what a whole sequence of events does.
-/
namespace StaticSite

open Markdown (Event Container)

/-! ## Events in containers -/

namespace Markdown

namespace Container

def isCode : Container → Bool
  | code _ => true
  | _ => false

def isImage : Container → Bool
  | image _ => true
  | _ => false

end Container

namespace Event

/-- The open containers after an event, innermost first. -/
def openAfter (opened : List Container) : Event → List Container
  | enter c => c :: opened
  | leave _ => opened.tail
  | _ => opened

/-- Only the innermost container can be left, and only text stands directly in a code block. -/
def Fits (opened : List Container) : Event → Prop
  | leave c => opened.head? = some c
  | text _ => True
  | _ => opened.head?.any Container.isCode = false

/-- The text that an event stands for. -/
def piece? (opened : List Container) : Event → Option Leaf
  | text t => some ⟨if opened.head?.any Container.isCode then .codeBlock else .prose, Markup.decodeDots t⟩
  | code t => some ⟨.inlineCode, Markup.decodeDots t⟩
  | footnote label => some ⟨.prose, "[^" ++ label ++ "]"⟩
  | math source => some ⟨.prose, source⟩
  | _ => none

/-- The text that an event stands for outside images, which have no text in them but a description. -/
def pieces (opened : List Container) (e : Event) : List Leaf :=
  if opened.any Container.isImage then [] else (e.piece? opened).toList

end Event

/-- Events that are read while some containers are open leave what they enter, innermost first. What is entered
may also stay open. -/
def WellNested : List Container → List Event → Prop
  | _, [] => True
  | opened, e :: es => e.Fits opened ∧ WellNested (e.openAfter opened) es

/-- The text that some events stand for, outside images. -/
def pieces : List Container → List Event → List Leaf
  | _, [] => []
  | opened, e :: es => e.pieces opened ++ pieces (e.openAfter opened) es

theorem WellNested.of_append {opened : List Container} {es more : List Event}
    (h : WellNested opened (es ++ more)) : WellNested opened es := by
  induction es generalizing opened with
  | nil => trivial
  | cons e es ih => exact ⟨h.1, ih h.2⟩

end Markdown

/-! ## Frames -/

namespace FrameKind

def isElement : FrameKind → Bool
  | element _ _ => true
  | _ => false

def isCode : FrameKind → Bool
  | code _ => true
  | _ => false

def isImage : FrameKind → Bool
  | image _ _ => true
  | _ => false

theorem isImage_of_isElement {k : FrameKind} (h : k.isElement = true) : k.isImage = false := by
  cases k <;> first | rfl | cases h

end FrameKind

namespace Builder

variable {b : Builder}

/-- What is open, innermost first. -/
def kinds (b : Builder) : List FrameKind := b.frames.map Frame.kind

theorem kinds_push (n : Node) (b : Builder) : (b.push n).kinds = b.kinds := by
  unfold push kinds
  cases b.frames <;> rfl

theorem kinds_pushText (t : Text) (b : Builder) : (b.pushText t).kinds = b.kinds := by
  unfold pushText kinds
  split
  · rw [‹b.frames = []›]
  · split <;> simp [‹b.frames = _›]

theorem kinds_pushProse (t : Text) (b : Builder) : (b.pushProse t).kinds = b.kinds := by
  unfold pushProse kinds
  cases b.frames <;> rfl

theorem kinds_pop (b : Builder) : b.pop.kinds = b.kinds.tail := by
  unfold pop
  cases hframes : b.frames with
  | nil => simp [kinds, hframes]
  | cons f fs =>
    rw [kinds, kinds, hframes]
    exact kinds_push ..

theorem kinds_popMany (n : Nat) (b : Builder) : (popMany n b).kinds = b.kinds.drop n := by
  induction n generalizing b with
  | zero => rfl
  | succ n ih => rw [popMany, ih, kinds_pop, List.drop_tail]

/-- Closing a container closes its frame and the elements above it. -/
theorem kinds_closeContainer {elements ks : List FrameKind} {k : FrameKind} (hkinds : b.kinds = elements ++ k :: ks)
    (helements : ∀ e ∈ elements, e.isElement = true) (hk : k.isElement = false) : b.closeContainer.kinds = ks := by
  have hopen : b.openElements = elements.length := by
    have htake : b.kinds.takeWhile FrameKind.isElement = (b.frames.takeWhile Frame.isElement).map Frame.kind :=
      List.takeWhile_map ..
    rw [openElements, ← List.length_map Frame.kind, ← htake, hkinds, List.takeWhile_append_of_pos helements,
      List.takeWhile_cons_of_neg (by simp [hk]), List.append_nil]
  rw [closeContainer, kinds_popMany, hopen, hkinds, ← List.drop_drop, List.drop_left, List.drop_one, List.tail_cons]

/-- Outside a code block text is prose. -/
theorem pushText_eq_pushProse (hcode : b.kinds.head?.any FrameKind.isCode = false) (t : Text) :
    b.pushText t = b.pushProse t := by
  unfold Builder.pushText Builder.pushProse
  cases hframes : b.frames with
  | nil => rfl
  | cons f fs =>
    have hkind : f.kind.isCode = false := by simpa [kinds, hframes] using hcode
    cases hf : f.kind with
    | code language => rw [hf] at hkind; cases hkind
    | _ => simp only [hf]

/-! ### The text in frames -/

end Builder

namespace Frame

/-- The leaves of a frame as it stands. -/
def leaves (f : Frame) : List Leaf :=
  match f.kind with
  | .code _ => [⟨.codeBlock, f.text⟩]
  | _ => Document.leaves f.children

theorem leaves_of_not_code {f : Frame} (h : f.kind.isCode = false) : f.leaves = Document.leaves f.children := by
  unfold leaves
  cases hkind : f.kind with
  | code language => rw [hkind] at h; cases h
  | _ => rfl

/-- A closed frame keeps its leaves, but for those of an image. -/
theorem leaves_node (f : Frame) :
    Document.leaves [f.node] = if f.kind.isImage then [] else f.leaves := by
  rw [Document.leaves_singleton]
  unfold node leaves
  cases f.kind <;> rfl

end Frame

namespace Builder

variable {b : Builder} {opened : List Container} {ps : List Leaf}

/-- The leaves of frames over the finished nodes. No leaf is inside an image. -/
def leavesOf (root : List Node) : List Frame → List Leaf
  | [] => Document.leaves root
  | f :: fs => leavesOf root fs ++ if (f :: fs).any (·.kind.isImage) then [] else f.leaves

def leaves (b : Builder) : List Leaf := leavesOf b.root b.frames

/-- What some leaves add where the frames are open. -/
def shown (b : Builder) (ls : List Leaf) : List Leaf := if b.kinds.any FrameKind.isImage then [] else ls

theorem any_frames (b : Builder) : b.frames.any (·.kind.isImage) = b.kinds.any FrameKind.isImage := by
  rw [kinds, List.any_map]
  rfl

theorem leavesOf_cons {f : Frame} (hcode : f.kind.isCode = false) (root : List Node) (fs : List Frame) :
    leavesOf root (f :: fs) =
      leavesOf root fs ++ if f.kind.isImage || fs.any (·.kind.isImage) then [] else Document.leaves f.children := by
  rw [leavesOf, Frame.leaves_of_not_code hcode, List.any_cons]

theorem leavesOf_cons_code {f : Frame} {language : Text} (hcode : f.kind = .code language) (root : List Node)
    (fs : List Frame) :
    leavesOf root (f :: fs) =
      leavesOf root fs ++ if fs.any (·.kind.isImage) then [] else [⟨.codeBlock, f.text⟩] := by
  have himage : f.kind.isImage = false := by rw [hcode]; rfl
  have hleaves : f.leaves = [⟨.codeBlock, f.text⟩] := by rw [Frame.leaves, hcode]
  rw [leavesOf, List.any_cons, himage, hleaves, Bool.false_or]

theorem leaves_push (hcode : b.kinds.head?.any FrameKind.isCode = false) (n : Node) :
    (b.push n).leaves = b.leaves ++ b.shown (Document.leaves [n]) := by
  unfold push
  cases hframes : b.frames with
  | nil => simp [leaves, leavesOf, shown, kinds, hframes, Document.leaves_append]
  | cons f fs =>
    have hkind : f.kind.isCode = false := by simpa [kinds, hframes] using hcode
    refine (leavesOf_cons (f := ⟨f.kind, f.children ++ [n], f.text⟩) hkind b.root fs).trans ?_
    rw [leaves, shown, ← any_frames, hframes, leavesOf_cons hkind, List.any_cons]
    split_ifs
    · rw [List.append_nil, List.append_nil]
    · rw [Document.leaves_append, List.append_assoc]

theorem leaves_pop (hcode : ∀ k ∈ b.kinds.tail, k.isCode = false) : b.pop.leaves = b.leaves := by
  unfold pop
  cases hframes : b.frames with
  | nil => rfl
  | cons f fs =>
    have htail : kinds ⟨fs, b.root⟩ = b.kinds.tail := by simp [kinds, hframes]
    have hhead : (kinds ⟨fs, b.root⟩).head?.any FrameKind.isCode = false := by
      rw [htail, Option.any_eq_false]
      exact fun k hk => by simpa using hcode k (List.mem_of_mem_head? hk)
    have hpush := leaves_push hhead f.node
    refine hpush.trans ?_
    simp only [leaves, leavesOf, shown, ← any_frames, hframes, Frame.leaves_node, List.any_cons]
    by_cases himage : f.kind.isImage = true <;> simp [himage]

theorem leaves_popMany (n : Nat) (hcode : ∀ k ∈ b.kinds.tail, k.isCode = false) :
    (popMany n b).leaves = b.leaves := by
  induction n generalizing b with
  | zero => rfl
  | succ n ih =>
    rw [popMany, ih, leaves_pop hcode]
    rw [kinds_pop]
    exact fun k hk => hcode k (List.mem_of_mem_tail hk)

/-- Text that is added to some nodes writes a piece after their leaves, or at the end of the last. -/
theorem writtenBy_appendText {base : List Leaf} {nodes : List Node}
    (h : WrittenBy ps (base ++ Document.leaves nodes)) (t : Text) :
    WrittenBy (ps ++ [⟨.prose, t⟩]) (base ++ Document.leaves (appendText t nodes)) := by
  unfold appendText
  split
  · rename_i before hlast
    have hnodes : nodes = nodes.dropLast ++ [.text before] := by
      rw [List.dropLast_append_getLast? _ hlast]
    rw [hnodes, Document.leaves_append, ← List.append_assoc] at h
    rw [Document.leaves_append, ← List.append_assoc]
    exact h.join nofun
  · rw [Document.leaves_append, ← List.append_assoc]
    exact h.append (.single _)

/-! ## Following a tree from event to event -/

/-- The frames of the containers are those that are open, in order, and the pieces met so far are written. -/
structure Follows (b : Builder) (opened : List Container) (ps : List Leaf) : Prop where
  containers : b.kinds.filter (!·.isElement) = opened.filterMap frameKind?
  innermost : b.kinds.head?.any FrameKind.isCode = opened.head?.any Container.isCode
  outerKinds : ∀ k ∈ b.kinds.tail, k.isCode = false
  outerContainers : ∀ c ∈ opened.tail, c.isCode = false
  written : WrittenBy ps b.leaves

theorem follows_start : Follows start [] [] := ⟨rfl, rfl, nofun, nofun, .nil⟩

namespace Follows

theorem isImage_of_frameKind? {c : Container} {k : FrameKind} (h : frameKind? c = some k) :
    k.isImage = c.isImage := by
  cases c <;> first | cases h; rfl | cases h

theorem isCode_of_frameKind? {c : Container} {k : FrameKind} (h : frameKind? c = some k) :
    k.isCode = c.isCode := by
  cases c <;> first | cases h; rfl | cases h

theorem isElement_of_frameKind? {c : Container} {k : FrameKind} (h : frameKind? c = some k) :
    k.isElement = false := by
  cases c <;> first | cases h; rfl | cases h

/-- An image is open among the frames just when it is among the containers. -/
theorem any_isImage (h : b.Follows opened ps) :
    b.kinds.any FrameKind.isImage = opened.any Container.isImage := by
  rw [Bool.eq_iff_iff, List.any_eq_true, List.any_eq_true]
  constructor
  · rintro ⟨k, hk, himage⟩
    have helement : (!k.isElement) = true := by
      cases helement : k.isElement with
      | false => rfl
      | true => rw [FrameKind.isImage_of_isElement helement] at himage; cases himage
    have hmem : k ∈ opened.filterMap frameKind? := h.containers ▸ List.mem_filter.mpr ⟨hk, helement⟩
    obtain ⟨c, hc, hkind⟩ := List.mem_filterMap.mp hmem
    exact ⟨c, hc, by rw [← isImage_of_frameKind? hkind, himage]⟩
  · rintro ⟨c, hc, himage⟩
    cases c with
    | image target =>
      have hmem : .image target.url target.title ∈ opened.filterMap frameKind? :=
        List.mem_filterMap.mpr ⟨_, hc, rfl⟩
      rw [← h.containers] at hmem
      exact ⟨_, List.mem_of_mem_filter hmem, rfl⟩
    | _ => cases himage

theorem no_code (h : b.Follows opened ps) (hcode : opened.head?.any Container.isCode = false) :
    ∀ k ∈ b.kinds, k.isCode = false := by
  have hhead := h.innermost.trans hcode
  have htail := h.outerKinds
  cases hkinds : b.kinds with
  | nil => exact nofun
  | cons k ks =>
    rw [hkinds] at hhead htail
    exact List.forall_mem_cons.mpr ⟨hhead, htail⟩

/-- What leaves the frames as they are leaves open what is open. -/
theorem of_kinds {b' : Builder} {ps' : List Leaf} (h : b.Follows opened ps) (hkinds : b'.kinds = b.kinds)
    (hwritten : WrittenBy ps' b'.leaves) : b'.Follows opened ps' where
  containers := by rw [hkinds]; exact h.containers
  innermost := by rw [hkinds]; exact h.innermost
  outerKinds := by rw [hkinds]; exact h.outerKinds
  outerContainers := h.outerContainers
  written := hwritten

/-- A node without leaves changes nothing. -/
theorem push (h : b.Follows opened ps) (hcode : opened.head?.any Container.isCode = false) {n : Node}
    (hn : Document.leaves [n] = []) : (b.push n).Follows opened ps := by
  refine h.of_kinds (kinds_push n b) ?_
  have hshown : b.shown [] = [] := by simp [shown]
  rw [leaves_push (h.innermost.trans hcode), hn, hshown, List.append_nil]
  exact h.written

theorem pushHtml (h : b.Follows opened ps) (hcode : opened.head?.any Container.isCode = false) (t : Text) :
    (b.pushHtml t).Follows opened ps := by
  unfold Builder.pushHtml
  split_ifs
  · exact h
  · exact h.push hcode rfl

/-- Elements that are closed while they are above all containers. -/
theorem popElements {d : Nat} (h : b.Follows opened ps) (hcode : opened.head?.any Container.isCode = false)
    (helements : ∀ k ∈ b.kinds.take d, k.isElement = true) : (popMany d b).Follows opened ps where
  containers := by
    have htake : (b.kinds.take d).filter (!·.isElement) = [] :=
      List.filter_eq_nil_iff.mpr fun k hk => by simp [helements k hk]
    have hcontainers := h.containers
    rw [← List.take_append_drop d b.kinds, List.filter_append, htake, List.nil_append] at hcontainers
    rw [kinds_popMany]
    exact hcontainers
  innermost := by
    rw [hcode, kinds_popMany, Option.any_eq_false]
    intro k hk
    simpa using h.no_code hcode k (List.mem_of_mem_drop (List.mem_of_mem_head? hk))
  outerKinds := by
    rw [kinds_popMany]
    exact fun k hk => h.no_code hcode k (List.mem_of_mem_drop (List.mem_of_mem_tail hk))
  outerContainers := h.outerContainers
  written := by
    rw [leaves_popMany d h.outerKinds]
    exact h.written

theorem isElement_of_depthOf? {name : Text} {frames : List Frame} {d : Nat} (h : depthOf? name frames = some d) :
    ∀ k ∈ (frames.map Frame.kind).take d, k.isElement = true := by
  induction frames generalizing d with
  | nil => cases h
  | cons f fs ih =>
    rw [depthOf?] at h
    split at h
    · rename_i n attributes hkind
      rw [List.map_cons, hkind]
      split_ifs at h with hname
      · obtain rfl := Option.some.inj h
        simp [FrameKind.isElement]
      · obtain ⟨d, hd, rfl⟩ := Option.map_eq_some_iff.mp h
        rw [List.take_succ_cons]
        exact List.forall_mem_cons.mpr ⟨rfl, ih hd⟩
    · cases h

theorem markupPiece (h : b.Follows opened ps) (hcode : opened.head?.any Container.isCode = false)
    (piece : Markup.Piece) : (b.markupPiece piece).Follows opened ps := by
  unfold Builder.markupPiece
  split
  · exact h.pushHtml hcode _
  · rename_i tag whole
    split_ifs
    · -- a closing tag closes elements alone, or is markup
      unfold closeElement
      split
      · rename_i depth hdepth
        exact h.popElements hcode (isElement_of_depthOf? hdepth)
      · exact h.pushHtml hcode whole
    · exact h.push hcode rfl
    · have hwritten : (b.open' (.element tag.name (Markup.attributes tag.attributes))).leaves = b.leaves := by
        simp only [open', leaves, leavesOf, Frame.ofKind, Frame.leaves, Document.leaves_nil, ite_self, List.append_nil]
      refine ⟨h.containers, ?_, ?_, h.outerContainers, ?_⟩
      · rw [hcode]
        rfl
      · exact h.no_code hcode
      · rw [hwritten]
        exact h.written

theorem markup (h : b.Follows opened ps) (hcode : opened.head?.any Container.isCode = false) (t : Text) :
    (b.markup t).Follows opened ps := by
  unfold Builder.markup
  induction Markup.pieces t generalizing b with
  | nil => exact h
  | cons piece pieces ih => exact ih (h.markupPiece hcode piece)

/-- What is shown of a piece depends on the open containers. -/
theorem shown_eq (h : b.Follows opened ps) {e : Event} {l : Leaf} (hpiece : e.piece? opened = some l) :
    b.shown [l] = e.pieces opened := by
  rw [shown, h.any_isImage, Event.pieces, hpiece]
  rfl

/-- Text in prose. -/
theorem pushProse (h : b.Follows opened ps) (hcode : opened.head?.any Container.isCode = false) (t : Text) :
    (b.pushProse t).Follows opened (ps ++ b.shown [⟨.prose, t⟩]) := by
  refine h.of_kinds (kinds_pushProse t b) ?_
  have hwritten := h.written
  have hhead := h.innermost.trans hcode
  unfold Builder.pushProse
  cases hframes : b.frames with
  | nil =>
    have hshown : b.shown [⟨.prose, t⟩] = [⟨.prose, t⟩] := by simp [shown, kinds, hframes]
    rw [hshown]
    simp only [leaves, hframes, leavesOf] at hwritten ⊢
    have hbase : WrittenBy ps ([] ++ Document.leaves b.root) := hwritten
    exact writtenBy_appendText hbase t
  | cons f fs =>
    have hkind : f.kind.isCode = false := by simpa [kinds, hframes] using hhead
    rw [leaves, hframes, leavesOf_cons hkind] at hwritten
    change WrittenBy _ (leavesOf b.root (⟨f.kind, appendText t f.children, f.text⟩ :: fs))
    rw [shown, ← any_frames, hframes, List.any_cons,
      leavesOf_cons (f := ⟨f.kind, appendText t f.children, f.text⟩) hkind]
    split_ifs at hwritten ⊢
    · rw [List.append_nil]
      exact hwritten
    · exact writtenBy_appendText hwritten t

/-- Text in a code block. -/
theorem pushText (h : b.Follows opened ps) (t : Text) :
    (b.pushText t).Follows opened
      (ps ++ b.shown [⟨if opened.head?.any Container.isCode then .codeBlock else .prose, t⟩]) := by
  cases hcode : opened.head?.any Container.isCode with
  | false =>
    rw [pushText_eq_pushProse (h.innermost.trans hcode)]
    exact h.pushProse hcode t
  | true =>
    refine h.of_kinds (kinds_pushText t b) ?_
    have hhead := h.innermost.trans hcode
    have hwritten := h.written
    unfold Builder.pushText
    cases hframes : b.frames with
    | nil => simp [kinds, hframes] at hhead
    | cons f fs =>
      have hkind : f.kind.isCode = true := by simpa [kinds, hframes] using hhead
      cases hf : f.kind with
      | code language =>
        have himage : f.kind.isImage = false := by rw [hf]; rfl
        rw [leaves, hframes, leavesOf_cons_code hf] at hwritten
        simp only [hf]
        change WrittenBy _ (leavesOf b.root (⟨.code language, f.children, f.text ++ t⟩ :: fs))
        rw [shown, ← any_frames, hframes, List.any_cons, himage, Bool.false_or,
          leavesOf_cons_code (f := ⟨.code language, f.children, f.text ++ t⟩) rfl]
        split_ifs at hwritten ⊢
        · rw [List.append_nil]
          exact hwritten
        · exact hwritten.join nofun
      | _ => rw [hf] at hkind; cases hkind

theorem enter (h : b.Follows opened ps) {c : Container} (hcode : opened.head?.any Container.isCode = false) :
    (b.event (.enter c)).Follows (c :: opened) ps := by
  have hopened : ∀ d ∈ opened, d.isCode = false := by
    cases opened with
    | nil => exact nofun
    | cons d ds => exact List.forall_mem_cons.mpr ⟨hcode, h.outerContainers⟩
  cases hkind : frameKind? c with
  | none =>
    obtain rfl : c = .html := by cases c <;> first | rfl | cases hkind
    exact ⟨h.containers, h.innermost.trans hcode, h.outerKinds, hopened, h.written⟩
  | some k =>
    have hevent : b.event (.enter c) = b.open' k := by simp only [event, hkind]
    have hkinds : (b.open' k).kinds = k :: b.kinds := rfl
    rw [hevent]
    refine ⟨?_, ?_, h.no_code hcode, hopened, ?_⟩
    · rw [hkinds, List.filterMap_cons_some hkind, List.filter_cons_of_pos, h.containers]
      simp [isElement_of_frameKind? hkind]
    · exact isCode_of_frameKind? hkind
    · -- a code block begins a leaf, which is empty at first
      simp only [open', leaves, leavesOf, Frame.ofKind, Frame.leaves]
      split_ifs
      · rw [List.append_nil]
        exact h.written
      · cases k with
        | code language =>
          rw [← List.append_nil ps]
          exact h.written.append .emptyBlock
        | _ =>
          rw [Document.leaves_nil, List.append_nil]
          exact h.written

/-- Leaving a container closes its frame, and the elements above it. -/
theorem leave (h : b.Follows opened ps) {c : Container} (hc : opened.head? = some c) :
    (b.event (.leave c)).Follows opened.tail ps := by
  obtain ⟨rest, rfl⟩ : ∃ rest, opened = c :: rest := by
    cases opened with
    | nil => cases hc
    | cons d rest => exact ⟨rest, by rw [Option.some.inj hc]⟩
  have hrest : rest.head?.any Container.isCode = false := by
    rw [Option.any_eq_false]
    exact fun d hd => by simpa using h.outerContainers d (List.mem_of_mem_head? hd)
  have houter : ∀ d ∈ rest.tail, d.isCode = false := fun d hd => h.outerContainers d (List.mem_of_mem_tail hd)
  cases hkind : frameKind? c with
  | none =>
    obtain rfl : c = .html := by cases c <;> first | rfl | cases hkind
    exact ⟨h.containers, h.innermost.trans hrest.symm, h.outerKinds, houter, h.written⟩
  | some k =>
    have hevent : b.event (.leave c) = b.closeContainer := by simp [event, hkind]
    have hcontainers := h.containers
    rw [List.filterMap_cons_some hkind, List.filter_eq_cons_iff] at hcontainers
    obtain ⟨elements, ks, hkinds, helements, hk, hks⟩ := hcontainers
    have hleft : b.closeContainer.kinds = ks :=
      kinds_closeContainer hkinds (fun e he => by simpa using helements e he) (by simpa using hk)
    have hsubset : ∀ k ∈ ks, k.isCode = false := by
      intro k' hk'
      refine h.outerKinds k' ?_
      rw [hkinds]
      cases elements with
      | nil => exact hk'
      | cons e es => simp [hk']
    rw [hevent]
    refine ⟨by rw [hleft]; exact hks, ?_, ?_, houter, ?_⟩
    · rw [List.tail_cons, hrest, hleft, Option.any_eq_false]
      exact fun k' hk' => by simpa using hsubset k' (List.mem_of_mem_head? hk')
    · rw [hleft]
      exact fun k' hk' => hsubset k' (List.mem_of_mem_tail hk')
    · rw [closeContainer, leaves_popMany _ h.outerKinds]
      exact h.written

/-- What one event does to the frames and leaves. -/
theorem event (h : b.Follows opened ps) {e : Event} (hfits : e.Fits opened) :
    (b.event e).Follows (e.openAfter opened) (ps ++ e.pieces opened) := by
  have hsilent {e : Event} (hpiece : e.piece? opened = none) : ps ++ e.pieces opened = ps := by
    rw [Event.pieces, hpiece]
    simp
  cases e with
  | enter c =>
    rw [hsilent rfl]
    exact h.enter hfits
  | leave c =>
    rw [hsilent rfl]
    exact h.leave hfits
  | text t =>
    rw [← h.shown_eq rfl]
    exact h.pushText _
  | code t =>
    rw [← h.shown_eq rfl]
    refine h.of_kinds (kinds_push _ b) ?_
    rw [Builder.event, leaves_push (h.innermost.trans hfits)]
    refine h.written.append ?_
    unfold shown
    split_ifs
    · exact .nil
    · exact .single _
  | html t =>
    rw [hsilent rfl]
    exact h.markup hfits t
  | inlineHtml t =>
    rw [hsilent rfl]
    exact h.markup hfits t
  | softBreak =>
    rw [hsilent rfl]
    exact h.push hfits rfl
  | hardBreak =>
    rw [hsilent rfl]
    exact h.push hfits rfl
  | rule =>
    rw [hsilent rfl]
    exact h.push hfits rfl
  | task checked =>
    rw [hsilent rfl]
    exact h.push hfits rfl
  | footnote label =>
    rw [← h.shown_eq rfl]
    exact h.pushProse hfits _
  | math source =>
    rw [← h.shown_eq rfl]
    exact h.pushProse hfits _

/-- What a sequence of events does to the frames and leaves. -/
theorem events (h : b.Follows opened ps) {es : List Event} (hes : Markdown.WellNested opened es) :
    (es.foldl Builder.event b).Follows (es.foldl Event.openAfter opened) (ps ++ Markdown.pieces opened es) := by
  induction es generalizing b opened ps with
  | nil =>
    rw [Markdown.pieces, List.append_nil]
    exact h
  | cons e es ih =>
    rw [Markdown.pieces, ← List.append_assoc]
    exact ih (h.event hes.1) hes.2

/-- What is open at the end is closed, and keeps its leaves. -/
theorem leaves_finish (h : b.Follows opened ps) : Document.leaves b.finish = b.leaves := by
  have hkinds : (popMany b.frames.length b).kinds = [] := by
    rw [kinds_popMany, List.drop_eq_nil_iff, kinds, List.length_map]
  have hframes : (popMany b.frames.length b).frames = [] := List.map_eq_nil_iff.mp hkinds
  rw [← leaves_popMany b.frames.length h.outerKinds, leaves, hframes]
  rfl

end Follows

/-- The tree of well-nested events with any markup in them. After every beginning of the events, the frames that
are not of component elements are those of the open containers, in order; and all text outside images is written
to the leaves of the tree, piece by piece and in order. -/
theorem frames_and_leaves_of_wellNested {events : List Event} (h : Markdown.WellNested [] events) :
    (∀ es, es <+: events →
      ((es.foldl event start).frames.filter (!·.isElement)).map Frame.kind =
        (es.foldl Event.openAfter []).filterMap frameKind?) ∧
      WrittenBy (Markdown.pieces [] events) (Document.leaves (build events)) := by
  refine ⟨?_, ?_⟩
  · rintro es ⟨more, rfl⟩
    have hcontainers := (follows_start.events h.of_append).containers
    rw [kinds, List.filter_map] at hcontainers
    rw [← hcontainers]
    rfl
  · have hfollows := follows_start.events h
    rw [List.nil_append] at hfollows
    rw [build, hfollows.leaves_finish]
    exact hfollows.written

end Builder

namespace Crossing

/-- A quote in which tags are closed that are not open, cross each other, and stay open; an image with text. -/
def events : List Event :=
  [.enter .quote, .html "</Card><Tab>", .enter .paragraph, .text "a", .inlineHtml "<Card>", .enter .emphasis,
    .inlineHtml "</Tab><Note>", .code "b", .leave .emphasis, .text "c", .inlineHtml "</Card>", .text "d",
    .text "e", .enter (.image ⟨"i.png", []⟩), .text "f", .leave (.image ⟨"i.png", []⟩), .leave .paragraph,
    .enter (.code "js"), .text "g", .text "h", .leave (.code "js"), .leave .quote]

theorem containers_unharmed :
    Markdown.WellNested [] events ∧
      ((events.take 8).foldl Builder.event Builder.start).frames.length = 6 ∧
      (((events.take 8).foldl Builder.event Builder.start).frames.filter (!·.isElement)).map Frame.kind =
        [.block "em", .block "p", .block "blockquote"] ∧
      WrittenBy
        [⟨.prose, "a"⟩, ⟨.inlineCode, "b"⟩, ⟨.prose, "c"⟩, ⟨.prose, "d"⟩, ⟨.prose, "e"⟩, ⟨.codeBlock, "g"⟩,
          ⟨.codeBlock, "h"⟩]
        (Document.leaves (Builder.build events)) := by
  have hnested : Markdown.WellNested [] events := by simp [Markdown.WellNested, events, Event.Fits, Event.openAfter,
    Container.isCode]
  obtain ⟨hframes, hleaves⟩ := Builder.frames_and_leaves_of_wellNested hnested
  exact ⟨hnested, by decide, hframes _ (List.take_prefix 8 events), hleaves⟩

end Crossing

end StaticSite
