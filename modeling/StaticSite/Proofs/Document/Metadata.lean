import Mathlib.Data.List.Induction
import StaticSite.Document.FrontMatter
import StaticSite.Document.MetadataStore
import StaticSite.Document.Parser

/-!
# The metadata of a document

The only front matter in the tree of a document is the block at the top of its source: whatever Markdown
follows, the tree that is built from it holds none at its top level. The store keeps the record of every
document under the path of its file.
-/
namespace StaticSite

/-- Nodes among which there is no front matter. -/
def Document.Bare (doc : Document) : Prop := ∀ yaml, Node.frontMatter yaml ∉ doc

theorem Document.bare_append {doc doc' : Document} (h : Document.Bare doc) (h' : Document.Bare doc') :
    Document.Bare (doc ++ doc') := fun yaml hmem => (List.mem_append.mp hmem).elim (h yaml) (h' yaml)

theorem Document.bare_singleton {n : Node} (h : ∀ yaml, n ≠ .frontMatter yaml) : Document.Bare [n] :=
  fun yaml hmem => h yaml (List.mem_singleton.mp hmem).symm

theorem Frame.node_ne_frontMatter (f : Frame) (yaml : Text) : f.node ≠ .frontMatter yaml := by
  unfold Frame.node
  split <;> exact nofun

namespace Builder

variable {b : Builder}

theorem bare_push (h : Document.Bare b.root) {n : Node} (hn : ∀ yaml, n ≠ .frontMatter yaml) :
    Document.Bare (b.push n).root := by
  unfold push
  split
  · exact Document.bare_append h (Document.bare_singleton hn)
  · exact h

theorem bare_appendText {nodes : Document} (h : Document.Bare nodes) (t : Text) :
    Document.Bare (appendText t nodes) := by
  unfold appendText
  split
  · refine Document.bare_append (fun yaml hmem => ?_) (Document.bare_singleton nofun)
    exact h yaml (List.dropLast_subset nodes hmem)
  · exact Document.bare_append h (Document.bare_singleton nofun)

theorem bare_pushText (h : Document.Bare b.root) (t : Text) : Document.Bare (b.pushText t).root := by
  unfold pushText
  split
  · exact bare_appendText h t
  · split <;> exact h

theorem bare_pushProse (h : Document.Bare b.root) (t : Text) : Document.Bare (b.pushProse t).root := by
  unfold pushProse
  split
  · exact bare_appendText h t
  · exact h

theorem bare_pushHtml (h : Document.Bare b.root) (t : Text) : Document.Bare (b.pushHtml t).root := by
  unfold pushHtml
  split_ifs
  · exact h
  · exact bare_push h nofun

theorem bare_popMany (h : Document.Bare b.root) (n : Nat) : Document.Bare (popMany n b).root := by
  induction n generalizing b with
  | zero => exact h
  | succ n ih =>
    refine ih ?_
    unfold pop
    split
    · exact h
    · rename_i f fs _
      exact bare_push (b := ⟨fs, b.root⟩) h f.node_ne_frontMatter

theorem bare_closeElement (h : Document.Bare b.root) (name whole : Text) :
    Document.Bare (b.closeElement name whole).root := by
  unfold closeElement
  split
  · exact bare_popMany h _
  · exact bare_pushHtml h whole

theorem bare_markup (h : Document.Bare b.root) (t : Text) : Document.Bare (b.markup t).root := by
  unfold markup
  induction Markup.pieces t generalizing b with
  | nil => exact h
  | cons piece pieces ih =>
    refine ih ?_
    unfold markupPiece
    split
    · exact bare_pushHtml h _
    · split_ifs
      · exact bare_closeElement h _ _
      · exact bare_push h nofun
      · exact h

theorem bare_event (h : Document.Bare b.root) (e : Markdown.Event) : Document.Bare (b.event e).root := by
  cases e with
  | enter c =>
    simp only [event]
    split <;> exact h
  | leave c =>
    simp only [event]
    split_ifs
    · exact bare_popMany h _
    · exact h
  | text t => exact bare_pushText h _
  | code t => exact bare_push h nofun
  | html t => exact bare_markup h t
  | inlineHtml t => exact bare_markup h t
  | softBreak => exact bare_push h nofun
  | hardBreak => exact bare_push h nofun
  | rule => exact bare_push h nofun
  | task checked => exact bare_push h nofun
  | footnote label => exact bare_pushProse h _
  | math source => exact bare_pushProse h source

theorem bare_build (events : List Markdown.Event) : Document.Bare (build events) := by
  have hevents : Document.Bare (events.foldl event start).root := by
    induction events using List.reverseRecOn with
    | nil => exact fun yaml hmem => List.not_mem_nil hmem
    | append_singleton events e ih =>
      rw [List.foldl_append]
      exact bare_event ih e
  exact bare_popMany hevents _

end Builder

namespace Document

theorem bare_ofSegment (segment : Segment) : Bare (ofSegment segment) := by
  cases segment with
  | declarations source => exact bare_singleton nofun
  | markdown source => exact Builder.bare_build _

theorem frontMatter?_of_bare {doc : Document} (h : Bare doc) : doc.frontMatter? = none := by
  refine List.findSome?_eq_none_iff.mpr fun n hn => ?_
  cases n with
  | frontMatter yaml => exact absurd hn (h yaml)
  | _ => rfl

/-- The front matter of a document is the block that is cut off its source. -/
theorem frontMatter?_parse (source : Text) : (parse source).frontMatter? = (Fences.cut source).frontMatter := by
  cases hcut : (Fences.cut source).frontMatter with
  | some yaml => simp [parse, hcut, frontMatter?]
  | none =>
    refine frontMatter?_of_bare fun yaml hmem => ?_
    simp only [parse, hcut, Option.toList_none, List.map_nil, List.nil_append] at hmem
    obtain ⟨segment, -, hnode⟩ := List.mem_flatMap.mp hmem
    exact bare_ofSegment segment yaml hnode

/-- The record of a document is that of the block at the top of its source, and empty where there is none
that can be read. -/
theorem metadata_parse (source : Text) :
    (parse source).metadata = ((Fences.cut source).frontMatter.bind FrontMatter.ofYaml?).getD .empty := by
  rw [metadata, frontMatter?_parse]

end Document

namespace MetadataStore

/-- The record under a resolved path. -/
def at? (realPath : FilePath) (s : MetadataStore) : Option FrontMatter :=
  (s.pages.find? fun entry => FilePath.same entry.1 realPath).map (·.2)

theorem get?_eq (tree : FileTree) (path : FilePath) (s : MetadataStore) :
    s.get? tree path = s.at? (tree.canonical path) := rfl

/-- A record is found under the path of its file; others are found as before. -/
theorem at?_insert (realPath other : FilePath) (metadata : FrontMatter) (s : MetadataStore) :
    (s.insert realPath metadata).at? other =
      if FilePath.parts realPath = FilePath.parts other then some metadata else s.at? other := by
  by_cases hsame : FilePath.parts realPath = FilePath.parts other
  · simp [at?, insert, FilePath.same, hsame]
  · have hkept : (fun entry : FilePath × FrontMatter =>
        decide ((!FilePath.same entry.1 realPath) = true ∧ FilePath.same entry.1 other = true)) =
          fun entry => FilePath.same entry.1 other := by
      funext entry
      by_cases hentry : FilePath.parts entry.1 = FilePath.parts other
      · simp [FilePath.same, hentry, Ne.symm hsame]
      · simp [FilePath.same, hentry]
    have hfirst : FilePath.same realPath other = false := by simpa [FilePath.same] using hsame
    rw [if_neg hsame, at?, insert, List.find?_cons_of_neg (by simp [hfirst]), List.find?_filter, hkept]
    rfl

end MetadataStore

end StaticSite
