import Mathlib.Data.List.Forall2
import StaticSite.Compile.Stage
import StaticSite.Proofs.Document.MarkupReferences

/-!
# Targets

The targets of a document are the addresses of its images and links, the `src` and `href` attributes of its elements
that are strings, and the quoted ones in its raw markup. Rebasing changes the targets and nothing else. The base path
comes in at the end: it is put in front of the targets that start at the root of the site, when all of them have been
rebased without it.
-/
namespace StaticSite

variable {directory : Text} {base : Option Text} {image link image' link' : Text → Text}

/-! ## Documents with other targets -/

namespace Reference

/-- Two pieces of markup that differ in the value of a reference at most. -/
inductive Piece.Retargeted : Piece → Piece → Prop where
  | char (c : Char) : Retargeted (.char c) (.char c)
  | value (name spacing : Text) (quote : Char) (value value' : Text) :
      Retargeted (.attribute name spacing quote value) (.attribute name spacing quote value')

/-- Markup with other values in the place of the values of its references. -/
def Retargeted (t t' : Text) : Prop :=
  ∃ pieces, List.Forall₂ Piece.Retargeted (scan t) pieces ∧ t' = pieces.flatMap Piece.text

end Reference

/-- Two attributes that differ in the string of a `src` or `href` at most. -/
inductive Attribute.Retargeted : Attribute → Attribute → Prop where
  | same (a : Attribute) : Retargeted a a
  | source (value value' : Text) : Retargeted ⟨"src".toList, .string value⟩ ⟨"src".toList, .string value'⟩
  | target (value value' : Text) : Retargeted ⟨"href".toList, .string value⟩ ⟨"href".toList, .string value'⟩

/-- Two nodes of one shape that differ in their targets, and in those below them, at most. -/
inductive Node.Retargeted : Node → Node → Prop where
  | text (t : Text) : Retargeted (.text t) (.text t)
  | html {t t' : Text} (h : Reference.Retargeted t t') : Retargeted (.html t) (.html t')
  | element (name : Text) {attributes attributes' : List Attribute} {children children' : List Node}
      (hattributes : List.Forall₂ Attribute.Retargeted attributes attributes')
      (hchildren : List.Forall₂ Retargeted children children') :
      Retargeted (.element name attributes children) (.element name attributes' children')
  | declarations (source : Text) : Retargeted (.declarations source) (.declarations source)
  | frontMatter (yaml : Text) : Retargeted (.frontMatter yaml) (.frontMatter yaml)
  | block (tag : Text) {children children' : List Node} (hchildren : List.Forall₂ Retargeted children children') :
      Retargeted (.block tag children) (.block tag children')
  | image (source source' alt title : Text) : Retargeted (.image source alt title) (.image source' alt title)
  | link (target target' title : Text) {children children' : List Node}
      (hchildren : List.Forall₂ Retargeted children children') :
      Retargeted (.link target title children) (.link target' title children')
  | code (language body : Text) : Retargeted (.code language body) (.code language body)
  | inlineCode (t : Text) : Retargeted (.inlineCode t) (.inlineCode t)
  | softBreak : Retargeted .softBreak .softBreak
  | hardBreak : Retargeted .hardBreak .hardBreak
  | rule : Retargeted .rule .rule

/-! ## A function on every target -/

namespace Reference

def mapMarkup (image link : Text → Text) (t : Text) : Text :=
  (scan t).flatMap fun piece => (piece.mapValue (mapNamed image link)).text

end Reference

def Attribute.mapTarget (image link : Text → Text) (a : Attribute) : Attribute :=
  match a.value with
  | .string value =>
    if a.name = "src".toList then { a with value := .string (image value) }
    else if a.name = "href".toList then { a with value := .string (link value) }
    else a
  | _ => a

mutual

/-- The node with functions applied to the targets in it: one to images and to what is called `src`, the other to links
and to what is called `href`. -/
def Node.mapTargets (image link : Text → Text) : Node → Node
  | .image source alt title => .image (image source) alt title
  | .link target title children => .link (link target) title (mapTargetsAll image link children)
  | .element name attributes children =>
    .element name (attributes.map (Attribute.mapTarget image link)) (mapTargetsAll image link children)
  | .block tag children => .block tag (mapTargetsAll image link children)
  | .html t => .html (Reference.mapMarkup image link t)
  | node => node

def mapTargetsAll (image link : Text → Text) : List Node → List Node
  | [] => []
  | n :: ns => n.mapTargets image link :: mapTargetsAll image link ns

end

namespace Reference

theorem Piece.retargeted_mapValue (f : Text → Text → Text) (piece : Piece) : piece.Retargeted (piece.mapValue f) := by
  cases piece with
  | char c => exact .char c
  | _ name spacing quote value => exact .value name spacing quote value _

theorem retargeted_mapMarkup (image link : Text → Text) (t : Text) : Retargeted t (mapMarkup image link t) := by
  refine ⟨(scan t).map (Piece.mapValue (mapNamed image link)), ?_, ?_⟩
  · rw [List.forall₂_map_right_iff, List.forall₂_same]
    exact fun piece _ => piece.retargeted_mapValue _
  · rw [mapMarkup, List.flatMap_map]

end Reference

theorem Attribute.retargeted_mapTarget (image link : Text → Text) (a : Attribute) :
    a.Retargeted (a.mapTarget image link) := by
  obtain ⟨name, value⟩ := a
  cases value with
  | string value =>
    unfold mapTarget
    dsimp only
    split_ifs with hsrc hhref
    · subst hsrc
      exact .source value _
    · subst hhref
      exact .target value _
    · exact .same _
  | expression source => exact .same _
  | flag => exact .same _

mutual

theorem Node.retargeted_mapTargets (image link : Text → Text) :
    ∀ node : Node, node.Retargeted (node.mapTargets image link)
  | .element name attributes children => by
    refine .element name ?_ (retargeted_mapTargetsAll image link children)
    rw [List.forall₂_map_right_iff, List.forall₂_same]
    exact fun a _ => a.retargeted_mapTarget image link
  | .block tag children => .block tag (retargeted_mapTargetsAll image link children)
  | .link target title children => .link target _ title (retargeted_mapTargetsAll image link children)
  | .html t => .html (Reference.retargeted_mapMarkup image link t)
  | .image source alt title => .image source _ alt title
  | .text t => .text t
  | .declarations source => .declarations source
  | .frontMatter yaml => .frontMatter yaml
  | .code language body => .code language body
  | .inlineCode t => .inlineCode t
  | .softBreak => .softBreak
  | .hardBreak => .hardBreak
  | .rule => .rule

theorem retargeted_mapTargetsAll (image link : Text → Text) :
    ∀ nodes : List Node, List.Forall₂ Node.Retargeted nodes (mapTargetsAll image link nodes)
  | [] => .nil
  | node :: nodes => .cons (Node.retargeted_mapTargets image link node) (retargeted_mapTargetsAll image link nodes)

end

/-! ## One function after another -/

open Reference (AddsNoQuote)

namespace Reference

theorem Piece.mapValue_mapValue (piece : Piece) (f g : Text → Text → Text) :
    (piece.mapValue f).mapValue g = piece.mapValue fun name value => g name (f name value) := by
  cases piece <;> rfl

theorem mapNamed_mapNamed (image link image' link' : Text → Text) :
    (fun name value => mapNamed image' link' name (mapNamed image link name value)) =
      mapNamed (image' ∘ image) (link' ∘ link) := by
  funext name value
  unfold mapNamed
  split_ifs <;> rfl

/-- The second function finds the values where the first one has left them. -/
theorem mapMarkup_mapMarkup (himage : AddsNoQuote image) (hlink : AddsNoQuote link) (t : Text) :
    mapMarkup image' link' (mapMarkup image link t) = mapMarkup (image' ∘ image) (link' ∘ link) t := by
  unfold mapMarkup
  rw [scan_mapValue fun piece _ => bringsNoQuote_mapNamed himage hlink piece, List.flatMap_map]
  simp only [Piece.mapValue_mapValue, mapNamed_mapNamed]

end Reference

theorem Attribute.mapTarget_mapTarget (a : Attribute) :
    (a.mapTarget image link).mapTarget image' link' = a.mapTarget (image' ∘ image) (link' ∘ link) := by
  obtain ⟨name, value⟩ := a
  cases value with
  | string value =>
    unfold mapTarget
    dsimp only
    split_ifs <;> rfl
  | expression source => rfl
  | flag => rfl

mutual

theorem Node.mapTargets_mapTargets (himage : AddsNoQuote image) (hlink : AddsNoQuote link) :
    ∀ node : Node, (node.mapTargets image link).mapTargets image' link' =
      node.mapTargets (image' ∘ image) (link' ∘ link)
  | .element name attributes children => by
    simp only [Node.mapTargets, List.map_map, mapTargetsAll_mapTargetsAll himage hlink children]
    congr 1
    exact List.map_congr_left fun a _ => a.mapTarget_mapTarget
  | .block tag children => by simp only [Node.mapTargets, mapTargetsAll_mapTargetsAll himage hlink children]
  | .link target title children => by
    simp only [Node.mapTargets, mapTargetsAll_mapTargetsAll himage hlink children, Function.comp_apply]
  | .html t => by simp only [Node.mapTargets, Reference.mapMarkup_mapMarkup himage hlink]
  | .text _ | .declarations _ | .frontMatter _ | .image _ _ _ | .code _ _ | .inlineCode _
  | .softBreak | .hardBreak | .rule => rfl

theorem mapTargetsAll_mapTargetsAll (himage : AddsNoQuote image) (hlink : AddsNoQuote link) :
    ∀ nodes : List Node, mapTargetsAll image' link' (mapTargetsAll image link nodes) =
      mapTargetsAll (image' ∘ image) (link' ∘ link) nodes
  | [] => rfl
  | node :: nodes => by
    simp only [mapTargetsAll, Node.mapTargets_mapTargets himage hlink node,
      mapTargetsAll_mapTargetsAll himage hlink nodes]

end

/-! ## Rebasing -/

theorem Attribute.rebase_eq (directory : Text) (base : Option Text) :
    Attribute.rebase directory base =
      Attribute.mapTarget (fun t => Url.rebaseImage t directory base) fun t => Url.rebaseLink t base := rfl

mutual

theorem Node.rebase_eq (directory : Text) (base : Option Text) :
    ∀ node : Node, node.rebase directory base =
      node.mapTargets (fun t => Url.rebaseImage t directory base) fun t => Url.rebaseLink t base
  | .element name attributes children => by
    simp only [Node.rebase, Node.mapTargets, Attribute.rebase_eq, rebaseNodes_eq directory base children]
  | .block tag children => by simp only [Node.rebase, Node.mapTargets, rebaseNodes_eq directory base children]
  | .link target title children => by
    simp only [Node.rebase, Node.mapTargets, rebaseNodes_eq directory base children]
  | .html t => by
    simp only [Node.rebase, Node.mapTargets, Reference.rebaseMarkup_eq]
    rfl
  | .text _ | .declarations _ | .frontMatter _ | .image _ _ _ | .code _ _ | .inlineCode _
  | .softBreak | .hardBreak | .rule => rfl

theorem rebaseNodes_eq (directory : Text) (base : Option Text) :
    ∀ nodes : List Node, rebaseNodes directory base nodes =
      mapTargetsAll (fun t => Url.rebaseImage t directory base) (fun t => Url.rebaseLink t base) nodes
  | [] => rfl
  | node :: nodes => by
    simp only [rebaseNodes, mapTargetsAll, Node.rebase_eq directory base node, rebaseNodes_eq directory base nodes]

end

/-- Rebasing keeps the shape of a document and everything in it but its targets. What comes of it under a base path is
what comes of it without one, with the base path in front of those targets that then start at the root of the site; and
without a base path, doing it again changes nothing. -/
theorem rebase_factors_through_base (tree : FileTree) (file : SourceFile) (contentRoot : FilePath) (doc : Document)
    (hplain : ∀ c ∈ file.contentDirectory tree contentRoot, Reference.isQuote c = false) :
    let rebased (base : Option Text) (doc : Document) := Stage.rebase tree contentRoot base file doc
    (∀ base, List.Forall₂ Node.Retargeted doc (rebased base doc)) ∧
    (∀ base, rebased (some base) doc = mapTargetsAll (Url.underBase base) (Url.underBase base) (rebased none doc)) ∧
    rebased none (rebased none doc) = rebased none doc := by
  intro rebased
  obtain ⟨ds, hds, hdirectory⟩ := Reference.exists_names_of_contentDirectory tree file contentRoot
  have hrebased (base : Option Text) (doc : Document) : rebased base doc =
      mapTargetsAll (fun t => Url.rebaseImage t (FilePath.ofNames ds) base) (fun t => Url.rebaseLink t base) doc := by
    rw [← hdirectory]
    exact rebaseNodes_eq _ _ doc
  have himage : AddsNoQuote fun t => Url.rebaseImage t (FilePath.ofNames ds) none :=
    Reference.addsNoQuote_rebaseImage (hdirectory ▸ hplain) (by simp)
  have hlink : AddsNoQuote fun t => Url.rebaseLink t none := Reference.addsNoQuote_rebaseLink (by simp)
  refine ⟨fun base => ?_, fun base => ?_, ?_⟩
  · rw [hrebased]
    exact retargeted_mapTargetsAll _ _ doc
  · rw [hrebased, hrebased, mapTargetsAll_mapTargetsAll himage hlink]
    congr 1
    · exact funext fun t => Url.rebaseImage_some hds t base
    · exact funext fun t => Url.rebaseLink_some t base
  · rw [hrebased, hrebased, mapTargetsAll_mapTargetsAll himage hlink]
    congr 1
    exact funext fun t => Url.rebaseImage_rebaseImage_none hds t _

namespace Gallery

/-- A page with references of all kinds, some in markup with both quotes. -/
def page : Document :=
  [.block "p" [.image "./plan.png" "Plan" [], .link "/docs" [] [.text "docs"], .link "next" [] []],
    .element "Hero" [⟨"src", .string "../top.png"⟩, ⟨"href", .string "//cdn"⟩, ⟨"alt", .string "/a"⟩] [],
    .html "<img src='a\"b.png' data-src=\"c.png\"><a href = \"/x\">"]

def file : SourceFile := ⟨"/site/content/art/2024/page.mdx", "/site/content/art/2024/page.mdx"⟩

theorem page_under_base :
    (∀ c ∈ file.contentDirectory .empty "/site/content", Reference.isQuote c = false) ∧
    Stage.rebase .empty "/site/content" (some "/docs".toList) file page =
      mapTargetsAll (Url.underBase "/docs") (Url.underBase "/docs")
        (Stage.rebase .empty "/site/content" none file page) ∧
    Stage.rebase .empty "/site/content" none file page =
      [.block "p" [.image "/art/2024/plan.png" "Plan" [], .link "/docs" [] [.text "docs"], .link "next" [] []],
        .element "Hero" [⟨"src", .string "/art/top.png"⟩, ⟨"href", .string "//cdn"⟩, ⟨"alt", .string "/a"⟩] [],
        .html "<img src='/art/2024/a\"b.png' data-src=\"c.png\"><a href = \"/x\">"] := by
  have hall : (file.contentDirectory .empty "/site/content").all (fun c => !Reference.isQuote c) = true := by decide
  have hplain : ∀ c ∈ file.contentDirectory .empty "/site/content", Reference.isQuote c = false :=
    fun c hc => by simpa using List.all_eq_true.mp hall c hc
  obtain ⟨-, hbase, -⟩ := rebase_factors_through_base .empty file "/site/content" page hplain
  exact ⟨hplain, hbase "/docs", rfl⟩

end Gallery

end StaticSite
