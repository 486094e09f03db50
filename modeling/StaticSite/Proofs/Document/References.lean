import StaticSite.Document.Rebase
import StaticSite.Document.References
import StaticSite.Proofs.Table

/-!
# What a document refers to

The references of a document are two sets of names, kept as ascending lists: the components that its
elements invoke, at any depth, and the identifiers that its declarations bind.
-/
namespace StaticSite

namespace EsModule

theorem mem_insertName {name other : Text} {names : List Text} :
    other ∈ insertName name names ↔ other = name ∨ other ∈ names := by
  induction names with
  | nil => simp [insertName]
  | cons n ns ih =>
    rw [insertName]
    split_ifs with heq
    · simp [heq]
    · simp
    · simp only [List.mem_cons, ih]
      tauto

theorem pairwise_insertName {names : List Text} (h : names.Pairwise (· < ·)) (name : Text) :
    (insertName name names).Pairwise (· < ·) := by
  induction names with
  | nil => simp [insertName]
  | cons n ns ih =>
    obtain ⟨hfirst, hrest⟩ := List.pairwise_cons.mp h
    rw [insertName]
    split_ifs with heq hbefore
    · exact h
    · have hlt := (Text.before_eq_true_iff name n).mp hbefore
      refine List.pairwise_cons.mpr ⟨fun m hm => ?_, h⟩
      rcases List.mem_cons.mp hm with rfl | hm
      · exact hlt
      · exact hlt.trans (hfirst m hm)
    · have hnot : ¬name < n := fun hlt => hbefore (Text.before_of_lt hlt)
      have hlt : n < name := lt_of_le_of_ne (not_lt.mp hnot) heq
      refine List.pairwise_cons.mpr ⟨fun m hm => ?_, ih hrest⟩
      rcases mem_insertName.mp hm with rfl | hm
      · exact hlt
      · exact hfirst m hm

theorem mem_sortNames {name : Text} {names : List Text} : name ∈ sortNames names ↔ name ∈ names := by
  induction names with
  | nil => simp [sortNames]
  | cons n ns ih =>
    rw [sortNames, List.foldr_cons, mem_insertName, List.mem_cons]
    exact or_congr_right ih

theorem pairwise_sortNames (names : List Text) : (sortNames names).Pairwise (· < ·) := by
  induction names with
  | nil => exact List.Pairwise.nil
  | cons n ns ih => exact pairwise_insertName ih n

end EsModule

namespace Node

theorem flattenAll_append (ns ms : List Node) : flattenAll (ns ++ ms) = flattenAll ns ++ flattenAll ms := by
  induction ns with
  | nil => simp [flattenAll]
  | cons n ns ih => simp [flattenAll, ih]

theorem flattenAll_eq_flatMap (ns : List Node) : flattenAll ns = ns.flatMap flatten := by
  induction ns with
  | nil => simp [flattenAll]
  | cons n ns ih => simp [flattenAll, ih]

mutual

theorem flatten_rebase (directory : Text) (base : Option Text) :
    ∀ node : Node, (node.rebase directory base).flatten = node.flatten.map (Node.rebase directory base)
  | .element name attributes children => by
    simp only [Node.rebase, flatten, List.map_cons, flattenAll_rebaseNodes directory base children]
  | .block tag children => by
    simp only [Node.rebase, flatten, List.map_cons, flattenAll_rebaseNodes directory base children]
  | .link target title children => by
    simp only [Node.rebase, flatten, List.map_cons, flattenAll_rebaseNodes directory base children]
  | .text _ | .html _ | .declarations _ | .frontMatter _ | .image _ _ _ | .code _ _ | .inlineCode _
  | .softBreak | .hardBreak | .rule => rfl

theorem flattenAll_rebaseNodes (directory : Text) (base : Option Text) :
    ∀ nodes : List Node, flattenAll (rebaseNodes directory base nodes) =
      (flattenAll nodes).map (Node.rebase directory base)
  | [] => rfl
  | node :: nodes => by
    simp only [rebaseNodes, flattenAll, List.map_append, flatten_rebase directory base node,
      flattenAll_rebaseNodes directory base nodes]

end

end Node

namespace Document

/-- An element of the document, at any depth, invokes a component. -/
def Invokes (doc : Document) (name : Text) : Prop :=
  ∃ node ∈ Node.flattenAll doc, References.invokedBy? node = some name

/-- An import/export block of the document binds an identifier. -/
def Binds (doc : Document) (name : Text) : Prop :=
  ∃ node ∈ Node.flattenAll doc, name ∈ References.boundBy node

end Document

namespace References

variable {doc : Document} {name : Text}

theorem mem_invoked_ofDocument : name ∈ (ofDocument doc).invoked ↔ doc.Invokes name := by
  rw [ofDocument, EsModule.mem_sortNames, List.mem_filterMap]
  rfl

theorem pairwise_invoked_ofDocument (doc : Document) : (ofDocument doc).invoked.Pairwise (· < ·) :=
  EsModule.pairwise_sortNames _

theorem mem_bound_ofDocument : name ∈ (ofDocument doc).bound ↔ doc.Binds name := by
  rw [ofDocument, EsModule.mem_sortNames, List.mem_flatMap]
  rfl

theorem mem_missing {r : References} : name ∈ r.missing ↔ name ∈ r.invoked ∧ name ∉ r.bound := by
  simp [missing]

theorem pairwise_missing {r : References} (h : r.invoked.Pairwise (· < ·)) :
    r.missing.Pairwise (· < ·) := h.filter _

theorem invokedBy?_rebase (directory : Text) (base : Option Text) (node : Node) :
    invokedBy? (node.rebase directory base) = invokedBy? node := by
  cases node <;> rfl

theorem boundBy_rebase (directory : Text) (base : Option Text) (node : Node) :
    boundBy (node.rebase directory base) = boundBy node := by
  cases node <;> rfl

/-- Rebasing changes none of the references of a document. -/
theorem ofDocument_rebaseNodes (directory : Text) (base : Option Text) (doc : Document) :
    ofDocument (rebaseNodes directory base doc) = ofDocument doc := by
  have hinvoked : invokedBy? ∘ Node.rebase directory base = invokedBy? :=
    funext fun node => invokedBy?_rebase directory base node
  have hbound (node : Node) : boundBy (node.rebase directory base) = boundBy node :=
    boundBy_rebase directory base node
  simp only [ofDocument, Node.flattenAll_rebaseNodes, List.filterMap_map, List.flatMap_map, hinvoked, hbound]

/-- The least of the missing names comes first. -/
theorem head?_eq_some_iff {names : List Text} (h : names.Pairwise (· < ·)) :
    names.head? = some name ↔ name ∈ names ∧ ∀ other ∈ names, other ≠ name → name < other := by
  cases names with
  | nil => simp
  | cons first rest =>
    obtain ⟨hfirst, -⟩ := List.pairwise_cons.mp h
    simp only [List.head?_cons, Option.some.injEq]
    constructor
    · rintro rfl
      refine ⟨List.mem_cons_self, fun other hother hne => ?_⟩
      exact hfirst other ((List.mem_cons.mp hother).resolve_left hne)
    · rintro ⟨hmem, hleast⟩
      rcases List.mem_cons.mp hmem with rfl | hmem
      · rfl
      · by_contra hne
        exact lt_asymm (hfirst name hmem) (hleast first List.mem_cons_self hne)

end References

end StaticSite
