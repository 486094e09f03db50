import StaticSite.Document.Builder
import StaticSite.Proofs.Document.References

/-!
# Leaves of a document

The text, inline code and code blocks of a document in the order in which a reader meets them, and what it means
that leaves were written piece by piece: every piece stands in one leaf, and the pieces stand in order.
-/
namespace StaticSite

inductive LeafKind where
  | prose
  | inlineCode
  | codeBlock
deriving DecidableEq

/-- A piece of text, or all the text at one place of a document. -/
structure Leaf where
  kind : LeafKind
  text : Text

namespace Node

def leaf? : Node → Option Leaf
  | text t => some ⟨.prose, t⟩
  | inlineCode t => some ⟨.inlineCode, t⟩
  | code _ body => some ⟨.codeBlock, body⟩
  | _ => none

theorem flattenAll_singleton (n : Node) : flattenAll [n] = n :: flattenAll n.children := by
  rw [flattenAll, flattenAll, List.append_nil]
  cases n <;> rfl

end Node

namespace Document

/-- The leaves of a document, each node before those below it. -/
def leaves (doc : Document) : List Leaf := (Node.flattenAll doc).filterMap Node.leaf?

theorem leaves_nil : leaves [] = [] := rfl

theorem leaves_append (doc doc' : Document) : leaves (doc ++ doc') = leaves doc ++ leaves doc' := by
  rw [leaves, Node.flattenAll_append, List.filterMap_append]
  rfl

/-- A node adds its own text to that of its children. -/
theorem leaves_singleton (n : Node) : leaves [n] = n.leaf?.toList ++ leaves n.children := by
  rw [leaves, Node.flattenAll_singleton, List.filterMap_cons]
  cases n.leaf? <;> rfl

end Document

/-! ## Writing piece by piece -/

/-- Consecutive pieces of one kind that make up one leaf. -/
structure Share where
  kind : LeafKind
  texts : List Text

namespace Share

def pieces (s : Share) : List Leaf := s.texts.map (Leaf.mk s.kind)

def leaf (s : Share) : Leaf := ⟨s.kind, s.texts.flatten⟩

/-- Inline code is one piece, prose at least one, and a code block may be empty. -/
def Proper (s : Share) : Prop :=
  match s.kind with
  | .prose => s.texts ≠ []
  | .inlineCode => s.texts.length = 1
  | .codeBlock => True

end Share

/-- The pieces, in order, make up the leaves: each piece has its share in exactly one of them. -/
def WrittenBy (pieces leaves : List Leaf) : Prop :=
  ∃ shares : List Share, (∀ s ∈ shares, s.Proper) ∧ pieces = shares.flatMap Share.pieces ∧
    leaves = shares.map Share.leaf

namespace WrittenBy

variable {pieces leaves : List Leaf}

theorem nil : WrittenBy [] [] := ⟨[], nofun, rfl, rfl⟩

theorem append {pieces' leaves' : List Leaf} (h : WrittenBy pieces leaves) (h' : WrittenBy pieces' leaves') :
    WrittenBy (pieces ++ pieces') (leaves ++ leaves') := by
  obtain ⟨shares, hproper, rfl, rfl⟩ := h
  obtain ⟨shares', hproper', rfl, rfl⟩ := h'
  refine ⟨shares ++ shares', fun s hs => ?_, List.flatMap_append.symm, List.map_append.symm⟩
  exact (List.mem_append.mp hs).elim (hproper s) (hproper' s)

/-- A piece may be a leaf of its own. -/
theorem single (l : Leaf) : WrittenBy [l] [l] := by
  obtain ⟨kind, t⟩ := l
  refine ⟨[⟨kind, [t]⟩], fun s hs => ?_, rfl, ?_⟩
  · obtain rfl := List.mem_singleton.mp hs
    cases kind <;> simp [Share.Proper]
  · simp [Share.leaf]

/-- A code block begins without any piece. -/
theorem emptyBlock : WrittenBy [] [⟨.codeBlock, []⟩] :=
  ⟨[⟨.codeBlock, []⟩], fun s hs => by obtain rfl := List.mem_singleton.mp hs; trivial, rfl, rfl⟩

/-- A piece may join the last leaf, when that is of its kind. -/
theorem join {kind : LeafKind} {before t : Text} (h : WrittenBy pieces (leaves ++ [⟨kind, before⟩]))
    (hkind : kind ≠ .inlineCode) : WrittenBy (pieces ++ [⟨kind, t⟩]) (leaves ++ [⟨kind, before ++ t⟩]) := by
  obtain ⟨shares, hproper, rfl, hleaves⟩ := h
  obtain ⟨shares, last, rfl, rfl, hlast⟩ := List.map_eq_append_iff.mp hleaves.symm
  obtain ⟨s, rfl, hs⟩ := List.map_eq_singleton_iff.mp hlast
  obtain ⟨kind, texts⟩ := s
  obtain ⟨rfl, rfl⟩ := Leaf.mk.inj hs
  refine ⟨shares ++ [⟨kind, texts ++ [t]⟩], fun s hs => ?_, ?_, ?_⟩
  · rcases List.mem_append.mp hs with hs | hs
    · exact hproper s (List.mem_append_left _ hs)
    · obtain rfl := List.mem_singleton.mp hs
      cases kind <;> simp_all [Share.Proper]
  · simp [Share.pieces]
  · simp [Share.leaf]

end WrittenBy

end StaticSite
