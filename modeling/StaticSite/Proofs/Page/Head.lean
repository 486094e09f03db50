import StaticSite.Page.Head
import StaticSite.Proofs.Document.Delimiters
import StaticSite.Proofs.Page.Shell

/-!
# Heads of pages in the built-in shell

A head is injected by three searches in a finished page. In a page of the built-in shell they find the places
that the shell has for a title, for tags and for a language, whatever values stand in the page.
-/
namespace StaticSite.Head

open Text Shell

variable {α : Type} {read : Text → Option (α × Text)} {t u : Text}

/-! ## Searches -/

/-- A search finds nothing that begins in a text, whatever follows the text. -/
def Passes (read : Text → Option (α × Text)) (t : Text) : Prop :=
  ∀ u, firstMatch? read (t ++ u) = (firstMatch? read u).map (Prod.map (t ++ ·) id)

namespace Passes

theorem nil : Passes read [] := by
  intro u
  cases h : firstMatch? read u <;> simp [h, Prod.map]

theorem cons {c : Char} (hread : ∀ v, read (c :: (t ++ v)) = none) (ht : Passes read t) :
    Passes read (c :: t) := by
  intro v
  rw [List.cons_append, firstMatch?, hread, ht, Option.map_map]
  rfl

theorem append (ht : Passes read t) (hu : Passes read u) : Passes read (t ++ u) := by
  intro v
  rw [List.append_assoc, ht, hu, Option.map_map]
  congr 1
  funext found
  simp [Prod.map]

/-- After a text that it passes, a search ends where its reader succeeds. -/
theorem firstMatch? {a : α} {rest : Text} (ht : Passes read t) (h : read u = some (a, rest)) (hu : u ≠ []) :
    firstMatch? read (t ++ u) = some (t, a, rest) := by
  cases u with
  | nil => exact absurd rfl hu
  | cons c u =>
    rw [ht, Head.firstMatch?, h]
    simp [Prod.map]

end Passes

/-! ### Markup -/

/-- No capital becomes an opening bracket. -/
theorem asciiLowerChar_ne_bracket {c : Char} (h : c ≠ '<') : asciiLowerChar c ≠ '<' := by
  unfold asciiLowerChar
  split
  · rename_i hupper
    have hbounds : 65 ≤ c.val.toNat ∧ c.val.toNat ≤ 90 := by
      simpa [isAsciiUpper, Char.le_def, UInt32.le_iff_toNat_le] using hupper
    have hvalid : (c.val.toNat + 32).isValidChar := .inl (by omega)
    intro heq
    have hcode : c.val.toNat + 32 = 60 := by
      rw [Char.ofNat, dif_pos hvalid] at heq
      exact congrArg Char.toNat heq
    omega
  · exact h

/-- A reader reads nothing but what begins with an opening bracket and, in capitals or not, one character. -/
structure ReadsTag (first : Char) (read : Text → Option (α × Text)) : Prop where
  bracket : ∀ c t, c ≠ '<' → read (c :: t) = none
  name : ∀ c t, asciiLowerChar c ≠ first → read ('<' :: c :: t) = none

namespace ReadsTag

variable {first c : Char}

/-- A reader that begins with the start of a tag reads no other tag. -/
theorem of_start (start : Text) (hstart : start.take 2 = ['<', c]) (hc : asciiLowerChar c = first)
    (h : ∀ t, afterAnyCase? start t = none → read t = none) : ReadsTag first read := by
  obtain ⟨rest, rfl⟩ : ∃ rest, start = '<' :: c :: rest :=
    ⟨start.drop 2, by rw [← List.take_append_drop 2 start, hstart]; simp⟩
  constructor
  · intro d t hd
    exact h _ (if_neg (asciiLowerChar_ne_bracket hd).symm)
  · intro d t hd
    exact h _ ((if_pos rfl).trans (if_neg fun he => hd (he.symm.trans hc)))

end ReadsTag

variable {language title stylesheet block rest : Text}

end StaticSite.Head
