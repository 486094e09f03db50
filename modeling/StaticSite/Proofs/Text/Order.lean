import StaticSite.Proofs.Table
import StaticSite.Text.Bytes

/-!
# The order of text and of bytes

Text in ascending order of its characters is in ascending order of its bytes, since UTF-8 gives the greater
character the greater bytes.
-/
namespace StaticSite.Text

theorem charBytes_lt (c : Char) : ∀ b ∈ charBytes c, b < 256 := by
  have hc : c.val.toNat < 0x110000 := by
    have := c.valid
    simp only [UInt32.isValidChar, Nat.isValidChar] at this
    omega
  intro b hb
  dsimp only [charBytes] at hb
  split_ifs at hb <;> simp only [List.mem_cons, List.not_mem_nil, or_false] at hb <;> omega

theorem charBytes_ne_nil (c : Char) : charBytes c ≠ [] := by
  dsimp only [charBytes]
  split_ifs <;> simp

/-- The greater character has the greater bytes, whatever follows. -/
theorem charBytes_append_lt {c d : Char} (h : c < d) (xs ys : List Nat) :
    charBytes c ++ xs < charBytes d ++ ys := by
  have hlt : c.val.toNat < d.val.toNat := h
  have hd : d.val.toNat < 0x110000 := by
    have := d.valid
    simp only [UInt32.isValidChar, Nat.isValidChar] at this
    omega
  dsimp only [charBytes]
  split_ifs <;>
    simp only [List.cons_append, List.nil_append, List.cons_lt_cons_iff] <;> omega

theorem map_toUInt8_lt {xs ys : List Nat} (hxs : ∀ b ∈ xs, b < 256) (hys : ∀ b ∈ ys, b < 256)
    (h : xs < ys) : xs.map Nat.toUInt8 < ys.map Nat.toUInt8 := by
  induction xs generalizing ys with
  | nil =>
    cases ys with
    | nil => simp at h
    | cons b bs => simp
  | cons a as ih =>
    cases ys with
    | nil => simp at h
    | cons b bs =>
      have ha := hxs a List.mem_cons_self
      have hb := hys b List.mem_cons_self
      simp only [List.map_cons, List.cons_lt_cons_iff] at h ⊢
      rcases h with h | ⟨rfl, h⟩
      · left
        rw [UInt8.lt_iff_toNat_lt, UInt8.toNat_ofNat', UInt8.toNat_ofNat']
        omega
      · right
        exact ⟨rfl, ih (fun b hb => hxs b (List.mem_cons_of_mem _ hb))
          (fun b hb => hys b (List.mem_cons_of_mem _ hb)) h⟩

theorem flatMap_charBytes_lt {a b : Text} (h : a < b) : a.flatMap charBytes < b.flatMap charBytes := by
  induction a generalizing b with
  | nil =>
    cases b with
    | nil => simp at h
    | cons d ds =>
      cases hd : charBytes d with
      | nil => exact absurd hd (charBytes_ne_nil d)
      | cons x xs => simp [hd]
  | cons c cs ih =>
    cases b with
    | nil => simp at h
    | cons d ds =>
      rw [List.flatMap_cons, List.flatMap_cons]
      rcases List.cons_lt_cons_iff.mp h with hchar | ⟨rfl, hrest⟩
      · exact charBytes_append_lt hchar _ _
      · exact List.append_left_lt (ih hrest)

theorem bytes_lt_of_lt {a b : Text} (h : a < b) : a.bytes < b.bytes := by
  have hlt (t : Text) : ∀ x ∈ t.flatMap charBytes, x < 256 := by
    intro x hx
    obtain ⟨c, -, hc⟩ := List.mem_flatMap.mp hx
    exact charBytes_lt c x hc
  exact map_toUInt8_lt (hlt a) (hlt b) (flatMap_charBytes_lt h)

/-- Text is ordered as its bytes are. -/
theorem bytes_lt_bytes_iff (a b : Text) : a.bytes < b.bytes ↔ a < b := by
  refine ⟨fun h => ?_, bytes_lt_of_lt⟩
  rcases lt_trichotomy a b with hlt | rfl | hgt
  · exact hlt
  · exact absurd h (List.lt_irrefl a.bytes)
  · exact absurd h (List.lt_asymm (bytes_lt_of_lt hgt))

end StaticSite.Text
