import Mathlib.Data.List.Flatten
import Mathlib.Tactic.SplitIfs
import StaticSite.Text.Bytes

/-!
# Reading what has been written

The bytes of a text are read as the same text: the first byte of a character tells how many follow, and their
payloads together are its code point.
-/
namespace StaticSite.Text

variable {n : Nat}

theorem toNat_toUInt8 (h : n < 256) : n.toUInt8.toNat = n := by
  rw [UInt8.toNat_ofNat', Nat.mod_eq_of_lt h]

theorem toUInt8_lt_iff (h : n < 256) (bound : UInt8) : n.toUInt8 < bound ↔ n < bound.toNat := by
  rw [UInt8.lt_iff_toNat_lt, toNat_toUInt8 h]

theorem toUInt8_between_iff (h : n < 256) (least bound : UInt8) :
    (least ≤ n.toUInt8 && n.toUInt8 < bound) = true ↔ least.toNat ≤ n ∧ n < bound.toNat := by
  rw [Bool.and_eq_true, decide_eq_true_eq, decide_eq_true_eq, UInt8.le_iff_toNat_le, toNat_toUInt8 h,
    toUInt8_lt_iff h]

theorem not_toUInt8_lt (h : n < 256) (hn : 0x80 ≤ n) : ¬n.toUInt8 < 0x80 := by
  rw [toUInt8_lt_iff h]
  exact Nat.not_lt.mpr hn

theorem continuation?_eq (h : n < 0x40) : continuation? (0x80 + n).toUInt8 = some n := by
  have hbyte : 0x80 + n < 256 := by omega
  have hbetween := (toUInt8_between_iff hbyte 0x80 0xC0).mpr ⟨Nat.le_add_right .., Nat.add_lt_add_left h 0x80⟩
  rw [continuation?, if_pos hbetween, toNat_toUInt8 hbyte, Nat.add_sub_cancel_left]

theorem charFrom?_eq {c : Char} {least : Nat} (hn : n = c.val.toNat) (h : least ≤ n) : charFrom? least n = some c := by
  subst hn
  have hvalid : c.val.toNat.isValidChar := c.valid
  rw [charFrom?, if_neg (by omega), if_pos hvalid]
  exact congrArg some (Char.ofNat_toNat c)

/-! ## Characters of one to four bytes -/

variable {a y z w : Nat} (rest : List UInt8)

theorem ofBytes?_one (ha : a < 0x80) :
    ofBytes? (a.toUInt8 :: rest) = (ofBytes? rest).map (Char.ofNat a :: ·) := by
  have hbyte : a < 256 := by omega
  rw [ofBytes?.eq_def]
  dsimp only
  rw [if_pos ((toUInt8_lt_iff hbyte 0x80).mpr ha), toNat_toUInt8 hbyte]

theorem ofBytes?_two (ha : a < 0x20) (hy : y < 0x40) :
    ofBytes? ((0xC0 + a).toUInt8 :: (0x80 + y).toUInt8 :: rest) =
      (charFrom? 0x80 (a * 0x40 + y)).bind fun c => (ofBytes? rest).map (c :: ·) := by
  have hbyte : 0xC0 + a < 256 := by omega
  have hlead := (toUInt8_between_iff hbyte 0xC0 0xE0).mpr ⟨Nat.le_add_right .., Nat.add_lt_add_left ha 0xC0⟩
  rw [ofBytes?.eq_def]
  dsimp only
  rw [if_neg (not_toUInt8_lt hbyte (by omega)), continuation?_eq hy]
  dsimp only
  rw [if_pos hlead, toNat_toUInt8 hbyte, Nat.add_sub_cancel_left]
  rfl

theorem ofBytes?_three (ha : a < 0x10) (hy : y < 0x40) (hz : z < 0x40) :
    ofBytes? ((0xE0 + a).toUInt8 :: (0x80 + y).toUInt8 :: (0x80 + z).toUInt8 :: rest) =
      (charFrom? 0x800 ((a * 0x40 + y) * 0x40 + z)).bind fun c => (ofBytes? rest).map (c :: ·) := by
  have hbyte : 0xE0 + a < 256 := by omega
  have hlead := (toUInt8_between_iff hbyte 0xE0 0xF0).mpr ⟨Nat.le_add_right .., Nat.add_lt_add_left ha 0xE0⟩
  have hnotTwo : ¬((0xC0 ≤ (0xE0 + a).toUInt8 && (0xE0 + a).toUInt8 < 0xE0) = true) := by
    rw [toUInt8_between_iff hbyte]
    exact fun h => absurd h.2 (Nat.not_lt.mpr (Nat.le_add_right 0xE0 a))
  rw [ofBytes?.eq_def]
  dsimp only
  rw [if_neg (not_toUInt8_lt hbyte (by omega)), continuation?_eq hy]
  dsimp only
  rw [if_neg hnotTwo, continuation?_eq hz]
  dsimp only
  rw [if_pos hlead, toNat_toUInt8 hbyte, Nat.add_sub_cancel_left]
  rfl

theorem ofBytes?_four (ha : a < 0x8) (hy : y < 0x40) (hz : z < 0x40) (hw : w < 0x40) :
    ofBytes? ((0xF0 + a).toUInt8 :: (0x80 + y).toUInt8 :: (0x80 + z).toUInt8 :: (0x80 + w).toUInt8 :: rest) =
      (charFrom? 0x10000 (((a * 0x40 + y) * 0x40 + z) * 0x40 + w)).bind fun c => (ofBytes? rest).map (c :: ·) := by
  have hbyte : 0xF0 + a < 256 := by omega
  have hlead := (toUInt8_between_iff hbyte 0xF0 0xF8).mpr ⟨Nat.le_add_right .., Nat.add_lt_add_left ha 0xF0⟩
  have hshorter (least bound : UInt8) (hbound : bound.toNat ≤ 0xF0) :
      ¬((least ≤ (0xF0 + a).toUInt8 && (0xF0 + a).toUInt8 < bound) = true) := by
    rw [toUInt8_between_iff hbyte]
    omega
  rw [ofBytes?.eq_def]
  dsimp only
  rw [if_neg (not_toUInt8_lt hbyte (by omega)), continuation?_eq hy]
  dsimp only
  rw [if_neg (hshorter 0xC0 0xE0 (by decide)), continuation?_eq hz]
  dsimp only
  rw [if_neg (hshorter 0xE0 0xF0 (by decide)), continuation?_eq hw]
  dsimp only
  rw [if_pos hlead, toNat_toUInt8 hbyte, Nat.add_sub_cancel_left]
  rfl

/-- A character is read from its bytes, whatever follows. -/
theorem ofBytes?_charBytes (c : Char) :
    ofBytes? ((charBytes c).map Nat.toUInt8 ++ rest) = (ofBytes? rest).map (c :: ·) := by
  have hc : c.val.toNat < 0x110000 := by
    have := c.valid
    simp only [UInt32.isValidChar, Nat.isValidChar] at this
    omega
  unfold charBytes
  generalize hn : c.val.toNat = n at hc
  dsimp only
  split_ifs with h1 h2 h3
  · rw [List.map_singleton, List.singleton_append, ofBytes?_one rest h1, ← hn]
    exact congrArg (fun d => (ofBytes? rest).map (d :: ·)) (Char.ofNat_toNat c)
  · simp only [List.map_cons, List.map_nil, List.cons_append, List.nil_append]
    rw [ofBytes?_two rest (by omega) (by omega), charFrom?_eq (c := c) (by omega) (by omega)]
    rfl
  · simp only [List.map_cons, List.map_nil, List.cons_append, List.nil_append]
    rw [ofBytes?_three rest (by omega) (by omega) (by omega), charFrom?_eq (c := c) (by omega) (by omega)]
    rfl
  · simp only [List.map_cons, List.map_nil, List.cons_append, List.nil_append]
    rw [ofBytes?_four rest (by omega) (by omega) (by omega) (by omega), charFrom?_eq (c := c) (by omega) (by omega)]
    rfl

theorem ofBytes?_bytes (t : Text) : ofBytes? (bytes t) = some t := by
  induction t with
  | nil => rfl
  | cons c t ih =>
    have hcons : bytes (c :: t) = (charBytes c).map Nat.toUInt8 ++ bytes t := by simp [bytes]
    rw [hcons, ofBytes?_charBytes, ih]
    rfl

/-! ## Texts and their lengths -/

theorem bytes_append (t u : Text) : bytes (t ++ u) = bytes t ++ bytes u := by
  simp [bytes]

theorem length_bytes_pos (c : Char) : 0 < (bytes [c]).length := by
  simp only [bytes, List.flatMap_cons, List.flatMap_nil, List.append_nil, List.length_map]
  unfold charBytes
  dsimp only
  split_ifs <;> simp

theorem bytes_cons (c : Char) (t : Text) : bytes (c :: t) = bytes [c] ++ bytes t := bytes_append [c] t

theorem length_bytes_cons (c : Char) (t : Text) : (bytes t).length < (bytes (c :: t)).length := by
  have hpos := length_bytes_pos c
  rw [bytes_cons, List.length_append]
  omega

theorem length_bytes_le {t u : Text} (h : t.Sublist u) : (bytes t).length ≤ (bytes u).length :=
  ((h.flatMap charBytes).map Nat.toUInt8).length_le

end StaticSite.Text
