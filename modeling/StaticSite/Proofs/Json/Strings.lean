import Mathlib.Tactic.SplitIfs
import StaticSite.Json.Parser
import StaticSite.Json.Printer

/-!
# JSON strings

A quoted text is read as that text, whatever characters it holds and whatever follows, and it has no line ends.
-/
namespace StaticSite.Json

theorem hexValue?_hexDigit {n : Nat} (h : n < 16) : Text.hexValue? (Text.hexDigit n) = some n := by
  revert n
  decide

/-! ## One character -/

section Character

variable (fuel : Nat) (rest : Text) {c d : Char}

/-- What a string holds after one character of it has been read. -/
def withFirst (c : Char) (found : Text × Text) : Text × Text := (c :: found.1, found.2)

theorem stringRest?_plain (hquote : c ≠ '"') (hbackslash : c ≠ '\\') (hcontrol : ¬c.val < 0x20) :
    stringRest? (fuel + 1) (c :: rest) = (stringRest? fuel rest).map (withFirst c) := by
  rw [stringRest?]
  · simp only [hcontrol, hbackslash, decide_false, beq_eq_false_iff_ne.mpr, ne_eq, not_false_eq_true, Bool.or_self,
      Bool.false_eq_true, if_false]
    rfl
  · simp [hquote]
  · simp [hbackslash]
  · simp [hbackslash]

theorem stringRest?_short (hunicode : c ≠ 'u') (h : shortEscape? c = some d) :
    stringRest? (fuel + 1) ('\\' :: c :: rest) = (stringRest? fuel rest).map (withFirst d) := by
  rw [stringRest?]
  · simp only [h, Option.bind_eq_bind, Option.bind_some]
    exact Option.map_eq_bind.symm
  · simp [hunicode]

/-- A control character is written as an escape with four digits, of which the first two are zero. -/
theorem stringRest?_control {n : Nat} (h : n < 0x20) :
    stringRest? (fuel + 1) ('\\' :: 'u' :: '0' :: '0' :: Text.hexDigit (n / 16) :: Text.hexDigit (n % 16) :: rest) =
      (stringRest? fuel rest).map (withFirst (Char.ofNat n)) := by
  have hzero : Text.hexValue? '0' = some 0 := by decide
  have hhigh := hexValue?_hexDigit (n := n / 16) (by omega)
  have hlow := hexValue?_hexDigit (n := n % 16) (by omega)
  have hvalue : ((0 * 16 + 0) * 16 + n / 16) * 16 + n % 16 = n := by omega
  have hescape : unicodeEscape? ('0' :: '0' :: Text.hexDigit (n / 16) :: Text.hexDigit (n % 16) :: rest) =
      some (Char.ofNat n, rest) := by
    simp only [unicodeEscape?, hex4?, hzero, hhigh, hlow, hvalue, Option.bind_eq_bind, Option.bind_some]
    rw [if_neg (by simp; omega), if_neg (by simp; omega)]
  rw [stringRest?, hescape]
  exact Option.map_eq_bind.symm

theorem stringRest?_escapeChar (c : Char) :
    stringRest? (fuel + 1) (escapeChar c ++ rest) = (stringRest? fuel rest).map (withFirst c) := by
  unfold escapeChar
  split
  · exact stringRest?_short fuel rest (by decide) rfl
  · exact stringRest?_short fuel rest (by decide) rfl
  · exact stringRest?_short fuel rest (by decide) rfl
  · exact stringRest?_short fuel rest (by decide) rfl
  · exact stringRest?_short fuel rest (by decide) rfl
  · exact stringRest?_short fuel rest (by decide) rfl
  · exact stringRest?_short fuel rest (by decide) rfl
  · rename_i hquote hbackslash _ _ _ _ _
    split_ifs with hcontrol
    · have hescape := stringRest?_control fuel rest (UInt32.lt_iff_toNat_lt.mp hcontrol)
      have hchar : Char.ofNat c.val.toNat = c := Char.ofNat_toNat c
      rwa [hchar] at hescape
    · exact stringRest?_plain fuel rest hquote hbackslash hcontrol

theorem escapeChar_ne_nil (c : Char) : escapeChar c ≠ [] := by
  unfold escapeChar
  split
  all_goals try simp
  split_ifs <;> simp

theorem not_mem_escapeChar (c : Char) : '\n' ∉ escapeChar c := by
  have hdigit : ∀ n < 16, Text.hexDigit n ≠ '\n' := by decide
  unfold escapeChar
  split
  all_goals try decide
  rename_i hnewline _ _ _ _
  split_ifs with hcontrol
  · have hlt : c.val.toNat < 0x20 := UInt32.lt_iff_toNat_lt.mp hcontrol
    intro hmem
    rcases List.mem_append.mp hmem with hmem | hmem
    · exact absurd hmem (by decide)
    · simp only [List.mem_cons, List.not_mem_nil, or_false] at hmem
      rcases hmem with hmem | hmem
      · exact hdigit (c.val.toNat / 16) (by omega) hmem.symm
      · exact hdigit (c.val.toNat % 16) (by omega) hmem.symm
  · simpa using Ne.symm hnewline

end Character

/-! ## Whole strings -/

/-- A quoted text is read as that text. -/
theorem stringRest?_quoted {fuel : Nat} (t rest : Text) (h : t.length < fuel) :
    stringRest? fuel (t.flatMap escapeChar ++ '"' :: rest) = some (t, rest) := by
  induction t generalizing fuel with
  | nil =>
    obtain ⟨fuel, rfl⟩ := Nat.exists_eq_succ_of_ne_zero (Nat.ne_zero_of_lt h)
    rfl
  | cons c t ih =>
    obtain ⟨fuel, rfl⟩ := Nat.exists_eq_succ_of_ne_zero (Nat.ne_zero_of_lt h)
    rw [List.flatMap_cons, List.append_assoc, stringRest?_escapeChar, ih (Nat.lt_of_succ_lt_succ h)]
    rfl

theorem length_le_flatMap_escapeChar (t : Text) : t.length ≤ (t.flatMap escapeChar).length := by
  induction t with
  | nil => exact Nat.le_refl _
  | cons c t ih =>
    have hc := List.length_pos_iff.mpr (escapeChar_ne_nil c)
    simp only [List.flatMap_cons, List.length_cons, List.length_append]
    omega

/-- A quoted text ends at its own closing quote. -/
theorem stringRest?_quote (t rest : Text) :
    stringRest? ((t.flatMap escapeChar ++ '"' :: rest).length + 1) (t.flatMap escapeChar ++ '"' :: rest) =
      some (t, rest) := by
  have hlength := length_le_flatMap_escapeChar t
  refine stringRest?_quoted t rest ?_
  rw [List.length_append]
  omega

theorem quote_append (t rest : Text) : quote t ++ rest = '"' :: (t.flatMap escapeChar ++ '"' :: rest) := by
  simp [quote]

theorem skipSpace_cons {c : Char} (h : isSpace c = false) (t : Text) : skipSpace (c :: t) = c :: t :=
  List.dropWhile_cons_of_neg (by simp [h])

theorem value?_quote (fuel depth : Nat) (t rest : Text) :
    value? (fuel + 1) depth (quote t ++ rest) = some (.string t, rest) := by
  rw [quote_append, value?, skipSpace_cons rfl]
  exact congrArg (Option.map fun found => (Json.string found.1, found.2)) (stringRest?_quote t rest)

theorem parse?_quote (t : Text) : parse? (quote t) = some (.string t) := by
  have hvalue := value?_quote (2 * (quote t).length + 1) maxDepth t []
  rw [List.append_nil] at hvalue
  rw [parse?, parseWithin?, hvalue]
  rfl

theorem not_mem_quote (t : Text) : '\n' ∉ quote t := by
  simp only [quote, List.mem_cons, List.mem_append, List.mem_flatMap, not_or, not_exists, not_and]
  exact ⟨⟨by decide, fun c _ => not_mem_escapeChar c⟩, by decide⟩

end StaticSite.Json
