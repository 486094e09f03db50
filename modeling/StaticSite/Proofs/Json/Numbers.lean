import Mathlib.Data.List.TakeWhile
import Mathlib.Tactic.SplitIfs
import StaticSite.Json.Parser
import StaticSite.Json.Printer

/-!
# JSON numbers

A whole number is read as it was written, and how a number is read is not changed by what follows it, as long as that
cannot go on with the number.
-/
namespace StaticSite.Json

open Decimal (Binary64)

/-! ## Digits -/

theorem isAsciiDigit_of_isDigit {c : Char} (h : c.isDigit = true) : Text.isAsciiDigit c = true := by
  simpa [Text.isAsciiDigit, Char.isDigit, Char.le_def, and_comm] using h

theorem isAsciiDigit_of_mem_ofNat {n : Nat} {c : Char} (h : c ∈ Text.ofNat n) : Text.isAsciiDigit c = true :=
  isAsciiDigit_of_isDigit (Nat.isDigit_of_mem_toDigits (by decide) (by decide) h)

theorem ofNat_ne_nil (n : Nat) : Text.ofNat n ≠ [] := Nat.toDigits_ne_nil

theorem ofNat_of_lt {n : Nat} (h : n < 10) : Text.ofNat n = [Nat.digitChar n] := Nat.toDigits_of_lt_base h

theorem ofNat_of_le {n : Nat} (h : 10 ≤ n) : Text.ofNat n = Text.ofNat (n / 10) ++ [Nat.digitChar (n % 10)] :=
  Nat.toDigits_of_base_le (by decide) h

theorem digitChar_toNat {n : Nat} (h : n < 10) : (Nat.digitChar n).toNat - 48 = n := by
  revert n
  decide

theorem digitChar_ne_zero {n : Nat} (h : n < 10) (hpos : 0 < n) : Nat.digitChar n ≠ '0' := by
  revert n
  decide

/-- No number but zero starts with a zero. -/
theorem head?_ofNat_ne_zero {n : Nat} (h : 0 < n) : (Text.ofNat n).head? ≠ some '0' := by
  induction n using Nat.strongRecOn with
  | ind n ih =>
    rcases Nat.lt_or_ge n 10 with hlt | hge
    · rw [ofNat_of_lt hlt]
      simpa using digitChar_ne_zero hlt h
    · rw [ofNat_of_le hge, List.head?_append, Option.or_of_isSome (by simpa using ofNat_ne_nil (n / 10))]
      exact ih (n / 10) (by omega) (by omega)

/-- The digits of a number have no needless zero in front. -/
theorem plain_ofNat (n : Nat) :
    ((Text.ofNat n).isEmpty || (1 < (Text.ofNat n).length && (Text.ofNat n).head? == some '0')) = false := by
  have hempty : (Text.ofNat n).isEmpty = false := by simpa using ofNat_ne_nil n
  rcases Nat.eq_zero_or_pos n with rfl | hpos
  · rfl
  · simp [hempty, head?_ofNat_ne_zero hpos]

theorem takeDigits_append {n k : Nat} {s : Text} (h : takeDigits n s = (k, [])) (t : Text) :
    takeDigits n (s ++ t) = takeDigits k t := by
  induction s generalizing n with
  | nil =>
    rw [takeDigits, Prod.mk.injEq] at h
    rw [h.1, List.nil_append]
  | cons c s ih =>
    simp only [takeDigits] at h
    simp only [List.cons_append, takeDigits]
    split_ifs at h ⊢
    · exact ih h
    · cases h

/-- The digits of a number that fits are taken up as that number. -/
theorem takeDigits_ofNat {n : Nat} (h : n < wordLimit) : takeDigits 0 (Text.ofNat n) = (n, []) := by
  induction n using Nat.strongRecOn with
  | ind n ih =>
    rcases Nat.lt_or_ge n 10 with hlt | hge
    · rw [ofNat_of_lt hlt]
      simp [takeDigits, digitChar_toNat hlt, h]
    · have hdigit := digitChar_toNat (Nat.mod_lt n (by decide : 0 < 10))
      have hnext : 10 * (n / 10) + n % 10 = n := Nat.div_add_mod n 10
      rw [ofNat_of_le hge, takeDigits_append (ih (n / 10) (by omega) (by omega))]
      simp [takeDigits, hdigit, hnext, h]

theorem takeDigits_lt {n : Nat} (h : n < wordLimit) (t : Text) : (takeDigits n t).1 < wordLimit := by
  induction t generalizing n with
  | nil => exact h
  | cons c t ih =>
    simp only [takeDigits]
    split_ifs with hnext
    · exact ih hnext
    · exact h

/-! ## What ends a number -/

/-- A text cannot go on with a number. -/
def EndsNumber (rest : Text) : Prop :=
  ∀ c ∈ rest.head?, Text.isAsciiDigit c = false ∧ c ≠ '.' ∧ c ≠ 'e' ∧ c ≠ 'E'

theorem endsNumber_nil : EndsNumber [] := by
  intro c h
  cases h

theorem endsNumber_cons {c : Char} {rest : Text} (hdigit : Text.isAsciiDigit c = false) (hpoint : c ≠ '.')
    (hsmall : c ≠ 'e') (hlarge : c ≠ 'E') : EndsNumber (c :: rest) := by
  intro d hd
  obtain rfl := Option.some.inj hd
  exact ⟨hdigit, hpoint, hsmall, hlarge⟩

section Following

variable {negative : Bool} {n : Nat} {base : Int} {left t u rest : Text} {v : Json}

theorem takeWhile_digits_append (h : EndsNumber rest) (t : Text) :
    (t ++ rest).takeWhile Text.isAsciiDigit = t.takeWhile Text.isAsciiDigit := by
  induction t with
  | nil =>
    cases rest with
    | nil => rfl
    | cons c rest => simp [(h c rfl).1]
  | cons c t ih => rw [List.cons_append, List.takeWhile_cons, List.takeWhile_cons, ih]

theorem drop_digits_append (t rest : Text) :
    (t ++ rest).drop (t.takeWhile Text.isAsciiDigit).length =
      t.drop (t.takeWhile Text.isAsciiDigit).length ++ rest :=
  List.drop_append_of_le_length (List.takeWhile_prefix _).length_le

theorem float?_append (h : float? negative n base t = some (v, u)) (rest : Text) :
    float? negative n base (t ++ rest) = some (v, u ++ rest) := by
  obtain ⟨x, hx, hv⟩ := Option.map_eq_some_iff.mp h
  obtain ⟨rfl, rfl⟩ := Prod.mk.inj hv
  simp [float?, hx]

theorem sign_append (h : t ≠ []) : sign (t ++ rest) = ((sign t).1, (sign t).2 ++ rest) := by
  obtain ⟨c, t, rfl⟩ := List.exists_cons_of_ne_nil h
  rw [List.cons_append, sign.eq_def, sign.eq_def]
  by_cases hminus : c = '-'
  · subst hminus
    rfl
  · simp [hminus]

theorem exponentSign_append (h : t ≠ []) :
    exponentSign (t ++ rest) = ((exponentSign t).1, (exponentSign t).2 ++ rest) := by
  obtain ⟨c, t, rfl⟩ := List.exists_cons_of_ne_nil h
  rw [List.cons_append, exponentSign.eq_def, exponentSign.eq_def]
  by_cases hplus : c = '+'
  · subst hplus
    rfl
  · by_cases hminus : c = '-'
    · subst hminus
      rfl
    · simp [hplus, hminus]

theorem exponent?_append {e : Int} (h : exponent? t = some (e, u)) (hrest : EndsNumber rest) :
    exponent? (t ++ rest) = some (e, u ++ rest) := by
  have hne : t ≠ [] := by
    rintro rfl
    cases h
  simp only [exponent?, exponentSign_append hne, takeWhile_digits_append hrest, drop_digits_append] at h ⊢
  split_ifs at h ⊢
  · obtain ⟨rfl, rfl⟩ := Prod.mk.inj (Option.some.inj h)
    rfl
  · obtain ⟨rfl, rfl⟩ := Prod.mk.inj (Option.some.inj h)
    rfl

theorem withExponent?_letter {c : Char} (h : c = 'e' ∨ c = 'E') :
    withExponent? negative n base (c :: t) =
      (exponent? t).bind fun found => float? negative n (base + found.1) found.2 := by
  rcases h with rfl | rfl
  all_goals
    simp only [withExponent?]
    cases exponent? t <;> rfl

theorem withExponent?_plain (h : ∀ c ∈ t.head?, c ≠ 'e' ∧ c ≠ 'E') :
    withExponent? negative n base t = float? negative n base t := by
  cases t with
  | nil => rfl
  | cons c t => simp [withExponent?, (h c rfl).1, (h c rfl).2]

theorem EndsNumber.noExponent (h : EndsNumber rest) : ∀ c ∈ rest.head?, c ≠ 'e' ∧ c ≠ 'E' :=
  fun c hc => (h c hc).2.2

theorem withExponent?_append (h : withExponent? negative n base t = some (v, u)) (hrest : EndsNumber rest) :
    withExponent? negative n base (t ++ rest) = some (v, u ++ rest) := by
  cases t with
  | nil =>
    rw [List.nil_append, withExponent?_plain hrest.noExponent]
    exact float?_append h rest
  | cons c t =>
    by_cases hletter : c = 'e' ∨ c = 'E'
    · rw [withExponent?_letter hletter] at h
      obtain ⟨⟨e, t'⟩, hexponent, hfloat⟩ := Option.bind_eq_some_iff.mp h
      rw [List.cons_append, withExponent?_letter hletter, exponent?_append hexponent hrest]
      exact float?_append hfloat rest
    · have hplain : ∀ d ∈ (c :: t).head?, d ≠ 'e' ∧ d ≠ 'E' := by
        intro d hd
        obtain rfl := Option.some.inj hd
        exact not_or.mp hletter
      rw [withExponent?_plain hplain] at h
      rw [withExponent?_plain (by simpa using hplain)]
      exact float?_append h rest

theorem fraction?_append (h : fraction? negative n left t = some (v, u)) (hrest : EndsNumber rest) :
    fraction? negative n left (t ++ rest) = some (v, u ++ rest) := by
  simp only [fraction?, takeWhile_digits_append hrest, drop_digits_append] at h ⊢
  split at h
  · cases h
  · rename_i hdigits
    rw [if_neg hdigits]
    exact withExponent?_append h hrest

theorem whole?_append (h : whole? negative n left t = some (v, u)) (rest : Text) :
    whole? negative n left (t ++ rest) = some (v, u ++ rest) := by
  unfold whole? at h ⊢
  split_ifs at h ⊢
  · exact float?_append h rest
  · obtain ⟨rfl, rfl⟩ := Prod.mk.inj (Option.some.inj h)
    rfl
  · exact float?_append h rest
  · obtain ⟨rfl, rfl⟩ := Prod.mk.inj (Option.some.inj h)
    rfl

theorem afterDigits?_whole (h : ∀ c ∈ t.head?, c ≠ '.' ∧ c ≠ 'e' ∧ c ≠ 'E') :
    afterDigits? negative n left t = whole? negative n left t := by
  cases t with
  | nil => rfl
  | cons c t =>
    obtain ⟨hpoint, hsmall, hlarge⟩ := h c rfl
    simp [afterDigits?, hpoint, hsmall, hlarge]

theorem EndsNumber.whole (h : EndsNumber rest) : ∀ c ∈ rest.head?, c ≠ '.' ∧ c ≠ 'e' ∧ c ≠ 'E' :=
  fun c hc => (h c hc).2

theorem afterDigits?_append (h : afterDigits? negative n left t = some (v, u)) (hrest : EndsNumber rest) :
    afterDigits? negative n left (t ++ rest) = some (v, u ++ rest) := by
  cases t with
  -- nothing was left, so what follows must not be taken for a fraction or an exponent
  | nil =>
    rw [List.nil_append, afterDigits?_whole hrest.whole]
    exact whole?_append h rest
  | cons c t =>
    by_cases hpoint : c = '.'
    · subst hpoint
      exact fraction?_append h hrest
    · by_cases hletter : c = 'e' ∨ c = 'E'
      · have hexponent (t : Text) :
            afterDigits? negative n left (c :: t) = withExponent? negative n left.length (c :: t) := by
          rcases hletter with rfl | rfl
          all_goals rfl
        rw [hexponent] at h
        rw [List.cons_append, hexponent]
        exact withExponent?_append h hrest
      · have hwhole : ∀ d ∈ (c :: t).head?, d ≠ '.' ∧ d ≠ 'e' ∧ d ≠ 'E' := by
          intro d hd
          obtain rfl := Option.some.inj hd
          exact ⟨hpoint, not_or.mp hletter⟩
        rw [afterDigits?_whole hwhole] at h
        rw [afterDigits?_whole (by simpa using hwhole)]
        exact whole?_append h rest

/-- A number is read in front of what cannot go on with it as it is read alone. -/
theorem number?_append (h : number? t = some (v, u)) (hrest : EndsNumber rest) :
    number? (t ++ rest) = some (v, u ++ rest) := by
  have hne : t ≠ [] := by
    rintro rfl
    cases h
  simp only [number?, sign_append hne, takeWhile_digits_append hrest, drop_digits_append] at h ⊢
  split at h
  · cases h
  · rename_i hdigits
    rw [if_neg hdigits]
    exact afterDigits?_append h hrest

end Following

/-! ## Whole numbers -/

/-- The whole numbers that are not read into the binary format: they fit into 64 bits, with a sign or without. -/
def Fits (n : Int) : Prop := -9223372036854775808 ≤ n ∧ n < 18446744073709551616

theorem wordLimit_eq : wordLimit = 18446744073709551616 := rfl

/-- What is tried before a negative number is taken for a whole one. -/
theorem negativeFits_iff (n : Nat) :
    (n == 0 || Nat.pow 2 63 < n) = false ↔ n ≠ 0 ∧ n ≤ 9223372036854775808 := by
  rw [Bool.or_eq_false_iff, beq_eq_false_iff_ne, decide_eq_false_iff_not, Nat.not_lt]

theorem number?_digits (negative : Bool) {n : Nat} {t : Text} (h : n < wordLimit)
    (hsign : sign t = (negative, Text.ofNat n)) : number? t = whole? negative n [] [] := by
  have hdigits : (Text.ofNat n).takeWhile Text.isAsciiDigit = Text.ofNat n :=
    List.takeWhile_eq_self_iff.mpr fun _ => isAsciiDigit_of_mem_ofNat
  simp only [number?, hsign, hdigits, plain_ofNat, takeDigits_ofNat h, List.drop_length]
  rfl

theorem sign_digits {t : Text} (h : ∀ c ∈ t, Text.isAsciiDigit c = true) : sign t = (false, t) := by
  cases t with
  | nil => rfl
  | cons c t =>
    have hminus : c ≠ '-' := by
      rintro rfl
      exact absurd (h '-' List.mem_cons_self) (by decide)
    simp [sign, hminus]

/-- A whole number is read as it was written. -/
theorem number?_ofInt {n : Int} (h : Fits n) : number? (Text.ofInt n) = some (.integer n, []) := by
  have hlimit := wordLimit_eq
  obtain ⟨hlow, hhigh⟩ := h
  rw [Text.ofInt]
  split_ifs with hneg
  · have hwhole : whole? true n.natAbs [] [] = some (.integer (-(n.natAbs : Int)), []) := by
      have hword := (negativeFits_iff n.natAbs).mpr ⟨by omega, by omega⟩
      simp only [whole?, List.isEmpty_nil, Bool.not_true, Bool.false_eq_true, if_false, hword]
    rw [number?_digits true (by omega) rfl, hwhole, Int.ofNat_natAbs_of_nonpos (Int.le_of_lt hneg), Int.neg_neg]
  · rw [number?_digits false (by omega) (sign_digits fun _ => isAsciiDigit_of_mem_ofNat)]
    have hnatAbs : (n.natAbs : Int) = n := Int.natAbs_of_nonneg (Int.not_lt.mp hneg)
    simp [whole?, hnatAbs]

section Reading

variable {negative : Bool} {k : Nat} {base : Int} {left t rest : Text} {v : Json}

theorem float?_eq_some (h : float? negative k base t = some (v, rest)) : ∃ x, v = .float x := by
  obtain ⟨x, -, hv⟩ := Option.map_eq_some_iff.mp h
  exact ⟨_, (Prod.mk.inj hv).1.symm⟩

theorem withExponent?_eq_some (h : withExponent? negative k base t = some (v, rest)) : ∃ x, v = .float x := by
  unfold withExponent? at h
  split at h
  · split at h
    · cases h
    · exact float?_eq_some h
  · split at h
    · cases h
    · exact float?_eq_some h
  · exact float?_eq_some h

theorem fraction?_eq_some (h : fraction? negative k left t = some (v, rest)) : ∃ x, v = .float x := by
  simp only [fraction?] at h
  split at h
  · cases h
  · exact withExponent?_eq_some h

/-- A number that is read is a fitting whole number or one of the binary format. -/
theorem whole?_eq_some (hk : k < wordLimit) (h : whole? negative k left t = some (v, rest)) :
    (∃ n, v = .integer n ∧ Fits n) ∨ ∃ x, v = .float x := by
  have hlimit := wordLimit_eq
  unfold whole? at h
  split_ifs at h with hleft hnegative hword
  · exact .inr (float?_eq_some h)
  · exact .inl ⟨_, (Prod.mk.inj (Option.some.inj h)).1.symm, by constructor <;> omega⟩
  · exact .inr (float?_eq_some h)
  · have hle := (negativeFits_iff k).mp (Bool.not_eq_true _ ▸ hword)
    exact .inl ⟨_, (Prod.mk.inj (Option.some.inj h)).1.symm, by constructor <;> omega⟩

theorem afterDigits?_eq_some (hk : k < wordLimit) (h : afterDigits? negative k left t = some (v, rest)) :
    (∃ n, v = .integer n ∧ Fits n) ∨ ∃ x, v = .float x := by
  unfold afterDigits? at h
  split at h
  · exact .inr (fraction?_eq_some h)
  · exact .inr (withExponent?_eq_some h)
  · exact .inr (withExponent?_eq_some h)
  · exact whole?_eq_some hk h

theorem number?_eq_some (h : number? t = some (v, rest)) : (∃ n, v = .integer n ∧ Fits n) ∨ ∃ x, v = .float x := by
  simp only [number?] at h
  split at h
  · cases h
  · exact afterDigits?_eq_some (takeDigits_lt (by decide) _) h

end Reading

/-- What a number starts with. -/
def StartsNumber (t : Text) : Prop := ∃ c u, t = c :: u ∧ (c = '-' ∨ Text.isAsciiDigit c = true)

theorem startsNumber_of_number? {v : Json} {t rest : Text} (h : number? t = some (v, rest)) : StartsNumber t := by
  cases t with
  | nil => cases h
  | cons c t =>
    refine ⟨c, t, rfl, ?_⟩
    by_contra hnot
    obtain ⟨hminus, hdigit⟩ := not_or.mp hnot
    have hsign : sign (c :: t) = (false, c :: t) := by simp [sign, hminus]
    simp [number?, hsign, hdigit] at h

end StaticSite.Json
