import StaticSite.Proofs.Json.Numbers
import StaticSite.Proofs.Json.Strings
import StaticSite.Proofs.Table

/-!
# JSON values

What is printed is read back: every value that a reader can give, as long as its floating-point numbers are read as
they were and as the reader permits its nesting. Floating-point numbers are an assumption here because the reader
rounds each of them more than once.
-/
namespace StaticSite

namespace Json

def toFloat? : Json → Option Decimal.Binary64
  | .float x => some x
  | _ => none

theorem toFloat?_eq_some_iff {v : Json} {x : Decimal.Binary64} : v.toFloat? = some x ↔ v = .float x := by
  cases v <;> simp [toFloat?]

end Json

namespace Decimal.Binary64

/-- A floating-point number is read from its text. -/
def ReadsBack (x : Binary64) : Prop := Json.number? (Json.float x).print = some (.float x, [])

theorem readsBack_iff (x : Binary64) : x.ReadsBack ↔
    (Json.number? (Json.float x).print).map (fun found => (found.1.toFloat?, found.2)) = some (some x, []) := by
  simp [ReadsBack, Option.map_eq_some_iff, Prod.ext_iff, Json.toFloat?_eq_some_iff]

instance (x : Binary64) : Decidable x.ReadsBack := decidable_of_iff _ (readsBack_iff x).symm

/-- The reader misses 123456789.12345679 by one in the last place. -/
example : ¬ReadsBack ⟨false, 0x419D6F34547E6B75⟩ := by decide +kernel

end Decimal.Binary64

namespace Json

/-! ## Parts of a value -/

mutual

/-- How many arrays and objects stand inside one another. -/
def nesting : Json → Nat
  | .array items => nestingItems items + 1
  | .object members => nestingMembers members + 1
  | _ => 0

def nestingItems : List Json → Nat
  | [] => 0
  | item :: rest => max item.nesting (nestingItems rest)

def nestingMembers : List (Text × Json) → Nat
  | [] => 0
  | (_, value) :: rest => max value.nesting (nestingMembers rest)

end

mutual

/-- The floating-point numbers of a value. -/
def floats : Json → List Decimal.Binary64
  | .float x => [x]
  | .array items => floatsItems items
  | .object members => floatsMembers members
  | _ => []

def floatsItems : List Json → List Decimal.Binary64
  | [] => []
  | item :: rest => item.floats ++ floatsItems rest

def floatsMembers : List (Text × Json) → List Decimal.Binary64
  | [] => []
  | (_, value) :: rest => value.floats ++ floatsMembers rest

end

/-- What a reader gives: whole numbers of 64 bits, and objects whose names ascend. -/
inductive Canonical : Json → Prop where
  | null : Canonical .null
  | bool (b : Bool) : Canonical (.bool b)
  | integer {n : Int} (h : Fits n) : Canonical (.integer n)
  | float (x : Decimal.Binary64) : Canonical (.float x)
  | string (t : Text) : Canonical (.string t)
  | array {items : List Json} (h : ∀ item ∈ items, Canonical item) : Canonical (.array items)
  | object {members : List (Text × Json)} (hascending : Table.Ascending members)
      (h : ∀ member ∈ members, Canonical member.2) : Canonical (.object members)

section Parts

variable {item : Json} {items : List Json} {member : Text × Json} {members : List (Text × Json)}

theorem mem_floatsItems {x : Decimal.Binary64} (h : item ∈ items) (hx : x ∈ item.floats) : x ∈ floatsItems items := by
  induction items with
  | nil => cases h
  | cons first rest ih =>
    rw [floatsItems]
    rcases List.mem_cons.mp h with rfl | h
    · exact List.mem_append_left _ hx
    · exact List.mem_append_right _ (ih h)

theorem mem_floatsMembers {x : Decimal.Binary64} (h : member ∈ members) (hx : x ∈ member.2.floats) :
    x ∈ floatsMembers members := by
  induction members with
  | nil => cases h
  | cons first rest ih =>
    rw [floatsMembers]
    rcases List.mem_cons.mp h with rfl | h
    · exact List.mem_append_left _ hx
    · exact List.mem_append_right _ (ih h)

end Parts

/-! ## Reading what was printed -/

/-- A value is read in front of what does not go on with a number, given a step for each character of its text. -/
def ReadsBack (v : Json) : Prop :=
  ∀ (fuel depth : Nat) (rest : Text), v.print.length ≤ fuel → v.nesting < depth → EndsNumber rest →
    value? fuel depth (v.print ++ rest) = some (v, rest)

section Reading

variable {fuel depth : Nat}

/-- The white space and the characters that other values than numbers start with. -/
def noNumberStarts : Text := ['n', 't', 'f', '"', '[', '\x7b', ' ', '\n', '\r', '\t']

theorem all_noNumberStarts : noNumberStarts.all (fun c => c != '-' && !Text.isAsciiDigit c) = true := by decide

/-- What starts with a digit or a minus is no other value than a number. -/
theorem value?_number {t : Text} (h : StartsNumber t) : value? (fuel + 1) depth t = number? t := by
  obtain ⟨c, u, rfl, hc⟩ := h
  have hword : ∀ d ∈ noNumberStarts, c ≠ d := by
    -- the character would be one that no number starts with
    rintro d hd rfl
    have hnone := List.all_eq_true.mp all_noNumberStarts c hd
    rcases hc with rfl | hdigit
    · cases hnone
    · simp [hdigit] at hnone
  have hspace : isSpace c = false := by
    simp [isSpace, hword ' ' (by decide), hword '\n' (by decide), hword '\r' (by decide), hword '\t' (by decide)]
  rw [value?, skipSpace_cons hspace]
  split
  all_goals try
    rename_i heq
    exact absurd (List.cons.inj heq).1 (hword _ (by decide))
  rfl

theorem endsNumber_separator {c : Char} (h : c ∈ [',', ']', '\x7d']) (rest : Text) : EndsNumber (c :: rest) := by
  simp only [List.mem_cons, List.not_mem_nil, or_false] at h
  rcases h with rfl | rfl | rfl
  all_goals exact endsNumber_cons (by decide) (by decide) (by decide) (by decide)

theorem printItems_cons_cons (item next : Json) (tail : List Json) :
    printItems (item :: next :: tail) = item.print ++ ',' :: printItems (next :: tail) := rfl

theorem printMembers_cons_cons (name : Text) (value : Json) (next : Text × Json) (tail : List (Text × Json)) :
    printMembers ((name, value) :: next :: tail) =
      quote name ++ ':' :: value.print ++ ',' :: printMembers (next :: tail) := rfl

theorem items?_printItems {items : List Json} (hne : items ≠ []) (h : ∀ item ∈ items, item.ReadsBack)
    (hfuel : (printItems items).length < fuel) (hdepth : nestingItems items < depth) (rest : Text) :
    items? fuel depth (printItems items ++ ']' :: rest) = some (items, rest) := by
  induction items generalizing fuel with
  | nil => exact absurd rfl hne
  | cons item tail ih =>
    obtain ⟨fuel, rfl⟩ := Nat.exists_eq_succ_of_ne_zero (Nat.ne_zero_of_lt hfuel)
    obtain ⟨hitem, htail⟩ := List.forall_mem_cons.mp h
    obtain ⟨hdepthItem, hdepthTail⟩ := Nat.max_lt.mp hdepth
    cases tail with
    | nil =>
      have hvalue := hitem fuel depth (']' :: rest) (Nat.le_of_lt_succ hfuel) hdepthItem
        (endsNumber_separator (by simp) rest)
      rw [printItems, items?, hvalue]
      rfl
    | cons next tail =>
      rw [printItems_cons_cons, List.length_append, List.length_cons] at hfuel
      have hlength : (printItems (next :: tail)).length < fuel := by omega
      have hvalue := hitem fuel depth (',' :: (printItems (next :: tail) ++ ']' :: rest)) (by omega) hdepthItem
        (endsNumber_separator (by simp) _)
      have hitems := ih (List.cons_ne_nil next tail) htail hlength hdepthTail
      rw [printItems_cons_cons, List.append_assoc, List.cons_append, items?, hvalue]
      exact congrArg (Option.bind · _) hitems

/-- Before the value of a member its name is read. -/
theorem members?_quote (name t : Text) :
    members? (fuel + 1) depth (quote name ++ ':' :: t) = (value? fuel depth t).bind fun found =>
      match skipSpace found.2 with
      | ',' :: rest => (members? fuel depth rest).bind fun members => some ((name, found.1) :: members.1, members.2)
      | '\x7d' :: rest => some ([(name, found.1)], rest)
      | _ => none := by
  rw [quote_append, members?, skipSpace_cons rfl]
  refine (congrArg (Option.bind · _) (stringRest?_quote name (':' :: t))).trans ?_
  rfl

theorem members?_printMembers {members : List (Text × Json)} (hne : members ≠ [])
    (h : ∀ member ∈ members, member.2.ReadsBack) (hfuel : (printMembers members).length < fuel)
    (hdepth : nestingMembers members < depth) (rest : Text) :
    members? fuel depth (printMembers members ++ '\x7d' :: rest) = some (members, rest) := by
  induction members generalizing fuel with
  | nil => exact absurd rfl hne
  | cons member tail ih =>
    obtain ⟨name, value⟩ := member
    obtain ⟨fuel, rfl⟩ := Nat.exists_eq_succ_of_ne_zero (Nat.ne_zero_of_lt hfuel)
    obtain ⟨hmember : value.ReadsBack, htail⟩ := List.forall_mem_cons.mp h
    obtain ⟨hdepthMember, hdepthTail⟩ := Nat.max_lt.mp hdepth
    cases tail with
    | nil =>
      rw [printMembers, List.length_append, List.length_cons] at hfuel
      have hvalue := hmember fuel depth ('\x7d' :: rest) (by omega) hdepthMember (endsNumber_separator (by simp) rest)
      rw [printMembers, List.append_assoc, List.cons_append, members?_quote, hvalue]
      rfl
    | cons next tail =>
      rw [printMembers_cons_cons, List.length_append, List.length_append, List.length_cons, List.length_cons] at hfuel
      have hlength : (printMembers (next :: tail)).length < fuel := by omega
      have hvalue := hmember fuel depth (',' :: (printMembers (next :: tail) ++ '\x7d' :: rest)) (by omega) hdepthMember
        (endsNumber_separator (by simp) _)
      have hmembers := ih (List.cons_ne_nil next tail) htail hlength hdepthTail
      have htext : printMembers ((name, value) :: next :: tail) ++ '\x7d' :: rest =
          quote name ++ ':' :: (value.print ++ ',' :: (printMembers (next :: tail) ++ '\x7d' :: rest)) := by
        simp [printMembers_cons_cons]
      rw [htext, members?_quote, hvalue]
      exact congrArg (Option.bind · _) hmembers

/-- What begins with a closing bracket is no value. -/
theorem value?_close {t rest : Text} (h : skipSpace t = ']' :: rest) : value? fuel depth t = none := by
  cases fuel with
  | zero => rfl
  | succ fuel =>
    rw [value?, h]
    rfl

theorem value?_items {t rest : Text} {items : List Json} (hdepth : 1 < depth)
    (h : items? fuel (depth - 1) t = some (items, rest)) :
    value? (fuel + 1) depth ('[' :: t) = some (.array items, rest) := by
  rw [value?, skipSpace_cons rfl]
  simp only [Nat.not_le.mpr hdepth, if_false]
  split
  · -- no first item is read from a closing bracket
    rename_i hclose
    cases fuel with
    | zero => cases h
    | succ fuel =>
      rw [items?, value?_close hclose] at h
      cases h
  · rw [h]
    rfl

theorem value?_members {t rest : Text} {members : List (Text × Json)} (hdepth : 1 < depth)
    (h : members? fuel (depth - 1) t = some (members, rest)) :
    value? (fuel + 1) depth ('\x7b' :: t) = some (ofMembers members, rest) := by
  rw [value?, skipSpace_cons rfl]
  simp only [Nat.not_le.mpr hdepth, if_false]
  split
  · rename_i hclose
    cases fuel with
    | zero => cases h
    | succ fuel =>
      rw [members?, hclose] at h
      cases h
  · rw [h]
    rfl

end Reading

theorem StartsNumber.append {t : Text} (h : StartsNumber t) (rest : Text) : StartsNumber (t ++ rest) := by
  obtain ⟨c, u, rfl, hc⟩ := h
  exact ⟨c, u ++ rest, rfl, hc⟩

theorem StartsNumber.length_pos {t : Text} (h : StartsNumber t) : 0 < t.length := by
  obtain ⟨c, u, rfl, -⟩ := h
  exact Nat.succ_pos _

/-- To read a value takes at least one step. -/
theorem readsBack_of_succ {v : Json} (hpos : 0 < v.print.length)
    (h : ∀ fuel depth rest, v.print.length ≤ fuel + 1 → v.nesting < depth → EndsNumber rest →
      value? (fuel + 1) depth (v.print ++ rest) = some (v, rest)) : v.ReadsBack := by
  intro fuel depth rest hfuel
  obtain ⟨fuel, rfl⟩ := Nat.exists_eq_succ_of_ne_zero (Nat.ne_zero_of_lt (hpos.trans_le hfuel))
  exact h fuel depth rest hfuel

theorem readsBack_of_number {v : Json} (h : number? v.print = some (v, [])) : v.ReadsBack := by
  have hstarts := startsNumber_of_number? h
  refine readsBack_of_succ hstarts.length_pos fun fuel depth rest _ _ hrest => ?_
  rw [value?_number (hstarts.append rest)]
  exact number?_append h hrest

theorem readsBack_array {items : List Json} (h : ∀ item ∈ items, item.ReadsBack) : (array items).ReadsBack := by
  have hprint : (array items).print = '[' :: (printItems items ++ [']']) := rfl
  refine readsBack_of_succ (by rw [hprint]; exact Nat.succ_pos _) fun fuel depth rest hfuel hdepth _ => ?_
  rw [hprint, List.length_cons, List.length_append, List.length_singleton] at hfuel
  rw [nesting] at hdepth
  rw [hprint, List.cons_append, List.append_assoc, List.singleton_append]
  by_cases hne : items = []
  · subst hne
    exact if_neg (by omega)
  · exact value?_items (by omega) (items?_printItems hne h (by omega) (by omega) rest)

theorem readsBack_object {members : List (Text × Json)} (hascending : Table.Ascending members)
    (h : ∀ member ∈ members, member.2.ReadsBack) : (object members).ReadsBack := by
  have hprint : (object members).print = '\x7b' :: (printMembers members ++ ['\x7d']) := rfl
  refine readsBack_of_succ (by rw [hprint]; exact Nat.succ_pos _) fun fuel depth rest hfuel hdepth _ => ?_
  rw [hprint, List.length_cons, List.length_append, List.length_singleton] at hfuel
  rw [nesting] at hdepth
  have hfuel' : (printMembers members).length < fuel := by omega
  rw [hprint, List.cons_append, List.append_assoc, List.singleton_append]
  by_cases hne : members = []
  · subst hne
    exact if_neg (by omega)
  · have hlevel : 1 < depth := by omega
    have hmembers := members?_printMembers hne h hfuel' (by omega : nestingMembers members < depth - 1) rest
    rw [value?_members hlevel hmembers, ofMembers, Table.ofEntries_of_ascending hascending]

/-- What a reader gives is read from its text. -/
theorem Canonical.readsBack {v : Json} (h : v.Canonical) (hfloats : ∀ x ∈ v.floats, x.ReadsBack) : v.ReadsBack := by
  induction h with
  | null => exact readsBack_of_succ (by decide) fun fuel depth rest _ _ _ => rfl
  | bool b =>
    cases b with
    | false => exact readsBack_of_succ (by decide) fun fuel depth rest _ _ _ => rfl
    | true => exact readsBack_of_succ (by decide) fun fuel depth rest _ _ _ => rfl
  | integer h => exact readsBack_of_number (number?_ofInt h)
  | float x => exact readsBack_of_number (hfloats x List.mem_cons_self)
  | string t => exact readsBack_of_succ (Nat.succ_pos _) fun fuel depth rest _ _ _ => value?_quote fuel depth t rest
  | array h ih =>
    refine readsBack_array fun item hitem => ih item hitem fun x hx => ?_
    exact hfloats x (mem_floatsItems hitem hx)
  | object hascending h ih =>
    refine readsBack_object hascending fun member hmember => ih member hmember fun x hx => ?_
    exact hfloats x (mem_floatsMembers hmember hx)

/-! ## What a reader gives -/

theorem nestingItems_lt {k : Nat} {items : List Json} (hk : 0 < k) (h : ∀ item ∈ items, item.nesting < k) :
    nestingItems items < k := by
  induction items with
  | nil => exact hk
  | cons first rest ih =>
    obtain ⟨hfirst, hrest⟩ := List.forall_mem_cons.mp h
    exact Nat.max_lt.mpr ⟨hfirst, ih hrest⟩

theorem nestingMembers_lt {k : Nat} {members : List (Text × Json)} (hk : 0 < k)
    (h : ∀ member ∈ members, member.2.nesting < k) : nestingMembers members < k := by
  induction members with
  | nil => exact hk
  | cons first rest ih =>
    obtain ⟨hfirst, hrest⟩ := List.forall_mem_cons.mp h
    exact Nat.max_lt.mpr ⟨hfirst, ih hrest⟩

/-- A canonical value of fewer than so many levels. -/
structure Within (depth : Nat) (v : Json) : Prop where
  canonical : v.Canonical
  nesting : v.nesting < depth

theorem Within.ofMembers {depth : Nat} {members : List (Text × Json)} (hdepth : 0 < depth)
    (h : ∀ member ∈ members, member.2.Within depth) : (ofMembers members).Within (depth + 1) := by
  obtain ⟨hascending, hmem⟩ := Table.ofEntries_spec members
  refine ⟨.object hascending fun member hmember => (h member (hmem member hmember)).canonical, ?_⟩
  exact Nat.succ_lt_succ (nestingMembers_lt hdepth fun member hmember => (h member (hmem member hmember)).nesting)

theorem Within.array {depth : Nat} {items : List Json} (hdepth : 0 < depth) (h : ∀ item ∈ items, item.Within depth) :
    (array items).Within (depth + 1) :=
  ⟨.array fun item hitem => (h item hitem).canonical,
    Nat.succ_lt_succ (nestingItems_lt hdepth fun item hitem => (h item hitem).nesting)⟩

/-- What is read with so many steps stays within the bound that the reader has. -/
structure ReadsWithin (fuel : Nat) : Prop where
  value : ∀ {depth : Nat} {t rest : Text} {v : Json}, 0 < depth → value? fuel depth t = some (v, rest) → v.Within depth
  items : ∀ {depth : Nat} {t rest : Text} {items : List Json}, 0 < depth → items? fuel depth t = some (items, rest) →
    ∀ item ∈ items, item.Within depth
  members : ∀ {depth : Nat} {t rest : Text} {members : List (Text × Json)}, 0 < depth →
    members? fuel depth t = some (members, rest) → ∀ member ∈ members, member.2.Within depth

section Steps

variable {fuel depth : Nat} {t rest : Text}

theorem within_of_number? {v : Json} (hdepth : 0 < depth) (h : number? t = some (v, rest)) : v.Within depth := by
  rcases number?_eq_some h with ⟨n, rfl, hn⟩ | ⟨x, rfl⟩
  · exact ⟨.integer hn, hdepth⟩
  · exact ⟨.float x, hdepth⟩

theorem eq_of_literal? {word : Text} {v w : Json} (h : literal? word w t = some (v, rest)) : v = w := by
  obtain ⟨_, -, hv⟩ := Option.map_eq_some_iff.mp h
  exact (Prod.mk.inj hv).1.symm

theorem within_of_value? (ih : ReadsWithin fuel) {v : Json} (hdepth : 0 < depth)
    (h : value? (fuel + 1) depth t = some (v, rest)) : v.Within depth := by
  rw [value?] at h
  split at h
  · exact eq_of_literal? h ▸ ⟨.null, hdepth⟩
  · exact eq_of_literal? h ▸ ⟨.bool true, hdepth⟩
  · exact eq_of_literal? h ▸ ⟨.bool false, hdepth⟩
  · obtain ⟨found, -, hv⟩ := Option.map_eq_some_iff.mp h
    obtain ⟨rfl, -⟩ := Prod.mk.inj hv
    exact ⟨.string _, hdepth⟩
  · split_ifs at h with hlevel
    obtain ⟨depth, rfl⟩ : ∃ k, depth = k + 1 := ⟨depth - 1, by omega⟩
    have hpos : 0 < depth := by omega
    split at h
    · obtain ⟨rfl, -⟩ := Prod.mk.inj (Option.some.inj h)
      exact .array hpos (by simp)
    · obtain ⟨found, hitems, hv⟩ := Option.map_eq_some_iff.mp h
      obtain ⟨rfl, -⟩ := Prod.mk.inj hv
      exact .array hpos (ih.items hpos hitems)
  · split_ifs at h with hlevel
    obtain ⟨depth, rfl⟩ : ∃ k, depth = k + 1 := ⟨depth - 1, by omega⟩
    have hpos : 0 < depth := by omega
    split at h
    · obtain ⟨rfl, -⟩ := Prod.mk.inj (Option.some.inj h)
      have hempty : (Json.ofMembers []).Within (depth + 1) := .ofMembers hpos (by simp)
      exact hempty
    · obtain ⟨found, hmembers, hv⟩ := Option.map_eq_some_iff.mp h
      obtain ⟨rfl, -⟩ := Prod.mk.inj hv
      exact .ofMembers hpos (ih.members hpos hmembers)
  · exact within_of_number? hdepth h

theorem within_of_items? (ih : ReadsWithin fuel) {items : List Json} (hdepth : 0 < depth)
    (h : items? (fuel + 1) depth t = some (items, rest)) : ∀ item ∈ items, item.Within depth := by
  rw [items?] at h
  obtain ⟨⟨item, after⟩, hitem, h⟩ := Option.bind_eq_some_iff.mp h
  have hfirst := ih.value hdepth hitem
  dsimp only at h
  split at h
  · obtain ⟨⟨tail, after'⟩, hitems, hv⟩ := Option.bind_eq_some_iff.mp h
    obtain ⟨rfl, -⟩ := Prod.mk.inj (Option.some.inj hv)
    exact List.forall_mem_cons.mpr ⟨hfirst, ih.items hdepth hitems⟩
  · obtain ⟨rfl, -⟩ := Prod.mk.inj (Option.some.inj h)
    simpa using hfirst
  · cases h

theorem within_of_members? (ih : ReadsWithin fuel) {members : List (Text × Json)} (hdepth : 0 < depth)
    (h : members? (fuel + 1) depth t = some (members, rest)) : ∀ member ∈ members, member.2.Within depth := by
  rw [members?] at h
  split at h
  · obtain ⟨⟨name, afterName⟩, -, h⟩ := Option.bind_eq_some_iff.mp h
    dsimp only at h
    split at h
    · obtain ⟨⟨value, afterValue⟩, hvalue, h⟩ := Option.bind_eq_some_iff.mp h
      have hfirst := ih.value hdepth hvalue
      dsimp only at h
      split at h
      · obtain ⟨⟨tail, afterTail⟩, hmembers, hv⟩ := Option.bind_eq_some_iff.mp h
        obtain ⟨rfl, -⟩ := Prod.mk.inj (Option.some.inj hv)
        exact List.forall_mem_cons.mpr ⟨hfirst, ih.members hdepth hmembers⟩
      · obtain ⟨rfl, -⟩ := Prod.mk.inj (Option.some.inj h)
        simpa using hfirst
      · cases h
    · cases h
  · cases h

end Steps

theorem readsWithin (fuel : Nat) : ReadsWithin fuel := by
  induction fuel with
  | zero =>
    refine ⟨?_, ?_, ?_⟩
    all_goals
      intro depth t rest found _ h
      cases h
  -- each of the three readers goes on with one step less
  | succ fuel ih => exact ⟨within_of_value? ih, within_of_items? ih, within_of_members? ih⟩

/-! ## Whole texts -/

theorem within_of_parseWithin? {limit : Nat} {t : Text} {v : Json} (hlimit : 0 < limit)
    (h : parseWithin? limit t = some v) : v.Within limit := by
  obtain ⟨⟨found, rest⟩, hvalue, hv⟩ := Option.bind_eq_some_iff.mp h
  dsimp only at hv
  split at hv
  · exact Option.some.inj hv ▸ (readsWithin _).value hlimit hvalue
  · cases hv

theorem within_of_parse? {t : Text} {v : Json} (h : parse? t = some v) : v.Within maxDepth :=
  within_of_parseWithin? (by decide) h

/-- What a reader gives is read from its text by every reader that permits its nesting. -/
theorem parseWithin?_print {v : Json} {limit : Nat} (h : v.Canonical) (hfloats : ∀ x ∈ v.floats, x.ReadsBack)
    (hlimit : v.nesting < limit) : parseWithin? limit v.print = some v := by
  have hvalue := h.readsBack hfloats (2 * v.print.length + 2) limit [] (by omega) hlimit endsNumber_nil
  rw [List.append_nil] at hvalue
  rw [parseWithin?, hvalue]
  rfl

/-- What was read once is read from its text again. -/
theorem parse?_print {t : Text} {v : Json} (h : parse? t = some v) (hfloats : ∀ x ∈ v.floats, x.ReadsBack) :
    parse? v.print = some v :=
  have hwithin := within_of_parse? h
  parseWithin?_print hwithin.canonical hfloats hwithin.nesting

end Json

end StaticSite
