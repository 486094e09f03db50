import Mathlib.Data.List.Sort
import Mathlib.Data.Prod.Lex
import StaticSite.Component.Diagnostic
import StaticSite.Proofs.Table

/-!
# Reports in order

Diagnostics are compared by a key: ambiguous components first, then document, component and the rest. The
report of some diagnostics is their stable sort by this key.
-/
namespace StaticSite

namespace FilePath

/-- What a part is ordered by. -/
def Part.key (part : Part) : ℕ ×ₗ Text :=
  toLex (Part.before.rank part, match part with
    | .name t => t
    | _ => [])

theorem Part.before_eq_true_iff (a b : Part) : a.before b = true ↔ a.key < b.key := by
  cases a <;> cases b <;>
    simp [Part.before, Part.before.rank, Part.key, Prod.Lex.toLex_lt_toLex, Text.before_eq_true_iff]

theorem Part.key_injective : Function.Injective Part.key := by
  intro a b h
  cases a <;> cases b <;> simp_all [Part.key, Part.before.rank]

/-- What a path is ordered by: two texts of one path are in no order. -/
def orderKey (p : FilePath) : List (ℕ ×ₗ Text) := (parts p).map Part.key

theorem partsBefore_eq_true_iff (as bs : List Part) :
    partsBefore as bs = true ↔ as.map Part.key < bs.map Part.key := by
  induction as generalizing bs with
  | nil => cases bs <;> simp [partsBefore]
  | cons a as ih =>
    cases bs with
    | nil => simp [partsBefore]
    | cons b bs =>
      simp only [partsBefore, Bool.or_eq_true, Bool.and_eq_true, beq_iff_eq, Part.before_eq_true_iff, ih,
        List.map_cons, List.cons_lt_cons_iff, Part.key_injective.eq_iff]

theorem before_eq_true_iff (p q : FilePath) : before p q = true ↔ orderKey p < orderKey q :=
  partsBefore_eq_true_iff (parts p) (parts q)

theorem orderKey_eq_iff (p q : FilePath) : orderKey p = orderKey q ↔ parts p = parts q :=
  (List.map_injective_iff.mpr Part.key_injective).eq_iff

end FilePath

namespace Diagnostic

/-! ## The order -/

section

variable {α κ : Type} [LinearOrder κ] {before : α → α → Bool} {key : α → κ}

theorem comparison_eq_lt_iff (h : ∀ a b, before a b = true ↔ key a < key b) (a b : α) :
    comparison before a b = .lt ↔ key a < key b := by
  rw [comparison]
  split_ifs with hlt hgt
  · simpa using (h a b).mp hlt
  · simpa using ((h b a).mp hgt).le
  · simpa [h] using hlt

theorem comparison_eq_eq_iff (h : ∀ a b, before a b = true ↔ key a < key b) (a b : α) :
    comparison before a b = .eq ↔ key a = key b := by
  rw [comparison]
  split_ifs with hlt hgt
  · simpa using ((h a b).mp hlt).ne
  · simpa using ((h b a).mp hgt).ne'
  · have hle : key b ≤ key a := by simpa [h] using hlt
    have hge : key a ≤ key b := by simpa [h] using hgt
    simpa using le_antisymm hge hle

end

theorem comparePaths_eq_lt_iff (ps qs : List FilePath) :
    comparePaths ps qs = .lt ↔ ps.map FilePath.orderKey < qs.map FilePath.orderKey := by
  induction ps generalizing qs with
  | nil => cases qs <;> simp [comparePaths]
  | cons p ps ih =>
    cases qs with
    | nil => simp [comparePaths]
    | cons q qs =>
      rw [comparePaths, Ordering.then_eq_lt, comparison_eq_lt_iff FilePath.before_eq_true_iff,
        comparison_eq_eq_iff FilePath.before_eq_true_iff, ih, List.map_cons, List.map_cons, List.cons_lt_cons_iff]

/-- What a diagnostic is ordered by. -/
def key : Diagnostic →
    ℕ ×ₗ List (ℕ ×ₗ Text) ×ₗ Text ×ₗ List (List (ℕ ×ₗ Text)) ×ₗ Text ×ₗ Text
  | ambiguous d c ps => toLex (0, toLex (d.orderKey, toLex (c, toLex (ps.map FilePath.orderKey, toLex ([], [])))))
  | malformed d c s r => toLex (1, toLex (d.orderKey, toLex (c, toLex ([], toLex (s, r)))))

theorem order_eq_lt_iff (d e : Diagnostic) : order d e = .lt ↔ d.key < e.key := by
  have htext : ∀ a b : Text, Text.before a b = true ↔ id a < id b := Text.before_eq_true_iff
  cases d <;> cases e <;>
    simp only [order, key, Ordering.then_eq_lt, Ordering.then_eq_eq,
      comparison_eq_lt_iff FilePath.before_eq_true_iff, comparison_eq_eq_iff FilePath.before_eq_true_iff,
      comparison_eq_lt_iff htext, comparison_eq_eq_iff htext, comparePaths_eq_lt_iff, Prod.Lex.toLex_lt_toLex, id]
  case ambiguous.ambiguous =>
    simp
    tauto
  case malformed.malformed =>
    simp
    tauto
  all_goals simp

/-! ## The sort -/

/-- A diagnostic may stand ahead of another one. -/
abbrev Ahead (d e : Diagnostic) : Prop := d.key ≤ e.key

theorem ahead_iff (d e : Diagnostic) : Ahead d e ↔ order e d ≠ .lt := by
  rw [Ahead, ne_eq, order_eq_lt_iff, not_lt]

theorem insertSorted_eq (d : Diagnostic) (ds : List Diagnostic) :
    insertSorted d ds = ds.orderedInsert Ahead d := by
  induction ds with
  | nil => rfl
  | cons e es ih =>
    rw [insertSorted, List.orderedInsert_cons, ih]
    by_cases h : order e d = .lt
    · rw [if_pos h, if_neg (by simpa [ahead_iff] using h)]
    · rw [if_neg h, if_pos ((ahead_iff d e).mpr h)]

theorem sort_eq (ds : List Diagnostic) : sort ds = ds.insertionSort Ahead := by
  induction ds with
  | nil => rfl
  | cons d ds ih =>
    change insertSorted d (sort ds) = _
    rw [insertSorted_eq, ih, List.insertionSort_cons]

/-- A report loses nothing and repeats nothing. -/
theorem sort_perm (ds : List Diagnostic) : (sort ds).Perm ds := by
  rw [sort_eq]
  exact List.perm_insertionSort Ahead ds

theorem pairwise_sort (ds : List Diagnostic) : (sort ds).Pairwise Ahead := by
  rw [sort_eq]
  exact List.pairwise_insertionSort Ahead ds

/-! ## What a report depends on -/

/-- Diagnostics of one key stay in the order in which they came. -/
theorem filter_orderedInsert (k) (d : Diagnostic) (ds : List Diagnostic) :
    (ds.orderedInsert Ahead d).filter (fun e => e.key = k) = (d :: ds).filter fun e => e.key = k := by
  induction ds with
  | nil => rfl
  | cons e es ih =>
    rw [List.orderedInsert_cons]
    by_cases hahead : Ahead d e
    · rw [if_pos hahead]
    · -- what stays ahead has another key
      have hother : ¬(e.key = k ∧ d.key = k) := by
        rintro ⟨he, hd⟩
        exact hahead (hd.trans he.symm).le
      rw [if_neg hahead, List.filter_cons, ih]
      by_cases he : e.key = k
      · have hd : ¬d.key = k := fun hd => hother ⟨he, hd⟩
        simp [he, hd]
      · simp [he, List.filter_cons]

theorem filter_sort (k) (ds : List Diagnostic) :
    (sort ds).filter (fun e => e.key = k) = ds.filter fun e => e.key = k := by
  rw [sort_eq]
  induction ds with
  | nil => rfl
  | cons d ds ih => rw [List.insertionSort_cons, filter_orderedInsert, List.filter_cons, ih, List.filter_cons]

/-- Diagnostics in order are determined by those of each key. -/
theorem eq_of_filter_key {ds es : List Diagnostic} (hds : ds.Pairwise Ahead) (hes : es.Pairwise Ahead)
    (h : ∀ k, (ds.filter fun d => d.key = k) = es.filter fun d => d.key = k) : ds = es := by
  induction ds generalizing es with
  | nil =>
    cases es with
    | nil => rfl
    | cons e es => simpa using h e.key
  | cons d ds ih =>
    cases es with
    | nil => simpa using h d.key
    | cons e es =>
      obtain ⟨hd, hds'⟩ := List.pairwise_cons.mp hds
      obtain ⟨he, hes'⟩ := List.pairwise_cons.mp hes
      have hmem : d ∈ e :: es := by
        have hfilter : d ∈ (e :: es).filter fun x => x.key = d.key := by simp [← h d.key]
        exact (List.mem_filter.mp hfilter).1
      have hmem' : e ∈ d :: ds := by
        have hfilter : e ∈ (d :: ds).filter fun x => x.key = e.key := by simp [h e.key]
        exact (List.mem_filter.mp hfilter).1
      have hle : e.key ≤ d.key := by
        rcases List.mem_cons.mp hmem with heq | hmem
        · rw [heq]
        · exact he d hmem
      have hge : d.key ≤ e.key := by
        rcases List.mem_cons.mp hmem' with heq | hmem'
        · rw [heq]
        · exact hd e hmem'
      have hkey := le_antisymm hge hle
      have hfirst := h d.key
      rw [List.filter_cons_of_pos (by simp), List.filter_cons_of_pos (by simp [hkey])] at hfirst
      obtain ⟨rfl, -⟩ := List.cons.inj hfirst
      refine congrArg (d :: ·) (ih hds' hes' fun k => ?_)
      have hk := h k
      rw [List.filter_cons, List.filter_cons] at hk
      split_ifs at hk
      · exact (List.cons.inj hk).2
      · exact hk

theorem parts_document_of_key {d e : Diagnostic} (h : d.key = e.key) :
    FilePath.parts d.document = FilePath.parts e.document := by
  refine (FilePath.orderKey_eq_iff _ _).mp ?_
  cases d <;> cases e <;> simp_all [key, document]

/-- A report depends on what has been noted about each document, in order, and not on which document was
compiled first. -/
theorem sort_congr {ds es : List Diagnostic}
    (h : ∀ x, (ds.filter fun d => FilePath.same d.document x) =
      es.filter fun d => FilePath.same d.document x) : sort ds = sort es := by
  refine eq_of_filter_key (pairwise_sort ds) (pairwise_sort es) fun k => ?_
  rw [filter_sort, filter_sort]
  by_cases hk : ∃ d ∈ ds ++ es, d.key = k
  · obtain ⟨d, -, rfl⟩ := hk
    have hall (l : List Diagnostic) : (l.filter fun e => e.key = d.key) =
        (l.filter fun e => FilePath.same e.document d.document).filter fun e => e.key = d.key := by
      rw [List.filter_filter]
      refine List.filter_congr fun e _ => ?_
      by_cases he : e.key = d.key
      · simp [he, FilePath.same, parts_document_of_key he]
      · simp [he]
    rw [hall ds, hall es, h]
  · have hnone (l : List Diagnostic) (hl : l ⊆ ds ++ es) : (l.filter fun e => e.key = k) = [] := by
      refine List.filter_eq_nil_iff.mpr fun e he => ?_
      simpa using fun heq : e.key = k => hk ⟨e, hl he, heq⟩
    rw [hnone ds (List.subset_append_left ds es), hnone es (List.subset_append_right ds es)]

end Diagnostic

end StaticSite
