import Mathlib.Data.Char
import Mathlib.Data.List.Induction
import Mathlib.Data.List.Lex
import Mathlib.Data.List.Sort
import Mathlib.Order.Bounds.Basic
import StaticSite.Table

/-!
# Tables by name

What a table holds under each name, and when two insertions may change places. Text is ordered like the
lists of its characters, which makes the order of names linear.
-/
namespace StaticSite

namespace Text

theorem before_eq_true_iff (a b : Text) : before a b = true ↔ a < b := by
  induction a generalizing b with
  | nil => cases b <;> simp [before]
  | cons c cs ih =>
    cases b with
    | nil => simp [before]
    | cons d ds =>
      simp only [before, Bool.or_eq_true, decide_eq_true_eq, Bool.and_eq_true, beq_iff_eq, ih,
        List.cons_lt_cons_iff]
      rfl

theorem before_of_lt {a b : Text} (h : a < b) : before a b = true := (before_eq_true_iff a b).mpr h

theorem before_eq_false_of_lt {a b : Text} (h : a < b) : before b a = false := by
  rw [← Bool.not_eq_true, before_eq_true_iff]
  exact lt_asymm h

end Text

/-- Among entries without repeated keys, each is what its key leads to. -/
theorem lookup_of_mem {κ α : Type} [BEq κ] [LawfulBEq κ] {entries : List (κ × α)} {key : κ} {value : α}
    (hnodup : (entries.map (·.1)).Nodup) (h : (key, value) ∈ entries) :
    entries.lookup key = some value := by
  obtain ⟨before, after, rfl⟩ := List.append_of_mem h
  rw [List.map_append, List.map_cons] at hnodup
  have hbefore : ∀ entry ∈ before, key ≠ entry.1 := by
    intro entry hentry
    have hdisjoint := (List.nodup_append.mp hnodup).2.2 entry.1 (List.mem_map_of_mem hentry)
    exact (hdisjoint key List.mem_cons_self).symm
  exact List.lookup_eq_some_iff.mpr ⟨before, after, rfl, by simpa using hbefore⟩

namespace Table

variable {α : Type}

theorem get?_eq_none_iff (name : Text) (table : Table α) :
    table.get? name = none ↔ name ∉ table.names := by
  simp only [get?, names, List.lookup_eq_none_iff, List.mem_map, not_exists, not_and]
  constructor
  · intro h entry hentry hname
    simpa [hname] using h entry hentry
  · intro h entry hentry
    simpa using fun hname : name = entry.1 => h entry hentry hname.symm

theorem contains_eq_true_iff (name : Text) (table : Table α) :
    table.contains name = true ↔ name ∈ table.names := by
  rw [contains, ← not_iff_not, Bool.not_eq_true, Option.isSome_eq_false_iff, Option.isNone_iff_eq_none,
    get?_eq_none_iff]

theorem get?_insert (name other : Text) (value : α) (table : Table α) :
    get? other (insert name value table) = if other = name then some value else get? other table := by
  split
  · rename_i h
    rw [h, get?_insert_self]
  · rename_i h
    exact get?_insert_of_ne h value table

theorem contains_insert (name other : Text) (value : α) (table : Table α) :
    contains other (insert name value table) = (decide (other = name) || contains other table) := by
  rw [contains, get?_insert]
  split
  · rename_i h
    simp [h]
  · rename_i h
    simp [h, contains]

theorem insert_comm_of_lt {name other : Text} (h : name < other) (value value' : α) (table : Table α) :
    insert name value (insert other value' table) = insert other value' (insert name value table) := by
  have hlow := Text.before_of_lt h
  have hhigh := Text.before_eq_false_of_lt h
  induction table with
  | nil => simp [insert, h.ne, h.ne', hlow, hhigh]
  | cons entry rest ih =>
    obtain ⟨n, v⟩ := entry
    rcases lt_trichotomy n other with hn | rfl | hn
    · have hother := Text.before_eq_false_of_lt hn
      rcases lt_trichotomy n name with hname | rfl | hname
      · simp [insert, hn.ne, hname.ne, hother, Text.before_eq_false_of_lt hname, ih]
      · simp [insert, hn.ne, hother]
      · simp [insert, hn.ne, h.ne, hname.ne', hother, hhigh, Text.before_of_lt hname]
    · simp [insert, h.ne, h.ne', hlow, hhigh]
    · have hname := h.trans hn
      simp [insert, h.ne, h.ne', hn.ne', hname.ne', hlow, hhigh, Text.before_of_lt hn,
        Text.before_of_lt hname]

/-- Insertions under different names may change places. -/
theorem insert_comm {name other : Text} (h : name ≠ other) (value value' : α) (table : Table α) :
    insert name value (insert other value' table) = insert other value' (insert name value table) := by
  rcases lt_or_gt_of_ne h with hlt | hlt
  · exact insert_comm_of_lt hlt value value' table
  · exact (insert_comm_of_lt hlt value' value table).symm

theorem mem_insert {name : Text} {value : α} {table : Table α} {entry : Text × α}
    (h : entry ∈ insert name value table) : entry = (name, value) ∨ entry ∈ table := by
  induction table with
  | nil => simpa [insert] using h
  | cons first rest ih =>
    obtain ⟨n, v⟩ := first
    rw [insert] at h
    split_ifs at h
    · rcases List.mem_cons.mp h with h | h
      · exact .inl h
      · exact .inr (List.mem_cons_of_mem _ h)
    · simpa using h
    · rcases List.mem_cons.mp h with h | h
      · exact .inr (h ▸ List.mem_cons_self)
      · exact (ih h).imp_right (List.mem_cons_of_mem _)

/-- The names of a table ascend. -/
def Ascending (table : Table α) : Prop := table.Pairwise fun entry other => entry.1 < other.1

theorem Ascending.insert {table : Table α} (h : table.Ascending) (name : Text) (value : α) :
    Ascending (insert name value table) := by
  induction table with
  | nil => simp [Table.insert, Ascending]
  | cons first rest ih =>
    obtain ⟨n, v⟩ := first
    obtain ⟨hfirst, hrest⟩ := List.pairwise_cons.mp h
    rw [Table.insert]
    split_ifs with heq hbefore
    · exact List.pairwise_cons.mpr ⟨fun entry hentry => heq ▸ hfirst entry hentry, hrest⟩
    · have hlt := (Text.before_eq_true_iff name n).mp hbefore
      refine List.pairwise_cons.mpr ⟨fun entry hentry => ?_, h⟩
      rcases List.mem_cons.mp hentry with rfl | hentry
      · exact hlt
      · exact hlt.trans (hfirst entry hentry)
    · have hnot : ¬name < n := fun hlt => hbefore (Text.before_of_lt hlt)
      have hlt : n < name := lt_of_le_of_ne (not_lt.mp hnot) heq
      refine List.pairwise_cons.mpr ⟨fun entry hentry => ?_, ih hrest⟩
      rcases mem_insert hentry with rfl | hentry
      · exact hlt
      · exact hfirst entry hentry

theorem Ascending.nodup {table : Table α} (h : table.Ascending) : table.names.Nodup := by
  refine List.pairwise_map.mpr (h.imp fun hlt => ?_)
  exact ne_of_lt hlt

theorem Ascending.names {table : Table α} (h : table.Ascending) : table.names.Pairwise (· < ·) :=
  List.pairwise_map.mpr h

/-- Tables with the same names have them in the same order. -/
theorem names_eq_of_mem_iff {β : Type} {table : Table α} {table' : Table β} (h : table.Ascending) (h' : table'.Ascending)
    (hnames : ∀ name, name ∈ table.names ↔ name ∈ table'.names) : table.names = table'.names :=
  h.names.eq_of_mem_iff h'.names hnames

/-- The first name of a table with a property is the least one. -/
theorem isLeast_of_find? {table : Table α} (h : table.Ascending) {p : Text → Bool} {name : Text}
    (hfind : table.names.find? p = some name) : IsLeast {n | n ∈ table.names ∧ p n = true} name := by
  obtain ⟨hp, before, after, hnames, hbefore⟩ := List.find?_eq_some_iff_append.mp hfind
  have hascending := h.names
  rw [hnames] at hascending ⊢
  refine ⟨⟨by simp, hp⟩, ?_⟩
  rintro n ⟨hn, hpn⟩
  rcases List.mem_append.mp hn with hn | hn
  · have hnot := hbefore n hn
    simp [hpn] at hnot
  · rcases List.mem_cons.mp hn with rfl | hn
    · exact le_rfl
    · have hrest := (List.pairwise_append.mp hascending).2.1
      exact ((List.pairwise_cons.mp hrest).1 n hn).le

theorem ofEntries_concat (entries : List (Text × α)) (last : Text × α) :
    ofEntries (entries ++ [last]) = insert last.1 last.2 (ofEntries entries) := by
  simp [ofEntries]

theorem ofEntries_spec (entries : List (Text × α)) :
    (ofEntries entries).Ascending ∧ ∀ entry ∈ ofEntries entries, entry ∈ entries := by
  induction entries using List.reverseRecOn with
  | nil => exact ⟨List.Pairwise.nil, by simp [ofEntries]⟩
  | append_singleton entries last ih =>
    rw [ofEntries_concat]
    refine ⟨ih.1.insert last.1 last.2, fun entry hentry => ?_⟩
    rcases mem_insert hentry with rfl | hentry
    · simp
    · exact List.mem_append_left _ (ih.2 entry hentry)

theorem insert_of_last {name : Text} {table : Table α} (h : ∀ entry ∈ table, entry.1 < name) (value : α) :
    insert name value table = table ++ [(name, value)] := by
  induction table with
  | nil => rfl
  | cons first rest ih =>
    obtain ⟨hfirst, hrest⟩ := List.forall_mem_cons.mp h
    rw [insert, if_neg hfirst.ne, if_neg (by simp [Text.before_eq_false_of_lt hfirst]), ih hrest, List.cons_append]

/-- Entries that ascend are a table as they stand. -/
theorem ofEntries_of_ascending {entries : List (Text × α)} (h : Ascending entries) :
    ofEntries entries = entries := by
  induction entries using List.reverseRecOn with
  | nil => rfl
  | append_singleton entries last ih =>
    obtain ⟨hentries, -, hlast⟩ := List.pairwise_append.mp h
    rw [ofEntries_concat, ih hentries]
    exact insert_of_last (fun entry hentry => hlast entry hentry last List.mem_cons_self) last.2

/-- No name gets lost. -/
theorem mem_names_ofEntries_iff (entries : List (Text × α)) (name : Text) :
    name ∈ (ofEntries entries).names ↔ ∃ entry ∈ entries, entry.1 = name := by
  induction entries using List.reverseRecOn with
  | nil => simp [ofEntries, names]
  | append_singleton entries last ih =>
    rw [ofEntries_concat, ← contains_eq_true_iff, contains_insert, Bool.or_eq_true, decide_eq_true_eq,
      contains_eq_true_iff, ih]
    simp only [List.mem_append, List.mem_singleton, or_and_right, exists_or, exists_eq_left]
    rw [or_comm, eq_comm]

/-- The last entry with a name counts. -/
theorem get?_ofEntries (entries : List (Text × α)) (name : Text) :
    get? name (ofEntries entries) = entries.reverse.lookup name := by
  induction entries using List.reverseRecOn with
  | nil => rfl
  | append_singleton entries last ih =>
    rw [ofEntries_concat, get?_insert, ih, List.reverse_append, List.reverse_singleton, List.singleton_append,
      List.lookup_cons]
    by_cases hname : name = last.1
    · simp [hname]
    · simp [hname, beq_eq_false_iff_ne.mpr hname]

theorem get?_ofEntries_of_last {earlier later : List (Text × α)} {name : Text} {value : α}
    (h : ∀ entry ∈ later, entry.1 ≠ name) : get? name (ofEntries (earlier ++ (name, value) :: later)) = some value := by
  rw [get?_ofEntries]
  refine List.lookup_eq_some_iff.mpr ⟨later.reverse, earlier.reverse, by simp, fun entry hentry => ?_⟩
  simpa using (h entry (List.mem_reverse.mp hentry)).symm

@[simp] theorem names_mapValues {β : Type} (f : α → β) (table : Table α) :
    (table.mapValues f).names = table.names := by
  simp [names, mapValues]

theorem mem_of_get? {table : Table α} {name : Text} {value : α} (h : table.get? name = some value) :
    (name, value) ∈ table := by
  obtain ⟨before, after, htable, -⟩ := List.lookup_eq_some_iff.mp h
  simp [htable]

theorem get?_of_mem {table : Table α} {name : Text} {value : α} (hnodup : table.names.Nodup)
    (h : (name, value) ∈ table) : table.get? name = some value := lookup_of_mem hnodup h

/-- Where entries are made of things in ascending order, the greatest thing with a name counts. -/
theorem get?_ofEntries_map {ι β : Type} [Preorder β] {rank : ι → β} {xs : List ι}
    (hascending : xs.Pairwise fun x y => rank x < rank y) (key : ι → Text) (value : ι → α) {name : Text} {v : α} :
    (ofEntries (xs.map fun x => (key x, value x))).get? name = some v ↔
      ∃ x ∈ xs, key x = name ∧ value x = v ∧ ∀ y ∈ xs, key y = name → rank y ≤ rank x := by
  induction xs using List.reverseRecOn with
  | nil => simp [ofEntries, get?]
  | append_singleton xs last ih =>
    rw [List.pairwise_append] at hascending
    obtain ⟨hxs, -, hlast⟩ := hascending
    have hlast : ∀ x ∈ xs, rank x < rank last := fun x hx => hlast x hx last List.mem_cons_self
    rw [List.map_append, List.map_singleton, ofEntries_concat, get?_insert]
    split_ifs with hname
    · constructor
      · intro hv
        refine ⟨last, by simp, hname.symm, Option.some.inj hv, fun y hy _ => ?_⟩
        rcases List.mem_append.mp hy with hy | hy
        · exact (hlast y hy).le
        · exact (congrArg rank (List.mem_singleton.mp hy)).le
      · rintro ⟨x, hx, -, rfl, hgreatest⟩
        rcases List.mem_append.mp hx with hx | hx
        · exact absurd (hgreatest last (by simp) hname.symm) (hlast x hx).not_ge
        · rw [List.mem_singleton.mp hx]
    · rw [ih hxs]
      constructor
      · rintro ⟨x, hx, hkey, hvalue, hgreatest⟩
        refine ⟨x, List.mem_append_left _ hx, hkey, hvalue, fun y hy hy' => ?_⟩
        rcases List.mem_append.mp hy with hy | hy
        · exact hgreatest y hy hy'
        · exact absurd (List.mem_singleton.mp hy ▸ hy').symm hname
      · rintro ⟨x, hx, hkey, hvalue, hgreatest⟩
        rcases List.mem_append.mp hx with hx | hx
        · exact ⟨x, hx, hkey, hvalue, fun y hy => hgreatest y (List.mem_append_left _ hy)⟩
        · exact absurd (List.mem_singleton.mp hx ▸ hkey).symm hname

end Table

end StaticSite
