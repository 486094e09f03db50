import Mathlib.Data.Finset.Card
import Mathlib.Tactic.SplitIfs
import StaticSite.Compile.Stage
import StaticSite.Proofs.Component.Exports

/-!
# What a cache of default exports remembers

Between two queries the files may change in any way, and the cache is not told. So its answers are of the past: the
main statement is that a query is answered by what stood in the file when the path was first asked for with success
since the cache was cleared, that a query without success leaves no trace, and that the cache is as large as there are
paths that were asked for with success.
-/
namespace StaticSite.ExportCache

/-! ## Histories -/

/-- What happens to a cache. -/
inductive Event where
  /-- A file is asked for, with the files as they are then. -/
  | query (tree : FileTree) (path : FilePath)
  /-- A build begins. -/
  | clear

/-- A query that was answered. -/
structure Query where
  tree : FileTree
  path : FilePath
  answer : Except FileError Bool

/-- What detection gives on the file of a query as it was then. -/
def Query.detected (q : Query) : Except FileError Bool :=
  (q.tree.readText q.path).map EsModule.hasDefaultExport

/-- A cache with the queries since it was cleared. -/
structure History where
  cache : ExportCache
  queries : List Query

namespace History

/-- A cache that no query has reached. -/
def initial : History := ⟨.empty, []⟩

def next (h : History) : Event → History
  | .query tree path =>
    ⟨(h.cache.check tree path).2, h.queries ++ [⟨tree, path, (h.cache.check tree path).1⟩]⟩
  | .clear => initial

/-- The history that events make. -/
def ofEvents (events : List Event) : History := events.foldl next initial

theorem ofEvents_concat (events : List Event) (event : Event) :
    ofEvents (events ++ [event]) = (ofEvents events).next event := by
  rw [ofEvents, List.foldl_append]
  rfl

end History

/-- The first of some queries that was for a path and had success. -/
def firstSuccess? (path : FilePath) (queries : List Query) : Option Query :=
  queries.find? fun q => FilePath.same q.path path && q.answer.isOk

section Queries

variable {path path' : FilePath} {queries : List Query} {q : Query}

theorem firstSuccess?_congr (h : FilePath.same path path' = true) (queries : List Query) :
    firstSuccess? path queries = firstSuccess? path' queries := by
  have hparts : FilePath.parts path = FilePath.parts path' := by simpa [FilePath.same] using h
  simp only [firstSuccess?, FilePath.same, hparts]

theorem firstSuccess?_concat (path : FilePath) (queries : List Query) (q : Query) :
    firstSuccess? path (queries ++ [q]) =
      (firstSuccess? path queries).or (if FilePath.same q.path path && q.answer.isOk then some q else none) := by
  rw [firstSuccess?, List.find?_append, List.find?_singleton]
  rfl

/-- A query changes no first success when it had none itself, or when its path had one before. -/
theorem firstSuccess?_concat_of_old (h : q.answer.isOk = true → firstSuccess? q.path queries ≠ none)
    (path : FilePath) : firstSuccess? path (queries ++ [q]) = firstSuccess? path queries := by
  rw [firstSuccess?_concat]
  split_ifs with hnew
  · rw [Bool.and_eq_true] at hnew
    have hold := h hnew.2
    rw [firstSuccess?_congr hnew.1] at hold
    exact Option.or_of_isSome (Option.isSome_iff_ne_none.mpr hold)
  · exact Option.or_none

theorem firstSuccess?_ne_none_iff :
    firstSuccess? path queries ≠ none ↔
      FilePath.parts path ∈ (queries.filter (·.answer.isOk)).map fun q => FilePath.parts q.path := by
  simp only [firstSuccess?, ne_eq, List.find?_eq_none, not_forall, not_not, Bool.and_eq_true, FilePath.same,
    beq_iff_eq, List.mem_map, List.mem_filter, exists_prop]
  exact exists_congr fun q => by tauto

end Queries

/-! ## What is known -/

/-- What a cache knows of a path is what was detected at the first success, and it knows each path once. -/
structure History.Sound (h : History) : Prop where
  found : ∀ path, (h.cache.find? path).map Except.ok = (firstSuccess? path h.queries).map Query.detected
  once : (h.cache.known.map fun entry => FilePath.parts entry.1).Nodup

variable {c : ExportCache} {path : FilePath}

theorem find?_ne_none_iff :
    c.find? path ≠ none ↔ FilePath.parts path ∈ c.known.map fun entry => FilePath.parts entry.1 := by
  simp only [find?, ne_eq, Option.map_eq_none_iff, List.find?_eq_none, not_forall, not_not, FilePath.same, beq_iff_eq,
    List.mem_map, exists_prop]

theorem find?_cons (path path' : FilePath) (found : Bool) (known : List (FilePath × Bool)) :
    find? path' ⟨(path, found) :: known⟩ = if FilePath.same path path' then some found else find? path' ⟨known⟩ := by
  rw [find?, List.find?_cons]
  cases FilePath.same path path' <;> rfl

namespace History.Sound

variable {h : History}

theorem initial : History.initial.Sound := ⟨fun _ => rfl, List.nodup_nil⟩

/-- A path is known as soon as there was a success. -/
theorem find?_ne_none (hs : h.Sound) (path : FilePath) :
    h.cache.find? path ≠ none ↔ firstSuccess? path h.queries ≠ none := by
  have hfound := hs.found path
  cases hfind : h.cache.find? path <;> cases hfirst : firstSuccess? path h.queries <;>
    simp [hfind, hfirst] at hfound ⊢

/-- A query is answered by the first success, its own if there was none before. -/
theorem answer (hs : h.Sound) (tree : FileTree) (path : FilePath) :
    (h.cache.check tree path).1 =
      ((firstSuccess? path h.queries).getD ⟨tree, path, (h.cache.check tree path).1⟩).detected := by
  have hfound := hs.found path
  cases hfind : h.cache.find? path with
  | some found =>
    rw [hfind] at hfound
    obtain ⟨q, hq, hdetected⟩ := Option.map_eq_some_iff.mp hfound.symm
    simp only [check, hfind, hq, Option.getD_some, hdetected]
  | none =>
    rw [hfind] at hfound
    have hfirst := Option.map_eq_none_iff.mp hfound.symm
    simp only [check, hfind, hfirst, Option.getD_none, Query.detected]
    cases tree.readText path <;> rfl

/-- A query that tells nothing new leaves the cache, and so does it what is known. -/
theorem query_of_unchanged (hs : h.Sound) {tree : FileTree} {path : FilePath}
    (hcache : (h.cache.check tree path).2 = h.cache)
    (hold : (h.cache.check tree path).1.isOk = true → h.cache.find? path ≠ none) :
    (h.next (.query tree path)).Sound := by
  have hfirst := firstSuccess?_concat_of_old (q := ⟨tree, path, (h.cache.check tree path).1⟩)
    fun hok => (hs.find?_ne_none path).mp (hold hok)
  rw [next, hcache]
  exact ⟨fun path' => (hs.found path').trans (congrArg _ (hfirst path').symm), hs.once⟩

/-- A file that is read for the first time with success is known from then on. -/
theorem query_of_read (hs : h.Sound) {tree : FileTree} {path : FilePath} {source : Text}
    (hfind : h.cache.find? path = none) (hread : tree.readText path = .ok source) :
    (h.next (.query tree path)).Sound := by
  have hcheck : h.cache.check tree path = (.ok (EsModule.hasDefaultExport source),
      ⟨(path, EsModule.hasDefaultExport source) :: h.cache.known⟩) := by
    simp only [check, hfind, hread]
  rw [next, hcheck]
  constructor
  · intro path'
    rw [find?_cons, firstSuccess?_concat]
    have hfound := hs.found path'
    by_cases hsame : FilePath.same path path' = true
    · rw [find?_congr hsame] at hfind
      rw [hfind] at hfound
      rw [if_pos hsame, Option.map_eq_none_iff.mp hfound.symm, if_pos (by simp [hsame, Except.isOk, Except.toBool])]
      simp only [Option.map_some, Option.none_or, Query.detected, hread]
      rfl
    · rw [if_neg hsame, if_neg (by simp [hsame]), Option.or_none]
      exact hfound
  · rw [List.map_cons, List.nodup_cons, ← find?_ne_none_iff]
    exact ⟨not_not.mpr hfind, hs.once⟩

theorem query (hs : h.Sound) (tree : FileTree) (path : FilePath) : (h.next (.query tree path)).Sound := by
  cases hfind : h.cache.find? path with
  | some found => exact hs.query_of_unchanged (by simp only [check, hfind]) (by simp [hfind])
  | none =>
    cases hread : tree.readText path with
    | error e =>
      have hcheck : h.cache.check tree path = (.error e, h.cache) := by simp only [check, hfind, hread]
      exact hs.query_of_unchanged (by rw [hcheck]) (by simp [hcheck, Except.isOk, Except.toBool])
    | ok source => exact hs.query_of_read hfind hread

theorem ofEvents (events : List Event) : (History.ofEvents events).Sound := by
  induction events using List.reverseRecOn with
  | nil => exact initial
  | append_singleton events event ih =>
    rw [ofEvents_concat]
    cases event with
    | query tree path => exact ih.query tree path
    | clear => exact initial

/-- The cache is as large as there are paths with a success. -/
theorem size (hs : h.Sound) :
    h.cache.size = ((h.queries.filter (·.answer.isOk)).map fun q => FilePath.parts q.path).toFinset.card := by
  have hkeys : (h.cache.known.map fun entry => FilePath.parts entry.1).toFinset =
      ((h.queries.filter (·.answer.isOk)).map fun q => FilePath.parts q.path).toFinset := by
    ext k
    rw [List.mem_toFinset, List.mem_toFinset]
    constructor
    · intro hk
      obtain ⟨entry, -, rfl⟩ := List.mem_map.mp hk
      exact firstSuccess?_ne_none_iff.mp ((hs.find?_ne_none _).mp (find?_ne_none_iff.mpr hk))
    · intro hk
      obtain ⟨q, -, rfl⟩ := List.mem_map.mp hk
      exact find?_ne_none_iff.mp ((hs.find?_ne_none _).mpr (firstSuccess?_ne_none_iff.mpr hk))
  rw [← hkeys, List.toFinset_card_of_nodup hs.once, List.length_map]
  rfl

end History.Sound

theorem check_of_error {tree : FileTree} {e : FileError} (h : (c.check tree path).1 = .error e) :
    (c.check tree path).2 = c := by
  cases hfind : c.find? path with
  | some found => simp only [check, hfind]
  | none =>
    cases hread : tree.readText path with
    | error e => simp only [check, hfind, hread]
    | ok source => simp [check, hfind, hread] at h

open History

/-- Later events meet the cache that they would have met without a query that left it. -/
theorem cache_without {events : List Event} {tree : FileTree}
    (h : ((ofEvents events).cache.check tree path).2 = (ofEvents events).cache) (later : List Event) :
    (ofEvents (events ++ .query tree path :: later)).cache = (ofEvents (events ++ later)).cache := by
  have hnext (h h' : History) (hcache : h.cache = h'.cache) (event : Event) :
      (h.next event).cache = (h'.next event).cache := by
    cases event with
    | query tree path => simp only [next, hcache]
    | clear => rfl
  have hfold (h h' : History) (hcache : h.cache = h'.cache) :
      (later.foldl next h).cache = (later.foldl next h').cache := by
    induction later generalizing h h' with
    | nil => exact hcache
    | cons event later ih => exact ih _ _ (hnext h h' hcache event)
  rw [ofEvents, ofEvents, List.foldl_append, List.foldl_append, List.foldl_cons]
  exact hfold _ _ h

/-- After any events, a query is answered by what is detected in the file as it was when its path was first asked for
with success since the cache was cleared, or as it is now if there was no success; a query that fails leaves the cache
and changes nothing for what comes later; and the size of the cache is the number of paths with a success. -/
theorem first_success_remembered (events : List Event) :
    (∀ tree path, ((ofEvents events).cache.check tree path).1 =
      ((firstSuccess? path (ofEvents events).queries).getD
        ⟨tree, path, ((ofEvents events).cache.check tree path).1⟩).detected) ∧
    (∀ tree path e, ((ofEvents events).cache.check tree path).1 = .error e →
      ((ofEvents events).cache.check tree path).2 = (ofEvents events).cache ∧
        ∀ later, (ofEvents (events ++ .query tree path :: later)).cache = (ofEvents (events ++ later)).cache) ∧
    (ofEvents events).cache.size =
      (((ofEvents events).queries.filter (·.answer.isOk)).map fun q => FilePath.parts q.path).toFinset.card ∧
    ∀ stage : Stage, stage.reset.exports = (ofEvents (events ++ [.clear])).cache := by
  have hsound := History.Sound.ofEvents events
  refine ⟨hsound.answer, fun tree path e herror => ?_, hsound.size, fun stage => ?_⟩
  · have hcache := check_of_error herror
    exact ⟨hcache, cache_without hcache⟩
  · rw [ofEvents_concat]
    rfl

namespace ChangedCard

/-- A project whose card has a given source. -/
def project (source : Text) : FileTree := ⟨[(["Card.tsx".toList], .file (Text.bytes source))]⟩

/-- The card is asked for before it is there, then with a default export, then without one, by another spelling. -/
def events : List Event :=
  [.query ⟨[]⟩ "/Card.tsx", .query (project "export default 1") "/Card.tsx",
    .query (project "export const a = 1") "//Card.tsx"]

/-- The card keeps its default export after it is gone, and a file that is not there is not remembered. -/
theorem card_remembered :
    ((ofEvents events).cache.check ⟨[]⟩ "/Card.tsx").1 = .ok true ∧ (ofEvents events).cache.size = 1 ∧
      ((ofEvents events).cache.check ⟨[]⟩ "/Gone.tsx").1 = .error .notFound ∧
      ((ofEvents events).cache.check ⟨[]⟩ "/Gone.tsx").2 = (ofEvents events).cache := by
  have hgone : ((ofEvents events).cache.check ⟨[]⟩ "/Gone.tsx").1 = .error .notFound := by decide +kernel
  have hspec := first_success_remembered events
  exact ⟨by decide +kernel, by decide +kernel, hgone, (hspec.2.1 _ _ _ hgone).1⟩

end ChangedCard

end StaticSite.ExportCache
