import Mathlib.Logic.Function.Basic
import StaticSite.Proofs.Build.Outputs

/-!
# Outputs that clients share

Steps that run together share one bag of outputs. Each operation on the bag is performed as a whole, so what
clients do together is a list of operations in the order in which the bag is given to them. The main statement is
that whatever clients there are, and in whatever order they come, they see one map in which the first value that
was put under a name stands for good.
-/
namespace StaticSite.Outputs

/-! ## Operations -/

/-- What a client asks of a bag. -/
inductive Operation where
  | put (key : OutputKey) (value : key.kind.Value)
  | get (key : OutputKey)
  | contains (key : OutputKey)
  | names

/-- What the client is told. -/
abbrev Operation.Answer : Operation → Type
  | put _ _ => Except OutputError Unit
  | get key => Except OutputError key.kind.Value
  | contains _ => Bool
  | names => List Text

/-- The answer to an operation, and the bag after it. -/
def perform (o : Outputs) : (operation : Operation) → operation.Answer × Outputs
  | .put key value =>
    match o.put key value with
    | .ok o' => (.ok (), o')
    | .error e => (.error e, o)
  | .get key => (o.get key, o)
  | .contains key => (o.contains key.name, o)
  | .names => (o.names, o)

/-- An operation that was performed, with its answer and the bag that it left. -/
structure Event where
  operation : Operation
  answer : operation.Answer
  bag : Outputs

/-- The event that an operation is on a bag. -/
def event (o : Outputs) (operation : Operation) : Event :=
  ⟨operation, (o.perform operation).1, (o.perform operation).2⟩

/-- The events that operations are, one after the other. -/
def events (o : Outputs) : List Operation → List Event
  | [] => []
  | operation :: later => o.event operation :: events (o.event operation).bag later

/-- The bag that events left, the first of them on a given one. -/
def bagAfter (o : Outputs) (earlier : List Event) : Outputs := earlier.foldl (fun _ event => event.bag) o

/-! ## Clients -/

/-- What a client does next: it has ended, or it asks something of the bag and goes on with the answer. -/
inductive Client where
  | ended
  | asks (operation : Operation) (next : operation.Answer → Client)

/-- The events of clients that are let to the bag in a given order; nothing happens for one that has ended. -/
def run {ι : Type} [DecidableEq ι] (clients : ι → Client) (o : Outputs) : List ι → List Event
  | [] => []
  | i :: order =>
    match clients i with
    | .ended => run clients o order
    | .asks operation next =>
      let answer := (o.perform operation).1
      o.event operation :: run (Function.update clients i (next answer)) (o.perform operation).2 order

/-- What clients do together is a list of operations. -/
theorem run_eq_events {ι : Type} [DecidableEq ι] (clients : ι → Client) (o : Outputs) (order : List ι) :
    ∃ operations, run clients o order = o.events operations := by
  induction order generalizing clients o with
  | nil => exact ⟨[], rfl⟩
  | cons i order ih =>
    rw [run]
    cases clients i with
    | ended => exact ih clients o
    | asks operation next =>
      obtain ⟨operations, hrun⟩ :=
        ih (Function.update clients i (next (o.perform operation).1)) (o.perform operation).2
      exact ⟨operation :: operations, congrArg (o.event operation :: ·) hrun⟩

/-! ## What operations put -/

/-- What an operation puts under a name. -/
def Operation.output? (name : Text) : Operation → Option Output
  | put key value => if key.name = name then some ⟨key.kind, value⟩ else none
  | _ => none

/-- What was put first under a name. -/
def first? (name : Text) (operations : List Operation) : Option Output :=
  operations.findSome? (Operation.output? name)

/-- Something was put under a name. -/
def Written (name : Text) (operations : List Operation) : Prop :=
  ∃ (key : OutputKey) (value : key.kind.Value), .put key value ∈ operations ∧ key.name = name

theorem first?_concat (name : Text) (operations : List Operation) (operation : Operation) :
    first? name (operations ++ [operation]) = (first? name operations).or (operation.output? name) := by
  rw [first?, List.findSome?_append, List.findSome?_singleton]
  rfl

theorem first?_eq_none_iff (name : Text) (operations : List Operation) :
    first? name operations = none ↔ ¬Written name operations := by
  rw [first?, List.findSome?_eq_none_iff]
  constructor
  · rintro hnone ⟨key, value, hmem, rfl⟩
    simpa [Operation.output?] using hnone _ hmem
  · intro hwritten operation hmem
    cases operation with
    | put key value => exact if_neg fun hname => hwritten ⟨key, value, hmem, hname⟩
    | get key | contains key | names => rfl

/-- An event as it must be after some operations that left a bag. The first put under a name succeeds and every
later one fails; to get a name gives what was put first, as long as it is asked for as a value of its own type; and
nothing but a put that succeeds changes the bag. -/
def Event.Follows (earlier : List Operation) (o : Outputs) : Event → Prop
  | ⟨.put key _, answer, bag⟩ =>
    (¬Written key.name earlier → answer = .ok ()) ∧
      (Written key.name earlier → answer = .error (.alreadyWritten key.name) ∧ bag = o)
  | ⟨.get key, answer, bag⟩ =>
    bag = o ∧
      (answer = .error (.missing key.name) ↔ ¬Written key.name earlier) ∧
      (answer = .error (.typeMismatch key.name) ↔
        ∃ output, first? key.name earlier = some output ∧ output.kind ≠ key.kind) ∧
      ∀ value, answer = .ok value ↔ first? key.name earlier = some ⟨key.kind, value⟩
  | ⟨.contains key, answer, bag⟩ => bag = o ∧ (answer = true ↔ Written key.name earlier)
  | ⟨.names, answer, bag⟩ =>
    bag = o ∧ answer.Pairwise (· < ·) ∧ ∀ name, name ∈ answer ↔ Written name earlier

/-! ## What a bag holds -/

/-- A bag holds what was put first under each name. -/
structure HoldsFirst (operations : List Operation) (o : Outputs) : Prop where
  ascending : o.values.Ascending
  get? : ∀ name, o.values.get? name = first? name operations

theorem holdsFirst_empty : HoldsFirst [] empty := ⟨List.Pairwise.nil, fun _ => rfl⟩

namespace HoldsFirst

variable {operations : List Operation} {o : Outputs}

theorem contains_eq_true_iff (h : HoldsFirst operations o) (name : Text) :
    o.contains name = true ↔ Written name operations := by
  rw [contains, Table.contains, h.get?, Option.isSome_iff_ne_none, Ne, first?_eq_none_iff, not_not]

theorem put (h : HoldsFirst operations o) {key : OutputKey} (hnew : ¬Written key.name operations)
    (value : key.kind.Value) : HoldsFirst (operations ++ [.put key value]) (o.insert key value) := by
  refine ⟨h.ascending.insert _ _, fun name => ?_⟩
  rw [first?_concat, Outputs.insert, Table.get?_insert, h.get?, Operation.output?]
  by_cases hname : key.name = name
  · rw [if_pos hname.symm, if_pos hname, ← hname, (first?_eq_none_iff _ _).mpr hnew]
    rfl
  · rw [if_neg (Ne.symm hname), if_neg hname, Option.or_none]

/-- A bag goes on to hold what was put first when nothing is put under a new name. -/
theorem concat (h : HoldsFirst operations o) {operation : Operation}
    (hold : ∀ name, operation.output? name ≠ none → Written name operations) :
    HoldsFirst (operations ++ [operation]) o := by
  refine ⟨h.ascending, fun name => ?_⟩
  rw [h.get?, first?_concat]
  cases hfirst : first? name operations with
  | some output => rfl
  | none =>
    have hnone : operation.output? name = none := by
      by_contra hput
      exact (first?_eq_none_iff _ _).mp hfirst (hold name hput)
    rw [hnone]
    rfl

/-- One put: what it answers, and what the bag holds then. -/
theorem follows_put (h : HoldsFirst operations o) (key : OutputKey) (value : key.kind.Value) :
    (o.event (.put key value)).Follows operations o ∧
      HoldsFirst (operations ++ [.put key value]) (o.event (.put key value)).bag := by
  by_cases hwritten : Written key.name operations
  · have hold := (h.contains_eq_true_iff key.name).mpr hwritten
    have hevent : o.event (.put key value) = ⟨.put key value, .error (.alreadyWritten key.name), o⟩ := by
      simp only [event, perform, put_of_contains hold]
    rw [hevent]
    refine ⟨⟨fun hnot => absurd hwritten hnot, fun _ => ⟨rfl, rfl⟩⟩, h.concat fun name hput => ?_⟩
    rw [Operation.output?] at hput
    split_ifs at hput with hname
    · exact hname ▸ hwritten
    · exact absurd rfl hput
  · have hnew : o.contains key.name = false := by
      rw [← Bool.not_eq_true, h.contains_eq_true_iff]
      exact hwritten
    have hevent : o.event (.put key value) = ⟨.put key value, .ok (), o.insert key value⟩ := by
      simp only [event, perform, put_of_not_contains hnew]
    rw [hevent]
    exact ⟨⟨fun _ => rfl, fun hnot => absurd hnot hwritten⟩, h.put hwritten value⟩

theorem follows_get (h : HoldsFirst operations o) (key : OutputKey) : (o.event (.get key)).Follows operations o := by
  have hget := h.get? key.name
  have hnone := first?_eq_none_iff key.name operations
  refine ⟨rfl, ?_⟩
  change (o.get key = _ ↔ _) ∧ (o.get key = _ ↔ _) ∧ ∀ value, o.get key = _ ↔ _
  rw [Outputs.get, hget, ← hnone]
  cases first? key.name operations with
  | none => simp
  | some output =>
    obtain ⟨kind, value⟩ := output
    by_cases hkind : kind = key.kind
    · subst hkind
      simp
    · simp [hkind]

/-- Every operation is answered as it must be, and the bag goes on to hold what was put first. -/
theorem follows_event (h : HoldsFirst operations o) (operation : Operation) :
    (o.event operation).Follows operations o ∧ HoldsFirst (operations ++ [operation]) (o.event operation).bag := by
  cases operation with
  | put key value => exact h.follows_put key value
  | get key => exact ⟨h.follows_get key, h.concat fun name hput => absurd rfl hput⟩
  | contains key =>
    exact ⟨⟨rfl, h.contains_eq_true_iff key.name⟩, h.concat fun name hput => absurd rfl hput⟩
  | names =>
    have hnames (name : Text) : name ∈ o.names ↔ Written name operations :=
      (Outputs.contains_eq_true_iff name o).symm.trans (h.contains_eq_true_iff name)
    exact ⟨⟨rfl, h.ascending.names, hnames⟩, h.concat fun name hput => absurd rfl hput⟩

/-- The events of a list of operations follow one another as they must. -/
theorem follows_events (h : HoldsFirst operations o) {later : List Operation} {before after : List Event} {e : Event}
    (hevents : o.events later = before ++ e :: after) :
    e.Follows (operations ++ before.map Event.operation) (bagAfter o before) := by
  induction later generalizing operations o before with
  | nil => simp [events] at hevents
  | cons operation later ih =>
    obtain ⟨hfollows, hholds⟩ := h.follows_event operation
    rw [events] at hevents
    cases before with
    | nil =>
      obtain ⟨rfl, -⟩ := List.cons.inj hevents
      simpa [bagAfter] using hfollows
    | cons first before =>
      obtain ⟨rfl, hrest⟩ := List.cons.inj hevents
      have hlast := ih hholds hrest
      rwa [List.append_assoc] at hlast

end HoldsFirst

/-- Whatever clients share a bag, and in whatever order they come to it, each of them is answered by the map in which
what was put first under a name stands for good. -/
theorem first_put_stands {ι : Type} [DecidableEq ι] (clients : ι → Client) (order : List ι)
    {before after : List Event} {e : Event} (h : run clients empty order = before ++ e :: after) :
    e.Follows (before.map Event.operation) (bagAfter empty before) := by
  obtain ⟨operations, hrun⟩ := run_eq_events clients empty order
  rw [hrun] at h
  exact holdsFirst_empty.follows_events h

namespace TwoWriters

/-- A writer that puts a number under a name, and tells in another output when it came too late. -/
def writer (n : Int) : Client :=
  .asks (.put ⟨"count", .integer⟩ n) fun
    | .ok _ => .ended
    | .error e => .asks (.put ⟨"late", .text⟩ e.message) fun _ => .ended

/-- A reader that takes the number for a text. -/
def reader : Client := .asks (.get ⟨"count", .text⟩) fun _ => .asks .names fun _ => .ended

/-- Two writers and a reader. -/
def crew : Fin 3 → Client
  | 0 => writer 3
  | 1 => writer 4
  | 2 => reader

/-- The bag after both writers. -/
def written : Outputs :=
  ⟨[("count".toList, ⟨.integer, (3 : Int)⟩),
    ("late".toList, ⟨.text, (OutputError.alreadyWritten "count").message⟩)]⟩

/-- What the crew does before the reader asks. -/
def before : List Event :=
  [⟨.put ⟨"count", .integer⟩ (3 : Int), .ok (), ⟨[("count".toList, ⟨.integer, (3 : Int)⟩)]⟩⟩,
   ⟨.put ⟨"count", .integer⟩ (4 : Int), .error (.alreadyWritten "count"),
      ⟨[("count".toList, ⟨.integer, (3 : Int)⟩)]⟩⟩,
   ⟨.put ⟨"late", .text⟩ (OutputError.alreadyWritten "count").message, .ok (), written⟩]

/-- What the reader asks first. -/
def asked : Event := ⟨.get ⟨"count", .text⟩, .error (.typeMismatch "count"), written⟩

/-- What the reader asks then. -/
def listed : Event := ⟨.names, ["count".toList, "late".toList], written⟩

/-- The reader comes last and is told that the number is no text. -/
theorem reader_told_of_mismatch :
    run crew empty [0, 1, 1, 2, 2, 0] = before ++ asked :: [listed] ∧
      asked.Follows (before.map Event.operation) (bagAfter empty before) :=
  ⟨rfl, first_put_stands crew [0, 1, 1, 2, 2, 0] rfl⟩

end TwoWriters

end StaticSite.Outputs
