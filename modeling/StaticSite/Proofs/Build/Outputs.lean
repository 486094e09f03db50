import StaticSite.Build.Outputs
import StaticSite.Proofs.Table

/-!
# What a bag of outputs holds

Writing an output succeeds exactly when its name is new, and then changes what is found under that name and
nothing else.
-/
namespace StaticSite.Outputs

/-- The outputs with one more. -/
def insert (key : OutputKey) (value : key.kind.Value) (o : Outputs) : Outputs :=
  ⟨o.values.insert key.name ⟨key.kind, value⟩⟩

theorem put_of_contains {key : OutputKey} {o : Outputs} (h : o.contains key.name = true)
    (value : key.kind.Value) : o.put key value = .error (.alreadyWritten key.name) := by
  simp [put, h]

theorem put_of_not_contains {key : OutputKey} {o : Outputs} (h : o.contains key.name = false)
    (value : key.kind.Value) : o.put key value = .ok (o.insert key value) := by
  simp [put, h, insert]

@[simp] theorem contains_empty (name : Text) : empty.contains name = false := rfl

theorem contains_insert (key : OutputKey) (value : key.kind.Value) (o : Outputs) (name : Text) :
    (o.insert key value).contains name = (decide (name = key.name) || o.contains name) := by
  simp only [contains, insert, Table.contains_insert]

theorem contains_eq_true_iff (name : Text) (o : Outputs) : o.contains name = true ↔ name ∈ o.names :=
  Table.contains_eq_true_iff name o.values

theorem get_insert_self (key : OutputKey) (value : key.kind.Value) (o : Outputs) :
    (o.insert key value).get key = .ok value := by
  simp [get, insert, Table.get?_insert]

theorem get_insert_of_ne {key other : OutputKey} (h : other.name ≠ key.name) (value : key.kind.Value)
    (o : Outputs) : (o.insert key value).get other = o.get other := by
  simp [get, insert, Table.get?_insert, h]

theorem insert_comm {key other : OutputKey} (h : key.name ≠ other.name) (value : key.kind.Value)
    (value' : other.kind.Value) (o : Outputs) :
    (o.insert other value').insert key value = (o.insert key value).insert other value' := by
  simp [insert, Table.insert_comm h]

end StaticSite.Outputs
