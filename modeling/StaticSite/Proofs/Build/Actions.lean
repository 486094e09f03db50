import StaticSite.Build.Step
import StaticSite.Proofs.Build.Outputs

/-!
# What actions do to the outputs

An action is followed from given outputs on, in whatever workspace: when it succeeds, its value and the
outputs that it leaves have a property; when it fails, the outputs are as they were, and the failure is
not one that steps owe to each other. The rules go along the structure of actions.
-/
namespace StaticSite

namespace StepError

/-- The failure of a page without a module. -/
def noModule (entry : Text) : StepError :=
  .failed ("entry " ++ Text.quoted entry ++ " has no compiled module")

/-- Failures for want of something that another step makes: those of the outputs, and that of a page
without a module. -/
def FromOtherSteps : StepError → Prop
  | output _ => True
  | failed message => ∃ entry, failed message = noModule entry
  | _ => False

end StepError

namespace Action

variable {α β : Type}

theorem run_bind (a : Action α) (f : α → Action β) (s : RunState) :
    (a >>= f).run s =
      match a.run s with
      | (.ok x, s') => (f x).run s'
      | (.error e, s') => (.error e, s') := by
  change (ExceptT.bindCont f (a.run s).1).run (a.run s).2 = _
  rcases a.run s with ⟨_ | _, _⟩ <;> rfl

/-- An action whose first part succeeds goes on with what follows. -/
theorem run_bind_of_ok {a : Action α} {x : α} {s s₁ : RunState} (h : a.run s = (.ok x, s₁))
    (f : α → Action β) : (a >>= f).run s = (f x).run s₁ := by
  rw [run_bind, h]

theorem run_ofExcept {ε : Type} (wrap : ε → StepError) (x : α) (s : RunState) :
    (ofExcept wrap (.ok x)).run s = (.ok x, s) := rfl

theorem run_write {key : OutputKey} {s : RunState} (value : key.kind.Value)
    (h : s.outputs.contains key.name = false) :
    (write key value).run s = (.ok (), { s with outputs := s.outputs.insert key value }) := by
  unfold write
  rw [run_bind]
  change ExceptT.run (do
    let outputs ← ofExcept .output (s.outputs.put key value)
    set { s with outputs }) s = _
  rw [Outputs.put_of_not_contains h]
  rfl

theorem run_read {key : OutputKey} {value : key.kind.Value} {s : RunState}
    (h : s.outputs.get key = .ok value) : (read key).run s = (.ok value, s) := by
  unfold read
  rw [run_bind]
  change ExceptT.run (ofExcept .output (s.outputs.get key)) s = _
  rw [h]
  rfl

theorem run_changeFiles (path : FilePath) (change : FileTree → Except FileError FileTree) (s : RunState) :
    (changeFiles path change).run s =
      match change s.files with
      | .ok files => (.ok (), s.withFiles files)
      | .error e => (.error (.io path e), s) := by
  unfold changeFiles
  rw [run_bind]
  change ExceptT.run (do
    let files ← ofExcept (.io path) (change s.files)
    set (s.withFiles files)) s = _
  cases change s.files <;> rfl

/-! ## Actions that succeeded -/

/-- An action that succeeded, peeled into its first part and what follows it. -/
theorem run_bind_ok {a : Action α} {f : α → Action β} {s s' : RunState} {y : β}
    (h : (a >>= f).run s = (.ok y, s')) :
    ∃ x s₁, a.run s = (.ok x, s₁) ∧ (f x).run s₁ = (.ok y, s') := by
  rw [run_bind] at h
  cases hrun : a.run s with
  | mk result s₁ =>
    rw [hrun] at h
    cases result with
    | ok x => exact ⟨x, s₁, rfl, h⟩
    | error e => exact absurd (Prod.mk.inj h).1 nofun

theorem get_of_run_read_ok {key : OutputKey} {x : key.kind.Value} {s s' : RunState}
    (h : (read key).run s = (.ok x, s')) : s.outputs.get key = .ok x ∧ s = s' := by
  cases hget : s.outputs.get key with
  | ok value =>
    obtain ⟨hx, hs⟩ := Prod.mk.inj ((run_read hget).symm.trans h)
    exact ⟨congrArg Except.ok (Except.ok.inj hx), hs⟩
  | error e =>
    unfold read at h
    rw [run_bind] at h
    change (ofExcept .output (s.outputs.get key)).run s = _ at h
    rw [hget] at h
    exact absurd (Prod.mk.inj h).1 nofun

theorem run_read_ok {key : OutputKey} {value x : key.kind.Value} {s s' : RunState}
    (hvalue : s.outputs.get key = .ok value) (h : (read key).run s = (.ok x, s')) :
    value = x ∧ s = s' := by
  obtain ⟨hx, hs⟩ := Prod.mk.inj ((run_read hvalue).symm.trans h)
  exact ⟨Except.ok.inj hx, hs⟩

theorem run_ofExcept_ok {ε : Type} {wrap : ε → StepError} {result : Except ε α} {x : α} {s s' : RunState}
    (h : (ofExcept wrap result).run s = (.ok x, s')) : result = .ok x ∧ s = s' := by
  cases result with
  | ok y =>
    obtain ⟨hx, hs⟩ := Prod.mk.inj h
    exact ⟨congrArg Except.ok (Except.ok.inj hx), hs⟩
  | error e => exact absurd (Prod.mk.inj h).1 nofun

theorem run_changeFiles_ok {path : FilePath} {change : FileTree → Except FileError FileTree} {s s' : RunState}
    {u : Unit} (h : (changeFiles path change).run s = (.ok u, s')) :
    ∃ files, change s.files = .ok files ∧ s' = s.withFiles files := by
  rw [run_changeFiles] at h
  cases hchange : change s.files with
  | ok files =>
    rw [hchange] at h
    exact ⟨files, rfl, (Prod.mk.inj h).2.symm⟩
  | error e =>
    rw [hchange] at h
    exact absurd (Prod.mk.inj h).1 nofun

/-- An output that was written was new. -/
theorem run_write_ok {key : OutputKey} {value : key.kind.Value} {s s' : RunState} {u : Unit}
    (h : (write key value).run s = (.ok u, s')) :
    s' = { s with outputs := s.outputs.insert key value } := by
  cases hcontains : s.outputs.contains key.name with
  | false =>
    rw [run_write value hcontains] at h
    exact (Prod.mk.inj h).2.symm
  | true =>
    unfold write at h
    obtain ⟨s₁, _, hget, h⟩ := run_bind_ok h
    obtain ⟨hs₁, rfl⟩ := Prod.mk.inj hget
    obtain rfl := Except.ok.inj hs₁
    obtain ⟨outputs, _, hput, -⟩ := run_bind_ok h
    rw [Outputs.put_of_contains hcontains] at hput
    cases (run_ofExcept_ok hput).1

/-! ## Actions followed from given outputs -/

/-- From outputs on, in any workspace: a success leaves a value and outputs with a property, and a failure
leaves the outputs as they were and is the step's own. -/
def Yields (o : Outputs) (a : Action α) (Q : α → Outputs → Prop) : Prop :=
  ∀ s : RunState, s.outputs = o →
    match a.run s with
    | (.ok x, s') => Q x s'.outputs
    | (.error e, s') => s'.outputs = o ∧ ¬e.FromOtherSteps

/-- The action leaves the outputs alone, and its value has a property. -/
abbrev Leaves (o : Outputs) (a : Action α) (P : α → Prop) : Prop := Yields o a fun x o' => o' = o ∧ P x

namespace Yields

variable {o : Outputs} {Q : β → Outputs → Prop}

theorem bind {a : Action α} {f : α → Action β} {P : α → Prop} (ha : Leaves o a P)
    (hf : ∀ x, P x → Yields o (f x) Q) : Yields o (a >>= f) Q := by
  intro s hs
  have hfirst := ha s hs
  rw [run_bind]
  cases h : a.run s with
  | mk result s' =>
    rw [h] at hfirst
    cases result with
    | ok x => exact hf x hfirst.2 s' hfirst.1
    | error e => exact hfirst

theorem mono {a : Action β} {Q' : β → Outputs → Prop} (h : Yields o a Q)
    (hQ : ∀ x o', Q x o' → Q' x o') : Yields o a Q' := by
  intro s hs
  have ha := h s hs
  cases hrun : a.run s with
  | mk result s' =>
    rw [hrun] at ha
    cases result with
    | ok x => exact hQ x s'.outputs ha
    | error e => exact ha

theorem pure {x : β} (h : Q x o) : Yields o (pure x) Q := by
  rintro s rfl
  exact h

theorem throw {e : StepError} (h : ¬e.FromOtherSteps) : Yields o (throw e : Action β) Q := by
  rintro s rfl
  exact ⟨rfl, h⟩

theorem get : Leaves o (get : Action RunState) fun s => s.outputs = o := by
  rintro s rfl
  exact ⟨rfl, rfl⟩

theorem set {s : RunState} (h : s.outputs = o) : Leaves o (set s : Action PUnit) fun _ => True := by
  rintro - -
  exact ⟨h, trivial⟩

theorem ofExcept {ε : Type} {wrap : ε → StepError} (h : ∀ e, ¬(wrap e).FromOtherSteps)
    (result : Except ε α) : Leaves o (ofExcept wrap result) fun x => result = .ok x := by
  rintro s rfl
  cases result with
  | ok x => exact ⟨rfl, rfl⟩
  | error e => exact ⟨rfl, h e⟩

theorem changeFiles (path : FilePath) (change : FileTree → Except FileError FileTree) :
    Leaves o (changeFiles path change) fun _ => True := by
  refine bind get fun s hs => ?_
  refine bind (ofExcept ?_ (change s.files)) fun files _ => set hs
  exact fun _ => not_false

theorem makeParent (path : FilePath) : Leaves o (makeParent path) fun _ => True := by
  unfold Action.makeParent
  split
  · exact changeFiles _ _
  · exact pure ⟨rfl, trivial⟩

/-- Reads an output that is there. -/
theorem read_bind {key : OutputKey} {value : key.kind.Value} {f : key.kind.Value → Action β}
    (h : o.get key = .ok value) (hf : Yields o (f value) Q) : Yields o (read key >>= f) Q := by
  have hread : Leaves o (Action.read key) fun x => x = value := by
    refine bind get fun s hs => ?_
    rw [hs, h]
    exact pure ⟨rfl, rfl⟩
  refine bind hread fun x hx => ?_
  rw [hx]
  exact hf

theorem write (key : OutputKey) (value : key.kind.Value) (h : o.contains key.name = false) :
    Yields o (write key value) fun _ o' => o' = o.insert key value := by
  rintro s rfl
  rw [run_write value h]

/-- Two outputs are written together or not at all. -/
theorem write_write (key key' : OutputKey) (value : key.kind.Value) (value' : key'.kind.Value)
    (h : o.contains key.name = false) (h' : o.contains key'.name = false) (hne : key'.name ≠ key.name) :
    Yields o (do Action.write key value; Action.write key' value') fun _ o' =>
      o' = (o.insert key value).insert key' value' := by
  rintro s rfl
  have hsecond : (s.outputs.insert key value).contains key'.name = false := by
    simp [Outputs.contains_insert, hne, h']
  have hrun : (do Action.write key value; Action.write key' value').run s =
      (.ok (), { s with outputs := (s.outputs.insert key value).insert key' value' }) := by
    rw [run_bind, run_write value h]
    exact run_write value' hsecond
  rw [hrun]

theorem forIn {ι : Type} (items : List ι) (b : β) (f : ι → β → Action (ForInStep β))
    (hf : ∀ i b, Leaves o (f i b) fun _ => True) : Leaves o (forIn items b f) fun _ => True := by
  induction items generalizing b with
  | nil => exact pure ⟨rfl, trivial⟩
  | cons i items ih =>
    rw [List.forIn_cons]
    refine bind (hf i b) fun x _ => ?_
    cases x with
    | done b => exact pure ⟨rfl, trivial⟩
    | yield b => exact ih b

end Yields

end Action

end StaticSite
