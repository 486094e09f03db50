import StaticSite.Build.Pipeline

/-!
# The history of a run

What a run of a pipeline executes, position by position. A history is told without the functions that run
a pipeline: at each position exactly the steps that apply to what the position finds are executed, each
finds what the one before it left, and the first position with a failing execution is the last one.
The main statement is that a run follows its only history, and notes and reports what that history says.
-/
namespace StaticSite

/-- A step that was executed: what it found, how it went, and what it left. -/
@[ext] structure Execution where
  step : Step
  before : RunState
  result : Except StepError Unit
  after : RunState

namespace Execution

/-- The step itself, run in what was found, goes like this and leaves that. -/
def Genuine (context : BuildContext) (record : RunRecord) (x : Execution) : Prop :=
  (x.step.run context record).run x.before = (x.result, x.after)

/-- The execution of a step in what it finds. -/
def ofStep (context : BuildContext) (record : RunRecord) (step : Step) (s : RunState) : Execution :=
  ⟨step, s, ((step.run context record).run s).1, ((step.run context record).run s).2⟩

theorem genuine_ofStep (context : BuildContext) (record : RunRecord) (step : Step) (s : RunState) :
    (ofStep context record step s).Genuine context record := rfl

def Succeeded (x : Execution) : Prop := x.result = .ok ()

/-- The step's name with its own error, if it failed. -/
def failure? (x : Execution) : Option (Text × StepError) := Pipeline.failureOf? x.step.name x.result

theorem failure?_eq_none_iff (x : Execution) : x.failure? = none ↔ x.Succeeded := by
  unfold failure? Succeeded
  cases x.result with
  | ok u => simp [Pipeline.failureOf?]
  | error e => simp [Pipeline.failureOf?]

theorem failure?_of_error {x : Execution} {e : StepError} (h : x.result = .error e) :
    x.failure? = some (x.step.name, e) := by
  simp [failure?, h, Pipeline.failureOf?]

end Execution

/-- Executions from one state to another, of which each finds what the one before it left. -/
def Consecutive : RunState → List Execution → RunState → Prop
  | s, [], s' => s' = s
  | s, x :: xs, s' => x.before = s ∧ Consecutive x.after xs s'

/-- What happened at a position: what had been noted, what was found, what was executed, and what was
left. -/
@[ext] structure Visit where
  position : Position
  record : RunRecord
  before : RunState
  executions : List Execution
  after : RunState

namespace Visit

/-- A visit of a position from a record and a state on. Exactly the steps that apply to what it finds were
executed, in declared order. -/
structure Faithful (context : BuildContext) (position : Position) (record : RunRecord) (s : RunState)
    (v : Visit) : Prop where
  position_eq : v.position = position
  record_eq : v.record = record
  before_eq : v.before = s
  steps : v.executions.map (·.step) = position.steps.filter fun step => step.applies context record s
  genuine : ∀ x ∈ v.executions, x.Genuine context record
  consecutive : Consecutive s v.executions v.after

def Passed (v : Visit) : Prop := ∀ x ∈ v.executions, x.Succeeded

/-- The record with the executions of the visit. -/
def recordAfter (v : Visit) : RunRecord :=
  { v.record with timings := v.record.timings ++ v.executions.map (·.step.name) }

/-- The failure of the first execution that failed. -/
def failure? (v : Visit) : Option (Text × StepError) := v.executions.findSome? (·.failure?)

theorem failure?_eq_none_iff (v : Visit) : v.failure? = none ↔ v.Passed := by
  simp only [failure?, List.findSome?_eq_none_iff, Execution.failure?_eq_none_iff, Passed]

end Visit

/-- The visits of a pipeline from a record and a state on, with the record and the state in which they
end. A visit that does not pass is the last one. -/
inductive History (context : BuildContext) :
    Pipeline → RunRecord → RunState → List Visit → RunRecord → RunState → Prop where
  | finished (record : RunRecord) (s : RunState) : History context [] record s [] record s
  | halted {position : Position} {record : RunRecord} {s : RunState} (v : Visit) (positions : Pipeline)
      (faithful : v.Faithful context position record s) (failed : ¬v.Passed) :
      History context (position :: positions) record s [v] v.recordAfter v.after
  | passed {position : Position} {record record' : RunRecord} {s s' : RunState} (v : Visit)
      {positions : Pipeline} {visits : List Visit} (faithful : v.Faithful context position record s)
      (passed : v.Passed) (rest : History context positions v.recordAfter v.after visits record' s') :
      History context (position :: positions) record s (v :: visits) record' s'

namespace Pipeline

variable (context : BuildContext)

/-! ## Running follows a history -/

theorem runMembers_cons (record : RunRecord) (step : Step) (steps : List Step) (s : RunState) :
    runMembers context record (step :: steps) s =
      let x := Execution.ofStep context record step s
      let rest := runMembers context record steps x.after
      ((step.name, x.result) :: rest.1, rest.2) := rfl

/-- The results of members are those of consecutive executions of them. -/
theorem runMembers_executions (record : RunRecord) (steps : List Step) (s : RunState) :
    ∃ xs : List Execution, ∃ s' : RunState, xs.map (·.step) = steps ∧
      (∀ x ∈ xs, x.Genuine context record) ∧ Consecutive s xs s' ∧
      runMembers context record steps s = (xs.map fun x => (x.step.name, x.result), s') := by
  induction steps generalizing s with
  | nil => exact ⟨[], s, rfl, by simp, rfl, rfl⟩
  | cons step steps ih =>
    let x := Execution.ofStep context record step s
    obtain ⟨xs, s', hsteps, hgenuine, hconsecutive, hmembers⟩ := ih x.after
    refine ⟨x :: xs, s', by simp [hsteps, x, Execution.ofStep], ?_, ⟨rfl, hconsecutive⟩, ?_⟩
    · intro y hy
      rcases List.mem_cons.mp hy with rfl | hy
      · exact Execution.genuine_ofStep context record step s
      · exact hgenuine y hy
    · simp only [runMembers_cons]
      rw [hmembers]
      rfl

theorem foldl_noteStep (record : RunRecord) (results : List (Text × Except StepError Unit)) :
    results.foldl (fun record (name, _) => record.noteStep name) record =
      { record with timings := record.timings ++ results.map (·.1) } := by
  induction results generalizing record with
  | nil => simp
  | cons entry results ih =>
    rw [List.foldl_cons, ih]
    simp [RunRecord.noteStep]

/-- What is reported of a visit. -/
def visitReport (v : Visit) : RunReport := ⟨v.after, v.recordAfter, v.failure?⟩

theorem reportGroup_executions (record : RunRecord) (xs : List Execution) (s : RunState) :
    reportGroup record (xs.map fun x => (x.step.name, x.result)) s =
      ⟨s, { record with timings := record.timings ++ xs.map (·.step.name) },
        xs.findSome? (·.failure?)⟩ := by
  simp only [reportGroup, foldl_noteStep, firstFailure?, List.map_map, List.findSome?_map]
  rfl

theorem runSingle_visit (step : Step) (record : RunRecord) (s : RunState) :
    ∃ v : Visit, v.Faithful context (.single step) record s ∧
      runSingle context step record s = visitReport v := by
  by_cases happlies : step.applies context record s = true
  · let x := Execution.ofStep context record step s
    refine ⟨⟨.single step, record, s, [x], x.after⟩, ⟨rfl, rfl, rfl, ?_, ?_, ?_⟩, ?_⟩
    · simp [Position.steps, happlies, x, Execution.ofStep]
    · intro y hy
      rw [List.mem_singleton.mp hy]
      exact Execution.genuine_ofStep context record step s
    · exact ⟨rfl, rfl⟩
    · simp only [runSingle, if_pos happlies, visitReport, Visit.recordAfter, Visit.failure?,
        List.map_cons, List.map_nil, List.findSome?_singleton]
      rfl
  · refine ⟨⟨.single step, record, s, [], s⟩, ⟨rfl, rfl, rfl, ?_, by simp, rfl⟩, ?_⟩
    · simp [Position.steps, happlies]
    · simp [runSingle, happlies, visitReport, Visit.recordAfter, Visit.failure?]

theorem runGroup_visit (steps : List Step) (record : RunRecord) (s : RunState) :
    ∃ v : Visit, v.Faithful context (.group steps) record s ∧
      runGroup context steps record s = visitReport v := by
  obtain ⟨xs, s', hsteps, hgenuine, hconsecutive, hmembers⟩ := runMembers_executions context record
    (steps.filter fun step => step.applies context record s) s
  refine ⟨⟨.group steps, record, s, xs, s'⟩, ⟨rfl, rfl, rfl, hsteps, hgenuine, hconsecutive⟩, ?_⟩
  simp only [runGroup_eq, hmembers, reportGroup_executions]
  rfl

theorem runPosition_visit (position : Position) (record : RunRecord) (s : RunState) :
    ∃ v : Visit, v.Faithful context position record s ∧
      runPosition context position record s = visitReport v := by
  cases position with
  | single step => exact runSingle_visit context step record s
  | group steps => exact runGroup_visit context steps record s

/-- What a run reports of visits that end in a record and a state: it halts at the first failure. -/
def historyReport (visits : List Visit) (record : RunRecord) (s : RunState) : RunReport :=
  match visits.findSome? (·.failure?) with
  | some (step, e) => ⟨s, record.noteFailure step, some (step, e)⟩
  | none => ⟨s, record, none⟩

theorem historyReport_state (visits : List Visit) (record : RunRecord) (s : RunState) :
    (historyReport visits record s).state = s := by
  unfold historyReport
  split <;> rfl

theorem historyReport_failure (visits : List Visit) (record : RunRecord) (s : RunState) :
    (historyReport visits record s).failure = visits.findSome? (·.failure?) := by
  unfold historyReport
  split
  · rename_i h; exact h.symm
  · rename_i h; exact h.symm

/-- The failed step is noted, and nothing else. -/
theorem historyReport_record {visits : List Visit} {record : RunRecord} {s : RunState}
    (h : record.failedStep = none) :
    (historyReport visits record s).record =
      { record with failedStep := (visits.findSome? (·.failure?)).map (·.1) } := by
  unfold historyReport
  split
  · rename_i hfailure
    simp [RunRecord.noteFailure, h, hfailure]
  · rename_i hfailure
    simp [← h, hfailure]

theorem runFrom_history (p : Pipeline) (record : RunRecord) (s : RunState) :
    ∃ visits record' s', History context p record s visits record' s' ∧
      runFrom context p record s = historyReport visits record' s' := by
  induction p generalizing record s with
  | nil => exact ⟨[], record, s, .finished record s, rfl⟩
  | cons position positions ih =>
    obtain ⟨v, hfaithful, hreport⟩ :=
      runPosition_visit context position record s
    cases hfailure : v.failure? with
    | some failure =>
      have hfailed : ¬v.Passed := fun h => by simp [(Visit.failure?_eq_none_iff v).mpr h] at hfailure
      refine ⟨[v], v.recordAfter, v.after, .halted v positions hfaithful hfailed, ?_⟩
      simp [runFrom, hreport, visitReport, hfailure, historyReport]
    | none =>
      obtain ⟨visits, record', s', hrest, hrun⟩ := ih v.recordAfter v.after
      have hpassed := (Visit.failure?_eq_none_iff v).mp hfailure
      refine ⟨v :: visits, record', s', .passed v hfaithful hpassed hrest, ?_⟩
      simp [runFrom, hreport, visitReport, hfailure, hrun, historyReport]

end Pipeline

/-! ## Histories are told in one way -/

/-- Consecutive genuine executions of the same steps from the same state are the same. -/
theorem Consecutive.unique {context : BuildContext} {record : RunRecord} {s s₁ s₂ : RunState}
    {xs ys : List Execution} (hx : Consecutive s xs s₁) (hy : Consecutive s ys s₂)
    (hsteps : xs.map (·.step) = ys.map (·.step)) (hgx : ∀ x ∈ xs, x.Genuine context record)
    (hgy : ∀ y ∈ ys, y.Genuine context record) : xs = ys ∧ s₁ = s₂ := by
  induction xs generalizing s ys with
  | nil =>
    obtain rfl : ys = [] := by simpa using hsteps.symm
    exact ⟨rfl, hx.trans hy.symm⟩
  | cons x xs ih =>
    cases ys with
    | nil => simp at hsteps
    | cons y ys =>
      obtain ⟨hxs, hx⟩ := hx
      obtain ⟨hys, hy⟩ := hy
      obtain ⟨hstep, htail⟩ := List.cons.inj hsteps
      have hbefore : x.before = y.before := hxs.trans hys.symm
      have hgenuine : _ = (x.result, x.after) := hgx x List.mem_cons_self
      have hgenuine' : _ = (y.result, y.after) := hgy y List.mem_cons_self
      rw [hbefore, show x.step = y.step from hstep, hgenuine'] at hgenuine
      obtain ⟨hresult, hafter⟩ := Prod.mk.inj hgenuine
      obtain rfl : x = y := Execution.ext hstep hbefore hresult.symm hafter.symm
      obtain ⟨rfl, rfl⟩ := ih hx hy htail (fun z hz => hgx z (List.mem_cons_of_mem x hz))
        (fun z hz => hgy z (List.mem_cons_of_mem x hz))
      exact ⟨rfl, rfl⟩

theorem Visit.Faithful.unique {context : BuildContext} {position : Position} {record : RunRecord}
    {s : RunState} {v u : Visit} (hv : v.Faithful context position record s)
    (hu : u.Faithful context position record s) : v = u := by
  obtain ⟨hexecutions, hafter⟩ := hv.consecutive.unique hu.consecutive
    (hv.steps.trans hu.steps.symm) hv.genuine hu.genuine
  exact Visit.ext (hv.position_eq.trans hu.position_eq.symm) (hv.record_eq.trans hu.record_eq.symm)
    (hv.before_eq.trans hu.before_eq.symm) hexecutions hafter

theorem History.unique {context : BuildContext} {p : Pipeline} {record record₁ record₂ : RunRecord}
    {s s₁ s₂ : RunState} {visits visits' : List Visit}
    (h : History context p record s visits record₁ s₁)
    (h' : History context p record s visits' record₂ s₂) :
    visits = visits' ∧ record₁ = record₂ ∧ s₁ = s₂ := by
  induction h generalizing visits' with
  | finished record s => cases h'; exact ⟨rfl, rfl, rfl⟩
  | halted v positions hfaithful hfailed =>
    cases h' with
    | halted u _ hfaithful' _ =>
      obtain rfl := hfaithful.unique hfaithful'
      exact ⟨rfl, rfl, rfl⟩
    | passed u hfaithful' hpassed _ =>
      obtain rfl := hfaithful.unique hfaithful'
      exact absurd hpassed hfailed
  | passed v hfaithful hpassed _ ih =>
    cases h' with
    | halted u _ hfaithful' hfailed =>
      obtain rfl := hfaithful.unique hfaithful'
      exact absurd hpassed hfailed
    | passed u hfaithful' _ hrest' =>
      obtain rfl := hfaithful.unique hfaithful'
      obtain ⟨rfl, hrecord, hs⟩ := ih hrest'
      exact ⟨rfl, hrecord, hs⟩

/-! ## What a history says -/

namespace History

variable {context : BuildContext} {p : Pipeline} {record record' : RunRecord} {s s' : RunState}
  {visits : List Visit}

/-- A history adds the names of its executions to the timings, and nothing else to the record. -/
theorem record_eq (h : History context p record s visits record' s') :
    record' = { record with
      timings := record.timings ++ (visits.flatMap (·.executions)).map (·.step.name) } := by
  induction h with
  | finished record s => simp
  | halted v positions hfaithful _ => simp [Visit.recordAfter, hfaithful.record_eq]
  | passed v hfaithful _ _ ih =>
    rw [ih]
    simp [Visit.recordAfter, hfaithful.record_eq]

/-- A visit that does not pass is the last one, and all visits before it pass. -/
theorem eq_append_of_not_passed (h : History context p record s visits record' s') {v : Visit}
    (hv : v ∈ visits) (hfailed : ¬v.Passed) :
    ∃ earlier, visits = earlier ++ [v] ∧ ∀ u ∈ earlier, u.Passed := by
  induction h with
  | finished record s => simp at hv
  | halted u positions _ _ =>
    obtain rfl := List.mem_singleton.mp hv
    exact ⟨[], rfl, by simp⟩
  | passed u _ hpassed _ ih =>
    rcases List.mem_cons.mp hv with rfl | hv
    · exact absurd hpassed hfailed
    · obtain ⟨earlier, rfl, hearlier⟩ := ih hv
      refine ⟨u :: earlier, rfl, fun w hw => ?_⟩
      rcases List.mem_cons.mp hw with rfl | hw
      · exact hpassed
      · exact hearlier w hw

end History

namespace Visit

/-- The failure of a visit is that of its first execution that failed. -/
theorem failure?_of_first {v : Visit} {earlier later : List Execution} {x : Execution} {e : StepError}
    (hsplit : v.executions = earlier ++ x :: later) (hearlier : ∀ y ∈ earlier, y.Succeeded)
    (hx : x.result = .error e) : v.failure? = some (x.step.name, e) := by
  have hnone : earlier.findSome? (·.failure?) = none :=
    List.findSome?_eq_none_iff.mpr fun y hy => (Execution.failure?_eq_none_iff y).mpr (hearlier y hy)
  simp [failure?, hsplit, List.findSome?_append, hnone, Execution.failure?_of_error hx]

theorem not_passed_of_error {v : Visit} {x : Execution} {e : StepError} (hx : x ∈ v.executions)
    (he : x.result = .error e) : ¬v.Passed := by
  intro h
  have hok : x.result = .ok () := h x hx
  rw [he] at hok
  cases hok

end Visit

namespace Pipeline

theorem findSome?_failure?_eq_none_iff (visits : List Visit) :
    visits.findSome? (·.failure?) = none ↔ ∀ v ∈ visits, v.Passed := by
  simp only [List.findSome?_eq_none_iff, Visit.failure?_eq_none_iff]

/-- A run follows exactly one history. Its timings are the executions of that history in order; it ends
without a failure exactly when every execution succeeded; and otherwise the failed step and the failure
are those of the first execution that failed, which belongs to the last visit. -/
theorem run_follows_history (context : BuildContext) (options : BuildOptions) (p : Pipeline)
    (w : Workspace) :
    let r := p.run context options w
    ∃ visits record, History context p (.start options) ⟨w, .empty⟩ visits record r.state ∧
      (∀ visits' record' s', History context p (.start options) ⟨w, .empty⟩ visits' record' s' →
        visits' = visits) ∧
      r.record.options = options ∧
      r.record.timings = (visits.flatMap (·.executions)).map (·.step.name) ∧
      (r.failure = none ∧ r.record.failedStep = none ↔
        ∀ v ∈ visits, ∀ x ∈ v.executions, x.Succeeded) ∧
      ∀ v ∈ visits, ∀ earlier x later e, v.executions = earlier ++ x :: later →
        (∀ y ∈ earlier, y.Succeeded) → x.result = .error e →
          visits.getLast? = some v ∧ r.failure = some (x.step.name, e) ∧
            r.record.failedStep = some x.step.name := by
  intro r
  obtain ⟨visits, record, s, hhistory, hrun⟩ :=
    runFrom_history context p (.start options) ⟨w, .empty⟩
  have hr : r = historyReport visits record s := hrun
  have hstate : r.state = s := by rw [hr, historyReport_state]
  have hfailure : r.failure = visits.findSome? (·.failure?) := by rw [hr, historyReport_failure]
  have hrecord : r.record = { options := options
                              timings := (visits.flatMap (·.executions)).map (·.step.name)
                              failedStep := (visits.findSome? (·.failure?)).map (·.1) } := by
    rw [hr, historyReport_record (by rw [hhistory.record_eq]; rfl), hhistory.record_eq]
    simp [RunRecord.start]
  refine ⟨visits, record, by rw [hstate]; exact hhistory, fun _ _ _ h => (h.unique hhistory).1,
    by rw [hrecord], by rw [hrecord], ?_, ?_⟩
  · rw [hfailure, hrecord]
    simp only [Option.map_eq_none_iff, and_self, findSome?_failure?_eq_none_iff]
    rfl
  · intro v hv earlier x later e hsplit hearlier hx
    have hfailed := Visit.not_passed_of_error (v := v) (by simp [hsplit]) hx
    obtain ⟨before, rfl, hbefore⟩ := hhistory.eq_append_of_not_passed hv hfailed
    have hfirst : (before ++ [v]).findSome? (·.failure?) = some (x.step.name, e) := by
      rw [List.findSome?_append, (findSome?_failure?_eq_none_iff before).mpr hbefore]
      simpa using Visit.failure?_of_first hsplit hearlier hx
    rw [hfailure, hrecord, hfirst]
    exact ⟨List.getLast?_concat, rfl, rfl⟩

end Pipeline

end StaticSite
