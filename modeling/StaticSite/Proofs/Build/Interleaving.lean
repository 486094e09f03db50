import StaticSite.Build.Step
import StaticSite.Proofs.Build.Outputs

/-!
# Groups in any order

The members of a group run together. Here a member is a process that puts outputs and gets them, and the
processes of a group advance in any order, one operation at a time. Processes that write different outputs
and read none that another one writes cannot tell the order. The main statement is that every way to
interleave them ends with the outputs, the results and the report of running them one after the other.
-/
namespace StaticSite

/-- What a member of a group does next: it has ended, or it puts or gets an output and goes on with the
answer. -/
inductive Process where
  | done (result : Except StepError Unit)
  | put (key : OutputKey) (value : key.kind.Value) (next : Except OutputError Unit → Process)
  | get (key : OutputKey) (next : Except OutputError key.kind.Value → Process)

namespace Process

/-- The action of a step that does what a process does. -/
def action : Process → Action Unit
  | done result => Action.ofExcept id result
  | put key value next => do
    let s ← MonadState.get
    match s.outputs.put key value with
    | .ok outputs =>
      set { s with outputs }
      (next (.ok ())).action
    | .error e => (next (.error e)).action
  | get key next => do
    let s ← MonadState.get
    (next (s.outputs.get key)).action

/-- The process after its next operation, and the outputs after it; a process that has ended does
nothing. -/
def step? : Process → Outputs → Option (Process × Outputs)
  | done _, _ => none
  | put key value next, o =>
    match o.put key value with
    | .ok o' => some (next (.ok ()), o')
    | .error e => some (next (.error e), o)
  | get key next, o => some (next (o.get key), o)

/-- The result of a process that runs alone, and the outputs that it leaves. -/
def alone : Process → Outputs → Except StepError Unit × Outputs
  | done result, o => (result, o)
  | put key value next, o =>
    match o.put key value with
    | .ok o' => (next (.ok ())).alone o'
    | .error e => (next (.error e)).alone o
  | get key next, o => (next (o.get key)).alone o

/-- The names of the outputs that a process writes when it runs alone. -/
def writes : Process → Outputs → List Text
  | done _, _ => []
  | put key value next, o =>
    match o.put key value with
    | .ok o' => key.name :: (next (.ok ())).writes o'
    | .error e => (next (.error e)).writes o
  | get key next, o => (next (o.get key)).writes o

/-- The names of the outputs that a process reads when it runs alone. -/
def reads : Process → Outputs → List Text
  | done _, _ => []
  | put key value next, o =>
    match o.put key value with
    | .ok o' => (next (.ok ())).reads o'
    | .error e => (next (.error e)).reads o
  | get key next, o => key.name :: (next (o.get key)).reads o

/-- Processes of which neither writes what the other writes or reads. -/
structure Independent (o : Outputs) (P Q : Process) : Prop where
  writes : ∀ name ∈ P.writes o, name ∉ Q.writes o
  reads : ∀ name ∈ P.writes o, name ∉ Q.reads o
  reads' : ∀ name ∈ Q.writes o, name ∉ P.reads o

/-- The results of processes that run alone one after the other. -/
def inOrder : List Process → Outputs → List (Except StepError Unit) × Outputs
  | [], o => ([], o)
  | P :: Ps, o =>
    let (result, o) := P.alone o
    let (results, o) := inOrder Ps o
    (result :: results, o)

/-- Processes advance in any order until all have ended, with these results and these outputs. -/
inductive Interleaved : List Process → Outputs → List (Except StepError Unit) → Outputs → Prop where
  | ended (results : List (Except StepError Unit)) (o : Outputs) :
      Interleaved (results.map done) o results o
  | advance {P P' : Process} {o o' o'' : Outputs} {results : List (Except StepError Unit)}
      (earlier later : List Process) (step : P.step? o = some (P', o'))
      (rest : Interleaved (earlier ++ P' :: later) o' results o'') :
      Interleaved (earlier ++ P :: later) o results o''

/-! ## A process and an output that it does not touch -/

/-- An output that a process neither writes nor reads does not change how it runs: the process touches the
same outputs, has the same result, and leaves that output beside its own. -/
theorem alone_insert {key : OutputKey} (value : key.kind.Value) (P : Process) {o : Outputs}
    (hnew : o.contains key.name = false) (hwrites : key.name ∉ P.writes o)
    (hreads : key.name ∉ P.reads o) :
    P.alone (o.insert key value) = ((P.alone o).1, (P.alone o).2.insert key value) ∧
      P.writes (o.insert key value) = P.writes o ∧ P.reads (o.insert key value) = P.reads o := by
  induction P generalizing o with
  | done result => exact ⟨rfl, rfl, rfl⟩
  | put other value' next ih =>
    by_cases hother : o.contains other.name = true
    · have hother' : (o.insert key value).contains other.name = true := by
        simp [Outputs.contains_insert, hother]
      simp only [alone, writes, reads, Outputs.put_of_contains hother,
        Outputs.put_of_contains hother'] at hwrites hreads ⊢
      exact ih _ hnew hwrites hreads
    · rw [Bool.not_eq_true] at hother
      simp only [writes, reads, Outputs.put_of_not_contains hother, List.mem_cons, not_or]
        at hwrites hreads
      obtain ⟨hne, hwrites⟩ := hwrites
      have hother' : (o.insert key value).contains other.name = false := by
        simp [Outputs.contains_insert, hother, Ne.symm hne]
      have hnew' : (o.insert other value').contains key.name = false := by
        simp [Outputs.contains_insert, hnew, hne]
      simp only [alone, writes, reads, Outputs.put_of_not_contains hother,
        Outputs.put_of_not_contains hother', Outputs.insert_comm (Ne.symm hne)]
      obtain ⟨halone, hw, hr⟩ := ih (.ok ()) hnew' hwrites hreads
      exact ⟨halone, congrArg (other.name :: ·) hw, hr⟩
  | get other next ih =>
    simp only [alone, writes, reads, List.mem_cons, not_or] at hwrites hreads ⊢
    obtain ⟨hne, hreads⟩ := hreads
    rw [Outputs.get_insert_of_ne (Ne.symm hne)]
    obtain ⟨halone, hw, hr⟩ := ih _ hnew hwrites hreads
    exact ⟨halone, hw, congrArg (other.name :: ·) hr⟩

/-- A process that runs alone leaves what stands under a name that it does not write. -/
theorem alone_frame {name : Text} (P : Process) {o : Outputs} (h : name ∉ P.writes o) :
    (P.alone o).2.contains name = o.contains name ∧
      ∀ key : OutputKey, key.name = name → (P.alone o).2.get key = o.get key := by
  induction P generalizing o with
  | done result => exact ⟨rfl, fun _ _ => rfl⟩
  | put other value next ih =>
    by_cases hother : o.contains other.name = true
    · simp only [alone, writes, Outputs.put_of_contains hother] at h ⊢
      exact ih _ h
    · rw [Bool.not_eq_true] at hother
      simp only [alone, writes, Outputs.put_of_not_contains hother, List.mem_cons, not_or] at h ⊢
      obtain ⟨hcontains, hget⟩ := ih _ h.2
      refine ⟨?_, fun key hkey => ?_⟩
      · rw [hcontains, Outputs.contains_insert]
        simp [h.1]
      · rw [hget key hkey, Outputs.get_insert_of_ne (by rw [hkey]; exact h.1)]
  | get other next ih => exact ih _ h

theorem alone_contains (P : Process) {o : Outputs} {name : Text} (h : o.contains name = true) :
    (P.alone o).2.contains name = true := by
  induction P generalizing o with
  | done result => exact h
  | put other value next ih =>
    by_cases hother : o.contains other.name = true
    · simp only [alone, Outputs.put_of_contains hother]
      exact ih _ h
    · rw [Bool.not_eq_true] at hother
      simp only [alone, Outputs.put_of_not_contains hother]
      exact ih _ (by simp [Outputs.contains_insert, h])
  | get other next ih => exact ih _ h

/-- A process touches the same outputs after another one has run that writes none of them. -/
theorem footprint_alone (P Q : Process) {o : Outputs} (hwrites : ∀ name ∈ Q.writes o, name ∉ P.writes o)
    (hreads : ∀ name ∈ Q.writes o, name ∉ P.reads o) :
    P.writes (Q.alone o).2 = P.writes o ∧ P.reads (Q.alone o).2 = P.reads o := by
  induction Q generalizing o with
  | done result => exact ⟨rfl, rfl⟩
  | put other value next ih =>
    by_cases hother : o.contains other.name = true
    · simp only [alone, writes, Outputs.put_of_contains hother] at hwrites hreads ⊢
      exact ih _ hwrites hreads
    · rw [Bool.not_eq_true] at hother
      simp only [alone, writes, Outputs.put_of_not_contains hother, List.forall_mem_cons]
        at hwrites hreads ⊢
      obtain ⟨-, hw, hr⟩ := alone_insert value P hother hwrites.1 hreads.1
      rw [← hw, ← hr]
      refine ih _ ?_ ?_
      · rw [hw]; exact hwrites.2
      · rw [hr]; exact hreads.2
  | get other next ih => exact ih _ hwrites hreads

/-! ## One operation of a process -/

/-- An operation leaves the outputs as they are, or adds one that the process writes. -/
theorem step?_outputs {P P' : Process} {o o' : Outputs} (h : P.step? o = some (P', o')) :
    o' = o ∨ ∃ (key : OutputKey) (value : key.kind.Value),
      o.contains key.name = false ∧ key.name ∈ P.writes o ∧ o' = o.insert key value := by
  cases P with
  | done result => simp [step?] at h
  | put key value next =>
    by_cases hkey : o.contains key.name = true
    · simp only [step?, Outputs.put_of_contains hkey, Option.some.injEq, Prod.mk.injEq] at h
      exact .inl h.2.symm
    · rw [Bool.not_eq_true] at hkey
      simp only [step?, Outputs.put_of_not_contains hkey, Option.some.injEq, Prod.mk.injEq] at h
      exact .inr ⟨key, value, hkey, by simp [writes, Outputs.put_of_not_contains hkey], h.2.symm⟩
  | get key next =>
    simp only [step?, Option.some.injEq, Prod.mk.injEq] at h
    exact .inl h.2.symm

/-- What is left of a process after an operation runs on like the process itself, and touches no more. -/
theorem step?_alone {P P' : Process} {o o' : Outputs} (h : P.step? o = some (P', o')) :
    P'.alone o' = P.alone o ∧ P'.writes o' ⊆ P.writes o ∧ P'.reads o' ⊆ P.reads o := by
  cases P with
  | done result => simp [step?] at h
  | put key value next =>
    by_cases hkey : o.contains key.name = true
    · simp only [step?, Outputs.put_of_contains hkey, Option.some.injEq, Prod.mk.injEq] at h
      obtain ⟨rfl, rfl⟩ := h
      simp [alone, writes, reads, Outputs.put_of_contains hkey]
    · rw [Bool.not_eq_true] at hkey
      simp only [step?, Outputs.put_of_not_contains hkey, Option.some.injEq, Prod.mk.injEq] at h
      obtain ⟨rfl, rfl⟩ := h
      simp [alone, writes, reads, Outputs.put_of_not_contains hkey]
  | get key next =>
    simp only [step?, Option.some.injEq, Prod.mk.injEq] at h
    obtain ⟨rfl, rfl⟩ := h
    simp [alone, writes, reads]

namespace Independent

variable {o : Outputs} {P Q : Process}

theorem symm (h : Independent o P Q) : Independent o Q P :=
  ⟨fun name hQ hP => h.writes name hP hQ, h.reads', h.reads⟩

/-- Another process touches the same outputs after an operation. -/
theorem footprint_step (h : Independent o P Q) {P' : Process} {o' : Outputs}
    (hstep : P.step? o = some (P', o')) : Q.writes o' = Q.writes o ∧ Q.reads o' = Q.reads o := by
  rcases step?_outputs hstep with rfl | ⟨key, value, hnew, hkey, rfl⟩
  · exact ⟨rfl, rfl⟩
  · exact (alone_insert value Q hnew (h.writes _ hkey) (h.reads _ hkey)).2

/-- An operation of one process and a whole run of the other may change places. -/
theorem step?_comm_alone (h : Independent o P Q) {P' : Process} {o' : Outputs}
    (hstep : P.step? o = some (P', o')) :
    (Q.alone o').1 = (Q.alone o).1 ∧ P.step? (Q.alone o).2 = some (P', (Q.alone o').2) := by
  cases P with
  | done result => simp [step?] at hstep
  | put key value next =>
    by_cases hkey : o.contains key.name = true
    · simp only [step?, Outputs.put_of_contains hkey, Option.some.injEq, Prod.mk.injEq] at hstep
      obtain ⟨rfl, rfl⟩ := hstep
      simp [step?, Outputs.put_of_contains (alone_contains Q hkey)]
    · rw [Bool.not_eq_true] at hkey
      have hmem : key.name ∈ (put key value next).writes o := by
        simp [Process.writes, Outputs.put_of_not_contains hkey]
      have hfree : (Q.alone o).2.contains key.name = false := by
        rw [(alone_frame Q (h.writes _ hmem)).1, hkey]
      simp only [step?, Outputs.put_of_not_contains hkey, Option.some.injEq, Prod.mk.injEq] at hstep
      obtain ⟨rfl, rfl⟩ := hstep
      rw [(alone_insert value Q hkey (h.writes _ hmem) (h.reads _ hmem)).1]
      simp [step?, Outputs.put_of_not_contains hfree]
  | get key next =>
    have hmem : key.name ∈ (get key next).reads o := by simp [Process.reads]
    have hsame : (Q.alone o).2.get key = o.get key :=
      (alone_frame Q fun hQ => h.reads' _ hQ hmem).2 key rfl
    simp only [step?, Option.some.injEq, Prod.mk.injEq] at hstep
    obtain ⟨rfl, rfl⟩ := hstep
    simp [step?, hsame]

end Independent

/-! ## Groups of independent processes -/

/-- The processes after the first one are independent where it ends. -/
theorem pairwise_alone {Q : Process} {Ps : List Process} {o : Outputs}
    (h : (Q :: Ps).Pairwise (Independent o)) : Ps.Pairwise (Independent (Q.alone o).2) := by
  obtain ⟨hQ, hPs⟩ := List.pairwise_cons.mp h
  refine hPs.imp_of_mem fun {P R} hP hR hPR => ?_
  obtain ⟨hPw, hPr⟩ := footprint_alone P Q (hQ P hP).writes (hQ P hP).reads
  obtain ⟨hRw, hRr⟩ := footprint_alone R Q (hQ R hR).writes (hQ R hR).reads
  constructor
  · rw [hPw, hRw]; exact hPR.writes
  · rw [hPw, hRr]; exact hPR.reads
  · rw [hRw, hPr]; exact hPR.reads'

/-- An operation leaves processes independent. -/
theorem pairwise_step {P P' : Process} {earlier later : List Process} {o o' : Outputs}
    (h : (earlier ++ P :: later).Pairwise (Independent o)) (hstep : P.step? o = some (P', o')) :
    (earlier ++ P' :: later).Pairwise (Independent o') := by
  obtain ⟨hearlier, hlater, hacross⟩ := List.pairwise_append.mp h
  obtain ⟨hP, hlater⟩ := List.pairwise_cons.mp hlater
  have hothers : ∀ R, R ∈ earlier ∨ R ∈ later → Independent o P R := by
    rintro R (hR | hR)
    · exact (hacross R hR P List.mem_cons_self).symm
    · exact hP R hR
  have hkept : ∀ R R', R ∈ earlier ∨ R ∈ later → R' ∈ earlier ∨ R' ∈ later → Independent o R R' →
      Independent o' R R' := by
    intro R R' hR hR' hRR'
    obtain ⟨hw, hr⟩ := (hothers R hR).footprint_step hstep
    obtain ⟨hw', hr'⟩ := (hothers R' hR').footprint_step hstep
    constructor
    · rw [hw, hw']; exact hRR'.writes
    · rw [hw, hr']; exact hRR'.reads
    · rw [hw', hr]; exact hRR'.reads'
  have hnew : ∀ R, R ∈ earlier ∨ R ∈ later → Independent o' P' R := by
    intro R hR
    obtain ⟨hw, hr⟩ := (hothers R hR).footprint_step hstep
    obtain ⟨-, hw', hr'⟩ := step?_alone hstep
    constructor
    · rw [hw]; exact fun name hname => (hothers R hR).writes name (hw' hname)
    · rw [hr]; exact fun name hname => (hothers R hR).reads name (hw' hname)
    · rw [hw]; exact fun name hname hread => (hothers R hR).reads' name hname (hr' hread)
  refine List.pairwise_append.mpr ⟨?_, List.pairwise_cons.mpr ⟨fun R hR => hnew R (.inr hR), ?_⟩, ?_⟩
  · exact hearlier.imp_of_mem fun hR hR' => hkept _ _ (.inl hR) (.inl hR')
  · exact hlater.imp_of_mem fun hR hR' => hkept _ _ (.inr hR) (.inr hR')
  · intro R hR R' hR'
    rcases List.mem_cons.mp hR' with rfl | hR'
    · exact (hnew R (.inl hR)).symm
    · exact hkept R R' (.inl hR) (.inr hR') (hacross R hR R' (List.mem_cons_of_mem P hR'))

/-- An operation of any process changes nothing in what all of them come to, one after the other. -/
theorem inOrder_step {P P' : Process} (earlier later : List Process) {o o' : Outputs}
    (h : (earlier ++ P :: later).Pairwise (Independent o)) (hstep : P.step? o = some (P', o')) :
    inOrder (earlier ++ P' :: later) o' = inOrder (earlier ++ P :: later) o := by
  induction earlier generalizing o o' with
  | nil => simp only [List.nil_append, inOrder, (step?_alone hstep).1]
  | cons Q earlier ih =>
    have hQ : Independent o P Q :=
      ((List.pairwise_cons.mp h).1 P (List.mem_append_right _ List.mem_cons_self)).symm
    obtain ⟨hresult, hstep'⟩ := hQ.step?_comm_alone hstep
    simp only [List.cons_append, inOrder, hresult, ih (pairwise_alone h) hstep']

theorem inOrder_done (results : List (Except StepError Unit)) (o : Outputs) :
    inOrder (results.map done) o = (results, o) := by
  induction results with
  | nil => rfl
  | cons result results ih => simp [inOrder, alone, ih]

/-- Every interleaving of independent processes comes to what they come to one after the other. -/
theorem Interleaved.eq_inOrder {Ps : List Process} {o o' : Outputs}
    {results : List (Except StepError Unit)} (hrun : Interleaved Ps o results o')
    (h : Ps.Pairwise (Independent o)) : inOrder Ps o = (results, o') := by
  induction hrun with
  | ended results o => exact inOrder_done results o
  | advance earlier later step _ ih =>
    rw [← inOrder_step earlier later h step]
    exact ih (pairwise_step h step)

theorem interleaved_done {result : Except StepError Unit} {Ps : List Process} {o o' : Outputs}
    {results : List (Except StepError Unit)} (rest : Interleaved Ps o results o') :
    Interleaved (done result :: Ps) o (result :: results) o' := by
  induction rest with
  | ended results o => exact .ended (result :: results) o
  | advance earlier later step _ ih => exact .advance (done result :: earlier) later step ih

/-- The first process may run to its end before the others do anything. -/
theorem interleaved_alone (P : Process) {Ps : List Process} {o o' : Outputs}
    {results : List (Except StepError Unit)} (rest : Interleaved Ps (P.alone o).2 results o') :
    Interleaved (P :: Ps) o ((P.alone o).1 :: results) o' := by
  induction P generalizing o with
  | done result => exact interleaved_done rest
  | put key value next ih =>
    by_cases hkey : o.contains key.name = true
    · have hput := Outputs.put_of_contains hkey value
      simp only [alone, hput] at rest ⊢
      exact .advance [] Ps (by simp only [step?, hput]) (ih _ rest)
    · have hput := Outputs.put_of_not_contains (Bool.not_eq_true _ ▸ hkey) value
      simp only [alone, hput] at rest ⊢
      exact .advance [] Ps (by simp only [step?, hput]) (ih _ rest)
  | get key next ih => exact .advance [] Ps rfl (ih _ rest)

/-- Processes can always be interleaved to their end. -/
theorem exists_interleaved (Ps : List Process) (o : Outputs) :
    ∃ results o', Interleaved Ps o results o' := by
  induction Ps generalizing o with
  | nil => exact ⟨[], o, .ended [] o⟩
  | cons P Ps ih =>
    obtain ⟨results, o', hrest⟩ := ih (P.alone o).2
    exact ⟨_, o', interleaved_alone P hrest⟩

/-! ## Groups of steps -/

theorem action_run (P : Process) (s : RunState) :
    P.action.run s = ((P.alone s.outputs).1, { s with outputs := (P.alone s.outputs).2 }) := by
  induction P generalizing s with
  | done result => cases result <;> rfl
  | put key value next ih =>
    rw [action, alone]
    change ExceptT.run (match s.outputs.put key value with
      | .ok outputs => (do set { s with outputs }; (next (.ok ())).action : Action Unit)
      | .error e => ((next (.error e)).action : Action Unit)) s = _
    cases s.outputs.put key value with
    | ok outputs => exact ih (.ok ()) { s with outputs }
    | error e => exact ih (.error e) s
  | get key next ih => exact ih (s.outputs.get key) s

/-- The members of a group that do what processes do have the results of those processes. -/
theorem runMembers_of_processes {context : BuildContext} {record : RunRecord} {members : List Step}
    {Ps : List Process}
    (h : List.Forall₂ (fun (step : Step) P => step.run context record = P.action) members Ps)
    (s : RunState) :
    Pipeline.runMembers context record members s =
      ((members.map (·.name)).zip (inOrder Ps s.outputs).1,
        { s with outputs := (inOrder Ps s.outputs).2 }) := by
  induction h generalizing s with
  | nil => rfl
  | cons hstep _ ih => simp only [Pipeline.runMembers, hstep, action_run, ih, inOrder, List.map_cons,
      List.zip_cons_cons]

/-- Members that only put outputs and get them, that write different outputs and read none that another
one writes: however their operations are interleaved, the outputs, the result of each member and what is
reported of the group are those of running the members one after the other in declared order. -/
theorem group_report_of_interleaved (context : BuildContext) (steps : List Step) (record : RunRecord)
    (s : RunState) (Ps : List Process)
    (hmembers : List.Forall₂ (fun (step : Step) P => step.run context record = P.action)
      (steps.filter fun step => step.applies context record s) Ps)
    (hindependent : Ps.Pairwise (Independent s.outputs)) :
    let members := steps.filter fun step => step.applies context record s
    let names := members.map (·.name)
    (∃ results o', Interleaved Ps s.outputs results o') ∧
      ∀ results o', Interleaved Ps s.outputs results o' →
        Pipeline.runMembers context record members s =
            (names.zip results, { s with outputs := o' }) ∧
          Pipeline.runGroup context steps record s =
            Pipeline.reportGroup record (names.zip results) { s with outputs := o' } := by
  intro members names
  refine ⟨exists_interleaved Ps s.outputs, fun results o' hrun => ?_⟩
  have hresults : Pipeline.runMembers context record members s =
      (names.zip results, { s with outputs := o' }) := by
    rw [runMembers_of_processes hmembers, hrun.eq_inOrder hindependent]
  refine ⟨hresults, ?_⟩
  rw [Pipeline.runGroup_eq]
  change Pipeline.reportGroup record (Pipeline.runMembers context record members s).1
    (Pipeline.runMembers context record members s).2 = _
  rw [hresults]

/-- The step that does what a process does. -/
def asStep (name : Text) (P : Process) : Step := ⟨name, fun _ _ _ => true, fun _ _ => P.action⟩

/-- Writes a count and then fails. -/
def lateFailure : Process :=
  put ⟨"count", .count⟩ (3 : Nat) fun _ => done (.error (.failed "late"))

/-- Fails for want of an output. -/
def earlyFailure : Process :=
  get ⟨"pages", .texts⟩ fun
    | .ok _ => done (.ok ())
    | .error e => done (.error (.output e))

/-- The second member of a group fails before the first one does anything, and yet the failure of the
first one is reported. -/
theorem late_failure_reported_first :
    let context := BuildContext.ofProject ⟨"/p", "/p/content", "/p/components", "/p/public", "/p/styles",
      "/p/dist", none⟩ ⟨"Site", none, "en", none⟩ []
    let record := RunRecord.start ⟨true, true, none⟩
    let s : RunState := ⟨⟨.empty, .ofSettings ⟨"/p/content", none, none⟩⟩, .empty⟩
    let o' := Outputs.empty.insert ⟨"count", .count⟩ (3 : Nat)
    let results : List (Except StepError Unit) :=
      [.error (.failed "late"), .error (.output (.missing "pages"))]
    Interleaved [lateFailure, earlyFailure] .empty results o' ∧
      Pipeline.runGroup context [asStep "late" lateFailure, asStep "early" earlyFailure] record s =
        ⟨{ s with outputs := o' }, { record with timings := ["late".toList, "early".toList] },
          some ("late".toList, .failed "late")⟩ := by
  intro context record s o' results
  have hrun : Interleaved [lateFailure, earlyFailure] .empty results o' :=
    .advance [lateFailure] [] rfl (.advance [] _ rfl (.ended results o'))
  have hreport := ((group_report_of_interleaved context
    [asStep "late" lateFailure, asStep "early" earlyFailure] record s [lateFailure, earlyFailure]
    (.cons rfl (.cons rfl .nil))
    (.cons (fun Q hQ => by
      obtain rfl := List.mem_singleton.mp hQ
      exact ⟨by decide, by decide, by decide⟩) (.cons (by simp) .nil))).2 results o' hrun).2
  exact ⟨hrun, hreport⟩

end Process

end StaticSite
