import StaticSite.Proofs.Build.Contracts
import StaticSite.Proofs.Build.History

/-!
# Which outputs a run leaves

The outputs of a run are accounted for by its executions: they are exactly the documented outputs of the
steps that succeeded. This holds of every pipeline whose contracts fit together, and those of the default
pipeline do, whatever the options.
-/
namespace StaticSite

namespace Step

/-- The outputs of the default steps, with the steps that write them. -/
def documented : List (Text × OutputKey) :=
  [("discover-entries", .entries), ("scan-components", .components), ("compile-content", .modules),
    ("compile-content", .pageMetadata), ("generate-styles", .stylesheet), ("copy-static", .staticFiles),
    ("prerender", .prerendered), ("write-shells", .htmlFiles)]

/-- The documented outputs of a step. -/
def keys (step : Step) : List OutputKey :=
  (documented.filter fun entry => entry.1 = step.name).map (·.2)

/-- Two steps that have no output in common. -/
def Separate (step other : Step) : Prop :=
  ∀ key ∈ step.keys, key.name ∉ other.keys.map (·.name)

instance (step other : Step) : Decidable (step.Separate other) :=
  inferInstanceAs (Decidable (∀ key ∈ step.keys, key.name ∉ other.keys.map (·.name)))

theorem Separate.symm {step other : Step} (h : step.Separate other) : other.Separate step := by
  intro key hkey hmem
  obtain ⟨key', hkey', hname⟩ := List.mem_map.mp hmem
  exact h key' hkey' (hname ▸ List.mem_map_of_mem hkey)

/-- A step that applies to whatever it finds. -/
def Certain (context : BuildContext) (options : BuildOptions) (step : Step) : Prop :=
  ∀ record s, record.options = options → step.applies context record s = true

end Step

namespace Outputs

open Step

/-- Some executions, as the outputs after them show: the outputs are the documented ones of those that
succeeded, and the others left none of theirs and do not blame another step. -/
structure Accounted (xs : List Execution) (o : Outputs) : Prop where
  covered : o.Covered
  contains_iff : ∀ name, o.contains name = true ↔
    ∃ x ∈ xs, x.Succeeded ∧ name ∈ x.step.keys.map (·.name)
  holds : ∀ x ∈ xs, x.Succeeded → ∀ key ∈ x.step.keys, o.Holds key
  failed : ∀ x ∈ xs, ∀ e, x.result = .error e →
    ¬e.FromOtherSteps ∧ ∀ key ∈ x.step.keys, o.contains key.name = false

theorem accounted_empty : Accounted [] empty where
  covered := covered_empty
  contains_iff name := by simp
  holds x hx := by simp at hx
  failed x hx := by simp at hx

namespace Accounted

variable {xs : List Execution} {x : Execution} {o o' : Outputs}

/-- Keys of a step with an output in common with none before are new. -/
theorem not_contains (h : Accounted xs o) (hseparate : ∀ y ∈ xs, y.step.Separate x.step) :
    ∀ key ∈ x.step.keys, o.contains key.name = false := by
  intro key hkey
  rw [← Bool.not_eq_true, h.contains_iff]
  rintro ⟨y, hy, -, hname⟩
  exact (hseparate y hy).symm key hkey hname

theorem succeeded (h : Accounted xs o) (hseparate : ∀ y ∈ xs, y.step.Separate x.step)
    (hx : x.Succeeded) (hadds : Adds x.step.keys o o') (hcovered : o'.Covered) :
    Accounted (xs ++ [x]) o' where
  covered := hcovered
  contains_iff name := by
    rw [hadds.contains_iff, h.contains_iff]
    simp [or_and_right, exists_or, hx]
  holds y hy hsucceeded key hkey := by
    rcases List.mem_append.mp hy with hy | hy
    · obtain ⟨value, hvalue⟩ := h.holds y hy hsucceeded key hkey
      exact ⟨value, by rw [hadds.get_eq key (hseparate y hy key hkey), hvalue]⟩
    · rw [List.mem_singleton.mp hy] at hkey
      exact hadds.holds key hkey
  failed y hy e he := by
    rcases List.mem_append.mp hy with hy | hy
    · obtain ⟨hown, hnone⟩ := h.failed y hy e he
      refine ⟨hown, fun key hkey => ?_⟩
      rw [← Bool.not_eq_true, hadds.contains_iff, hnone key hkey]
      simpa using hseparate y hy key hkey
    · rw [List.mem_singleton.mp hy, hx] at he
      cases he

theorem of_failed {e : StepError} (h : Accounted xs o)
    (hseparate : ∀ y ∈ xs, y.step.Separate x.step) (hx : x.result = .error e)
    (hown : ¬e.FromOtherSteps) : Accounted (xs ++ [x]) o where
  covered := h.covered
  contains_iff name := by
    have hnot : ¬x.Succeeded := by simp [Execution.Succeeded, hx]
    rw [h.contains_iff]
    simp [or_and_right, exists_or, hnot]
  holds y hy hsucceeded key hkey := by
    rcases List.mem_append.mp hy with hy | hy
    · exact h.holds y hy hsucceeded key hkey
    · rw [List.mem_singleton.mp hy, Execution.Succeeded, hx] at hsucceeded
      cases hsucceeded
  failed y hy e' he' := by
    rcases List.mem_append.mp hy with hy | hy
    · exact h.failed y hy e' he'
    · obtain rfl := List.mem_singleton.mp hy
      obtain rfl : e = e' := Except.error.inj (hx.symm.trans he')
      exact ⟨hown, h.not_contains hseparate⟩

/-- An execution of a step that keeps its contract. -/
theorem step {context : BuildContext} {record : RunRecord} {reads : List OutputKey}
    (h : Accounted xs x.before.outputs) (hgenuine : x.Genuine context record)
    (hfulfils : x.step.Fulfils context record reads x.step.keys)
    (hreads : ∀ key ∈ reads, ∃ y ∈ xs, y.Succeeded ∧ key ∈ y.step.keys)
    (hseparate : ∀ y ∈ xs, y.step.Separate x.step) : Accounted (xs ++ [x]) x.after.outputs := by
  have hholds : ∀ key ∈ reads, x.before.outputs.Holds key := by
    intro key hkey
    obtain ⟨y, hy, hsucceeded, hmem⟩ := hreads key hkey
    exact h.holds y hy hsucceeded key hmem
  have hyields := hfulfils x.before.outputs h.covered hholds (h.not_contains hseparate) x.before rfl
  have hrun : (x.step.run context record).run x.before = (x.result, x.after) := hgenuine
  rw [hrun] at hyields
  cases hresult : x.result with
  | ok u =>
    rw [hresult] at hyields
    exact h.succeeded hseparate hresult hyields.1 hyields.2
  | error e =>
    rw [hresult] at hyields
    rw [hyields.1]
    exact h.of_failed hseparate hresult hyields.2

/-- Consecutive executions of steps that keep their contracts. The members of a group find what was
written before the group, whether the members ahead of them succeeded or not. -/
theorem executions {context : BuildContext} {record : RunRecord} {ys : List Execution} {s s' : RunState}
    (h : Accounted xs s.outputs) (hconsecutive : Consecutive s ys s')
    (hgenuine : ∀ y ∈ ys, y.Genuine context record)
    (hfulfils : ∀ y ∈ ys, ∃ reads, y.step.Fulfils context record reads y.step.keys ∧
      ∀ key ∈ reads, ∃ x ∈ xs, x.Succeeded ∧ key ∈ x.step.keys)
    (hseparate : (xs ++ ys).Pairwise fun x y => x.step.Separate y.step) :
    Accounted (xs ++ ys) s'.outputs := by
  induction ys generalizing xs s with
  | nil =>
    obtain rfl : s' = s := hconsecutive
    simpa using h
  | cons y ys ih =>
    obtain ⟨rfl, hrest⟩ := hconsecutive
    obtain ⟨reads, hcontract, hreads⟩ := hfulfils y List.mem_cons_self
    have hbefore : ∀ x ∈ xs, x.step.Separate y.step := fun x hx =>
      (List.pairwise_append.mp hseparate).2.2 x hx y List.mem_cons_self
    have hfirst := h.step (hgenuine y List.mem_cons_self) hcontract hreads hbefore
    rw [List.append_cons] at hseparate ⊢
    refine ih hfirst hrest (fun z hz => hgenuine z (List.mem_cons_of_mem y hz)) ?_ hseparate
    intro z hz
    obtain ⟨reads', hcontract', hreads'⟩ := hfulfils z (List.mem_cons_of_mem y hz)
    refine ⟨reads', hcontract', fun key hkey => ?_⟩
    obtain ⟨x, hx, hkeys⟩ := hreads' key hkey
    exact ⟨x, List.mem_append_left [y] hx, hkeys⟩

end Accounted

end Outputs

namespace Pipeline

open Outputs Step

/-- A pipeline whose contracts fit together, once some outputs have been written: what a step reads has
been written at an earlier position, by a step that always applies. -/
inductive Orderly (context : BuildContext) (options : BuildOptions) :
    List OutputKey → Pipeline → Prop where
  | nil (owed : List OutputKey) : Orderly context options owed []
  | cons {owed : List OutputKey} {position : Position} {positions : Pipeline} (more : List OutputKey)
      (contracts : ∀ step ∈ position.steps, ∃ reads ⊆ owed, ∀ record : RunRecord,
        record.options = options → step.Fulfils context record reads step.keys)
      (more_certain : ∀ key ∈ more, ∃ step ∈ position.steps, key ∈ step.keys ∧
        step.Certain context options)
      (rest : Orderly context options (owed ++ more) positions) :
      Orderly context options owed (position :: positions)

/-- A visit of a position whose steps find what they read in outputs that are accounted for. -/
theorem accounted_visit {context : BuildContext} {options : BuildOptions} {position : Position}
    {record : RunRecord} {s : RunState} {v : Visit} {xs : List Execution} {owed : List OutputKey}
    (h : Accounted xs s.outputs) (hfaithful : v.Faithful context position record s)
    (hoptions : record.options = options)
    (hcontracts : ∀ step ∈ position.steps, ∃ reads ⊆ owed, ∀ record : RunRecord,
      record.options = options → step.Fulfils context record reads step.keys)
    (howed : ∀ key ∈ owed, ∃ x ∈ xs, x.Succeeded ∧ key ∈ x.step.keys)
    (hseparate : (xs ++ v.executions).Pairwise fun x y => x.step.Separate y.step) :
    Accounted (xs ++ v.executions) v.after.outputs := by
  refine h.executions hfaithful.consecutive hfaithful.genuine ?_ hseparate
  intro x hx
  have hmem : x.step ∈ v.executions.map (·.step) := List.mem_map_of_mem hx
  rw [hfaithful.steps] at hmem
  obtain ⟨reads, hreads, hcontract⟩ := hcontracts x.step (List.mem_filter.mp hmem).1
  exact ⟨reads, hcontract record hoptions, fun key hkey => howed key (hreads hkey)⟩

/-- After a visit that passed, what its certain steps write is there. -/
theorem owed_after_passed {context : BuildContext} {options : BuildOptions} {position : Position}
    {record : RunRecord} {s : RunState} {v : Visit} {more : List OutputKey}
    (hfaithful : v.Faithful context position record s) (hpassed : v.Passed)
    (hoptions : record.options = options)
    (hmore : ∀ key ∈ more, ∃ step ∈ position.steps, key ∈ step.keys ∧ step.Certain context options) :
    ∀ key ∈ more, ∃ x ∈ v.executions, x.Succeeded ∧ key ∈ x.step.keys := by
  intro key hkey
  obtain ⟨step, hstep, hwrites, hcertain⟩ := hmore key hkey
  have hmem : step ∈ v.executions.map (·.step) := by
    rw [hfaithful.steps]
    exact List.mem_filter.mpr ⟨hstep, hcertain record s hoptions⟩
  obtain ⟨x, hx, rfl⟩ := List.mem_map.mp hmem
  exact ⟨x, hx, hpassed x hx, hwrites⟩

/-- The executions of a visit are of some of the steps at its position. -/
theorem separate_visit {context : BuildContext} {position : Position} {positions : Pipeline}
    {record : RunRecord} {s : RunState} {v : Visit} {xs : List Execution}
    (hfaithful : v.Faithful context position record s)
    (hseparate : (xs.map (·.step) ++ (position :: positions).flatMap (·.steps)).Pairwise Separate) :
    ((xs ++ v.executions).map (·.step) ++ positions.flatMap (·.steps)).Pairwise Separate := by
  have hsublist : (v.executions.map (·.step)).Sublist position.steps := by
    rw [hfaithful.steps]
    exact List.filter_sublist
  rw [List.map_append, List.append_assoc]
  refine hseparate.sublist (List.Sublist.append_left ?_ _)
  exact hsublist.append_right _

/-- The outputs at the end of a history are accounted for by its executions. -/
theorem accounted_history {context : BuildContext} {options : BuildOptions} {p : Pipeline}
    {record record' : RunRecord} {s s' : RunState} {visits : List Visit} {xs : List Execution}
    {owed : List OutputKey} (hhistory : History context p record s visits record' s')
    (h : Accounted xs s.outputs) (horderly : Orderly context options owed p)
    (hoptions : record.options = options)
    (howed : ∀ key ∈ owed, ∃ x ∈ xs, x.Succeeded ∧ key ∈ x.step.keys)
    (hseparate : (xs.map (·.step) ++ p.flatMap (·.steps)).Pairwise Separate) :
    Accounted (xs ++ visits.flatMap (·.executions)) s'.outputs := by
  induction hhistory generalizing xs owed with
  | finished record s => simpa using h
  | halted v positions hfaithful _ =>
    obtain _ | ⟨more, hcontracts, -, -⟩ := horderly
    have hpairwise := (List.pairwise_append.mp (separate_visit hfaithful hseparate)).1
    rw [List.pairwise_map] at hpairwise
    simpa using accounted_visit h hfaithful hoptions hcontracts howed hpairwise
  | passed v hfaithful hpassed _ ih =>
    obtain _ | ⟨more, hcontracts, hmore, hrest⟩ := horderly
    have hseparate' := separate_visit hfaithful hseparate
    have hpairwise := (List.pairwise_append.mp hseparate').1
    rw [List.pairwise_map] at hpairwise
    have hvisit := accounted_visit h hfaithful hoptions hcontracts howed hpairwise
    have hoptions' : v.recordAfter.options = options := by
      rw [← hoptions, ← hfaithful.record_eq, Visit.recordAfter]
    rw [List.flatMap_cons, ← List.append_assoc]
    refine ih hvisit hrest hoptions' ?_ hseparate'
    intro key hkey
    rcases List.mem_append.mp hkey with hkey | hkey
    · obtain ⟨x, hx, hsucceeded⟩ := howed key hkey
      exact ⟨x, List.mem_append_left _ hx, hsucceeded⟩
    · obtain ⟨x, hx, hsucceeded⟩ := owed_after_passed hfaithful hpassed hoptions hmore key hkey
      exact ⟨x, List.mem_append_right _ hx, hsucceeded⟩

theorem default_separate : (default.flatMap (·.steps)).Pairwise Separate := by decide +kernel

/-- What the shells read of the rendered pages is written under the condition under which they read it. -/
theorem prerender_certain {context : BuildContext} {options : BuildOptions} {key : OutputKey}
    (h : key ∈ if options.prerender then [OutputKey.prerendered] else []) :
    key ∈ prerender.keys ∧ prerender.Certain context options := by
  by_cases hprerender : options.prerender = true
  · rw [if_pos hprerender] at h
    refine ⟨h, fun record s hoptions => ?_⟩
    exact (congrArg BuildOptions.prerender hoptions).trans hprerender
  · rw [if_neg hprerender] at h
    cases h

theorem default_orderly (context : BuildContext) (options : BuildOptions) :
    Orderly context options [] default := by
  refine .cons [] ?_ (by simp) (.cons [.entries, .components] ?_ ?_ (.cons [.modules, .pageMetadata] ?_ ?_
    (.cons ([.stylesheet] ++ if options.prerender then [.prerendered] else []) ?_ ?_
      (.cons [.htmlFiles] ?_ ?_ (.cons [] ?_ (by simp) (.nil _))))))
  · intro step hstep
    obtain rfl := List.mem_singleton.mp hstep
    exact ⟨[], by simp, fun record _ => resetDirectories_fulfils context record⟩
  · refine List.forall_mem_cons.mpr ⟨?_, List.forall_mem_singleton.mpr ?_⟩
    · exact ⟨[], by simp, fun record _ => discoverEntries_fulfils context record⟩
    · exact ⟨[], by simp, fun record _ => scanComponents_fulfils context record⟩
  · refine List.forall_mem_cons.mpr ⟨?_, List.forall_mem_singleton.mpr ?_⟩
    · exact ⟨discoverEntries, List.mem_cons_self, List.mem_cons_self, fun _ _ _ => rfl⟩
    · exact ⟨scanComponents, by simp [Position.steps], List.mem_cons_self, fun _ _ _ => rfl⟩
  · intro step hstep
    obtain rfl := List.mem_singleton.mp hstep
    exact ⟨_, by simp, fun record _ => compileContent_fulfils context record⟩
  · intro key hkey
    exact ⟨compileContent, List.mem_cons_self, hkey, fun _ _ _ => rfl⟩
  · refine List.forall_mem_cons.mpr ⟨?_, List.forall_mem_cons.mpr ⟨?_, List.forall_mem_singleton.mpr ?_⟩⟩
    · exact ⟨[], by simp, fun record _ => generateStyles_fulfils context record⟩
    · exact ⟨[], by simp, fun record _ => copyStatic_fulfils context record⟩
    · exact ⟨[.modules], by simp, fun record _ => prerender_fulfils context record⟩
  · intro key hkey
    rcases List.mem_append.mp hkey with hkey | hkey
    · exact ⟨generateStyles, List.mem_cons_self, hkey, fun _ _ _ => rfl⟩
    · exact ⟨prerender, by simp [Position.steps], prerender_certain hkey⟩
  · intro step hstep
    obtain rfl := List.mem_singleton.mp hstep
    refine ⟨shellInputs options, ?_, fun record hoptions => ?_⟩
    · intro key hkey
      simp only [shellInputs, List.mem_append, List.mem_cons] at hkey ⊢
      grind
    · rw [← hoptions]
      exact writeShells_fulfils context record
  · intro key hkey
    exact ⟨writeShells, List.mem_cons_self, hkey, fun _ _ _ => rfl⟩
  · intro step hstep
    obtain rfl := List.mem_singleton.mp hstep
    exact ⟨_, by simp, fun record _ => injectHead_fulfils context record⟩

/-- The outputs that a run of the default pipeline leaves, in success or in failure, are exactly the
documented ones of the steps that succeeded. A step that failed left none of its own, and did not fail for
want of an output, for an output too many, or for want of a compiled module. -/
theorem default_outputs_documented (context : BuildContext) (options : BuildOptions) (w : Workspace) :
    let r := default.run context options w
    ∃ visits record, History context default (.start options) ⟨w, .empty⟩ visits record r.state ∧
      (∀ v ∈ visits, ∀ x ∈ v.executions, ∀ e, x.result = .error e →
        (∀ cause, e ≠ .output cause) ∧
        (∀ entry, e ≠ .failed ("entry " ++ Text.quoted entry ++ " has no compiled module")) ∧
        ∀ key ∈ x.step.keys, key.name ∉ r.state.outputs.names) ∧
      ∀ name, name ∈ r.state.outputs.names ↔
        ∃ v ∈ visits, ∃ x ∈ v.executions, x.Succeeded ∧ name ∈ x.step.keys.map (·.name) := by
  intro r
  obtain ⟨visits, record, s, hhistory, hrun⟩ :=
    runFrom_history context default (.start options) ⟨w, .empty⟩
  have hstate : r.state = s := by
    have hr : r = historyReport visits record s := hrun
    rw [hr, historyReport_state]
  have haccounted := accounted_history hhistory accounted_empty (default_orderly context options) rfl
    (by simp) default_separate
  rw [List.nil_append] at haccounted
  rw [hstate]
  refine ⟨visits, record, hhistory, ?_, ?_⟩
  · intro v hv x hx e he
    obtain ⟨hown, hnone⟩ := haccounted.failed x (List.mem_flatMap.mpr ⟨v, hv, hx⟩) e he
    refine ⟨?_, ?_, fun key hkey => ?_⟩
    · rintro cause rfl
      exact hown trivial
    · rintro entry rfl
      exact hown ⟨entry, rfl⟩
    · rw [← contains_eq_true_iff, hnone key hkey]
      exact Bool.false_ne_true
  · intro name
    rw [← contains_eq_true_iff, haccounted.contains_iff]
    simp only [List.mem_flatMap]
    constructor
    · rintro ⟨x, ⟨v, hv, hx⟩, hsucceeded⟩
      exact ⟨v, hv, x, hx, hsucceeded⟩
    · rintro ⟨v, hv, x, hx, hsucceeded⟩
      exact ⟨x, ⟨v, hv, hx⟩, hsucceeded⟩

end Pipeline

end StaticSite
