import Mathlib.Data.List.Forall2
import StaticSite.Compile.Bundle

/-!
# Jobs

A job works on a workspace that other jobs work on too. It is a tree of operations: what it does next depends
on the answers so far. Jobs advance in any order, one operation at a time.

What holds at the end of a job is proved from a contract: the job may rely on what the others leave alone, and
guarantees to leave alone what the others rely on. Jobs that keep such contracts keep them in any order.
-/
namespace StaticSite

/-- What one job can do without another one in between. -/
inductive Operation where
  | readText (path : FilePath)
  | canonical (path : FilePath)
  | canonical? (path : FilePath)
  | record (realPath : FilePath) (metadata : FrontMatter)
  | lookUp (path : FilePath)
  | remember (path : FilePath) (found : Bool)
  | report (d : Diagnostic)
  | createDirectory (path : FilePath)
  | isDirectory (path : FilePath)
  | writeText (path : FilePath) (content : Text)

/-- What is known once it is known whether a file has a default export. -/
def ExportCache.remember (path : FilePath) (found : Bool) (c : ExportCache) : ExportCache :=
  ⟨(path, found) :: c.known.filter fun entry => !FilePath.same entry.1 path⟩

namespace Workspace

def withStage (w : Workspace) (stage : Stage) : Workspace := { w with stage }

/-- The workspace after a change to its files. -/
def afterChange (w : Workspace) : Except FileError FileTree → Except FileError Unit × Workspace
  | .ok files => (.ok (), { w with files })
  | .error e => (.error e, w)

end Workspace

namespace Operation

abbrev Answer : Operation → Type
  | readText _ => Except FileError Text
  | canonical _ => FilePath
  | canonical? _ => Option FilePath
  | lookUp _ => Option Bool
  | record _ _ => Unit
  | remember _ _ => Unit
  | report _ => Unit
  | createDirectory _ => Except FileError Unit
  | isDirectory _ => Bool
  | writeText _ _ => Except FileError Unit

/-- The answer to an operation, and the workspace after it. -/
def run : (op : Operation) → Workspace → op.Answer × Workspace
  | readText path, w => (w.files.readText path, w)
  | canonical path, w => (w.files.canonical path, w)
  | canonical? path, w => (w.files.canonical? path, w)
  | lookUp path, w => (w.stage.exports.find? path, w)
  | record realPath metadata, w =>
    ((), w.withStage { w.stage with metadata := w.stage.metadata.insert realPath metadata })
  | remember path found, w =>
    ((), w.withStage { w.stage with exports := w.stage.exports.remember path found })
  | report d, w => ((), w.withStage { w.stage with diagnostics := w.stage.diagnostics ++ [d] })
  | createDirectory path, w => w.afterChange (w.files.createDirectory path)
  | isDirectory path, w => (w.files.isDirectory path, w)
  | writeText path content, w => w.afterChange (w.files.writeText path content)

end Operation

/-- A job that gives a result in the end. -/
inductive Job (α : Type) where
  | done (result : α)
  | perform (op : Operation) (next : op.Answer → Job α)

namespace Job

variable {α β : Type}

def bind : Job α → (α → Job β) → Job β
  | done result, f => f result
  | perform op next, f => perform op fun answer => (next answer).bind f

instance : Monad Job where
  pure := done
  bind := bind

@[simp] theorem pure_eq (a : α) : (pure a : Job α) = done a := rfl

/-- The result of a job that runs alone, and the workspace that it leaves. -/
def alone : Job α → Workspace → α × Workspace
  | done result, w => (result, w)
  | perform op next, w => (next (op.run w).1).alone (op.run w).2

@[simp] theorem alone_done (a : α) (w : Workspace) : (done a).alone w = (a, w) := rfl

@[simp] theorem alone_bind (job : Job α) (f : α → Job β) (w : Workspace) :
    (job >>= f).alone w = (f (job.alone w).1).alone (job.alone w).2 := by
  induction job generalizing w with
  | done a => rfl
  | perform op next ih => exact ih _ _

/-- The job after its next operation, and the workspace after it; a job that is done does nothing. -/
def step? : Job α → Workspace → Option (Job α × Workspace)
  | done _, _ => none
  | perform op next, w => some (next (op.run w).1, (op.run w).2)

/-- Jobs advance in any order, for a while. -/
inductive Reaches : List (Job α) → Workspace → List (Job α) → Workspace → Prop where
  | refl (jobs : List (Job α)) (w : Workspace) : Reaches jobs w jobs w
  | advance {job job' : Job α} {jobs : List (Job α)} {w w' w'' : Workspace} (earlier later : List (Job α))
      (step : job.step? w = some (job', w')) (rest : Reaches (earlier ++ job' :: later) w' jobs w'') :
      Reaches (earlier ++ job :: later) w jobs w''

/-- Jobs advance in any order until all are done, with these results and this workspace. -/
def Interleaved (jobs : List (Job α)) (w : Workspace) (results : List α) (w' : Workspace) : Prop :=
  Reaches jobs w (results.map done) w'

namespace Reaches

variable {jobs jobs' jobs'' : List (Job α)} {w w' w'' : Workspace}

theorem trans (h : Reaches jobs w jobs' w') (h' : Reaches jobs' w' jobs'' w'') :
    Reaches jobs w jobs'' w'' := by
  induction h with
  | refl => exact h'
  | advance earlier later step _ ih => exact .advance earlier later step (ih h')

/-- One of some jobs may run to its end while the others wait. -/
theorem alone (earlier later : List (Job α)) (job : Job α) (w : Workspace) :
    Reaches (earlier ++ job :: later) w (earlier ++ done (job.alone w).1 :: later) (job.alone w).2 := by
  induction job generalizing w with
  | done a => exact .refl _ _
  | perform op next ih => exact .advance earlier later rfl (ih _ _)

/-- Whatever jobs have reached, they can go on to their end. -/
theorem exists_interleaved (jobs : List (Job α)) (w : Workspace) :
    ∃ results w', Interleaved jobs w results w' := by
  suffices h : ∀ results : List α, ∀ w, ∃ results' w',
      Reaches (results.map done ++ jobs) w ((results ++ results').map done) w' by
    obtain ⟨results, w', hreaches⟩ := h [] w
    exact ⟨results, w', hreaches⟩
  induction jobs with
  | nil => exact fun results w => ⟨[], w, by simpa using refl _ w⟩
  | cons job jobs ih =>
    intro results w
    have hfirst := alone (results.map done) jobs job w
    obtain ⟨rest, w', hrest⟩ := ih (results ++ [(job.alone w).1]) (job.alone w).2
    refine ⟨(job.alone w).1 :: rest, w', hfirst.trans ?_⟩
    simpa using hrest

end Reaches

/-! ## Contracts -/

/-- A job keeps a contract from some workspace on. Other jobs change the workspace as the job relies on, and
it is stable whenever the job goes on. The job changes the workspace only as it guarantees, and when it is
done, its result and the workspace are as promised. -/
def Keeps (rely guarantee : Workspace → Workspace → Prop) (stable : Workspace → Prop)
    (promise : α → Workspace → Prop) : Job α → Workspace → Prop
  | done a, w => promise a w
  | perform op next, w => ∀ w', rely w w' → stable w' → guarantee w' (op.run w').2 ∧
      (next (op.run w').1).Keeps rely guarantee stable promise (op.run w').2

section

variable {rely guarantee : Workspace → Workspace → Prop} {stable : Workspace → Prop}
  {promise : α → Workspace → Prop}

theorem Keeps.bind {promise' : β → Workspace → Prop} {job : Job α} {f : α → Job β} {w : Workspace}
    (h : job.Keeps rely guarantee stable promise w)
    (hf : ∀ a w', promise a w' → (f a).Keeps rely guarantee stable promise' w') :
    (job >>= f).Keeps rely guarantee stable promise' w := by
  induction job generalizing w with
  | done a => exact hf a w h
  | perform op next ih =>
    intro w' hrely hstable
    obtain ⟨hguarantee, hnext⟩ := h w' hrely hstable
    exact ⟨hguarantee, ih _ hnext⟩

/-- What the other jobs do does not hurt a contract, if it does not hurt the promise. -/
theorem Keeps.after {job : Job α} {w w' : Workspace} (h : job.Keeps rely guarantee stable promise w)
    (htrans : ∀ {a b c}, rely a b → rely b c → rely a c)
    (hpromise : ∀ a {w w'}, rely w w' → promise a w → promise a w') (hrely : rely w w') :
    job.Keeps rely guarantee stable promise w' := by
  cases job with
  | done a => exact hpromise a hrely h
  | perform op next => exact fun w'' hrely' hstable => h w'' (htrans hrely hrely') hstable

end

/-- Contracts that go together: what a job guarantees, every other one may rely on. -/
structure Compatible {ι : Type} (rely guarantee : ι → Workspace → Workspace → Prop)
    (promise : ι → α → Workspace → Prop) (owners : List ι) : Prop where
  refl : ∀ i w, rely i w w
  trans : ∀ i {w w' w''}, rely i w w' → rely i w' w'' → rely i w w''
  kept : ∀ i ∈ owners, ∀ a {w w'}, rely i w w' → promise i a w → promise i a w'
  nodup : owners.Nodup
  others : ∀ i ∈ owners, ∀ j ∈ owners, i ≠ j → ∀ {w w'}, guarantee i w w' → rely j w w'

/-- Jobs that keep compatible contracts keep them in any order, as long as what a job guarantees does not upset
a workspace that is stable. -/
theorem Reaches.keeps {ι : Type} {rely guarantee : ι → Workspace → Workspace → Prop}
    {stable : Workspace → Prop} {promise : ι → α → Workspace → Prop} {owners : List ι}
    (hcompatible : Compatible rely guarantee promise owners) {jobs jobs' : List (Job α)}
    {w w' : Workspace} (hreaches : Reaches jobs w jobs' w') (hw : stable w)
    (hstable : ∀ i ∈ owners, ∀ jobs' v v', Reaches jobs w jobs' v' → stable v → guarantee i v v' → stable v')
    (h : List.Forall₂ (fun i job => job.Keeps (rely i) (guarantee i) stable (promise i) w) owners jobs) :
    List.Forall₂ (fun i job => job.Keeps (rely i) (guarantee i) stable (promise i) w') owners jobs' ∧
      stable w' := by
  induction hreaches with
  | refl => exact ⟨h, hw⟩
  | @advance job job' jobs w w' w'' earlier later step rest ih =>
    have hbefore := List.forall₂_take_append _ _ _ h
    have hafter := List.forall₂_drop_append _ _ _ h
    obtain ⟨os, rest', howners, hrest⟩ : ∃ os rest', os ++ rest' = owners ∧
        os = owners.take earlier.length ∧ rest' = owners.drop earlier.length :=
      ⟨_, _, List.take_append_drop _ owners, rfl, rfl⟩
    rw [← hrest.1] at hbefore
    rw [← hrest.2] at hafter
    obtain ⟨o, os', ho, hos', rfl⟩ := List.forall₂_cons_right_iff.mp hafter
    subst howners
    cases job with
    | done a => cases step
    | perform op next =>
      obtain ⟨hguarantee, hnext⟩ := ho w (hcompatible.refl o w) hw
      obtain ⟨rfl, rfl⟩ := Prod.mk.inj (Option.some.inj step)
      -- the others rely on no more than the one that has advanced guarantees
      have hothers : ∀ (i : ι) (job : Job α), i ∈ os ++ o :: os' ∧ i ≠ o →
          job.Keeps (rely i) (guarantee i) stable (promise i) w →
            job.Keeps (rely i) (guarantee i) stable (promise i) (op.run w).2 := by
        intro i job hi hjob
        have hrely := hcompatible.others o (by simp) i hi.1 (Ne.symm hi.2) hguarantee
        exact hjob.after (hcompatible.trans i) (hcompatible.kept i hi.1) hrely
      obtain ⟨-, hnodup, hdisjoint⟩ := List.nodup_append.mp hcompatible.nodup
      have hearlier : ∀ i ∈ os, i ∈ os ++ o :: os' ∧ i ≠ o :=
        fun i hi => ⟨List.mem_append_left _ hi, hdisjoint i hi o List.mem_cons_self⟩
      have hlater : ∀ i ∈ os', i ∈ os ++ o :: os' ∧ i ≠ o := by
        intro i hi
        refine ⟨by simp [hi], ?_⟩
        rintro rfl
        exact (List.nodup_cons.mp hnodup).1 hi
      have hbefore' := ((List.forall₂_and_left _ _).mpr ⟨hearlier, hbefore⟩).imp
        fun i job hboth => hothers i job hboth.1 hboth.2
      have hafter' := ((List.forall₂_and_left _ _).mpr ⟨hlater, hos'⟩).imp
        fun i job hboth => hothers i job hboth.1 hboth.2
      have hw' := hstable o (by simp) _ _ _ (.advance earlier later rfl (.refl _ _)) hw hguarantee
      have hlast (i) (hi) (jobs') (v v') (hrest : Reaches _ _ jobs' v') :=
        hstable i hi jobs' v v' (.advance earlier later rfl hrest)
      exact ih hw' hlast (List.rel_append hbefore' (.cons hnext hafter'))

end Job

end StaticSite
