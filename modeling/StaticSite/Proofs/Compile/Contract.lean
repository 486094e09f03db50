import StaticSite.Proofs.Compile.Batch
import StaticSite.Proofs.Component.Exports

/-!
# The contract of an entry

An entry that is compiled while others are relies on these to do no more than what they do in the batch, and
does no more than that itself. In the end it has been answered as at the start, and its module stands where it
is written.
-/
namespace StaticSite

namespace ExportCache

theorem find?_remember (path path' : FilePath) (found : Bool) (c : ExportCache) :
    (c.remember path found).find? path' =
      if FilePath.same path path' = true then some found else c.find? path' := by
  by_cases hsame : FilePath.parts path = FilePath.parts path'
  · simp [find?, remember, FilePath.same, hsame]
  · have hkept : (fun entry : FilePath × Bool =>
        decide ((!FilePath.same entry.1 path) = true ∧ FilePath.same entry.1 path' = true)) =
          fun entry => FilePath.same entry.1 path' := by
      funext entry
      by_cases hentry : FilePath.parts entry.1 = FilePath.parts path'
      · simp [FilePath.same, hentry, Ne.symm hsame]
      · simp [FilePath.same, hentry]
    have hfirst : FilePath.same path path' = false := by simpa [FilePath.same] using hsame
    rw [hfirst, find?, remember, List.find?_cons_of_neg (by simp [hfirst]), List.find?_filter, hkept]
    rfl

end ExportCache

namespace Batch

open FileTree

variable {b : Batch} {who : FilePath → Prop} {p p' path path' : FilePath} {m m' : Text} {w w' : Workspace}
  {ds : List Diagnostic} {metadata : Option FrontMatter}

/-! ## What is known about components -/

theorem verdict_eq (b : Batch) (path : FilePath) :
    b.verdict path = (b.start.stage.exports.find? path).getD
      (((b.start.files.readText path).toOption.map EsModule.hasDefaultExport).getD false) :=
  ExportCache.found_check ..

theorem Valid.verdict_congr (h : b.Valid) (hpath : b.Registered path) (hpath' : b.Registered path')
    (hsame : FilePath.same path path' = true) : b.verdict path = b.verdict path' := by
  rw [verdict_eq, verdict_eq, h.spelled path path' hpath hpath' hsame, ExportCache.find?_congr hsame]

/-- Components are taken to have a default export as at the start. -/
def Agrees (b : Batch) (c : ExportCache) : Prop :=
  ∀ path, b.Registered path → (c.check b.start.files path).1.toOption.getD false = b.verdict path

theorem Agrees.check {c : ExportCache} (h : b.Agrees c) (hvalid : b.Valid) (hpath : b.Registered path) :
    b.Agrees (c.check b.start.files path).2 := by
  cases hfind : c.find? path with
  | some found =>
    simp only [ExportCache.check, hfind]
    exact h
  | none =>
    cases hread : b.start.files.readText path with
    | error e =>
      simp only [ExportCache.check, hfind, hread]
      exact h
    | ok source =>
      simp only [ExportCache.check, hfind, hread]
      intro path' hpath'
      have hbefore := h path' hpath'
      rw [ExportCache.found_check] at hbefore ⊢
      by_cases hsame : FilePath.same path path' = true
      · have hread' := hvalid.spelled path path' hpath hpath' hsame
        rw [hread] at hread'
        rw [← ExportCache.find?_congr hsame, hfind, hread'] at hbefore
        have hfound : ExportCache.find? path' ⟨(path, EsModule.hasDefaultExport source) :: c.known⟩ =
            some (EsModule.hasDefaultExport source) := by
          simp [ExportCache.find?, hsame]
        rw [hfound]
        exact hbefore
      · have hother : ExportCache.find? path' ⟨(path, EsModule.hasDefaultExport source) :: c.known⟩ =
            c.find? path' := by
          simp [ExportCache.find?, hsame]
        rw [hother]
        exact hbefore

/-- What comes of a component does not depend on those that were looked at before. -/
theorem Agrees.outcome {c : ExportCache} (h : b.Agrees c) (hvalid : b.Valid) (name : Text) :
    (Injection.outcome b.start.files b.registry (b.file p) name c).1 = b.outcome p name ∧
      b.Agrees (Injection.outcome b.start.files b.registry (b.file p) name c).2 := by
  unfold Batch.outcome
  cases htreatment : Injection.treatment b.registry (b.file p) name with
  | inl o =>
    rw [Injection.outcome_of_settled htreatment, Injection.outcome_of_settled htreatment]
    exact ⟨rfl, h⟩
  | inr path =>
    obtain ⟨hresolve, hstart⟩ := Injection.outcome_of_file htreatment b.start.stage.exports
    obtain ⟨-, hlater⟩ := Injection.outcome_of_file htreatment c
    have hpath : b.Registered path := ⟨name, hresolve⟩
    rw [hstart, hlater, h path hpath]
    exact ⟨rfl, h.check hvalid hpath⟩

theorem outcomes_eq (hvalid : b.Valid) {c : ExportCache} (h : b.Agrees c) (names : List Text) :
    (Injection.outcomes b.start.files b.registry (b.file p) names c).1 = names.map (b.outcome p) := by
  induction names generalizing c with
  | nil => rfl
  | cons name names ih =>
    obtain ⟨hfirst, hrest⟩ := h.outcome hvalid name
    exact congrArg₂ List.cons hfirst (ih hrest)

namespace Midway

theorem verdict_of_known (h : b.Midway w) (hpath : b.Registered path) {found : Bool}
    (hfind : w.stage.exports.find? path = some found) : found = b.verdict path := by
  rcases h.differs.exports path hpath with hkept | ⟨-, hnew⟩
  · rw [verdict_eq, ← hkept, hfind]
    rfl
  · exact Option.some.inj (hfind.symm.trans hnew)

/-- What is not known now was not known at the start. -/
theorem unknown (h : b.Midway w) (hpath : b.Registered path) (hfind : w.stage.exports.find? path = none) :
    b.start.stage.exports.find? path = none := by
  rcases h.differs.exports path hpath with hkept | ⟨hnone, -⟩
  · rw [← hkept, hfind]
  · exact hnone

theorem verdict_of_read (h : b.Midway w) (hpath : b.Registered path)
    (hunknown : b.start.stage.exports.find? path = none) :
    b.verdict path = ((w.files.readText path).toOption.map EsModule.hasDefaultExport).getD false := by
  rw [verdict_eq, hunknown, h.steady.components path hpath]
  rfl

end Midway

/-! ## What an entry does -/

theorem differs_record (p : FilePath) (metadata : FrontMatter) (w : Workspace) :
    b.Differs (· = p) w ((Operation.record (b.file p).realPath metadata).run w).2 where
  settings := rfl
  exports _ _ := .inl rfl
  reports _ _ := rfl
  metadata x hx := by
    have hsame : ¬FilePath.parts (b.file p).realPath = FilePath.parts x := by
      simpa [FilePath.same] using hx p rfl
    exact (MetadataStore.at?_insert ..).trans (if_neg hsame)
  files _ := .kept _
  rooted h := h

theorem differs_remember (h : b.Midway w) (hvalid : b.Valid) (hpath : b.Registered path)
    (hunknown : b.start.stage.exports.find? path = none) :
    b.Differs (· = p) w ((Operation.remember path (b.verdict path)).run w).2 where
  settings := rfl
  exports path' hpath' := by
    have hfind : ((Operation.remember path (b.verdict path)).run w).2.stage.exports.find? path' =
        if FilePath.same path path' = true then some (b.verdict path)
        else w.stage.exports.find? path' := ExportCache.find?_remember ..
    rw [hfind]
    by_cases hsame : FilePath.same path path' = true
    · rw [if_pos hsame, hvalid.verdict_congr hpath hpath' hsame]
      rw [ExportCache.find?_congr hsame] at hunknown
      rcases h.differs.exports path' hpath' with hkept | ⟨-, hnew⟩
      · exact .inr ⟨hkept.trans hunknown, rfl⟩
      · exact .inl hnew.symm
    · exact .inl (if_neg hsame)
  reports _ _ := rfl
  metadata _ _ := rfl
  files _ := .kept _
  rooted h := h

theorem differs_report (d : Diagnostic) (hd : d.document = p) (w : Workspace) :
    b.Differs (· = p) w ((Operation.report d).run w).2 where
  settings := rfl
  exports _ _ := .inl rfl
  reports x hx := by
    have hother : FilePath.same d.document x = false := hd ▸ hx p rfl
    simp [Operation.run, Workspace.withStage, List.filter_append, hother]
  metadata _ _ := rfl
  files _ := .kept _
  rooted h := h

theorem differs_files {t : FileTree} (hfiles : ∀ q, b.Alters (· = p) q (w.files.get? q) (t.get? q))
    (hrooted : w.files.Rooted → t.Rooted) : b.Differs (· = p) w { w with files := t } where
  settings := rfl
  exports _ _ := .inl rfl
  reports _ _ := rfl
  metadata _ _ := rfl
  files := hfiles
  rooted := hrooted

/-! ## The transforms -/

/-- What is on record about an entry. -/
structure Noted (b : Batch) (p : FilePath) (ds : List Diagnostic) (metadata : Option FrontMatter)
    (w : Workspace) : Prop where
  reports : (w.stage.diagnostics.filter fun d => FilePath.same d.document p) =
    (b.start.stage.diagnostics.filter fun d => FilePath.same d.document p) ++ ds
  metadata : w.stage.metadata.at? (b.file p).realPath = metadata

/-- The other entries. -/
def Others (b : Batch) (p p' : FilePath) : Prop := p' ∈ b.request.entries ∧ p' ≠ p

/-- The job of an entry keeps the contract of this entry. -/
abbrev Keeps {α : Type} (b : Batch) (p : FilePath) (promise : α → Workspace → Prop) (job : Job α)
    (w : Workspace) : Prop :=
  job.Keeps (b.Differs (b.Others p)) (b.Differs (· = p)) b.Midway promise w

theorem Noted.after (h : b.Noted p ds metadata w) (hvalid : b.Valid) (hp : p ∈ b.request.entries)
    (hothers : b.Differs (b.Others p) w w') : b.Noted p ds metadata w' where
  reports := by
    refine (hothers.reports p fun p' hp' => ?_).trans h.reports
    by_contra hsame
    exact hp'.2 (hvalid.eq_of_same hp'.1 hp (by simpa using hsame))
  metadata := by
    refine (hothers.metadata _ fun p' hp' => ?_).trans h.metadata
    by_contra hsame
    exact hp'.2 (hvalid.eq_of_same_realPath hp'.1 hp (by simpa using hsame))

section

variable (hvalid : b.Valid) (hp : p ∈ b.request.entries) (h : b.Noted p ds metadata w)
include hvalid hp h

/-- An operation that changes nothing is answered by the workspace as it is then. -/
theorem keeps_query {op : Operation} (hquery : ∀ w, (op.run w).2 = w) :
    b.Keeps p (fun a w' => a = (op.run w').1 ∧ b.Midway w' ∧ b.Noted p ds metadata w')
      (.perform op .done) w := by
  intro w' hothers hmid
  have hnoted := h.after hvalid hp hothers
  simp only [Job.Keeps, hquery]
  exact ⟨.refl .., trivial, hmid, hnoted⟩

theorem keeps_checkExport (hpath : b.Registered path) :
    b.Keeps p (fun found w' => found.toOption.getD false = b.verdict path ∧ b.Noted p ds metadata w')
      (Job.checkExport path) w := by
  have hlookUp : b.Keeps p _ (Job.lookUp path) w := keeps_query hvalid hp h fun _ => rfl
  refine hlookUp.bind fun found w hfound => ?_
  obtain ⟨hfind, hmid, hnoted⟩ := hfound
  cases found with
  | some found => exact ⟨hmid.verdict_of_known hpath hfind.symm, hnoted⟩
  | none =>
    have hunknown := hmid.unknown hpath hfind.symm
    have hread : b.Keeps p _ (Job.readText path) w := keeps_query hvalid hp hnoted fun _ => rfl
    refine hread.bind fun source w hsource => ?_
    obtain ⟨hsource, hmid, hnoted⟩ := hsource
    have hverdict := hmid.verdict_of_read hpath hunknown
    rw [show w.files.readText path = source from hsource.symm] at hverdict
    cases source with
    | error e => exact ⟨hverdict.symm, hnoted⟩
    | ok source =>
      have hfound : EsModule.hasDefaultExport source = b.verdict path := hverdict.symm
      dsimp only
      rw [hfound]
      intro w' hothers hmid'
      refine ⟨differs_remember hmid' hvalid hpath hunknown, rfl, ?_⟩
      have hnoted' := hnoted.after hvalid hp hothers
      exact ⟨hnoted'.reports, hnoted'.metadata⟩

theorem keeps_settle (o : ImportOutcome) (ho : ∀ d, Injection.diagnostic? o = some d → d.document = p) :
    b.Keeps p (fun o' w' => o' = o ∧ b.Noted p (ds ++ (Injection.diagnostic? o).toList) metadata w')
      (Job.settle o) w := by
  cases o with
  | unknown => simpa [Job.settle, Job.Keeps, Injection.diagnostic?] using h
  | imported statement => simpa [Job.settle, Job.Keeps, Injection.diagnostic?] using h
  | reported d =>
    have hdocument := ho d rfl
    intro w' hothers hmid
    have hnoted := h.after hvalid hp hothers
    refine ⟨differs_report d hdocument w', rfl, ?_, hnoted.metadata⟩
    have hself : FilePath.same d.document p = true := by simp [hdocument, FilePath.same]
    simp [Operation.run, Workspace.withStage, List.filter_append, hself, hnoted.reports,
      Injection.diagnostic?]

theorem keeps_outcome (name : Text) :
    b.Keeps p (fun o w' => o = b.outcome p name ∧
        b.Noted p (ds ++ (Injection.diagnostic? (b.outcome p name)).toList) metadata w')
      (Job.outcome b.registry (b.file p) name) w := by
  unfold Job.outcome
  cases htreatment : Injection.treatment b.registry (b.file p) name with
  | inl o =>
    have ho : b.outcome p name = o := congrArg Prod.fst (Injection.outcome_of_settled htreatment _)
    rw [ho]
    exact keeps_settle hvalid hp h o fun d hd => Injection.document_of_settled htreatment hd
  | inr path =>
    obtain ⟨hresolve, hstart⟩ := Injection.outcome_of_file htreatment b.start.stage.exports
    have hpath : b.Registered path := ⟨name, hresolve⟩
    have ho : b.outcome p name = Injection.importOutcome (b.file p) name path (b.verdict path) :=
      congrArg Prod.fst hstart
    rw [ho]
    refine (keeps_checkExport hvalid hp h hpath).bind fun found w' hfound => ?_
    rw [hfound.1]
    exact keeps_settle hvalid hp hfound.2 _ fun d hd => Injection.document_importOutcome hd

theorem keeps_outcomes (names : List Text) :
    b.Keeps p (fun os w' => os = names.map (b.outcome p) ∧
        b.Noted p (ds ++ os.filterMap Injection.diagnostic?) metadata w')
      (Job.outcomes b.registry (b.file p) names) w := by
  induction names generalizing ds w with
  | nil => exact ⟨rfl, by simpa using h⟩
  | cons name names ih =>
    refine (keeps_outcome hvalid hp h name).bind fun o w' ho => ?_
    obtain ⟨rfl, hnoted⟩ := ho
    refine (ih hnoted).bind fun os w'' hos => ?_
    obtain ⟨rfl, hnoted'⟩ := hos
    refine ⟨rfl, ?_⟩
    cases hd : Injection.diagnostic? (b.outcome p name) with
    | none => simpa [hd] using hnoted'
    | some d => simpa [hd] using hnoted'

theorem keeps_inject (doc : Document) :
    let injection := Injection.inject b.start.files b.registry b.start.stage.settings.pageWrapper (b.file p)
      doc b.start.stage.exports
    b.Keeps p (fun doc' w' => doc' = injection.document ∧
        b.Noted p (ds ++ injection.diagnostics) metadata w')
      (Job.inject b.registry b.start.stage.settings.pageWrapper (b.file p) doc) w := by
  intro injection
  have houtcomes (names : List Text) := outcomes_eq (p := p) hvalid (fun _ _ => rfl) names
  simp only [injection, Injection.inject_eq_prepare, Injection.addImports, houtcomes]
  refine (keeps_outcomes hvalid hp h _).bind fun os w' hos => ?_
  obtain ⟨rfl, hnoted⟩ := hos
  exact ⟨rfl, hnoted⟩

theorem keeps_contentDirectory :
    let contentRoot := b.start.stage.settings.contentRoot
    b.Keeps p (fun directory w' => directory = (b.file p).contentDirectory b.start.files contentRoot ∧
        b.Noted p ds metadata w')
      (Job.contentDirectory (b.file p) contentRoot) w := by
  intro contentRoot
  unfold Job.contentDirectory
  cases hrelative : FilePath.relativeTo? contentRoot (b.file p).directory with
  | some relative =>
    refine ⟨?_, h⟩
    rw [SourceFile.contentDirectory, hrelative]
  | none =>
    have hcanonical : b.Keeps p _ (Job.canonical? contentRoot) w := keeps_query hvalid hp h fun _ => rfl
    refine hcanonical.bind fun real w' hreal => ?_
    obtain ⟨rfl, hmid, hnoted⟩ := hreal
    have hplace := hmid.steady.places p hp
    refine ⟨?_, hnoted⟩
    rw [← hplace, SourceFile.contentDirectory, hrelative]
    rfl

theorem keeps_transform {text : Text} (htext : b.start.files.readText p = .ok text) (hds : ds = []) :
    b.Keeps p (fun doc w' => doc = (Bundle.transformed b.registry p text b.start).1 ∧
        b.Noted p (b.reports p) (b.metadata? p) w')
      (Job.transform b.start.stage.settings b.registry (b.file p) (Document.parse text)) w := by
  have hreports : b.reports p = [] ++ (Injection.inject b.start.files b.registry
      b.start.stage.settings.pageWrapper (b.file p) (Document.parse text)
      b.start.stage.exports).diagnostics := by
    rw [reports, htext]
    rfl
  have hmetadata : b.metadata? p = some (Document.parse text).metadata := by rw [metadata?, htext]
  rw [hreports, hmetadata]
  subst hds
  have hrecord : b.Keeps p (fun _ w' => b.Noted p [] (some (Document.parse text).metadata) w')
      (Job.record (b.file p).realPath (Document.parse text).metadata) w := by
    intro w' hothers hmid
    have hnoted := h.after hvalid hp hothers
    refine ⟨differs_record p _ w', hnoted.reports, ?_⟩
    exact (MetadataStore.at?_insert ..).trans (if_pos rfl)
  refine hrecord.bind fun _ w' hnoted => ?_
  refine (keeps_inject hvalid hp hnoted _).bind fun doc w' hdoc => ?_
  obtain ⟨rfl, hnoted⟩ := hdoc
  refine (keeps_contentDirectory hvalid hp hnoted).bind fun directory w' hdirectory => ?_
  obtain ⟨rfl, hnoted⟩ := hdirectory
  exact ⟨rfl, hnoted⟩

end

end Batch

end StaticSite
