import StaticSite.Proofs.Compile.Storage
import StaticSite.Proofs.Component.Registry
import StaticSite.Proofs.Component.Reports
import StaticSite.Proofs.FileTree.Alike

/-!
# Schedules

Entries may be compiled at once, each going on whenever it likes. As long as none gets in the way of another
one, nothing that comes of them depends on the schedule: it is what comes of compiling one after the other.
-/
namespace StaticSite

open FileTree

/-- Workspaces with the same files, which report the same and have the same on record. -/
structure Workspace.Alike (w w' : Workspace) : Prop where
  files : w.files.Alike w'.files
  reports : Diagnostic.sort w.stage.diagnostics = Diagnostic.sort w'.stage.diagnostics
  metadata : ∀ x, w.stage.metadata.at? x = w'.stage.metadata.at? x

namespace Bundle

variable {w w' : Workspace}

theorem storeFile_alike (path : FilePath) (content : Text) (h : w.files.Alike w'.files) :
    (storeFile path content w).1 = (storeFile path content w').1 ∧
      (storeFile path content w).2.files.Alike (storeFile path content w').2.files := by
  have hmade : ChangeAlike (madeParent path w.files) (madeParent path w'.files) := by
    unfold madeParent
    cases FilePath.parent? path with
    | none => exact .changed h
    | some parent => exact h.createDirectoriesFrom _ parent
  rw [storeFile_eq, storeFile_eq]
  generalize madeParent path w.files = made, madeParent path w'.files = made' at hmade
  cases hmade with
  | failed e => exact ⟨rfl, h⟩
  | @changed t t' halike =>
    have hwrite := halike.write path (Text.bytes content)
    simp only [FileTree.writeText]
    generalize t.write path (Text.bytes content) = written,
      t'.write path (Text.bytes content) = written' at hwrite
    cases hwrite with
    | changed halike' => exact ⟨rfl, halike'⟩
    | failed e => exact ⟨rfl, halike⟩

theorem finish_alike (request : BundleRequest) (results : List (Except BundleError Artifact))
    (h : w.Alike w') :
    (finish request results w).1 = (finish request results w').1 ∧
      (finish request results w).2.Alike (finish request results w').2 := by
  have hstage := finish_stage request results w
  have hstage' := finish_stage request results w'
  have hfiles : (finish request results w).1 = (finish request results w').1 ∧
      (finish request results w).2.files.Alike (finish request results w').2.files := by
    unfold finish
    cases collect results with
    | error e => exact ⟨rfl, h.files⟩
    | ok artifacts =>
      have hstored := storeFile_alike
        (FilePath.join request.assets ("runtime-" ++ Digest.short (Text.bytes runtime) ++ ".js")) runtime h.files
      dsimp only
      generalize storeFile
        (FilePath.join request.assets ("runtime-" ++ Digest.short (Text.bytes runtime) ++ ".js")) runtime w =
          stored, storeFile (FilePath.join request.assets
            ("runtime-" ++ Digest.short (Text.bytes runtime) ++ ".js")) runtime w' = stored' at hstored ⊢
      obtain ⟨result, v⟩ := stored
      obtain ⟨result', v'⟩ := stored'
      obtain ⟨rfl, halike⟩ := hstored
      cases result with
      | error e => exact ⟨rfl, halike⟩
      | ok _ => exact ⟨rfl, halike⟩
  refine ⟨hfiles.1, hfiles.2, ?_, ?_⟩
  · rw [hstage, hstage']
    exact h.reports
  · rw [hstage, hstage']
    exact h.metadata

end Bundle

namespace Batch

variable {b : Batch} {p : FilePath} {m : Text} {w w' : Workspace}

/-- The jobs that compile the entries. -/
def jobs (b : Batch) : List (Job (Except BundleError Artifact)) :=
  b.request.entries.map (Job.compile b.start.stage.settings b.request b.registry)

theorem compatible (hvalid : b.Valid) :
    Job.Compatible (fun p => b.Differs (b.Others p)) (fun p => b.Differs (· = p)) b.Finished
      b.request.entries where
  refl _ w := .refl _ _ w
  trans _ _ _ _ h h' := h.trans h'
  kept _ hp _ _ _ hothers h := h.after hvalid hp hothers
  nodup := hvalid.nodup
  others _ hp _ _ hne _ _ h := h.mono fun _ heq => heq ▸ ⟨hp, hne⟩

/-- Whatever the schedule is, every entry keeps its contract. -/
theorem keeps_of_reaches (hvalid : b.Valid) {jobs : List (Job (Except BundleError Artifact))}
    (hsteady : ∀ jobs w, Job.Reaches b.jobs b.start jobs w → b.Differs (· ∈ b.request.entries) b.start w →
      b.Steady w)
    (hreaches : Job.Reaches b.jobs b.start jobs w) :
    List.Forall₂ (fun p job => b.Keeps p (b.Finished p) job w) b.request.entries jobs ∧ b.Midway w := by
  refine hreaches.keeps (compatible hvalid) (.start b) ?_ ?_
  · intro p hp jobs' v v' hv hmid hdiffers
    have hdiffers' := hmid.differs.trans (hdiffers.mono fun _ heq => heq ▸ hp)
    exact ⟨hsteady jobs' v' hv hdiffers', hdiffers'⟩
  · refine List.forall₂_map_right_iff.mpr (List.forall₂_same.mpr fun p hp => ?_)
    exact keeps_compile hvalid hp

/-- The job of an entry, alone midway, compiles the entry. -/
theorem alone_of_midway (hvalid : b.Valid) (hmid : b.Midway w) (hp : p ∈ b.request.entries) :
    (Job.compile b.start.stage.settings b.request b.registry p).alone w =
      Bundle.compile b.request [.transforms b.registry] p w := by
  rw [← hmid.differs.settings]
  exact Job.compile_alone fun module => hmid.undivided hvalid hp module

section

variable (hvalid : b.Valid) (hsteady : ∀ jobs w, Job.Reaches b.jobs b.start jobs w → b.Steady w)
include hvalid hsteady

theorem midway_of_reaches {jobs : List (Job (Except BundleError Artifact))}
    (hreaches : Job.Reaches b.jobs b.start jobs w) : b.Midway w :=
  (keeps_of_reaches hvalid (fun jobs w hw _ => hsteady jobs w hw) hreaches).2

theorem finished_of_interleaved {results : List (Except BundleError Artifact)}
    (hrun : Job.Interleaved b.jobs b.start results w) :
    results = b.request.entries.map b.answer ∧ ∀ p ∈ b.request.entries, b.Finished p (b.answer p) w := by
  have hkeeps := (keeps_of_reaches hvalid (fun jobs w hw _ => hsteady jobs w hw) hrun).1
  have hfinished := List.forall₂_map_right_iff.mp hkeeps
  have hanswers : List.Forall₂ (· = ·) (b.request.entries.map b.answer) results :=
    List.forall₂_map_left_iff.mpr (hfinished.imp fun p result h => h.result.symm)
  rw [List.forall₂_eq_eq_eq] at hanswers
  rw [← hanswers] at hfinished
  exact ⟨hanswers.symm, List.forall₂_same.mp (List.forall₂_map_right_iff.mp hfinished)⟩

/-! ## One after the other -/

/-- Compiling one after the other is a schedule. -/
theorem reaches_compileAll {done rest : List FilePath} (hentries : b.request.entries = done ++ rest) :
    let run := Bundle.compileAll b.request [.transforms b.registry] done b.start
    Job.Reaches b.jobs b.start (run.1.map .done ++
      rest.map (Job.compile b.start.stage.settings b.request b.registry)) run.2 := by
  induction done using List.reverseRecOn generalizing rest with
  | nil =>
    rw [jobs, hentries]
    exact .refl _ _
  | append_singleton done p ih =>
    have hentries' : b.request.entries = done ++ p :: rest := by simp [hentries]
    have hp : p ∈ b.request.entries := by simp [hentries]
    have hbefore := ih hentries'
    have hmid := midway_of_reaches hvalid hsteady hbefore
    have hnext := hbefore.trans (.alone _ _ _ _)
    rw [alone_of_midway hvalid hmid hp] at hnext
    rw [Bundle.compileAll_append]
    simpa [Bundle.compileAll] using hnext

theorem interleaved_compileAll :
    let run := Bundle.compileAll b.request [.transforms b.registry] b.request.entries b.start
    Job.Interleaved b.jobs b.start run.1 run.2 := by
  have hreaches := reaches_compileAll hvalid hsteady (List.append_nil b.request.entries).symm
  simpa [Job.Interleaved] using hreaches

/-- An entry is answered as if it were alone. -/
theorem compile_eq_answer (hp : p ∈ b.request.entries) :
    (Bundle.compile b.request [.transforms b.registry] p b.start).1 = b.answer p := by
  obtain ⟨earlier, later, hentries⟩ := List.append_of_mem hp
  have hjobs : b.jobs = earlier.map (Job.compile b.start.stage.settings b.request b.registry) ++
      Job.compile b.start.stage.settings b.request b.registry p ::
        later.map (Job.compile b.start.stage.settings b.request b.registry) := by
    rw [jobs, hentries, List.map_append, List.map_cons]
  have halone := Job.Reaches.alone (earlier.map (Job.compile b.start.stage.settings b.request b.registry))
    (later.map (Job.compile b.start.stage.settings b.request b.registry))
    (Job.compile b.start.stage.settings b.request b.registry p) b.start
  rw [← hjobs, alone_of_midway hvalid (.start b) hp] at halone
  have hkeeps := (keeps_of_reaches hvalid (fun jobs w hw _ => hsteady jobs w hw) halone).1
  rw [hentries] at hkeeps
  have hlength : earlier.length =
      (earlier.map (Job.compile b.start.stage.settings b.request b.registry)).length := by simp
  have hlater := List.forall₂_drop_append _ _ _ hkeeps
  rw [← hlength, List.drop_left] at hlater
  exact (List.forall₂_cons.mp hlater).1.result

end

/-! ## What a schedule leaves -/

/-- What may have become of a place has become of it once all entries are finished. -/
theorem settled (hvalid : b.Valid) (hmid : b.Midway w)
    (hfinished : ∀ p ∈ b.request.entries, b.Finished p (b.answer p) w) {who : FilePath → Prop}
    {q : RealPath} {item : Option Item} (h : b.Alters who q (b.start.files.get? q) item) :
    item = b.start.files.get? q ∨ item = w.files.get? q := by
  generalize hitem : b.start.files.get? q = before at h
  cases h with
  | kept => exact .inl rfl
  | @made p m ns _ hplans hns hq =>
    have hstands := (hfinished p hplans.entry).stands m hplans
    have hdirectory := hstands.directories.directory hvalid hmid
    refine .inr ?_
    by_cases heq : ns = b.directories p
    · rw [hq, heq, hdirectory]
    · rw [hq, (hmid.rooted hvalid).prefix_directory hdirectory hns heq]
  | @written p m _ _ hplans hq hbefore =>
    have hstands := (hfinished p hplans.entry).stands m hplans
    refine .inr ?_
    rw [hq, hstands.file]
    rw [← hq, hitem]
    rcases hbefore with rfl | ⟨content, rfl⟩
    · exact nofun
    · exact nofun

/-- Schedules that have come to their end leave the same. -/
theorem alike_of_finished (hvalid : b.Valid) (hmid : b.Midway w) (hmid' : b.Midway w')
    (hfinished : ∀ p ∈ b.request.entries, b.Finished p (b.answer p) w)
    (hfinished' : ∀ p ∈ b.request.entries, b.Finished p (b.answer p) w') : w.Alike w' where
  files q := by
    rcases settled hvalid hmid hfinished (hmid'.differs.files q) with hstart' | hsame
    · rcases settled hvalid hmid' hfinished' (hmid.differs.files q) with hstart | hsame
      · rw [hstart, hstart']
      · exact hsame
    · exact hsame.symm
  reports := by
    refine Diagnostic.sort_congr fun x => ?_
    by_cases hentry : ∃ p ∈ b.request.entries, FilePath.same p x = true
    · obtain ⟨p, hp, hsame⟩ := hentry
      have hparts : FilePath.parts p = FilePath.parts x := by simpa [FilePath.same] using hsame
      have hnoted := (hfinished p hp).noted.reports
      have hnoted' := (hfinished' p hp).noted.reports
      simp only [FilePath.same, hparts] at hnoted hnoted' ⊢
      rw [hnoted, hnoted']
    · have hforeign : ∀ p ∈ b.request.entries, FilePath.same p x = false := by simpa using hentry
      rw [hmid.differs.reports x hforeign, hmid'.differs.reports x hforeign]
  metadata x := by
    by_cases hentry : ∃ p ∈ b.request.entries, FilePath.same (b.file p).realPath x = true
    · obtain ⟨p, hp, hsame⟩ := hentry
      have hparts : FilePath.parts (b.file p).realPath = FilePath.parts x := by
        simpa [FilePath.same] using hsame
      have hnoted := (hfinished p hp).noted.metadata
      have hnoted' := (hfinished' p hp).noted.metadata
      simp only [MetadataStore.at?, FilePath.same, hparts] at hnoted hnoted' ⊢
      rw [hnoted, hnoted']
    · have hforeign : ∀ p ∈ b.request.entries, FilePath.same (b.file p).realPath x = false := by
        simpa using hentry
      rw [hmid.differs.metadata x hforeign, hmid'.differs.metadata x hforeign]

/-! ## What is read, apart from what is written -/

/-- Where documents and components stand apart from the modules, nothing that is read changes. -/
theorem steady_of_apart (hvalid : b.Valid) (hentries : ∀ p ∈ b.request.entries, b.Apart p)
    (hcomponents : ∀ path, b.Registered path → b.Apart path)
    (hplaces : ∀ p ∈ b.request.entries,
      (FilePath.relativeTo? b.start.stage.settings.contentRoot (b.file p).directory).isSome = true)
    {jobs : List (Job (Except BundleError Artifact))} (hreaches : Job.Reaches b.jobs b.start jobs w) :
    b.Steady w := by
  have hall : ∀ w, b.Differs (· ∈ b.request.entries) b.start w → b.Steady w := by
    intro w hdiffers
    refine ⟨fun p hp => hdiffers.readText (hentries p hp), fun path hpath => ?_, fun p hp => ?_⟩
    · rw [hdiffers.readText (hcomponents path hpath)]
    · obtain ⟨relative, hrelative⟩ := Option.isSome_iff_exists.mp (hplaces p hp)
      rw [SourceFile.contentDirectory, SourceFile.contentDirectory, hrelative]
  exact (keeps_of_reaches hvalid (fun _ w _ hdiffers => hall w hdiffers) hreaches).2.steady

/-! ## Any schedule -/

/-- An entry that is answered with an artifact has a module, and there is room for it. -/
theorem answer_ok {a : Artifact} (hp : p ∈ b.request.entries) (h : b.answer p = .ok a) :
    ∃ m, b.Plans p m ∧ b.start.files.get? (b.output p m) ≠ some .directory ∧
      a = ⟨Bundle.modulePath b.request p m, .entry⟩ := by
  cases hrendered : b.rendered p with
  | error e =>
    rw [answer_of_error hrendered] at h
    cases h
  | ok m =>
    simp only [answer, hrendered, bind, Except.bind] at h
    cases hstored : b.stored p m with
    | error e =>
      rw [hstored] at h
      cases h
    | ok _ =>
      rw [hstored] at h
      unfold stored at hstored
      split_ifs at hstored with hfree hoccupied
      exact ⟨m, ⟨hp, hrendered, hfree⟩, hoccupied, (Except.ok.inj h).symm⟩

/-- A module that stands is what its path names. -/
theorem Stands.readBytes (h : b.Stands p m w) (hvalid : b.Valid) (hmid : b.Midway w) (hplans : b.Plans p m)
    (hroom : b.start.files.get? (b.output p m) ≠ some .directory) :
    w.files.readBytes (Bundle.modulePath b.request p m) = .ok (Text.bytes m) := by
  have hparts := hvalid.parts_modulePath hplans.entry m
  have hplain := hmid.plain hvalid ((b.place p).moduleNames (Digest.short (Text.bytes m)))
  have hne : b.moduleNames p m ≠ [] := by
    obtain ⟨n, hn⟩ := b.moduleNames_eq p m
    simp [hn]
  have hget := h.file hroom
  have hresolve : w.files.resolve true (Bundle.modulePath b.request p m) = .ok (b.output p m) :=
    (hmid.base hvalid).resolve_of_get? (hmid.rooted hvalid) hplain hne hparts hget
  exact readBytes_file hresolve hget ((hvalid.isAt p hplans.entry).getLast?_modulePath m)

/-- Entries that do not get in each other's way may be compiled in any order, and at once: what a build gives
and leaves is what it gives and leaves when they are compiled one after the other. Every entry is answered as if
it were alone, the first error is reported, and a module is written even when another entry fails. -/
theorem interleaved_eq_run (hvalid : b.Valid)
    (hsteady : ∀ jobs w, Job.Reaches b.jobs b.start jobs w → b.Steady w)
    {results : List (Except BundleError Artifact)} (hrun : Job.Interleaved b.jobs b.start results w) :
    let compiled p := (Bundle.compile b.request [.transforms b.registry] p b.start).1
    let one := Bundle.finish b.request results w
    let all := Bundle.run b.request [.transforms b.registry] b.start
    one.1 = all.1 ∧ one.2.files.Alike all.2.files ∧ one.2.stage.drain.1 = all.2.stage.drain.1 ∧
      (∀ path, one.2.stage.metadata.get? one.2.files path = all.2.stage.metadata.get? all.2.files path) ∧
      results = b.request.entries.map compiled ∧
      (∀ artifacts, one.1 = .ok artifacts → ∃ modules,
        List.Forall₂ (fun p a => ∃ m, b.rendered p = .ok m ∧ a = ⟨Bundle.modulePath b.request p m, .entry⟩)
          b.request.entries modules ∧
        artifacts = modules ++ [⟨FilePath.join b.request.assets
          ("runtime-" ++ Digest.short (Text.bytes Bundle.runtime) ++ ".js"), .chunk⟩]) ∧
      (∀ earlier p later e, b.request.entries = earlier ++ p :: later →
        (∀ p' ∈ earlier, ∃ a, compiled p' = .ok a) → compiled p = .error e → one.1 = .error e) ∧
      ∀ p ∈ b.request.entries, ∀ a, compiled p = .ok a → ∃ m, b.rendered p = .ok m ∧
        a = ⟨Bundle.modulePath b.request p m, .entry⟩ ∧ w.files.readBytes a.path = .ok (Text.bytes m) := by
  intro compiled one all
  have hmid := midway_of_reaches hvalid hsteady hrun
  obtain ⟨hresults, hfinished⟩ := finished_of_interleaved hvalid hsteady hrun
  have hturns := interleaved_compileAll hvalid hsteady
  have hmid' := midway_of_reaches hvalid hsteady hturns
  obtain ⟨hresults', hfinished'⟩ := finished_of_interleaved hvalid hsteady hturns
  have hcompiled : ∀ p ∈ b.request.entries, compiled p = b.answer p :=
    fun p hp => compile_eq_answer hvalid hsteady hp
  have halike := alike_of_finished hvalid hmid hmid' hfinished hfinished'
  obtain ⟨hone, hleft⟩ := Bundle.finish_alike b.request results halike
  have hall : all = Bundle.finish b.request results (Bundle.compileAll b.request [.transforms b.registry]
      b.request.entries b.start).2 := by
    rw [hresults, ← hresults']
    rfl
  rw [← hall] at hone hleft
  refine ⟨hone, hleft.files, hleft.reports, fun path => ?_, ?_, fun artifacts hok => ?_, ?_, ?_⟩
  · rw [MetadataStore.get?_eq, MetadataStore.get?_eq, hleft.files.canonical]
    exact hleft.metadata _
  · rw [hresults]
    exact (List.map_congr_left hcompiled).symm
  · obtain ⟨modules, hmodules, rfl⟩ := Bundle.finish_ok hok
    refine ⟨modules, ?_, rfl⟩
    have hanswers : List.Forall₂ (fun p a => b.answer p = .ok a) b.request.entries modules := by
      rw [← List.forall₂_map_right_iff, ← List.forall₂_map_left_iff, List.forall₂_eq_eq_eq, ← hresults,
        hmodules]
    refine ((List.forall₂_and_left _ _).mpr ⟨fun p hp => hp, hanswers⟩).imp fun p a hanswer => ?_
    obtain ⟨m, hplans, -, ha⟩ := answer_ok hanswer.1 hanswer.2
    exact ⟨m, hplans.rendered, ha⟩
  · intro earlier p later e hentries hearlier herror
    refine Bundle.finish_of_error ?_
    have hp : p ∈ b.request.entries := by simp [hentries]
    rw [hcompiled p hp] at herror
    rw [hresults, hentries, List.map_append, List.map_cons, herror]
    refine Bundle.collect_of_error (fun result hresult => ?_) e _
    obtain ⟨p', hp', rfl⟩ := List.mem_map.mp hresult
    rw [← hcompiled p' (by simp [hentries, hp'])]
    exact hearlier p' hp'
  · intro p hp a ha
    rw [hcompiled p hp] at ha
    obtain ⟨m, hplans, hroom, rfl⟩ := answer_ok hp ha
    have hstands := (hfinished p hp).stands m hplans
    exact ⟨m, hplans.rendered, rfl, hstands.readBytes hvalid hmid hplans hroom⟩

/-! ## Two documents -/

/-- Two jobs run one after the other, the second one first. -/
def secondFirst {α : Type} (job job' : Job α) (w : Workspace) : List α × Workspace :=
  let second := job'.alone w
  let first := job.alone second.2
  ([first.1, second.1], first.2)

theorem interleaved_secondFirst {α : Type} (job job' : Job α) (w : Workspace) :
    Job.Interleaved [job, job'] w (secondFirst job job' w).1 (secondFirst job job' w).2 :=
  (Job.Reaches.alone [job] [] job' w).trans (.alone [] [.done (job'.alone w).1] job _)

namespace TwoDocuments

def text (t : String) : Item := .file (Text.bytes t.toList)

/-- Two documents below `/c` among other files, and where the modules go. -/
def batch (items : List (RealPath × Item)) (d d' : DocumentPlace) (assets : FilePath) (registry : Registry) :
    Batch where
  request := ⟨[d.path "/c", d'.path "/c"], "/c", assets⟩
  registry := registry
  start := ⟨⟨(["c"], .directory) :: items⟩, .ofSettings ⟨"/c", none, none⟩⟩
  place p := if p = d.path "/c" then d else d'
  way := [.root]
  base := []
  names := ["o"]

/-- The second document of a batch is compiled first. -/
def turned (b : Batch) : List (Except BundleError Artifact) × Workspace :=
  let compile p := Job.compile b.start.stage.settings b.request b.registry p
  match b.request.entries with
  | [p, p'] => secondFirst (compile p) (compile p') b.start
  | _ => ([], b.start)

theorem interleaved_turned {b : Batch} {p p' : FilePath} (h : b.request.entries = [p, p']) :
    Job.Interleaved b.jobs b.start (turned b).1 (turned b).2 := by
  rw [jobs, turned, h]
  exact interleaved_secondFirst ..

theorem mem_candidates_of_registered {b : Batch} {path : FilePath} (h : b.Registered path) :
    ∃ entry ∈ b.registry.candidates, path ∈ entry.2 := by
  obtain ⟨name, hname⟩ := h
  have hmem : path ∈ b.registry.files name := by
    unfold Registry.resolve? at hname
    split at hname
    · rename_i hfiles
      rw [hfiles, Option.some.inj hname]
      exact List.mem_singleton_self path
    · cases hname
  exact ⟨_, Registry.mem_candidates hmem, hmem⟩

/-- Both documents use one component. -/
def sharing : Batch :=
  batch [(["c", "a.md"], text "<X />"), (["c", "b.md"], text "<X />"), (["x.jsx"], text "export default 1;")]
    ⟨[], "a.md"⟩ ⟨[], "b.md"⟩ "/o" ⟨[("X".toList, ["/x.jsx"])]⟩

theorem eq_of_registered_sharing {path : FilePath} (h : sharing.Registered path) : path = "/x.jsx" := by
  obtain ⟨entry, hentry, hpath⟩ := mem_candidates_of_registered h
  obtain rfl := List.mem_singleton.mp hentry
  exact List.mem_singleton.mp hpath

theorem sharing_valid : sharing.Valid where
  isAt := by decide +kernel
  keys := by decide +kernel
  realPaths := by decide +kernel
  rooted := by
    have hformed : sharing.start.files.WellFormed := by decide
    exact hformed.rooted
  spelled path path' hpath hpath' _ := by
    rw [eq_of_registered_sharing hpath, eq_of_registered_sharing hpath']
  base := ⟨by decide +kernel, rfl⟩
  assets := by decide +kernel
  plain ns ms hne _ target hlink := by
    have hmem := mem_of_get? hne hlink
    simp [sharing, batch, text] at hmem
  apart p _ p' _ _ m m' _ _ := by
    have hdirectories : (sharing.place p').directories = [] := by
      simp only [sharing, batch]
      split_ifs <;> rfl
    rw [hdirectories, List.prefix_nil]
    exact DocumentPlace.moduleNames_ne_nil _ _

theorem sharing_steady {jobs : List (Job (Except BundleError Artifact))} {w : Workspace}
    (h : Job.Reaches sharing.jobs sharing.start jobs w) : sharing.Steady w := by
  refine steady_of_apart sharing_valid (fun p hp => ?_) (fun path hpath => ?_) (by decide +kernel) h
  · obtain rfl | hp := List.mem_cons.mp hp
    · exact ⟨["c", "a.md"], _, by decide +kernel, rfl, by decide⟩
    · obtain rfl := List.mem_singleton.mp hp
      exact ⟨["c", "b.md"], _, by decide +kernel, rfl, by decide⟩
  · rw [eq_of_registered_sharing hpath]
    exact ⟨["x.jsx"], _, by decide +kernel, rfl, by decide⟩

/-- Whichever document is compiled first, both get the import, and the artifacts stand in order. -/
theorem shared_component_in_turn :
    (Bundle.finish sharing.request (turned sharing).1 (turned sharing).2).1 =
      .ok [⟨"/o/a-8a400540.js", .entry⟩, ⟨"/o/b-8a400540.js", .entry⟩, ⟨"/o/runtime-5e1000a5.js", .chunk⟩] := by
  have hrun : Job.Interleaved sharing.jobs sharing.start (turned sharing).1 (turned sharing).2 :=
    interleaved_turned rfl
  obtain ⟨hsame, -⟩ := interleaved_eq_run sharing_valid (fun _ _ h => sharing_steady h) hrun
  rw [hsame]
  decide +kernel

/-- A document lies in a directory that is named like the module of the other one. -/
def nested : Batch :=
  batch [(["c", "a.md"], text "A"), (["c", "a-9f1f381a.js"], .directory),
    (["c", "a-9f1f381a.js", "b.md"], text "B")]
    ⟨[], "a.md"⟩ ⟨["a-9f1f381a.js"], "b.md"⟩ "/o" .empty

/-- A directory of modules is a link to another one, which is not there before a module is. -/
def linked : Batch :=
  batch [(["c", "x"], .directory), (["c", "x", "a.md"], text "A"), (["c", "y"], .directory),
    (["c", "y", "b.md"], text "B"), (["o"], .directory), (["o", "x"], .link "y")]
    ⟨["x"], "a.md"⟩ ⟨["y"], "b.md"⟩ "/o" .empty

/-- The module of a document is written over the other document. -/
def overwritten : Batch :=
  batch [(["c", "a.md"], text "A"), (["c", "a-9f1f381a.js"], text "B")]
    ⟨[], "a.md"⟩ ⟨[], "a-9f1f381a.js"⟩ "/c" .empty

/-- A component file is registered under another component too, by a path that cannot be read. -/
def respelled : Batch :=
  batch [(["c", "a.md"], text "<X />"), (["c", "b.md"], text "<Y />"), (["x.jsx"], text "export default 1;")]
    ⟨[], "a.md"⟩ ⟨[], "b.md"⟩ "/o" ⟨[("X".toList, ["/x.jsx"]), ("Y".toList, ["/x.jsx/"])]⟩

/-- Distinct entries are compiled, the second one first. This leaves the component files alone, but gives
something else than compiling in order. -/
def OrderMatters (b : Batch) : Prop :=
  b.Distinct ∧ Job.Interleaved b.jobs b.start (turned b).1 (turned b).2 ∧
    (∀ path, b.Registered path →
      ((turned b).2.files.readText path).toOption = (b.start.files.readText path).toOption) ∧
    (Bundle.finish b.request (turned b).1 (turned b).2).1 ≠
      (Bundle.run b.request [.transforms b.registry] b.start).1

theorem unregistered {b : Batch} (h : b.registry = .empty) (path : FilePath) : ¬b.Registered path := by
  intro hpath
  obtain ⟨entry, hentry, -⟩ := mem_candidates_of_registered hpath
  rw [h] at hentry
  cases hentry

theorem orderMatters_of_unregistered {b : Batch} {p p' : FilePath} (hentries : b.request.entries = [p, p'])
    (hregistry : b.registry = .empty) (hdistinct : b.Distinct)
    (hother : (Bundle.finish b.request (turned b).1 (turned b).2).1 ≠
      (Bundle.run b.request [.transforms b.registry] b.start).1) : OrderMatters b :=
  ⟨hdistinct, interleaved_turned hentries, fun path hpath => absurd hpath (unregistered hregistry path), hother⟩

theorem respelled_orderMatters : OrderMatters respelled := by
  have hread : ∀ path ∈ (["/x.jsx", "/x.jsx/"] : List FilePath),
      ((turned respelled).2.files.readText path).toOption =
        (respelled.start.files.readText path).toOption := by decide +kernel
  refine ⟨⟨by decide +kernel, by decide +kernel, by decide +kernel⟩, interleaved_turned rfl, ?_, by decide +kernel⟩
  intro path hpath
  obtain ⟨entry, hentry, hmem⟩ := mem_candidates_of_registered hpath
  refine hread path ?_
  rcases List.mem_cons.mp hentry with rfl | hentry
  · exact List.mem_cons.mpr (.inl (List.mem_singleton.mp hmem))
  · obtain rfl := List.mem_singleton.mp hentry
    exact List.mem_cons_of_mem _ hmem

/-- Entries may get in each other's way: then the order matters. -/
theorem order_matters :
    OrderMatters nested ∧ OrderMatters linked ∧ OrderMatters overwritten ∧ OrderMatters respelled := by
  refine ⟨?_, ?_, ?_, respelled_orderMatters⟩
  · refine orderMatters_of_unregistered rfl rfl ⟨?_, ?_, ?_⟩ ?_ <;> decide +kernel
  · refine orderMatters_of_unregistered rfl rfl ⟨?_, ?_, ?_⟩ ?_ <;> decide +kernel
  · refine orderMatters_of_unregistered rfl rfl ⟨?_, ?_, ?_⟩ ?_ <;> decide +kernel

end TwoDocuments

end Batch

end StaticSite
