import StaticSite.Proofs.Compile.Contract

/-!
# Storing a module among others

An entry makes the directories of its module and writes it, while other entries do the same. Whether there is
room is settled at the start: no entry takes the room of another one.
-/
namespace StaticSite.Batch

open FileTree

variable {b : Batch} {p path : FilePath} {m : Text} {w w' : Workspace} {ds : List Diagnostic}
  {metadata : Option FrontMatter} {init ns : List Text} {n : Text}

/-- Where a way below the base ends, a directory stands. -/
def Leads (b : Batch) (ns : List Text) (w : Workspace) : Prop :=
  ns ≠ [] → w.files.get? (b.base ++ ns) = some .directory

theorem Leads.after (h : b.Leads ns w) {who : FilePath → Prop} (hdiffers : b.Differs who w w') :
    b.Leads ns w' := fun hne => hdiffers.directory (h hne)

theorem Leads.directory (h : b.Leads ns w) (hvalid : b.Valid) (hmid : b.Midway w) :
    w.files.get? (b.base ++ ns) = some .directory := by
  by_cases hne : ns = []
  · rw [hne, List.append_nil]
    exact (hmid.base hvalid).directory
  · exact h hne

/-- A directory that an entry makes is one that it plans. -/
theorem differs_directory (hplans : b.Plans p m) (hns : init ++ [n] <+: b.directories p)
    (hparent : w.files.get? (b.base ++ init) = some .directory)
    (hnone : w.files.get? (b.base ++ (init ++ [n])) = none) :
    b.Differs (· = p) w { w with files := w.files.set (b.base ++ (init ++ [n])) .directory } := by
  have hne : b.base ++ (init ++ [n]) ≠ [] := by simp
  refine differs_files (fun q => ?_) fun hrooted => ?_
  · rw [get?_set hne]
    split_ifs with hq
    · rw [hq, hnone]
      exact .made rfl hplans hns rfl
    · exact .kept _
  · rw [← List.append_assoc]
    exact hrooted.set hparent fun _ => rfl

theorem directories_ne_nil (hvalid : b.Valid) (hblocked : ¬b.start.files.Open b.base (b.directories p)) :
    b.directories p ≠ [] := by
  intro hnil
  refine hblocked fun ns hns => ?_
  rw [hnil, List.prefix_nil] at hns
  rw [hns, List.append_nil]
  exact .inr hvalid.base.directory

namespace Midway

variable (h : b.Midway w) (hvalid : b.Valid) (hplans : b.Plans p m)
include h hvalid hplans

/-- A module that an entry writes is its own. -/
theorem differs_module
    (hparent : w.files.get? (b.base ++ b.directories p) = some .directory)
    (hfree : w.files.get? (b.output p m) ≠ some .directory) :
    b.Differs (· = p) w { w with files := w.files.set (b.output p m) (.file (Text.bytes m)) } := by
  obtain ⟨n, hn⟩ := b.moduleNames_eq p m
  have hne : b.output p m ≠ [] := by simp [output, hn]
  have hplain := h.plain hvalid ((b.place p).moduleNames (Digest.short (Text.bytes m)))
  refine differs_files (fun q => ?_) fun hrooted => ?_
  · rw [get?_set hne]
    split_ifs with hq
    · subst hq
      refine .written rfl hplans rfl ?_
      cases hitem : w.files.get? (b.output p m) with
      | none => exact .inl rfl
      | some item =>
        cases item with
        | directory => exact absurd hitem hfree
        | file content => exact .inr ⟨content, rfl⟩
        | link target =>
          have hnames : b.moduleNames p m ≠ [] := by simp [hn]
          exact absurd hitem (hplain _ hnames List.prefix_rfl target)
    · exact .kept _
  · have hplace : b.output p m = b.base ++ b.directories p ++ [n] := by rw [output, hn, List.append_assoc]
    rw [hplace] at hfree ⊢
    exact hrooted.set hparent fun hdirectory => absurd hdirectory hfree

/-- A directory stands in the place of a module now if it did at the start. -/
theorem output_directory_iff :
    w.files.get? (b.output p m) = some .directory ↔
      b.start.files.get? (b.output p m) = some .directory := by
  refine ⟨fun hdirectory => ?_, fun hdirectory => h.differs.directory hdirectory⟩
  have hfiles := h.differs.files (b.output p m)
  rw [hdirectory] at hfiles
  generalize b.start.files.get? (b.output p m) = item at hfiles ⊢
  cases hfiles with
  | kept => rfl
  | made _ hplans' hns hq => exact absurd hq (hplans.not_in_way hplans' hvalid hns)

end Midway

section

variable (hvalid : b.Valid) (hp : p ∈ b.request.entries) (h : b.Noted p ds metadata w)
include hvalid hp h

theorem keeps_isDirectory (hne : ns ≠ []) (hns : ns <+: b.directories p)
    (hparts : FilePath.parts path = b.way ++ ns.map .name) (hthere : b.Leads ns w) :
    b.Keeps p (fun found w' => found = true ∧ b.Leads ns w' ∧ b.Noted p ds metadata w')
      (Job.isDirectory path) w := by
  intro w' hothers hmid
  have hthere' := hthere.after hothers
  have hplain := (hmid.plain hvalid (b.place p).directories).shorten hns
  have hfound := (hmid.base hvalid).isDirectory (hmid.rooted hvalid) hplain hne hparts (hthere' hne)
  exact ⟨.refl .., hfound, hthere', h.after hvalid hp hothers⟩

/-- A planned directory is made, or is there, or those before it are missing. -/
theorem keeps_createDirectory (hplans : b.Plans p m) (hns : init ++ [n] <+: b.directories p)
    (hparts : FilePath.parts path = b.way ++ (init ++ [n]).map .name) :
    b.Keeps p (fun made w' => b.Noted p ds metadata w' ∧
        (made ≠ .error .notFound ∧ b.Leads (init ++ [n]) w' ∨
          made = .error .notFound ∧ init ≠ [] ∧ ¬b.Leads init w))
      (Job.createDirectory path) w := by
  intro w' hothers hmid
  have hnoted := h.after hvalid hp hothers
  have hrooted := hmid.rooted hvalid
  have hbase := hmid.base hvalid
  have hfree := (hmid.free hvalid hplans).shorten hns
  have hne : init ++ [n] ≠ [] := by simp
  have hinit : init <+: init ++ [n] := List.prefix_append init [n]
  rcases hfree (init ++ [n]) List.prefix_rfl with hnone | hthere
  · rcases hfree init hinit with hmissing | hparent
    · have hcreate := hbase.createDirectory_of_missing hfree.plain hne hparts hinit (by simp) hmissing
        fun ls hls => hfree ls (hls.trans hinit)
      have hleft : init ≠ [] := hbase.ne_nil_of_missing hmissing
      simp only [Job.Keeps, Operation.run, hcreate, Workspace.afterChange]
      refine ⟨.refl .., hnoted, .inr ⟨trivial, hleft, fun hleads => ?_⟩⟩
      have hparent := hleads.after hothers hleft
      rw [hmissing] at hparent
      cases hparent
    · have hcreate := hbase.createDirectory_of_parent hrooted hfree.plain hparts hparent hnone
      have hplace : b.base ++ (init ++ [n]) ≠ [] := by simp
      have hfound : (.ok () : Except FileError Unit) ≠ .error .notFound := by decide
      simp only [Job.Keeps, Operation.run, hcreate, Workspace.afterChange]
      refine ⟨differs_directory hplans hns hparent hnone, ⟨hnoted.reports, hnoted.metadata⟩,
        .inl ⟨hfound, fun _ => ?_⟩⟩
      rw [get?_set hplace, if_pos rfl]
  · have hcreate := hbase.createDirectory_of_get? hrooted hfree.plain hne hparts hthere
    have hfound : (.error .alreadyExists : Except FileError Unit) ≠ .error .notFound := by decide
    simp only [Job.Keeps, Operation.run, hcreate, Workspace.afterChange]
    exact ⟨.refl .., hnoted, .inl ⟨hfound, fun _ => hthere⟩⟩

theorem keeps_ensureDirectory (hplans : b.Plans p m) (hns : init ++ [n] <+: b.directories p)
    (hparts : FilePath.parts path = b.way ++ (init ++ [n]).map .name) (hparent : b.Leads init w) :
    b.Keeps p (fun made w' => made = .ok () ∧ b.Leads (init ++ [n]) w' ∧ b.Noted p ds metadata w')
      (Job.ensureDirectory path) w := by
  refine (keeps_createDirectory hvalid hp h hplans hns hparts).bind fun made w' hmade => ?_
  obtain ⟨hnoted, ⟨-, hthere⟩ | ⟨-, -, hmissing⟩⟩ := hmade
  · cases made with
    | ok _ => exact ⟨rfl, hthere, hnoted⟩
    | error e =>
      have hasked := keeps_isDirectory hvalid hp hnoted (by simp) hns hparts hthere
      refine hasked.bind fun found w'' hfound => ?_
      obtain ⟨rfl, hthere', hnoted'⟩ := hfound
      exact ⟨rfl, hthere', hnoted'⟩
  · exact absurd hparent hmissing

/-- The directories of a module are made where there is room for them. -/
theorem keeps_makeDirectories {fuel : Nat} (hplans : b.Plans p m) (hns : ns <+: b.directories p)
    (hparts : FilePath.parts path = b.way ++ ns.map .name) (hfuel : ns.length ≤ fuel + 1) :
    b.Keeps p (fun made w' => made = .ok () ∧ b.Leads ns w' ∧ b.Noted p ds metadata w')
      (Job.makeDirectories (fuel + 1) path) w := by
  induction ns using List.reverseRecOn generalizing fuel path w with
  | nil =>
    have hleads : ∀ w, b.Leads [] w := fun w hne => absurd rfl hne
    rw [List.map_nil, List.append_nil] at hparts
    rw [Job.makeDirectories]
    by_cases hpath : path.isEmpty = true
    · rw [if_pos hpath]
      exact ⟨rfl, hleads w, h⟩
    rw [if_neg hpath]
    have hpath' : path ≠ [] := by simpa using hpath
    -- the base is there, whatever the others do
    intro w' hothers hmid
    have hnoted := h.after hvalid hp hothers
    have hcreate := ((hmid.base hvalid).createDirectory_self hpath' hparts).1
    simp only [Operation.run, hcreate, Workspace.afterChange]
    refine ⟨.refl .., ?_⟩
    intro w'' hothers' hmid'
    have hnoted' := hnoted.after hvalid hp hothers'
    have hdirectory := ((hmid'.base hvalid).createDirectory_self hpath' hparts).2
    simp only [Operation.run, hdirectory]
    exact ⟨.refl .., rfl, hleads w'', hnoted'⟩
  | append_singleton init n ih =>
    have hinit : init <+: init ++ [n] := List.prefix_append init [n]
    have hpath : path.isEmpty = false := by simpa using ne_nil_of_parts (by simp) hparts
    rw [Job.makeDirectories, hpath]
    refine (keeps_createDirectory hvalid hp h hplans hns hparts).bind fun made w' hmade => ?_
    obtain ⟨hnoted, ⟨hfound, hthere⟩ | ⟨rfl, hleft, -⟩⟩ := hmade
    · cases made with
      | ok _ => exact ⟨rfl, hthere, hnoted⟩
      | error e =>
        have he : e ≠ .notFound := fun heq => hfound (heq ▸ rfl)
        have hasked := keeps_isDirectory hvalid hp hnoted (by simp) hns hparts hthere
        dsimp only
        rw [if_neg he]
        refine hasked.bind fun found w'' hfound => ?_
        obtain ⟨rfl, hthere', hnoted'⟩ := hfound
        exact ⟨rfl, hthere', hnoted'⟩
    · have hup : FilePath.parts path = (b.way ++ init.map .name) ++ [.name n] := by simp [hparts]
      obtain ⟨parent, hparent, hparts'⟩ := FilePath.parts_parent? hup
      obtain ⟨k, rfl, hfuel'⟩ := exists_fuel_of_concat hleft hfuel
      dsimp only
      rw [if_pos rfl, hparent]
      refine (ih hnoted (hinit.trans hns) hparts' hfuel').bind fun above w'' habove => ?_
      obtain ⟨rfl, hleads, hnoted'⟩ := habove
      exact keeps_ensureDirectory hvalid hp hnoted' hplans hns hparts hleads

/-- Where a file stands in the way, no directory is made. -/
theorem keeps_createDirectory_blocked (hblocked : ¬b.start.files.Open b.base (b.directories p))
    (hparts : FilePath.parts path = b.way ++ (b.directories p).map .name) :
    b.Keeps p (fun made w' => made = .error (b.blockade p) ∧ b.Noted p ds metadata w')
      (Job.createDirectory path) w := by
  intro w' hothers hmid
  have hne := directories_ne_nil hvalid hblocked
  have hplain : w'.files.Plain b.base (b.directories p) := hmid.plain hvalid (b.place p).directories
  have hrooted := hmid.rooted hvalid
  have hbase := hmid.base hvalid
  obtain ⟨ns, content, content', hns, hstart, hfile⟩ := hmid.blocked hvalid hblocked
  have hcreate : w'.files.createDirectory path = .error (b.blockade p) := by
    by_cases heq : ns = b.directories p
    · subst heq
      rw [hbase.createDirectory_of_get? hrooted hplain hne hparts hfile, blockade, hstart, if_neg nofun]
    · have hnone : b.start.files.get? (b.base ++ b.directories p) = none := by
        by_contra hthere
        obtain ⟨item, hitem⟩ := Option.ne_none_iff_exists'.mp hthere
        have hdirectory := hvalid.rooted.prefix_directory hitem hns heq
        rw [hstart] at hdirectory
        cases hdirectory
      rw [hbase.createDirectory_of_file hrooted hplain hne hparts hns heq hfile, blockade, if_pos hnone]
  simp only [Job.Keeps, Operation.run, hcreate, Workspace.afterChange]
  exact ⟨.refl .., trivial, h.after hvalid hp hothers⟩

theorem keeps_makeDirectories_blocked (fuel : Nat)
    (hblocked : ¬b.start.files.Open b.base (b.directories p))
    (hparts : FilePath.parts path = b.way ++ (b.directories p).map .name) :
    b.Keeps p (fun made w' => made = .error (b.blockade p) ∧ b.Noted p ds metadata w')
      (Job.makeDirectories (fuel + 1) path) w := by
  have hne := directories_ne_nil hvalid hblocked
  have hpath : path.isEmpty = false := by simpa using ne_nil_of_parts hne hparts
  have hfound : b.blockade p ≠ .notFound := by
    unfold blockade
    split_ifs <;> decide
  rw [Job.makeDirectories, hpath]
  refine (keeps_createDirectory_blocked hvalid hp h hblocked hparts).bind fun made w' hmade => ?_
  obtain ⟨rfl, hnoted⟩ := hmade
  dsimp only
  rw [if_neg hfound]
  intro w'' hothers hmid
  have hplain : w''.files.Plain b.base (b.directories p) := hmid.plain hvalid (b.place p).directories
  obtain ⟨ns, -, content, hns, -, hfile⟩ := hmid.blocked hvalid hblocked
  have hdirectory := (hmid.base hvalid).not_isDirectory hplain hne hparts (hmid.rooted hvalid) hns hfile
  simp only [Operation.run, hdirectory]
  exact ⟨.refl .., rfl, hnoted.after hvalid hp hothers⟩

/-- The module of an entry stands where it is written, below its directories. -/
structure Stands (b : Batch) (p : FilePath) (module : Text) (w : Workspace) : Prop where
  directories : b.Leads (b.directories p) w
  file : b.start.files.get? (b.output p module) ≠ some .directory →
    w.files.get? (b.output p module) = some (.file (Text.bytes module))

theorem keeps_storeFile (hrendered : b.rendered p = .ok m) :
    b.Keeps p (fun result w' => result = b.stored p m ∧ b.Noted p ds metadata w' ∧
        (b.Plans p m → b.Stands p m w'))
      (Job.storeFile (Bundle.modulePath b.request p m) m) w := by
  obtain ⟨parent, hparent, hparts⟩ := (hvalid.isAt p hp).parent?_modulePath m
  have hparts' : FilePath.parts parent = b.way ++ (b.directories p).map .name := by
    rw [hparts, hvalid.assets, Batch.directories, List.map_append, List.append_assoc]
  rw [Job.storeFile, Job.makeParent, hparent]
  by_cases hfree : b.start.files.Open b.base (b.directories p)
  · have hplans : b.Plans p m := ⟨hp, hrendered, hfree⟩
    have hlength : (b.directories p).length ≤ parent.length + 1 := by
      have hle := FilePath.length_parts_le parent
      rw [hparts', List.length_append, List.length_map] at hle
      omega
    have hmade := keeps_makeDirectories hvalid hp h hplans List.prefix_rfl hparts' hlength
    refine hmade.bind fun made w' hmade => ?_
    obtain ⟨rfl, hleads, hnoted⟩ := hmade
    intro w'' hothers hmid
    have hnoted' := hnoted.after hvalid hp hothers
    have hleads' := hleads.after hothers
    obtain ⟨n, hn⟩ := b.moduleNames_eq p m
    have hplain := hmid.plain hvalid ((b.place p).moduleNames (Digest.short (Text.bytes m)))
    rw [← moduleNames, hn] at hplain
    have hout := hvalid.parts_modulePath hp m
    rw [hn] at hout
    have hdirectory := hleads'.directory hvalid hmid
    have hwrite := (hmid.base hvalid).writeText (hmid.rooted hvalid) hplain hout hdirectory m
    rw [← hn, ← output] at hwrite
    have hne : b.output p m ≠ [] := by simp [output, hn]
    by_cases hoccupied : b.start.files.get? (b.output p m) = some .directory
    · rw [if_pos ((hmid.output_directory_iff hvalid hplans).mpr hoccupied)] at hwrite
      have hstored : b.stored p m = .error .isDirectory := by rw [stored, if_pos hfree, if_pos hoccupied]
      simp only [Operation.run, hwrite, Workspace.afterChange, hstored]
      exact ⟨.refl .., rfl, hnoted', fun _ => ⟨hleads', fun hnot => absurd hoccupied hnot⟩⟩
    · have hnot := mt (hmid.output_directory_iff hvalid hplans).mp hoccupied
      rw [if_neg hnot] at hwrite
      have hdiffers := hmid.differs_module hvalid hplans hdirectory hnot
      have hstored : b.stored p m = .ok () := by rw [stored, if_pos hfree, if_neg hoccupied]
      simp only [Operation.run, hwrite, Workspace.afterChange, hstored]
      refine ⟨hdiffers, rfl, ⟨hnoted'.reports, hnoted'.metadata⟩, fun _ => ⟨hleads'.after hdiffers, ?_⟩⟩
      intro _
      rw [get?_set hne, if_pos rfl]
  · have hblocked := keeps_makeDirectories_blocked hvalid hp h parent.length hfree hparts'
    refine hblocked.bind fun made w' hmade => ?_
    obtain ⟨rfl, hnoted⟩ := hmade
    refine ⟨?_, hnoted, fun hplans => absurd hplans.free hfree⟩
    rw [stored, if_neg hfree]

end

/-! ## The whole entry -/

/-- An entry has been compiled. -/
structure Finished (b : Batch) (p : FilePath) (result : Except BundleError Artifact) (w : Workspace) : Prop where
  result : result = b.answer p
  noted : b.Noted p (b.reports p) (b.metadata? p) w
  stands : ∀ m, b.Plans p m → b.Stands p m w

theorem Finished.after {result : Except BundleError Artifact} (h : b.Finished p result w) (hvalid : b.Valid)
    (hp : p ∈ b.request.entries) (hothers : b.Differs (b.Others p) w w') : b.Finished p result w' where
  result := h.result
  noted := h.noted.after hvalid hp hothers
  stands m hplans := by
    obtain ⟨hdirectories, hfile⟩ := h.stands m hplans
    refine ⟨hdirectories.after hothers, fun hnot => ?_⟩
    rw [hothers.output_kept hvalid hplans]
    exact hfile hnot

theorem not_plans_of_error {e : BundleError} (h : b.rendered p = .error e) (m : Text) : ¬b.Plans p m := by
  intro hplans
  rw [hplans.rendered] at h
  cases h

theorem answer_of_error {e : BundleError} (h : b.rendered p = .error e) : b.answer p = .error e := by
  rw [answer, h]
  rfl

/-- A job that compiles an entry keeps the contract of the entry. -/
theorem keeps_compile (hvalid : b.Valid) (hp : p ∈ b.request.entries) :
    b.Keeps p (b.Finished p) (Job.compile b.start.stage.settings b.request b.registry p) b.start := by
  have hstart : b.Noted p [] (b.start.stage.metadata.at? (b.file p).realPath) b.start :=
    ⟨(List.append_nil _).symm, rfl⟩
  have hread : b.Keeps p _ (Job.readText p) b.start := keeps_query hvalid hp hstart fun _ => rfl
  refine hread.bind fun source w hsource => ?_
  obtain ⟨hsource, hmid, hnoted⟩ := hsource
  have htext : b.start.files.readText p = source := (hmid.steady.documents p hp).symm.trans hsource.symm
  cases source with
  | error e =>
    have hrendered : b.rendered p = .error (.source (.unreadable p e)) := by rw [rendered, htext]
    refine ⟨(answer_of_error hrendered).symm, ?_, fun m hplans => absurd hplans (not_plans_of_error hrendered m)⟩
    rw [reports, metadata?, htext]
    exact hnoted
  | ok text =>
    have hcanonical : b.Keeps p _ (Job.canonical p) w := keeps_query hvalid hp hnoted fun _ => rfl
    refine hcanonical.bind fun realPath w hreal => ?_
    obtain ⟨hreal, hmid, hnoted⟩ := hreal
    have hfile : (⟨p, realPath⟩ : SourceFile) = b.file p := by
      rw [file, SourceFile.ofPath, ← hmid.canonical hp htext]
      exact congrArg (SourceFile.mk p) hreal
    dsimp only
    rw [hfile]
    refine (keeps_transform hvalid hp hnoted htext rfl).bind fun doc w hdoc => ?_
    obtain ⟨rfl, hnoted⟩ := hdoc
    unfold Job.emit
    cases hunresolved : Bundle.unresolved? (Bundle.transformed b.registry p text b.start).1 with
    | some component =>
      have hrendered : b.rendered p = .error (.unresolved p component) := by
        simp only [rendered, htext, hunresolved]
      exact ⟨(answer_of_error hrendered).symm, hnoted,
        fun m hplans => absurd hplans (not_plans_of_error hrendered m)⟩
    | none =>
      have hrendered : b.rendered p =
          .ok (Module.ofDocument (Bundle.transformed b.registry p text b.start).1) := by
        simp only [rendered, htext, hunresolved]
      generalize Module.ofDocument (Bundle.transformed b.registry p text b.start).1 = module at hrendered ⊢
      refine (keeps_storeFile hvalid hp hnoted hrendered).bind fun stored w hstored => ?_
      obtain ⟨hstored, hnoted, hstands⟩ := hstored
      have hall : ∀ m, b.Plans p m → b.Stands p m w := by
        intro m hplans
        obtain rfl := Except.ok.inj (hrendered.symm.trans hplans.rendered)
        exact hstands hplans
      cases stored with
      | ok _ => exact ⟨by simp [answer, hrendered, ← hstored, bind, Except.bind], hnoted, hall⟩
      | error e => exact ⟨by simp [answer, hrendered, ← hstored, bind, Except.bind], hnoted, hall⟩

end StaticSite.Batch
