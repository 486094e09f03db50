import StaticSite.Build.Pipeline
import StaticSite.Proofs.Build.Actions
import StaticSite.Proofs.Compile.OutputMap

/-!
# What the steps of a build owe to each other

Each step is read as a contract: when it finds the outputs that it reads, and none of its own, it adds
its own outputs or fails with the outputs unchanged, and never for want of what another step makes.
Besides, the compiled modules always cover the entries.
-/
namespace StaticSite

namespace Outputs

/-- Whether an output is there, with the type of its key. -/
def Holds (key : OutputKey) (o : Outputs) : Prop := ∃ value, o.get key = .ok value

/-- Outputs with some more keys. -/
structure Adds (keys : List OutputKey) (o o' : Outputs) : Prop where
  get_eq : ∀ key : OutputKey, key.name ∉ keys.map (·.name) → o'.get key = o.get key
  contains_iff : ∀ name,
    o'.contains name = true ↔ o.contains name = true ∨ name ∈ keys.map (·.name)
  holds : ∀ key ∈ keys, o'.Holds key

theorem Adds.refl (o : Outputs) : Adds [] o o := ⟨fun _ _ => rfl, by simp, by simp⟩

theorem adds_insert (key : OutputKey) (value : key.kind.Value) (o : Outputs) :
    Adds [key] o (o.insert key value) where
  get_eq other h := get_insert_of_ne (by simpa using h) value o
  contains_iff name := by simp [contains_insert, or_comm]
  holds other h := by
    obtain rfl := List.mem_singleton.mp h
    exact ⟨value, get_insert_self other value o⟩

theorem Adds.trans {keys keys' : List OutputKey} {o o' o'' : Outputs} (h : Adds keys o o')
    (h' : Adds keys' o' o'') (hdisjoint : ∀ key ∈ keys, key.name ∉ keys'.map (·.name)) :
    Adds (keys ++ keys') o o'' where
  get_eq key hkey := by
    rw [List.map_append, List.mem_append, not_or] at hkey
    rw [h'.get_eq key hkey.2, h.get_eq key hkey.1]
  contains_iff name := by
    rw [h'.contains_iff, h.contains_iff, List.map_append, List.mem_append, or_assoc]
  holds key hkey := by
    rcases List.mem_append.mp hkey with hkey | hkey
    · obtain ⟨value, hvalue⟩ := h.holds key hkey
      exact ⟨value, by rw [h'.get_eq key (hdisjoint key hkey), hvalue]⟩
    · exact h'.holds key hkey

/-- Where there are compiled modules, there are entries, and each of them has a module. -/
def Covered (o : Outputs) : Prop :=
  ∀ modules : Table FilePath, o.get .modules = .ok modules →
    ∃ entries : Table FilePath, o.get .entries = .ok entries ∧
      ∀ entry ∈ entries.names, modules.contains entry = true

theorem covered_empty : empty.Covered := by
  intro modules h
  cases h

theorem get_of_not_contains {key : OutputKey} {o : Outputs} (h : o.contains key.name = false) :
    o.get key = .error (.missing key.name) := by
  have hnone : o.values.get? key.name = none := by
    simpa [contains, Table.contains] using h
  simp [get, hnone]

/-- Other outputs do not matter to what modules cover. -/
theorem Covered.adds {keys : List OutputKey} {o o' : Outputs} (h : o.Covered) (hadds : Adds keys o o')
    (hentries : OutputKey.entries.name ∉ keys.map (·.name))
    (hmodules : OutputKey.modules.name ∉ keys.map (·.name)) : o'.Covered := by
  intro modules hget
  rw [hadds.get_eq _ hmodules] at hget
  obtain ⟨entries, hget', hcover⟩ := h modules hget
  exact ⟨entries, by rw [hadds.get_eq _ hentries, hget'], hcover⟩

/-- Entries that are new have no modules to cover them. -/
theorem Covered.adds_entries {o o' : Outputs} (h : o.Covered) (hadds : Adds [.entries] o o')
    (hnew : o.contains OutputKey.entries.name = false) : o'.Covered := by
  intro modules hget
  rw [hadds.get_eq _ (by decide)] at hget
  obtain ⟨entries, hget', -⟩ := h modules hget
  rw [get_of_not_contains hnew] at hget'
  cases hget'

/-- Modules of all entries cover them, whatever the metadata beside them. -/
theorem covered_compiled {o : Outputs} {entries modules : Table FilePath}
    (hentries : o.get .entries = .ok entries)
    (hcover : ∀ entry ∈ entries.names, modules.contains entry = true) (metadata : Table FrontMatter) :
    ((o.insert .modules modules).insert .pageMetadata metadata).Covered := by
  intro modules' hget
  have hmodules := (@get_insert_of_ne .pageMetadata .modules (by decide) metadata
    (o.insert .modules modules)).trans (get_insert_self .modules modules o)
  obtain rfl : modules = modules' := Except.ok.inj (hmodules.symm.trans hget)
  refine ⟨entries, ?_, hcover⟩
  have hfirst := @get_insert_of_ne .modules .entries (by decide) modules o
  have hsecond := @get_insert_of_ne .pageMetadata .entries (by decide) metadata
    (o.insert .modules modules)
  exact (hsecond.trans hfirst).trans hentries

end Outputs

namespace Step

open Action Outputs

variable (context : BuildContext) (record : RunRecord)

/-- What a step reads and what it writes. -/
def Fulfils (reads writes : List OutputKey) (step : Step) : Prop :=
  ∀ o : Outputs, o.Covered → (∀ key ∈ reads, o.Holds key) →
    (∀ key ∈ writes, o.contains key.name = false) →
      Yields o (step.run context record) fun _ o' => Adds writes o o' ∧ o'.Covered

theorem Fulfils.of_leaves {reads : List OutputKey} {step : Step}
    (h : ∀ o : Outputs, (∀ key ∈ reads, o.Holds key) → Leaves o (step.run context record) fun _ => True) :
    Fulfils context record reads [] step := by
  intro o hcovered hreads _
  refine (h o hreads).mono fun _ o' ho' => ?_
  rw [ho'.1]
  exact ⟨Adds.refl o, hcovered⟩

theorem resetDirectories_fulfils : Fulfils context record [] [] resetDirectories := by
  refine Fulfils.of_leaves context record fun o _ => ?_
  have hmake : Leaves o (changeFiles context.paths.output (·.createDirectories context.paths.output))
      fun _ => True := Yields.changeFiles _ _
  dsimp only [resetDirectories]
  split
  · refine Yields.bind (P := fun _ => False) (Yields.throw ?_) fun _ h => h.elim
    rintro ⟨entry, h⟩
    cases h
  · refine Yields.bind Yields.get fun s hs => ?_
    split
    · refine Yields.bind (Yields.set hs) fun _ _ => ?_
      refine Yields.bind (Yields.ofExcept ?_ _) fun _ _ => hmake
      exact fun _ => not_false
    · exact hmake

theorem discoverEntries_fulfils : Fulfils context record [] [.entries] discoverEntries := by
  intro o hcovered _ hnew
  have hnew := hnew .entries List.mem_cons_self
  refine Yields.bind Yields.get fun s _ => ?_
  refine Yields.bind (Yields.ofExcept ?_ _) fun entries _ => ?_
  · exact fun _ => not_false
  · refine (Yields.write .entries entries hnew).mono fun _ o' ho' => ?_
    rw [ho']
    have hadds := adds_insert .entries entries o
    exact ⟨hadds, hcovered.adds_entries hadds hnew⟩

/-- Writing an output that modules have nothing to do with. -/
theorem yields_write {o : Outputs} (hcovered : o.Covered) (key : OutputKey) (value : key.kind.Value)
    (hentries : OutputKey.entries.name ≠ key.name) (hmodules : OutputKey.modules.name ≠ key.name)
    (hnew : ∀ other ∈ [key], o.contains other.name = false) :
    Yields o (Action.write key value) fun _ o' => Adds [key] o o' ∧ o'.Covered := by
  refine (Yields.write key value (hnew key List.mem_cons_self)).mono fun _ o' ho' => ?_
  rw [ho']
  have hadds := adds_insert key value o
  exact ⟨hadds, hcovered.adds hadds (by simpa using hentries) (by simpa using hmodules)⟩

theorem scanComponents_fulfils : Fulfils context record [] [.components] scanComponents := by
  intro o hcovered _ hnew
  exact Yields.bind Yields.get fun s _ =>
    yields_write hcovered .components _ (by decide) (by decide) hnew

theorem compileContent_fulfils :
    Fulfils context record [.entries, .components] [.modules, .pageMetadata] compileContent := by
  intro o hcovered hreads hnew
  obtain ⟨entries, hentries⟩ := hreads .entries (by simp)
  obtain ⟨registry, hregistry⟩ := hreads .components (by simp)
  have hmodules := hnew .modules (by simp)
  have hmetadata := hnew .pageMetadata (by simp)
  dsimp only [compileContent]
  refine Yields.read_bind hentries (Yields.read_bind hregistry ?_)
  refine Yields.bind Yields.get fun s hs => ?_
  refine Yields.bind (Yields.set hs) fun _ _ => ?_
  split
  · refine Yields.bind (P := fun _ => False) (Yields.throw ?_) fun _ h => h.elim
    exact not_false
  · refine Yields.bind (Yields.ofExcept ?_ _) fun artifacts _ => ?_
    · exact fun _ => not_false
    refine Yields.bind (Yields.ofExcept ?_ _) fun modules hofArtifacts => ?_
    · exact fun _ => not_false
    refine (Yields.write_write .modules .pageMetadata modules _ hmodules hmetadata (by decide)).mono ?_
    rintro _ o' rfl
    exact ⟨(adds_insert .modules modules o).trans (adds_insert .pageMetadata _ _) (by decide),
      covered_compiled hentries (OutputMap.ofArtifacts_spec hofArtifacts).2 _⟩

theorem generateStyles_fulfils : Fulfils context record [] [.stylesheet] generateStyles := by
  intro o hcovered _ hnew
  refine Yields.bind Yields.get fun s _ => ?_
  refine Yields.bind (Yields.forIn _ _ _ fun sheet styles => ?_) fun styles _ => ?_
  · refine Yields.bind (Yields.ofExcept ?_ _) fun source _ => Yields.pure ⟨rfl, trivial⟩
    exact fun _ => not_false
  refine Yields.bind (Yields.changeFiles _ _) fun _ _ => ?_
  refine Yields.bind (Yields.changeFiles _ _) fun _ _ => ?_
  exact yields_write hcovered .stylesheet _ (by decide) (by decide) hnew

theorem leaves_copyFile (o : Outputs) (source output relative : FilePath) :
    Leaves o (copyFile source output relative) fun _ => True :=
  Yields.bind (Yields.makeParent _) fun _ _ => Yields.changeFiles _ _

/-- Copying goes down the directories, and touches nothing but files. -/
theorem leaves_copyBelow (o : Outputs) (source output : FilePath) (fuel : Nat) (p : RealPath)
    (relative : FilePath) : Leaves o (copyBelow source output fuel p relative) fun _ => True := by
  induction fuel generalizing p relative with
  | zero => exact Yields.pure ⟨rfl, trivial⟩
  | succ fuel ih =>
    refine Yields.bind Yields.get fun s _ => ?_
    refine Yields.bind (Yields.forIn _ _ _ fun child copied => ?_) fun copied _ =>
      Yields.pure ⟨rfl, trivial⟩
    obtain ⟨name, item⟩ := child
    cases item with
    | file content =>
      exact Yields.bind (leaves_copyFile o _ _ _) fun _ _ => Yields.pure ⟨rfl, trivial⟩
    | directory => exact Yields.bind (ih _ _) fun _ _ => Yields.pure ⟨rfl, trivial⟩
    | link target => exact Yields.pure ⟨rfl, trivial⟩

theorem copyStatic_fulfils : Fulfils context record [] [.staticFiles] copyStatic := by
  intro o hcovered _ hnew
  dsimp only [copyStatic]
  refine Yields.bind Yields.get fun s _ => ?_
  split
  · exact Yields.bind (leaves_copyBelow o _ _ _ _ _) fun copied _ =>
      yields_write hcovered .staticFiles copied (by decide) (by decide) hnew
  · exact Yields.bind (P := fun _ => True) (Yields.pure ⟨rfl, trivial⟩) fun copied _ =>
      yields_write hcovered .staticFiles copied (by decide) (by decide) hnew

theorem prerender_fulfils : Fulfils context record [.modules] [.prerendered] prerender := by
  intro o hcovered hreads hnew
  obtain ⟨modules, hmodules⟩ := hreads .modules List.mem_cons_self
  refine Yields.read_bind hmodules (Yields.bind Yields.get fun s _ => ?_)
  refine Yields.bind (Yields.ofExcept ?_ _) fun pages _ => ?_
  · exact fun _ => not_false
  · exact yields_write hcovered .prerendered pages (by decide) (by decide) hnew

theorem leaves_writeShell (o : Outputs) (c : ShellContext) (entry : Text) :
    Leaves o (writeShell context c entry) fun _ => True := by
  refine Yields.bind (Yields.ofExcept ?_ _) fun html _ => ?_
  · exact fun _ => not_false
  refine Yields.bind (Yields.makeParent _) fun _ _ => ?_
  exact Yields.bind (Yields.changeFiles _ _) fun _ _ => Yields.pure ⟨rfl, trivial⟩

/-- Shells of entries that have modules do not fail for want of a module. -/
theorem leaves_writeShellsOf (o : Outputs) (base : Option Text) (stylesheet : Text)
    (modules : Table FilePath) (pages : Table Text) (entries : List Text)
    (h : ∀ entry ∈ entries, modules.contains entry = true) :
    Leaves o (writeShellsOf context base stylesheet modules pages entries) fun _ => True := by
  induction entries with
  | nil => exact Yields.pure ⟨rfl, trivial⟩
  | cons entry entries ih =>
    obtain ⟨hentry, hentries⟩ := List.forall_mem_cons.mp h
    obtain ⟨module, hmodule⟩ := Option.isSome_iff_exists.mp hentry
    simp only [writeShellsOf, hmodule]
    refine Yields.bind (leaves_writeShell context o _ _) fun path _ => ?_
    exact Yields.bind (ih hentries) fun rest _ => Yields.pure ⟨rfl, trivial⟩

/-- The outputs that the shells of pages are made of. -/
def shellInputs (options : BuildOptions) : List OutputKey :=
  [.entries, .modules, .stylesheet] ++ if options.prerender then [.prerendered] else []

theorem writeShells_fulfils :
    Fulfils context record (shellInputs record.options) [.htmlFiles] writeShells := by
  intro o hcovered hreads hnew
  obtain ⟨modules, hmodules⟩ := hreads .modules (by simp [shellInputs])
  obtain ⟨stylesheet, hstylesheet⟩ := hreads .stylesheet (by simp [shellInputs])
  obtain ⟨entries, hentries, hcover⟩ := hcovered modules hmodules
  have hwrite (pages : Table Text) : Yields o (do
      Action.write .htmlFiles
        (← writeShellsOf context record.options.base stylesheet modules pages entries.names))
      fun _ o' => Adds [.htmlFiles] o o' ∧ o'.Covered :=
    Yields.bind (leaves_writeShellsOf context o _ _ _ _ _ hcover) fun files _ =>
      yields_write hcovered .htmlFiles files (by decide) (by decide) hnew
  refine Yields.read_bind hentries (Yields.read_bind hmodules (Yields.read_bind hstylesheet ?_))
  split
  · rename_i hprerender
    obtain ⟨pages, hpages⟩ := hreads .prerendered (by simp [shellInputs, hprerender])
    exact Yields.read_bind hpages (hwrite pages)
  · exact hwrite []

theorem leaves_injectInto (o : Outputs) (path : FilePath) (head : Head) :
    Leaves o (injectInto path head) fun _ => True := by
  refine Yields.bind Yields.get fun s _ => Yields.bind (Yields.ofExcept ?_ _) fun html _ => ?_
  · exact fun _ => not_false
  · exact Yields.changeFiles _ _

theorem injectHead_fulfils : Fulfils context record [.htmlFiles, .pageMetadata] [] injectHead := by
  refine Fulfils.of_leaves context record fun o hreads => ?_
  obtain ⟨htmlFiles, hhtmlFiles⟩ := hreads .htmlFiles (by simp)
  obtain ⟨metadata, hmetadata⟩ := hreads .pageMetadata (by simp)
  refine Yields.read_bind hhtmlFiles (Yields.read_bind hmetadata ?_)
  refine Yields.bind (Yields.forIn _ _ _ fun page _ => ?_) fun _ _ => Yields.pure ⟨rfl, trivial⟩
  exact Yields.bind (leaves_injectInto o _ _) fun _ _ => Yields.pure ⟨rfl, trivial⟩

end Step

end StaticSite
