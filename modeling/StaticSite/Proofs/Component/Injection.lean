import StaticSite.Component.Imports
import StaticSite.Proofs.Component.Registry
import StaticSite.Proofs.Document.References
import StaticSite.Proofs.Text.Order

/-!
# What becomes of the components of a document

A component that a document invokes without binding it is imported, or reported, or left alone, and nothing
else happens to the document: the imports stand after its front matter in the order of their names, and its
nodes are kept, if need be inside a page wrapper.
-/
namespace StaticSite

variable {tree : FileTree} {registry : Registry} {wrapper : Option Text} {file : SourceFile} {doc : Document}
  {exports : ExportCache} {name : Text}

namespace Diagnostic

def component : Diagnostic → Text
  | ambiguous _ component _ => component
  | malformed _ component _ _ => component

end Diagnostic

namespace Injection

/-- The ways to treat a component that a document invokes without binding it, each with the imports and the
diagnostics that it gives rise to. -/
inductive Treated (registry : Registry) (file : SourceFile) (name : Text) :
    List EsModule.Import → List Diagnostic → Prop where
  /-- No file defines the component: it is left alone. -/
  | unregistered (hfiles : registry.files name = []) : Treated registry file name [] []
  /-- Several files define the component: all of them are reported. -/
  | ambiguous (hfiles : 1 < (registry.files name).length) :
      Treated registry file name [] [.ambiguous file.path name (registry.files name)]
  /-- The file that defines the component is imported under its name. -/
  | imported (path : FilePath) (kind : EsModule.ImportKind) (i : EsModule.Import)
      (hfiles : registry.files name = [path])
      (hparse : EsModule.Import.parse
        (EsModule.Import.statement ⟨name, kind, FilePath.specifier file.directory path⟩) = .ok i) :
      Treated registry file name [⟨name, kind, FilePath.specifier file.directory path⟩] []
  /-- The import of the file that defines the component cannot be written, which is reported. -/
  | malformed (path : FilePath) (kind : EsModule.ImportKind) (e : EsModule.ImportError)
      (hfiles : registry.files name = [path])
      (hparse : EsModule.Import.parse
        (EsModule.Import.statement ⟨name, kind, FilePath.specifier file.directory path⟩) = .error e) :
      Treated registry file name []
        [.malformed file.path name
          (EsModule.Import.statement ⟨name, kind, FilePath.specifier file.directory path⟩) e.message]

theorem filter_key_self {α β : Type} [DecidableEq β] {key : α → β} {b : β} {xs : List α}
    (h : ∀ x ∈ xs, key x = b) : xs.filter (key · = b) = xs := by
  simpa using h

theorem filter_key_other {α β : Type} [DecidableEq β] {key : α → β} {b : β} {xs : List α}
    (h : ∀ x ∈ xs, key x ≠ b) : xs.filter (key · = b) = [] := by
  simpa using h

namespace Treated

variable {imports : List EsModule.Import} {diagnostics : List Diagnostic}

theorem bindings (h : Treated registry file name imports diagnostics) :
    (imports.map (·.binding)).Sublist [name] := by
  cases h <;> simp

theorem binding_eq (h : Treated registry file name imports diagnostics) :
    ∀ i ∈ imports, i.binding = name := by
  cases h <;> simp

theorem component_eq (h : Treated registry file name imports diagnostics) :
    ∀ d ∈ diagnostics, d.component = name := by
  cases h <;> simp [Diagnostic.component]

end Treated

/-- Some components are treated, each in one way, and nothing is done about others. -/
structure TreatedAll (registry : Registry) (file : SourceFile) (names : List Text)
    (imports : List EsModule.Import) (diagnostics : List Diagnostic) : Prop where
  bindings : (imports.map (·.binding)).Sublist names
  components : ∀ d ∈ diagnostics, d.component ∈ names
  treated : ∀ name ∈ names, Treated registry file name (imports.filter (·.binding = name))
    (diagnostics.filter (·.component = name))

namespace TreatedAll

variable {names : List Text} {imports is : List EsModule.Import} {diagnostics ds : List Diagnostic}

theorem nil : TreatedAll registry file [] [] [] := ⟨.slnil, by simp, by simp⟩

theorem cons (hname : name ∉ names) (h : Treated registry file name is ds)
    (hall : TreatedAll registry file names imports diagnostics) :
    TreatedAll registry file (name :: names) (is ++ imports) (ds ++ diagnostics) := by
  refine ⟨?_, fun d hd => ?_, fun other hother => ?_⟩
  · rw [List.map_append]
    exact h.bindings.append hall.bindings
  · rcases List.mem_append.mp hd with hd | hd
    · exact h.component_eq d hd ▸ List.mem_cons_self
    · exact List.mem_cons_of_mem _ (hall.components d hd)
  · rw [List.filter_append, List.filter_append]
    by_cases heq : other = name
    · subst heq
      have himports : ∀ i ∈ imports, i.binding ≠ other := by
        intro i hi hbinding
        exact hname (hbinding ▸ hall.bindings.subset (List.mem_map_of_mem hi))
      have hdiagnostics : ∀ d ∈ diagnostics, d.component ≠ other := by
        intro d hd hcomponent
        exact hname (hcomponent ▸ hall.components d hd)
      rw [filter_key_self h.binding_eq, filter_key_self h.component_eq, filter_key_other himports,
        filter_key_other hdiagnostics, List.append_nil, List.append_nil]
      exact h
    · have his : ∀ i ∈ is, i.binding ≠ other := by
        intro i hi hbinding
        exact heq (hbinding.symm.trans (h.binding_eq i hi))
      have hds : ∀ d ∈ ds, d.component ≠ other := by
        intro d hd hcomponent
        exact heq (hcomponent.symm.trans (h.component_eq d hd))
      rw [filter_key_other his, filter_key_other hds, List.nil_append, List.nil_append]
      exact hall.treated other ((List.mem_cons.mp hother).resolve_left heq)

end TreatedAll

/-! ## One component after the other -/

def statement? : ImportOutcome → Option Text
  | .imported statement => some statement
  | _ => none

def diagnostic? : ImportOutcome → Option Diagnostic
  | .reported d => some d
  | _ => none

theorem outcome_treated (tree : FileTree) (registry : Registry) (file : SourceFile) (name : Text)
    (exports : ExportCache) :
    ∃ imports : List EsModule.Import,
      (statement? (outcome tree registry file name exports).1).toList = imports.map (·.statement) ∧
      Treated registry file name imports
        (diagnostic? (outcome tree registry file name exports).1).toList := by
  unfold outcome
  split_ifs with hcontains hconflict
  · have hfiles := Registry.files_of_not_contains (by simpa using hcontains)
    exact ⟨[], rfl, .unregistered hfiles⟩
  · exact ⟨[], rfl, .ambiguous (by simpa [Registry.isConflict] using hconflict)⟩
  · cases hfiles : registry.files name with
    | nil =>
      have hresolve : registry.resolve? name = none := by simp [Registry.resolve?, hfiles]
      rw [hresolve]
      exact ⟨[], rfl, .unregistered hfiles⟩
    | cons path others =>
      obtain rfl : others = [] := by simpa [Registry.isConflict, hfiles] using hconflict
      have hresolve : registry.resolve? name = some path := by simp [Registry.resolve?, hfiles]
      rw [hresolve]
      dsimp only [importOf]
      split
      · rename_i i hparse
        exact ⟨[_], rfl, .imported path _ i hfiles hparse⟩
      · rename_i e hparse
        exact ⟨[], rfl, .malformed path _ e hfiles hparse⟩

theorem filterMap_outcomes_cons {α : Type} (f : ImportOutcome → Option α) (first : Text)
    (names : List Text) (exports : ExportCache) :
    (outcomes tree registry file (first :: names) exports).1.filterMap f =
      (f (outcome tree registry file first exports).1).toList ++
        (outcomes tree registry file names (outcome tree registry file first exports).2).1.filterMap f := by
  cases hf : f (outcome tree registry file first exports).1 <;> simp [outcomes, hf]

theorem outcomes_treated (tree : FileTree) (registry : Registry) (file : SourceFile) {names : List Text}
    (hnodup : names.Nodup) (exports : ExportCache) :
    ∃ imports : List EsModule.Import,
      (outcomes tree registry file names exports).1.filterMap statement? = imports.map (·.statement) ∧
      TreatedAll registry file names imports
        ((outcomes tree registry file names exports).1.filterMap diagnostic?) := by
  induction names generalizing exports with
  | nil => exact ⟨[], rfl, .nil⟩
  | cons first names ih =>
    obtain ⟨hfirst, hnodup⟩ := List.nodup_cons.mp hnodup
    obtain ⟨is, his, htreated⟩ := outcome_treated tree registry file first exports
    obtain ⟨imports, himports, hall⟩ := ih hnodup (outcome tree registry file first exports).2
    rw [filterMap_outcomes_cons, filterMap_outcomes_cons, his, himports, ← List.map_append]
    exact ⟨is ++ imports, rfl, .cons hfirst htreated hall⟩

/-! ## The whole document -/

/-- A document is put into the page wrapper: the wrapper is registered, and the document does not know it. -/
structure Wraps (registry : Registry) (wrapper : Option Text) (doc : Document) (name : Text) : Prop where
  setting : wrapper = some name
  registered : registry.contains name = true
  not_invoked : ¬doc.Invokes name
  not_bound : ¬doc.Binds name

/-- A component is invoked, by the document or by the wrapper around it, without being bound. -/
def Needs (registry : Registry) (wrapper : Option Text) (doc : Document) (name : Text) : Prop :=
  (doc.Invokes name ∨ Wraps registry wrapper doc name) ∧ ¬doc.Binds name

theorem wraps_eq_true_iff :
    wraps registry (References.ofDocument doc) name = true ↔ Wraps registry (some name) doc name := by
  have hiff : wraps registry (References.ofDocument doc) name = true ↔
      (registry.contains name = true ∧ name ∉ (References.ofDocument doc).invoked) ∧
        name ∉ (References.ofDocument doc).bound := by
    simp [wraps]
  rw [hiff, References.mem_invoked_ofDocument, References.mem_bound_ofDocument]
  constructor
  · rintro ⟨⟨hregistered, hinvoked⟩, hbound⟩
    exact ⟨rfl, hregistered, hinvoked, hbound⟩
  · rintro ⟨-, hregistered, hinvoked, hbound⟩
    exact ⟨⟨hregistered, hinvoked⟩, hbound⟩

/-- The injection of the imports of some components into a document. -/
def addImports (tree : FileTree) (registry : Registry) (file : SourceFile) (names : List Text)
    (doc : Document) (exports : ExportCache) : Injection :=
  let (outcomes, exports) := outcomes tree registry file names exports
  ⟨insertStatements (outcomes.filterMap statement?) doc, (outcomes.filterMap statement?).length,
    outcomes.filterMap diagnostic?, exports⟩

theorem inject_of_not_wraps (h : ∀ name, ¬Wraps registry wrapper doc name) :
    inject tree registry wrapper file doc exports =
      addImports tree registry file (References.ofDocument doc).missing doc exports := by
  cases wrapper with
  | none => rfl
  | some w =>
    have hnot : ¬wraps registry (References.ofDocument doc) w = true :=
      fun hwraps => h w (wraps_eq_true_iff.mp hwraps)
    simp only [inject, if_neg hnot]
    rfl

theorem inject_of_wraps (h : Wraps registry wrapper doc name) :
    inject tree registry wrapper file doc exports =
      addImports tree registry file
        (References.mk (EsModule.insertName name (References.ofDocument doc).invoked)
          (References.ofDocument doc).bound).missing (wrap name doc) exports := by
  obtain rfl := h.setting
  simp only [inject, if_pos (wraps_eq_true_iff.mpr h)]
  rfl

/-- The nodes of some imports. -/
def importNodes (imports : List EsModule.Import) : List Node := imports.map fun i => .declarations i.statement

/-- Some nodes stand in a document directly after the front matter at its start. -/
def StandAfterFrontMatter (nodes doc result : Document) : Prop :=
  ∃ front rest : Document, doc = front ++ rest ∧ result = front ++ nodes ++ rest ∧
    (∀ node ∈ front, isFrontMatter node = true) ∧ ∀ node ∈ rest.head?, isFrontMatter node = false

theorem insertStatements_stand (statements : List Text) (doc : Document) :
    StandAfterFrontMatter (statements.map .declarations) doc (insertStatements statements doc) := by
  refine ⟨doc.takeWhile isFrontMatter, doc.dropWhile isFrontMatter, ?_, rfl, ?_, ?_⟩
  · exact List.takeWhile_append_dropWhile.symm
  · exact List.all_eq_true.mp List.all_takeWhile
  · intro node hnode
    have hhead := List.head?_dropWhile_not isFrontMatter doc
    rw [Option.mem_def.mp hnode] at hhead
    exact hhead

theorem StandAfterFrontMatter.flattenAll_perm {nodes doc result : Document}
    (h : StandAfterFrontMatter nodes doc result) :
    (Node.flattenAll result).Perm (Node.flattenAll nodes ++ Node.flattenAll doc) := by
  obtain ⟨front, rest, rfl, rfl, -, -⟩ := h
  simp only [Node.flattenAll_append]
  rw [← List.append_assoc (Node.flattenAll nodes)]
  exact List.perm_append_comm.append_right _

theorem flattenAll_importNodes (imports : List EsModule.Import) :
    Node.flattenAll (importNodes imports) = importNodes imports := by
  rw [Node.flattenAll_eq_flatMap, importNodes, List.flatMap_map, List.map_eq_flatMap]
  rfl

theorem flattenAll_wrap_perm (name : Text) (doc : Document) :
    (Node.flattenAll (wrap name doc)).Perm
      (.element name [] (doc.filter fun node => !isTopLevel node) :: Node.flattenAll doc) := by
  have hparts : (Node.flattenAll (doc.filter isTopLevel) ++
      Node.flattenAll (doc.filter fun node => !isTopLevel node)).Perm (Node.flattenAll doc) := by
    rw [← Node.flattenAll_append, Node.flattenAll_eq_flatMap, Node.flattenAll_eq_flatMap]
    exact (List.filter_append_perm isTopLevel doc).flatMap_right _
  rw [wrap, Node.flattenAll_append]
  simp only [Node.flattenAll, Node.flatten, List.append_nil]
  exact List.perm_middle.trans (hparts.cons _)

theorem addImports_spec (tree : FileTree) (registry : Registry) (file : SourceFile) {names : List Text}
    (hnames : names.Pairwise (· < ·)) (doc : Document) (exports : ExportCache) :
    ∃ imports, TreatedAll registry file names imports
        (addImports tree registry file names doc exports).diagnostics ∧
      (addImports tree registry file names doc exports).count = imports.length ∧
      StandAfterFrontMatter (importNodes imports) doc
        (addImports tree registry file names doc exports).document := by
  obtain ⟨imports, hstatements, htreated⟩ :=
    outcomes_treated tree registry file (hnames.imp ne_of_lt) exports
  have hstand := insertStatements_stand (imports.map (·.statement)) doc
  refine ⟨imports, htreated, ?_, ?_⟩
  · simp [addImports, hstatements]
  · simpa [addImports, hstatements, importNodes, Function.comp_def] using hstand

theorem mem_missing_iff_needs (h : ∀ name, ¬Wraps registry wrapper doc name) :
    name ∈ (References.ofDocument doc).missing ↔ Needs registry wrapper doc name := by
  rw [References.mem_missing, References.mem_invoked_ofDocument, References.mem_bound_ofDocument, Needs]
  have := h name
  tauto

theorem mem_missing_wrapped_iff_needs {w : Text} (h : Wraps registry wrapper doc w) :
    name ∈ (References.mk (EsModule.insertName w (References.ofDocument doc).invoked)
        (References.ofDocument doc).bound).missing ↔ Needs registry wrapper doc name := by
  have hwraps : Wraps registry wrapper doc name ↔ name = w := by
    refine ⟨fun h' => ?_, fun heq => heq ▸ h⟩
    exact Option.some.inj (h'.setting.symm.trans h.setting)
  rw [References.mem_missing, EsModule.mem_insertName, References.mem_invoked_ofDocument,
    References.mem_bound_ofDocument, Needs, hwraps, or_comm]

/-- What the injection of components into a document does, all told, when it adds the given imports. -/
structure Accounts (registry : Registry) (wrapper : Option Text) (file : SourceFile) (doc : Document)
    (imports : List EsModule.Import) (result : Injection) : Prop where
  treated : ∀ name, Needs registry wrapper doc name →
    Treated registry file name (imports.filter (·.binding = name))
      (result.diagnostics.filter (·.component = name))
  only_needed_imported : ∀ i ∈ imports, Needs registry wrapper doc i.binding
  only_needed_reported : ∀ d ∈ result.diagnostics, Needs registry wrapper doc d.component
  count : result.count = imports.length
  ascending : imports.Pairwise fun i j => i.binding.bytes < j.binding.bytes
  unwrapped : (∀ name, ¬Wraps registry wrapper doc name) →
    StandAfterFrontMatter (importNodes imports) doc result.document ∧
      (Node.flattenAll result.document).Perm (importNodes imports ++ Node.flattenAll doc)
  wrapped : ∀ name, Wraps registry wrapper doc name →
    StandAfterFrontMatter (importNodes imports)
        (doc.filter isTopLevel ++ [.element name [] (doc.filter fun node => !isTopLevel node)])
        result.document ∧
      (Node.flattenAll result.document).Perm
        (importNodes imports ++
          .element name [] (doc.filter fun node => !isTopLevel node) :: Node.flattenAll doc)

theorem TreatedAll.pairwise_binding {names : List Text} {imports : List EsModule.Import}
    {diagnostics : List Diagnostic} (h : TreatedAll registry file names imports diagnostics)
    (hnames : names.Pairwise (· < ·)) : imports.Pairwise fun i j => i.binding.bytes < j.binding.bytes := by
  have hbindings := List.pairwise_map.mp (hnames.sublist h.bindings)
  exact hbindings.imp fun hlt => (Text.bytes_lt_bytes_iff _ _).mpr hlt

/-- The account of the imports of the needed components, added to the document or to the wrapped one. -/
theorem addImports_accounts (tree : FileTree) (file : SourceFile) (exports : ExportCache)
    {names : List Text} {changed : Document} (hnames : names.Pairwise (· < ·))
    (hneeds : ∀ name, name ∈ names ↔ Needs registry wrapper doc name)
    (hkept : (∀ name, ¬Wraps registry wrapper doc name) → changed = doc)
    (hwrapped : ∀ name, Wraps registry wrapper doc name → changed = wrap name doc) :
    ∃ imports, Accounts registry wrapper file doc imports
      (addImports tree registry file names changed exports) := by
  obtain ⟨imports, htreated, hcount, hstand⟩ := addImports_spec tree registry file hnames changed exports
  have hperm := hstand.flattenAll_perm
  rw [flattenAll_importNodes] at hperm
  refine ⟨imports, ?_, ?_, ?_, hcount, htreated.pairwise_binding hnames, ?_, ?_⟩
  · exact fun name hname => htreated.treated name ((hneeds name).mpr hname)
  · exact fun i hi => (hneeds i.binding).mp (htreated.bindings.subset (List.mem_map_of_mem hi))
  · exact fun d hd => (hneeds d.component).mp (htreated.components d hd)
  · intro hnone
    obtain rfl := hkept hnone
    exact ⟨hstand, hperm⟩
  · intro name hname
    obtain rfl := hwrapped name hname
    exact ⟨hstand, hperm.trans ((flattenAll_wrap_perm name doc).append_left _)⟩

/-- An injection adds the imports of the needed components, to the document or to the wrapped one. -/
theorem inject_eq_addImports (tree : FileTree) (registry : Registry) (wrapper : Option Text)
    (file : SourceFile) (doc : Document) (exports : ExportCache) :
    ∃ names changed, names.Pairwise (· < ·) ∧
      (∀ name, name ∈ names ↔ Needs registry wrapper doc name) ∧
      ((∀ name, ¬Wraps registry wrapper doc name) → changed = doc) ∧
      (∀ name, Wraps registry wrapper doc name → changed = wrap name doc) ∧
      inject tree registry wrapper file doc exports =
        addImports tree registry file names changed exports := by
  have hinvoked := References.pairwise_invoked_ofDocument doc
  by_cases hwraps : ∃ w, Wraps registry wrapper doc w
  · obtain ⟨w, hw⟩ := hwraps
    have hnames := References.pairwise_missing (r := ⟨EsModule.insertName w
      (References.ofDocument doc).invoked, (References.ofDocument doc).bound⟩)
      (EsModule.pairwise_insertName hinvoked w)
    refine ⟨_, _, hnames, fun name => mem_missing_wrapped_iff_needs hw, fun hnone => absurd hw (hnone w),
      fun name hname => ?_, inject_of_wraps hw⟩
    rw [Option.some.inj (hname.setting.symm.trans hw.setting)]
  · have hnone : ∀ w, ¬Wraps registry wrapper doc w := not_exists.mp hwraps
    have hnames := References.pairwise_missing (r := References.ofDocument doc) hinvoked
    exact ⟨_, _, hnames, fun name => mem_missing_iff_needs hnone, fun _ => rfl,
      fun w hw => absurd hw (hnone w), inject_of_not_wraps hnone⟩

/-- Every component that a document needs is treated in one way, and nothing of the document is lost. -/
theorem inject_accounts (tree : FileTree) (registry : Registry) (wrapper : Option Text)
    (file : SourceFile) (doc : Document) (exports : ExportCache) :
    ∃ imports, Accounts registry wrapper file doc imports
      (inject tree registry wrapper file doc exports) := by
  obtain ⟨names, changed, hnames, hneeds, hkept, hwrapped, hinject⟩ :=
    inject_eq_addImports tree registry wrapper file doc exports
  rw [hinject]
  exact addImports_accounts tree file exports hnames hneeds hkept hwrapped

end Injection

end StaticSite
