import StaticSite.Compile.Bundle
import StaticSite.Proofs.Component.Injection
import StaticSite.Proofs.EsModule.Bindings
import StaticSite.Proofs.FilePath.Parts

/-!
# Resolved components

The bundler rejects a document that invokes a component without binding it, and takes the bindings from the
text of the declarations. When a document is transformed without a report, the statements that the transform
has written are read as bindings of the components for which they were written, so that only the components
without a file are left over.
-/
namespace StaticSite

namespace FilePath

theorem unspaced_partOf? {segment : Text} {part : Part} (hsegment : segment.Unspaced)
    (h : partOf? segment = some part) : part.text.Unspaced := by
  unfold partOf? at h
  split_ifs at h
  · obtain rfl := Option.some.inj h
    decide
  · obtain rfl := Option.some.inj h
    exact hsegment

theorem unspaced_firstPart? {segment : Text} {more : Bool} {part : Part} (hsegment : segment.Unspaced)
    (h : firstPart? segment more = some part) : part.text.Unspaced := by
  unfold firstPart? at h
  split_ifs at h
  · obtain rfl := Option.some.inj h
    decide
  · obtain rfl := Option.some.inj h
    decide
  · exact unspaced_partOf? hsegment h

theorem unspaced_parts {p : FilePath} (hp : Text.Unspaced p) : ∀ part ∈ parts p, part.text.Unspaced := by
  have hsegments : ∀ segment ∈ Text.splitOn '/' p, Text.Unspaced segment :=
    fun segment hsegment c hc => hp c (Text.mem_of_mem_splitBy hsegment hc)
  intro part hpart
  unfold parts at hpart
  split at hpart
  · cases hpart
  · rename_i first rest hsplit
    rw [hsplit] at hsegments
    rcases List.mem_append.mp hpart with hpart | hpart
    · exact unspaced_firstPart? (hsegments first List.mem_cons_self) (Option.mem_toList.mp hpart)
    · obtain ⟨segment, hsegment, hpart⟩ := List.mem_filterMap.mp hpart
      exact unspaced_partOf? (hsegments segment (List.mem_cons_of_mem _ hsegment)) hpart

theorem dropCommon_suffix (as bs : List Part) : (dropCommon as bs).2 <:+ bs :=
  ⟨shared as bs, (shared_append_dropCommon as bs).2⟩

theorem unspaced_join {ts : List Text} (h : ∀ t ∈ ts, t.Unspaced) : (Text.join "/".toList ts).Unspaced := by
  induction ts with
  | nil => simp [Text.join, Text.Unspaced]
  | cons t ts ih =>
    cases ts with
    | nil => simpa [Text.join] using h
    | cons u us =>
      have hrest := ih fun x hx => h x (List.mem_cons_of_mem _ hx)
      have ht := h t List.mem_cons_self
      exact (ht.append (by decide)).append hrest

/-- A specifier is made of the names of the file: the names of the directory do not occur in it. -/
theorem unspaced_specifier (directory : FilePath) {target : FilePath} (h : Text.Unspaced target) :
    Text.Unspaced (specifier directory target) := by
  have hdown : ∀ part ∈ (dropCommon (parts directory) (parts target)).2, part.text.Unspaced :=
    fun part hpart => unspaced_parts h part ((dropCommon_suffix _ _).subset hpart)
  have hjoin : (Text.join "/".toList
      ((dropCommon (parts directory) (parts target)).1.map (fun _ => Part.text .up) ++
        (dropCommon (parts directory) (parts target)).2.map Part.text)).Unspaced := by
    refine unspaced_join fun t ht => ?_
    rcases List.mem_append.mp ht with ht | ht
    · obtain ⟨_, -, rfl⟩ := List.mem_map.mp ht
      decide
    · obtain ⟨part, hpart, rfl⟩ := List.mem_map.mp ht
      exact hdown part hpart
  unfold specifier
  dsimp only
  split_ifs
  · exact hjoin
  · exact Text.Unspaced.append (by decide) hjoin

end FilePath

/-- A component is invoked in a document, but neither does a block of it bind the name nor is it registered. -/
structure Document.Lacks (registry : Registry) (doc : Document) (name : Text) : Prop where
  invoked : doc.Invokes name
  not_bound : ¬doc.Binds name
  not_registered : registry.contains name = false

namespace Injection

variable {registry : Registry} {wrapper : Option Text} {file : SourceFile} {doc : Document} {name : Text}
  {imports : List EsModule.Import} {result : Injection}

/-- An import that is added binds its name, which is registered. -/
theorem Accounts.import_spec (h : Accounts registry wrapper file doc imports result)
    (hspaces : registry.Unspaced) {i : EsModule.Import} (hi : i ∈ imports) :
    registry.contains i.binding = true ∧ EsModule.isIdentifier i.binding = true ∧
      EsModule.boundIdentifiers i.statement = [i.binding] := by
  have htreated := h.treated i.binding (h.only_needed_imported i hi)
  have hmem : i ∈ imports.filter (·.binding = i.binding) := by simp [hi]
  generalize imports.filter (·.binding = i.binding) = own at htreated hmem
  generalize result.diagnostics.filter (·.component = i.binding) = reports at htreated
  cases htreated with
  | unregistered | ambiguous | malformed => cases hmem
  | imported path kind j hfiles hparse =>
    rw [← List.mem_singleton.mp hmem] at hparse
    have hpath : path ∈ registry.files i.binding := by simp [hfiles]
    have hspecifier : i.specifier = FilePath.specifier file.directory path :=
      congrArg EsModule.Import.specifier (List.mem_singleton.mp hmem)
    obtain ⟨-, hident, -⟩ :=
      (EsModule.parse_statement_eq_ok_iff (hspaces.unspaced_name hpath) j).mp hparse
    refine ⟨?_, hident, EsModule.boundIdentifiers_statement hident ?_⟩
    · rw [← Bool.not_eq_false]
      intro hcontains
      simp [Registry.files_of_not_contains hcontains] at hfiles
    · rw [hspecifier]
      exact FilePath.unspaced_specifier _ (hspaces.unspaced_path hpath)

/-- When nothing is reported, every needed component with a file is imported. -/
theorem Accounts.exists_import (h : Accounts registry wrapper file doc imports result)
    (hquiet : result.diagnostics = []) (hneeds : Needs registry wrapper doc name)
    (hfiles : registry.files name ≠ []) : ∃ i ∈ imports, i.binding = name := by
  have htreated := h.treated name hneeds
  rw [hquiet, List.filter_nil] at htreated
  generalize hown : imports.filter (·.binding = name) = own at htreated
  cases htreated with
  | unregistered hnone => exact absurd hnone hfiles
  | imported path kind i hpath hparse =>
    have hmem : ⟨name, kind, FilePath.specifier file.directory path⟩ ∈ imports.filter (·.binding = name) := by
      simp [hown]
    exact ⟨_, (List.mem_filter.mp hmem).1, rfl⟩

theorem exists_mem_of_perm_append {α : Type} {P : α → Prop} {xs ys zs : List α} (h : xs.Perm (ys ++ zs)) :
    (∃ x ∈ xs, P x) ↔ (∃ y ∈ ys, P y) ∨ ∃ z ∈ zs, P z := by
  simp only [h.mem_iff, List.mem_append, or_and_right, exists_or]

theorem Accounts.binds_iff (h : Accounts registry wrapper file doc imports result)
    (hspaces : registry.Unspaced) :
    result.document.Binds name ↔ doc.Binds name ∨ ∃ i ∈ imports, i.binding = name := by
  have himports : (∃ node ∈ importNodes imports, name ∈ References.boundBy node) ↔
      ∃ i ∈ imports, i.binding = name := by
    constructor
    · rintro ⟨node, hnode, hname⟩
      obtain ⟨i, hi, rfl⟩ := List.mem_map.mp hnode
      rw [References.boundBy, (h.import_spec hspaces hi).2.2, List.mem_singleton] at hname
      exact ⟨i, hi, hname.symm⟩
    · rintro ⟨i, hi, rfl⟩
      refine ⟨_, List.mem_map_of_mem hi, ?_⟩
      rw [References.boundBy, (h.import_spec hspaces hi).2.2]
      exact List.mem_singleton_self _
  by_cases hwraps : ∃ w, Wraps registry wrapper doc w
  · obtain ⟨w, hw⟩ := hwraps
    rw [Document.Binds, exists_mem_of_perm_append (h.wrapped w hw).2, himports, or_comm]
    simp [Document.Binds, References.boundBy]
  · rw [Document.Binds, exists_mem_of_perm_append (h.unwrapped (not_exists.mp hwraps)).2, himports, or_comm]
    rfl

theorem Accounts.invokes_iff (h : Accounts registry wrapper file doc imports result) :
    result.document.Invokes name ↔ doc.Invokes name ∨
      ∃ w, Wraps registry wrapper doc w ∧ isComponentName w = true ∧ rootName w = name := by
  have himports : ¬∃ node ∈ importNodes imports, References.invokedBy? node = some name := by
    simp [importNodes, References.invokedBy?]
  by_cases hwraps : ∃ w, Wraps registry wrapper doc w
  · obtain ⟨w, hw⟩ := hwraps
    have hwrapper : (∃ w, Wraps registry wrapper doc w ∧ isComponentName w = true ∧ rootName w = name) ↔
        isComponentName w = true ∧ rootName w = name := by
      constructor
      · rintro ⟨w', hw', hname⟩
        rwa [Option.some.inj (hw'.setting.symm.trans hw.setting)] at hname
      · exact fun hname => ⟨w, hw, hname⟩
    rw [hwrapper, Document.Invokes, exists_mem_of_perm_append (h.wrapped w hw).2, or_iff_right himports, or_comm]
    simp [Document.Invokes, References.invokedBy?]
  · have hno : ¬∃ w, Wraps registry wrapper doc w ∧ isComponentName w = true ∧ rootName w = name := by
      rintro ⟨w, hw, -⟩
      exact hwraps ⟨w, hw⟩
    rw [Document.Invokes, exists_mem_of_perm_append (h.unwrapped (not_exists.mp hwraps)).2,
      or_iff_right himports, or_iff_left hno]
    rfl

theorem rootName_of_isIdentifier (h : EsModule.isIdentifier name = true) : rootName name = name := by
  have hdot : '.' ∉ name := EsModule.not_mem_of_isIdentifier h (by decide)
  refine List.takeWhile_eq_self_iff.mpr fun c hc => ?_
  simpa using fun heq : c = '.' => hdot (heq ▸ hc)

/-- What is left unbound by an injection without a report is what the registry does not know. -/
theorem Accounts.missing_iff (h : Accounts registry wrapper file doc imports result)
    (hspaces : registry.Unspaced) (hpopulated : registry.Populated) (hquiet : result.diagnostics = []) :
    name ∈ (References.ofDocument result.document).missing ↔ doc.Lacks registry name := by
  rw [References.mem_missing, References.mem_invoked_ofDocument, References.mem_bound_ofDocument,
    h.invokes_iff, h.binds_iff hspaces, not_or]
  constructor
  · rintro ⟨hinvoked, hbound, himported⟩
    have hregistered : Needs registry wrapper doc name → registry.contains name = false := by
      intro hneeds
      rw [← Bool.not_eq_true]
      intro hcontains
      exact himported (h.exists_import hquiet hneeds (hpopulated name hcontains))
    rcases hinvoked with hinvoked | ⟨w, hw, -, hroot⟩
    · exact ⟨hinvoked, hbound, hregistered ⟨.inl hinvoked, hbound⟩⟩
    · -- the wrapper has been imported, so it is an identifier and is its own root
      have hneeds : Needs registry wrapper doc w := ⟨.inr hw, hw.not_bound⟩
      obtain ⟨i, hi, rfl⟩ := h.exists_import hquiet hneeds (hpopulated w hw.registered)
      rw [rootName_of_isIdentifier (h.import_spec hspaces hi).2.1] at hroot
      exact absurd ⟨i, hi, hroot⟩ himported
  · rintro ⟨hinvoked, hbound, hregistered⟩
    refine ⟨.inl hinvoked, hbound, ?_⟩
    rintro ⟨i, hi, rfl⟩
    simp [(h.import_spec hspaces hi).1] at hregistered

end Injection

namespace Bundle

/-- After a transform without a report, the bundler rejects a document exactly when it invokes a component
that it does not bind and that is not registered, and names the least of these. -/
theorem unresolved?_transform (tree : FileTree) {registry : Registry} (file : SourceFile) (doc : Document)
    (s : Stage) (hspaces : registry.Unspaced) (hpopulated : registry.Populated)
    (hquiet : (s.transform tree registry file doc).2.diagnostics = s.diagnostics) :
    (unresolved? (s.transform tree registry file doc).1 = none ↔ ∀ name, ¬doc.Lacks registry name) ∧
      ∀ name, unresolved? (s.transform tree registry file doc).1 = some name ↔
        doc.Lacks registry name ∧
          ∀ other, doc.Lacks registry other → other ≠ name → name.bytes < other.bytes := by
  obtain ⟨names, changed, hnames, hneeds, hkept, hwrapped, hinject⟩ :=
    Injection.inject_eq_addImports tree registry s.settings.pageWrapper file doc s.exports
  obtain ⟨imports, haccounts⟩ :=
    Injection.addImports_accounts tree file s.exports hnames hneeds hkept hwrapped
  rw [← hinject] at haccounts
  have hnone : (Injection.inject tree registry s.settings.pageWrapper file doc s.exports).diagnostics = [] := by
    simpa [Stage.transform] using hquiet
  have hdocument : unresolved? (s.transform tree registry file doc).1 =
      (References.ofDocument (Injection.inject tree registry s.settings.pageWrapper file doc
        s.exports).document).missing.head? := by
    rw [unresolved?, Stage.transform]
    dsimp only
    rw [Stage.rebase, References.ofDocument_rebaseNodes]
  have hmissing (name : Text) : name ∈ (References.ofDocument (Injection.inject tree registry
      s.settings.pageWrapper file doc s.exports).document).missing ↔ doc.Lacks registry name :=
    haccounts.missing_iff hspaces hpopulated hnone
  rw [hdocument]
  constructor
  · rw [List.head?_eq_none_iff, List.eq_nil_iff_forall_not_mem]
    simp only [hmissing]
  · intro name
    have hascending := References.pairwise_missing (References.pairwise_invoked_ofDocument
      (Injection.inject tree registry s.settings.pageWrapper file doc s.exports).document)
    rw [References.head?_eq_some_iff hascending]
    simp only [hmissing, Text.bytes_lt_bytes_iff]

/-- A page that uses a registered component, twice, and two that are not. -/
def page : Document :=
  [.frontMatter [], .element "Tabs.Item" [] [.element "Card" [] [], .element "Chart" [] []],
    .element "Card" [] [], .declarations "export const Tabs = 1"]

def pageFile : SourceFile := ⟨"/site/content/page.mdx", "/site/content/page.mdx"⟩

def pageRegistry : Registry :=
  (Registry.empty.insert "Card" "/site/components/Card.tsx").insert "Layout" "/site/components/Layout.tsx"

def pageStage : Stage := .ofSettings ⟨"/site/content", none, some "Layout".toList⟩

theorem page_lacks_chart :
    page.Lacks pageRegistry "Chart" ∧
      ∀ other, page.Lacks pageRegistry other → other ≠ "Chart".toList →
        Text.bytes "Chart" < Text.bytes other := by
  have hpopulated : pageRegistry.Populated := (Registry.populated_empty.insert _ _).insert _ _
  have hspaces : pageRegistry.Unspaced := by decide
  have hspec := unresolved?_transform .empty pageFile page pageStage hspaces hpopulated (by decide)
  exact (hspec.2 "Chart").mp (by decide)

end Bundle

end StaticSite
